import Keva.Lib.Amortized
import Keva.Net.Buffers

/-!
# What the compaction of a read buffer costs

`fill_read_buffer` moves what has not been consumed to the front when more than half of the buffer
has been consumed. The bytes that it moves are then fewer than those consumed since the last time,
and a buffer that has been filled is never more than half consumed.
-/

namespace Keva

namespace Connection

/-- The bytes that `compact_read_buffer` moves. -/
def compactMoves (c : Connection) : ℕ := if c.readPos = 0 then 0 else c.readBuf.length - c.readPos

def fillMoves (c : Connection) : ℕ :=
  if c.readBuf.length / 2 < c.readPos ∧ 0 < c.readPos then c.compactMoves else 0

/-- What is behind the cursor is no more than half of the buffer. -/
def HalfConsumed (c : Connection) : Prop := 2 * c.readPos ≤ c.readBuf.length

theorem halfConsumed_fillLoop (ending : ReadEnd) (chunks : List Chunk) (total : ℕ)
    {c : Connection} (h : c.HalfConsumed) : (fillLoop ending chunks total c).2.HalfConsumed := by
  induction chunks generalizing total c with
  | nil => cases ending <;> exact h
  | cons chunk chunks ih =>
      refine ih _ ?_
      change 2 * c.readPos ≤ (c.readBuf ++ chunk.bytes).length
      rw [List.length_append]
      exact Nat.le_add_right_of_le h

theorem halfConsumed_fill (c : Connection) (r : Reads) : (c.fillInPlace r).2.HalfConsumed := by
  rw [fillInPlace_eq]
  refine halfConsumed_fillLoop r.ending r.chunks 0 ?_
  unfold HalfConsumed
  split_ifs with hmany
  · have hpos : c.readPos ≠ 0 := by omega
    rw [compactReadBuffer, if_neg hpos]
    exact Nat.zero_le _
  · omega

theorem readPos_fillLoop (ending : ReadEnd) (chunks : List Chunk) (total : ℕ) (c : Connection) :
    (fillLoop ending chunks total c).2.readPos = c.readPos := by
  induction chunks generalizing total c with
  | nil => cases ending <;> rfl
  | cons chunk chunks ih => exact ih _ (c.received chunk.bytes)

theorem fillMoves_add_readPos_le (c : Connection) (r : Reads) :
    c.fillMoves + (c.fillInPlace r).2.readPos ≤ c.readPos := by
  rw [fillInPlace_eq]
  unfold fillReadBuffer fillMoves
  dsimp only
  rw [readPos_fillLoop]
  split_ifs with hmany
  · have hpos : c.readPos ≠ 0 := by omega
    have hfront : c.compactReadBuffer.readPos = 0 := by rw [compactReadBuffer, if_neg hpos]
    rw [compactMoves, if_neg hpos, hfront]
    omega
  · exact (Nat.zero_add _).le

theorem readPos_flushLoop (ending : WriteEnd) (accepted : List ℕ) (c : Connection) :
    (flushLoop ending accepted c).readPos = c.readPos := by
  induction accepted generalizing c with
  | nil =>
      unfold flushLoop
      split_ifs
      · cases ending <;> rfl
      · rfl
  | cons n accepted ih =>
      unfold flushLoop
      split_ifs
      · exact ih (c.sent (n + 1))
      · rfl

theorem readPos_flushWriteBuffer (c : Connection) (w : Writes) :
    (c.flushWriteBuffer w).readPos = c.readPos := by
  unfold flushWriteBuffer
  dsimp only
  split_ifs <;> exact readPos_flushLoop w.ending w.accepted c

theorem readPos_consume_le (c : Connection) (n : ℕ) :
    (c.consume n).readPos ≤ c.readPos + (c.readView.take n).length := by
  have hpos := c.readPos_le
  rw [List.length_take, readView, List.length_drop]
  change (if c.readBuf.length < c.readPos + n then c.readBuf.length else c.readPos + n) ≤ _
  split_ifs <;> omega

end Connection

namespace Traffic

def moves (t : Traffic) : BufferOp → ℕ
  | .fillReadBuffer _ => t.conn.fillMoves
  | .compactReadBuffer => t.conn.compactMoves
  | _ => 0

def consumes (t : Traffic) : BufferOp → ℕ
  | .consume n => (t.conn.readView.take n).length
  | _ => 0

/-- The public operations. Nothing but `fill_read_buffer` calls `compact_read_buffer`. -/
def advance (t : Traffic) : BufferOp → Option Traffic
  | .compactReadBuffer => none
  | op => some (t.step op)

theorem advance_of_ne {t : Traffic} {op : BufferOp} (hop : op ≠ .compactReadBuffer) :
    t.advance op = some (t.step op) := by
  cases op with
  | compactReadBuffer => exact absurd rfl hop
  | _ => rfl

theorem pays : Amortized.Pays advance (fun _ => True) (fun t => t.conn.readPos) moves consumes where
  keeps _ _ := trivial
  pays := by
    rintro t t' op - hstep
    cases op with
    | compactReadBuffer => cases hstep
    | fillReadBuffer r =>
        cases hstep
        exact t.conn.fillMoves_add_readPos_le r
    | consume n =>
        cases hstep
        exact (Nat.zero_add _).le.trans (t.conn.readPos_consume_le n)
    | flushWriteBuffer w =>
        cases hstep
        exact (Nat.zero_add _).le.trans (t.conn.readPos_flushWriteBuffer w).le
    | _ =>
        cases hstep
        exact (Nat.zero_add _).le

theorem total_consumes (t : Traffic) {ops : List BufferOp}
    (hops : .compactReadBuffer ∉ ops) :
    t.consumed.length + Amortized.total advance consumes t ops =
      (ops.foldl step t).consumed.length := by
  induction ops generalizing t with
  | nil => rfl
  | cons op ops ih =>
      obtain ⟨hop, hrest⟩ := not_or.mp (mt List.mem_cons.mpr hops)
      have hstep : t.consumed.length + t.consumes op = (t.step op).consumed.length := by
        cases op with
        | consume n => exact (List.length_append ..).symm
        | _ => rfl
      rw [Amortized.total_cons_of_some (advance_of_ne (Ne.symm hop)), ← Nat.add_assoc, hstep]
      exact ih (t.step op) hrest

end Traffic

/-- In any order of operations on a connection, the bytes that compaction moves are no more than
those that have been consumed, and no more than half of a buffer that has just been filled is
consumed. -/
theorem compaction_amortized (ops : List BufferOp) (hops : .compactReadBuffer ∉ ops) :
    Amortized.total Traffic.advance Traffic.moves .start ops ≤
        (ops.foldl Traffic.step .start).consumed.length ∧
      ∀ r, ((ops.foldl Traffic.step .start).step (.fillReadBuffer r)).conn.HalfConsumed := by
  have htotal := Traffic.pays.total_le ops (s := .start) trivial
  have hconsumed := Traffic.total_consumes .start hops
  have hpos : Traffic.start.conn.readPos = 0 := rfl
  have hnone : Traffic.start.consumed.length = 0 := rfl
  exact ⟨by omega, fun r => Connection.halfConsumed_fill _ r⟩

/-- Six bytes have been consumed when the rest of a frame is read. -/
def secondFill : List BufferOp :=
  [.fillReadBuffer ⟨[⟨List.replicate 8 43, by decide, by decide⟩], .wouldBlock⟩, .consume 6,
    .fillReadBuffer ⟨[⟨[13, 10], by decide, by decide⟩], .wouldBlock⟩]

theorem compaction_amortized_secondFill :
    Amortized.total Traffic.advance Traffic.moves .start secondFill ≤
      (secondFill.foldl Traffic.step .start).consumed.length :=
  (compaction_amortized secondFill (by simp [secondFill])).1

end Keva
