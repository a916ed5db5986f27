import Keva.Command.Context

/-!
# Connections and their buffers

The cursors stay within the buffers by construction. What the kernel answers during one readable
event is `Reads`: the pieces that successive `read` calls return, and how the loop ends. `Writes`
is the same for `flush_write_buffer`: the numbers of bytes that successive `write` calls accept and
the failure that ends the loop if the buffer has not been drained by then.
-/

namespace Keva

/-- What one call of `read` returns: at least one byte and no more than it was asked for. -/
structure Chunk where
  bytes : Bytes
  nonempty : bytes ≠ []
  length_le : bytes.length ≤ constants.readBufferSize

inductive ReadEnd
  | wouldBlock
  | eof
  | error
  deriving DecidableEq

structure Reads where
  chunks : List Chunk
  ending : ReadEnd

namespace Reads

def bytes (r : Reads) : Bytes := r.chunks.flatMap Chunk.bytes

end Reads

inductive WriteEnd
  | wouldBlock
  | error
  deriving DecidableEq

/-- A `write` accepts at least one byte: `accepted` holds one less than each count. -/
structure Writes where
  accepted : List ℕ
  ending : WriteEnd

structure Connection where
  state : ConnectionState
  readBuf : Bytes
  readPos : ℕ
  writeBuf : Bytes
  writePos : ℕ
  readPos_le : readPos ≤ readBuf.length
  writePos_le : writePos ≤ writeBuf.length

namespace Connection

/-- A connection that has just been accepted. -/
def accepted : Connection where
  state := .connected
  readBuf := []
  readPos := 0
  writeBuf := []
  writePos := 0
  readPos_le := le_rfl
  writePos_le := le_rfl

variable (c : Connection)

def setState (state : ConnectionState) : Connection := { c with state := state }

def isClosed : Bool := c.state = .closed

def readView : Bytes := c.readBuf.drop c.readPos

def consume (n : ℕ) : Connection :=
  { c with
    readPos := if c.readBuf.length < c.readPos + n then c.readBuf.length else c.readPos + n
    readPos_le := by split_ifs <;> omega }

def compactReadBuffer : Connection :=
  if c.readPos = 0 then c
  else
    { c with
      readBuf := c.readBuf.drop c.readPos
      readPos := 0
      readPos_le := Nat.zero_le _ }

/-- The buffer after it has been grown, read into and trimmed again. -/
def received (bytes : Bytes) : Connection :=
  { c with
    readBuf := c.readBuf ++ bytes
    readPos_le := by rw [List.length_append]; exact Nat.le_add_right_of_le c.readPos_le }

/-- The loop of `fill_read_buffer`. -/
def fillLoop (ending : ReadEnd) : List Chunk → ℕ → Connection → ℤ × Connection
  | [], total, c =>
      match ending with
      | .wouldBlock => (total, c)
      | .eof => (0, c.setState .closed)
      | .error => (-1, c.setState .closed)
  | chunk :: chunks, total, c =>
      fillLoop ending chunks (total + chunk.bytes.length) (c.received chunk.bytes)

def fillReadBuffer (r : Reads) : ℤ × Connection :=
  let c := if c.readBuf.length / 2 < c.readPos ∧ 0 < c.readPos then c.compactReadBuffer else c
  fillLoop r.ending r.chunks 0 c

def appendResponse (bytes : Bytes) : Connection :=
  { c with
    writeBuf := c.writeBuf ++ bytes
    writePos_le := by rw [List.length_append]; exact Nat.le_add_right_of_le c.writePos_le }

def hasPendingWrites : Bool := c.writePos < c.writeBuf.length

/-- `write` accepted `n` bytes, or all that were left. -/
def sent (n : ℕ) : Connection :=
  { c with
    writePos := min (c.writePos + n) c.writeBuf.length
    writePos_le := min_le_right _ _ }

/-- The loop of `flush_write_buffer`, which stops at a failure or when everything has been sent. -/
def flushLoop (ending : WriteEnd) : List ℕ → Connection → Connection
  | accepted, c =>
      if c.hasPendingWrites then
        match accepted with
        | n :: accepted => flushLoop ending accepted (c.sent (n + 1))
        | [] =>
            match ending with
            | .wouldBlock => c
            | .error => c.setState .closed
      else c

def clearWriteBuffer : Connection :=
  { c with
    writeBuf := []
    writePos := 0
    writePos_le := le_rfl }

/-- On a write error the buffer is left as it is. -/
def flushWriteBuffer (w : Writes) : Connection :=
  let c := flushLoop w.ending w.accepted c
  if c.hasPendingWrites then c else c.clearWriteBuffer

variable {c}

theorem readView_consume {n : ℕ} (hn : n ≤ c.readView.length) :
    (c.consume n).readView = c.readView.drop n := by
  unfold readView at hn ⊢
  rw [List.length_drop] at hn
  unfold consume
  dsimp only
  have hle := c.readPos_le
  rw [if_neg (by omega), List.drop_drop]

@[simp] theorem readView_compactReadBuffer : c.compactReadBuffer.readView = c.readView := by
  unfold compactReadBuffer
  split_ifs <;> rfl

theorem readView_received (bytes : Bytes) :
    (c.received bytes).readView = c.readView ++ bytes := by
  unfold received readView
  exact List.drop_append_of_le_length c.readPos_le

theorem fillLoop_spec (ending : ReadEnd) (chunks : List Chunk) (total : ℕ) (c : Connection) :
    (fillLoop ending chunks total c).2.readView = c.readView ++ chunks.flatMap Chunk.bytes ∧
      (ending = .wouldBlock →
        (fillLoop ending chunks total c).1 = (total + (chunks.flatMap Chunk.bytes).length : ℕ) ∧
        (fillLoop ending chunks total c).2.state = c.state) ∧
      (ending ≠ .wouldBlock → (fillLoop ending chunks total c).1 ≤ 0) ∧
      (fillLoop ending chunks total c).2.writeBuf = c.writeBuf ∧
      (fillLoop ending chunks total c).2.writePos = c.writePos := by
  induction chunks generalizing total c with
  | nil =>
      cases ending with
      | wouldBlock => simp [fillLoop]
      | eof => simp [fillLoop, setState, readView]
      | error => simp [fillLoop, setState, readView]
  | cons chunk chunks ih =>
      obtain ⟨hview, hblock, hclose, hbuf, hpos⟩ :=
        ih (total + chunk.bytes.length) (c.received chunk.bytes)
      unfold fillLoop
      refine ⟨?_, fun he => ?_, hclose, hbuf, hpos⟩
      · rw [hview, readView_received, List.flatMap_cons, List.append_assoc]
      · obtain ⟨hn, hstate⟩ := hblock he
        refine ⟨?_, hstate⟩
        rw [hn, List.flatMap_cons, List.length_append, Nat.add_assoc]

/-- Filling appends what was read. It returns a positive count exactly when at least one byte was
read and no end of file and no error came after it. -/
theorem fillReadBuffer_spec (c : Connection) (r : Reads) :
    (c.fillReadBuffer r).2.readView = c.readView ++ r.bytes ∧
      (r.ending = .wouldBlock → (c.fillReadBuffer r).1 = r.bytes.length ∧
        (c.fillReadBuffer r).2.state = c.state) ∧
      (r.ending ≠ .wouldBlock → (c.fillReadBuffer r).1 ≤ 0) := by
  unfold fillReadBuffer Reads.bytes
  dsimp only
  have hcompact : ∀ c : Connection, c.compactReadBuffer.state = c.state := fun c => by
    unfold compactReadBuffer
    split_ifs <;> rfl
  split_ifs
  · obtain ⟨hview, hblock, hclose, -⟩ := fillLoop_spec r.ending r.chunks 0 c.compactReadBuffer
    rw [readView_compactReadBuffer] at hview
    refine ⟨hview, fun he => ?_, hclose⟩
    rw [(hblock he).1, (hblock he).2, hcompact, Nat.zero_add]
    exact ⟨rfl, rfl⟩
  · obtain ⟨hview, hblock, hclose, -⟩ := fillLoop_spec r.ending r.chunks 0 c
    refine ⟨hview, fun he => ?_, hclose⟩
    rw [(hblock he).1, (hblock he).2, Nat.zero_add]
    exact ⟨rfl, rfl⟩

/-- The bytes of the write buffer that have not been sent. -/
def unsent (c : Connection) : Bytes := c.writeBuf.drop c.writePos

def pending (c : Connection) : ℕ := c.writeBuf.length - c.writePos

theorem pending_eq : c.pending = c.unsent.length := List.length_drop.symm

theorem hasPendingWrites_iff : c.hasPendingWrites = true ↔ 0 < c.pending := by
  unfold hasPendingWrites pending
  rw [decide_eq_true_eq]
  omega

theorem hasPendingWrites_iff_unsent : c.hasPendingWrites = true ↔ c.unsent ≠ [] := by
  rw [hasPendingWrites_iff, pending_eq, List.length_pos_iff]

theorem unsent_sent (n : ℕ) : (c.sent n).unsent = c.unsent.drop n := by
  unfold sent unsent
  dsimp only
  rw [List.drop_drop]
  by_cases hn : c.writePos + n ≤ c.writeBuf.length
  · rw [min_eq_left hn]
  · rw [min_eq_right (by omega), List.drop_length, List.drop_of_length_le (by omega)]

theorem pending_sent (n : ℕ) : (c.sent n).pending = c.pending - n := by
  rw [pending_eq, pending_eq, unsent_sent, List.length_drop]

theorem unsent_appendResponse (bytes : Bytes) :
    (c.appendResponse bytes).unsent = c.unsent ++ bytes :=
  List.drop_append_of_le_length c.writePos_le

theorem pending_appendResponse (bytes : Bytes) :
    (c.appendResponse bytes).pending = c.pending + bytes.length := by
  rw [pending_eq, pending_eq, unsent_appendResponse, List.length_append]

theorem unsent_compactReadBuffer : c.compactReadBuffer.unsent = c.unsent := by
  unfold compactReadBuffer
  split_ifs <;> rfl

theorem unsent_fillReadBuffer (c : Connection) (r : Reads) :
    (c.fillReadBuffer r).2.unsent = c.unsent := by
  have hloop : ∀ c : Connection, (fillLoop r.ending r.chunks 0 c).2.unsent = c.unsent :=
    fun c => by
      obtain ⟨-, -, -, hbuf, hpos⟩ := fillLoop_spec r.ending r.chunks 0 c
      unfold unsent
      rw [hbuf, hpos]
  unfold fillReadBuffer
  dsimp only
  split_ifs
  · rw [hloop, unsent_compactReadBuffer]
  · exact hloop c

theorem pending_fillReadBuffer (c : Connection) (r : Reads) :
    (c.fillReadBuffer r).2.pending = c.pending := by
  rw [pending_eq, pending_eq, unsent_fillReadBuffer]

theorem flushLoop_spec (ending : WriteEnd) (accepted : List ℕ) (c : Connection) :
    (flushLoop ending accepted c).readView = c.readView ∧
      (flushLoop ending accepted c).pending = c.pending - (accepted.map (· + 1)).sum ∧
      (flushLoop ending accepted c).state =
        if (accepted.map (· + 1)).sum < c.pending ∧ ending = .error then .closed else c.state := by
  induction accepted generalizing c with
  | nil =>
      unfold flushLoop
      by_cases hp : c.hasPendingWrites
      · have hpos := hasPendingWrites_iff.mp hp
        rw [if_pos hp]
        cases ending with
        | wouldBlock => exact ⟨rfl, rfl, by simp⟩
        | error => exact ⟨rfl, rfl, by simp [hpos, setState]⟩
      · have hzero : c.pending = 0 := by
          rw [hasPendingWrites_iff] at hp
          omega
        rw [if_neg hp]
        exact ⟨rfl, by simp, by simp [hzero]⟩
  | cons n accepted ih =>
      rw [List.map_cons, List.sum_cons]
      unfold flushLoop
      by_cases hp : c.hasPendingWrites
      · obtain ⟨hview, hpending, hstate⟩ := ih (c.sent (n + 1))
        rw [if_pos hp, hview, hpending, hstate, pending_sent]
        refine ⟨rfl, by omega, ?_⟩
        have hiff : (accepted.map (· + 1)).sum < c.pending - (n + 1) ↔
            n + 1 + (accepted.map (· + 1)).sum < c.pending := by omega
        simp only [hiff]
        rfl
      · have hzero : c.pending = 0 := by
          rw [hasPendingWrites_iff] at hp
          omega
        rw [if_neg hp]
        exact ⟨rfl, by omega, by simp [hzero]⟩

end Connection

/-- The number of bytes that the kernel accepts. -/
def Writes.capacity (w : Writes) : ℕ := (w.accepted.map (· + 1)).sum

namespace Connection

variable {c : Connection}

/-- `c'` is `c` after the kernel was offered what is pending. -/
structure Flushed (c : Connection) (w : Writes) (c' : Connection) : Prop where
  readView : c'.readView = c.readView
  pending : c'.pending = c.pending - w.capacity
  state : c'.state =
    if w.capacity < c.pending ∧ w.ending = .error then .closed else c.state

theorem flushed_flushWriteBuffer (c : Connection) (w : Writes) :
    c.Flushed w (c.flushWriteBuffer w) := by
  obtain ⟨hview, hpending, hstate⟩ := flushLoop_spec w.ending w.accepted c
  unfold flushWriteBuffer
  dsimp only
  by_cases hp : (flushLoop w.ending w.accepted c).hasPendingWrites
  · rw [if_pos hp]
    exact ⟨hview, hpending, hstate⟩
  · rw [if_neg hp]
    refine ⟨hview, ?_, hstate⟩
    rw [hasPendingWrites_iff] at hp
    change 0 = _
    unfold Writes.capacity
    omega

theorem flushed_self (h : ¬ c.hasPendingWrites = true) (w : Writes) : c.Flushed w c := by
  rw [hasPendingWrites_iff] at h
  have hzero : c.pending = 0 := by omega
  exact ⟨rfl, by omega, by simp [hzero]⟩

end Connection

end Keva
