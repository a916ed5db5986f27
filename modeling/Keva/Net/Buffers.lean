import Keva.Lib.VectorOps
import Keva.Net.Connection

/-!
# The buffers of a connection are queues of bytes

First the vector operations behind `fillReadBuffer` and `compactReadBuffer`: the read buffer is
grown by a whole block, read into and trimmed, and what is left is moved to its front. Then runs of
the operations on both buffers in any order, beside a record of what went in and came out: what
went in is what came out, followed by what the buffer still holds.
-/

namespace Keva

open VectorOps

namespace Connection

variable (c : Connection)

/-- `compact_read_buffer`. -/
def compactInPlace : Connection :=
  if c.readPos = 0 then c
  else
    let remaining := c.readBuf.length - c.readPos
    let moved := if 0 < remaining then moveDown c.readBuf c.readPos remaining else c.readBuf
    { c with
      readBuf := resize 0 moved remaining
      readPos := 0
      readPos_le := Nat.zero_le _ }

/-- A round of the loop of `fill_read_buffer` in which `read` stores `bytes` behind the old end. -/
def growReadTrim (bytes : Bytes) : Connection :=
  let currentSize := c.readBuf.length
  let grown := resize 0 c.readBuf (currentSize + constants.readBufferSize)
  { c with
    readBuf := resize 0 (overwrite grown currentSize bytes) (currentSize + bytes.length)
    readPos_le := by
      rw [length_resize]
      exact Nat.le_add_right_of_le c.readPos_le }

/-- The last round, in which `read` stores nothing. -/
def growTrim : Connection :=
  let currentSize := c.readBuf.length
  { c with
    readBuf := resize 0 (resize 0 c.readBuf (currentSize + constants.readBufferSize)) currentSize
    readPos_le := by
      rw [length_resize]
      exact c.readPos_le }

def fillLoopInPlace (ending : ReadEnd) : List Chunk → ℕ → Connection → ℤ × Connection
  | [], total, c =>
      match ending with
      | .wouldBlock => (total, c.growTrim)
      | .eof => (0, c.growTrim.setState .closed)
      | .error => (-1, c.growTrim.setState .closed)
  | chunk :: chunks, total, c =>
      fillLoopInPlace ending chunks (total + chunk.bytes.length) (c.growReadTrim chunk.bytes)

/-- `fill_read_buffer`. -/
def fillInPlace (r : Reads) : ℤ × Connection :=
  let c := if c.readBuf.length / 2 < c.readPos ∧ 0 < c.readPos then c.compactInPlace else c
  fillLoopInPlace r.ending r.chunks 0 c

theorem compactInPlace_eq : c.compactInPlace = c.compactReadBuffer := by
  unfold compactInPlace compactReadBuffer
  by_cases hpos : c.readPos = 0
  · rw [if_pos hpos, if_pos hpos]
  · have hbuf : resize 0 (if 0 < c.readBuf.length - c.readPos then
        moveDown c.readBuf c.readPos (c.readBuf.length - c.readPos) else c.readBuf)
        (c.readBuf.length - c.readPos) = c.readBuf.drop c.readPos := by
      split_ifs with hremaining
      · exact resize_moveDown
      · have hzero : c.readBuf.length - c.readPos = 0 := by omega
        rw [hzero, List.drop_of_length_le (by omega)]
        exact List.length_eq_zero_iff.mp (length_resize _ _)
    rw [if_neg hpos, if_neg hpos]
    simp only [hbuf]

theorem growReadTrim_eq (bytes : Bytes) : c.growReadTrim bytes = c.received bytes := by
  unfold growReadTrim received
  simp only [resize_overwrite_resize]

theorem growTrim_eq : c.growTrim = c := by
  unfold growTrim
  simp only [resize_resize]

theorem fillLoopInPlace_eq (ending : ReadEnd) (chunks : List Chunk) (total : ℕ) :
    fillLoopInPlace ending chunks total c = fillLoop ending chunks total c := by
  induction chunks generalizing total c with
  | nil => cases ending <;> rw [fillLoopInPlace, growTrim_eq, fillLoop]
  | cons chunk chunks ih => rw [fillLoopInPlace, growReadTrim_eq, ih, fillLoop]

theorem fillInPlace_eq (r : Reads) : c.fillInPlace r = c.fillReadBuffer r := by
  unfold fillInPlace fillReadBuffer
  simp only [compactInPlace_eq, fillLoopInPlace_eq]

theorem chunk_fits (chunk : Chunk) :
    c.readBuf.length + chunk.bytes.length ≤
      (resize 0 c.readBuf (c.readBuf.length + constants.readBufferSize)).length := by
  rw [length_resize]
  exact Nat.add_le_add_left chunk.length_le _

theorem readView_consume_eq_drop {c : Connection} (n : ℕ) :
    (c.consume n).readView = c.readView.drop n := by
  by_cases hn : n ≤ c.readView.length
  · exact readView_consume hn
  · have hlength : c.readView.length = c.readBuf.length - c.readPos := List.length_drop
    have hclamp : (c.consume n).readPos = c.readBuf.length := if_pos (by omega)
    change c.readBuf.drop (c.consume n).readPos = _
    rw [hclamp, List.drop_length, List.drop_of_length_le (by omega)]

/-- The bytes that the loop of `flush_write_buffer` hands to the socket: each `write` is offered
everything from the cursor on and takes a part of it. -/
def flushLoopBytes : List ℕ → Connection → Bytes
  | accepted, c =>
      if c.hasPendingWrites then
        match accepted with
        | n :: accepted => c.unsent.take (n + 1) ++ flushLoopBytes accepted (c.sent (n + 1))
        | [] => []
      else []

def flushedBytes (w : Writes) : Bytes := flushLoopBytes w.accepted c

variable {c}

theorem flushLoopBytes_append (ending : WriteEnd) (accepted : List ℕ) (c : Connection) :
    flushLoopBytes accepted c ++ (flushLoop ending accepted c).unsent = c.unsent := by
  induction accepted generalizing c with
  | nil =>
      unfold flushLoopBytes flushLoop
      split_ifs
      · cases ending <;> rfl
      · rfl
  | cons n accepted ih =>
      unfold flushLoopBytes flushLoop
      split_ifs
      · rw [List.append_assoc, ih, unsent_sent, List.take_append_drop]
      · rfl

theorem flushedBytes_append (w : Writes) :
    c.flushedBytes w ++ (c.flushWriteBuffer w).unsent = c.unsent := by
  have hloop := flushLoopBytes_append w.ending w.accepted c
  unfold flushedBytes flushWriteBuffer
  dsimp only
  by_cases hp : (flushLoop w.ending w.accepted c).hasPendingWrites
  · rw [if_pos hp, hloop]
  · have hnil : (flushLoop w.ending w.accepted c).unsent = [] := by
      by_contra h
      exact hp (hasPendingWrites_iff_unsent.mpr h)
    rw [hnil] at hloop
    rw [if_neg hp]
    exact hloop

end Connection

inductive BufferOp
  | fillReadBuffer (r : Reads)
  | compactReadBuffer
  | readView
  | consume (n : ℕ)
  | appendResponse (bytes : Bytes)
  | flushWriteBuffer (w : Writes)

/-- A connection with the bytes that have been received from the socket, consumed, appended and
handed to the socket since it was accepted. -/
structure Traffic where
  conn : Connection
  received : Bytes
  consumed : Bytes
  appended : Bytes
  handed : Bytes

namespace Traffic

/-- A connection that has just been accepted. -/
def start : Traffic := ⟨.accepted, [], [], [], []⟩

def step (t : Traffic) : BufferOp → Traffic
  | .fillReadBuffer r =>
      { t with conn := (t.conn.fillInPlace r).2, received := t.received ++ r.bytes }
  | .compactReadBuffer => { t with conn := t.conn.compactInPlace }
  | .readView => t
  | .consume n =>
      { t with conn := t.conn.consume n, consumed := t.consumed ++ t.conn.readView.take n }
  | .appendResponse bytes =>
      { t with conn := t.conn.appendResponse bytes, appended := t.appended ++ bytes }
  | .flushWriteBuffer w =>
      { t with conn := t.conn.flushWriteBuffer w, handed := t.handed ++ t.conn.flushedBytes w }

/-- What went into a buffer is what came out of it, followed by what it holds. -/
structure Balanced (t : Traffic) : Prop where
  read : t.consumed ++ t.conn.readView = t.received
  write : t.handed ++ t.conn.unsent = t.appended

theorem balanced_start : start.Balanced := ⟨rfl, rfl⟩

theorem Balanced.step {t : Traffic} (h : t.Balanced) (op : BufferOp) : (t.step op).Balanced := by
  cases op with
  | fillReadBuffer r =>
      have hview : (t.conn.fillInPlace r).2.readView = t.conn.readView ++ r.bytes := by
        rw [Connection.fillInPlace_eq]
        exact (t.conn.fillReadBuffer_spec r).1
      have hunsent : (t.conn.fillInPlace r).2.unsent = t.conn.unsent := by
        rw [Connection.fillInPlace_eq]
        exact Connection.unsent_fillReadBuffer t.conn r
      refine ⟨?_, ?_⟩
      · change t.consumed ++ (t.conn.fillInPlace r).2.readView = t.received ++ r.bytes
        rw [hview, ← List.append_assoc, h.read]
      · change t.handed ++ (t.conn.fillInPlace r).2.unsent = t.appended
        rw [hunsent, h.write]
  | compactReadBuffer =>
      refine ⟨?_, ?_⟩
      · change t.consumed ++ t.conn.compactInPlace.readView = t.received
        rw [Connection.compactInPlace_eq, Connection.readView_compactReadBuffer, h.read]
      · change t.handed ++ t.conn.compactInPlace.unsent = t.appended
        rw [Connection.compactInPlace_eq, Connection.unsent_compactReadBuffer, h.write]
  | readView => exact h
  | consume n =>
      refine ⟨?_, h.write⟩
      change t.consumed ++ t.conn.readView.take n ++ (t.conn.consume n).readView = t.received
      rw [Connection.readView_consume_eq_drop, List.append_assoc, List.take_append_drop, h.read]
  | appendResponse bytes =>
      refine ⟨h.read, ?_⟩
      change t.handed ++ (t.conn.appendResponse bytes).unsent = t.appended ++ bytes
      rw [Connection.unsent_appendResponse, ← List.append_assoc, h.write]
  | flushWriteBuffer w =>
      refine ⟨?_, ?_⟩
      · change t.consumed ++ (t.conn.flushWriteBuffer w).readView = t.received
        rw [(Connection.flushed_flushWriteBuffer t.conn w).readView, h.read]
      · change t.handed ++ t.conn.flushedBytes w ++ (t.conn.flushWriteBuffer w).unsent = t.appended
        rw [List.append_assoc, Connection.flushedBytes_append, h.write]

theorem Balanced.foldl {t : Traffic} (h : t.Balanced) (ops : List BufferOp) :
    (ops.foldl Traffic.step t).Balanced := by
  induction ops generalizing t with
  | nil => exact h
  | cons op ops ih => exact ih (h.step op)

end Traffic

/-- The buffers of a connection are queues: after any operations in any order, what has been
received is what has been consumed and then the view, what has been appended is what has been
handed to the socket and then the unsent part, and writes are pending if that part is not empty. -/
theorem buffers_are_queues (ops : List BufferOp) :
    (ops.foldl Traffic.step .start).Balanced ∧
      ((ops.foldl Traffic.step .start).conn.hasPendingWrites = true ↔
        (ops.foldl Traffic.step .start).conn.unsent ≠ []) :=
  ⟨Traffic.balanced_start.foldl ops, Connection.hasPendingWrites_iff_unsent⟩

end Keva
