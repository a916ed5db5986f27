import Keva.Lib.FileSystem
import Keva.Persistence.RdbSave

/-!
# Writing to a file descriptor

`write` may take a part of the data only, be interrupted, or fail. `RdbWriter` repeats it until all
is written and stops at the first failure. Each of its functions writes the bytes that it is meant
to, or a beginning of them and returns the message of the write that failed.
-/

namespace Keva

open rdb

/-- What the kernel answers to one `write`. It never takes more than it is given. -/
inductive WriteAnswer
  | accepts (n : ℕ)
  | interrupted
  | fails (message : Bytes)
  deriving DecidableEq

/-- A `RdbWriter` with the file under its descriptor. `answers` are those to the next writes; what
comes behind them is taken as a whole. -/
structure FdWriter where
  files : FileSystem Bytes UInt8
  fd : ℕ
  writer : RdbWriter
  answers : List WriteAnswer
  holds : files.data fd = writer.written

namespace FdWriter

/-- The kernel takes the bytes, and the checksum goes on over them. -/
def accept (f : FdWriter) (chunk : Bytes) : FdWriter where
  files := f.files.write f.fd f.writer.written.length chunk
  fd := f.fd
  writer := f.writer.writeBytes chunk
  answers := f.answers
  holds := by
    change Function.update f.files.data f.fd _ f.fd = _
    rw [Function.update_self, f.holds, FileSystem.writeAt_length]
    rfl

/-- The loop of `write_bytes`: `data` is what remains. -/
def writeLoop : List WriteAnswer → Bytes → FdWriter → Except Bytes Unit × FdWriter
  | [], data, f => (.ok (), { f.accept data with answers := [] })
  | answer :: answers, data, f =>
      if data = [] then (.ok (), { f with answers := answer :: answers })
      else
        match answer with
        | .interrupted => writeLoop answers data f
        | .fails message => (.error message, { f with answers := answers })
        | .accepts n => writeLoop answers (data.drop n) (f.accept (data.take n))

end FdWriter

abbrev Writing (α : Type) : Type := ExceptT Bytes (StateM FdWriter) α

namespace FdWriter

def writeBytes (data : Bytes) : Writing Unit := fun f => writeLoop f.answers data f

def writeU8 (v : UInt8) : Writing Unit := writeBytes [v]

def writeU16 (v : UInt16) : Writing Unit := writeBytes (LittleEndian.encode 2 v.toNat)

def writeU32 (v : UInt32) : Writing Unit := writeBytes (LittleEndian.encode 4 v.toNat)

def writeI64 (v : Int64) : Writing Unit := writeBytes (LittleEndian.encode 8 v.toUInt64.toNat)

def writeString (sv : Bytes) : Writing Unit := do
  let len := sv.length
  if len < 64 then writeU8 (UInt8.ofNat len)
  else if len < 16384 then do
    writeU8 (0x80 ||| UInt8.ofNat (len / 256))
    writeU8 (UInt8.ofNat len &&& 0xFF)
  else do
    writeU8 0xC0
    writeU32 (UInt32.ofNat len)
  writeBytes sv

/-- The visitor of `save_database_to_writer`, once it knows the deadline of the key. -/
def writeEntry (key value : Bytes) (absExpire : Option Int64) : Writing Unit := do
  match absExpire with
  | some absExpire => do
      writeU8 opcodeExpire
      writeI64 absExpire
  | none => pure ()
  writeU8 typeString
  writeString key
  writeString value

/-- One write of eight bytes, which is not repeated. -/
def writeCrc64 (f : FdWriter) :
    Except Bytes Unit × FileSystem Bytes UInt8 × List WriteAnswer :=
  let crc := LittleEndian.encode 8 f.writer.crcState.toNat
  let failed : Except Bytes Unit := .error (ascii "Failed to write CRC64")
  let put (bytes : Bytes) := f.files.write f.fd f.writer.written.length bytes
  match f.answers with
  | [] => (.ok (), put crc, [])
  | .accepts n :: answers => (if 8 ≤ n then .ok () else failed, put (crc.take n), answers)
  | _ :: answers => (failed, f.files, answers)

/-- `f'` comes from `f` by writing `chunk`, for which the kernel gave the answers `used`. -/
structure Wrote (f f' : FdWriter) (chunk : Bytes) (used : List WriteAnswer) : Prop where
  fd : f'.fd = f.fd
  written : f'.writer.written = f.writer.written ++ chunk
  names : f'.files.names = f.files.names
  others : ∀ i, i ≠ f.fd → f'.files.data i = f.files.data i
  answers : f.answers = used ++ f'.answers

variable {f f' f'' : FdWriter} {chunk chunk' bytes bytes' : Bytes} {used used' : List WriteAnswer}

theorem Wrote.refl (f : FdWriter) : Wrote f f [] [] :=
  ⟨rfl, (List.append_nil _).symm, rfl, fun _ _ => rfl, rfl⟩

theorem Wrote.trans (h : Wrote f f' chunk used) (h' : Wrote f' f'' chunk' used') :
    Wrote f f'' (chunk ++ chunk') (used ++ used') where
  fd := h'.fd.trans h.fd
  written := by rw [h'.written, h.written, List.append_assoc]
  names := h'.names.trans h.names
  others i hi := (h'.others i (by rwa [h.fd])).trans (h.others i hi)
  answers := by rw [h.answers, h'.answers, List.append_assoc]

theorem wrote_accept (f : FdWriter) (chunk : Bytes) : Wrote f (f.accept chunk) chunk [] :=
  ⟨rfl, rfl, rfl, fun _ hi => Function.update_of_ne hi .., rfl⟩

/-- How a function that is to write `bytes` returns: all of them are written and no write has
failed, or the last write has failed and a beginning of them is written. -/
def Settled (bytes chunk : Bytes) (used : List WriteAnswer) : Except Bytes Unit → Prop
  | .ok () => chunk = bytes ∧ ∀ message, .fails message ∉ used
  | .error message => chunk <+: bytes ∧ .fails message ∈ used

/-- `p` is to write `bytes`. -/
def Puts (p : Writing Unit) (bytes : Bytes) : Prop :=
  ∀ f, ∃ chunk used, Wrote f (p f).2 chunk used ∧ Settled bytes chunk used (p f).1

variable {p q : Writing Unit}

theorem Settled.append {result : Except Bytes Unit} (h : Settled bytes' chunk' used' result)
    (hnone : ∀ message, .fails message ∉ used) (chunk : Bytes) :
    Settled (chunk ++ bytes') (chunk ++ chunk') (used ++ used') result := by
  cases result with
  | error message =>
      exact ⟨(List.prefix_append_right_inj chunk).mpr h.1, List.mem_append_right _ h.2⟩
  | ok u =>
      obtain ⟨rfl, hnone'⟩ := h
      refine ⟨rfl, fun message hmem => ?_⟩
      rcases List.mem_append.mp hmem with h | h
      · exact hnone message h
      · exact hnone' message h

theorem puts_bind (hp : Puts p bytes) (hq : Puts q bytes') :
    Puts (p >>= fun _ => q) (bytes ++ bytes') := by
  intro f
  obtain ⟨chunk, used, hwrote, hsettled⟩ := hp f
  have hrun : (p >>= fun _ => q) f =
      match (p f).1 with
      | .ok () => q (p f).2
      | .error message => (.error message, (p f).2) := by
    change ExceptT.bindCont (fun _ => q) (p f).1 (p f).2 = _
    cases (p f).1 with
    | error message => rfl
    | ok u => rfl
  rw [hrun]
  cases hr : (p f).1 with
  | error message =>
      rw [hr] at hsettled
      exact ⟨chunk, used, hwrote, hsettled.1.trans (List.prefix_append _ _), hsettled.2⟩
  | ok u =>
      rw [hr] at hsettled
      obtain ⟨rfl, hnone⟩ := hsettled
      obtain ⟨chunk', used', hwrote', hsettled'⟩ := hq (p f).2
      exact ⟨chunk ++ chunk', used ++ used', hwrote.trans hwrote', hsettled'.append hnone _⟩

theorem wrote_answer (f : FdWriter) (answer : WriteAnswer) (answers : List WriteAnswer) :
    Wrote { f with answers := answer :: answers } { f with answers := answers } [] [answer] :=
  ⟨rfl, (List.append_nil _).symm, rfl, fun _ _ => rfl, rfl⟩

theorem writeLoop_spec (answers : List WriteAnswer) (data : Bytes) (f : FdWriter) :
    ∃ chunk used, Wrote { f with answers := answers } (writeLoop answers data f).2 chunk used ∧
      Settled data chunk used (writeLoop answers data f).1 := by
  induction answers generalizing data f with
  | nil =>
      exact ⟨data, [], wrote_accept { f with answers := [] } data, rfl,
        fun _ => List.not_mem_nil⟩
  | cons answer answers ih =>
      by_cases hdata : data = []
      · have hdone : writeLoop (answer :: answers) data f =
            (.ok (), { f with answers := answer :: answers }) := by
          unfold writeLoop
          rw [if_pos hdata]
        rw [hdone]
        exact ⟨[], [], Wrote.refl _, hdata.symm, fun _ => List.not_mem_nil⟩
      unfold writeLoop
      rw [if_neg hdata]
      have hnext := wrote_answer f answer answers
      cases answer with
      | interrupted =>
          obtain ⟨chunk, used, hwrote, hsettled⟩ := ih data f
          have hnone : ∀ message, WriteAnswer.fails message ∉ [.interrupted] := by simp
          exact ⟨chunk, .interrupted :: used, hnext.trans hwrote, hsettled.append hnone []⟩
      | fails message =>
          exact ⟨[], [.fails message], hnext, List.nil_prefix, List.mem_singleton_self _⟩
      | accepts n =>
          obtain ⟨chunk, used, hwrote, hsettled⟩ := ih (data.drop n) (f.accept (data.take n))
          have htaken := wrote_accept { f with answers := answers } (data.take n)
          have hnone : ∀ message, WriteAnswer.fails message ∉ [.accepts n] := by simp
          have hall := hsettled.append hnone (data.take n)
          rw [List.take_append_drop] at hall
          exact ⟨data.take n ++ chunk, .accepts n :: used, hnext.trans (htaken.trans hwrote), hall⟩

theorem puts_writeBytes (data : Bytes) : Puts (writeBytes data) data :=
  fun f => writeLoop_spec f.answers data f

theorem puts_writeString (sv : Bytes) : Puts (writeString sv) (stringBytes sv) := by
  unfold writeString stringBytes lengthBytes
  dsimp only
  split_ifs
  · exact puts_bind (puts_writeBytes _) (puts_writeBytes sv)
  · have hp := puts_bind (puts_writeBytes [0x80 ||| UInt8.ofNat (sv.length / 256)])
      (puts_bind (puts_writeBytes [UInt8.ofNat sv.length &&& 0xFF]) (puts_writeBytes sv))
    exact hp
  · have hp := puts_bind (puts_writeBytes [0xC0]) (puts_bind
      (puts_writeBytes (LittleEndian.encode 4 (UInt32.ofNat sv.length).toNat)) (puts_writeBytes sv))
    exact hp

theorem puts_writeEntry (r : RdbRecord) :
    Puts (writeEntry r.key r.value r.expire) (recordBytes r) := by
  unfold writeEntry recordBytes
  have hstrings := puts_bind (puts_writeBytes [typeString])
    (puts_bind (puts_writeString r.key) (puts_writeString r.value))
  rw [List.append_assoc]
  cases r.expire with
  | none => exact hstrings
  | some absExpire =>
      have hp := puts_bind (puts_writeBytes [opcodeExpire]) (puts_bind
        (puts_writeBytes (LittleEndian.encode 8 absExpire.toUInt64.toNat)) hstrings)
      exact hp

theorem writeCrc64_spec (f : FdWriter) :
    (writeCrc64 f).2.1.names = f.files.names ∧
    (∀ i, i ≠ f.fd → (writeCrc64 f).2.1.data i = f.files.data i) ∧
    ∃ used, f.answers = used ++ (writeCrc64 f).2.2 ∧
      ((writeCrc64 f).1 = .ok () → (∀ message, .fails message ∉ used) ∧
        (writeCrc64 f).2.1.data f.fd =
          f.writer.written ++ LittleEndian.encode 8 f.writer.crcState.toNat) := by
  have hput : ∀ bytes, (f.files.write f.fd f.writer.written.length bytes).data f.fd =
      f.writer.written ++ bytes := fun bytes => (f.accept bytes).holds
  have hothers : ∀ bytes i, i ≠ f.fd →
      (f.files.write f.fd f.writer.written.length bytes).data i = f.files.data i :=
    fun bytes i hi => Function.update_of_ne hi ..
  unfold writeCrc64
  dsimp only
  cases f.answers with
  | nil => exact ⟨rfl, hothers _, [], rfl, fun _ => ⟨fun _ => List.not_mem_nil, hput _⟩⟩
  | cons answer answers =>
      cases answer with
      | accepts n =>
          refine ⟨rfl, hothers _, [.accepts n], rfl, fun hok => ⟨fun _ h => ?_, ?_⟩⟩
          · cases List.mem_singleton.mp h
          · dsimp only at hok ⊢
            split_ifs at hok with hn
            rw [hput, List.take_of_length_le (by rwa [LittleEndian.length_encode])]
      | interrupted => exact ⟨rfl, fun _ _ => rfl, [.interrupted], rfl, fun h => by cases h⟩
      | fails message => exact ⟨rfl, fun _ _ => rfl, [.fails message], rfl, fun h => by cases h⟩

theorem Puts.ok (h : Puts p bytes) (hf : f.answers = []) : (p f).1 = .ok () := by
  obtain ⟨chunk, used, hwrote, hsettled⟩ := h f
  have hused : used = [] := (List.append_eq_nil_iff.mp (hwrote.answers.symm.trans hf)).1
  cases hr : (p f).1 with
  | ok u => rfl
  | error message =>
      rw [hr] at hsettled
      rw [hused] at hsettled
      exact absurd hsettled.2 List.not_mem_nil

end FdWriter

end Keva
