import Keva.Persistence.FdWriter
import Keva.Persistence.RdbRoundTrip

/-!
# Strings delimit themselves

The prefix of a string tells how many bytes are to be read, in six, fourteen or thirty-two bits. A
longer string is written behind the low bits of its length, and all that follows is misread.
-/

namespace Keva

open rdb FdWriter RdbReader

/-- `write_string` returns an error, or `read_string` makes the string of the bytes written,
whatever follows them, and leaves that. -/
def SelfDelimiting (sv : Bytes) : Prop :=
  ∀ (f : FdWriter) (rest : Bytes) (crc : UInt64) (message : Bytes),
    (∃ error, (writeString sv f).1 = .error error) ∨
    ∃ chunk, (writeString sv f).2.writer.written = f.writer.written ++ chunk ∧
      ∃ crc', readString ⟨chunk ++ rest, crc, message⟩ = .ok (sv, ⟨rest, crc', message⟩)

/-- A writer at the beginning of a file of which the kernel takes everything. -/
def FdWriter.unhindered : FdWriter where
  files := ⟨fun _ => none, fun _ => [], 0, FileSystem.fresh_none⟩
  fd := 0
  writer := .init
  answers := []
  holds := rfl

theorem selfDelimiting_of_lt {sv : Bytes} (h : sv.length < 2 ^ 32) : SelfDelimiting sv := by
  intro f rest crc message
  obtain ⟨chunk, used, hwrote, hsettled⟩ := puts_writeString sv f
  cases hr : (writeString sv f).1 with
  | error error => exact .inl ⟨error, rfl⟩
  | ok u =>
      rw [hr] at hsettled
      obtain ⟨rfl, -⟩ := hsettled
      exact .inr ⟨_, hwrote.written, _, takes_readString h rest crc message⟩

theorem not_selfDelimiting {sv : Bytes} (h : 2 ^ 32 ≤ sv.length) : ¬ SelfDelimiting sv := by
  intro hself
  have hok : (writeString sv .unhindered).1 = .ok () := (puts_writeString sv).ok rfl
  rcases hself .unhindered [] 0 [] with ⟨error, herror⟩ | ⟨chunk, hchunk, crc', hread⟩
  · rw [hok] at herror
    cases herror
  obtain ⟨chunk', used, hwrote, hsettled⟩ := puts_writeString sv .unhindered
  rw [hok] at hsettled
  obtain ⟨rfl, -⟩ := hsettled
  obtain rfl := List.append_cancel_left (hchunk.symm.trans hwrote.written)
  set n := sv.length % 2 ^ 32 with hn
  have hlt : n < sv.length := by omega
  have htake : (sv.take n).length = n := List.length_take_of_le hlt.le
  have hshort : Takes readString (lengthBytes sv.length ++ sv.take n) (sv.take n) :=
    (takes_readLength_long (by omega)).bind (takes_readBytes htake)
  have hbytes : stringBytes sv ++ [] =
      lengthBytes sv.length ++ sv.take n ++ sv.drop n := by
    rw [List.append_nil, List.append_assoc, List.take_append_drop]
    rfl
  rw [hbytes, hshort] at hread
  have hsame : sv.take n = sv := congrArg Prod.fst (Except.ok.inj hread)
  rw [hsame] at htake
  omega

/-- A string that is written without an error can be read back exactly if its length fits into
thirty-two bits. -/
theorem self_delimiting_iff (sv : Bytes) : SelfDelimiting sv ↔ sv.length < 2 ^ 32 := by
  constructor
  · intro hself
    by_contra hlong
    exact not_selfDelimiting (Nat.le_of_not_lt hlong) hself
  · exact selfDelimiting_of_lt

theorem four_gigabytes_not_self_delimiting :
    ¬ SelfDelimiting (List.replicate (2 ^ 32) 0) :=
  not_selfDelimiting (List.length_replicate ..).ge

end Keva
