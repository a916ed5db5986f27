import Keva.Lib.Crc
import Keva.Lib.LittleEndian
import Keva.Persistence.Rdb

/-!
# The bytes of a snapshot

`RdbWriter` collects what `rdb_save_sync` writes, with the checksum of it. Numbers are written as
they lie in memory, on a little-endian machine.
-/

namespace Keva

namespace rdb

/-- The Jones polynomial, reflected. -/
def poly : UInt64 := 0xad93d23594c935a9

def crc64Update (crc : UInt64) (data : Bytes) : UInt64 := Crc.update poly crc data

end rdb

open rdb

structure RdbWriter where
  written : Bytes
  crcState : UInt64
  crc_eq : crcState = crc64Update 0 written

namespace RdbWriter

def init : RdbWriter := ⟨[], 0, (Crc.update_nil poly 0).symm⟩

variable (w : RdbWriter)

/-- In however many pieces the kernel takes the data, the checksum is that of all of it. -/
def writeBytes (data : Bytes) : RdbWriter where
  written := w.written ++ data
  crcState := crc64Update w.crcState data
  crc_eq := by
    rw [w.crc_eq]
    exact Crc.update_append poly 0 w.written data

def writeU8 (v : UInt8) : RdbWriter := w.writeBytes [v]

def writeU16 (v : UInt16) : RdbWriter := w.writeBytes (LittleEndian.encode 2 v.toNat)

def writeU32 (v : UInt32) : RdbWriter := w.writeBytes (LittleEndian.encode 4 v.toNat)

def writeI64 (v : Int64) : RdbWriter := w.writeBytes (LittleEndian.encode 8 v.toUInt64.toNat)

/-- The length takes one byte, two bytes or a marker and four bytes. -/
def writeString (sv : Bytes) : RdbWriter :=
  let len := sv.length
  let w :=
    if len < 64 then w.writeU8 (UInt8.ofNat len)
    else if len < 16384 then
      (w.writeU8 (0x80 ||| UInt8.ofNat (len / 256))).writeU8 (UInt8.ofNat len &&& 0xFF)
    else (w.writeU8 0xC0).writeU32 (UInt32.ofNat len)
  w.writeBytes sv

/-- The checksum is not part of what it sums up. -/
def writeCrc64 : Bytes := w.written ++ LittleEndian.encode 8 w.crcState.toNat

/-- What the visitor of `save_database_to_writer` writes for one key. -/
def writeRecord (r : RdbRecord) : RdbWriter :=
  let w :=
    match r.expire with
    | some absExpire => (w.writeU8 opcodeExpire).writeI64 absExpire
    | none => w
  ((w.writeU8 typeString).writeString r.key).writeString r.value

def saveDatabaseToWriter (dbId : UInt32) (records : List RdbRecord) : RdbWriter :=
  records.foldl writeRecord ((w.writeU8 opcodeDb).writeU32 dbId)

end RdbWriter

/-- The file that a save with these records leaves. -/
def rdb.image (dbId : UInt32) (records : List RdbRecord) : Bytes :=
  let w := (RdbWriter.init.writeBytes magic).writeU16 version
  ((w.saveDatabaseToWriter dbId records).writeU8 opcodeEof).writeCrc64

namespace rdb

/-- The prefix that tells the length of a string. -/
def lengthBytes (len : ℕ) : Bytes :=
  if len < 64 then [UInt8.ofNat len]
  else if len < 16384 then [0x80 ||| UInt8.ofNat (len / 256), UInt8.ofNat len &&& 0xFF]
  else 0xC0 :: LittleEndian.encode 4 (UInt32.ofNat len).toNat

def stringBytes (sv : Bytes) : Bytes := lengthBytes sv.length ++ sv

def expireBytes (absExpire : Int64) : Bytes :=
  opcodeExpire :: LittleEndian.encode 8 absExpire.toUInt64.toNat

def recordBytes (r : RdbRecord) : Bytes :=
  (match r.expire with
    | some absExpire => expireBytes absExpire
    | none => []) ++ typeString :: stringBytes r.key ++ stringBytes r.value

/-- Everything that the checksum covers. -/
def payload (dbId : UInt32) (records : List RdbRecord) : Bytes :=
  magic ++ LittleEndian.encode 2 version.toNat ++ opcodeDb :: LittleEndian.encode 4 dbId.toNat ++
    records.flatMap recordBytes ++ [opcodeEof]

end rdb

namespace RdbWriter

variable (w : RdbWriter)

@[simp] theorem written_writeBytes (data : Bytes) :
    (w.writeBytes data).written = w.written ++ data := rfl

theorem written_writeString (sv : Bytes) :
    (w.writeString sv).written = w.written ++ stringBytes sv := by
  unfold writeString stringBytes lengthBytes
  dsimp only
  split_ifs
  · rw [written_writeBytes, writeU8, written_writeBytes, List.append_assoc]
  · rw [written_writeBytes, writeU8, writeU8, written_writeBytes, written_writeBytes,
      List.append_assoc, List.append_assoc]
    rfl
  · rw [written_writeBytes, writeU8, writeU32, written_writeBytes, written_writeBytes,
      List.append_assoc, List.append_assoc]
    rfl

theorem written_writeRecord (r : RdbRecord) :
    (w.writeRecord r).written = w.written ++ recordBytes r := by
  unfold writeRecord recordBytes
  dsimp only
  rw [written_writeString, written_writeString, writeU8, written_writeBytes]
  cases r.expire with
  | none => simp
  | some absExpire => simp [writeU8, writeI64, expireBytes]

theorem written_foldl_writeRecord (records : List RdbRecord) :
    (records.foldl writeRecord w).written = w.written ++ records.flatMap recordBytes := by
  induction records generalizing w with
  | nil => exact (List.append_nil _).symm
  | cons r records ih =>
      rw [List.foldl_cons, ih, written_writeRecord, List.flatMap_cons, List.append_assoc]

end RdbWriter

theorem rdb.image_eq (dbId : UInt32) (records : List RdbRecord) :
    image dbId records = payload dbId records ++
      LittleEndian.encode 8 (crc64Update 0 (payload dbId records)).toNat := by
  unfold image
  dsimp only
  set w := (((RdbWriter.init.writeBytes magic).writeU16 version).saveDatabaseToWriter dbId
    records).writeU8 opcodeEof with hw
  have hwritten : w.written = payload dbId records := by
    rw [hw, RdbWriter.writeU8, RdbWriter.written_writeBytes, RdbWriter.saveDatabaseToWriter,
      RdbWriter.written_foldl_writeRecord]
    simp [payload, RdbWriter.writeU8, RdbWriter.writeU16, RdbWriter.writeU32, RdbWriter.init]
  rw [RdbWriter.writeCrc64, w.crc_eq, hwritten]

end Keva
