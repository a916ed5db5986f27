import Keva.Persistence.RdbSave

/-!
# Loading a snapshot

`RdbReader` reads what is left of the file and keeps a checksum of what it has read; `readError` is
what a `read` reports once the bytes have run out, which may be the end of the file or an I/O error.
A load that fails midway leaves the keys that it has stored until then.
-/

namespace Keva

open rdb

inductive StatusCode
  | ioError
  | protocolError
  | notFound
  deriving DecidableEq, Repr

/-- A `Status` that is not ok. -/
structure Failure where
  code : StatusCode
  message : Bytes

structure RdbReader where
  rest : Bytes
  crcState : UInt64
  readError : Bytes

/-- What `open` and then `read` make of the file name. -/
inductive RdbFile
  | missing
  | unreadable (message : Bytes)
  | opened (content : Bytes) (readError : Bytes)

def unexpectedEof : Bytes := ascii "Unexpected EOF in RDB file"

/-- A file that can be read to its end. -/
def RdbFile.whole (content : Bytes) : RdbFile := .opened content unexpectedEof

/-- The message has a dash in it, which takes three bytes. -/
def checksumMismatch : Bytes :=
  ascii "RDB CRC64 checksum mismatch " ++ [0xE2, 0x80, 0x94] ++ ascii " file may be corrupt"

abbrev Reading (α : Type) : Type := StateT RdbReader (Except Failure) α

namespace RdbReader

def ioError {α : Type} (message : Bytes) : Reading α := throw ⟨.ioError, message⟩

def protoError {α : Type} (message : Bytes) : Reading α := throw ⟨.protocolError, message⟩

/-- The bytes arrive in pieces; the checksum is that of all of them. -/
def readBytes (len : ℕ) : Reading Bytes := fun r =>
  if len ≤ r.rest.length then
    .ok (r.rest.take len, { r with
      rest := r.rest.drop len
      crcState := crc64Update r.crcState (r.rest.take len) })
  else ioError r.readError r

def readU8 : Reading UInt8 := do
  let bytes ← readBytes 1
  pure (UInt8.ofNat (LittleEndian.decode bytes))

def readU16 : Reading UInt16 := do
  let bytes ← readBytes 2
  pure (UInt16.ofNat (LittleEndian.decode bytes))

def readU32 : Reading UInt32 := do
  let bytes ← readBytes 4
  pure (UInt32.ofNat (LittleEndian.decode bytes))

def readI64 : Reading Int64 := do
  let bytes ← readBytes 8
  pure (UInt64.ofNat (LittleEndian.decode bytes)).toInt64

def readLength : Reading ℕ := do
  let first ← readU8
  if first &&& 0xC0 = 0x00 then pure (first &&& 0x3F).toNat
  else if first &&& 0xC0 = 0x80 then do
    let second ← readU8
    pure ((first &&& 0x3F).toNat * 256 + second.toNat)
  else if first &&& 0xC0 = 0xC0 then do
    let len ← readU32
    pure len.toNat
  else protoError (ascii "Unknown RDB string length encoding")

def readString : Reading Bytes := do
  let len ← readLength
  readBytes len

/-- The stored checksum is read past the accumulator. -/
def verifyCrc64 (r : RdbReader) : Except Failure Unit :=
  if r.rest.length < 8 then .error ⟨.ioError, ascii "Failed to read CRC64 from RDB"⟩
  else if UInt64.ofNat (LittleEndian.decode (r.rest.take 8)) ≠ r.crcState then
    .error ⟨.ioError, checksumMismatch⟩
  else .ok ()

def readHeader : Reading Unit := do
  let bytes ← readBytes 4
  if bytes ≠ magic then protoError (ascii "Not a valid Keva RDB file (wrong magic bytes)")
  else do
    let v ← readU16
    if version < v then protoError (ascii "RDB version is newer than this server supports")
    else pure ()

/-- The opcode of a record, after an expiry if there is one. -/
def readType (opcode : UInt8) (pendingExpire : Int64) : Reading (UInt8 × Int64) :=
  if opcode = opcodeExpire then do
    let pendingExpire ← readI64
    let opcode ← readU8
    pure (opcode, pendingExpire)
  else pure (opcode, pendingExpire)

end RdbReader

/-- What one round of the record loop finds. An opcode that it does not know is passed over. -/
inductive RdbItem
  | eof
  | selectDb
  | record (key value : Bytes) (pendingExpire : Int64)
  | unknown (pendingExpire : Int64)

open RdbReader in
def RdbReader.readItem (pendingExpire : Int64) : Reading RdbItem := do
  let opcode ← readU8
  if opcode = opcodeEof then pure .eof
  else if opcode = opcodeDb then do
    let _ ← readU32
    pure .selectDb
  else do
    let (opcode, pendingExpire) ← readType opcode pendingExpire
    if opcode = typeString then do
      let key ← readString
      let value ← readString
      pure (.record key value pendingExpire)
    else pure (.unknown pendingExpire)

namespace RdbReader

/-- At least `n` bytes are gone after a successful run. -/
def Shortens {α : Type} (p : Reading α) (n : ℕ) : Prop :=
  ∀ r a r', p r = .ok (a, r') → r'.rest.length + n ≤ r.rest.length

variable {α β : Type} {p : Reading α} {f : α → Reading β} {m n : ℕ}

theorem shortens_pure (a : α) : Shortens (pure a) 0 := by
  intro r b r' h
  obtain ⟨-, rfl⟩ := Prod.mk.inj (Except.ok.inj h)
  exact Nat.le_refl _

theorem shortens_throw (e : Failure) : Shortens (throw e : Reading α) n := by
  intro r a r' h
  cases h

theorem Shortens.mono (h : Shortens p n) (hmn : m ≤ n) : Shortens p m := by
  intro r a r' hp
  have := h r a r' hp
  omega

theorem shortens_bind (hp : Shortens p m) (hf : ∀ a, Shortens (f a) n) :
    Shortens (p >>= f) (m + n) := by
  intro r b r'' h
  change (p r).bind (fun x => f x.1 x.2) = _ at h
  cases hr : p r with
  | error e =>
      rw [hr] at h
      cases h
  | ok x =>
      obtain ⟨a, r'⟩ := x
      rw [hr] at h
      have hfirst := hp r a r' hr
      have hsecond := hf a r' b r'' h
      omega

theorem shortens_readBytes (len : ℕ) : Shortens (readBytes len) len := by
  intro r data r' h
  unfold readBytes at h
  split_ifs at h with hlen
  · obtain ⟨-, rfl⟩ := Prod.mk.inj (Except.ok.inj h)
    rw [List.length_drop]
    omega
  · cases h

theorem shortens_readU8 : Shortens readU8 1 :=
  shortens_bind (shortens_readBytes 1) (fun _ => shortens_pure _)

theorem shortens_readString : Shortens readString 0 := by
  have hlength : Shortens readLength 0 := by
    refine (shortens_bind (n := 0) shortens_readU8 fun first => ?_).mono (Nat.zero_le _)
    split_ifs
    · exact shortens_pure _
    · exact (shortens_bind shortens_readU8 (fun _ => shortens_pure _)).mono (Nat.zero_le _)
    · exact (shortens_bind (shortens_bind (shortens_readBytes 4) (fun _ => shortens_pure _))
        (fun _ => shortens_pure _)).mono (Nat.zero_le _)
    · exact shortens_throw _
  exact shortens_bind hlength (fun len => (shortens_readBytes len).mono (Nat.zero_le _))

theorem shortens_readType (opcode : UInt8) (pendingExpire : Int64) :
    Shortens (readType opcode pendingExpire) 0 := by
  unfold readType
  split_ifs
  · have hexpire : Shortens readI64 8 :=
      shortens_bind (shortens_readBytes 8) (fun _ => shortens_pure _)
    exact (shortens_bind hexpire fun _ =>
      shortens_bind shortens_readU8 (fun _ => shortens_pure _)).mono (Nat.zero_le _)
  · exact shortens_pure _

theorem shortens_readItem (pendingExpire : Int64) : Shortens (readItem pendingExpire) 1 := by
  refine shortens_bind (n := 0) shortens_readU8 fun opcode => ?_
  split_ifs
  · exact shortens_pure _
  · exact (shortens_bind (shortens_bind (shortens_readBytes 4) (fun _ => shortens_pure _))
      (fun _ => shortens_pure _)).mono (Nat.zero_le _)
  · refine shortens_bind (m := 0) (n := 0) (shortens_readType opcode pendingExpire) fun x => ?_
    obtain ⟨opcode', expire⟩ := x
    dsimp only
    split_ifs
    · exact shortens_bind (n := 0) shortens_readString fun _ =>
        shortens_bind (n := 0) shortens_readString fun _ => shortens_pure _
    · exact shortens_pure _

end RdbReader

namespace KevaDatabase

open RdbReader

/-- A record is stored; `pendingExpire` is -1 if there was no expiry before it. -/
def loadRecord (db : KevaDatabase) (key value : Bytes) (pendingExpire secs : Int64) :
    KevaDatabase :=
  let db := db.set key (KevaObject.createString value (LruClock.current secs))
  if pendingExpire ≠ -1 then db.setExpire key pendingExpire else db

/-- The record loop of `rdb_load`. Every round reads at least one byte, so that after as many rounds
as there were bytes the next read fails. `secs n` is the LRU clock's time for the `n`-th key. -/
def loadLoop (secs : ℕ → Int64) :
    ℕ → ℕ → Int64 → RdbReader → KevaDatabase → Except Failure RdbReader × KevaDatabase
  | 0, _, _, r, db => (.error ⟨.ioError, r.readError⟩, db)
  | fuel + 1, keysLoaded, pendingExpire, r, db =>
      match readItem pendingExpire r with
      | .error e => (.error e, db)
      | .ok (.eof, r) => (.ok r, db)
      | .ok (.selectDb, r) => loadLoop secs fuel keysLoaded pendingExpire r db
      | .ok (.record key value pendingExpire, r) =>
          loadLoop secs fuel (keysLoaded + 1) (-1) r
            (db.loadRecord key value pendingExpire (secs keysLoaded))
      | .ok (.unknown pendingExpire, r) => loadLoop secs fuel keysLoaded pendingExpire r db

def rdbLoad (secs : ℕ → Int64) (file : RdbFile) (db : KevaDatabase) :
    Except Failure Unit × KevaDatabase :=
  match file with
  | .missing => (.error ⟨.notFound, ascii "key not found"⟩, db)
  | .unreadable message => (.error ⟨.ioError, message⟩, db)
  | .opened content message =>
      match readHeader ⟨content, 0, message⟩ with
      | .error e => (.error e, db)
      | .ok (_, r) =>
          match loadLoop secs r.rest.length 0 (-1) r db with
          | (.error e, db) => (.error e, db)
          | (.ok r, db) => (r.verifyCrc64, db)

theorem readItem_of_empty {r : RdbReader} (h : r.rest = []) (pendingExpire : Int64) :
    readItem pendingExpire r = .error ⟨.ioError, r.readError⟩ := by
  have hread : readBytes 1 r = .error ⟨.ioError, r.readError⟩ := by
    unfold readBytes
    rw [h]
    rfl
  change ((readBytes 1 r).bind _).bind _ = _
  rw [hread]
  rfl

theorem loadLoop_of_empty {r : RdbReader} (h : r.rest = []) (secs : ℕ → Int64) (fuel n : ℕ)
    (pendingExpire : Int64) (db : KevaDatabase) :
    loadLoop secs fuel n pendingExpire r db = (.error ⟨.ioError, r.readError⟩, db) := by
  cases fuel with
  | zero => rfl
  | succ fuel => rw [loadLoop, readItem_of_empty h]

/-- Any two numbers of rounds that cover the bytes give the same load. -/
theorem loadLoop_congr {secs : ℕ → Int64} {fuel fuel' n : ℕ} {pendingExpire : Int64}
    {r : RdbReader} {db : KevaDatabase} (h : r.rest.length ≤ fuel) (h' : r.rest.length ≤ fuel') :
    loadLoop secs fuel n pendingExpire r db = loadLoop secs fuel' n pendingExpire r db := by
  induction fuel generalizing fuel' n pendingExpire r db with
  | zero =>
      have hempty : r.rest = [] := List.eq_nil_of_length_eq_zero (Nat.le_zero.mp h)
      rw [loadLoop_of_empty hempty, loadLoop_of_empty hempty]
  | succ fuel ih =>
      cases fuel' with
      | zero =>
          have hempty : r.rest = [] := List.eq_nil_of_length_eq_zero (Nat.le_zero.mp h')
          rw [loadLoop_of_empty hempty, loadLoop_of_empty hempty]
      | succ fuel' =>
          rw [loadLoop, loadLoop]
          cases hitem : readItem pendingExpire r with
          | error e => rfl
          | ok item =>
              obtain ⟨item, r'⟩ := item
              have hlt : r'.rest.length + 1 ≤ r.rest.length := shortens_readItem _ r item r' hitem
              have hle : r'.rest.length ≤ fuel := by omega
              have hle' : r'.rest.length ≤ fuel' := by omega
              cases item with
              | eof => rfl
              | selectDb => exact ih hle hle'
              | record key value pendingExpire => exact ih hle hle'
              | unknown pendingExpire => exact ih hle hle'

variable {I : KevaDatabase → Prop}

theorem loadLoop_invariant {secs : ℕ → Int64}
    (hI : ∀ db key value expire t, I db → I (db.loadRecord key value expire t))
    (fuel n : ℕ) (expire : Int64) (r : RdbReader) {db : KevaDatabase} (h : I db) :
    I (loadLoop secs fuel n expire r db).2 := by
  induction fuel generalizing n expire r db with
  | zero => exact h
  | succ fuel ih =>
      rw [loadLoop]
      cases readItem expire r with
      | error e => exact h
      | ok item =>
          obtain ⟨item, r'⟩ := item
          cases item with
          | eof => exact h
          | selectDb => exact ih _ _ _ h
          | record key value expire => exact ih _ _ _ (hI _ _ _ _ _ h)
          | unknown expire => exact ih _ _ _ h

theorem rdbLoad_invariant {secs : ℕ → Int64}
    (hI : ∀ db key value expire t, I db → I (db.loadRecord key value expire t))
    (file : RdbFile) {db : KevaDatabase} (h : I db) : I (db.rdbLoad secs file).2 := by
  unfold rdbLoad
  cases file with
  | missing => exact h
  | unreadable message => exact h
  | opened content message =>
      dsimp only
      cases readHeader ⟨content, 0, message⟩ with
      | error e => exact h
      | ok r =>
          obtain ⟨_, r⟩ := r
          dsimp only
          have hloop := @loadLoop_invariant I secs hI r.rest.length 0 (-1) r db h
          generalize loadLoop secs r.rest.length 0 (-1) r db = l at hloop ⊢
          obtain ⟨_ | _, db'⟩ := l
          · exact hloop
          · exact hloop

end KevaDatabase

end Keva
