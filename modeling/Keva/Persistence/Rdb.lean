import Keva.Core.Keyspace

/-!
# The records of a snapshot

`saveRecords` is the traversal of `save_database_to_writer`: `for_each` reads the clock once and
skips expired keys, and for every other key the visitor asks `pttl`, which may migrate a bucket of
the deadline table while the key table is being visited. `clock n` is the `n`-th reading that the
save makes.
-/

namespace Keva

namespace rdb

def magic : Bytes := [75, 69, 86, 65]

def version : UInt16 := 1

def opcodeDb : UInt8 := 0xFE

def opcodeExpire : UInt8 := 0xFC

def opcodeEof : UInt8 := 0xFF

def typeString : UInt8 := 0x00

end rdb

structure RdbRecord where
  key : Bytes
  value : Bytes
  expire : Option Int64
  deriving DecidableEq

namespace KevaDatabase

/-- The records for the entries still to be visited, from clock reading `n` on. -/
def saveWalk (clock : ℕ → MillisecondTimestamp) :
    List (Bytes × KevaObject) → ℕ → KevaDatabase → List RdbRecord × KevaDatabase
  | [], _, db => ([], db)
  | (key, obj) :: rest, n, db =>
      if db.isExpired key (clock 0) then saveWalk clock rest n db
      else
        let (ttlMs, db') := db.pttl key (clock n)
        if 0 ≤ ttlMs then
          let absExpire := clock (n + 1) + ttlMs
          let (records, db'') := saveWalk clock rest (n + 2) db'
          (⟨key, obj.getStringValue, some absExpire⟩ :: records, db'')
        else
          let (records, db'') := saveWalk clock rest n db'
          (⟨key, obj.getStringValue, none⟩ :: records, db'')

def saveRecords (clock : ℕ → MillisecondTimestamp) (db : KevaDatabase) :
    List RdbRecord × KevaDatabase :=
  saveWalk clock db.keys.forEach 1 db

/-- A save that stops after `visited` entries: only the deadline table has moved on. -/
def saveInterrupted (clock : ℕ → MillisecondTimestamp) (visited : ℕ) (db : KevaDatabase) :
    KevaDatabase :=
  (saveWalk clock (db.keys.forEach.take visited) 1 db).2

@[simp] theorem content_saveWalk (clock : ℕ → MillisecondTimestamp)
    (entries : List (Bytes × KevaObject)) (n : ℕ) (db : KevaDatabase) :
    (saveWalk clock entries n db).2.content = db.content := by
  induction entries generalizing n db with
  | nil => rfl
  | cons e entries ih =>
      obtain ⟨key, obj⟩ := e
      rw [saveWalk]
      split_ifs
      · exact ih n db
      · dsimp only
        split_ifs
        · exact (ih _ _).trans (content_pttl db key _)
        · exact (ih _ _).trans (content_pttl db key _)

@[simp] theorem content_saveRecords (clock : ℕ → MillisecondTimestamp) (db : KevaDatabase) :
    (saveRecords clock db).2.content = db.content := content_saveWalk clock _ 1 db

@[simp] theorem content_saveInterrupted (clock : ℕ → MillisecondTimestamp) (visited : ℕ)
    (db : KevaDatabase) : (saveInterrupted clock visited db).content = db.content :=
  content_saveWalk clock _ 1 db

end KevaDatabase

end Keva
