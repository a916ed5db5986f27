import Keva.Core.DictMap
import Keva.Core.Object

/-!
# `KevaDatabase`: keys and deadlines in two `Dict`s

The operations follow `keva::core::KevaDatabase`. Each reads the clock at most once where the source
does: `now` is that reading of `now_milliseconds()` and `secs` that of `time(nullptr)`. Both tables
are sound by construction. `db_id_` only appears in log messages and, as the constant 0, in a
snapshot, and is left out.
-/

namespace Keva

structure KevaDatabase where
  keys : Dict KevaObject
  expires : Dict MillisecondTimestamp
  keys_sound : keys.Sound
  expires_sound : expires.Sound

/-- The two answers that the generator gives in one call of `random_sample`. -/
structure SampleDraw where
  coin : UInt64
  start : UInt64

namespace KevaDatabase

def empty (P Q : DictParams) : KevaDatabase where
  keys := Dict.empty P
  expires := Dict.empty Q
  keys_sound := Dict.sound_empty P
  expires_sound := Dict.sound_empty Q

def keysGet (db : KevaDatabase) (key : Bytes) : Option KevaObject × KevaDatabase :=
  ((db.keys.get key).1,
    { db with keys := (db.keys.get key).2, keys_sound := (Dict.get_spec db.keys_sound key).2.1 })

def keysSet (db : KevaDatabase) (key : Bytes) (obj : KevaObject) : KevaDatabase :=
  { db with
    keys := (db.keys.set key obj).2
    keys_sound := (Dict.set_spec db.keys_sound key obj).1 }

def keysDel (db : KevaDatabase) (key : Bytes) : KevaDatabase :=
  { db with keys := (db.keys.del key).2, keys_sound := (Dict.del_spec db.keys_sound key).1 }

/-- A write to the object that `keys_.get` returned a pointer to. -/
def keysModify (db : KevaDatabase) (key : Bytes) (f : KevaObject → KevaObject) : KevaDatabase :=
  { db with
    keys := db.keys.modifyValue key f
    keys_sound := (Dict.modifyValue_cases db.keys_sound key f).1 }

def expiresGet (db : KevaDatabase) (key : Bytes) : Option MillisecondTimestamp × KevaDatabase :=
  ((db.expires.get key).1,
    { db with
      expires := (db.expires.get key).2
      expires_sound := (Dict.get_spec db.expires_sound key).2.1 })

def expiresSet (db : KevaDatabase) (key : Bytes) (ts : MillisecondTimestamp) : KevaDatabase :=
  { db with
    expires := (db.expires.set key ts).2
    expires_sound := (Dict.set_spec db.expires_sound key ts).1 }

def expiresDel (db : KevaDatabase) (key : Bytes) : KevaDatabase :=
  { db with
    expires := (db.expires.del key).2
    expires_sound := (Dict.del_spec db.expires_sound key).1 }

/-- A write to the timestamp that `expires_.get` returned a pointer to. -/
def expiresModify (db : KevaDatabase) (key : Bytes)
    (f : MillisecondTimestamp → MillisecondTimestamp) : KevaDatabase :=
  { db with
    expires := db.expires.modifyValue key f
    expires_sound := (Dict.modifyValue_cases db.expires_sound key f).1 }

def deleteKey (db : KevaDatabase) (key : Bytes) : KevaDatabase := (db.keysDel key).expiresDel key

def isExpired (db : KevaDatabase) (key : Bytes) (now : MillisecondTimestamp) : Bool :=
  match db.expires.getConst key with
  | none => false
  | some ts => ts ≤ now

def get (db : KevaDatabase) (key : Bytes) (now : MillisecondTimestamp) (secs : Int64) :
    Option KevaObject × KevaDatabase :=
  match db.keysGet key with
  | (none, db) => (none, db)
  | (some obj, db) =>
      if db.isExpired key now then (none, db.deleteKey key)
      else
        let clock := LruClock.current secs
        (some (obj.touch clock), db.keysModify key (fun o => o.touch clock))

def peek (db : KevaDatabase) (key : Bytes) (now : MillisecondTimestamp) :
    Option KevaObject × KevaDatabase :=
  match db.keysGet key with
  | (none, db) => (none, db)
  | (some obj, db) => if db.isExpired key now then (none, db) else (some obj, db)

def set (db : KevaDatabase) (key : Bytes) (obj : KevaObject) : KevaDatabase :=
  (db.expiresDel key).keysSet key obj

def del (db : KevaDatabase) (key : Bytes) : Bool × KevaDatabase :=
  (db.keys.exists key, db.deleteKey key)

def «exists» (db : KevaDatabase) (key : Bytes) (now : MillisecondTimestamp) (secs : Int64) :
    Bool × KevaDatabase :=
  ((db.get key now secs).1.isSome, (db.get key now secs).2)

def dbsize (db : KevaDatabase) : ℕ := db.keys.size

def setExpire (db : KevaDatabase) (key : Bytes) (expireMs : MillisecondTimestamp) : KevaDatabase :=
  match db.expiresGet key with
  | (some _, db) => db.expiresModify key (fun _ => expireMs)
  | (none, db) => db.expiresSet key expireMs

def removeExpire (db : KevaDatabase) (key : Bytes) : KevaDatabase := db.expiresDel key

/-- The subtraction wraps where the source's overflows. -/
def pttl (db : KevaDatabase) (key : Bytes) (now : MillisecondTimestamp) : Int64 × KevaDatabase :=
  if !db.keys.exists key then (-2, db)
  else
    match db.expiresGet key with
    | (none, db) => (-1, db)
    | (some ts, db) => (if 0 < ts - now then ts - now else 0, db)

/-- The keys that `for_each` visits, with their objects. -/
def forEach (db : KevaDatabase) (now : MillisecondTimestamp) : List (Bytes × KevaObject) :=
  db.keys.forEach.filter (fun e => !db.isExpired e.1 now)

def flush (db : KevaDatabase) : KevaDatabase where
  keys := db.keys.clear
  expires := db.expires.clear
  keys_sound := Dict.sound_clear db.keys
  expires_sound := Dict.sound_clear db.expires

def rehashStep (db : KevaDatabase) : KevaDatabase where
  keys := (db.keys.rehashStep 100).2
  expires := (db.expires.rehashStep 100).2
  keys_sound := (Dict.rehashStep_spec db.keys_sound 100).1
  expires_sound := (Dict.rehashStep_spec db.expires_sound 100).1

/-- The rounds of `active_expire_cycle`, one generator draw each. -/
def expireRounds (now : MillisecondTimestamp) :
    List SampleDraw → ℕ → KevaDatabase → ℕ × KevaDatabase
  | [], total, db => (total, db)
  | draw :: draws, total, db =>
      let sampled := db.expires.randomSample constants.activeExpireSampleSize draw.coin draw.start
      let expired := (sampled.filter (fun e => e.value ≤ now)).map DictEntry.key
      if sampled.length = 0 then (total, db)
      else
        let db := expired.foldl deleteKey db
        let total := total + expired.length
        if expired.length * 4 < sampled.length then (total, db)
        else expireRounds now draws total db

/-- `MAX_CYCLES` is 3: the three draws are those of the three rounds. -/
def activeExpireCycle (db : KevaDatabase) (now : MillisecondTimestamp)
    (draw₁ draw₂ draw₃ : SampleDraw) : ℕ × KevaDatabase :=
  if db.expires.isEmpty then (0, db) else expireRounds now [draw₁, draw₂, draw₃] 0 db

end KevaDatabase

end Keva
