import Keva.Common.Types
import Keva.Lib.Buckets

/-!
# The two-table hash table with incremental rehash

`Dict` follows `keva::core::Dict`: a live table `ht0`, a rehash target `ht1`, the migration cursor
`rehashidx`, and the values already handed to `value_deleter_`. A null bucket array is the empty
list. The keyed hash function and the two floating-point load-factor comparisons are parameters, so
the results below hold for every hash key and however those comparisons round.
-/

namespace Keva

structure DictEntry (V : Type) where
  key : Bytes
  value : V
  hashVal : UInt64

structure DictHashTable (V : Type) where
  buckets : List (List (DictEntry V))
  used : ℕ

namespace DictHashTable

variable {V : Type}

/-- `DictHashTable{}`, without a bucket array. -/
def null : DictHashTable V := ⟨[], 0⟩

def isNull (t : DictHashTable V) : Bool := t.buckets.isEmpty

def size (t : DictHashTable V) : ℕ := t.buckets.length

def sizemask (t : DictHashTable V) : ℕ := t.size - 1

def allocate (n : ℕ) : DictHashTable V := ⟨List.replicate n [], 0⟩

def bucketIdx (t : DictHashTable V) (h : UInt64) : ℕ := h.toNat &&& t.sizemask

def chain (t : DictHashTable V) (i : ℕ) : List (DictEntry V) := Buckets.chain t.buckets i

/-- `buckets[i] = c`. -/
def setChain (t : DictHashTable V) (i : ℕ) (c : List (DictEntry V)) : DictHashTable V :=
  { t with buckets := t.buckets.set i c }

/-- All entries, bucket by bucket and along each chain. -/
def entries (t : DictHashTable V) : List (DictEntry V) := t.buckets.flatten

/-- The chain test of every search: `e->hash_val == hash_val && e->key == key`. -/
def holds (key : Bytes) (h : UInt64) (e : DictEntry V) : Bool := e.hashVal == h && e.key == key

def findIn (t : DictHashTable V) (key : Bytes) (h : UInt64) : Option (DictEntry V) :=
  if t.isNull || t.used == 0 then none else (t.chain (t.bucketIdx h)).find? (holds key h)

/-- Prepends a new entry to its chain. -/
def prepend (t : DictHashTable V) (e : DictEntry V) : DictHashTable V :=
  let idx := t.bucketIdx e.hashVal
  { t.setChain idx (e :: t.chain idx) with used := t.used + 1 }

/-- Unlinks the first entry of the chain that matches. -/
def unlink (t : DictHashTable V) (key : Bytes) (h : UInt64) : DictHashTable V :=
  let idx := t.bucketIdx h
  { t.setChain idx ((t.chain idx).eraseP (holds key h)) with used := t.used - 1 }

/-- Rewrites the value of the first entry of the chain that matches, in place. -/
def assign (t : DictHashTable V) (key : Bytes) (h : UInt64) (f : V → V) : DictHashTable V :=
  let idx := t.bucketIdx h
  let c := t.chain idx
  t.setChain idx (c.modify (c.findIdx (holds key h)) (fun e => { e with value := f e.value }))

end DictHashTable

/-- What a `Dict` is built with: the keyed hash, and the comparisons of `load_factor()` with
`DICT_EXPAND_RATIO` and `DICT_SHRINK_RATIO` on `used` and `size`. -/
structure DictParams where
  hash : Bytes → UInt64
  overloaded : ℕ → ℕ → Bool
  sparse : ℕ → ℕ → Bool

/-- The comparisons on exact quotients: `used / size > 1` and `used / size < 1 / 10`. -/
def DictParams.exact (hash : Bytes → UInt64) : DictParams where
  hash := hash
  overloaded used size := size < used
  sparse used size := 10 * used < size

structure Dict (V : Type) where
  params : DictParams
  ht0 : DictHashTable V
  ht1 : DictHashTable V
  rehashidx : Option ℕ
  released : List V

/-- Where the search for a nonempty bucket of `ht_[0]` ends. -/
inductive SkipResult
  | found (idx : ℕ) (limit : ℤ)
  | limitReached (idx : ℕ)
  | outOfBounds

/-- How the migration loop of `rehash_step` ends. -/
inductive RehashOutcome (V : Type)
  | migrated (d : Dict V)
  | paused (d : Dict V)
  | outOfBounds (d : Dict V)

namespace Dict

open DictHashTable

variable {V : Type}

def empty (P : DictParams) : Dict V where
  params := P
  ht0 := allocate 4
  ht1 := null
  rehashidx := none
  released := []

def hash (d : Dict V) (key : Bytes) : UInt64 := d.params.hash key

def isRehashing (d : Dict V) : Bool := d.rehashidx.isSome

def size (d : Dict V) : ℕ := d.ht0.used + d.ht1.used

def isEmpty (d : Dict V) : Bool := d.size == 0

def clear (d : Dict V) : Dict V where
  params := d.params
  ht0 := allocate 4
  ht1 := null
  rehashidx := none
  released := d.released ++ (d.ht0.entries ++ d.ht1.entries).map DictEntry.value

def maybeExpand (d : Dict V) : Dict V :=
  if d.isRehashing then d
  else if d.ht0.isNull then d
  else if d.params.overloaded d.ht0.used d.ht0.size then
    { d with ht1 := allocate (Nat.nextPowerOfTwo (d.ht0.used * 2)), rehashidx := some 0 }
  else d

def maybeShrink (d : Dict V) : Dict V :=
  if d.isRehashing then d
  else if d.ht0.isNull || d.ht0.size ≤ 4 then d
  else if d.params.sparse d.ht0.used d.ht0.size then
    { d with
      ht1 := allocate (Nat.nextPowerOfTwo (if d.ht0.used < 4 then 4 else d.ht0.used))
      rehashidx := some 0 }
  else d

/-- The inner loop of `rehash_step`, on the buckets from the cursor `idx` on. -/
def skipEmpty : List (List (DictEntry V)) → ℕ → ℤ → SkipResult
  | [], _, _ => .outOfBounds
  | [] :: rest, idx, limit =>
      if limit - 1 = 0 then .limitReached (idx + 1) else skipEmpty rest (idx + 1) (limit - 1)
  | (_ :: _) :: _, idx, limit => .found idx limit

/-- Moves one entry of the chain being migrated to the front of its chain in `ht_[1]`. -/
def migrateEntry (d : Dict V) (e : DictEntry V) : Dict V :=
  { d with ht0 := { d.ht0 with used := d.ht0.used - 1 }, ht1 := d.ht1.prepend e }

def migrateBucket (d : Dict V) (idx : ℕ) : Dict V :=
  let d' := (d.ht0.chain idx).foldl migrateEntry d
  { d' with ht0 := d'.ht0.setChain idx [], rehashidx := some (idx + 1) }

def rehashLoop : ℕ → ℤ → Dict V → RehashOutcome V
  | 0, _, d => .migrated d
  | steps + 1, limit, d =>
      if d.ht0.used = 0 then .migrated d
      else
        let idx := d.rehashidx.getD 0
        match skipEmpty (d.ht0.buckets.drop idx) idx limit with
        | .found idx limit => rehashLoop steps limit (d.migrateBucket idx)
        | .limitReached idx => .paused { d with rehashidx := some idx }
        | .outOfBounds => .outOfBounds d

/-- The swap at the end of `rehash_step`: `ht_[1]` becomes the live table. -/
def completeRehash (d : Dict V) : Dict V :=
  { d with ht0 := d.ht1, ht1 := null, rehashidx := none }

/-- The code has `steps * 10` in an `int`, which holds it for `steps` up to 214748364; the program
passes 1 and 100. -/
def rehashStep (d : Dict V) (steps : ℤ) : Bool × Dict V :=
  if !d.isRehashing then (true, d)
  else
    match rehashLoop steps.toNat (steps * 10) d with
    | .paused d => (false, d)
    | .outOfBounds d => (false, d)
    | .migrated d => if d.ht0.used = 0 then (true, d.completeRehash) else (false, d)

/-- `if (is_rehashing()) rehash_step(1)`, which opens `set`, `get` and `del`. -/
def stepIfRehashing (d : Dict V) : Dict V := if d.isRehashing then (d.rehashStep 1).2 else d

/-- The part of `set` after the table that may hold `key` has been chosen. -/
def setIn (d : Dict V) (t : DictHashTable V) (put : DictHashTable V → Dict V) (key : Bytes)
    (value : V) : Bool × Dict V :=
  let h := d.hash key
  match t.findIn key h with
  | some existing =>
      let d' := put (t.assign key h (fun _ => value))
      (false, { d' with released := d'.released ++ [existing.value] })
  | none => (true, (put (t.prepend ⟨key, value, h⟩)).maybeExpand)

def set (d : Dict V) (key : Bytes) (value : V) : Bool × Dict V :=
  let d := d.stepIfRehashing
  let h := d.hash key
  if d.isRehashing then
    match d.ht0.findIn key h with
    | some existing =>
        (false, { d with
          ht0 := d.ht0.assign key h (fun _ => value)
          released := d.released ++ [existing.value] })
    | none => d.setIn d.ht1 (fun t => { d with ht1 := t }) key value
  else d.setIn d.ht0 (fun t => { d with ht0 := t }) key value

/-- The search of both `get` overloads: `ht_[0]`, then `ht_[1]` during a rehash. -/
def find (d : Dict V) (key : Bytes) : Option (DictEntry V) :=
  let h := d.hash key
  match d.ht0.findIn key h with
  | some e => some e
  | none => if d.isRehashing then d.ht1.findIn key h else none

def get (d : Dict V) (key : Bytes) : Option V × Dict V :=
  let d := d.stepIfRehashing
  ((d.find key).map DictEntry.value, d)

/-- `get() const`, which does not advance the rehash. -/
def getConst (d : Dict V) (key : Bytes) : Option V := (d.find key).map DictEntry.value

def del (d : Dict V) (key : Bytes) : Bool × Dict V :=
  let d := d.stepIfRehashing
  let h := d.hash key
  match d.ht0.findIn key h with
  | some e =>
      (true, { d with
        ht0 := d.ht0.unlink key h
        released := d.released ++ [e.value] }.maybeShrink)
  | none =>
      if d.isRehashing then
        match d.ht1.findIn key h with
        | some e =>
            (true, { d with
              ht1 := d.ht1.unlink key h
              released := d.released ++ [e.value] }.maybeShrink)
        | none => (false, d)
      else (false, d)

def «exists» (d : Dict V) (key : Bytes) : Bool := (d.getConst key).isSome

/-- A write through the value pointer that `get` returned: the entry keeps its place. -/
def modifyValue (d : Dict V) (key : Bytes) (f : V → V) : Dict V :=
  let h := d.hash key
  match d.ht0.findIn key h with
  | some _ => { d with ht0 := d.ht0.assign key h f }
  | none =>
      if d.isRehashing then
        match d.ht1.findIn key h with
        | some _ => { d with ht1 := d.ht1.assign key h f }
        | none => d
      else d

/-- The entries in the order in which `for_each` visits them. -/
def visited (d : Dict V) : List (DictEntry V) :=
  if d.ht0.isNull then d.ht1.entries
  else if d.isRehashing then d.ht0.entries ++ d.ht1.entries
  else d.ht0.entries

def forEach (d : Dict V) : List (Bytes × V) := d.visited.map (fun e => (e.key, e.value))

/-- The walk of `random_sample` over at most `buckets` buckets from `idx` on, around the mask. -/
def sampleWalk (t : DictHashTable V) (count : ℕ) :
    ℕ → ℕ → List (DictEntry V) → List (DictEntry V)
  | 0, _, out => out
  | buckets + 1, idx, out =>
      if out.length < count then
        sampleWalk t count buckets ((idx + 1) &&& t.sizemask)
          (out ++ (t.chain idx).take (count - out.length))
      else out

/-- `random_sample` into an empty vector; `coin` and `start` are what the generator returns. -/
def randomSample (d : Dict V) (count : ℕ) (coin start : UInt64) : List (DictEntry V) :=
  if d.size = 0 then []
  else
    let count := if d.size < count then d.size else count
    let second := d.isRehashing && coin % 3 == 0 && !d.ht1.isNull && d.ht1.used != 0
    let t := if second then d.ht1 else d.ht0
    let t := if t.isNull || t.used == 0 then d.ht0 else t
    if t.isNull || t.used == 0 then []
    else sampleWalk t count t.size (t.bucketIdx start) []

end Dict

end Keva
