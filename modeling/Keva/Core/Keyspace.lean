import Keva.Core.Database

/-!
# The keyspace a database stands for

A `Keyspace` is what a `KevaDatabase` means: the object of each key and the deadline of each key.
Every operation of the database has its counterpart here, and `content` carries the one to the
other. A key whose deadline has passed is invisible; `purge` removes such keys.
-/

namespace Keva

structure Keyspace where
  objects : Bytes → Option KevaObject
  deadlines : Bytes → Option MillisecondTimestamp

namespace Keyspace

open Function (update)

@[ext] theorem ext {K K' : Keyspace} (ho : K.objects = K'.objects)
    (hd : K.deadlines = K'.deadlines) : K = K' := by
  cases K; cases K'; cases ho; cases hd; rfl

def empty : Keyspace := ⟨fun _ => none, fun _ => none⟩

def expired (K : Keyspace) (t : MillisecondTimestamp) (k : Bytes) : Bool :=
  match K.deadlines k with
  | none => false
  | some e => e ≤ t

def erase (K : Keyspace) (k : Bytes) : Keyspace :=
  ⟨update K.objects k none, update K.deadlines k none⟩

def get (K : Keyspace) (k : Bytes) (t : MillisecondTimestamp) (secs : Int64) :
    Option KevaObject × Keyspace :=
  match K.objects k with
  | none => (none, K)
  | some obj =>
      if K.expired t k then (none, K.erase k)
      else
        let obj := obj.touch (LruClock.current secs)
        (some obj, { K with objects := update K.objects k (some obj) })

def peek (K : Keyspace) (k : Bytes) (t : MillisecondTimestamp) : Option KevaObject :=
  if K.expired t k then none else K.objects k

def set (K : Keyspace) (k : Bytes) (obj : KevaObject) : Keyspace :=
  ⟨update K.objects k (some obj), update K.deadlines k none⟩

def setExpire (K : Keyspace) (k : Bytes) (e : MillisecondTimestamp) : Keyspace :=
  { K with deadlines := update K.deadlines k (some e) }

def removeExpire (K : Keyspace) (k : Bytes) : Keyspace :=
  { K with deadlines := update K.deadlines k none }

def pttl (K : Keyspace) (k : Bytes) (t : MillisecondTimestamp) : Int64 :=
  match K.objects k, K.deadlines k with
  | none, _ => -2
  | some _, none => -1
  | some _, some e => if 0 < e - t then e - t else 0

/-- The key is there and its deadline, if it has one, has not passed. -/
def visible (K : Keyspace) (t : MillisecondTimestamp) (k : Bytes) :
    Option (KevaObject × Option MillisecondTimestamp) :=
  if K.expired t k then none else (K.objects k).map (fun obj => (obj, K.deadlines k))

def purge (K : Keyspace) (t : MillisecondTimestamp) : Keyspace where
  objects k := if K.expired t k then none else K.objects k
  deadlines k := if K.expired t k then none else K.deadlines k

/-- Only stored keys have deadlines. -/
def NoOrphans (K : Keyspace) : Prop := ∀ k, K.objects k = none → K.deadlines k = none

/-- Every stored object satisfies `P`. -/
def All (P : KevaObject → Prop) (K : Keyspace) : Prop := ∀ k obj, K.objects k = some obj → P obj

/-- Every object is as a factory function built it. -/
def Canonical (K : Keyspace) : Prop := K.All KevaObject.Canonical

variable {K : Keyspace} {k : Bytes} {t : MillisecondTimestamp}

theorem get_of_none (h : K.objects k = none) (secs : Int64) : K.get k t secs = (none, K) := by
  rw [get, h]

theorem get_of_expired {obj : KevaObject} (h : K.objects k = some obj)
    (he : K.expired t k = true) (secs : Int64) : K.get k t secs = (none, K.erase k) := by
  simp only [get, h, he, if_true]

theorem get_of_live {obj : KevaObject} (h : K.objects k = some obj)
    (he : K.expired t k = false) (secs : Int64) :
    K.get k t secs = (some (obj.touch (LruClock.current secs)),
      { K with objects := update K.objects k (some (obj.touch (LruClock.current secs))) }) := by
  simp only [get, h, he, Bool.false_eq_true, if_false]

theorem objects_of_get {secs : Int64} {obj : KevaObject} (h : (K.get k t secs).1 = some obj) :
    (K.get k t secs).2.objects k = some obj := by
  cases ho : K.objects k with
  | none => rw [get_of_none ho] at h; cases h
  | some o =>
      cases he : K.expired t k with
      | true => rw [get_of_expired ho he] at h; cases h
      | false =>
          rw [get_of_live ho he] at h ⊢
          rw [← h]
          exact Function.update_self _ _ _

theorem get_elsewhere {j : Bytes} (hj : j ≠ k) (secs : Int64) :
    (K.get k t secs).2.objects j = K.objects j ∧
      (K.get k t secs).2.deadlines j = K.deadlines j := by
  cases ho : K.objects k with
  | none => rw [get_of_none ho]; exact ⟨rfl, rfl⟩
  | some obj =>
      cases he : K.expired t k with
      | true => rw [get_of_expired ho he]; simp [erase, Function.update_of_ne hj]
      | false => rw [get_of_live ho he]; simp [Function.update_of_ne hj]

variable {P : KevaObject → Prop}

theorem all_empty : Keyspace.empty.All P := fun _ _ h => by cases h

theorem All.update_some (h : K.All P) {obj : KevaObject} (hobj : P obj)
    (d : Bytes → Option MillisecondTimestamp) :
    (Keyspace.mk (update K.objects k (some obj)) d).All P := by
  intro j o ho
  dsimp only at ho
  by_cases hj : j = k
  · rw [hj, Function.update_self] at ho
    exact Option.some.inj ho ▸ hobj
  · rw [Function.update_of_ne hj] at ho
    exact h j o ho

theorem All.update_none (h : K.All P) (d : Bytes → Option MillisecondTimestamp) :
    (Keyspace.mk (update K.objects k none) d).All P := by
  intro j o ho
  dsimp only at ho
  by_cases hj : j = k
  · rw [hj, Function.update_self] at ho
    cases ho
  · rw [Function.update_of_ne hj] at ho
    exact h j o ho

theorem All.get (h : K.All P) (htouch : ∀ obj clock, P obj → P (obj.touch clock))
    (k : Bytes) (t : MillisecondTimestamp) (secs : Int64) :
    (∀ obj, (K.get k t secs).1 = some obj → P obj) ∧ (K.get k t secs).2.All P := by
  cases ho : K.objects k with
  | none =>
      rw [get_of_none ho]
      exact ⟨fun obj hobj => (by cases hobj), h⟩
  | some o =>
      cases he : K.expired t k with
      | true =>
          rw [get_of_expired ho he]
          exact ⟨fun obj hobj => (by cases hobj), h.update_none _⟩
      | false =>
          have ho' := htouch o (LruClock.current secs) (h k o ho)
          rw [get_of_live ho he]
          exact ⟨fun obj hobj => Option.some.inj hobj ▸ ho', h.update_some ho' _⟩

end Keyspace

namespace KevaDatabase

open Function (update)

variable (db : KevaDatabase) (key : Bytes)

def content (db : KevaDatabase) : Keyspace := ⟨db.keys.toMap, db.expires.toMap⟩

@[simp] theorem content_empty (P Q : DictParams) : (empty P Q).content = .empty := by
  simp [content, empty, Keyspace.empty]

@[simp] theorem keysGet_fst : (db.keysGet key).1 = db.content.objects key :=
  (Dict.get_spec db.keys_sound key).1

@[simp] theorem content_keysGet : (db.keysGet key).2.content = db.content :=
  Keyspace.ext ((Dict.get_spec db.keys_sound key).2.2.toMap_eq db.keys_sound) rfl

@[simp] theorem content_keysSet (obj : KevaObject) :
    (db.keysSet key obj).content =
      { db.content with objects := update db.content.objects key (some obj) } :=
  Keyspace.ext (Dict.toMap_set db.keys_sound key obj) rfl

@[simp] theorem content_keysDel :
    (db.keysDel key).content =
      { db.content with objects := update db.content.objects key none } :=
  Keyspace.ext (Dict.toMap_del db.keys_sound key) rfl

@[simp] theorem content_keysModify (f : KevaObject → KevaObject) :
    (db.keysModify key f).content =
      { db.content with
        objects := update db.content.objects key ((db.content.objects key).map f) } :=
  Keyspace.ext (Dict.toMap_modifyValue db.keys_sound key f) rfl

@[simp] theorem expiresGet_fst : (db.expiresGet key).1 = db.content.deadlines key :=
  (Dict.get_spec db.expires_sound key).1

@[simp] theorem content_expiresGet : (db.expiresGet key).2.content = db.content :=
  Keyspace.ext rfl ((Dict.get_spec db.expires_sound key).2.2.toMap_eq db.expires_sound)

@[simp] theorem content_expiresSet (ts : MillisecondTimestamp) :
    (db.expiresSet key ts).content =
      { db.content with deadlines := update db.content.deadlines key (some ts) } :=
  Keyspace.ext rfl (Dict.toMap_set db.expires_sound key ts)

@[simp] theorem content_expiresDel :
    (db.expiresDel key).content =
      { db.content with deadlines := update db.content.deadlines key none } :=
  Keyspace.ext rfl (Dict.toMap_del db.expires_sound key)

@[simp] theorem content_expiresModify (f : MillisecondTimestamp → MillisecondTimestamp) :
    (db.expiresModify key f).content =
      { db.content with
        deadlines := update db.content.deadlines key ((db.content.deadlines key).map f) } :=
  Keyspace.ext rfl (Dict.toMap_modifyValue db.expires_sound key f)

@[simp] theorem content_deleteKey : (db.deleteKey key).content = db.content.erase key := by
  simp [deleteKey, Keyspace.erase]

@[simp] theorem isExpired_eq (t : MillisecondTimestamp) :
    db.isExpired key t = db.content.expired t key := by
  rw [isExpired, Dict.getConst_eq db.expires_sound]
  rfl

theorem get_spec (t : MillisecondTimestamp) (secs : Int64) :
    (db.get key t secs).1 = (db.content.get key t secs).1 ∧
      (db.get key t secs).2.content = (db.content.get key t secs).2 := by
  have hfst := keysGet_fst db key
  have hcontent := content_keysGet db key
  rw [get, Keyspace.get]
  generalize db.keysGet key = r at hfst hcontent ⊢
  obtain ⟨o, db'⟩ := r
  simp only at hfst hcontent
  rw [← hfst]
  cases o with
  | none => exact ⟨rfl, hcontent⟩
  | some obj =>
      simp only [isExpired_eq, hcontent]
      split_ifs
      · exact ⟨rfl, by rw [content_deleteKey, hcontent]⟩
      · refine ⟨rfl, ?_⟩
        rw [content_keysModify, hcontent, ← hfst]
        rfl

@[simp] theorem get_fst (t : MillisecondTimestamp) (secs : Int64) :
    (db.get key t secs).1 = (db.content.get key t secs).1 := (get_spec db key t secs).1

@[simp] theorem content_get (t : MillisecondTimestamp) (secs : Int64) :
    (db.get key t secs).2.content = (db.content.get key t secs).2 := (get_spec db key t secs).2

theorem peek_spec (t : MillisecondTimestamp) :
    (db.peek key t).1 = db.content.peek key t ∧ (db.peek key t).2.content = db.content := by
  have hfst := keysGet_fst db key
  have hcontent := content_keysGet db key
  rw [peek, Keyspace.peek]
  generalize db.keysGet key = r at hfst hcontent ⊢
  obtain ⟨o, db'⟩ := r
  simp only at hfst hcontent
  rw [← hfst]
  cases o with
  | none => exact ⟨by simp, hcontent⟩
  | some obj =>
      simp only [isExpired_eq, hcontent]
      split_ifs
      · exact ⟨rfl, hcontent⟩
      · exact ⟨rfl, hcontent⟩

@[simp] theorem peek_fst (t : MillisecondTimestamp) :
    (db.peek key t).1 = db.content.peek key t := (peek_spec db key t).1

@[simp] theorem content_peek (t : MillisecondTimestamp) :
    (db.peek key t).2.content = db.content := (peek_spec db key t).2

@[simp] theorem content_set (obj : KevaObject) :
    (db.set key obj).content = db.content.set key obj := by
  simp [set, Keyspace.set]

@[simp] theorem del_fst : (db.del key).1 = (db.content.objects key).isSome :=
  Dict.exists_eq db.keys_sound key

@[simp] theorem content_del : (db.del key).2.content = db.content.erase key :=
  content_deleteKey db key

@[simp] theorem content_setExpire (e : MillisecondTimestamp) :
    (db.setExpire key e).content = db.content.setExpire key e := by
  have hfst := expiresGet_fst db key
  have hcontent := content_expiresGet db key
  rw [setExpire, Keyspace.setExpire]
  generalize db.expiresGet key = r at hfst hcontent ⊢
  obtain ⟨o, db'⟩ := r
  simp only at hfst hcontent
  cases o with
  | none => simp only [content_expiresSet, hcontent]
  | some ts => simp only [content_expiresModify, hcontent, ← hfst, Option.map_some]

@[simp] theorem content_removeExpire :
    (db.removeExpire key).content = db.content.removeExpire key :=
  content_expiresDel db key

theorem pttl_spec (t : MillisecondTimestamp) :
    (db.pttl key t).1 = db.content.pttl key t ∧ (db.pttl key t).2.content = db.content := by
  have hfst := expiresGet_fst db key
  have hcontent := content_expiresGet db key
  have hex : db.keys.exists key = (db.content.objects key).isSome :=
    Dict.exists_eq db.keys_sound key
  rw [pttl, Keyspace.pttl, hex]
  cases db.content.objects key with
  | none => exact ⟨rfl, rfl⟩
  | some obj =>
      generalize db.expiresGet key = r at hfst hcontent ⊢
      obtain ⟨o, db'⟩ := r
      simp only at hfst hcontent
      rw [← hfst]
      cases o with
      | none => exact ⟨rfl, hcontent⟩
      | some e => exact ⟨rfl, hcontent⟩

@[simp] theorem pttl_fst (t : MillisecondTimestamp) :
    (db.pttl key t).1 = db.content.pttl key t := (pttl_spec db key t).1

@[simp] theorem content_pttl (t : MillisecondTimestamp) :
    (db.pttl key t).2.content = db.content := (pttl_spec db key t).2

@[simp] theorem content_flush : db.flush.content = .empty :=
  Keyspace.ext (Dict.toMap_clear db.keys) (Dict.toMap_clear db.expires)

@[simp] theorem content_rehashStep : db.rehashStep.content = db.content :=
  Keyspace.ext ((Dict.rehashStep_spec db.keys_sound 100).2.toMap_eq db.keys_sound)
    ((Dict.rehashStep_spec db.expires_sound 100).2.toMap_eq db.expires_sound)

theorem mem_forEach_iff (t : MillisecondTimestamp) {k : Bytes} {obj : KevaObject} :
    (k, obj) ∈ db.forEach t ↔ db.content.peek k t = some obj := by
  rw [forEach, List.mem_filter, Dict.mem_forEach_iff db.keys_sound, Keyspace.peek, isExpired_eq]
  change db.content.objects k = some obj ∧ _ ↔ _
  cases db.content.expired t k <;> simp

theorem nodup_forEach (t : MillisecondTimestamp) : ((db.forEach t).map Prod.fst).Nodup :=
  (List.filter_sublist.map _).nodup (Dict.nodup_forEach db.keys_sound)

end KevaDatabase

end Keva
