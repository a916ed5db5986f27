import Keva.Core.Keyspace

/-!
# Removing the expired keys

`purge` deletes every key whose deadline has passed. Most operations at the same instant cannot tell
a keyspace from its purge: they answer alike and leave keyspaces with the same purge. A write of a
deadline, its removal and a deletion can, unless the key is live.
-/

namespace Keva

open Function (update)

namespace Keyspace

variable (K : Keyspace) (t : MillisecondTimestamp) (k : Bytes)

/-- The key is stored and its deadline has not passed. -/
structure Live (K : Keyspace) (t : MillisecondTimestamp) (k : Bytes) : Prop where
  stored : (K.objects k).isSome
  not_expired : K.expired t k = false

theorem purge_objects : (K.purge t).objects k = if K.expired t k then none else K.objects k := rfl

theorem purge_deadlines :
    (K.purge t).deadlines k = if K.expired t k then none else K.deadlines k := rfl

theorem expired_congr {K K' : Keyspace} {k : Bytes} (h : K.deadlines k = K'.deadlines k) :
    K.expired t k = K'.expired t k := by
  rw [expired, expired, h]

theorem expired_of_deadline_none {K : Keyspace} {k : Bytes} (h : K.deadlines k = none) :
    K.expired t k = false := by
  rw [expired, h]

theorem expired_iff {K : Keyspace} {t e : MillisecondTimestamp} {k : Bytes}
    (h : K.deadlines k = some e) : K.expired t k = true ↔ e ≤ t := by
  rw [expired, h]
  exact decide_eq_true_iff

theorem not_expired_iff {K : Keyspace} {t e : MillisecondTimestamp} {k : Bytes}
    (h : K.deadlines k = some e) : K.expired t k = false ↔ t < e := by
  rw [← Bool.not_eq_true, expired_iff h, Int64.not_le]

theorem purge_of_expired {K : Keyspace} {k : Bytes} (h : K.expired t k = true) :
    (K.purge t).objects k = none ∧ (K.purge t).deadlines k = none := by
  rw [purge_objects, purge_deadlines, h]
  exact ⟨rfl, rfl⟩

theorem purge_of_not_expired {K : Keyspace} {k : Bytes} (h : K.expired t k = false) :
    (K.purge t).objects k = K.objects k ∧ (K.purge t).deadlines k = K.deadlines k := by
  rw [purge_objects, purge_deadlines, h]
  exact ⟨rfl, rfl⟩

@[simp] theorem expired_purge : (K.purge t).expired t k = false := by
  cases h : K.expired t k with
  | true => exact expired_of_deadline_none t (purge_of_expired t h).2
  | false => rw [← h]; exact expired_congr t (purge_of_not_expired t h).2

@[simp] theorem purge_purge : (K.purge t).purge t = K.purge t :=
  Keyspace.ext (funext fun k => (purge_of_not_expired t (expired_purge K t k)).1)
    (funext fun k => (purge_of_not_expired t (expired_purge K t k)).2)

theorem purge_congr {K K' : Keyspace} {k : Bytes} (ho : K.objects k = K'.objects k)
    (hd : K.deadlines k = K'.deadlines k) :
    (K.purge t).objects k = (K'.purge t).objects k ∧
      (K.purge t).deadlines k = (K'.purge t).deadlines k := by
  rw [purge_objects, purge_deadlines, purge_objects, purge_deadlines, expired_congr t hd, ho, hd]
  exact ⟨rfl, rfl⟩

theorem purge_update_congr {K K' : Keyspace} {k : Bytes} (h : K.purge t = K'.purge t)
    {L L' : Keyspace} (hL : ∀ j, j ≠ k → L.objects j = K.objects j ∧ L.deadlines j = K.deadlines j)
    (hL' : ∀ j, j ≠ k → L'.objects j = K'.objects j ∧ L'.deadlines j = K'.deadlines j)
    (hk : (L.purge t).objects k = (L'.purge t).objects k ∧
      (L.purge t).deadlines k = (L'.purge t).deadlines k) : L.purge t = L'.purge t := by
  have hall : ∀ j, (L.purge t).objects j = (L'.purge t).objects j ∧
      (L.purge t).deadlines j = (L'.purge t).deadlines j := by
    intro j
    by_cases hj : j = k
    · subst hj; exact hk
    · have h1 := purge_congr t (hL j hj).1 (hL j hj).2
      have h2 := purge_congr t (hL' j hj).1 (hL' j hj).2
      rw [h1.1, h1.2, h2.1, h2.2, h]
      exact ⟨rfl, rfl⟩
  exact Keyspace.ext (funext fun j => (hall j).1) (funext fun j => (hall j).2)

variable {t k} {K K' : Keyspace}

theorem live_iff : K.Live t k ↔ ((K.purge t).objects k).isSome := by
  cases he : K.expired t k with
  | true =>
      rw [(purge_of_expired t he).1]
      refine ⟨fun hl => ?_, fun hs => by cases hs⟩
      have := hl.not_expired
      rw [he] at this; cases this
  | false =>
      rw [(purge_of_not_expired t he).1]
      exact ⟨Live.stored, fun hs => ⟨hs, he⟩⟩

theorem live_iff_of_purge_eq (h : K.purge t = K'.purge t) : K.Live t k ↔ K'.Live t k := by
  rw [live_iff, live_iff, h]

theorem Live.purge_at (h : K.Live t k) :
    (K.purge t).objects k = K.objects k ∧ (K.purge t).deadlines k = K.deadlines k :=
  purge_of_not_expired t h.not_expired

theorem get_fst_eq (secs : Int64) :
    (K.get k t secs).1 =
      ((K.purge t).objects k).map (fun o => o.touch (LruClock.current secs)) := by
  rw [purge_objects]
  cases ho : K.objects k with
  | none => rw [get_of_none ho]; simp
  | some obj =>
      cases he : K.expired t k with
      | true => rw [get_of_expired ho he]; rfl
      | false => rw [get_of_live ho he]; rfl

/-- After `get`, the key's part of the purge is what `get` answered, with its old deadline. -/
theorem purge_get_at (secs : Int64) :
    ((K.get k t secs).2.purge t).objects k = (K.get k t secs).1 ∧
      ((K.get k t secs).2.purge t).deadlines k = (K.purge t).deadlines k := by
  cases ho : K.objects k with
  | none =>
      rw [get_of_none ho, purge_objects, ho]
      exact ⟨ite_self _, rfl⟩
  | some obj =>
      cases he : K.expired t k with
      | true =>
          have hnone : (K.erase k).expired t k = false :=
            expired_of_deadline_none t (by simp [erase])
          rw [get_of_expired ho he, (purge_of_not_expired t hnone).1,
            (purge_of_not_expired t hnone).2, (purge_of_expired t he).2]
          simp [erase]
      | false =>
          have hlive : (K.get k t secs).2.expired t k = false := by rw [get_of_live ho he]; exact he
          rw [(purge_of_not_expired t hlive).1, (purge_of_not_expired t hlive).2,
            (purge_of_not_expired t he).2, get_of_live ho he]
          exact ⟨Function.update_self _ _ _, rfl⟩

theorem get_purge_congr (h : K.purge t = K'.purge t) (secs : Int64) :
    (K.get k t secs).1 = (K'.get k t secs).1 ∧
      (K.get k t secs).2.purge t = (K'.get k t secs).2.purge t := by
  have hfst : (K.get k t secs).1 = (K'.get k t secs).1 := by rw [get_fst_eq, get_fst_eq, h]
  refine ⟨hfst, purge_update_congr t (k := k) h (fun j hj => get_elsewhere hj secs)
    (fun j hj => get_elsewhere hj secs) ?_⟩
  rw [(purge_get_at secs).1, (purge_get_at secs).1, (purge_get_at secs).2, (purge_get_at secs).2,
    hfst, h]
  exact ⟨rfl, rfl⟩

theorem peek_purge_congr (h : K.purge t = K'.purge t) : K.peek k t = K'.peek k t :=
  congrFun (congrArg Keyspace.objects h) k

theorem set_purge_congr (h : K.purge t = K'.purge t) (obj : KevaObject) :
    (K.set k obj).purge t = (K'.set k obj).purge t :=
  purge_update_congr t (k := k) h (fun j hj => by simp [set, Function.update_of_ne hj])
    (fun j hj => by simp [set, Function.update_of_ne hj])
    (purge_congr t (by simp [set]) (by simp [set]))

theorem erase_purge_congr (h : K.purge t = K'.purge t) :
    (K.erase k).purge t = (K'.erase k).purge t :=
  purge_update_congr t (k := k) h (fun j hj => by simp [erase, Function.update_of_ne hj])
    (fun j hj => by simp [erase, Function.update_of_ne hj])
    (purge_congr t (by simp [erase]) (by simp [erase]))

theorem setExpire_purge_congr (h : K.purge t = K'.purge t) (hl : K.Live t k)
    (e : MillisecondTimestamp) : (K.setExpire k e).purge t = (K'.setExpire k e).purge t := by
  have hl' := (live_iff_of_purge_eq h).mp hl
  refine purge_update_congr t (k := k) h (fun j hj => by simp [setExpire, Function.update_of_ne hj])
    (fun j hj => by simp [setExpire, Function.update_of_ne hj]) (purge_congr t ?_ ?_)
  · change K.objects k = K'.objects k
    rw [← hl.purge_at.1, ← hl'.purge_at.1, h]
  · simp [setExpire]

theorem removeExpire_purge_congr (h : K.purge t = K'.purge t) (hl : K.Live t k) :
    (K.removeExpire k).purge t = (K'.removeExpire k).purge t := by
  have hl' := (live_iff_of_purge_eq h).mp hl
  refine purge_update_congr t (k := k) h
    (fun j hj => by simp [removeExpire, Function.update_of_ne hj])
    (fun j hj => by simp [removeExpire, Function.update_of_ne hj]) (purge_congr t ?_ ?_)
  · change K.objects k = K'.objects k
    rw [← hl.purge_at.1, ← hl'.purge_at.1, h]
  · simp [removeExpire]

theorem live_of_get {secs : Int64} {obj : KevaObject} (h : (K.get k t secs).1 = some obj) :
    (K.get k t secs).2.Live t k := by
  rw [live_iff, (purge_get_at secs).1, h]
  rfl

theorem live_set (obj : KevaObject) : (K.set k obj).Live t k :=
  ⟨by simp [set], expired_of_deadline_none t (by simp [set])⟩

end Keyspace

namespace Keyspace

/-- `K'` is `K` without some of the keys that have expired at `now`. -/
def Reaped (now : MillisecondTimestamp) (K K' : Keyspace) : Prop :=
  ∀ k, (K'.objects k = K.objects k ∧ K'.deadlines k = K.deadlines k) ∨
    (K.expired now k = true ∧ K'.objects k = none ∧ K'.deadlines k = none)

variable {now : MillisecondTimestamp} {K K' K'' : Keyspace}

theorem Reaped.refl (K : Keyspace) : Reaped now K K := fun _ => .inl ⟨rfl, rfl⟩

theorem Reaped.trans (h : Reaped now K K') (h' : Reaped now K' K'') : Reaped now K K'' := by
  intro k
  rcases h k with ⟨ho, hd⟩ | ⟨he, ho, hd⟩
  · rcases h' k with ⟨ho', hd'⟩ | ⟨he', hgone⟩
    · exact .inl ⟨ho'.trans ho, hd'.trans hd⟩
    · exact .inr ⟨(expired_congr now hd).symm.trans he', hgone⟩
  · rcases h' k with ⟨ho', hd'⟩ | ⟨he', hgone⟩
    · exact .inr ⟨he, ho'.trans ho, hd'.trans hd⟩
    · exact .inr ⟨he, hgone⟩

theorem Reaped.of_not_expired (h : Reaped now K K') {k : Bytes} (hk : K.expired now k = false) :
    K'.objects k = K.objects k ∧ K'.deadlines k = K.deadlines k := by
  rcases h k with hsame | ⟨he, -⟩
  · exact hsame
  · rw [hk] at he; cases he

end Keyspace

namespace KevaDatabase

theorem content_foldl_deleteKey (l : List Bytes) (db : KevaDatabase) :
    (l.foldl deleteKey db).content =
      ⟨fun k => if k ∈ l then none else db.content.objects k,
        fun k => if k ∈ l then none else db.content.deadlines k⟩ := by
  induction l generalizing db with
  | nil => ext1 <;> funext k <;> simp
  | cons j l ih =>
      rw [List.foldl_cons, ih, content_deleteKey]
      have hmem : ∀ k, k ≠ j → (k ∈ j :: l ↔ k ∈ l) := fun k hk => by
        rw [List.mem_cons, or_iff_right hk]
      ext1 <;> funext k <;> by_cases hk : k = j
      all_goals simp only [Keyspace.erase]
      · simp [hk]
      · simp only [hmem k hk, Function.update_of_ne hk]
      · simp [hk]
      · simp only [hmem k hk, Function.update_of_ne hk]

theorem reaped_foldl_deleteKey {now : MillisecondTimestamp} {l : List Bytes} {db : KevaDatabase}
    (h : ∀ k ∈ l, db.content.expired now k = true) :
    Keyspace.Reaped now db.content (l.foldl deleteKey db).content := by
  rw [content_foldl_deleteKey]
  intro k
  by_cases hk : k ∈ l
  · exact .inr ⟨h k hk, if_pos hk, if_pos hk⟩
  · exact .inl ⟨if_neg hk, if_neg hk⟩

theorem reaped_expireRounds (now : MillisecondTimestamp) (draws : List SampleDraw) (total : ℕ)
    (db : KevaDatabase) :
    Keyspace.Reaped now db.content (expireRounds now draws total db).2.content := by
  induction draws generalizing total db with
  | nil => exact Keyspace.Reaped.refl _
  | cons draw draws ih =>
      have hround := @reaped_foldl_deleteKey now
        (((db.expires.randomSample constants.activeExpireSampleSize draw.coin
          draw.start).filter (fun e => e.value ≤ now)).map DictEntry.key) db ?_
      · unfold expireRounds
        dsimp only
        split_ifs
        · exact Keyspace.Reaped.refl _
        · exact hround
        · exact hround.trans (ih _ _)
      · intro k hk
        obtain ⟨e, he, rfl⟩ := List.mem_map.mp hk
        obtain ⟨he, hpassed⟩ := List.mem_filter.mp he
        have hdeadline : db.content.deadlines e.key = some e.value :=
          (Dict.toMap_eq_some_iff db.expires_sound).mpr
            ⟨e, Dict.mem_records_of_randomSample he, rfl, rfl⟩
        rw [Keyspace.expired, hdeadline]
        exact hpassed

theorem reaped_activeExpireCycle (db : KevaDatabase) (now : MillisecondTimestamp)
    (draw₁ draw₂ draw₃ : SampleDraw) :
    Keyspace.Reaped now db.content (db.activeExpireCycle now draw₁ draw₂ draw₃).2.content := by
  unfold activeExpireCycle
  split_ifs
  · exact Keyspace.Reaped.refl _
  · exact reaped_expireRounds now _ 0 db

/-- Deletes every key whose deadline has passed. -/
def purge (db : KevaDatabase) (t : MillisecondTimestamp) : KevaDatabase :=
  ((db.expires.forEach.filter (fun e => e.2 ≤ t)).map Prod.fst).foldl deleteKey db

@[simp] theorem content_purge (db : KevaDatabase) (t : MillisecondTimestamp) :
    (db.purge t).content = db.content.purge t := by
  have hmem : ∀ k, k ∈ (db.expires.forEach.filter (fun e => e.2 ≤ t)).map Prod.fst ↔
      db.content.expired t k = true := by
    intro k
    simp only [List.mem_map, List.mem_filter, decide_eq_true_eq, Prod.exists, exists_and_right,
      exists_eq_right, Dict.mem_forEach_iff db.expires_sound]
    change (∃ e, db.content.deadlines k = some e ∧ e ≤ t) ↔ _
    rw [Keyspace.expired]
    cases db.content.deadlines k with
    | none => simp
    | some e => simp
  rw [purge, content_foldl_deleteKey]
  ext1 <;> funext k <;> simp only [hmem, Keyspace.purge]

end KevaDatabase

end Keva
