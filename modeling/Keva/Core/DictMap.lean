import Keva.Core.DictRehash
import Mathlib.Data.Set.Card

/-!
# `Dict` is a finite map

`toMap` reads a `Dict` as a map from keys to values. Every operation is described once by its effect
on the records; its effect on the map follows. A run of any operations from the empty `Dict` then
gives the replies of a plain finite map.
-/

open scoped List

namespace Keva.Dict

open DictHashTable

variable {V : Type} {d d' : Dict V}

def toMap (d : Dict V) : Bytes → Option V :=
  KeyedList.binding DictEntry.key DictEntry.value d.records

theorem SameRecords.toMap_eq (h : SameRecords d d') (hd : d.Sound) : d'.toMap = d.toMap :=
  (KeyedList.binding_perm _ _ h.perm.symm hd.nodup).symm

theorem toMap_eq_none_iff {k : Bytes} : d.toMap k = none ↔ k ∉ d.records.map DictEntry.key :=
  KeyedList.binding_eq_none_iff _ _

theorem toMap_eq_some_iff (hd : d.Sound) {k : Bytes} {v : V} :
    d.toMap k = some v ↔ ∃ e ∈ d.records, e.key = k ∧ e.value = v :=
  KeyedList.binding_eq_some_iff _ _ hd.nodup

theorem sound_empty (P : DictParams) : (empty P : Dict V).Sound where
  live := sound_allocate 4
  target := sound_null
  nodup := by simp [records, empty]
  allocated := by simp [empty, allocate]
  idle _ := rfl
  busy i hi := by cases hi

@[simp] theorem toMap_empty (P : DictParams) : (empty P : Dict V).toMap = fun _ => none := by
  funext k
  simp [toMap, records, empty]

theorem sound_startRehash (hd : d.Sound) (hr : d.isRehashing = false) {n : ℕ} (hn : 0 < n) :
    Sound { d with ht1 := allocate n, rehashidx := some 0 } ∧
      SameRecords d { d with ht1 := allocate n, rehashidx := some 0 } := by
  have hnull := hd.idle (not_isRehashing_iff.mp hr)
  have hrec : Dict.records { d with ht1 := allocate n, rehashidx := some 0 } = d.records := by
    simp [records, hnull]
  refine ⟨⟨hd.live, sound_allocate n, hrec ▸ hd.nodup, hd.allocated, by simp, fun i hi => ?_⟩,
    ⟨rfl, rfl, List.Perm.of_eq hrec⟩⟩
  obtain rfl : 0 = i := by simpa using hi
  refine ⟨by simpa [allocate] using hn.ne', Nat.zero_le _, fun j hj => ?_⟩
  exact absurd hj (Nat.not_lt_zero j)

theorem maybeExpand_spec (hd : d.Sound) : d.maybeExpand.Sound ∧ SameRecords d d.maybeExpand := by
  rw [maybeExpand]
  split_ifs with hr
  · exact ⟨hd, SameRecords.refl d⟩
  · exact ⟨hd, SameRecords.refl d⟩
  · exact sound_startRehash hd (by simpa using hr) (Nat.pos_of_isPowerOfTwo
      (Nat.isPowerOfTwo_nextPowerOfTwo _))
  · exact ⟨hd, SameRecords.refl d⟩

theorem maybeShrink_spec (hd : d.Sound) : d.maybeShrink.Sound ∧ SameRecords d d.maybeShrink := by
  rw [maybeShrink]
  split_ifs with hr
  · exact ⟨hd, SameRecords.refl d⟩
  · exact ⟨hd, SameRecords.refl d⟩
  · exact sound_startRehash hd (by simpa using hr) (Nat.pos_of_isPowerOfTwo
      (Nat.isPowerOfTwo_nextPowerOfTwo _))
  · exact sound_startRehash hd (by simpa using hr) (Nat.pos_of_isPowerOfTwo
      (Nat.isPowerOfTwo_nextPowerOfTwo _))
  · exact ⟨hd, SameRecords.refl d⟩

theorem sound_clear (d : Dict V) : d.clear.Sound := by
  have h := sound_empty (V := V) d.params
  exact ⟨h.live, h.target, h.nodup, h.allocated, h.idle, h.busy⟩

@[simp] theorem toMap_clear (d : Dict V) : d.clear.toMap = fun _ => none := toMap_empty d.params

theorem chain_assign_nil {t : DictHashTable V} {j : ℕ} (h : t.chain j = []) (k : Bytes)
    (hv : UInt64) (f : V → V) : (t.assign k hv f).chain j = [] := by
  rw [assign, chain, setChain, Buckets.chain_set]
  split_ifs with hj
  · rw [hj.1, h]; rfl
  · exact h

theorem chain_unlink_nil {t : DictHashTable V} {j : ℕ} (h : t.chain j = []) (k : Bytes)
    (hv : UInt64) : (t.unlink k hv).chain j = [] := by
  simp only [unlink, chain, setChain, Buckets.chain_set]
  split_ifs with hj
  · have : Buckets.chain t.buckets j = [] := h
    rw [hj.1, this]; rfl
  · exact h

theorem sound_setLive (hd : d.Sound) {t : DictHashTable V} (ht : t.Sound d.params.hash)
    (hn : ((t.entries ++ d.ht1.entries).map DictEntry.key).Nodup)
    (hlen : t.buckets.length = d.ht0.buckets.length)
    (hnil : d.isRehashing = true → ∀ j, d.ht0.chain j = [] → t.chain j = []) :
    Sound { d with ht0 := t } where
  live := ht
  target := hd.target
  nodup := hn
  allocated := by
    have := List.length_pos_iff.mpr hd.allocated
    exact List.length_pos_iff.mp (hlen ▸ this)
  idle := hd.idle
  busy i hi := by
    obtain ⟨h1, h2, h3⟩ := hd.busy i hi
    exact ⟨h1, by simpa [DictHashTable.size, hlen] using h2,
      fun j hj => hnil (isRehashing_iff.mpr ⟨i, hi⟩) j (h3 j hj)⟩

theorem sound_setTarget (hd : d.Sound) (hr : d.isRehashing = true) {t : DictHashTable V}
    (ht : t.Sound d.params.hash) (hn : ((d.ht0.entries ++ t.entries).map DictEntry.key).Nodup)
    (ha : t.buckets ≠ []) : Sound { d with ht1 := t } where
  live := hd.live
  target := ht
  nodup := hn
  allocated := hd.allocated
  idle hi := by
    have h : d.isRehashing = false := not_isRehashing_iff.mpr hi
    rw [hr] at h; cases h
  busy i hi := ⟨ha, (hd.busy i hi).2⟩

theorem perm_records_of_target {l : List (DictEntry V)} {e : DictEntry V}
    (hp : d.ht1.entries ~ e :: l) : d.records ~ e :: (d.ht0.entries ++ l) :=
  (hp.append_left _).trans List.perm_middle

theorem search_cases (hd : d.Sound) (k : Bytes) :
    (∃ e, d.ht0.findIn k (d.hash k) = some e) ∨
    (d.ht0.findIn k (d.hash k) = none ∧ d.isRehashing = true ∧
      ∃ e, d.ht1.findIn k (d.hash k) = some e) ∨
    (d.ht0.findIn k (d.hash k) = none ∧
      (d.isRehashing = true → d.ht1.findIn k (d.hash k) = none) ∧ d.toMap k = none) := by
  cases h0 : d.ht0.findIn k (d.hash k) with
  | some e => exact Or.inl ⟨e, rfl⟩
  | none =>
      have hk0 := (findIn_eq_none_iff hd.live).mp h0
      cases hr : d.isRehashing with
      | true =>
          cases h1 : d.ht1.findIn k (d.hash k) with
          | some e => exact Or.inr (Or.inl ⟨rfl, rfl, e, rfl⟩)
          | none =>
              have hk1 := (findIn_eq_none_iff hd.target).mp h1
              refine Or.inr (Or.inr ⟨rfl, fun _ => rfl, ?_⟩)
              rw [toMap_eq_none_iff, records, List.map_append, List.mem_append]
              exact fun h => h.elim hk0 hk1
      | false =>
          refine Or.inr (Or.inr ⟨rfl, Bool.noConfusion, ?_⟩)
          rw [toMap_eq_none_iff, records, hd.idle (not_isRehashing_iff.mp hr), entries_null,
            List.append_nil]
          exact hk0

theorem getConst_eq (hd : d.Sound) (k : Bytes) : d.getConst k = d.toMap k := by
  have hfound : ∀ e ∈ d.records, e.key = k → some e.value = d.toMap k := fun e he hk =>
    ((toMap_eq_some_iff hd).mpr ⟨e, he, hk, rfl⟩).symm
  rcases search_cases hd k with ⟨e, h0⟩ | ⟨h0, hr, e, h1⟩ | ⟨h0, h1, hnone⟩
  · obtain ⟨he, hk⟩ := findIn_some hd.live h0
    simpa only [getConst, find, h0, Option.map_some] using hfound e (List.mem_append_left _ he) hk
  · obtain ⟨he, hk⟩ := findIn_some hd.target h1
    simpa only [getConst, find, h0, hr, h1, if_true, Option.map_some] using
      hfound e (List.mem_append_right _ he) hk
  · cases hr : d.isRehashing with
    | true => simp [getConst, find, h0, hr, h1 hr, hnone]
    | false => simp [getConst, find, h0, hr, hnone]

theorem get_spec (hd : d.Sound) (k : Bytes) :
    (d.get k).1 = d.toMap k ∧ (d.get k).2.Sound ∧ SameRecords d (d.get k).2 := by
  obtain ⟨hs, hsame⟩ := stepIfRehashing_spec hd
  exact ⟨(getConst_eq hs k).trans (congrFun (hsame.toMap_eq hd) k), hs, hsame⟩

/-- `d'` is `d` with the value of one entry of key `k` changed by `f`. -/
def Rewrites (d d' : Dict V) (k : Bytes) (f : V → V) : Prop :=
  d'.params = d.params ∧ ∃ e rest, e.key = k ∧ d.records ~ e :: rest ∧
    d'.records ~ { e with value := f e.value } :: rest

theorem Rewrites.toMap_eq {k : Bytes} {f : V → V} (h : Rewrites d d' k f) (hd : d.Sound) :
    d'.toMap = Function.update d.toMap k ((d.toMap k).map f) ∧ (d.toMap k).isSome := by
  obtain ⟨-, e, rest, rfl, hp, hp'⟩ := h
  have hk : d.toMap e.key = some e.value := by
    rw [toMap, KeyedList.binding_insert _ _ hp hd.nodup, Function.update_self]
  rw [hk]
  exact ⟨KeyedList.binding_replace DictEntry.key DictEntry.value hp hp' rfl hd.nodup, rfl⟩

theorem rewrite_live (hd : d.Sound) {k : Bytes} {e : DictEntry V} (f : V → V)
    (h0 : d.ht0.findIn k (d.hash k) = some e) :
    Sound { d with ht0 := d.ht0.assign k (d.hash k) f } ∧
      Rewrites d { d with ht0 := d.ht0.assign k (d.hash k) f } k f ∧ d.toMap k = some e.value := by
  obtain ⟨he, hk⟩ := findIn_some hd.live h0
  have hp : d.records ~ e :: ((d.ht0.unlink k (d.hash k)).entries ++ d.ht1.entries) :=
    (entries_unlink_perm hd.live h0).append_right _
  have hp' := (entries_assign_perm hd.live h0 f).append_right d.ht1.entries
  refine ⟨sound_setLive hd (sound_assign hd.live h0 f) ?_ (by simp [assign, setChain])
    (fun _ j hj => chain_assign_nil hj _ _ _), ⟨rfl, e, _, hk, hp, hp'⟩,
    (toMap_eq_some_iff hd).mpr ⟨e, List.mem_append_left _ he, hk, rfl⟩⟩
  exact KeyedList.nodup_of_replace DictEntry.key hp hp' rfl hd.nodup

theorem rewrite_target (hd : d.Sound) (hr : d.isRehashing = true) {k : Bytes} {e : DictEntry V}
    (f : V → V) (h1 : d.ht1.findIn k (d.hash k) = some e) :
    Sound { d with ht1 := d.ht1.assign k (d.hash k) f } ∧
      Rewrites d { d with ht1 := d.ht1.assign k (d.hash k) f } k f ∧
      d.toMap k = some e.value := by
  obtain ⟨he, hk⟩ := findIn_some hd.target h1
  have hp := perm_records_of_target (entries_unlink_perm hd.target h1)
  have hp' : d.ht0.entries ++ (d.ht1.assign k (d.hash k) f).entries ~ _ :: _ :=
    ((entries_assign_perm hd.target h1 f).append_left _).trans List.perm_middle
  refine ⟨sound_setTarget hd hr (sound_assign hd.target h1 f) ?_ ?_, ⟨rfl, e, _, hk, hp, hp'⟩,
    (toMap_eq_some_iff hd).mpr ⟨e, List.mem_append_right _ he, hk, rfl⟩⟩
  · exact KeyedList.nodup_of_replace DictEntry.key hp hp' rfl hd.nodup
  · rw [← List.length_pos_iff]
    simpa [assign, setChain] using List.length_pos_iff.mpr (buckets_ne_nil_of_findIn h1)

theorem modifyValue_cases (hd : d.Sound) (k : Bytes) (f : V → V) :
    (d.modifyValue k f).Sound ∧
      (Rewrites d (d.modifyValue k f) k f ∨ (d.toMap k = none ∧ d.modifyValue k f = d)) := by
  rcases search_cases hd k with ⟨e, h0⟩ | ⟨h0, hr, e, h1⟩ | ⟨h0, h1, hnone⟩
  · obtain ⟨hs, hrw, -⟩ := rewrite_live hd f h0
    simpa only [modifyValue, h0] using ⟨hs, Or.inl hrw⟩
  · obtain ⟨hs, hrw, -⟩ := rewrite_target hd hr f h1
    simpa only [modifyValue, h0, hr, h1, if_true] using ⟨hs, Or.inl hrw⟩
  · have hsame : d.modifyValue k f = d := by
      cases hr : d.isRehashing with
      | true => simp only [modifyValue, h0, hr, h1 hr, if_true]
      | false => simp only [modifyValue, h0, hr, Bool.false_eq_true, if_false]
    rw [hsame]
    exact ⟨hd, Or.inr ⟨hnone, rfl⟩⟩

theorem toMap_modifyValue (hd : d.Sound) (k : Bytes) (f : V → V) :
    (d.modifyValue k f).toMap = Function.update d.toMap k ((d.toMap k).map f) := by
  rcases (modifyValue_cases hd k f).2 with h | ⟨hnone, h⟩
  · exact (h.toMap_eq hd).1
  · rw [h, hnone, Option.map_none, ← hnone, Function.update_eq_self]

/-- What `set` does: it overwrites the entry of `k`, or inserts one where there was none. -/
def SetEffect (d : Dict V) (k : Bytes) (v : V) (r : Bool × Dict V) : Prop :=
  (∃ old, d.toMap k = some old ∧ r.1 = false ∧ Rewrites d r.2 k (fun _ => v) ∧
    r.2.released = d.released ++ [old]) ∨
  (d.toMap k = none ∧ r.1 = true ∧ r.2.params = d.params ∧ r.2.released = d.released ∧
    r.2.records ~ ⟨k, v, d.hash k⟩ :: d.records)

theorem nodup_insert (hd : d.Sound) {k : Bytes} (hk : d.toMap k = none) {v : V} {h : UInt64}
    {l : List (DictEntry V)} (hp : l ~ ⟨k, v, h⟩ :: d.records) : (l.map DictEntry.key).Nodup :=
  KeyedList.nodup_of_insert DictEntry.key DictEntry.value hp hd.nodup hk

theorem setIn_live (hd : d.Sound) (hr : d.isRehashing = false) (k : Bytes) (v : V) :
    let r := d.setIn d.ht0 (fun t => { d with ht0 := t }) k v
    r.2.Sound ∧ SetEffect d k v r := by
  rcases search_cases hd k with ⟨e, h0⟩ | ⟨-, hr', -⟩ | ⟨h0, -, hnone⟩
  · obtain ⟨hs, hrw, hold⟩ := rewrite_live hd (fun _ => v) h0
    simp only [setIn, h0]
    exact ⟨⟨hs.live, hs.target, hs.nodup, hs.allocated, hs.idle, hs.busy⟩,
      Or.inl ⟨e.value, hold, rfl, hrw, rfl⟩⟩
  · rw [hr] at hr'; cases hr'
  · have hp : (d.ht0.prepend ⟨k, v, d.hash k⟩).entries ++ d.ht1.entries ~ _ :: d.records :=
      (entries_prepend_perm hd.allocated _).append_right _
    have hs := sound_setLive hd (sound_prepend hd.live hd.allocated rfl)
      (nodup_insert hd hnone hp) (by simp [prepend, setChain])
      (fun h => by rw [hr] at h; cases h)
    obtain ⟨hs', hsame⟩ := maybeExpand_spec hs
    simp only [setIn, h0]
    exact ⟨hs', Or.inr ⟨hnone, rfl, hsame.params, hsame.released, hsame.perm.trans hp⟩⟩

theorem setIn_target (hd : d.Sound) (hr : d.isRehashing = true) (k : Bytes) (v : V)
    (h0 : d.ht0.findIn k (d.hash k) = none) :
    let r := d.setIn d.ht1 (fun t => { d with ht1 := t }) k v
    r.2.Sound ∧ SetEffect d k v r := by
  rcases search_cases hd k with ⟨e, h0'⟩ | ⟨-, -, e, h1⟩ | ⟨-, h1, hnone⟩
  · rw [h0] at h0'; cases h0'
  · obtain ⟨hs, hrw, hold⟩ := rewrite_target hd hr (fun _ => v) h1
    simp only [setIn, h1]
    exact ⟨⟨hs.live, hs.target, hs.nodup, hs.allocated, hs.idle, hs.busy⟩,
      Or.inl ⟨e.value, hold, rfl, hrw, rfl⟩⟩
  · obtain ⟨idx, hidx⟩ := isRehashing_iff.mp hr
    have ha := (hd.busy idx hidx).1
    have hp : d.ht0.entries ++ (d.ht1.prepend ⟨k, v, d.hash k⟩).entries ~ _ :: d.records :=
      ((entries_prepend_perm ha _).append_left _).trans List.perm_middle
    have hs := sound_setTarget hd hr (sound_prepend hd.target ha rfl) (nodup_insert hd hnone hp)
      (prepend_buckets_ne_nil ha _)
    obtain ⟨hs', hsame⟩ := maybeExpand_spec hs
    simp only [setIn, h1 hr]
    exact ⟨hs', Or.inr ⟨hnone, rfl, hsame.params, hsame.released, hsame.perm.trans hp⟩⟩

theorem SetEffect.of_sameRecords {k : Bytes} {v : V} {r : Bool × Dict V} (hd : d.Sound)
    (hsame : SameRecords d d') (h : SetEffect d' k v r) : SetEffect d k v r := by
  have hmap := hsame.toMap_eq hd
  rcases h with ⟨old, h1, h2, ⟨h3, e, rest, h4, h5, h6⟩, h7⟩ | ⟨h1, h2, h3, h4, h5⟩
  · refine Or.inl ⟨old, hmap ▸ h1, h2, ⟨h3.trans hsame.params, e, rest, h4, ?_, h6⟩,
      by rw [h7, hsame.released]⟩
    exact hsame.perm.symm.trans h5
  · refine Or.inr ⟨hmap ▸ h1, h2, h3.trans hsame.params, h4.trans hsame.released, ?_⟩
    rw [hash, hsame.params] at h5
    exact h5.trans (hsame.perm.cons _)

theorem set_spec (hd : d.Sound) (k : Bytes) (v : V) :
    (d.set k v).2.Sound ∧ SetEffect d k v (d.set k v) := by
  obtain ⟨hs, hsame⟩ := stepIfRehashing_spec hd
  suffices h : (d.set k v).2.Sound ∧ SetEffect d.stepIfRehashing k v (d.set k v) from
    ⟨h.1, h.2.of_sameRecords hd hsame⟩
  cases hr : d.stepIfRehashing.isRehashing with
  | false => simpa only [set, hr, Bool.false_eq_true, if_false] using setIn_live hs hr k v
  | true =>
      cases h0 : d.stepIfRehashing.ht0.findIn k (d.stepIfRehashing.hash k) with
      | none => simpa only [set, hr, h0, if_true] using setIn_target hs hr k v h0
      | some e =>
          obtain ⟨hs', hrw, hold⟩ := rewrite_live hs (fun _ => v) h0
          simp only [set, hr, h0, if_true]
          exact ⟨⟨hs'.live, hs'.target, hs'.nodup, hs'.allocated, hs'.idle, hs'.busy⟩,
            Or.inl ⟨e.value, hold, rfl, hrw, rfl⟩⟩

theorem toMap_set (hd : d.Sound) (k : Bytes) (v : V) :
    (d.set k v).2.toMap = Function.update d.toMap k (some v) := by
  rcases (set_spec hd k v).2 with ⟨old, hold, -, hrw, -⟩ | ⟨-, -, -, -, hp⟩
  · rw [(hrw.toMap_eq hd).1, hold]; rfl
  · exact KeyedList.binding_insert DictEntry.key DictEntry.value hp
      ((hp.map DictEntry.key).nodup_iff.mpr
        ((hp.map DictEntry.key).nodup_iff.mp (set_spec hd k v).1.nodup))

theorem set_fst (hd : d.Sound) (k : Bytes) (v : V) : (d.set k v).1 = (d.toMap k).isNone := by
  rcases (set_spec hd k v).2 with ⟨old, hold, hr, -, -⟩ | ⟨hnone, hr, -, -, -⟩
  · rw [hr, hold]; rfl
  · rw [hr, hnone]; rfl

/-- What `del` does: it unlinks the entry of `k`, or finds none. -/
def DelEffect (d : Dict V) (k : Bytes) (r : Bool × Dict V) : Prop :=
  r.2.params = d.params ∧
  ((∃ e, e.key = k ∧ r.1 = true ∧ d.records ~ e :: r.2.records ∧
    r.2.released = d.released ++ [e.value]) ∨
  (d.toMap k = none ∧ r.1 = false ∧ SameRecords d r.2))

theorem unlink_live (hd : d.Sound) {k : Bytes} {e : DictEntry V}
    (h0 : d.ht0.findIn k (d.hash k) = some e) :
    let d' := { d with ht0 := d.ht0.unlink k (d.hash k), released := d.released ++ [e.value] }
    d'.maybeShrink.Sound ∧ DelEffect d k (true, d'.maybeShrink) := by
  have hp : d.records ~ e :: ((d.ht0.unlink k (d.hash k)).entries ++ d.ht1.entries) :=
    (entries_unlink_perm hd.live h0).append_right _
  have hs := sound_setLive hd (sound_unlink hd.live h0)
    (KeyedList.nodup_of_erase DictEntry.key hp hd.nodup) (by simp [unlink, setChain])
    (fun _ j hj => chain_unlink_nil hj _ _)
  obtain ⟨hs', hsame⟩ := maybeShrink_spec
    (d := { d with ht0 := d.ht0.unlink k (d.hash k), released := d.released ++ [e.value] })
    ⟨hs.live, hs.target, hs.nodup, hs.allocated, hs.idle, hs.busy⟩
  exact ⟨hs', hsame.params, Or.inl ⟨e, (findIn_some hd.live h0).2, rfl,
    hp.trans (hsame.perm.symm.cons e), hsame.released⟩⟩

theorem unlink_target (hd : d.Sound) (hr : d.isRehashing = true) {k : Bytes} {e : DictEntry V}
    (h1 : d.ht1.findIn k (d.hash k) = some e) :
    let d' := { d with ht1 := d.ht1.unlink k (d.hash k), released := d.released ++ [e.value] }
    d'.maybeShrink.Sound ∧ DelEffect d k (true, d'.maybeShrink) := by
  have hp := perm_records_of_target (entries_unlink_perm hd.target h1)
  have hs := sound_setTarget hd hr (sound_unlink hd.target h1)
    (KeyedList.nodup_of_erase DictEntry.key hp hd.nodup) (by
      rw [← List.length_pos_iff]
      simpa [unlink, setChain] using List.length_pos_iff.mpr (buckets_ne_nil_of_findIn h1))
  obtain ⟨hs', hsame⟩ := maybeShrink_spec
    (d := { d with ht1 := d.ht1.unlink k (d.hash k), released := d.released ++ [e.value] })
    ⟨hs.live, hs.target, hs.nodup, hs.allocated, hs.idle, hs.busy⟩
  exact ⟨hs', hsame.params, Or.inl ⟨e, (findIn_some hd.target h1).2, rfl,
    hp.trans (hsame.perm.symm.cons e), hsame.released⟩⟩

theorem DelEffect.of_sameRecords {k : Bytes} {r : Bool × Dict V} (hd : d.Sound)
    (hsame : SameRecords d d') (h : DelEffect d' k r) : DelEffect d k r := by
  obtain ⟨hparams, ⟨e, h1, h2, h3, h4⟩ | ⟨h1, h2, h3⟩⟩ := h
  · exact ⟨hparams.trans hsame.params, Or.inl ⟨e, h1, h2, hsame.perm.symm.trans h3,
      by rw [h4, hsame.released]⟩⟩
  · exact ⟨hparams.trans hsame.params, Or.inr ⟨hsame.toMap_eq hd ▸ h1, h2, hsame.trans h3⟩⟩

theorem del_spec (hd : d.Sound) (k : Bytes) : (d.del k).2.Sound ∧ DelEffect d k (d.del k) := by
  obtain ⟨hs, hsame⟩ := stepIfRehashing_spec hd
  suffices h : (d.del k).2.Sound ∧ DelEffect d.stepIfRehashing k (d.del k) from
    ⟨h.1, h.2.of_sameRecords hd hsame⟩
  rcases search_cases hs k with ⟨e, h0⟩ | ⟨h0, hr, e, h1⟩ | ⟨h0, h1, hnone⟩
  · simpa only [del, h0] using unlink_live hs h0
  · simpa only [del, h0, hr, h1, if_true] using unlink_target hs hr h1
  · have hmiss : d.del k = (false, d.stepIfRehashing) := by
      cases hr : d.stepIfRehashing.isRehashing with
      | true => simp only [del, h0, hr, h1 hr, if_true]
      | false => simp only [del, h0, hr, Bool.false_eq_true, if_false]
    rw [hmiss]
    exact ⟨hs, rfl, Or.inr ⟨hnone, rfl, SameRecords.refl _⟩⟩

theorem toMap_del (hd : d.Sound) (k : Bytes) :
    (d.del k).2.toMap = Function.update d.toMap k none := by
  rcases (del_spec hd k).2.2 with ⟨e, rfl, -, hp, -⟩ | ⟨hnone, -, hsame⟩
  · exact KeyedList.binding_erase DictEntry.key DictEntry.value hp hd.nodup
  · rw [hsame.toMap_eq hd, ← hnone, Function.update_eq_self]

theorem del_fst (hd : d.Sound) (k : Bytes) : (d.del k).1 = (d.toMap k).isSome := by
  rcases (del_spec hd k).2.2 with ⟨e, rfl, hr, hp, -⟩ | ⟨hnone, hr, -⟩
  · rw [hr, toMap, KeyedList.binding_insert _ _ hp hd.nodup, Function.update_self]; rfl
  · rw [hr, hnone]; rfl

theorem visited_eq (hd : d.Sound) : d.visited = d.records := by
  have hnull : d.ht0.isNull = false := by simpa [isNull] using hd.allocated
  cases hr : d.isRehashing with
  | true => simp [visited, hnull, hr, records]
  | false => simp [visited, hnull, hr, records, hd.idle (not_isRehashing_iff.mp hr)]

theorem mem_forEach_iff (hd : d.Sound) {k : Bytes} {v : V} :
    (k, v) ∈ d.forEach ↔ d.toMap k = some v := by
  rw [forEach, visited_eq hd, List.mem_map, toMap_eq_some_iff hd]
  simp only [Prod.mk.injEq]

theorem nodup_forEach (hd : d.Sound) : (d.forEach.map Prod.fst).Nodup := by
  rw [forEach, visited_eq hd, List.map_map]
  exact hd.nodup

theorem length_forEach (hd : d.Sound) : d.forEach.length = d.size := by
  rw [forEach, visited_eq hd, List.length_map, size_eq hd]

theorem mem_entries_of_sampleWalk {t : DictHashTable V} {count buckets idx : ℕ}
    {out : List (DictEntry V)} (hout : ∀ e ∈ out, e ∈ t.entries) :
    ∀ e ∈ sampleWalk t count buckets idx out, e ∈ t.entries := by
  induction buckets generalizing idx out with
  | zero => exact hout
  | succ buckets ih =>
      unfold sampleWalk
      split_ifs
      · refine ih fun e he => ?_
        rcases List.mem_append.mp he with he | he
        · exact hout e he
        · exact mem_entries_iff.mpr ⟨idx, List.mem_of_mem_take he⟩
      · exact hout

theorem mem_records_of_randomSample {count : ℕ} {coin start : UInt64} {e : DictEntry V}
    (he : e ∈ d.randomSample count coin start) : e ∈ d.records := by
  have hlive : ∀ e ∈ d.ht0.entries, e ∈ d.records := fun e => List.mem_append_left _
  have htarget : ∀ e ∈ d.ht1.entries, e ∈ d.records := fun e => List.mem_append_right _
  unfold randomSample at he
  dsimp only at he
  split_ifs at he
  all_goals first
    | exact hlive e (mem_entries_of_sampleWalk (by simp) e he)
    | exact htarget e (mem_entries_of_sampleWalk (by simp) e he)
    | cases he

theorem exists_eq (hd : d.Sound) (k : Bytes) : d.exists k = (d.toMap k).isSome := by
  rw [«exists», getConst_eq hd]

theorem size_eq_ncard (hd : d.Sound) : d.size = {k | d.toMap k ≠ none}.ncard := by
  have hset : {k | d.toMap k ≠ none} = ((d.records.map DictEntry.key).toFinset : Set Bytes) := by
    ext k
    simp only [Set.mem_ofPred_eq, ne_eq, toMap_eq_none_iff, not_not, List.coe_toFinset]
  rw [hset, Set.ncard_coe_finset, List.toFinset_card_of_nodup hd.nodup, List.length_map,
    size_eq hd]

end Keva.Dict
