import Keva.Core.Dict
import Keva.Lib.KeyedList

/-!
# One hash table: placement of entries and the effect of chain surgery

In a sound table every entry caches the hash of its key and sits in the bucket which that hash
selects, and `used` counts the entries. A search in one chain is then a search in the whole table,
and inserting, unlinking and rewriting an entry change the entries of the table as expected, up to
order.
-/

open scoped List

namespace Keva.DictHashTable

variable {V : Type} {hash : Bytes → UInt64} {t : DictHashTable V}

/-- The cached hash of `e` is right and selects bucket `i`. -/
def Placed (hash : Bytes → UInt64) (t : DictHashTable V) (i : ℕ) (e : DictEntry V) : Prop :=
  e.hashVal = hash e.key ∧ t.bucketIdx e.hashVal = i

structure Sound (hash : Bytes → UInt64) (t : DictHashTable V) : Prop where
  placed : ∀ i, ∀ e ∈ t.chain i, Placed hash t i e
  used_eq : t.used = t.entries.length

theorem bucketIdx_lt (ha : t.buckets ≠ []) (h : UInt64) : t.bucketIdx h < t.buckets.length := by
  have hpos := List.length_pos_iff.mpr ha
  have hle : t.bucketIdx h ≤ t.buckets.length - 1 := Nat.and_le_right
  omega

@[simp] theorem bucketIdx_setChain (i : ℕ) (c : List (DictEntry V)) (h : UInt64) :
    (t.setChain i c).bucketIdx h = t.bucketIdx h := by
  simp [bucketIdx, sizemask, size, setChain]

theorem mem_entries_iff {e : DictEntry V} : e ∈ t.entries ↔ ∃ i, e ∈ t.chain i :=
  Buckets.mem_flatten_iff

@[simp] theorem entries_null : (null : DictHashTable V).entries = [] := rfl

@[simp] theorem entries_allocate (n : ℕ) : (allocate n : DictHashTable V).entries = [] :=
  Buckets.flatten_replicate_nil n

theorem chain_eq_nil_of_entries (h : t.entries = []) (i : ℕ) : t.chain i = [] := by
  by_contra hne
  exact Buckets.length_flatten_pos_of_chain hne h

theorem sound_of_entries_nil (h : t.entries = []) (hu : t.used = 0) : t.Sound hash where
  placed i e he := by rw [chain_eq_nil_of_entries h] at he; cases he
  used_eq := by rw [hu, h, List.length_nil]

theorem sound_null : (null : DictHashTable V).Sound hash := sound_of_entries_nil rfl rfl

theorem sound_allocate (n : ℕ) : (allocate n : DictHashTable V).Sound hash :=
  sound_of_entries_nil (entries_allocate n) rfl

theorem entries_eq_nil_iff (hs : t.Sound hash) : t.entries = [] ↔ t.used = 0 := by
  rw [hs.used_eq, List.length_eq_zero_iff]

theorem holds_iff {k : Bytes} {e : DictEntry V} (he : e.hashVal = hash e.key) :
    holds k (hash k) e = true ↔ e.key = k := by
  simp only [holds, he, Bool.and_eq_true, beq_iff_eq]
  exact ⟨fun h => h.2, fun h => ⟨by rw [h], h⟩⟩

theorem findIn_eq_find? (hs : t.Sound hash) (k : Bytes) :
    t.findIn k (hash k) = (t.chain (t.bucketIdx (hash k))).find? (holds k (hash k)) := by
  rw [findIn]
  split_ifs with h
  · have hnil : t.entries = [] := by
      simp only [Bool.or_eq_true, isNull, List.isEmpty_iff, beq_iff_eq] at h
      rcases h with h | h
      · simp [entries, h]
      · exact (entries_eq_nil_iff hs).mpr h
    rw [chain_eq_nil_of_entries hnil, List.find?_nil]
  · rfl

theorem findIn_some (hs : t.Sound hash) {k : Bytes} {e : DictEntry V}
    (h : t.findIn k (hash k) = some e) : e ∈ t.entries ∧ e.key = k := by
  rw [findIn_eq_find? hs] at h
  have hmem := List.mem_of_find?_eq_some h
  exact ⟨mem_entries_iff.mpr ⟨_, hmem⟩,
    (holds_iff (hs.placed _ e hmem).1).mp (List.find?_some h)⟩

theorem findIn_eq_none_iff (hs : t.Sound hash) {k : Bytes} :
    t.findIn k (hash k) = none ↔ k ∉ t.entries.map DictEntry.key := by
  rw [findIn_eq_find? hs, List.find?_eq_none]
  constructor
  · rintro h hmem
    obtain ⟨e, he, rfl⟩ := List.mem_map.mp hmem
    obtain ⟨i, hi⟩ := mem_entries_iff.mp he
    obtain ⟨hhash, hidx⟩ := hs.placed i e hi
    rw [hhash] at hidx
    exact h e (hidx ▸ hi) ((holds_iff hhash).mpr rfl)
  · intro h e hmem hk
    have he := (holds_iff (hs.placed _ e hmem).1).mp hk
    exact h (List.mem_map.mpr ⟨e, mem_entries_iff.mpr ⟨_, hmem⟩, he⟩)

theorem entries_setChain_perm {i : ℕ} (hi : i < t.buckets.length) (c : List (DictEntry V)) :
    (t.setChain i c).entries ~ c ++ (t.setChain i []).entries :=
  Buckets.flatten_set_perm t.buckets hi c

theorem entries_perm {i : ℕ} (hi : i < t.buckets.length) :
    t.entries ~ t.chain i ++ (t.setChain i []).entries :=
  Buckets.flatten_perm t.buckets hi

theorem placed_setChain (hs : t.Sound hash) {i : ℕ} {c : List (DictEntry V)}
    (hc : ∀ e ∈ c, Placed hash t i e) :
    ∀ j, ∀ e ∈ (t.setChain i c).chain j, Placed hash t j e := by
  intro j e he
  rw [chain, setChain, Buckets.chain_set] at he
  split_ifs at he with hj
  · exact hj.1 ▸ hc e he
  · exact hs.placed j e he

theorem entries_prepend_perm (ha : t.buckets ≠ []) (e : DictEntry V) :
    (t.prepend e).entries ~ e :: t.entries := by
  have hi := bucketIdx_lt ha e.hashVal
  calc
    _ ~ (e :: t.chain (t.bucketIdx e.hashVal)) ++ (t.setChain (t.bucketIdx e.hashVal) []).entries :=
      entries_setChain_perm hi _
    _ ~ e :: t.entries := (entries_perm hi).symm.cons e

theorem sound_prepend (hs : t.Sound hash) (ha : t.buckets ≠ []) {e : DictEntry V}
    (he : e.hashVal = hash e.key) : (t.prepend e).Sound hash where
  placed := by
    have hc : ∀ x ∈ e :: t.chain (t.bucketIdx e.hashVal),
        Placed hash t (t.bucketIdx e.hashVal) x := by
      intro x hx
      rcases List.mem_cons.mp hx with rfl | hx
      · exact ⟨he, rfl⟩
      · exact hs.placed _ x hx
    intro j x hx
    obtain ⟨hh, hidx⟩ := placed_setChain hs hc j x hx
    exact ⟨hh, (bucketIdx_setChain ..).trans hidx⟩
  used_eq := by
    rw [(entries_prepend_perm ha e).length_eq, List.length_cons, ← hs.used_eq]
    rfl

theorem buckets_ne_nil_of_findIn {k : Bytes} {h : UInt64} {e : DictEntry V}
    (hf : t.findIn k h = some e) : t.buckets ≠ [] := by
  intro hnil
  simp [findIn, isNull, hnil] at hf

theorem entries_unlink_perm (hs : t.Sound hash) {k : Bytes} {e : DictEntry V}
    (hf : t.findIn k (hash k) = some e) : t.entries ~ e :: (t.unlink k (hash k)).entries := by
  have hi := bucketIdx_lt (buckets_ne_nil_of_findIn hf) (hash k)
  rw [findIn_eq_find? hs] at hf
  calc
    _ ~ t.chain (t.bucketIdx (hash k)) ++ (t.setChain (t.bucketIdx (hash k)) []).entries :=
      entries_perm hi
    _ ~ (e :: (t.chain (t.bucketIdx (hash k))).eraseP (holds k (hash k))) ++
        (t.setChain (t.bucketIdx (hash k)) []).entries :=
      (Buckets.perm_eraseP_of_find? hf).append_right _
    _ ~ e :: (t.unlink k (hash k)).entries := (entries_setChain_perm hi _).symm.cons e

theorem sound_unlink (hs : t.Sound hash) {k : Bytes} {e : DictEntry V}
    (hf : t.findIn k (hash k) = some e) : (t.unlink k (hash k)).Sound hash where
  placed := by
    have hc : ∀ x ∈ (t.chain (t.bucketIdx (hash k))).eraseP (holds k (hash k)),
        Placed hash t (t.bucketIdx (hash k)) x :=
      fun x hx => hs.placed _ x (List.mem_of_mem_eraseP hx)
    intro j x hx
    obtain ⟨hh, hidx⟩ := placed_setChain hs hc j x hx
    exact ⟨hh, (bucketIdx_setChain ..).trans hidx⟩
  used_eq := by
    have hlen := (entries_unlink_perm hs hf).length_eq
    rw [← hs.used_eq, List.length_cons] at hlen
    change t.used - 1 = _
    omega

theorem entries_assign_perm (hs : t.Sound hash) {k : Bytes} {e : DictEntry V}
    (hf : t.findIn k (hash k) = some e) (f : V → V) :
    (t.assign k (hash k) f).entries ~ { e with value := f e.value } ::
      (t.unlink k (hash k)).entries := by
  have hi := bucketIdx_lt (buckets_ne_nil_of_findIn hf) (hash k)
  rw [findIn_eq_find? hs] at hf
  calc
    _ ~ (t.chain (t.bucketIdx (hash k))).modify
          ((t.chain (t.bucketIdx (hash k))).findIdx (holds k (hash k)))
          (fun e => { e with value := f e.value }) ++
        (t.setChain (t.bucketIdx (hash k)) []).entries := entries_setChain_perm hi _
    _ ~ ({ e with value := f e.value } ::
          (t.chain (t.bucketIdx (hash k))).eraseP (holds k (hash k))) ++
        (t.setChain (t.bucketIdx (hash k)) []).entries :=
      (Buckets.perm_modify_of_find? hf _).append_right _
    _ ~ _ := (entries_setChain_perm hi _).symm.cons _

theorem sound_assign (hs : t.Sound hash) {k : Bytes} {e : DictEntry V}
    (hf : t.findIn k (hash k) = some e) (f : V → V) : (t.assign k (hash k) f).Sound hash where
  placed := by
    have hchain := findIn_eq_find? hs k ▸ hf
    have hc : ∀ x ∈ (t.chain (t.bucketIdx (hash k))).modify
        ((t.chain (t.bucketIdx (hash k))).findIdx (holds k (hash k)))
        (fun e => { e with value := f e.value }), Placed hash t (t.bucketIdx (hash k)) x := by
      intro x hx
      rcases List.mem_cons.mp ((Buckets.perm_modify_of_find? hchain _).mem_iff.mp hx) with rfl | hx
      · exact hs.placed _ e (List.mem_of_find?_eq_some hchain)
      · exact hs.placed _ x (List.mem_of_mem_eraseP hx)
    intro j x hx
    obtain ⟨hh, hidx⟩ := placed_setChain hs hc j x hx
    exact ⟨hh, (bucketIdx_setChain ..).trans hidx⟩
  used_eq := by
    have h1 := (entries_assign_perm hs hf f).length_eq
    have h2 := (entries_unlink_perm hs hf).length_eq
    rw [List.length_cons] at h1 h2
    have h3 : (t.assign k (hash k) f).used = t.used := rfl
    rw [h3, hs.used_eq]
    omega

end Keva.DictHashTable
