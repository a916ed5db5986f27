import Mathlib.Logic.Function.Basic
import Mathlib.Data.List.Perm.Basic
import Mathlib.Data.List.Nodup

/-!
# Lists of records with unique keys, read as finite maps

`binding key val l k` is the value of the first record of `l` whose key is `k`. On lists without
repeated keys it depends only on the records and not on their order, so a structure that moves
records about can be compared with a map through permutations of its records.
-/

namespace KeyedList

variable {α κ ν : Type*} (key : α → κ) (val : α → ν)

theorem nodup_of_replace {l l' rest : List α} {a b : α} (hp : l.Perm (a :: rest))
    (hp' : l'.Perm (b :: rest)) (hk : key b = key a) (hn : (l.map key).Nodup) :
    (l'.map key).Nodup := by
  rw [(hp'.map key).nodup_iff, List.map_cons, hk, ← List.map_cons]
  exact (hp.map key).nodup_iff.mp hn

theorem nodup_of_erase {l l' : List α} {a : α} (hp : l.Perm (a :: l')) (hn : (l.map key).Nodup) :
    (l'.map key).Nodup := by
  have := (hp.map key).nodup_iff.mp hn
  rw [List.map_cons, List.nodup_cons] at this
  exact this.2

variable [DecidableEq κ]

def binding (l : List α) (k : κ) : Option ν := (l.find? (fun a => key a = k)).map val

@[simp] theorem binding_nil (k : κ) : binding key val [] k = none := rfl

theorem binding_cons (a : α) (l : List α) :
    binding key val (a :: l) = Function.update (binding key val l) (key a) (some (val a)) := by
  funext k
  by_cases hk : k = key a
  · subst hk; simp [binding]
  · simp [binding, Function.update_of_ne hk, Ne.symm hk]

theorem binding_eq_none_iff {l : List α} {k : κ} :
    binding key val l k = none ↔ k ∉ l.map key := by
  simp only [binding, Option.map_eq_none_iff, List.find?_eq_none, decide_eq_true_eq, List.mem_map,
    not_exists, not_and]

theorem find?_eq_some_iff_mem {l : List α} (hn : (l.map key).Nodup) {k : κ} {a : α} :
    l.find? (fun b => key b = k) = some a ↔ a ∈ l ∧ key a = k := by
  constructor
  · intro h
    exact ⟨List.mem_of_find?_eq_some h, by simpa using List.find?_some h⟩
  · rintro ⟨hmem, hk⟩
    obtain ⟨b, hb⟩ : ∃ b, l.find? (fun b => key b = k) = some b := by
      rw [← Option.isSome_iff_exists, List.find?_isSome]
      exact ⟨a, hmem, by simpa using hk⟩
    have hbk : key b = k := by simpa using List.find?_some hb
    rw [hb, List.inj_on_of_nodup_map hn (List.mem_of_find?_eq_some hb) hmem (hbk.trans hk.symm)]

theorem binding_eq_some_iff {l : List α} (hn : (l.map key).Nodup) {k : κ} {v : ν} :
    binding key val l k = some v ↔ ∃ a ∈ l, key a = k ∧ val a = v := by
  simp only [binding, Option.map_eq_some_iff, find?_eq_some_iff_mem key hn]
  constructor
  · rintro ⟨a, ⟨hmem, hk⟩, hv⟩
    exact ⟨a, hmem, hk, hv⟩
  · rintro ⟨a, hmem, hk, hv⟩
    exact ⟨a, ⟨hmem, hk⟩, hv⟩

theorem binding_perm {l l' : List α} (hp : l.Perm l') (hn : (l.map key).Nodup) :
    binding key val l = binding key val l' := by
  have hn' : (l'.map key).Nodup := (hp.map key).nodup_iff.mp hn
  funext k
  ext v
  rw [binding_eq_some_iff key val hn, binding_eq_some_iff key val hn']
  simp only [hp.mem_iff]

theorem binding_insert {l l' : List α} {a : α} (hp : l'.Perm (a :: l)) (hn : (l'.map key).Nodup) :
    binding key val l' = Function.update (binding key val l) (key a) (some (val a)) := by
  rw [binding_perm key val hp hn, binding_cons]

theorem binding_replace {l l' rest : List α} {a b : α} (hp : l.Perm (a :: rest))
    (hp' : l'.Perm (b :: rest)) (hk : key b = key a) (hn : (l.map key).Nodup) :
    binding key val l' = Function.update (binding key val l) (key a) (some (val b)) := by
  have hn' : (l'.map key).Nodup := by
    rw [(hp'.map key).nodup_iff, List.map_cons, hk, ← List.map_cons]
    exact (hp.map key).nodup_iff.mp hn
  rw [binding_insert key val hp' hn', binding_insert key val hp hn, hk, Function.update_idem]

theorem binding_erase {l l' : List α} {a : α} (hp : l.Perm (a :: l')) (hn : (l.map key).Nodup) :
    binding key val l' = Function.update (binding key val l) (key a) none := by
  have hfresh : binding key val l' (key a) = none := by
    rw [binding_eq_none_iff]
    have := (hp.map key).nodup_iff.mp hn
    rw [List.map_cons, List.nodup_cons] at this
    exact this.1
  rw [binding_insert key val hp hn, Function.update_idem, ← hfresh, Function.update_eq_self]

theorem nodup_of_insert {l l' : List α} {a : α} (hp : l'.Perm (a :: l)) (hn : (l.map key).Nodup)
    (hfresh : binding key val l (key a) = none) : (l'.map key).Nodup := by
  rw [(hp.map key).nodup_iff, List.map_cons, List.nodup_cons]
  exact ⟨(binding_eq_none_iff key val).mp hfresh, hn⟩

end KeyedList
