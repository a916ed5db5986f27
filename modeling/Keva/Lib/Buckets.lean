import Mathlib.Data.List.Perm.Basic
import Mathlib.Data.List.Rotate

/-!
# Arrays of chains

A chained hash table keeps a list of buckets, each a list of records. These facts relate a change
of one bucket to the records of the whole table, up to order.
-/

open scoped List

namespace Buckets

variable {α : Type*}

def chain (bs : List (List α)) (i : ℕ) : List α := bs.getD i []

theorem chain_eq_getElem {bs : List (List α)} {i : ℕ} (hi : i < bs.length) :
    chain bs i = bs[i] := by
  simp [chain, hi]

theorem chain_of_length_le {bs : List (List α)} {i : ℕ} (hi : bs.length ≤ i) :
    chain bs i = [] := by
  simp [chain, hi]

theorem mem_flatten_iff {bs : List (List α)} {a : α} :
    a ∈ bs.flatten ↔ ∃ i, a ∈ chain bs i := by
  rw [List.mem_flatten]
  constructor
  · rintro ⟨c, hc, ha⟩
    obtain ⟨i, hi, rfl⟩ := List.mem_iff_getElem.mp hc
    exact ⟨i, by rwa [chain_eq_getElem hi]⟩
  · rintro ⟨i, ha⟩
    by_cases hi : i < bs.length
    · exact ⟨bs[i], List.getElem_mem hi, by rwa [chain_eq_getElem hi] at ha⟩
    · rw [chain_of_length_le (by omega)] at ha
      cases ha

theorem chain_set {bs : List (List α)} {i j : ℕ} {c : List α} :
    chain (bs.set i c) j = if i = j ∧ i < bs.length then c else chain bs j := by
  by_cases hij : i = j
  · subst hij
    by_cases hi : i < bs.length
    · simp [chain, hi]
    · simp [chain, hi]
  · simp [chain, List.getElem?_set_ne hij, hij]

theorem flatten_replicate_nil (n : ℕ) : (List.replicate n ([] : List α)).flatten = [] := by
  simp

theorem flatten_set_perm (bs : List (List α)) {i : ℕ} (hi : i < bs.length) (c : List α) :
    (bs.set i c).flatten ~ c ++ (bs.set i []).flatten := by
  induction bs generalizing i with
  | nil => simp at hi
  | cons b bs ih =>
      cases i with
      | zero => simp
      | succ i =>
          simp only [List.set_cons_succ, List.flatten_cons]
          calc
            _ ~ b ++ (c ++ (bs.set i []).flatten) := (ih (by simpa using hi)).append_left b
            _ = (b ++ c) ++ (bs.set i []).flatten := (List.append_assoc ..).symm
            _ ~ (c ++ b) ++ (bs.set i []).flatten := List.perm_append_comm.append_right _
            _ = _ := List.append_assoc ..

theorem flatten_perm (bs : List (List α)) {i : ℕ} (hi : i < bs.length) :
    bs.flatten ~ chain bs i ++ (bs.set i []).flatten := by
  have h := flatten_set_perm bs hi (chain bs i)
  rw [chain_eq_getElem hi, List.set_getElem_self] at h
  rwa [chain_eq_getElem hi]

theorem length_flatten_pos_of_chain {bs : List (List α)} {i : ℕ} (h : chain bs i ≠ []) :
    bs.flatten ≠ [] := by
  obtain ⟨a, ha⟩ := List.exists_mem_of_ne_nil _ h
  exact List.ne_nil_of_mem (mem_flatten_iff.mpr ⟨i, ha⟩)

theorem take_succ_rotate {bs : List (List α)} {i m : ℕ} (hi : i < bs.length)
    (hm : m + 1 ≤ bs.length) :
    (bs.rotate i).take (m + 1) = chain bs i :: (bs.rotate ((i + 1) % bs.length)).take m := by
  rw [List.rotate_mod, ← List.rotate_rotate]
  have hlen : (bs.rotate i).length = bs.length := List.length_rotate ..
  have hhead : (bs.rotate i).head? = some (chain bs i) := by
    rw [List.head?_rotate hi, chain_eq_getElem hi, List.getElem?_eq_getElem hi]
  cases hr : bs.rotate i with
  | nil =>
      rw [hr] at hhead
      cases hhead
  | cons c cs =>
      rw [hr] at hlen hhead
      obtain rfl := Option.some.inj hhead
      rw [List.rotate_cons_succ, List.rotate_zero, List.take_succ_cons,
        List.take_append_of_le_length (by rw [List.length_cons] at hlen; omega)]

theorem flatten_rotate_perm (bs : List (List α)) (i : ℕ) :
    (bs.rotate i).flatten ~ bs.flatten := (List.rotate_perm bs i).flatten

theorem split_of_find? {p : α → Bool} {l : List α} {a : α} (h : l.find? p = some a) :
    ∃ l₁ l₂, l = l₁ ++ a :: l₂ ∧ l.eraseP p = l₁ ++ l₂ ∧
      ∀ g : α → α, l.modify (l.findIdx p) g = l₁ ++ g a :: l₂ := by
  induction l with
  | nil => simp at h
  | cons b l ih =>
      by_cases hb : p b = true
      · obtain rfl : b = a := by simpa [hb] using h
        exact ⟨[], l, rfl, by simp [hb], fun g => by simp [List.findIdx_cons, hb]⟩
      · obtain ⟨l₁, l₂, rfl, he, hm⟩ := ih (by simpa [hb] using h)
        refine ⟨b :: l₁, l₂, rfl, by simp [hb, he], fun g => ?_⟩
        simp only [List.findIdx_cons, hb, cond_false, List.modify_succ_cons, hm g,
          List.cons_append]

theorem perm_eraseP_of_find? {p : α → Bool} {l : List α} {a : α} (h : l.find? p = some a) :
    l ~ a :: l.eraseP p := by
  obtain ⟨l₁, l₂, hl, he, -⟩ := split_of_find? h
  rw [he]
  conv_lhs => rw [hl]
  exact List.perm_middle

theorem perm_modify_of_find? {p : α → Bool} {l : List α} {a : α} (h : l.find? p = some a)
    (g : α → α) : l.modify (l.findIdx p) g ~ g a :: l.eraseP p := by
  obtain ⟨l₁, l₂, -, he, hm⟩ := split_of_find? h
  rw [hm g, he]
  exact List.perm_middle

end Buckets
