import Mathlib.Algebra.Order.Group.Basic
import Mathlib.Algebra.Order.Group.Nat
import Mathlib.Data.List.Chain

/-!
# A timer that is looked at now and then

The timer fires when it is looked at, if at least `interval` has passed since it has last fired. It
never fires too early, and how late it can be depends only on how often it is looked at.
-/

namespace Pacing

variable {α : Type*} [AddCommGroup α] [LinearOrder α]

/-- The times at which the timer fires, of those at which it is looked at. At `last` it has fired
before. -/
def fires (interval : α) : α → List α → List α
  | _, [] => []
  | last, t :: ts =>
      if interval ≤ t - last then t :: fires interval t ts else fires interval last ts

variable {interval gap last prev : α}

theorem not_due (hpos : 0 < interval) (hprev : prev - last < interval) (ts : List α) :
    ts.getLastD prev - (fires interval last ts).getLastD last < interval := by
  induction ts generalizing last prev with
  | nil => exact hprev
  | cons t ts ih =>
      rw [List.getLastD_cons, fires]
      split_ifs with ht
      · rw [List.getLastD_cons]
        exact ih (by rwa [sub_self])
      · exact ih (not_le.mp ht)

theorem getLastD_fires_le (hprev : last ≤ prev) {ts : List α}
    (h : (prev :: ts).IsChain (· ≤ ·)) :
    (fires interval last ts).getLastD last ≤ ts.getLastD prev := by
  induction ts generalizing last prev with
  | nil => exact hprev
  | cons t ts ih =>
      rw [List.isChain_cons_cons] at h
      rw [List.getLastD_cons, fires]
      split_ifs with ht
      · rw [List.getLastD_cons]
        exact ih le_rfl h.2
      · exact ih (hprev.trans h.1) h.2

variable [IsOrderedAddMonoid α]

theorem spaced (interval last : α) (ts : List α) :
    (last :: fires interval last ts).IsChain fun t t' => t + interval ≤ t' := by
  induction ts generalizing last with
  | nil => simp [fires]
  | cons t ts ih =>
      rw [fires]
      split_ifs with ht
      · rw [List.isChain_cons_cons]
        exact ⟨by rwa [add_comm, ← le_sub_iff_add_le], ih t⟩
      · exact ih last

theorem prompt (hpos : 0 < interval) (hprev : prev - last < interval) {ts : List α}
    (h : (prev :: ts).IsChain fun t t' => t' ≤ t + gap) :
    (last :: fires interval last ts).IsChain fun t t' => t' < t + interval + gap := by
  induction ts generalizing last prev with
  | nil => simp [fires]
  | cons t ts ih =>
      rw [List.isChain_cons_cons] at h
      rw [fires]
      split_ifs with ht
      · rw [List.isChain_cons_cons]
        refine ⟨lt_of_le_of_lt h.1 ?_, ih (by rwa [sub_self]) h.2⟩
        rw [sub_lt_iff_lt_add'] at hprev
        exact add_lt_add_left hprev gap
      · exact ih (not_le.mp ht) h.2

theorem length_nsmul_le {c a : α} {l : List α}
    (h : (a :: l).IsChain fun t t' => t + c ≤ t') : l.length • c ≤ l.getLastD a - a := by
  induction l generalizing a with
  | nil => simp
  | cons b l ih =>
      rw [List.isChain_cons_cons] at h
      have hrest := ih h.2
      have hfirst := le_sub_iff_add_le'.mpr h.1
      calc (b :: l).length • c = l.length • c + c := by rw [List.length_cons, succ_nsmul]
        _ ≤ (l.getLastD b - b) + (b - a) := add_le_add hrest hfirst
        _ = (b :: l).getLastD a - a := by rw [List.getLastD_cons, sub_add_sub_cancel]

theorem le_length_nsmul {c a : α} {l : List α}
    (h : (a :: l).IsChain fun t t' => t' < t + c) : l.getLastD a - a ≤ l.length • c := by
  induction l generalizing a with
  | nil => simp
  | cons b l ih =>
      rw [List.isChain_cons_cons] at h
      have hrest := ih h.2
      have hfirst := (sub_lt_iff_lt_add'.mpr h.1).le
      calc (b :: l).getLastD a - a = (l.getLastD b - b) + (b - a) := by
            rw [List.getLastD_cons, sub_add_sub_cancel]
        _ ≤ l.length • c + c := add_le_add hrest hfirst
        _ = (b :: l).length • c := by rw [List.length_cons, succ_nsmul]

theorem length_fires (hpos : 0 < interval) {ts : List α}
    (h : (last :: ts).IsChain fun t t' => t ≤ t' ∧ t' ≤ t + gap) :
    (fires interval last ts).length • interval ≤ ts.getLastD last - last ∧
      ts.getLastD last - last <
        interval + (fires interval last ts).length • (interval + gap) := by
  have hself : last - last < interval := by rwa [sub_self]
  have hlate := prompt hpos hself (h.imp fun _ _ => And.right)
  have hle : (fires interval last ts).getLastD last ≤ ts.getLastD last :=
    getLastD_fires_le le_rfl (h.imp fun _ _ => And.left)
  have hdue := not_due hpos hself ts
  simp only [add_assoc] at hlate
  constructor
  · exact (length_nsmul_le (spaced interval last ts)).trans (sub_le_sub_right hle last)
  · rw [← sub_add_sub_cancel _ ((fires interval last ts).getLastD last) last]
    exact add_lt_add_of_lt_of_le hdue (le_length_nsmul hlate)

end Pacing
