import Mathlib.Algebra.Order.Ring.Nat

/-!
# Amortized costs

`total step cost s ops` is what the operations `ops` cost from the state `s` on, up to the first
that fails. A potential is what earlier operations have paid in advance: if every step costs no more
than its charge and what it takes from the potential, then a run costs no more than its charges and
the potential that it starts with. A cost that doubles a weight whenever it is paid is rare: there
are no more of them than doublings of the weight.
-/

namespace Amortized

variable {S O : Type*}

def total (step : S → O → Option S) (cost : S → O → ℕ) : S → List O → ℕ
  | _, [] => 0
  | s, o :: ops =>
      match step s o with
      | none => 0
      | some s' => cost s o + total step cost s' ops

/-- The invariant is kept, and a step is paid for by its charge and the potential. -/
structure Pays (step : S → O → Option S) (Inv : S → Prop) (potential : S → ℕ)
    (cost charge : S → O → ℕ) : Prop where
  keeps : ∀ {s s' o}, Inv s → step s o = some s' → Inv s'
  pays : ∀ {s s' o}, Inv s → step s o = some s' →
    cost s o + potential s' ≤ potential s + charge s o

variable {step : S → O → Option S} {Inv : S → Prop} {potential : S → ℕ}
  {cost charge : S → O → ℕ} {s s' : S} {o : O}

theorem total_cons_of_some (h : step s o = some s') (ops : List O) :
    total step cost s (o :: ops) = cost s o + total step cost s' ops := by
  rw [total, h]

theorem total_cons_of_none (h : step s o = none) (ops : List O) :
    total step cost s (o :: ops) = 0 := by
  rw [total, h]

theorem total_mul (n : ℕ) (ops : List O) :
    total step (fun s o => n * cost s o) s ops = n * total step cost s ops := by
  induction ops generalizing s with
  | nil => rfl
  | cons o ops ih =>
      cases h : step s o with
      | none => rw [total_cons_of_none h, total_cons_of_none h, Nat.mul_zero]
      | some s' => rw [total_cons_of_some h, total_cons_of_some h, ih, Nat.mul_add]

theorem Pays.total_le (h : Pays step Inv potential cost charge) (ops : List O) (hs : Inv s) :
    total step cost s ops ≤ potential s + total step charge s ops := by
  induction ops generalizing s with
  | nil => exact Nat.zero_le _
  | cons o ops ih =>
      cases hstep : step s o with
      | none =>
          rw [total_cons_of_none hstep]
          exact Nat.zero_le _
      | some s' =>
          have hpays := h.pays hs hstep
          have hrest := ih (h.keeps hs hstep)
          rw [total_cons_of_some hstep, total_cons_of_some hstep]
          omega

/-- If a cost of `n` doubles the weight `n` times, then the weight bounds the total cost. -/
theorem two_pow_total_mul_le (weight : S → ℕ)
    (hkeeps : ∀ {s s' o}, Inv s → step s o = some s' → Inv s')
    (hdoubles : ∀ {s s' o}, Inv s → step s o = some s' → 2 ^ cost s o * weight s ≤ weight s')
    {ops : List O} (hs : Inv s) (hrun : ops.foldlM step s = some s') :
    2 ^ total step cost s ops * weight s ≤ weight s' := by
  induction ops generalizing s with
  | nil =>
      cases hrun
      rw [total, pow_zero, Nat.one_mul]
  | cons o ops ih =>
      rw [List.foldlM_cons] at hrun
      cases hstep : step s o with
      | none =>
          rw [hstep] at hrun
          cases hrun
      | some t =>
          rw [hstep] at hrun
          rw [total_cons_of_some hstep]
          calc
            _ = 2 ^ total step cost t ops * (2 ^ cost s o * weight s) := by
              rw [pow_add, Nat.mul_comm (2 ^ cost s o), Nat.mul_assoc]
            _ ≤ 2 ^ total step cost t ops * weight t :=
              Nat.mul_le_mul_left _ (hdoubles hs hstep)
            _ ≤ weight s' := ih (hkeeps hs hstep) hrun

end Amortized
