import Mathlib.Algebra.Order.Group.Nat
import Mathlib.Data.Int.Order.Basic
import Mathlib.Tactic.SplitIfs

/-!
# When 64-bit arithmetic is exact

The operations of `Int64` wrap around. `InI64` are the integers that an `Int64` can be; an operation
gives the mathematical result exactly when that result is one of them.
-/

/-- The integer can be held by an `Int64`. -/
def InI64 (z : ℤ) : Prop := -9223372036854775808 ≤ z ∧ z ≤ 9223372036854775807

instance (z : ℤ) : Decidable (InI64 z) := inferInstanceAs (Decidable (_ ∧ _))

namespace Int64

theorem inI64_toInt (n : Int64) : InI64 n.toInt := by
  have hlo := n.le_toInt
  have hhi := n.toInt_lt
  exact ⟨by omega, by omega⟩

theorem bmod_eq_iff_inI64 {z : ℤ} : z.bmod (2 ^ 64) = z ↔ InI64 z := by
  unfold InI64
  constructor
  · intro h
    have hlo := @Int.le_bmod z (2 ^ 64) (by decide)
    have hhi := @Int.bmod_lt z (2 ^ 64) (by decide)
    omega
  · rintro ⟨hlo, hhi⟩
    apply Int.bmod_eq_of_le <;> omega

theorem toInt_add_eq_iff {a b : Int64} :
    (a + b).toInt = a.toInt + b.toInt ↔ InI64 (a.toInt + b.toInt) := by
  rw [toInt_add, bmod_eq_iff_inI64]

theorem toInt_sub_eq_iff {a b : Int64} :
    (a - b).toInt = a.toInt - b.toInt ↔ InI64 (a.toInt - b.toInt) := by
  rw [toInt_sub, bmod_eq_iff_inI64]

theorem toInt_ofInt_eq_iff {z : ℤ} : (ofInt z).toInt = z ↔ InI64 z := by
  rw [toInt_ofInt]
  exact bmod_eq_iff_inI64

theorem toInt_div_of_nonneg {a b : Int64} (ha : 0 ≤ a.toInt) (hb : 0 < b.toInt) :
    (a / b).toInt = a.toInt / b.toInt := by
  have hne : b ≠ -1 := by
    rintro rfl
    exact absurd hb (by decide)
  rw [toInt_div_of_ne_right _ _ hne, Int.tdiv_eq_ediv_of_nonneg ha]

end Int64
