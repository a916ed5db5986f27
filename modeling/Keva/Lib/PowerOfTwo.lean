import Mathlib.Algebra.Order.Ring.Nat

/-!
# Powers of two as sizes

`Nat.nextPowerOfTwo n` is the first power of two from `n` on, so it is less than `2 * n`. Two powers
of two differ by a factor of at least two.
-/

namespace PowerOfTwo

-- the loop of `nextPowerOfTwo`, which doubles `p` until it has reached `n`
open private Nat.nextPowerOfTwo.go from Init.Data.Nat.Power2.Basic

theorem le_nextPowerOfTwo (n : ℕ) : n ≤ n.nextPowerOfTwo := by
  have hgo : ∀ p (hp : 0 < p), n ≤ Nat.nextPowerOfTwo.go n p hp := by
    intro p hp
    fun_induction Nat.nextPowerOfTwo.go n p hp with
    | case1 p hp hlt ih => exact ih
    | case2 p hp hge => exact Nat.le_of_not_lt hge
  exact hgo 1 _

theorem nextPowerOfTwo_lt {n : ℕ} (hn : 0 < n) : n.nextPowerOfTwo < 2 * n := by
  have hgo : ∀ p (hp : 0 < p), p < 2 * n → Nat.nextPowerOfTwo.go n p hp < 2 * n := by
    intro p hp
    fun_induction Nat.nextPowerOfTwo.go n p hp with
    | case1 p hp hlt ih => exact fun _ => ih (by omega)
    | case2 p hp hge => exact id
  exact hgo 1 _ (by omega)

theorem two_mul_le {m n : ℕ} (hm : m.isPowerOfTwo) (hn : n.isPowerOfTwo) (h : m < n) :
    2 * m ≤ n := by
  obtain ⟨i, rfl⟩ := hm
  obtain ⟨j, rfl⟩ := hn
  rw [← pow_succ']
  exact Nat.pow_le_pow_right Nat.two_pos ((Nat.pow_lt_pow_iff_right Nat.one_lt_two).mp h)

theorem nextPowerOfTwo_le {n k : ℕ} (hn : 0 < n) (hk : k.isPowerOfTwo) (h : n ≤ k) :
    n.nextPowerOfTwo ≤ k := by
  by_contra hlt
  have htwice := two_mul_le hk (Nat.isPowerOfTwo_nextPowerOfTwo n) (Nat.lt_of_not_le hlt)
  have hbound := nextPowerOfTwo_lt hn
  omega

end PowerOfTwo
