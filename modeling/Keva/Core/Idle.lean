import Keva.Core.Object
import Mathlib.Data.Nat.Bitwise

/-!
# The idle time of an object

`lru_clock::current` is to cut the time to 24 bits, but `LRU_CLOCK_MAX` is a power of two and no
mask of ones. Bit 24 of the time is all that is left, and the header of an object has no room for
it.
-/

namespace Keva

namespace LruClock

/-- `secs` is the time that `current()` reads. -/
def idleSeconds (objLru : UInt32) (secs : Int64) : UInt32 :=
  let now := current secs
  if objLru ≤ now then now - objLru
  -- the clock has wrapped around
  else (constants.lruClockMax - objLru) + now

theorem toNat_current (t : Int64) :
    ((current t).toNat : ℤ) = t.toInt / 2 ^ 24 % 2 * 2 ^ 24 := by
  have hmask : constants.lruClockMax.toNat = 2 ^ 24 := by decide
  have hword : (t.toUInt64.toNat : ℤ) = t.toInt % 2 ^ 64 := by
    change (t.toBitVec.toNat : ℤ) = t.toBitVec.toInt % 2 ^ 64
    rw [BitVec.toInt_eq_toNat_cond]
    split_ifs <;> omega
  have hbit : ∀ n : ℕ, n &&& 2 ^ 24 = n / 2 ^ 24 % 2 * 2 ^ 24 := by
    intro n
    rw [Nat.and_two_pow, Nat.testBit_eq_decide_div_mod_eq]
    rcases Nat.mod_two_eq_zero_or_one (n / 2 ^ 24) with h | h
    · rw [h]
      rfl
    · rw [h]
      rfl
  rw [current, UInt32.toNat_and, hmask, UInt64.toNat_toUInt32, hbit]
  omega

theorem current_eq_zero_or (t : Int64) : current t = 0 ∨ current t = constants.lruClockMax := by
  have hmax : (constants.lruClockMax.toNat : ℤ) = 2 ^ 24 := by decide
  have hnat := toNat_current t
  rcases Int.emod_two_eq (t.toInt / 2 ^ 24) with h | h
  · left
    rw [h] at hnat
    apply UInt32.toNat_inj.mp
    rw [UInt32.toNat_zero]
    omega
  · right
    rw [h] at hnat
    apply UInt32.toNat_inj.mp
    omega

theorem lru_setLru_current (w : UInt32) (t : Int64) :
    MetaWord.lru (MetaWord.setLru w (current t)) = 0 := by
  rw [MetaWord.lru_setLru]
  rcases current_eq_zero_or t with h | h
  · rw [h]
    rfl
  · rw [h]
    rfl

theorem idleSeconds_zero (t : Int64) : idleSeconds 0 t = current t := by
  rw [idleSeconds, if_pos UInt32.zero_le, UInt32.sub_zero]

end LruClock

namespace KevaObject

open LruClock

/-- What `idle_seconds(obj->lru())` is at `secs`. -/
def idle (obj : KevaObject) (secs : Int64) : ℕ := (idleSeconds obj.lru secs).toNat

/-- `obj` was created or touched at `t`. -/
inductive UsedAt (t : Int64) : KevaObject → Prop
  | createString (sv : Bytes) : UsedAt t (createString sv (current t))
  | createStringFromInt (n : Int64) : UsedAt t (createStringFromInt n (current t))
  | touch (obj : KevaObject) : UsedAt t (obj.touch (current t))

theorem encoding_touch (obj : KevaObject) (v : UInt32) : (obj.touch v).encoding = obj.encoding := by
  rw [encoding_eq, encoding_eq, ptr_touch]

variable {t t' t₁ t₂ : Int64} {obj obj' : KevaObject}

theorem UsedAt.lru_eq (h : UsedAt t obj) : obj.lru = 0 := by
  cases h with
  | createString sv =>
      rw [KevaObject.createString]
      cases Buffer.tryParseInt sv with
      | some n => exact lru_setLru_current _ t
      | none =>
          dsimp only
          split_ifs
          · exact lru_setLru_current _ t
          · exact lru_setLru_current _ t
  | createStringFromInt n => exact lru_setLru_current _ t
  | touch obj => exact lru_setLru_current _ t

/-- The reported idle time does not depend on when the object was used. -/
theorem UsedAt.idle_eq (h : UsedAt t obj) (secs : Int64) :
    obj.idle secs = (current secs).toNat := by
  rw [idle, h.lru_eq, idleSeconds_zero]

/-- Every object that was used at `t₁` reports at `t₂` the time that has passed since. -/
def MeasuresIdle (t₁ t₂ : Int64) : Prop :=
  ∀ obj, UsedAt t₁ obj → (obj.idle t₂ : ℤ) = t₂.toInt - t₁.toInt

/-- Of any two objects used at `t` and later at `t'`, the former reports the longer time at `t₂`. -/
def RanksIdle (t t' t₂ : Int64) : Prop :=
  ∀ obj obj', UsedAt t obj → UsedAt t' obj' → obj'.idle t₂ < obj.idle t₂

/-- The time that has passed is reported only if none has passed and bit 24 of the time is 0.
Objects used at different times report the same. -/
theorem measures_idle_iff (h : t₁ ≤ t₂) (hlt : t₂.toInt - t₁.toInt < 2 ^ 24) :
    (MeasuresIdle t₁ t₂ ↔ t₁ = t₂ ∧ t₁.toInt / 2 ^ 24 % 2 = 0) ∧
      (∀ obj : KevaObject, (obj.touch (current t₁)).type = obj.type ∧
        (obj.touch (current t₁)).encoding = obj.encoding) ∧
      ∀ t, t₁ < t → t ≤ t₂ → ¬ RanksIdle t₁ t t₂ := by
  rw [Int64.le_iff_toInt_le] at h
  have hnat := toNat_current t₂
  refine ⟨⟨fun hm => ?_, ?_⟩, fun obj => ⟨type_touch obj _, encoding_touch obj _⟩,
    fun t _ _ hr => ?_⟩
  · have hidle := hm _ (.createStringFromInt 0)
    rw [(UsedAt.createStringFromInt 0).idle_eq] at hidle
    have heq : t₁ = t₂ := by
      apply Int64.toInt_inj.mp
      omega
    rw [heq]
    refine ⟨rfl, ?_⟩
    omega
  · rintro ⟨rfl, hbit⟩ obj hobj
    rw [hobj.idle_eq, hnat, hbit, Int.sub_self, zero_mul]
  · have hrank := hr _ _ (.createStringFromInt 0) (.createStringFromInt 0)
    rw [(UsedAt.createStringFromInt 0).idle_eq, (UsedAt.createStringFromInt 0).idle_eq] at hrank
    exact lt_irrefl _ hrank

theorem measures_idle_at_epoch :
    (MeasuresIdle 0 0 ↔ (0 : Int64) = 0 ∧ (0 : Int64).toInt / 2 ^ 24 % 2 = 0) ∧
      (∀ obj : KevaObject, (obj.touch (current 0)).type = obj.type ∧
        (obj.touch (current 0)).encoding = obj.encoding) ∧
      ∀ t : Int64, 0 < t → t ≤ 0 → ¬ RanksIdle 0 t 0 :=
  measures_idle_iff (by decide) (by decide)

/-- An object that was touched one second ago reports no idle time. -/
theorem idle_stands_still :
    (0 : Int64) ≤ 1 ∧ (1 : Int64).toInt - (0 : Int64).toInt < 2 ^ 24 ∧ ¬ MeasuresIdle 0 1 := by
  refine ⟨by decide, by decide, fun h => ?_⟩
  have hidle := h _ (.createStringFromInt 0)
  rw [(UsedAt.createStringFromInt 0).idle_eq] at hidle
  exact absurd hidle (by decide)

end KevaObject

end Keva
