import Mathlib.Algebra.Order.Group.Nat
import Mathlib.Data.List.Basic

/-!
# Little-endian numbers

`encode w n` is the number `n` in `w` bytes, the least significant byte first; higher digits are cut
off. `decode` reads any number of bytes.
-/

namespace LittleEndian

def encode (w n : ℕ) : List UInt8 := (List.range w).map fun i => UInt8.ofNat (n / 256 ^ i)

def decode (bytes : List UInt8) : ℕ := bytes.foldr (fun b n => b.toNat + 256 * n) 0

@[simp] theorem length_encode (w n : ℕ) : (encode w n).length = w := by
  rw [encode, List.length_map, List.length_range]

theorem encode_succ (w n : ℕ) : encode (w + 1) n = UInt8.ofNat n :: encode w (n / 256) := by
  unfold encode
  rw [List.range_succ_eq_map, List.map_cons, List.map_map, pow_zero, Nat.div_one]
  congr 1
  apply List.map_congr_left
  intro i _
  rw [Function.comp_apply, pow_succ', Nat.div_div_eq_div_mul]

theorem decode_cons (b : UInt8) (bytes : List UInt8) :
    decode (b :: bytes) = b.toNat + 256 * decode bytes := rfl

theorem decode_encode (w n : ℕ) : decode (encode w n) = n % 256 ^ w := by
  induction w generalizing n with
  | zero => exact (Nat.mod_one n).symm
  | succ w ih => rw [encode_succ, decode_cons, ih, UInt8.toNat_ofNat', pow_succ' 256 w, Nat.mod_mul]

theorem decode_encode_of_lt {w n : ℕ} (h : n < 256 ^ w) : decode (encode w n) = n := by
  rw [decode_encode, Nat.mod_eq_of_lt h]

theorem decode_lt (bytes : List UInt8) : decode bytes < 256 ^ bytes.length := by
  induction bytes with
  | nil => exact Nat.one_pos
  | cons b bytes ih =>
      have hb := b.toNat_lt
      rw [decode_cons, List.length_cons, pow_succ']
      omega

theorem decode_append (bytes bytes' : List UInt8) :
    decode (bytes ++ bytes') = decode bytes + 256 ^ bytes.length * decode bytes' := by
  induction bytes with
  | nil =>
      rw [List.nil_append, List.length_nil, pow_zero, Nat.one_mul]
      exact (Nat.zero_add _).symm
  | cons b bytes ih =>
      rw [List.cons_append, decode_cons, decode_cons, ih, List.length_cons, pow_succ', Nat.mul_add,
        Nat.add_assoc, Nat.mul_assoc]

theorem decode_replicate_zero (n : ℕ) : decode (List.replicate n 0) = 0 := by
  induction n with
  | zero => rfl
  | succ n ih => rw [List.replicate_succ, decode_cons, ih, UInt8.toNat_zero]

theorem encode_decode {w : ℕ} {bytes : List UInt8} (h : bytes.length = w) :
    encode w (decode bytes) = bytes := by
  subst h
  induction bytes with
  | nil => rfl
  | cons b bytes ih =>
      have hb := b.toNat_lt
      have hdiv : (b.toNat + 256 * decode bytes) / 256 = decode bytes := by omega
      have hlow : UInt8.ofNat (b.toNat + 256 * decode bytes) = b := by
        rw [← UInt8.toNat_inj, UInt8.toNat_ofNat']
        omega
      rw [decode_cons, List.length_cons, encode_succ, hdiv, hlow, ih]

end LittleEndian
