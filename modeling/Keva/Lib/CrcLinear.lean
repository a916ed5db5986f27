import Keva.Lib.Crc
import Mathlib.Algebra.Order.Group.Nat
import Mathlib.Data.List.Infix
import Mathlib.Logic.Function.Iterate

/-!
# Checksums bit by bit

`bitwise` takes the bits of the bytes one at a time, the lowest bit of a byte first. The register is
linear over exclusive or, so that eight of its steps are one step with the table, and up to 64 bits
can be put into it at once. A polynomial with the top bit makes every step injective: two strings
that differ only within 64 consecutive bits have different checksums.
-/

namespace Crc

/-- One bit of the string. -/
def updateBit (poly c : UInt64) (bit : Bool) : UInt64 :=
  if (c &&& 1 == 1) ^^ bit then poly ^^^ (c >>> 1) else c >>> 1

def byteBits (b : UInt8) : List Bool := (List.range 8).map b.toNat.testBit

def bits (bytes : List UInt8) : List Bool := bytes.flatMap byteBits

/-- The checksum of a string without a table. -/
def bitwise (poly crc : UInt64) (bytes : List UInt8) : UInt64 :=
  ~~~((bits bytes).foldl (updateBit poly) (~~~crc))

/-- A list of at most 64 bits as a number, the first bit being the lowest. -/
def word (bits : List Bool) : UInt64 := bits.foldr (fun bit w => bit.toUInt64 ^^^ (w <<< 1)) 0

variable {poly : UInt64}

theorem and_one_eq_one_iff (c : UInt64) : c &&& 1 = 1 ↔ c.toNat.testBit 0 := by
  rw [← UInt64.toNat_inj, UInt64.toNat_and, UInt64.toNat_one, Nat.and_one_is_mod,
    Nat.testBit_zero, decide_eq_true_iff]

theorem toNat_shiftRight_one (c : UInt64) : (c >>> 1).toNat = c.toNat / 2 := by
  rw [UInt64.toNat_shiftRight]
  rfl

theorem shift_eq (c : UInt64) :
    shift poly c = (if c.toNat.testBit 0 then poly else 0) ^^^ (c >>> 1) := by
  unfold shift
  simp only [and_one_eq_one_iff]
  split_ifs
  · rfl
  · rw [UInt64.zero_xor]

theorem shift_xor (a b : UInt64) : shift poly (a ^^^ b) = shift poly a ^^^ shift poly b := by
  have hswap : ∀ p q : UInt64, p ^^^ a >>> 1 ^^^ (q ^^^ b >>> 1) =
      p ^^^ q ^^^ (a >>> 1 ^^^ b >>> 1) := by
    intro p q
    ac_rfl
  rw [shift_eq, shift_eq, shift_eq, UInt64.shiftRight_xor, UInt64.toNat_xor, Nat.testBit_xor,
    hswap]
  cases a.toNat.testBit 0 <;> cases b.toNat.testBit 0 <;> simp

theorem iterate_shift_xor (n : ℕ) (a b : UInt64) :
    (shift poly)^[n] (a ^^^ b) = (shift poly)^[n] a ^^^ (shift poly)^[n] b := by
  induction n generalizing a b with
  | zero => rfl
  | succ n ih =>
      rw [Function.iterate_succ_apply, shift_xor, ih]
      rfl

theorem toNat_iterate_shift {n : ℕ} {c : UInt64} (h : c.toNat % 2 ^ n = 0) :
    ((shift poly)^[n] c).toNat = c.toNat / 2 ^ n := by
  induction n generalizing c with
  | zero => exact (Nat.div_one _).symm
  | succ n ih =>
      rw [Nat.pow_succ', Nat.mod_mul] at h
      have hlow : c.toNat.testBit 0 = false := by
        rw [Nat.testBit_zero, decide_eq_false_iff_not]
        omega
      have hshift : shift poly c = c >>> 1 := by
        rw [shift_eq, hlow, if_neg Bool.false_ne_true, UInt64.zero_xor]
      have hhigh : (c >>> 1).toNat % 2 ^ n = 0 := by
        rw [toNat_shiftRight_one]
        omega
      rw [Function.iterate_succ_apply, hshift, ih hhigh, toNat_shiftRight_one,
        Nat.div_div_eq_div_mul, Nat.pow_succ']

theorem shift_injective (h : 2 ^ 63 ≤ poly.toNat) : Function.Injective (shift poly) := by
  have hzero : ∀ c, shift poly c = 0 → c = 0 := by
    intro c hc
    rw [shift_eq, UInt64.xor_eq_zero_iff] at hc
    have hnat := congrArg UInt64.toNat hc
    have hlt := c.toNat_lt
    rw [toNat_shiftRight_one] at hnat
    rw [← UInt64.toNat_inj]
    cases hlow : c.toNat.testBit 0 with
    | true =>
        rw [hlow, if_pos rfl] at hnat
        omega
    | false =>
        rw [hlow, if_neg Bool.false_ne_true, UInt64.toNat_zero] at hnat
        rw [Nat.testBit_zero, decide_eq_false_iff_not] at hlow
        rw [UInt64.toNat_zero]
        omega
  intro a b hab
  have hxor : shift poly (a ^^^ b) = 0 := by rw [shift_xor, hab, UInt64.xor_self]
  exact UInt64.xor_eq_zero_iff.mp (hzero _ hxor)

theorem updateBit_eq (c : UInt64) (bit : Bool) :
    updateBit poly c bit = shift poly (c ^^^ bit.toUInt64) := by
  have hlow : (c &&& 1 == 1) = c.toNat.testBit 0 := by
    rw [Bool.eq_iff_iff, beq_iff_eq, and_one_eq_one_iff]
  have hbit : bit.toUInt64 >>> 1 = 0 ∧ bit.toUInt64.toNat.testBit 0 = bit := by
    cases bit <;> decide
  rw [shift_eq, UInt64.shiftRight_xor, hbit.1, UInt64.xor_zero, UInt64.toNat_xor, Nat.testBit_xor,
    hbit.2]
  unfold updateBit
  rw [hlow]
  split_ifs
  · rfl
  · rw [UInt64.zero_xor]

theorem word_cons (bit : Bool) (bits : List Bool) :
    word (bit :: bits) = bit.toUInt64 ^^^ (word bits <<< 1) := rfl

theorem toNat_shiftLeft_one {w : UInt64} (h : w.toNat < 2 ^ 63) :
    (w <<< 1).toNat = 2 * w.toNat := by
  have hlt : w.toNat <<< 1 < 2 ^ 64 := by
    rw [Nat.shiftLeft_eq]
    omega
  rw [UInt64.toNat_shiftLeft]
  change w.toNat <<< 1 % 2 ^ 64 = _
  rw [Nat.mod_eq_of_lt hlt, Nat.shiftLeft_eq, Nat.mul_comm]

theorem word_lt {bits : List Bool} (h : bits.length ≤ 64) :
    (word bits).toNat < 2 ^ bits.length := by
  induction bits with
  | nil => decide
  | cons bit bits ih =>
      rw [List.length_cons] at h ⊢
      have hrest := ih (by omega)
      have hsmall : 2 ^ bits.length ≤ 2 ^ 63 := Nat.pow_le_pow_right (by decide) (by omega)
      have hbit : bit.toUInt64.toNat < 2 ^ (bits.length + 1) := by
        have hpos : 0 < 2 ^ bits.length := Nat.two_pow_pos _
        rw [Nat.pow_succ]
        cases bit with
        | false => exact Nat.mul_pos hpos (by decide)
        | true =>
            change 1 < _
            omega
      rw [word_cons, UInt64.toNat_xor]
      refine Nat.xor_lt_two_pow hbit ?_
      rw [toNat_shiftLeft_one (by omega), Nat.pow_succ]
      omega

theorem word_lt_two_pow {bits : List Bool} (h : bits.length < 64) :
    (word bits).toNat < 2 ^ 63 :=
  (word_lt (by omega)).trans_le (Nat.pow_le_pow_right (by decide) (by omega))

theorem foldl_updateBit {bits : List Bool} (h : bits.length ≤ 64) (c : UInt64) :
    bits.foldl (updateBit poly) c = (shift poly)^[bits.length] (c ^^^ word bits) := by
  induction bits generalizing c with
  | nil => exact UInt64.xor_zero.symm
  | cons bit bits ih =>
      rw [List.length_cons] at h ⊢
      have hshift : shift poly (word bits <<< 1) = word bits := by
        have htwice := toNat_shiftLeft_one (word_lt_two_pow (by omega : bits.length < 64))
        rw [← UInt64.toNat_inj]
        refine (@toNat_iterate_shift poly 1 _ (by omega)).trans ?_
        rw [htwice]
        omega
      rw [List.foldl_cons, ih (by omega), updateBit_eq, Function.iterate_succ_apply, word_cons,
        ← UInt64.xor_assoc, shift_xor _ (word bits <<< 1), hshift]

theorem toNat_shiftRight_eight (c : UInt64) : (c >>> 8).toNat = c.toNat / 256 := by
  rw [UInt64.toNat_shiftRight]
  exact Nat.shiftRight_eq_div_pow ..

theorem exists_eq_low_xor (c : UInt64) :
    ∃ rest : UInt64, c = (c &&& 0xFF) ^^^ rest ∧ rest.toNat = c.toNat / 256 * 256 := by
  have hrest : (UInt64.ofNat (c.toNat / 256 * 256)).toNat = c.toNat / 256 * 256 :=
    UInt64.toNat_ofNat_of_lt' ((Nat.div_mul_le_self _ _).trans_lt c.toNat_lt)
  refine ⟨UInt64.ofNat (c.toNat / 256 * 256), ?_, hrest⟩
  have hmask : (0xFF : UInt64).toNat = 2 ^ 8 - 1 := rfl
  have hhigh : c.toNat / 256 * 256 = (c.toNat >>> 8) <<< 8 := by
    rw [Nat.shiftLeft_eq, Nat.shiftRight_eq_div_pow]
  rw [← UInt64.toNat_inj, UInt64.toNat_xor, UInt64.toNat_and, hrest, hmask,
    Nat.and_two_pow_sub_one_eq_mod, hhigh]
  apply Nat.eq_of_testBit_eq
  intro i
  rw [Nat.testBit_xor, Nat.testBit_mod_two_pow, Nat.testBit_shiftLeft, Nat.testBit_shiftRight]
  by_cases hi : i < 8
  · have hnot : ¬ 8 ≤ i := by omega
    simp [hi, hnot]
  · have hle : 8 ≤ i := by omega
    have hadd : 8 + (i - 8) = i := by omega
    simp [hi, hle, hadd]

theorem updateByte_eq (c : UInt64) (b : UInt8) :
    updateByte poly c b = (shift poly)^[8] (c ^^^ b.toUInt64) := by
  obtain ⟨rest, hsplit, hrest⟩ := exists_eq_low_xor (c ^^^ b.toUInt64)
  have hbyte : b.toUInt64 >>> 8 = 0 := by
    rw [← UInt64.toNat_inj, toNat_shiftRight_eight, UInt8.toNat_toUInt64]
    exact Nat.div_eq_of_lt b.toNat_lt
  have hhigh : (shift poly)^[8] rest = c >>> 8 := by
    rw [← UInt64.xor_zero (a := c >>> 8), ← hbyte, ← UInt64.shiftRight_xor, ← UInt64.toNat_inj,
      toNat_iterate_shift (by omega), hrest, toNat_shiftRight_eight]
    omega
  conv_rhs => rw [hsplit, iterate_shift_xor, hhigh]
  rfl

theorem length_byteBits (b : UInt8) : (byteBits b).length = 8 := by
  rw [byteBits, List.length_map, List.length_range]

theorem word_byteBits (b : UInt8) : word (byteBits b) = b.toUInt64 := by
  have hall : ∀ n < 256, word (byteBits (UInt8.ofNat n)) = (UInt8.ofNat n).toUInt64 := by
    decide +kernel
  have hb := hall b.toNat b.toNat_lt
  rwa [UInt8.ofNat_toNat] at hb

theorem foldl_byteBits (c : UInt64) (b : UInt8) :
    (byteBits b).foldl (updateBit poly) c = updateByte poly c b := by
  have hle : (byteBits b).length ≤ 64 := by
    rw [length_byteBits]
    decide
  rw [foldl_updateBit hle, word_byteBits, length_byteBits, updateByte_eq]

/-- The table gives the checksum that the bits give one by one. -/
theorem update_eq_bitwise (poly crc : UInt64) (bytes : List UInt8) :
    update poly crc bytes = bitwise poly crc bytes := by
  unfold update bitwise bits
  rw [List.foldl_flatMap]
  simp only [foldl_byteBits]

theorem foldl_update (poly crc : UInt64) (pieces : List (List UInt8)) :
    pieces.foldl (update poly) crc = update poly crc pieces.flatten := by
  induction pieces generalizing crc with
  | nil => exact (update_nil poly crc).symm
  | cons piece pieces ih => rw [List.foldl_cons, ih, update_append, List.flatten_cons]

theorem word_injective {bits bits' : List Bool} (h : bits.length ≤ 64)
    (hlength : bits.length = bits'.length) (hword : word bits = word bits') : bits = bits' := by
  induction bits generalizing bits' with
  | nil => exact (List.eq_nil_of_length_eq_zero hlength.symm).symm
  | cons bit bits ih =>
      cases bits' with
      | nil => cases hlength
      | cons bit' bits' =>
          rw [List.length_cons] at h
          rw [List.length_cons, List.length_cons, Nat.add_right_cancel_iff] at hlength
          have htwice := toNat_shiftLeft_one (word_lt_two_pow (by omega : bits.length < 64))
          have htwice' := toNat_shiftLeft_one (word_lt_two_pow (by omega : bits'.length < 64))
          have hlow : ∀ (bit : Bool) (w : UInt64), w.toNat % 2 = 0 →
              (bit.toUInt64 ^^^ w).toNat.testBit 0 = bit := by
            intro bit w hw
            have hbit : bit.toUInt64.toNat.testBit 0 = bit := by cases bit <;> decide
            have heven : w.toNat.testBit 0 = false := by
              rw [Nat.testBit_zero, hw]
              rfl
            rw [UInt64.toNat_xor, Nat.testBit_xor, hbit, heven, Bool.xor_false]
          rw [word_cons, word_cons] at hword
          obtain rfl : bit = bit' := by
            rw [← hlow bit (word bits <<< 1) (by omega), hword, hlow bit' _ (by omega)]
          have hrest := congrArg UInt64.toNat ((UInt64.xor_right_inj _).mp hword)
          rw [ih (by omega) hlength (UInt64.toNat_inj.mp (by omega))]

theorem updateBit_injective (h : 2 ^ 63 ≤ poly.toNat) (bit : Bool) :
    Function.Injective fun c => updateBit poly c bit := by
  intro c c' hc
  dsimp only at hc
  rw [updateBit_eq, updateBit_eq] at hc
  exact (UInt64.xor_left_inj _).mp (shift_injective h hc)

theorem foldl_updateBit_injective (h : 2 ^ 63 ≤ poly.toNat) (bits : List Bool) :
    Function.Injective fun c => bits.foldl (updateBit poly) c := by
  induction bits with
  | nil => exact Function.injective_id
  | cons bit bits ih => exact ih.comp (updateBit_injective h bit)

/-- The lists have the same length, and the places where they differ are among `n` consecutive
ones. -/
def DiffersOnlyWithin {α : Type} (n : ℕ) (l l' : List α) : Prop :=
  l.length = l'.length ∧ ∃ i, ∀ j, l[j]? ≠ l'[j]? → i ≤ j ∧ j < i + n

theorem DiffersOnlyWithin.exists_eq_append {α : Type} {n : ℕ} {l l' : List α}
    (h : DiffersOnlyWithin n l l') :
    ∃ front mid mid' back, l = front ++ (mid ++ back) ∧ l' = front ++ (mid' ++ back) ∧
      mid.length = mid'.length ∧ mid.length ≤ n := by
  obtain ⟨hlength, i, hi⟩ := h
  have hfront : l.take i = l'.take i := by
    apply List.ext_getElem?
    intro j
    rw [List.getElem?_take, List.getElem?_take]
    split_ifs with hj
    · by_contra hne
      have := (hi j hne).1
      omega
    · rfl
  have hback : (l.drop i).drop n = (l'.drop i).drop n := by
    apply List.ext_getElem?
    intro j
    rw [List.drop_drop, List.drop_drop, List.getElem?_drop, List.getElem?_drop]
    by_contra hne
    have := (hi _ hne).2
    omega
  refine ⟨l.take i, (l.drop i).take n, (l'.drop i).take n, (l.drop i).drop n, ?_, ?_, ?_, ?_⟩
  · rw [List.take_append_drop, List.take_append_drop]
  · rw [hfront, hback, List.take_append_drop, List.take_append_drop]
  · rw [List.length_take, List.length_take, List.length_drop, List.length_drop, hlength]
  · exact List.length_take_le ..

theorem foldl_updateBit_burst (h : 2 ^ 63 ≤ poly.toNat) {bits bits' : List Bool}
    (hburst : DiffersOnlyWithin 64 bits bits') (hne : bits ≠ bits') (c : UInt64) :
    bits.foldl (updateBit poly) c ≠ bits'.foldl (updateBit poly) c := by
  obtain ⟨front, mid, mid', back, rfl, rfl, hlength, hle⟩ := hburst.exists_eq_append
  intro heq
  rw [List.foldl_append, List.foldl_append, List.foldl_append, List.foldl_append] at heq
  generalize front.foldl (updateBit poly) c = c at heq
  have hmid := foldl_updateBit_injective h back heq
  rw [foldl_updateBit hle, foldl_updateBit (hlength ▸ hle), ← hlength] at hmid
  have hword := (UInt64.xor_right_inj _).mp ((shift_injective h).iterate _ hmid)
  rw [word_injective hle hlength hword] at hne
  exact hne rfl

theorem differsOnlyWithin_of_eq_append {α : Type} {n : ℕ} {front mid mid' back : List α}
    (hlength : mid.length = mid'.length) (hle : mid.length ≤ n) :
    DiffersOnlyWithin n (front ++ (mid ++ back)) (front ++ (mid' ++ back)) := by
  refine ⟨by simp [hlength], front.length, fun j hj => ?_⟩
  by_contra hout
  apply hj
  by_cases hfront : j < front.length
  · rw [List.getElem?_append_left hfront, List.getElem?_append_left hfront]
  · rw [List.getElem?_append_right (by omega), List.getElem?_append_right (by omega),
      List.getElem?_append_right (by omega), List.getElem?_append_right (by omega), hlength]

theorem length_bits (bytes : List UInt8) : (bits bytes).length = 8 * bytes.length := by
  induction bytes with
  | nil => rfl
  | cons b bytes ih =>
      unfold bits at ih ⊢
      rw [List.flatMap_cons, List.length_append, ih, length_byteBits, List.length_cons]
      omega

theorem bits_append (bytes bytes' : List UInt8) :
    bits (bytes ++ bytes') = bits bytes ++ bits bytes' :=
  List.flatMap_append

theorem bits_injective : Function.Injective bits := by
  intro bytes bytes' h
  induction bytes generalizing bytes' with
  | nil =>
      have hlength := congrArg List.length h
      rw [length_bits, length_bits, List.length_nil] at hlength
      exact (List.eq_nil_of_length_eq_zero (by omega)).symm
  | cons b bytes ih =>
      cases bytes' with
      | nil => cases h
      | cons b' bytes' =>
          have hsplit : byteBits b ++ bits bytes = byteBits b' ++ bits bytes' := h
          obtain ⟨hbyte, hrest⟩ := List.append_inj hsplit (by rw [length_byteBits, length_byteBits])
          have hword := congrArg word hbyte
          rw [word_byteBits, word_byteBits] at hword
          rw [UInt8.toUInt64_inj.mp hword, ih hrest]

theorem DiffersOnlyWithin.bits {n : ℕ} {bytes bytes' : List UInt8}
    (h : DiffersOnlyWithin n bytes bytes') :
    DiffersOnlyWithin (8 * n) (bits bytes) (bits bytes') := by
  obtain ⟨front, mid, mid', back, rfl, rfl, hlength, hle⟩ := h.exists_eq_append
  rw [bits_append, bits_append, bits_append, bits_append]
  apply differsOnlyWithin_of_eq_append
  · rw [length_bits, length_bits, hlength]
  · rw [length_bits]
    omega

/-- A burst of up to 64 bits changes the checksum. -/
theorem update_burst (h : 2 ^ 63 ≤ poly.toNat) {bytes bytes' : List UInt8}
    (hburst : DiffersOnlyWithin 64 (Crc.bits bytes) (Crc.bits bytes')) (hne : bytes ≠ bytes')
    (crc : UInt64) : update poly crc bytes ≠ update poly crc bytes' := by
  rw [update_eq_bitwise, update_eq_bitwise]
  intro heq
  exact foldl_updateBit_burst h hburst (bits_injective.ne hne) _ (UInt64.not_inj.mp heq)

end Crc
