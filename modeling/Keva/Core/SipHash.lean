import Keva.Core.Dict
import Keva.Lib.SipHash

/-!
# The hash of a dictionary

`siphash_1_2` does not pad its input: a loop takes the whole words, and a switch puts what is left
into the low bytes of the last one. It is SipHash-1-2 all the same.
-/

namespace Keva

open SipHash (State)

def rotl64 (x r : UInt64) : UInt64 := (x <<< r) ||| (x >>> (64 - r))

def sipround (s : State) : State :=
  let v0 := s.v0 + s.v1
  let v1 := rotl64 s.v1 13
  let v1 := v1 ^^^ v0
  let v0 := rotl64 v0 32
  let v2 := s.v2 + s.v3
  let v3 := rotl64 s.v3 16
  let v3 := v3 ^^^ v2
  let v0 := v0 + v3
  let v3 := rotl64 v3 21
  let v3 := v3 ^^^ v0
  let v2 := v2 + v1
  let v1 := rotl64 v1 17
  let v1 := v1 ^^^ v2
  let v2 := rotl64 v2 32
  ⟨v0, v1, v2, v3⟩

/-- The loop over the whole words, of which so many are left. It returns the input behind them. -/
def siphashLoop : ℕ → Bytes → State → Bytes × State
  | 0, input, s => (input, s)
  | words + 1, input, s =>
      let m := UInt64.ofNat (LittleEndian.decode (input.take 8))
      let s := sipround { s with v3 := s.v3 ^^^ m }
      siphashLoop words (input.drop 8) { s with v0 := s.v0 ^^^ m }

/-- The switch. Case `n + 1` puts in `input[n]` and falls through. -/
def siphashSwitch (input : Bytes) : ℕ → UInt64 → UInt64
  | 0, last => last
  | n + 1, last =>
      siphashSwitch input n (last ||| (input.getD n 0).toUInt64 <<< UInt64.ofNat (8 * n))

def siphash12 (data : Bytes) (k0 k1 : UInt64) : UInt64 :=
  let len := data.length
  let s : State :=
    { v0 := k0 ^^^ 0x736f6d6570736575
      v1 := k1 ^^^ 0x646f72616e646f6d
      v2 := k0 ^^^ 0x6c7967656e657261
      v3 := k1 ^^^ 0x7465646279746573 }
  let (input, s) := siphashLoop (len / 8) data s
  let last := siphashSwitch input (len &&& 7) (UInt64.ofNat (len &&& 0xFF) <<< 56)
  let s := sipround { s with v3 := s.v3 ^^^ last }
  let s := { s with v0 := s.v0 ^^^ last }
  let s := sipround { s with v2 := s.v2 ^^^ 0xFF }
  let s := sipround s
  s.v0 ^^^ s.v1 ^^^ s.v2 ^^^ s.v3

theorem sipround_eq (s : State) : sipround s = SipHash.round s := by
  have h13 : ∀ x, rotl64 x 13 = SipHash.rotateLeft x 13 := fun _ => rfl
  have h16 : ∀ x, rotl64 x 16 = SipHash.rotateLeft x 16 := fun _ => rfl
  have h17 : ∀ x, rotl64 x 17 = SipHash.rotateLeft x 17 := fun _ => rfl
  have h21 : ∀ x, rotl64 x 21 = SipHash.rotateLeft x 21 := fun _ => rfl
  have h32 : ∀ x, rotl64 x 32 = SipHash.rotateLeft x 32 := fun _ => rfl
  unfold sipround SipHash.round
  dsimp only
  rw [h13, h16, h17, h21, h32, h32]

theorem siphashLoop_eq (n : ℕ) (input : Bytes) (s : State) :
    siphashLoop n input s = (input.drop (8 * n),
      ((List.range n).map (SipHash.word input)).foldl (SipHash.absorb 1) s) := by
  induction n generalizing input s with
  | zero => rfl
  | succ n ih =>
      have hwords : (List.range n).map (SipHash.word (input.drop 8)) =
          ((List.range n).map Nat.succ).map (SipHash.word input) := by
        rw [List.map_map]
        apply List.map_congr_left
        intro i _
        exact SipHash.word_drop input i
      have hround : ∀ s, SipHash.round^[1] s = sipround s := fun s => (sipround_eq s).symm
      rw [siphashLoop, ih, List.drop_drop, List.range_succ_eq_map, List.map_cons, List.foldl_cons,
        hwords, SipHash.absorb, hround, Nat.mul_succ, Nat.add_comm 8]
      rfl

theorem toNat_or_shiftLeft {n : ℕ} (hn : n < 8) {last : UInt64}
    (hlast : last.toNat % 256 ^ (n + 1) = 0) (b : UInt8) :
    (last ||| b.toUInt64 <<< UInt64.ofNat (8 * n)).toNat = last.toNat + 256 ^ n * b.toNat := by
  have hb := b.toNat_lt
  have hpow : ∀ k, 256 ^ k = 2 ^ (8 * k) := fun k => (pow_mul 2 8 k).symm
  have hle : 2 ^ (8 * n) ≤ 2 ^ 56 := Nat.pow_le_pow_right (by decide) (by omega)
  have hsmall : 2 ^ (8 * n) * b.toNat < 2 ^ (8 * (n + 1)) := by
    rw [Nat.mul_succ, pow_add]
    exact (Nat.mul_lt_mul_left (Nat.two_pow_pos _)).mpr hb
  have hlt : 2 ^ (8 * n) * b.toNat < 2 ^ 64 :=
    hsmall.trans_le (Nat.pow_le_pow_right (by decide) (by omega))
  have hshift : (b.toUInt64 <<< UInt64.ofNat (8 * n)).toNat = 2 ^ (8 * n) * b.toNat := by
    have hplace : (UInt64.ofNat (8 * n)).toNat % 64 = 8 * n := by
      rw [UInt64.toNat_ofNat_of_lt' ((by omega : 8 * n < 2 ^ 64)), Nat.mod_eq_of_lt (by omega)]
    rw [UInt64.toNat_shiftLeft, hplace, UInt8.toNat_toUInt64, Nat.shiftLeft_eq, Nat.mul_comm,
      Nat.mod_eq_of_lt hlt]
  obtain ⟨q, hq⟩ := Nat.dvd_of_mod_eq_zero hlast
  rw [UInt64.toNat_or, hshift, hq, hpow, hpow]
  exact (Nat.two_pow_add_eq_or_of_lt hsmall q).symm

theorem toNat_siphashSwitch (input : Bytes) {n : ℕ} (hn : n ≤ 7) (hlength : n ≤ input.length)
    {last : UInt64} (hlast : last.toNat % 256 ^ n = 0) :
    (siphashSwitch input n last).toNat = last.toNat + LittleEndian.decode (input.take n) := by
  induction n generalizing last with
  | zero => rfl
  | succ n ih =>
      have hnil : LittleEndian.decode [] = 0 := rfl
      have hor := toNat_or_shiftLeft (by omega : n < 8) hlast (input.getD n 0)
      have hzero : (last ||| (input.getD n 0).toUInt64 <<< UInt64.ofNat (8 * n)).toNat % 256 ^ n =
          0 := by
        rw [hor, Nat.add_mul_mod_self_left]
        exact Nat.mod_eq_zero_of_dvd ((pow_dvd_pow 256 (Nat.le_succ n)).trans
          (Nat.dvd_of_mod_eq_zero hlast))
      have htake : input.take (n + 1) = input.take n ++ [input.getD n 0] := by
        have hget : input[n]? = some (input.getD n 0) := by
          rw [List.getD_eq_getElem?_getD, List.getElem?_eq_getElem (by omega)]
          rfl
        rw [List.take_add_one, hget]
        rfl
      rw [siphashSwitch, ih (by omega) (by omega) hzero, hor, htake, LittleEndian.decode_append,
        List.length_take_of_le (by omega), LittleEndian.decode_cons, hnil, Nat.mul_zero,
        Nat.add_zero, Nat.add_right_comm, Nat.add_assoc]

theorem siphashSwitch_eq (data : Bytes) :
    siphashSwitch (data.drop (8 * (data.length / 8))) (data.length &&& 7)
        (UInt64.ofNat (data.length &&& 0xFF) <<< 56) =
      UInt64.ofNat (LittleEndian.decode (data.drop (8 * (data.length / 8))) +
        256 ^ 7 * (data.length % 256)) := by
  have hseven : data.length &&& 7 = data.length % 8 := Nat.and_two_pow_sub_one_eq_mod _ 3
  have hmask : data.length &&& 0xFF = data.length % 256 := Nat.and_two_pow_sub_one_eq_mod _ 8
  have hrest : (data.drop (8 * (data.length / 8))).length = data.length % 8 := by
    rw [List.length_drop]
    omega
  have hlow := LittleEndian.decode_lt (data.drop (8 * (data.length / 8)))
  have hpow : 256 ^ (data.length % 8) ≤ 256 ^ 7 := Nat.pow_le_pow_right (by decide) (by omega)
  have hhigh : (UInt64.ofNat (data.length % 256) <<< 56).toNat = 256 ^ 7 * (data.length % 256) := by
    have hplace : (56 : UInt64).toNat % 64 = 56 := rfl
    rw [UInt64.toNat_shiftLeft, UInt64.toNat_ofNat_of_lt' (by omega : data.length % 256 < 2 ^ 64),
      hplace, Nat.shiftLeft_eq, Nat.mul_comm]
    exact Nat.mod_eq_of_lt (by omega)
  have hzero : (UInt64.ofNat (data.length % 256) <<< 56).toNat % 256 ^ (data.length % 8) = 0 := by
    rw [hhigh]
    exact Nat.mod_eq_zero_of_dvd (Dvd.dvd.mul_right (pow_dvd_pow 256 (by omega)) _)
  rw [hrest] at hlow
  rw [hseven, hmask, ← UInt64.toNat_inj, toNat_siphashSwitch _ (by omega) hrest.ge hzero, hhigh,
    ← hrest, List.take_length, Nat.add_comm]
  have hlt : LittleEndian.decode (data.drop (8 * (data.length / 8))) +
      256 ^ 7 * (data.length % 256) < 2 ^ 64 := by omega
  exact (UInt64.toNat_ofNat_of_lt' hlt).symm

theorem siphash12_eq_hash (data : Bytes) (k0 k1 : UInt64) :
    siphash12 data k0 k1 = SipHash.hash 1 2 k0 k1 data := by
  have hround : ∀ s, SipHash.round^[1] s = sipround s := fun s => (sipround_eq s).symm
  have hrounds : ∀ s, SipHash.round^[2] s = sipround (sipround s) := by
    intro s
    rw [sipround_eq, sipround_eq]
    rfl
  unfold siphash12 SipHash.hash
  dsimp only
  rw [siphashLoop_eq, siphashSwitch_eq, SipHash.words_pad, List.foldl_append, List.foldl_cons,
    List.foldl_nil, SipHash.finish, SipHash.absorb, hround, hrounds]
  rfl

/-- `seed_hash` sets the key of the hash function. -/
def Dict.seedHash {V : Type} (d : Dict V) (k0 k1 : UInt64) : Dict V :=
  { d with params := { d.params with hash := fun key => siphash12 key k0 k1 } }

/-- `siphash_1_2` is the published function for every key and every string, and so is the hash of a
dictionary with that key. -/
theorem siphash12_is_sipHash (k0 k1 : UInt64) (data : Bytes) :
    siphash12 data k0 k1 = SipHash.hash 1 2 k0 k1 data ∧
      ∀ (V : Type) (d : Dict V), (d.seedHash k0 k1).hash data = SipHash.hash 1 2 k0 k1 data :=
  ⟨siphash12_eq_hash data k0 k1, fun _ _ => siphash12_eq_hash data k0 k1⟩

end Keva
