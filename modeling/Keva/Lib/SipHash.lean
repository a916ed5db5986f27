import Keva.Lib.LittleEndian
import Mathlib.Logic.Function.Iterate

/-!
# SipHash-c-d

The message is padded with zero bytes to one byte less than a multiple of 8, and the last byte tells
its length modulo 256. The words of the padded message are absorbed one after the other with `c`
rounds each, and `d` rounds finish.
-/

namespace SipHash

structure State where
  v0 : UInt64
  v1 : UInt64
  v2 : UInt64
  v3 : UInt64

def rotateLeft (x : UInt64) (r : ℕ) : UInt64 := ⟨x.toBitVec.rotateLeft r⟩

/-- The two halves of a round work side by side. -/
def round (s : State) : State :=
  let v0 := s.v0 + s.v1
  let v2 := s.v2 + s.v3
  let v1 := rotateLeft s.v1 13 ^^^ v0
  let v3 := rotateLeft s.v3 16 ^^^ v2
  let v0 := rotateLeft v0 32 + v3
  let v2 := v2 + v1
  let v1 := rotateLeft v1 17 ^^^ v2
  let v3 := rotateLeft v3 21 ^^^ v0
  ⟨v0, v1, rotateLeft v2 32, v3⟩

def init (k0 k1 : UInt64) : State where
  v0 := k0 ^^^ 0x736f6d6570736575
  v1 := k1 ^^^ 0x646f72616e646f6d
  v2 := k0 ^^^ 0x6c7967656e657261
  v3 := k1 ^^^ 0x7465646279746573

def absorb (c : ℕ) (s : State) (m : UInt64) : State :=
  let s := round^[c] { s with v3 := s.v3 ^^^ m }
  { s with v0 := s.v0 ^^^ m }

def finish (d : ℕ) (s : State) : UInt64 :=
  let s := round^[d] { s with v2 := s.v2 ^^^ 0xFF }
  s.v0 ^^^ s.v1 ^^^ s.v2 ^^^ s.v3

def pad (message : List UInt8) : List UInt8 :=
  message ++ List.replicate (7 - message.length % 8) 0 ++ [UInt8.ofNat (message.length % 256)]

/-- The bytes from `8 * i` on as a little-endian number. -/
def word (bytes : List UInt8) (i : ℕ) : UInt64 :=
  UInt64.ofNat (LittleEndian.decode ((bytes.drop (8 * i)).take 8))

def words (bytes : List UInt8) : List UInt64 := (List.range (bytes.length / 8)).map (word bytes)

def hash (c d : ℕ) (k0 k1 : UInt64) (message : List UInt8) : UInt64 :=
  finish d ((words (pad message)).foldl (absorb c) (init k0 k1))

-- the test vector that is published for SipHash-2-4
example : hash 2 4 0x0706050403020100 0x0f0e0d0c0b0a0908
    [0, 1, 2, 3, 4, 5, 6, 7, 8, 9, 10, 11, 12, 13, 14] = 0xa129ca6149be45e5 := by decide +kernel

theorem length_pad (message : List UInt8) :
    (pad message).length = 8 * (message.length / 8 + 1) := by
  rw [pad, List.length_append, List.length_append, List.length_replicate, List.length_singleton]
  omega

theorem word_append_left {bytes : List UInt8} (bytes' : List UInt8) {i : ℕ}
    (h : 8 * i + 8 ≤ bytes.length) : word (bytes ++ bytes') i = word bytes i := by
  have hroom : 8 ≤ (bytes.drop (8 * i)).length := by
    rw [List.length_drop]
    omega
  rw [word, word, List.drop_append_of_le_length (by omega), List.take_append_of_le_length hroom]

theorem word_drop (bytes : List UInt8) (i : ℕ) : word (bytes.drop 8) i = word bytes (i + 1) := by
  have hsum : 8 + 8 * i = 8 * (i + 1) := by omega
  rw [word, word, List.drop_drop, hsum]

theorem words_pad (message : List UInt8) :
    words (pad message) = (List.range (message.length / 8)).map (word message) ++
      [UInt64.ofNat (LittleEndian.decode (message.drop (8 * (message.length / 8))) +
        256 ^ 7 * (message.length % 256))] := by
  have hcount : (pad message).length / 8 = message.length / 8 + 1 := by
    rw [length_pad]
    omega
  have hrest : (message.drop (8 * (message.length / 8))).length = message.length % 8 := by
    rw [List.length_drop]
    omega
  have hfront : ∀ i ∈ List.range (message.length / 8), word (pad message) i = word message i := by
    intro i hi
    rw [List.mem_range] at hi
    rw [pad, List.append_assoc]
    exact word_append_left _ (by omega)
  have hbyte : (UInt8.ofNat (message.length % 256)).toNat = message.length % 256 :=
    UInt8.toNat_ofNat_of_lt' (Nat.mod_lt _ (by decide))
  have hpow : 256 ^ (message.length % 8) * 256 ^ (7 - message.length % 8) = 256 ^ 7 := by
    rw [← pow_add]
    congr 1
    omega
  have hlast : word (pad message) (message.length / 8) =
      UInt64.ofNat (LittleEndian.decode (message.drop (8 * (message.length / 8))) +
        256 ^ 7 * (message.length % 256)) := by
    have hall : ((pad message).drop (8 * (message.length / 8))).length ≤ 8 := by
      rw [List.length_drop, length_pad]
      omega
    rw [word, List.take_of_length_le hall, pad, List.append_assoc,
      List.drop_append_of_le_length (by omega), LittleEndian.decode_append,
      LittleEndian.decode_append, LittleEndian.decode_replicate_zero, LittleEndian.decode_cons,
      hbyte, hrest, List.length_replicate, Nat.zero_add, ← Nat.mul_assoc, hpow]
    rfl
  rw [words, hcount, List.range_succ, List.map_append, List.map_congr_left hfront,
    List.map_singleton, hlast]

end SipHash
