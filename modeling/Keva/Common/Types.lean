import Keva.Lib.Decimal

/-!
# Primitive types, constants and decimal conversion

`Bytes` is the content of a `std::string`, a `std::string_view` or a `Buffer`. `fromChars` and
`toChars` follow the C++ standard for `i64` in base ten: `from_chars` reads the longest numeral at
the front and says where it stopped, `to_chars` writes the shortest one.
-/

namespace Keva

abbrev Bytes := List UInt8

abbrev MillisecondTimestamp := Int64

/-- The bytes of an ASCII string literal. -/
def ascii (s : String) : Bytes := s.toList.map (fun c => UInt8.ofNat c.toNat)

def crlf : Bytes := [13, 10]

/-- `std::string::max_size()`: no string or vector of bytes is longer. -/
def maxSize : ℕ := 2 ^ 63 - 1

namespace constants

def readBufferSize : ℕ := 16 * 1024

def activeExpireSampleSize : ℕ := 20

def lruClockMax : UInt32 := (1 : UInt32) <<< 24

def embstrMaxLen : ℕ := 44

end constants

/-- `std::toupper` in the "C" locale, on one byte. -/
def toUpper (b : UInt8) : UInt8 := if 97 ≤ b ∧ b ≤ 122 then b - 32 else b

theorem toUpper_toUpper (b : UInt8) : toUpper (toUpper b) = toUpper b := by
  by_cases h : 97 ≤ b ∧ b ≤ 122
  · have h1 : toUpper b = b - 32 := if_pos h
    rw [h1, toUpper, if_neg]
    simp only [UInt8.le_iff_toNat_le, UInt8.toNat_sub, UInt8.reduceToNat] at h ⊢
    omega
  · have h1 : toUpper b = b := if_neg h
    rw [h1, h1]

theorem map_toUpper_map_toUpper (s : Bytes) : (s.map toUpper).map toUpper = s.map toUpper := by
  rw [List.map_map]
  exact List.map_congr_left (fun b _ => toUpper_toUpper b)

inductive Errc
  | invalidArgument
  | resultOutOfRange
  deriving DecidableEq, Repr

def fromChars (s : Bytes) : Except Errc (Int64 × Bytes) :=
  match Decimal.scanInt s with
  | none => .error .invalidArgument
  | some (z, rest) =>
      if Int64.minValue.toInt ≤ z ∧ z ≤ Int64.maxValue.toInt then .ok (Int64.ofInt z, rest)
      else .error .resultOutOfRange

def toChars (n : Int64) : Bytes := Decimal.renderInt n.toInt

theorem toInt_mem_range (n : Int64) :
    Int64.minValue.toInt ≤ n.toInt ∧ n.toInt ≤ Int64.maxValue.toInt :=
  ⟨Int64.minValue_le_toInt n, Int64.toInt_le n⟩

theorem fromChars_toChars (n : Int64) (rest : Bytes)
    (hr : ∀ b, rest.head? = some b → Decimal.isDigit b = false) :
    fromChars (toChars n ++ rest) = .ok (n, rest) := by
  rw [fromChars, toChars, Decimal.scanInt_renderInt _ _ hr]
  simp only [toInt_mem_range, and_self, if_true, Int64.ofInt_toInt]

theorem fromChars_toChars_self (n : Int64) : fromChars (toChars n) = .ok (n, []) := by
  simpa using fromChars_toChars n [] (by simp)

theorem length_toChars_le (n : Int64) : (toChars n).length ≤ 20 := by
  have hb := toInt_mem_range n
  have hmin : Int64.minValue.toInt = -9223372036854775808 := by decide
  have hmax : Int64.maxValue.toInt = 9223372036854775807 := by decide
  exact Decimal.length_renderInt_le (by decide) (by omega)

theorem toChars_ne_nil (n : Int64) : toChars n ≠ [] := Decimal.renderInt_ne_nil _

theorem scanInt_of_fromChars {s rest : Bytes} {n : Int64} (h : fromChars s = .ok (n, rest)) :
    Decimal.scanInt s = some (n.toInt, rest) := by
  rw [fromChars] at h
  cases hs : Decimal.scanInt s with
  | none => rw [hs] at h; cases h
  | some p =>
      obtain ⟨z, r⟩ := p
      rw [hs] at h
      simp only at h
      split_ifs at h with hz
      obtain ⟨rfl, rfl⟩ := Prod.mk.inj (Except.ok.inj h)
      rw [Int64.toInt_ofInt_of_le hz.1 (by have := hz.2; rw [Int64.toInt_maxValue] at this; omega)]

theorem fromChars_eq_ok_nil_iff {s : Bytes} {n : Int64} :
    fromChars s = .ok (n, []) ↔ Decimal.Numeral s n.toInt := by
  rw [← Decimal.scanInt_eq_some_nil_iff]
  constructor
  · exact scanInt_of_fromChars
  · intro h
    rw [fromChars, h]
    dsimp only
    rw [if_pos (toInt_mem_range n), Int64.ofInt_toInt]

theorem toChars_eq_iff {s : Bytes} {n : Int64} (h : fromChars s = .ok (n, [])) :
    toChars n = s ↔ ¬ Decimal.Redundant s :=
  Decimal.renderInt_eq_iff (scanInt_of_fromChars h)

end Keva
