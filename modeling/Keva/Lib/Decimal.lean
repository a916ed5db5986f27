import Mathlib.Data.Nat.Digits.Lemmas
import Mathlib.Data.List.TakeWhile

/-!
# Signed decimal numerals over ASCII bytes

`renderInt` writes an integer as the shortest decimal numeral. `scanInt` reads the longest numeral
at the front of a byte string: an optional minus sign and a nonempty run of digits, with no plus
sign and no white space. Reading what was written gives the integer back, and writing what was read
gives the text back exactly when the text has no redundant zero.
-/

namespace Decimal

def isDigit (b : UInt8) : Bool := 48 ≤ b.toNat && b.toNat ≤ 57

def digitVal (b : UInt8) : ℕ := b.toNat - 48

def digitByte (d : ℕ) : UInt8 := UInt8.ofNat (48 + d)

def minus : UInt8 := 45

def renderNat (n : ℕ) : List UInt8 :=
  if n = 0 then [48] else ((Nat.digits 10 n).map digitByte).reverse

def valueOf (ds : List UInt8) : ℕ := ds.foldl (fun acc b => 10 * acc + digitVal b) 0

def renderInt (z : ℤ) : List UInt8 :=
  if z < 0 then minus :: renderNat z.natAbs else renderNat z.natAbs

/-- The sign and the digit run at the front of `s`, with what follows them. -/
def scanInt (s : List UInt8) : Option (ℤ × List UInt8) :=
  let negative := s.head? = some minus
  let body := if negative then s.tail else s
  let ds := body.takeWhile isDigit
  if ds = [] then none
  else some (if negative then -(valueOf ds : ℤ) else valueOf ds, body.dropWhile isDigit)

/-- A numeral with a zero that its value does not need: a leading zero before another digit, or a
minus sign before a leading zero. -/
def Redundant (s : List UInt8) : Prop :=
  if s.head? = some minus then s.tail.head? = some 48 else s.head? = some 48 ∧ 1 < s.length

instance : DecidablePred Redundant := fun s => by
  unfold Redundant
  infer_instance

theorem digitByte_toNat {d : ℕ} (hd : d < 10) : (digitByte d).toNat = 48 + d := by
  rw [digitByte, UInt8.toNat_ofNat']
  omega

theorem isDigit_digitByte {d : ℕ} (hd : d < 10) : isDigit (digitByte d) = true := by
  simp only [isDigit, digitByte_toNat hd, Bool.and_eq_true, decide_eq_true_eq]
  omega

theorem digitVal_digitByte {d : ℕ} (hd : d < 10) : digitVal (digitByte d) = d := by
  rw [digitVal, digitByte_toNat hd]
  omega

theorem digitByte_digitVal {b : UInt8} (hb : isDigit b = true) : digitByte (digitVal b) = b := by
  simp only [isDigit, Bool.and_eq_true, decide_eq_true_eq] at hb
  apply UInt8.toNat_inj.mp
  rw [digitByte, digitVal, UInt8.toNat_ofNat']
  omega

theorem digitVal_lt {b : UInt8} (hb : isDigit b = true) : digitVal b < 10 := by
  simp only [isDigit, Bool.and_eq_true, decide_eq_true_eq] at hb
  rw [digitVal]
  omega

theorem isDigit_minus : isDigit minus = false := by decide

theorem valueOf_eq_ofDigits (ds : List UInt8) :
    valueOf ds = Nat.ofDigits 10 (ds.map digitVal).reverse := by
  have hfold : ∀ (l : List UInt8) (acc : ℕ),
      l.foldl (fun acc b => 10 * acc + digitVal b) acc =
        Nat.ofDigits 10 ((l.map digitVal).reverse ++ Nat.digits 10 0) + acc * 10 ^ l.length := by
    intro l
    induction l with
    | nil => intro acc; simp
    | cons b l ih =>
        intro acc
        rw [List.foldl_cons, ih]
        simp only [List.map_cons, List.reverse_cons, Nat.digits_zero, List.append_nil,
          Nat.ofDigits_append, List.length_reverse, List.length_map, List.length_cons,
          Nat.ofDigits_singleton]
        ring
  simpa [valueOf] using hfold ds 0

theorem renderNat_isDigit (n : ℕ) : ∀ b ∈ renderNat n, isDigit b = true := by
  intro b hb
  by_cases hn : n = 0
  · simp only [renderNat, hn, if_true, List.mem_singleton] at hb
    subst hb
    decide
  · simp only [renderNat, hn, if_false, List.mem_reverse, List.mem_map] at hb
    obtain ⟨d, hd, rfl⟩ := hb
    exact isDigit_digitByte (Nat.digits_lt_base (by decide) hd)

theorem renderNat_ne_nil (n : ℕ) : renderNat n ≠ [] := by
  by_cases hn : n = 0
  · simp [renderNat, hn]
  · simpa [renderNat, hn] using Nat.digits_ne_nil_iff_ne_zero.mpr hn

theorem valueOf_renderNat (n : ℕ) : valueOf (renderNat n) = n := by
  by_cases hn : n = 0
  · subst hn; decide
  · have hmap : ((Nat.digits 10 n).map digitByte).map digitVal = Nat.digits 10 n := by
      rw [List.map_map]
      conv_rhs => rw [← List.map_id (Nat.digits 10 n)]
      apply List.map_congr_left
      intro d hd
      exact digitVal_digitByte (Nat.digits_lt_base (by decide) hd)
    rw [valueOf_eq_ofDigits, renderNat, if_neg hn, List.map_reverse, List.reverse_reverse, hmap,
      Nat.ofDigits_digits]

theorem renderNat_head (n : ℕ) : (renderNat n).head? = some 48 ↔ n = 0 := by
  by_cases hn : n = 0
  · simp [renderNat, hn]
  · simp only [renderNat, hn, if_false, iff_false, List.head?_reverse, List.getLast?_map]
    rw [List.getLast?_eq_some_getLast (Nat.digits_ne_nil_iff_ne_zero.mpr hn)]
    have hlt := Nat.digits_lt_base (b := 10) (m := n) (by decide)
      (List.getLast_mem (Nat.digits_ne_nil_iff_ne_zero.mpr hn))
    have hne := Nat.getLast_digit_ne_zero 10 hn
    intro h
    have h48 := congrArg UInt8.toNat (Option.some.inj h)
    rw [digitByte_toNat hlt] at h48
    have : (48 : UInt8).toNat = 48 := rfl
    omega

theorem renderNat_valueOf {ds : List UInt8} (hd : ∀ b ∈ ds, isDigit b = true) (hne : ds ≠ [])
    (hz : ds.head? ≠ some 48) : renderNat (valueOf ds) = ds := by
  have hlast : ∀ h : (ds.map digitVal).reverse ≠ [],
      (ds.map digitVal).reverse.getLast h ≠ 0 := by
    intro h he
    obtain ⟨b, t, rfl⟩ := List.exists_cons_of_ne_nil hne
    have hb := digitByte_digitVal (hd b (List.mem_cons_self))
    have hv : digitVal b = 0 := by simpa using he
    rw [hv] at hb
    exact hz (by simpa [digitByte] using hb.symm)
  have hlt : ∀ d ∈ (ds.map digitVal).reverse, d < 10 := by
    intro d hmem
    obtain ⟨b, hb, rfl⟩ := List.mem_map.mp (List.mem_reverse.mp hmem)
    exact digitVal_lt (hd b hb)
  have hdig : Nat.digits 10 (valueOf ds) = (ds.map digitVal).reverse := by
    rw [valueOf_eq_ofDigits]
    exact Nat.digits_ofDigits 10 (by decide) _ hlt hlast
  have hv0 : valueOf ds ≠ 0 := by
    intro h0
    rw [h0, Nat.digits_zero] at hdig
    exact hne (by simpa using hdig.symm)
  rw [renderNat, if_neg hv0, hdig, ← List.map_reverse, List.reverse_reverse, List.map_map]
  conv_rhs => rw [← List.map_id ds]
  exact List.map_congr_left (fun b hb => digitByte_digitVal (hd b hb))

theorem length_renderNat_le {n k : ℕ} (hk : 0 < k) (h : n < 10 ^ k) : (renderNat n).length ≤ k := by
  by_cases hn : n = 0
  · simp only [renderNat, hn, if_true, List.length_singleton]
    omega
  · rw [renderNat, if_neg hn, List.length_reverse, List.length_map]
    exact (Nat.digits_length_le_iff (by decide) n).mpr h

theorem renderInt_ne_nil (z : ℤ) : renderInt z ≠ [] := by
  rw [renderInt]
  split_ifs
  · exact List.cons_ne_nil _ _
  · exact renderNat_ne_nil _

theorem renderInt_chars (z : ℤ) : ∀ b ∈ renderInt z, b = minus ∨ isDigit b = true := by
  intro b hb
  rw [renderInt] at hb
  split_ifs at hb
  · rcases List.mem_cons.mp hb with rfl | hb
    · exact Or.inl rfl
    · exact Or.inr (renderNat_isDigit _ b hb)
  · exact Or.inr (renderNat_isDigit _ b hb)

theorem takeWhile_append_of_digits {ds rest : List UInt8} (hd : ∀ b ∈ ds, isDigit b = true)
    (hr : ∀ b, rest.head? = some b → isDigit b = false) :
    (ds ++ rest).takeWhile isDigit = ds ∧ (ds ++ rest).dropWhile isDigit = rest := by
  have hrest : rest.takeWhile isDigit = [] ∧ rest.dropWhile isDigit = rest := by
    cases rest with
    | nil => simp
    | cons b t => simp [hr b rfl]
  rw [List.takeWhile_append_of_pos hd, List.dropWhile_append_of_pos hd, hrest.1, hrest.2]
  simp

theorem renderNat_valueOf_iff {ds : List UInt8} (hd : ∀ b ∈ ds, isDigit b = true) (hne : ds ≠ []) :
    renderNat (valueOf ds) = ds ↔ ¬ (ds.head? = some 48 ∧ 1 < ds.length) := by
  constructor
  · rintro he ⟨h0, hlen⟩
    have hval : valueOf ds = 0 := (renderNat_head _).mp (he.symm ▸ h0)
    rw [← he, hval] at hlen
    simp [renderNat] at hlen
  · intro hz
    by_cases h0 : ds.head? = some 48
    · have hs : ds = [48] := by
        obtain ⟨b, t, rfl⟩ := List.exists_cons_of_ne_nil hne
        cases t with
        | nil => simpa using h0
        | cons c u => exact absurd ⟨h0, by simp⟩ hz
      subst hs
      decide
    · exact renderNat_valueOf hd hne h0

theorem valueOf_eq_zero_iff_head {ds : List UInt8} (h : renderNat (valueOf ds) = ds) :
    valueOf ds = 0 ↔ ds.head? = some 48 := by
  rw [← renderNat_head, h]

/-- The whole of a text is an optional minus sign and decimal digits. -/
inductive Numeral : List UInt8 → ℤ → Prop
  | nonneg {ds : List UInt8} (hne : ds ≠ []) (hd : ∀ b ∈ ds, isDigit b = true) :
      Numeral ds (valueOf ds)
  | neg {ds : List UInt8} (hne : ds ≠ []) (hd : ∀ b ∈ ds, isDigit b = true) :
      Numeral (minus :: ds) (-(valueOf ds : ℤ))

theorem Numeral.ne_nil {s : List UInt8} {z : ℤ} (h : Numeral s z) : s ≠ [] := by
  cases h with
  | nonneg hne hd => exact hne
  | neg hne hd => exact List.cons_ne_nil _ _

theorem head_ne_minus {ds : List UInt8} (hd : ∀ b ∈ ds, isDigit b = true) :
    ds.head? ≠ some minus := by
  intro hminus
  have hdigit := hd minus (List.mem_of_head? hminus)
  rw [isDigit_minus] at hdigit
  cases hdigit

theorem Numeral.scanInt_append {s rest : List UInt8} {z : ℤ} (h : Numeral s z)
    (hr : ∀ b, rest.head? = some b → isDigit b = false) :
    scanInt (s ++ rest) = some (z, rest) := by
  cases h with
  | nonneg hne hd =>
      obtain ⟨ht, hdr⟩ := takeWhile_append_of_digits hd hr
      have hh : (s ++ rest).head? ≠ some minus := by
        rw [List.head?_append_of_ne_nil _ hne]
        exact head_ne_minus hd
      simp only [scanInt, hh, if_false, ht, hdr, hne]
  | @neg ds hne hd =>
      obtain ⟨ht, hdr⟩ := takeWhile_append_of_digits hd hr
      simp only [scanInt, List.cons_append, List.head?_cons, List.tail_cons, if_true, ht, hdr,
        hne, if_false]

theorem numeral_renderInt (z : ℤ) : Numeral (renderInt z) z := by
  have hnumeral := Numeral.nonneg (renderNat_ne_nil z.natAbs) (renderNat_isDigit z.natAbs)
  have hminus := Numeral.neg (renderNat_ne_nil z.natAbs) (renderNat_isDigit z.natAbs)
  rw [valueOf_renderNat] at hnumeral hminus
  rw [renderInt]
  split_ifs with hz
  · have hvalue : -(z.natAbs : ℤ) = z := by omega
    rwa [hvalue] at hminus
  · have hvalue : (z.natAbs : ℤ) = z := by omega
    rwa [hvalue] at hnumeral

theorem scanInt_renderInt (z : ℤ) (rest : List UInt8)
    (hr : ∀ b, rest.head? = some b → isDigit b = false) :
    scanInt (renderInt z ++ rest) = some (z, rest) :=
  (numeral_renderInt z).scanInt_append hr

theorem scanInt_eq_some_iff {s rest : List UInt8} {z : ℤ} :
    scanInt s = some (z, rest) ↔ ∃ u, s = u ++ rest ∧ Numeral u z ∧
      ∀ b, rest.head? = some b → isDigit b = false := by
  constructor
  · intro h
    have hfirst : ∀ (body : List UInt8) (b : UInt8),
        (body.dropWhile isDigit).head? = some b → isDigit b = false := by
      intro body b hb
      have hnot := List.head?_dropWhile_not isDigit body
      rw [hb] at hnot
      simpa using hnot
    have hall : ∀ (body : List UInt8), ∀ b ∈ body.takeWhile isDigit, isDigit b = true :=
      fun body b hb => List.mem_takeWhile_imp hb
    by_cases hneg : s.head? = some minus
    · obtain ⟨t, rfl⟩ : ∃ t, s = minus :: t := ⟨s.tail, List.eq_cons_of_mem_head? hneg⟩
      simp only [scanInt, List.head?_cons, if_true, List.tail_cons] at h
      split_ifs at h with hds
      obtain ⟨rfl, rfl⟩ := Prod.mk.inj (Option.some.inj h)
      refine ⟨minus :: t.takeWhile isDigit, ?_, .neg hds (hall t), hfirst t⟩
      rw [List.cons_append, List.takeWhile_append_dropWhile]
    · simp only [scanInt, hneg, if_false] at h
      split_ifs at h with hds
      obtain ⟨rfl, rfl⟩ := Prod.mk.inj (Option.some.inj h)
      exact ⟨s.takeWhile isDigit, List.takeWhile_append_dropWhile.symm, .nonneg hds (hall s),
        hfirst s⟩
  · rintro ⟨u, rfl, hu, hr⟩
    exact hu.scanInt_append hr

theorem scanInt_eq_some_nil_iff {s : List UInt8} {z : ℤ} :
    scanInt s = some (z, []) ↔ Numeral s z := by
  rw [scanInt_eq_some_iff]
  constructor
  · rintro ⟨u, rfl, hu, -⟩
    rwa [List.append_nil]
  · intro h
    exact ⟨s, (List.append_nil s).symm, h, fun b hb => by cases hb⟩

theorem renderInt_eq_iff {s : List UInt8} {z : ℤ} (h : scanInt s = some (z, [])) :
    renderInt z = s ↔ ¬ Redundant s := by
  cases scanInt_eq_some_nil_iff.mp h with
  | @neg ds hne hd =>
      have hred : Redundant (minus :: ds) ↔ ds.head? = some 48 := by simp [Redundant]
      rw [hred]
      constructor
      · intro he h0
        by_cases hv : valueOf ds = 0
        · rw [hv] at he
          cases he
        · rw [renderInt, if_pos (by omega), Int.natAbs_neg, Int.natAbs_natCast] at he
          exact hv ((valueOf_eq_zero_iff_head (List.cons.inj he).2).mpr h0)
      · intro h0
        have hback := renderNat_valueOf hd hne h0
        have hpos : valueOf ds ≠ 0 := fun hv => h0 ((valueOf_eq_zero_iff_head hback).mp hv)
        rw [renderInt, if_pos (by omega), Int.natAbs_neg, Int.natAbs_natCast, hback]
  | nonneg hne hd =>
      have hred : Redundant s ↔ s.head? = some 48 ∧ 1 < s.length := by
        simp [Redundant, head_ne_minus hd]
      rw [hred, renderInt, if_neg (by omega), Int.natAbs_natCast]
      exact renderNat_valueOf_iff hd hne

theorem length_renderInt_le {z : ℤ} {k : ℕ} (hk : 0 < k) (h : z.natAbs < 10 ^ k) :
    (renderInt z).length ≤ k + 1 := by
  have := length_renderNat_le hk h
  rw [renderInt]
  split_ifs
  · simpa using this
  · omega

end Decimal
