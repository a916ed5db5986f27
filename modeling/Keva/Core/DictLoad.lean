import Keva.Core.DictMap

/-!
# Sizes of the tables and the migration cursor

`Load` keeps of a `Dict` how many buckets and entries there are and how far a migration has come.
Every operation of a `Dict` moves its `Load` by one opening `rehash_step` and then by one insertion
or one removal or not at all, so that what is bounded by these numbers can be proved of them alone.
-/

namespace Keva

open DictHashTable

/-- One table, or two tables with `stored` entries together and the cursor in the first of them. -/
inductive Load
  | idle (buckets used : ℕ)
  | moving (buckets target stored cursor : ℕ)

namespace Load

def isMoving : Load → Bool
  | idle _ _ => false
  | moving _ _ _ _ => true

/-- The number of entries. -/
def stored : Load → ℕ
  | idle _ used => used
  | moving _ _ stored _ => stored

/-- What a `rehash_step` for `steps` buckets can do: the cursor goes on and stays inside the table,
or the migration is complete. -/
inductive Advances (steps : ℤ) : Load → Load → Prop
  | idle (buckets used : ℕ) : Advances steps (.idle buckets used) (.idle buckets used)
  | goesOn {buckets target stored cursor cursor' : ℕ} (hle : cursor ≤ cursor')
      (hlt : 0 < steps → cursor < cursor') (hin : cursor' < buckets) :
      Advances steps (.moving buckets target stored cursor)
        (.moving buckets target stored cursor')
  | completes (buckets target stored cursor : ℕ) :
      Advances steps (.moving buckets target stored cursor) (.idle target stored)

/-- A new entry, and then `maybe_expand`. -/
def insert (P : DictParams) : Load → Load
  | idle buckets used =>
      if P.overloaded (used + 1) buckets then
        moving buckets (Nat.nextPowerOfTwo ((used + 1) * 2)) (used + 1) 0
      else idle buckets (used + 1)
  | moving buckets target stored cursor => moving buckets target (stored + 1) cursor

/-- An entry less, and then `maybe_shrink`. -/
def remove (P : DictParams) : Load → Load
  | idle buckets used =>
      if 4 < buckets ∧ P.sparse (used - 1) buckets then
        moving buckets (Nat.nextPowerOfTwo (max 4 (used - 1))) (used - 1) 0
      else idle buckets (used - 1)
  | moving buckets target stored cursor => moving buckets target (stored - 1) cursor

/-- The numbers of buckets are powers of two and the cursor is inside the first table. -/
def Regular : Load → Prop
  | idle buckets _ => buckets.isPowerOfTwo
  | moving buckets target _ cursor =>
      buckets.isPowerOfTwo ∧ target.isPowerOfTwo ∧ cursor < buckets

variable {L L' : Load} {steps : ℤ}

theorem Advances.regular (h : Advances steps L L') (hL : L.Regular) : L'.Regular := by
  cases h with
  | idle buckets used => exact hL
  | goesOn hle hlt hin => exact ⟨hL.1, hL.2.1, hin⟩
  | completes buckets target stored cursor => exact hL.2.1

theorem Regular.insert (P : DictParams) (hL : L.Regular) : (L.insert P).Regular := by
  cases L with
  | moving buckets target stored cursor => exact hL
  | idle buckets used =>
      rw [Load.insert]
      split_ifs
      · exact ⟨hL, Nat.isPowerOfTwo_nextPowerOfTwo _, Nat.pos_of_isPowerOfTwo hL⟩
      · exact hL

theorem Regular.remove (P : DictParams) (hL : L.Regular) : (L.remove P).Regular := by
  cases L with
  | moving buckets target stored cursor => exact hL
  | idle buckets used =>
      rw [Load.remove]
      split_ifs
      · exact ⟨hL, Nat.isPowerOfTwo_nextPowerOfTwo _, Nat.pos_of_isPowerOfTwo hL⟩
      · exact hL

theorem regular_initial : (idle 4 0).Regular := ⟨2, rfl⟩

end Load

namespace DictHashTable

variable {V : Type} (t : DictHashTable V)

@[simp] theorem size_setChain (i : ℕ) (c : List (DictEntry V)) : (t.setChain i c).size = t.size :=
  List.length_set ..

@[simp] theorem size_prepend (e : DictEntry V) : (t.prepend e).size = t.size := size_setChain ..

@[simp] theorem size_unlink (k : Bytes) (h : UInt64) : (t.unlink k h).size = t.size :=
  size_setChain ..

@[simp] theorem size_assign (k : Bytes) (h : UInt64) (f : V → V) :
    (t.assign k h f).size = t.size := size_setChain ..

@[simp] theorem size_allocate (n : ℕ) : (allocate n : DictHashTable V).size = n :=
  List.length_replicate ..

@[simp] theorem used_prepend (e : DictEntry V) : (t.prepend e).used = t.used + 1 := rfl

@[simp] theorem used_unlink (k : Bytes) (h : UInt64) : (t.unlink k h).used = t.used - 1 := rfl

@[simp] theorem used_assign (k : Bytes) (h : UInt64) (f : V → V) :
    (t.assign k h f).used = t.used := rfl

theorem size_foldl_prepend (c : List (DictEntry V)) : (c.foldl prepend t).size = t.size := by
  induction c generalizing t with
  | nil => rfl
  | cons e c ih => rw [List.foldl_cons, ih, size_prepend]

end DictHashTable

namespace Dict

variable {V : Type} {d : Dict V} {idx : ℕ}

def load (d : Dict V) : Load :=
  match d.rehashidx with
  | none => .idle d.ht0.size d.ht0.used
  | some idx => .moving d.ht0.size d.ht1.size d.size idx

theorem load_of_idle (h : d.rehashidx = none) : d.load = .idle d.ht0.size d.ht0.used := by
  rw [load, h]

theorem load_of_moving (h : d.rehashidx = some idx) :
    d.load = .moving d.ht0.size d.ht1.size d.size idx := by
  rw [load, h]

@[simp] theorem isMoving_load (d : Dict V) : d.load.isMoving = d.isRehashing := by
  cases h : d.rehashidx with
  | none => rw [load_of_idle h, isRehashing, h]; rfl
  | some idx => rw [load_of_moving h, isRehashing, h]; rfl

theorem cursor_lt (hd : d.Sound) (hidx : d.rehashidx = some idx) (hu : d.ht0.used ≠ 0) :
    idx < d.ht0.size := by
  obtain ⟨-, hle, hbelow⟩ := hd.busy idx hidx
  apply Nat.lt_of_le_of_ne hle
  rintro rfl
  apply hu
  rw [← entries_eq_nil_iff hd.live, List.eq_nil_iff_forall_not_mem]
  intro e he
  obtain ⟨j, hj⟩ := mem_entries_iff.mp he
  have hnil : d.ht0.chain j = [] := by
    by_cases hlt : j < d.ht0.size
    · exact hbelow j hlt
    · exact Buckets.chain_of_length_le (Nat.le_of_not_lt hlt)
  rw [hnil] at hj
  cases hj

/-- How far the migration loop has come when it ends: it has emptied the first table, or it has
passed at least as many buckets as it was asked for, or it has given up behind the cursor. -/
def LoopAdvances (d : Dict V) (idx steps : ℕ) : RehashOutcome V → Prop
  | .migrated d' => d'.ht0.size = d.ht0.size ∧ d'.ht1.size = d.ht1.size ∧
      ∃ idx', d'.rehashidx = some idx' ∧ (d'.ht0.used = 0 ∨ idx + steps ≤ idx')
  | .paused d' => d'.ht0.size = d.ht0.size ∧ d'.ht1.size = d.ht1.size ∧
      ∃ idx', d'.rehashidx = some idx' ∧ d'.ht0.used ≠ 0 ∧ idx < idx'
  | .outOfBounds _ => False

theorem rehashLoop_advances (steps : ℕ) (limit : ℤ) (hd : d.Sound) (hidx : d.rehashidx = some idx) :
    LoopAdvances d idx steps (rehashLoop steps limit d) := by
  induction steps generalizing d limit idx with
  | zero => exact ⟨rfl, rfl, idx, hidx, .inr le_rfl⟩
  | succ steps ih =>
      have hspec := rehashLoop_spec (steps + 1) limit hd hidx
      rw [rehashLoop] at hspec ⊢
      split_ifs at hspec ⊢ with hu
      · exact ⟨rfl, rfl, idx, hidx, .inl hu⟩
      have ha := (hd.busy idx hidx).1
      have hskip := skipEmpty_spec d.ht0.buckets idx limit
      simp only [hidx, Option.getD_some] at hspec ⊢
      cases hr : skipEmpty (d.ht0.buckets.drop idx) idx limit with
      | outOfBounds =>
          rw [hr] at hspec
          exact hspec
      | limitReached i =>
          rw [hr] at hskip
          exact ⟨rfl, rfl, i, rfl, hu, hskip.1⟩
      | found i l =>
          rw [hr] at hskip
          obtain ⟨h1, h2, -, h4⟩ := hskip
          have hbelow := chain_eq_nil_of_skipped hd hidx h4
          have hsize0 : (d.migrateBucket i).ht0.size = d.ht0.size := by
            rw [migrateBucket_eq]
            exact size_setChain ..
          have hsize1 : (d.migrateBucket i).ht1.size = d.ht1.size := by
            rw [migrateBucket_eq]
            exact size_foldl_prepend ..
          have hcur : (d.migrateBucket i).rehashidx = some (i + 1) := by rw [migrateBucket_eq]
          have hrec := ih l (sound_migrateBucket hd h2 ha hbelow) hcur
          change LoopAdvances d idx (steps + 1) (rehashLoop steps l (d.migrateBucket i))
          cases ho : rehashLoop steps l (d.migrateBucket i) with
          | migrated d' =>
              rw [ho] at hrec
              obtain ⟨g1, g2, idx', g3, g4⟩ := hrec
              exact ⟨g1.trans hsize0, g2.trans hsize1, idx', g3, g4.imp_right fun h => by omega⟩
          | paused d' =>
              rw [ho] at hrec
              obtain ⟨g1, g2, idx', g3, g4, g5⟩ := hrec
              exact ⟨g1.trans hsize0, g2.trans hsize1, idx', g3, g4, by omega⟩
          | outOfBounds d' =>
              rw [ho] at hrec
              exact hrec

theorem SameRecords.size_eq {d' : Dict V} (h : SameRecords d d') (hd : d.Sound) (hd' : d'.Sound) :
    d'.size = d.size := by
  rw [Dict.size_eq hd, Dict.size_eq hd', h.perm.length_eq]

theorem load_rehashStep (hd : d.Sound) (steps : ℤ) :
    Load.Advances steps d.load (d.rehashStep steps).2.load := by
  obtain ⟨hs, hsame⟩ := rehashStep_spec hd steps
  have hsize := hsame.size_eq hd hs
  cases hr : d.rehashidx with
  | none =>
      have hstay : d.rehashStep steps = (true, d) := by
        rw [rehashStep, isRehashing, hr]
        rfl
      rw [hstay, load_of_idle hr]
      exact .idle _ _
  | some idx =>
      have hmoving : d.isRehashing = true := isRehashing_iff.mpr ⟨idx, hr⟩
      have hloop := rehashLoop_advances steps.toNat (steps * 10) hd hr
      have hspec := rehashLoop_spec steps.toNat (steps * 10) hd hr
      rw [load_of_moving hr]
      -- the `Dict` is still rehashing
      have hgoes : ∀ (d' : Dict V) (idx' : ℕ), d'.Sound → d'.size = d.size →
          d'.ht0.size = d.ht0.size → d'.ht1.size = d.ht1.size → d'.rehashidx = some idx' →
          d'.ht0.used ≠ 0 → idx ≤ idx' →
          (0 < steps → idx < idx') → Load.Advances steps
            (.moving d.ht0.size d.ht1.size d.size idx) d'.load := by
        intro d' idx' hd' hsize' h0 h1 hidx' hu hle hlt
        have hin := cursor_lt hd' hidx' hu
        rw [load_of_moving hidx', h0, h1, hsize']
        exact .goesOn hle hlt (h0 ▸ hin)
      simp only [rehashStep, hmoving, Bool.not_true, Bool.false_eq_true, if_false] at hs hsize ⊢
      cases ho : rehashLoop steps.toNat (steps * 10) d with
      | outOfBounds d' =>
          rw [ho] at hspec
          exact hspec.elim
      | paused d' =>
          rw [ho] at hloop hs hsize
          obtain ⟨h0, h1, idx', hidx', hu, hlt⟩ := hloop
          exact hgoes d' idx' hs hsize h0 h1 hidx' hu hlt.le fun _ => hlt
      | migrated d' =>
          rw [ho] at hloop hs hsize hspec
          obtain ⟨h0, h1, idx', hidx', hfar⟩ := hloop
          obtain ⟨-, -, idx'', hidx'', hle⟩ := hspec
          rw [hidx'] at hidx''
          obtain rfl := Option.some.inj hidx''
          dsimp only at hs hsize ⊢
          split_ifs at hs hsize ⊢ with hu
          · rw [← hsize, ← h1]
            exact .completes _ _ _ _
          · refine hgoes d' idx' hs hsize h0 h1 hidx' hu hle fun hpos => ?_
            have hfar' := hfar.resolve_left hu
            omega

theorem load_stepIfRehashing (hd : d.Sound) : Load.Advances 1 d.load d.stepIfRehashing.load := by
  rw [stepIfRehashing]
  split_ifs with hr
  · exact load_rehashStep hd 1
  · rw [load_of_idle (not_isRehashing_iff.mp (Bool.eq_false_iff.mpr hr))]
    exact .idle _ _

theorem load_congr {d' : Dict V} (hidx : d'.rehashidx = d.rehashidx)
    (h0 : d'.ht0.size = d.ht0.size) (h1 : d'.ht1.size = d.ht1.size)
    (hu0 : d'.ht0.used = d.ht0.used) (hu1 : d'.ht1.used = d.ht1.used) : d'.load = d.load := by
  rw [load, load, hidx, h0, h1, hu0, size, size, hu0, hu1]

theorem maybeExpand_of_moving (hr : d.isRehashing = true) : d.maybeExpand = d := by
  rw [maybeExpand, if_pos hr]

theorem maybeShrink_of_moving (hr : d.isRehashing = true) : d.maybeShrink = d := by
  rw [maybeShrink, if_pos hr]

theorem load_maybeExpand (ha : d.ht0.buckets ≠ []) (hr : d.rehashidx = none) :
    d.maybeExpand.load = if d.params.overloaded d.ht0.used d.ht0.size then
      .moving d.ht0.size (Nat.nextPowerOfTwo (d.ht0.used * 2)) d.ht0.used 0
      else .idle d.ht0.size d.ht0.used := by
  have hnull : d.ht0.isNull = false := by simpa [isNull] using ha
  rw [maybeExpand, not_isRehashing_iff.mpr hr, hnull]
  simp only [Bool.false_eq_true, if_false]
  split_ifs
  · rw [load_of_moving rfl, size_allocate]
    rfl
  · exact load_of_idle hr

theorem load_maybeShrink (ha : d.ht0.buckets ≠ []) (hr : d.rehashidx = none) :
    d.maybeShrink.load = if 4 < d.ht0.size ∧ d.params.sparse d.ht0.used d.ht0.size then
      .moving d.ht0.size (Nat.nextPowerOfTwo (max 4 d.ht0.used)) d.ht0.used 0
      else .idle d.ht0.size d.ht0.used := by
  have hnull : d.ht0.isNull = false := by simpa [isNull] using ha
  have hmax : (if d.ht0.used < 4 then 4 else d.ht0.used) = max 4 d.ht0.used := by
    split_ifs with h
    · exact (Nat.max_eq_left h.le).symm
    · exact (Nat.max_eq_right (Nat.le_of_not_lt h)).symm
  rw [maybeShrink, not_isRehashing_iff.mpr hr, hnull, hmax]
  simp only [Bool.false_eq_true, if_false, Bool.false_or, decide_eq_true_eq]
  by_cases hsmall : d.ht0.size ≤ 4
  · rw [if_pos hsmall, if_neg (fun h => absurd h.1 (Nat.not_lt.mpr hsmall))]
    exact load_of_idle hr
  · rw [if_neg hsmall]
    by_cases hsparse : d.params.sparse d.ht0.used d.ht0.size = true
    · rw [if_pos hsparse, if_pos ⟨Nat.lt_of_not_le hsmall, hsparse⟩, load_of_moving rfl,
        size_allocate]
      rfl
    · rw [if_neg hsparse, if_neg (fun h => hsparse h.2)]
      exact load_of_idle hr

theorem load_insert_live (hd : d.Sound) (hr : d.isRehashing = false) (e : DictEntry V) :
    ({ d with ht0 := d.ht0.prepend e } : Dict V).maybeExpand.load = d.load.insert d.params := by
  have hidle := not_isRehashing_iff.mp hr
  have hload := load_maybeExpand (d := { d with ht0 := d.ht0.prepend e })
    (prepend_buckets_ne_nil hd.allocated e) hidle
  rw [hload, load_of_idle hidle]
  dsimp only
  rw [size_prepend, used_prepend]
  rfl

theorem load_insert_target (hr : d.isRehashing = true) (e : DictEntry V) :
    ({ d with ht1 := d.ht1.prepend e } : Dict V).maybeExpand.load = d.load.insert d.params := by
  obtain ⟨idx, hidx⟩ := isRehashing_iff.mp hr
  have hsame := maybeExpand_of_moving (d := { d with ht1 := d.ht1.prepend e }) hr
  have hload := load_of_moving (d := { d with ht1 := d.ht1.prepend e }) hidx
  rw [hsame, hload, load_of_moving hidx]
  dsimp only
  rw [size_prepend, Load.insert, size, used_prepend]
  rfl

theorem load_set (hd : d.Sound) (k : Bytes) (v : V) :
    (d.set k v).2.load =
      if (d.toMap k).isSome then d.stepIfRehashing.load
      else d.stepIfRehashing.load.insert d.params := by
  obtain ⟨hs, hsame⟩ := stepIfRehashing_spec hd
  rw [← hsame.toMap_eq hd, ← hsame.params]
  generalize hd₁ : d.stepIfRehashing = d₁ at hs
  rw [set, hd₁]
  rcases search_cases hs k with ⟨e, h0⟩ | ⟨h0, hr, e, h1⟩ | ⟨h0, h1, hnone⟩
  · have hstored := (rewrite_live hs (fun _ => v) h0).2.2
    simp only [hstored, Option.isSome_some, if_true]
    cases hr : d₁.isRehashing with
    | true =>
        rw [if_pos rfl, h0]
        exact load_congr rfl (size_assign ..) rfl rfl rfl
    | false =>
        rw [if_neg Bool.false_ne_true, setIn, h0]
        exact load_congr rfl (size_assign ..) rfl rfl rfl
  · have hstored := (rewrite_target hs hr (fun _ => v) h1).2.2
    simp only [hstored, Option.isSome_some, if_true]
    rw [if_pos hr, h0]
    dsimp only
    rw [setIn, h1]
    exact load_congr rfl rfl (size_assign ..) rfl rfl
  · simp only [hnone, Option.isSome_none, Bool.false_eq_true, if_false]
    cases hr : d₁.isRehashing with
    | true =>
        rw [if_pos rfl, h0]
        dsimp only
        rw [setIn, h1 hr]
        exact load_insert_target hr _
    | false =>
        rw [if_neg Bool.false_ne_true, setIn, h0]
        exact load_insert_live hs hr _

theorem used_pos_of_findIn {t : DictHashTable V} {hash : Bytes → UInt64} (hs : t.Sound hash)
    {k : Bytes} {e : DictEntry V} (hf : t.findIn k (hash k) = some e) : 0 < t.used := by
  rw [hs.used_eq]
  exact List.length_pos_of_mem (findIn_some hs hf).1

theorem load_unlink_live (hd : d.Sound) {k : Bytes} {e : DictEntry V} {l : List V}
    (h0 : d.ht0.findIn k (d.hash k) = some e) :
    ({ d with ht0 := d.ht0.unlink k (d.hash k), released := l } : Dict V).maybeShrink.load =
      d.load.remove d.params := by
  have hpos := used_pos_of_findIn hd.live h0
  cases hidx : d.rehashidx with
  | some idx =>
      have hr := isRehashing_iff.mpr ⟨idx, hidx⟩
      have hsame := maybeShrink_of_moving
        (d := { d with ht0 := d.ht0.unlink k (d.hash k), released := l }) hr
      have hload := load_of_moving
        (d := { d with ht0 := d.ht0.unlink k (d.hash k), released := l }) hidx
      have hsize : d.ht0.used - 1 + d.ht1.used = d.size - 1 := (Nat.sub_add_comm hpos).symm
      simp only [hidx] at hsame hload
      rw [hsame, hload, load_of_moving hidx, size_unlink, Load.remove, ← hsize]
      rfl
  | none =>
      have ha : (d.ht0.unlink k (d.hash k)).buckets ≠ [] := by
        rw [← List.length_pos_iff]
        simpa [unlink, setChain] using List.length_pos_iff.mpr hd.allocated
      have hload := load_maybeShrink
        (d := { d with ht0 := d.ht0.unlink k (d.hash k), released := l }) ha hidx
      simp only [hidx] at hload
      rw [hload, load_of_idle hidx, size_unlink, used_unlink]
      rfl

theorem load_unlink_target (hd : d.Sound) (hr : d.isRehashing = true) {k : Bytes} {e : DictEntry V}
    {l : List V} (h1 : d.ht1.findIn k (d.hash k) = some e) :
    ({ d with ht1 := d.ht1.unlink k (d.hash k), released := l } : Dict V).maybeShrink.load =
      d.load.remove d.params := by
  have hpos := used_pos_of_findIn hd.target h1
  obtain ⟨idx, hidx⟩ := isRehashing_iff.mp hr
  have hsame := maybeShrink_of_moving
    (d := { d with ht1 := d.ht1.unlink k (d.hash k), released := l }) hr
  have hload := load_of_moving
    (d := { d with ht1 := d.ht1.unlink k (d.hash k), released := l }) hidx
  have hsize : d.ht0.used + (d.ht1.used - 1) = d.size - 1 := (Nat.add_sub_assoc hpos _).symm
  rw [hsame, hload, load_of_moving hidx, size_unlink, Load.remove, ← hsize]
  rfl

theorem load_del (hd : d.Sound) (k : Bytes) :
    (d.del k).2.load =
      if (d.toMap k).isSome then d.stepIfRehashing.load.remove d.params
      else d.stepIfRehashing.load := by
  obtain ⟨hs, hsame⟩ := stepIfRehashing_spec hd
  rw [← hsame.toMap_eq hd, ← hsame.params]
  generalize hd₁ : d.stepIfRehashing = d₁ at hs
  rw [del, hd₁]
  rcases search_cases hs k with ⟨e, h0⟩ | ⟨h0, hr, e, h1⟩ | ⟨h0, h1, hnone⟩
  · have hstored := (rewrite_live hs id h0).2.2
    simp only [hstored, Option.isSome_some, if_true]
    rw [h0]
    exact load_unlink_live hs h0
  · have hstored := (rewrite_target hs hr id h1).2.2
    simp only [hstored, Option.isSome_some, if_true]
    rw [h0]
    dsimp only
    rw [if_pos hr, h1]
    exact load_unlink_target hs hr h1
  · simp only [hnone, Option.isSome_none, Bool.false_eq_true, if_false]
    rw [h0]
    dsimp only
    cases hr : d₁.isRehashing with
    | true => rw [if_pos rfl, h1 hr]
    | false => rw [if_neg Bool.false_ne_true]

theorem load_clear (d : Dict V) : d.clear.load = .idle 4 0 := by
  rw [load_of_idle rfl]
  exact congrArg (Load.idle · 0) (size_allocate 4)

theorem load_empty (P : DictParams) : (empty P : Dict V).load = .idle 4 0 := by
  rw [load_of_idle rfl]
  exact congrArg (Load.idle · 0) (size_allocate 4)

theorem load_modifyValue (d : Dict V) (k : Bytes) (f : V → V) :
    (d.modifyValue k f).load = d.load := by
  unfold modifyValue
  dsimp only
  cases d.ht0.findIn k (d.hash k) with
  | some e => exact load_congr rfl (size_assign ..) rfl rfl rfl
  | none =>
      dsimp only
      split_ifs
      · cases d.ht1.findIn k (d.hash k) with
        | some e => exact load_congr rfl rfl (size_assign ..) rfl rfl
        | none => rfl
      · rfl

theorem regular_rehashStep (hd : d.Sound) (h : d.load.Regular) (steps : ℤ) :
    (d.rehashStep steps).2.load.Regular := (load_rehashStep hd steps).regular h

theorem regular_stepIfRehashing (hd : d.Sound) (h : d.load.Regular) :
    d.stepIfRehashing.load.Regular := (load_stepIfRehashing hd).regular h

theorem regular_set (hd : d.Sound) (h : d.load.Regular) (k : Bytes) (v : V) :
    (d.set k v).2.load.Regular := by
  have hopened := regular_stepIfRehashing hd h
  rw [load_set hd]
  split_ifs
  · exact hopened
  · exact hopened.insert d.params

theorem regular_del (hd : d.Sound) (h : d.load.Regular) (k : Bytes) :
    (d.del k).2.load.Regular := by
  have hopened := regular_stepIfRehashing hd h
  rw [load_del hd]
  split_ifs
  · exact hopened.remove d.params
  · exact hopened

end Dict

end Keva
