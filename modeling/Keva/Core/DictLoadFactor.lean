import Keva.Core.DictProgress
import Keva.Lib.PowerOfTwo

/-!
# The load factor of an idle table

The size of the new table is chosen when a migration begins. An expansion leaves room for a new key
with every bucket that is still to be migrated. A shrink leaves room for hardly any, `maybe_expand`
does nothing during a migration, and nothing looks at the load factor when it is complete.
-/

namespace Keva

namespace Load

/-- The entries fit into the table that they are in or are moved to. In a migration that does not
shrink the table there is room for one more entry for every bucket from the cursor on. -/
def Fits : Load → Prop
  | idle buckets used => used ≤ buckets
  | moving buckets target stored cursor =>
      (target < buckets → stored ≤ target) ∧
        (buckets ≤ target → stored + (buckets - cursor) ≤ target)

/-- A shrink that goes on has room for another entry. -/
def Room : Load → Prop
  | idle _ _ => True
  | moving buckets target stored _ => target < buckets → stored < target

variable {L L' : Load} {steps : ℤ} {hash : Bytes → UInt64}

theorem Advances.fits (h : Advances steps L L') (hL : L.Fits) : L'.Fits := by
  cases h with
  | idle buckets used => exact hL
  | goesOn hle hlt hin =>
      obtain ⟨hshrink, hexpand⟩ := hL
      exact ⟨hshrink, fun h => by have := hexpand h; omega⟩
  | completes buckets target stored cursor =>
      obtain ⟨hshrink, hexpand⟩ := hL
      change stored ≤ target
      omega

theorem Fits.insert_idle {buckets used : ℕ} (h : (idle buckets used).Fits) :
    ((idle buckets used).insert (.exact hash)).Fits := by
  have hle : used ≤ buckets := h
  have hroom := PowerOfTwo.le_nextPowerOfTwo ((used + 1) * 2)
  rw [insert]
  split_ifs with hover
  · have hover : buckets < used + 1 := by simpa [DictParams.exact] using hover
    exact ⟨fun h => by omega, fun _ => by omega⟩
  · have hover : ¬ buckets < used + 1 := by simpa [DictParams.exact] using hover
    exact Nat.le_of_not_lt hover

theorem Advances.fits_insert (h : Advances 1 L L') (hL : L.Fits) (hroom : L'.Room) :
    (L'.insert (.exact hash)).Fits := by
  have hfits := h.fits hL
  cases h with
  | idle buckets used => exact hfits.insert_idle
  | completes buckets target stored cursor => exact hfits.insert_idle
  | goesOn hle hlt hin =>
      have hnext := hlt one_pos
      obtain ⟨-, hexpand⟩ := hL
      exact ⟨hroom, fun h => by have := hexpand h; omega⟩

theorem Fits.remove (h : L.Fits) (hregular : L.Regular) : (L.remove (.exact hash)).Fits := by
  cases L with
  | moving buckets target stored cursor =>
      obtain ⟨hshrink, hexpand⟩ := h
      exact ⟨fun h => by have := hshrink h; omega, fun h => by have := hexpand h; omega⟩
  | idle buckets used =>
      have hle : used ≤ buckets := h
      rw [Load.remove]
      split_ifs with hsparse
      · obtain ⟨hfour, hten⟩ := hsparse
        have hten : 10 * (used - 1) < buckets := by simpa [DictParams.exact] using hten
        have height := PowerOfTwo.two_mul_le ⟨2, rfl⟩ hregular hfour
        have hroom := PowerOfTwo.le_nextPowerOfTwo (max 4 (used - 1))
        have hlt := PowerOfTwo.nextPowerOfTwo_lt (show 0 < max 4 (used - 1) by omega)
        exact ⟨fun _ => by omega, fun h => by omega⟩
      · change used - 1 ≤ buckets
        omega

end Load

namespace Dict

variable {V : Type} {d : Dict V} {hash : Bytes → UInt64}

/-- A `set` of a new key, unless it completes the migration itself, finds fewer entries than buckets
in the smaller table that a shrink moves them to. -/
def LeavesRoom (d : Dict V) : DictOp V → Prop
  | .set k v => d.toMap k = none → (d.opened (.set k v)).isRehashing = true →
      d.ht1.size < d.ht0.size → d.size < d.ht1.size
  | _ => True

instance (d : Dict V) : (op : DictOp V) → Decidable (d.LeavesRoom op)
  | .set k v =>
      inferInstanceAs (Decidable (d.toMap k = none → (d.opened (.set k v)).isRehashing = true →
        d.ht1.size < d.ht0.size → d.size < d.ht1.size))
  | .get _ | .getConst _ | .del _ | .exists _ | .rehashStep _ | .clear | .size | .forEach =>
      isTrue trivial

theorem fits_step (hd : d.Sound) (hparams : d.params = .exact hash) (hregular : d.load.Regular)
    (hfits : d.load.Fits) {op : DictOp V} (hop : d.LeavesRoom op) : (d.step op).load.Fits := by
  have hadvance := load_rehashStep hd 1
  rw [load_step hd]
  cases op with
  | set k v =>
      change (if (d.toMap k).isSome then (d.rehashStep 1).2.load
        else (d.rehashStep 1).2.load.insert d.params).Fits
      split_ifs with hk
      · exact hadvance.fits hfits
      · rw [hparams]
        refine hadvance.fits_insert hfits ?_
        cases hr : d.rehashidx with
        | none =>
            rw [load_of_idle hr] at hadvance
            generalize (d.rehashStep 1).2.load = L at hadvance ⊢
            cases hadvance with
            | idle => trivial
        | some cursor =>
            have hgoes : (d.rehashStep 1).2.isRehashing = true → d.ht1.size < d.ht0.size →
                d.size < d.ht1.size := hop (by simpa using hk)
            rw [← isMoving_load] at hgoes
            rw [load_of_moving hr] at hadvance
            generalize (d.rehashStep 1).2.load = L at hadvance hgoes ⊢
            cases hadvance with
            | goesOn => exact hgoes rfl
            | completes => trivial
  | del k =>
      change (if (d.toMap k).isSome then (d.rehashStep 1).2.load.remove d.params
        else (d.rehashStep 1).2.load).Fits
      split_ifs with hk
      · rw [hparams]
        exact (hadvance.fits hfits).remove (hadvance.regular hregular)
      · exact hadvance.fits hfits
  | get k => exact hadvance.fits hfits
  | rehashStep n => exact (load_rehashStep hd n).fits hfits
  | clear =>
      change d.clear.load.Fits
      rw [load_clear]
      exact Nat.zero_le 4
  | _ => exact hfits

theorem params_step (hd : d.Sound) (op : DictOp V) : (d.step op).params = d.params := by
  cases op with
  | set k v =>
      rcases (set_spec hd k v).2 with ⟨-, -, -, hrw, -⟩ | ⟨-, -, hparams, -, -⟩
      · exact hrw.1
      · exact hparams
  | del k => exact (del_spec hd k).2.1
  | get k => exact (get_spec hd k).2.2.params
  | rehashStep n => exact (rehashStep_spec hd n).2.params
  | _ => rfl

/-- If no rehash is in progress, there are at most as many entries as buckets. -/
def NotOverloaded (d : Dict V) : Prop := d.rehashidx = none → d.ht0.used ≤ d.ht0.size

theorem notOverloaded_of_fits (h : d.load.Fits) : d.NotOverloaded := by
  intro hidle
  rw [load_of_idle hidle] at h
  exact h

theorem fits_run {ops : List (DictOp V)} (h : Run.Along step LeavesRoom d ops) (hd : d.Sound)
    (hparams : d.params = .exact hash) (hregular : d.load.Regular) (hfits : d.load.Fits) :
    (ops.foldl step d).load.Fits := by
  induction ops generalizing d with
  | nil => exact hfits
  | cons op ops ih =>
      exact ih h.2 (sound_step hd op) ((params_step hd op).trans hparams)
        (regular_step hd hregular op) (fits_step hd hparams hregular hfits h.1)

theorem exists_completed {buckets target stored cursor : ℕ} (hd : d.Sound)
    (h : d.load = .moving buckets target stored cursor) :
    ∃ n, ((List.replicate n (.rehashStep 1)).foldl step d).load = .idle target stored := by
  induction hm : buckets - cursor using Nat.strong_induction_on generalizing d cursor with
  | _ m ih =>
      have hadvance := load_rehashStep hd 1
      have hs := (rehashStep_spec hd 1).1
      rw [h] at hadvance
      generalize hL : (d.rehashStep 1).2.load = L at hadvance
      cases hadvance with
      | completes => exact ⟨1, hL⟩
      | goesOn hle hlt hin =>
          have hnext := hlt one_pos
          obtain ⟨n, hn⟩ := ih _ (by omega) hs hL rfl
          exact ⟨n + 1, hn⟩

/-- A key that is set without room for it overloads the table once the migration is complete. -/
theorem overloads_of_not_leavesRoom (hd : d.Sound) {op : DictOp V} (hop : ¬ d.LeavesRoom op) :
    ∃ n, ¬ ((List.replicate n (.rehashStep 1)).foldl step (d.step op)).NotOverloaded := by
  cases op with
  | set k v =>
      have hfull : d.toMap k = none ∧ (d.rehashStep 1).2.isRehashing = true ∧
          d.ht1.size < d.ht0.size ∧ d.ht1.size ≤ d.size := by
        unfold LeavesRoom at hop
        push Not at hop
        exact hop
      obtain ⟨hk, hr, -, hfull⟩ := hfull
      have hadvance := load_rehashStep hd 1
      have hload := load_step hd (.set k v)
      rw [settle, hk] at hload
      change (d.step (.set k v)).load = (d.rehashStep 1).2.load.insert d.params at hload
      rw [← isMoving_load] at hr
      cases hidx : d.rehashidx with
      | none =>
          rw [load_of_idle hidx] at hadvance
          generalize (d.rehashStep 1).2.load = L at hadvance hr
          cases hadvance with
          | idle => cases hr
      | some cursor =>
          rw [load_of_moving hidx] at hadvance
          generalize (d.rehashStep 1).2.load = L at hadvance hr hload
          cases hadvance with
          | completes => cases hr
          | goesOn hle hlt hin =>
              obtain ⟨n, hn⟩ := exists_completed (sound_step hd _) hload
              refine ⟨n, fun hfits => ?_⟩
              generalize (List.replicate n (.rehashStep 1)).foldl step (d.step (.set k v)) = d'
                at hn hfits
              cases hidx' : d'.rehashidx with
              | some i =>
                  rw [load_of_moving hidx'] at hn
                  cases hn
              | none =>
                  have hle := hfits hidx'
                  rw [load_of_idle hidx'] at hn
                  obtain ⟨hsize, hused⟩ := Load.idle.inj hn
                  omega
  | _ => exact absurd trivial hop

/-- In a run in which every shrink leaves room for the keys that are set meanwhile, no idle table is
overloaded; expansions always leave room. Where a shrink leaves none, the migration alone ends with
an overloaded table. -/
theorem idle_not_overloaded (hash : Bytes → UInt64) (ops : List (DictOp V)) :
    (Run.Along step LeavesRoom (empty (.exact hash)) ops →
      ∀ first, first <+: ops → (first.foldl step (empty (.exact hash))).NotOverloaded) ∧
    ∀ op, ¬ (ops.foldl step (empty (.exact hash))).LeavesRoom op →
      ∃ n, ¬ ((List.replicate n (.rehashStep 1)).foldl step
        ((ops.foldl step (empty (.exact hash))).step op)).NotOverloaded := by
  constructor
  · rintro h first ⟨rest, rfl⟩
    obtain ⟨hd, hregular⟩ := reached (V := V) (.exact hash) []
    have hfits : (empty (.exact hash) : Dict V).load.Fits := by
      rw [load_empty]
      exact Nat.zero_le 4
    exact notOverloaded_of_fits (fits_run (Run.along_append.mp h).1 hd rfl hregular hfits)
  · exact fun op hop => overloads_of_not_leavesRoom (reached (.exact hash) ops).1 hop

/-- Keys go to the bucket that their first byte names. -/
def firstByte (key : Bytes) : UInt64 := (key.headD 0).toUInt64

/-- Seventeen keys make 64 buckets, and when six of them are left a shrink to 8 buckets begins.
Three new keys that are set meanwhile make nine entries. -/
def shrinkingRun : List (DictOp Unit) :=
  ([58, 59, 60, 61, 62, 63, 0, 1, 2, 3, 4, 5, 6, 7, 8, 9, 10].map fun b => .set [b] ()) ++
    [.rehashStep 100] ++ ([0, 1, 2, 3, 4, 5, 6, 7, 8, 9, 10].map fun b => .del [b]) ++
    [.set [100] (), .set [101] (), .set [102] (), .rehashStep 100]

theorem shrink_overloads :
    ¬ (shrinkingRun.foldl step (empty (.exact firstByte))).NotOverloaded := by
  have hidle : (shrinkingRun.foldl step (empty (.exact firstByte))).rehashidx = none ∧
      (shrinkingRun.foldl step (empty (.exact firstByte))).ht0.size = 8 ∧
      (shrinkingRun.foldl step (empty (.exact firstByte))).ht0.used = 9 := by decide +kernel
  obtain ⟨hidx, hsize, hused⟩ := hidle
  intro h
  have hle := h hidx
  omega

/-- Two new keys make eight entries, and the shrink has left room for them. -/
def roomyRun : List (DictOp Unit) := shrinkingRun.take 31 ++ [.rehashStep 100]

theorem idle_not_overloaded_roomyRun :
    (roomyRun.foldl step (empty (.exact firstByte))).NotOverloaded ∧
      (roomyRun.foldl step (empty (.exact firstByte))).rehashidx = none ∧
        (roomyRun.foldl step (empty (.exact firstByte))).ht0.size = 8 ∧
          (roomyRun.foldl step (empty (.exact firstByte))).ht0.used = 8 := by
  have halong : Run.Along step LeavesRoom (empty (.exact firstByte)) roomyRun := by decide +kernel
  exact ⟨(idle_not_overloaded firstByte roomyRun).1 halong _ (List.prefix_refl _),
    by decide +kernel⟩

end Dict

end Keva
