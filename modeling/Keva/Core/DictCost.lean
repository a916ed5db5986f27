import Keva.Core.DictLoadFactor
import Keva.Lib.Amortized

/-!
# What the incremental rehash costs

Work is counted in entries that a migration moves, buckets that its cursor passes and buckets that
are allocated for it. A single operation may be expensive, but a migration begins only after many
keys have been added or removed since the last one, and these pay for it: over any run the work is
linear in the number of keys that `set` has added and `del` has removed.
-/

namespace Keva

namespace Load

/-- What a table has saved for the next migration. An expansion is paid for by the entries that
outnumber half of the buckets, a shrink by what is missing of a quarter of the buckets. -/
def saved (buckets used : ℕ) : ℕ :=
  6 * (2 * used - buckets) + 8 * (buckets / 2 - 2 - 2 * used)

/-- A migration saves for the table that it leads to. -/
def savings : Load → ℕ
  | idle buckets used => saved buckets used
  | moving _ target stored _ => saved target stored

/-- The work of a migration that begins between the two, all of it. -/
def opening : Load → Load → ℕ
  | idle _ _, moving buckets target stored cursor => target + (stored + (buckets - cursor))
  | _, _ => 0

variable {L L' : Load} {steps : ℤ} {hash : Bytes → UInt64}

theorem Advances.savings (h : Advances steps L L') : L'.savings = L.savings := by
  cases h <;> rfl

@[simp] theorem opening_self (L : Load) : L.opening L = 0 := by
  cases L <;> rfl

theorem insert_pays (L : Load) :
    L.opening (L.insert (.exact hash)) + (L.insert (.exact hash)).savings ≤ L.savings + 16 := by
  cases L with
  | moving buckets target stored cursor =>
      change 0 + saved target (stored + 1) ≤ saved target stored + 16
      unfold saved
      omega
  | idle buckets used =>
      rw [insert]
      split_ifs with hover
      · have hover : buckets < used + 1 := by simpa [DictParams.exact] using hover
        have hroom := PowerOfTwo.le_nextPowerOfTwo ((used + 1) * 2)
        have htight := PowerOfTwo.nextPowerOfTwo_lt (show 0 < (used + 1) * 2 by omega)
        change Nat.nextPowerOfTwo ((used + 1) * 2) + (used + 1 + (buckets - 0)) +
          saved (Nat.nextPowerOfTwo ((used + 1) * 2)) (used + 1) ≤ saved buckets used + 16
        unfold saved
        omega
      · change 0 + saved buckets (used + 1) ≤ saved buckets used + 16
        unfold saved
        omega

theorem remove_pays (hL : L.Regular) :
    L.opening (L.remove (.exact hash)) + (L.remove (.exact hash)).savings ≤ L.savings + 16 := by
  cases L with
  | moving buckets target stored cursor =>
      change 0 + saved target (stored - 1) ≤ saved target stored + 16
      unfold saved
      omega
  | idle buckets used =>
      rw [remove]
      split_ifs with hsparse
      · obtain ⟨hfour, hten⟩ := hsparse
        have hten : 10 * (used - 1) < buckets := by simpa [DictParams.exact] using hten
        -- the first sizes of a table, where the constants of `saved` are tight
        have height := PowerOfTwo.two_mul_le ⟨2, rfl⟩ hL hfour
        have hsixteen : 2 ^ 3 < buckets → 2 * 2 ^ 3 ≤ buckets := PowerOfTwo.two_mul_le ⟨3, rfl⟩ hL
        have hthirty : 2 ^ 4 < buckets → 2 * 2 ^ 4 ≤ buckets := PowerOfTwo.two_mul_le ⟨4, rfl⟩ hL
        have hroom := PowerOfTwo.le_nextPowerOfTwo (max 4 (used - 1))
        have htight := PowerOfTwo.nextPowerOfTwo_lt (show 0 < max 4 (used - 1) by omega)
        have hleast : max 4 (used - 1) ≤ 4 → Nat.nextPowerOfTwo (max 4 (used - 1)) ≤ 4 :=
          PowerOfTwo.nextPowerOfTwo_le (by omega) ⟨2, rfl⟩
        change Nat.nextPowerOfTwo (max 4 (used - 1)) + (used - 1 + (buckets - 0)) +
          saved (Nat.nextPowerOfTwo (max 4 (used - 1))) (used - 1) ≤ saved buckets used + 16
        generalize Nat.nextPowerOfTwo (max 4 (used - 1)) = target at *
        unfold saved
        omega
      · change 0 + saved buckets (used - 1) ≤ saved buckets used + 16
        unfold saved
        omega

end Load

namespace Dict

variable {V : Type} {d : Dict V} {idx : ℕ} {hash : Bytes → UInt64}

/-- The buckets that the loop of `rehash_step` passes and the entries that it moves. -/
def rehashLoopWork : ℕ → ℤ → Dict V → ℕ
  | 0, _, _ => 0
  | steps + 1, limit, d =>
      if d.ht0.used = 0 then 0
      else
        let idx := d.rehashidx.getD 0
        match skipEmpty (d.ht0.buckets.drop idx) idx limit with
        | .found i limit =>
            (i + 1 - idx) + (d.ht0.chain i).length + rehashLoopWork steps limit (d.migrateBucket i)
        | .limitReached i => i - idx
        | .outOfBounds => 0

def rehashStepWork (d : Dict V) (steps : ℤ) : ℕ :=
  if !d.isRehashing then 0 else rehashLoopWork steps.toNat (steps * 10) d

/-- What is left to do of a migration. -/
def pending (d : Dict V) : ℕ :=
  match d.rehashidx with
  | none => 0
  | some idx => d.ht0.used + (d.ht0.size - idx)

theorem pending_of_idle (h : d.rehashidx = none) : d.pending = 0 := by
  rw [pending, h]

theorem pending_of_moving (h : d.rehashidx = some idx) :
    d.pending = d.ht0.used + (d.ht0.size - idx) := by
  rw [pending, h]

/-- The work of the loop is what it takes off the pending work. -/
def LoopPays (d : Dict V) (work : ℕ) : RehashOutcome V → Prop
  | .migrated d' | .paused d' => work + d'.pending = d.pending
  | .outOfBounds _ => True

theorem chain_length_le_used (hd : d.Sound) {i : ℕ} (hi : i < d.ht0.buckets.length) :
    (d.ht0.chain i).length ≤ d.ht0.used := by
  have hlen := (DictHashTable.entries_perm (t := d.ht0) hi).length_eq
  rw [List.length_append, ← hd.live.used_eq] at hlen
  omega

theorem pending_migrateBucket (hd : d.Sound) (hidx : d.rehashidx = some idx) {i : ℕ}
    (hle : idx ≤ i) (hi : i < d.ht0.buckets.length) :
    (i + 1 - idx) + (d.ht0.chain i).length + (d.migrateBucket i).pending = d.pending := by
  have hchain := chain_length_le_used hd hi
  have hcur : (d.migrateBucket i).rehashidx = some (i + 1) := by rw [migrateBucket_eq]
  have hused : (d.migrateBucket i).ht0.used = d.ht0.used - (d.ht0.chain i).length := by
    rw [migrateBucket_eq]
  have hsize : (d.migrateBucket i).ht0.size = d.ht0.size := by
    rw [migrateBucket_eq]
    exact DictHashTable.size_setChain ..
  have hroom : i < d.ht0.size := hi
  rw [pending_of_moving hcur, pending_of_moving hidx, hused, hsize]
  omega

theorem rehashLoop_pays (steps : ℕ) (limit : ℤ) (hd : d.Sound) (hidx : d.rehashidx = some idx) :
    LoopPays d (rehashLoopWork steps limit d) (rehashLoop steps limit d) := by
  induction steps generalizing d limit idx with
  | zero => exact Nat.zero_add _
  | succ steps ih =>
      rw [rehashLoopWork, rehashLoop]
      split_ifs
      · exact Nat.zero_add _
      have ha := (hd.busy idx hidx).1
      have hskip := skipEmpty_spec d.ht0.buckets idx limit
      simp only [hidx, Option.getD_some]
      cases hr : skipEmpty (d.ht0.buckets.drop idx) idx limit with
      | outOfBounds => trivial
      | limitReached i =>
          rw [hr] at hskip
          obtain ⟨hlt, hle, -⟩ := hskip
          have hroom : i ≤ d.ht0.size := hle
          change i - idx + (d.ht0.used + (d.ht0.size - i)) = d.pending
          rw [pending_of_moving hidx]
          omega
      | found i l =>
          rw [hr] at hskip
          obtain ⟨hle, hi, -, hempty⟩ := hskip
          have hs := sound_migrateBucket hd hi ha (chain_eq_nil_of_skipped hd hidx hempty)
          have hcur : (d.migrateBucket i).rehashidx = some (i + 1) := by rw [migrateBucket_eq]
          have hmove := pending_migrateBucket hd hidx hle hi
          have hrest := ih l hs hcur
          dsimp only
          cases ho : rehashLoop steps l (d.migrateBucket i) with
          | migrated d' | paused d' =>
              rw [ho] at hrest
              have hrest : rehashLoopWork steps l (d.migrateBucket i) + d'.pending =
                (d.migrateBucket i).pending := hrest
              change _ + _ + d'.pending = d.pending
              omega
          | outOfBounds d' => trivial

theorem rehashStep_pays (hd : d.Sound) (steps : ℤ) :
    d.rehashStepWork steps + (d.rehashStep steps).2.pending ≤ d.pending := by
  rw [rehashStepWork, rehashStep]
  cases hr : d.isRehashing with
  | false => exact (Nat.zero_add _).le
  | true =>
      obtain ⟨idx, hidx⟩ := isRehashing_iff.mp hr
      have hloop := rehashLoop_pays steps.toNat (steps * 10) hd hidx
      have hspec := rehashLoop_spec steps.toNat (steps * 10) hd hidx
      simp only [Bool.not_true, Bool.false_eq_true, if_false]
      cases ho : rehashLoop steps.toNat (steps * 10) d with
      | paused d' =>
          rw [ho] at hloop
          exact hloop.le
      | outOfBounds d' =>
          rw [ho] at hspec
          exact hspec.elim
      | migrated d' =>
          rw [ho] at hloop
          dsimp only
          split_ifs
          · rw [pending_of_idle (show d'.completeRehash.rehashidx = none from rfl)]
            exact (Nat.le_add_right _ _).trans hloop.le
          · exact hloop.le

/-- The buckets that `maybe_expand` and `maybe_shrink` allocate for the target of a migration. -/
def allocated (d : Dict V) (op : DictOp V) : ℕ :=
  if (d.opened op).isRehashing then 0 else (d.step op).ht1.size

def work (d : Dict V) (op : DictOp V) : ℕ :=
  match op.opens with
  | some n => d.rehashStepWork n + d.allocated op
  | none => d.allocated op

/-- `set` adds a key, or `del` removes one. -/
def changes (d : Dict V) : DictOp V → Bool
  | .set k v => (d.set k v).1
  | .del k => (d.del k).1
  | _ => false

theorem opened_pays (hd : d.Sound) (op : DictOp V) :
    d.work op + (d.opened op).pending ≤ d.pending + d.allocated op := by
  have hstep : ∀ n, d.rehashStepWork n + d.allocated op + (d.rehashStep n).2.pending ≤
      d.pending + d.allocated op := by
    intro n
    have hpays := rehashStep_pays hd n
    omega
  cases op with
  | set k v | get k | del k => exact hstep 1
  | rehashStep n => exact hstep n
  | clear =>
      change d.allocated .clear + d.clear.pending ≤ _
      rw [pending_of_idle (show d.clear.rehashidx = none from rfl)]
      exact Nat.le_add_left _ _
  | _ => exact (Nat.add_comm _ _).le

theorem used_maybeExpand (hr : d.isRehashing = true) : d.maybeExpand.ht0.used = d.ht0.used := by
  rw [maybeExpand_of_moving hr]

theorem used_maybeShrink (hr : d.isRehashing = true) : d.maybeShrink.ht0.used = d.ht0.used := by
  rw [maybeShrink_of_moving hr]

theorem used_set_le (k : Bytes) (v : V) (hr : d.stepIfRehashing.isRehashing = true) :
    (d.set k v).2.ht0.used ≤ d.stepIfRehashing.ht0.used := by
  rw [set]
  generalize d.stepIfRehashing = d₁ at hr
  rw [if_pos hr]
  cases d₁.ht0.findIn k (d₁.hash k) with
  | some e => exact le_rfl
  | none =>
      dsimp only
      rw [setIn]
      cases d₁.ht1.findIn k (d₁.hash k) with
      | some e => exact le_rfl
      | none => exact (used_maybeExpand (by exact hr)).le

theorem used_del_le (k : Bytes) (hr : d.stepIfRehashing.isRehashing = true) :
    (d.del k).2.ht0.used ≤ d.stepIfRehashing.ht0.used := by
  rw [del]
  generalize d.stepIfRehashing = d₁ at hr
  cases d₁.ht0.findIn k (d₁.hash k) with
  | some e => exact (used_maybeShrink (by exact hr)).le.trans (Nat.sub_le _ _)
  | none =>
      dsimp only
      rw [if_pos hr]
      cases d₁.ht1.findIn k (d₁.hash k) with
      | some e => exact (used_maybeShrink (by exact hr)).le
      | none => exact le_rfl

theorem used_step_le {op : DictOp V} (hr : (d.opened op).isRehashing = true) :
    (d.step op).ht0.used ≤ (d.opened op).ht0.used := by
  cases op with
  | set k v =>
      change (d.set k v).2.ht0.used ≤ (d.rehashStep 1).2.ht0.used
      rw [← stepIfRehashing_eq]
      exact used_set_le k v ((stepIfRehashing_eq d).symm ▸ hr)
  | del k =>
      change (d.del k).2.ht0.used ≤ (d.rehashStep 1).2.ht0.used
      rw [← stepIfRehashing_eq]
      exact used_del_le k ((stepIfRehashing_eq d).symm ▸ hr)
  | get k =>
      change d.stepIfRehashing.ht0.used ≤ (d.rehashStep 1).2.ht0.used
      rw [stepIfRehashing_eq]
  | _ => exact le_rfl

/-- Behind the opening `rehash_step` work appears only where a migration begins. -/
theorem settled_pays (hd : d.Sound) (op : DictOp V) :
    d.allocated op + (d.step op).pending ≤
      (d.opened op).pending + (d.opened op).load.opening (d.step op).load := by
  cases hidx : (d.opened op).rehashidx with
  | some cursor =>
      have hr := isRehashing_iff.mpr ⟨cursor, hidx⟩
      have hload := load_step hd op
      rw [load_of_moving hidx] at hload
      obtain ⟨stored', hsettle⟩ := settle_moving d op (d.opened op).ht0.size
        (d.opened op).ht1.size (d.opened op).size cursor
      rw [hsettle] at hload
      rw [allocated, if_pos hr, Nat.zero_add, pending_of_moving hidx]
      cases hidx' : (d.step op).rehashidx with
      | none =>
          rw [load_of_idle hidx'] at hload
          cases hload
      | some cursor' =>
          rw [load_of_moving hidx'] at hload
          obtain ⟨hsize, -, -, rfl⟩ := Load.moving.inj hload
          have hused := used_step_le hr
          rw [pending_of_moving hidx', hsize]
          omega
  | none =>
      have hr := not_isRehashing_iff.mpr hidx
      rw [allocated, if_neg (Bool.eq_false_iff.mp hr), load_of_idle hidx]
      cases hidx' : (d.step op).rehashidx with
      | none =>
          have hnull : (d.step op).ht1 = DictHashTable.null := (sound_step hd op).idle hidx'
          rw [pending_of_idle hidx', hnull]
          exact Nat.zero_le _
      | some cursor' =>
          rw [pending_of_moving hidx', load_of_moving hidx', Load.opening, size]
          omega

theorem changes_set (hd : d.Sound) (k : Bytes) (v : V) :
    d.changes (.set k v) = (d.toMap k).isNone := set_fst hd k v

theorem changes_del (hd : d.Sound) (k : Bytes) :
    d.changes (.del k) = (d.toMap k).isSome := del_fst hd k

/-- The pending work, and what has been saved for the migrations to come. -/
def potential (d : Dict V) : ℕ := d.pending + d.load.savings

/-- What `work` and `changes` are counted in: a `Dict` and one operation after the other. -/
def advance (d : Dict V) (op : DictOp V) : Option (Dict V) := some (d.step op)

theorem settle_pays (hd : d.Sound) (hparams : d.params = .exact hash) (hregular : d.load.Regular)
    (op : DictOp V) :
    (d.opened op).load.opening (d.step op).load + (d.step op).load.savings ≤
      d.load.savings + 16 * (if d.changes op then 1 else 0) := by
  have hadvance := load_rehashStep hd 1
  have hsame : ∀ L : Load, L.savings = d.load.savings → L.opening L + L.savings ≤
      d.load.savings + 16 * (if d.changes op then 1 else 0) := by
    intro L hL
    rw [Load.opening_self, hL]
    omega
  rw [load_step hd]
  cases op with
  | set k v =>
      change (d.rehashStep 1).2.load.opening (if (d.toMap k).isSome then (d.rehashStep 1).2.load
        else (d.rehashStep 1).2.load.insert d.params) + (if (d.toMap k).isSome
        then (d.rehashStep 1).2.load else (d.rehashStep 1).2.load.insert d.params).savings ≤ _
      rw [changes_set hd]
      cases d.toMap k with
      | some v' =>
          simp only [Option.isSome_some, if_true]
          rw [Load.opening_self, hadvance.savings]
          omega
      | none =>
          simp only [Option.isSome_none, Option.isNone_none, Bool.false_eq_true, if_false, if_true]
          rw [hparams, ← hadvance.savings]
          exact Load.insert_pays _
  | del k =>
      change (d.rehashStep 1).2.load.opening (if (d.toMap k).isSome
        then (d.rehashStep 1).2.load.remove d.params else (d.rehashStep 1).2.load) +
        (if (d.toMap k).isSome then (d.rehashStep 1).2.load.remove d.params
        else (d.rehashStep 1).2.load).savings ≤ _
      rw [changes_del hd]
      split_ifs with hk
      · rw [hparams, ← hadvance.savings]
        exact Load.remove_pays (hadvance.regular hregular)
      · rw [Load.opening_self, hadvance.savings]
        omega
  | get k => exact hsame _ hadvance.savings
  | rehashStep n => exact hsame _ (load_rehashStep hd n).savings
  | clear =>
      change d.clear.load.opening d.clear.load + d.clear.load.savings ≤ _
      rw [Load.opening_self, load_clear]
      exact Nat.zero_le _
  | _ => exact hsame _ rfl

theorem pays (hash : Bytes → UInt64) :
    Amortized.Pays advance (fun d : Dict V => d.Sound ∧ d.params = .exact hash ∧ d.load.Regular)
      potential work fun d op => 16 * if d.changes op then 1 else 0 where
  keeps := by
    rintro d _ op ⟨hd, hparams, hregular⟩ ⟨⟩
    exact ⟨sound_step hd op, (params_step hd op).trans hparams, regular_step hd hregular op⟩
  pays := by
    rintro d _ op ⟨hd, hparams, hregular⟩ ⟨⟩
    have hopened := opened_pays hd op
    have hsettled := settled_pays hd op
    have hsettle := settle_pays hd hparams hregular op
    unfold potential
    omega

/-- The work of all migrations in a run from the empty `Dict` is at most sixteen times the number of
keys that have been added and removed. -/
theorem rehash_amortized (hash : Bytes → UInt64) (ops : List (DictOp V)) :
    Amortized.total advance work (empty (.exact hash)) ops ≤
      16 * Amortized.total advance (fun d op => if d.changes op then 1 else 0)
        (empty (.exact hash)) ops := by
  have hregular : (empty (.exact hash) : Dict V).load.Regular := (reached (.exact hash) []).2
  have hstart : (empty (.exact hash) : Dict V).potential = 0 := by
    rw [potential, pending_of_idle (show (empty (.exact hash) : Dict V).rehashidx = none from rfl),
      load_empty]
    rfl
  calc
    _ ≤ (empty (.exact hash) : Dict V).potential +
        Amortized.total advance (fun d op => 16 * if d.changes op then 1 else 0)
          (empty (.exact hash)) ops := (pays hash).total_le ops ⟨sound_empty _, rfl, hregular⟩
    _ = _ := by rw [hstart, Nat.zero_add, Amortized.total_mul]

end Dict

end Keva
