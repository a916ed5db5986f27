import Keva.Core.DictLoadFactor

/-!
# Random samples

The number of buckets is a power of two, so the mask takes a walk around all buckets of a table and
to each of them once. A sample is therefore the beginning of the entries of one table, in an order
that the start of the walk decides. It is empty when the table that was chosen is empty, and the
choice falls back to the first table only.
-/

open scoped List

namespace Keva

open DictHashTable

namespace DictHashTable

variable {V : Type} {t : DictHashTable V}

theorem and_sizemask (hp : t.size.isPowerOfTwo) (i : ℕ) : i &&& t.sizemask = i % t.size := by
  obtain ⟨k, hk⟩ := hp
  rw [sizemask, hk, Nat.and_two_pow_sub_one_eq_mod]

end DictHashTable

namespace Dict

variable {V : Type} {d : Dict V} {t : DictHashTable V} {hash : Bytes → UInt64} {count : ℕ}

/-- A sample of at most `count` entries: some of the stored ones, none of them twice. -/
structure IsSample (d : Dict V) (count : ℕ) (out : List (DictEntry V)) : Prop where
  stored : ∀ e ∈ out, e ∈ d.records
  distinct : (out.map DictEntry.key).Nodup
  nonempty : 1 ≤ out.length
  bounded : out.length ≤ min count d.size

theorem sampleWalk_eq (hp : t.size.isPowerOfTwo) {m idx : ℕ} {out : List (DictEntry V)}
    (hidx : idx < t.size) (hm : m ≤ t.size) (hout : out.length ≤ count) :
    sampleWalk t count m idx out =
      out ++ (((t.buckets.rotate idx).take m).flatten).take (count - out.length) := by
  induction m generalizing idx out with
  | zero => rw [sampleWalk, List.take_zero, List.flatten_nil, List.take_nil, List.append_nil]
  | succ m ih =>
      rw [sampleWalk]
      split_ifs with hlt
      · have hnext : (idx + 1) % t.size < t.size := Nat.mod_lt _ (Nat.zero_lt_of_lt hidx)
        have hchain := List.length_take_le (count - out.length) (t.chain idx)
        rw [and_sizemask hp, ih hnext (by omega) (by rw [List.length_append]; omega),
          Buckets.take_succ_rotate hidx hm, List.flatten_cons, List.take_append, List.append_assoc]
        have hleft : count - (out ++ (t.chain idx).take (count - out.length)).length =
            count - out.length - (t.chain idx).length := by
          rw [List.length_append, List.length_take]
          omega
        rw [hleft]
        rfl
      · have hfull : count - out.length = 0 := by omega
        rw [hfull, List.take_zero, List.append_nil]

theorem sampleWalk_spec (ht : t.Sound hash) (hp : t.size.isPowerOfTwo)
    (hnodup : (t.entries.map DictEntry.key).Nodup) {idx : ℕ} (hidx : idx < t.size) :
    ((sampleWalk t count t.size idx []).map DictEntry.key).Nodup ∧
      (sampleWalk t count t.size idx []).length = min count t.used := by
  have hperm : (t.buckets.rotate idx).flatten ~ t.entries :=
    Buckets.flatten_rotate_perm t.buckets idx
  have hwalk : sampleWalk t count t.size idx [] =
      (t.buckets.rotate idx).flatten.take count := by
    have hall : (t.buckets.rotate idx).take t.size = t.buckets.rotate idx :=
      List.take_of_length_le (List.length_rotate ..).le
    rw [sampleWalk_eq hp hidx le_rfl (Nat.zero_le count), hall]
    rfl
  rw [hwalk]
  constructor
  · rw [List.map_take]
    exact ((hperm.map _).nodup_iff.mpr hnodup).sublist (List.take_sublist ..)
  · rw [List.length_take, hperm.length_eq, ht.used_eq]

theorem nodup_ht0 (hd : d.Sound) : (d.ht0.entries.map DictEntry.key).Nodup := by
  have h := hd.nodup
  rw [records, List.map_append] at h
  exact h.of_append_left

theorem nodup_ht1 (hd : d.Sound) : (d.ht1.entries.map DictEntry.key).Nodup := by
  have h := hd.nodup
  rw [records, List.map_append] at h
  exact h.of_append_right

theorem isPowerOfTwo_ht0 (h : d.load.Regular) : d.ht0.size.isPowerOfTwo := by
  cases hr : d.rehashidx with
  | none =>
      rw [load_of_idle hr] at h
      exact h
  | some idx =>
      rw [load_of_moving hr] at h
      exact h.1

theorem isPowerOfTwo_ht1 (h : d.load.Regular) (hr : d.isRehashing = true) :
    d.ht1.size.isPowerOfTwo := by
  obtain ⟨idx, hidx⟩ := isRehashing_iff.mp hr
  rw [load_of_moving hidx] at h
  exact h.2.1

/-- A migration has still to find out that no entry is left in the first table, and the coin does
not choose the second. -/
def MissesSample (d : Dict V) (coin : UInt64) : Prop :=
  d.isRehashing = true ∧ d.ht0.used = 0 ∧ coin % 3 ≠ 0

theorem used_ht1_of_missing (hsize : d.size ≠ 0) (hu : d.ht0.used = 0) : d.ht1.used ≠ 0 := by
  rw [size, hu, Nat.zero_add] at hsize
  exact hsize

theorem randomSample_cases (hd : d.Sound) (hsize : d.size ≠ 0) (count : ℕ) (coin start : UInt64) :
    (d.MissesSample coin ∧ d.randomSample count coin start = []) ∨
    (¬ d.MissesSample coin ∧ ∃ t, (t = d.ht0 ∨ t = d.ht1 ∧ d.isRehashing = true) ∧
      t.used ≠ 0 ∧ t.buckets ≠ [] ∧
      d.randomSample count coin start =
        sampleWalk t (min count d.size) t.size (t.bucketIdx start) []) := by
  have hmin : (if d.size < count then d.size else count) = min count d.size := by
    split_ifs with h
    · exact (Nat.min_eq_right h.le).symm
    · exact (Nat.min_eq_left (Nat.le_of_not_lt h)).symm
  have hnull0 : d.ht0.isNull = false := by simpa [isNull] using hd.allocated
  have hnull1 : d.isRehashing = true → d.ht1.isNull = false := by
    intro hr
    obtain ⟨idx, hidx⟩ := isRehashing_iff.mp hr
    simpa [isNull] using (hd.busy idx hidx).1
  by_cases hsecond : d.isRehashing = true ∧ coin % 3 = 0 ∧ d.ht1.used ≠ 0
  · obtain ⟨hr, hcoin, hu⟩ := hsecond
    refine .inr ⟨fun h => h.2.2 hcoin, d.ht1, .inr ⟨rfl, hr⟩, hu, ?_, ?_⟩
    · simpa [isNull] using hnull1 hr
    · simp [randomSample, hsize, hmin, hr, hcoin, hnull1 hr, hu]
  · have hfirst : (d.isRehashing && coin % 3 == 0 && !d.ht1.isNull && d.ht1.used != 0) = false := by
      rw [Bool.eq_false_iff]
      intro h
      simp only [Bool.and_eq_true, beq_iff_eq, bne_iff_ne] at h
      exact hsecond ⟨h.1.1.1, h.1.1.2, h.2⟩
    by_cases hu : d.ht0.used = 0
    · have hu1 := used_ht1_of_missing hsize hu
      have hr : d.isRehashing = true := by
        by_contra hr
        rw [hd.idle (not_isRehashing_iff.mp (Bool.eq_false_iff.mpr hr))] at hu1
        exact hu1 rfl
      refine .inl ⟨⟨hr, hu, fun hcoin => hsecond ⟨hr, hcoin, hu1⟩⟩, ?_⟩
      simp [randomSample, hfirst, hu]
    · refine .inr ⟨fun h => hu h.2.1, d.ht0, .inl rfl, hu, hd.allocated, ?_⟩
      simp [randomSample, hsize, hmin, hfirst, hnull0, hu]

theorem nodup_randomSample (hd : d.Sound) (h : d.load.Regular) (count : ℕ) (coin start : UInt64) :
    ((d.randomSample count coin start).map DictEntry.key).Nodup := by
  by_cases hsize : d.size = 0
  · rw [randomSample, if_pos hsize]
    exact List.nodup_nil
  rcases randomSample_cases hd hsize count coin start with ⟨-, hnil⟩ | ⟨-, t, ht, -, ha, hwalk⟩
  · rw [hnil]
    exact List.nodup_nil
  · rw [hwalk]
    rcases ht with rfl | ⟨rfl, hr⟩
    · exact (sampleWalk_spec hd.live (isPowerOfTwo_ht0 h) (nodup_ht0 hd) (bucketIdx_lt ha _)).1
    · exact (sampleWalk_spec hd.target (isPowerOfTwo_ht1 h hr) (nodup_ht1 hd)
        (bucketIdx_lt ha _)).1

theorem isSample_iff (hd : d.Sound) (h : d.load.Regular) (hsize : d.size ≠ 0) (hcount : 1 ≤ count)
    (coin start : UInt64) :
    d.IsSample count (d.randomSample count coin start) ↔ ¬ d.MissesSample coin := by
  rcases randomSample_cases hd hsize count coin start with
    ⟨hmiss, hnil⟩ | ⟨hmiss, t, ht, hu, ha, hwalk⟩
  · refine iff_of_false (fun hsample => ?_) (not_not_intro hmiss)
    have hone := hsample.nonempty
    rw [hnil] at hone
    cases hone
  · refine iff_of_true ?_ hmiss
    have hlength : (d.randomSample count coin start).length = min (min count d.size) t.used := by
      rw [hwalk]
      rcases ht with rfl | ⟨rfl, hr⟩
      · exact (sampleWalk_spec hd.live (isPowerOfTwo_ht0 h) (nodup_ht0 hd) (bucketIdx_lt ha _)).2
      · exact (sampleWalk_spec hd.target (isPowerOfTwo_ht1 h hr) (nodup_ht1 hd)
          (bucketIdx_lt ha _)).2
    exact {
      stored := fun e => mem_records_of_randomSample
      distinct := nodup_randomSample hd h count coin start
      nonempty := by omega
      bounded := by omega }

/-- `random_sample` draws a sample from every `Dict` that is not empty, unless the entries of the
first table were all migrated or deleted while the migration is still going on and the coin chooses
that table. -/
theorem draws_sample_iff (P : DictParams) (ops : List (DictOp V)) {count : ℕ} (hcount : 1 ≤ count)
    (coin start : UInt64) (hsize : 0 < (ops.foldl step (empty P)).size) :
    (ops.foldl step (empty P)).IsSample count
        ((ops.foldl step (empty P)).randomSample count coin start) ↔
      ¬ (ops.foldl step (empty P)).MissesSample coin :=
  have hreached := reached P ops
  isSample_iff hreached.1 hreached.2 hsize.ne' hcount coin start

/-- Four keys in one bucket and one in another, which is deleted when the four have been
migrated. -/
def emptiedRun : List (DictOp Unit) :=
  ([0, 4, 8, 12, 3].map fun b => .set [b] ()) ++ [.del [3]]

theorem sample_empty :
    (emptiedRun.foldl step (empty (.exact firstByte))).size = 4 ∧
      ¬ (emptiedRun.foldl step (empty (.exact firstByte))).IsSample 5
        ((emptiedRun.foldl step (empty (.exact firstByte))).randomSample 5 1 0) := by
  have hrun : (emptiedRun.foldl step (empty (.exact firstByte))).size = 4 ∧
      ((emptiedRun.foldl step (empty (.exact firstByte))).randomSample 5 1 0).length = 0 := by
    decide +kernel
  refine ⟨hrun.1, fun hsample => ?_⟩
  have hone := hsample.nonempty
  rw [hrun.2] at hone
  cases hone

/-- A coin that 3 divides chooses the second table, which has all the entries. -/
theorem draws_sample_emptiedRun :
    0 < (emptiedRun.foldl step (empty (.exact firstByte))).size ∧
      (emptiedRun.foldl step (empty (.exact firstByte))).isRehashing = true ∧
        (emptiedRun.foldl step (empty (.exact firstByte))).IsSample 5
          ((emptiedRun.foldl step (empty (.exact firstByte))).randomSample 5 3 0) := by
  have hrun : 0 < (emptiedRun.foldl step (empty (.exact firstByte))).size ∧
      (emptiedRun.foldl step (empty (.exact firstByte))).isRehashing = true := by decide +kernel
  have hmiss : ¬ (emptiedRun.foldl step (empty (.exact firstByte))).MissesSample 3 :=
    fun h => absurd h.2.2 (by decide)
  exact ⟨hrun.1, hrun.2, (draws_sample_iff _ _ (by decide) 3 0 hrun.1).mpr hmiss⟩

end Dict

end Keva
