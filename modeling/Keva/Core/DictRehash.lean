import Keva.Core.DictTable

/-!
# Incremental rehash keeps the records

`Dict.Sound` says that both tables are sound, that no key is stored twice, that the rehash target
exists exactly while the cursor is set, and that the buckets below the cursor are empty. One
migration step moves entries from `ht0` to `ht1` and nothing else, never reads past the bucket
array, and leaves a sound `Dict`.
-/

open scoped List

namespace Keva.Dict

open DictHashTable

variable {V : Type} {d d' : Dict V}

/-- The entries of both tables. -/
def records (d : Dict V) : List (DictEntry V) := d.ht0.entries ++ d.ht1.entries

structure Sound (d : Dict V) : Prop where
  live : d.ht0.Sound d.params.hash
  target : d.ht1.Sound d.params.hash
  nodup : (d.records.map DictEntry.key).Nodup
  allocated : d.ht0.buckets ≠ []
  idle : d.rehashidx = none → d.ht1 = null
  busy : ∀ idx, d.rehashidx = some idx →
    d.ht1.buckets ≠ [] ∧ idx ≤ d.ht0.size ∧ ∀ i < idx, d.ht0.chain i = []

/-- The same records with the same hash and the same released values. -/
structure SameRecords (d d' : Dict V) : Prop where
  params : d'.params = d.params
  released : d'.released = d.released
  perm : d'.records ~ d.records

namespace SameRecords

theorem refl (d : Dict V) : SameRecords d d := ⟨rfl, rfl, List.Perm.refl _⟩

theorem trans {d₁ d₂ d₃ : Dict V} (h : SameRecords d₁ d₂) (h' : SameRecords d₂ d₃) :
    SameRecords d₁ d₃ :=
  ⟨h'.params.trans h.params, h'.released.trans h.released, h'.perm.trans h.perm⟩

end SameRecords

theorem isRehashing_iff : d.isRehashing = true ↔ ∃ idx, d.rehashidx = some idx := by
  rw [isRehashing, Option.isSome_iff_exists]

theorem not_isRehashing_iff : d.isRehashing = false ↔ d.rehashidx = none := by
  rw [isRehashing, Option.isSome_eq_false_iff, Option.isNone_iff_eq_none]

theorem size_eq (hd : d.Sound) : d.size = d.records.length := by
  rw [size, records, List.length_append, hd.live.used_eq, hd.target.used_eq]

/-- Below the place where the skip loop stops, every bucket from the cursor on is empty. -/
def SkipSpec (bs : List (List (DictEntry V))) (idx : ℕ) : SkipResult → Prop
  | .found i _ => idx ≤ i ∧ i < bs.length ∧ Buckets.chain bs i ≠ [] ∧
      ∀ j, idx ≤ j → j < i → Buckets.chain bs j = []
  | .limitReached i => idx < i ∧ i ≤ bs.length ∧ ∀ j, idx ≤ j → j < i → Buckets.chain bs j = []
  | .outOfBounds => ∀ j, idx ≤ j → Buckets.chain bs j = []

theorem skipEmpty_spec (bs : List (List (DictEntry V))) (idx : ℕ) (limit : ℤ) :
    SkipSpec bs idx (skipEmpty (bs.drop idx) idx limit) := by
  induction hn : bs.length - idx generalizing idx limit with
  | zero =>
      rw [List.drop_eq_nil_of_le (by omega), skipEmpty]
      exact fun j hj => Buckets.chain_of_length_le (by omega)
  | succ n ih =>
      have hlt : idx < bs.length := by omega
      have hchain := Buckets.chain_eq_getElem hlt
      rw [List.drop_eq_getElem_cons hlt, ← hchain]
      cases hc : Buckets.chain bs idx with
      | cons e es =>
          refine ⟨le_rfl, hlt, by rw [hc]; exact List.cons_ne_nil _ _, fun j h1 h2 => ?_⟩
          omega
      | nil =>
          have hjoin : ∀ i, (∀ j, idx + 1 ≤ j → j < i → Buckets.chain bs j = []) →
              ∀ j, idx ≤ j → j < i → Buckets.chain bs j = [] := by
            intro i h j h1 h2
            rcases Nat.eq_or_lt_of_le h1 with rfl | h1
            · exact hc
            · exact h j h1 h2
          rw [skipEmpty]
          split_ifs
          · exact ⟨by omega, by omega, hjoin _ (fun j h1 h2 => by omega)⟩
          · have hrec := ih (idx + 1) (limit - 1) (by omega)
            cases hr : skipEmpty (bs.drop (idx + 1)) (idx + 1) (limit - 1) with
            | found i l =>
                rw [hr] at hrec
                exact ⟨by have := hrec.1; omega, hrec.2.1, hrec.2.2.1, hjoin i hrec.2.2.2⟩
            | limitReached i =>
                rw [hr] at hrec
                exact ⟨by have := hrec.1; omega, hrec.2.1, hjoin i hrec.2.2⟩
            | outOfBounds =>
                rw [hr] at hrec
                intro j hj
                exact hjoin (j + 1) (fun k h1 _ => hrec k h1) j hj (by omega)

theorem foldl_migrateEntry (c : List (DictEntry V)) (d : Dict V) :
    c.foldl migrateEntry d =
      { d with
        ht0 := { d.ht0 with used := d.ht0.used - c.length }
        ht1 := c.foldl prepend d.ht1 } := by
  induction c generalizing d with
  | nil => rfl
  | cons e c ih =>
      rw [List.foldl_cons, ih]
      simp only [migrateEntry, List.foldl_cons, List.length_cons, Nat.sub_sub, Nat.add_comm 1]

theorem prepend_buckets_ne_nil {t : DictHashTable V} (ha : t.buckets ≠ []) (e : DictEntry V) :
    (t.prepend e).buckets ≠ [] := by
  rw [← List.length_pos_iff] at ha ⊢
  simpa [prepend, setChain] using ha

theorem foldl_prepend {hash : Bytes → UInt64} (c : List (DictEntry V)) {t : DictHashTable V}
    (hs : t.Sound hash) (ha : t.buckets ≠ []) (hc : ∀ e ∈ c, e.hashVal = hash e.key) :
    (c.foldl prepend t).Sound hash ∧ (c.foldl prepend t).buckets ≠ [] ∧
      (c.foldl prepend t).entries ~ c ++ t.entries := by
  induction c generalizing t with
  | nil => exact ⟨hs, ha, List.Perm.refl _⟩
  | cons e c ih =>
      obtain ⟨h1, h2, h3⟩ := ih (sound_prepend hs ha (hc e (List.mem_cons_self)))
        (prepend_buckets_ne_nil ha e) (fun x hx => hc x (List.mem_cons_of_mem _ hx))
      refine ⟨h1, h2, ?_⟩
      calc
        _ ~ c ++ (t.prepend e).entries := h3
        _ ~ c ++ e :: t.entries := (entries_prepend_perm ha e).append_left c
        _ ~ _ := List.perm_middle

theorem migrateBucket_eq (d : Dict V) (idx : ℕ) :
    d.migrateBucket idx =
      { d with
        ht0 := { d.ht0.setChain idx [] with used := d.ht0.used - (d.ht0.chain idx).length }
        ht1 := (d.ht0.chain idx).foldl prepend d.ht1
        rehashidx := some (idx + 1) } := by
  simp only [migrateBucket, foldl_migrateEntry]
  rfl

theorem migrateBucket_records (hd : d.Sound) {idx : ℕ} (hi : idx < d.ht0.buckets.length)
    (h1 : d.ht1.buckets ≠ []) : (d.migrateBucket idx).records ~ d.records := by
  obtain ⟨-, -, hperm⟩ := foldl_prepend (d.ht0.chain idx) hd.target h1
    (fun e he => (hd.live.placed idx e he).1)
  rw [migrateBucket_eq]
  calc
    _ ~ (d.ht0.setChain idx []).entries ++ (d.ht0.chain idx ++ d.ht1.entries) :=
      hperm.append_left _
    _ = ((d.ht0.setChain idx []).entries ++ d.ht0.chain idx) ++ d.ht1.entries :=
      (List.append_assoc ..).symm
    _ ~ (d.ht0.chain idx ++ (d.ht0.setChain idx []).entries) ++ d.ht1.entries :=
      List.perm_append_comm.append_right _
    _ ~ d.ht0.entries ++ d.ht1.entries := (entries_perm hi).symm.append_right _

theorem sameRecords_migrateBucket (hd : d.Sound) {idx : ℕ} (hi : idx < d.ht0.buckets.length)
    (h1 : d.ht1.buckets ≠ []) : SameRecords d (d.migrateBucket idx) where
  params := by rw [migrateBucket_eq]
  released := by rw [migrateBucket_eq]
  perm := migrateBucket_records hd hi h1

theorem sound_emptied (hd : d.Sound) {idx : ℕ} (hi : idx < d.ht0.buckets.length) :
    DictHashTable.Sound d.params.hash
      { d.ht0.setChain idx [] with used := d.ht0.used - (d.ht0.chain idx).length } where
  placed j e he := by
    obtain ⟨hh, hidx⟩ := placed_setChain (i := idx) hd.live
      (fun x (hx : x ∈ ([] : List (DictEntry V))) => by cases hx) j e he
    exact ⟨hh, (bucketIdx_setChain ..).trans hidx⟩
  used_eq := by
    have hlen := (entries_perm (t := d.ht0) hi).length_eq
    rw [List.length_append, ← hd.live.used_eq] at hlen
    change d.ht0.used - (d.ht0.chain idx).length = (d.ht0.setChain idx []).entries.length
    omega

theorem sound_migrateBucket (hd : d.Sound) {idx : ℕ} (hi : idx < d.ht0.buckets.length)
    (h1 : d.ht1.buckets ≠ []) (hbelow : ∀ j < idx, d.ht0.chain j = []) :
    (d.migrateBucket idx).Sound := by
  have hsame := sameRecords_migrateBucket hd hi h1
  obtain ⟨hs1, ha1, -⟩ := foldl_prepend (d.ht0.chain idx) hd.target h1
    (fun e he => (hd.live.placed idx e he).1)
  have hnodup := (hsame.perm.map DictEntry.key).nodup_iff.mpr hd.nodup
  rw [migrateBucket_eq] at hnodup ⊢
  refine ⟨sound_emptied hd hi, hs1, hnodup, ?_, by simp, ?_⟩
  · intro hnil
    have : d.ht0.buckets.length = 0 := by simpa [setChain] using congrArg List.length hnil
    omega
  · intro i hidx
    obtain rfl : idx + 1 = i := by simpa using hidx
    refine ⟨ha1, by simpa [DictHashTable.size, setChain] using hi, fun j hj => ?_⟩
    change Buckets.chain (d.ht0.buckets.set idx []) j = []
    rw [Buckets.chain_set]
    split_ifs with hij
    · rfl
    · exact hbelow j (by omega)

theorem chain_eq_nil_of_skipped (hd : d.Sound) {idx i : ℕ} (hidx : d.rehashidx = some idx)
    (hskip : ∀ j, idx ≤ j → j < i → d.ht0.chain j = []) : ∀ j < i, d.ht0.chain j = [] := by
  intro j hj
  by_cases h : j < idx
  · exact (hd.busy idx hidx).2.2 j h
  · exact hskip j (by omega) hj

theorem sound_advance (hd : d.Sound) {idx i : ℕ} (hidx : d.rehashidx = some idx)
    (hi : i ≤ d.ht0.size) (hskip : ∀ j, idx ≤ j → j < i → d.ht0.chain j = []) :
    Sound { d with rehashidx := some i } := by
  refine ⟨hd.live, hd.target, hd.nodup, hd.allocated, by simp, fun k hk => ?_⟩
  obtain rfl : i = k := by simpa using hk
  exact ⟨(hd.busy idx hidx).1, hi, chain_eq_nil_of_skipped hd hidx hskip⟩

/-- What the migration loop does to a `Dict` whose cursor is at `idx`: it stops inside the bucket
array, with the same records, and the cursor has not moved back. -/
def LoopSpec (d : Dict V) (idx : ℕ) : RehashOutcome V → Prop
  | .migrated d' | .paused d' =>
      d'.Sound ∧ SameRecords d d' ∧ ∃ idx', d'.rehashidx = some idx' ∧ idx ≤ idx'
  | .outOfBounds _ => False

theorem rehashLoop_spec (steps : ℕ) (limit : ℤ) (hd : d.Sound) {idx : ℕ}
    (hidx : d.rehashidx = some idx) : LoopSpec d idx (rehashLoop steps limit d) := by
  induction steps generalizing d limit idx with
  | zero => exact ⟨hd, SameRecords.refl d, idx, hidx, le_rfl⟩
  | succ steps ih =>
      rw [rehashLoop]
      split_ifs with hu
      · exact ⟨hd, SameRecords.refl d, idx, hidx, le_rfl⟩
      have ha := (hd.busy idx hidx).1
      have hskip := skipEmpty_spec d.ht0.buckets idx limit
      simp only [hidx, Option.getD_some]
      cases hr : skipEmpty (d.ht0.buckets.drop idx) idx limit with
      | found i l =>
          rw [hr] at hskip
          obtain ⟨h1, h2, -, h4⟩ := hskip
          have hs := sound_migrateBucket hd h2 ha (chain_eq_nil_of_skipped hd hidx h4)
          have hcur : (d.migrateBucket i).rehashidx = some (i + 1) := by rw [migrateBucket_eq]
          have hrec := ih l hs hcur
          have hsame := sameRecords_migrateBucket hd h2 ha
          change LoopSpec d idx (rehashLoop steps l (d.migrateBucket i))
          cases ho : rehashLoop steps l (d.migrateBucket i) with
          | migrated d' | paused d' =>
              rw [ho] at hrec
              obtain ⟨g1, g2, idx', g3, g4⟩ := hrec
              exact ⟨g1, hsame.trans g2, idx', g3, by omega⟩
          | outOfBounds d' => rw [ho] at hrec; exact hrec
      | limitReached i =>
          rw [hr] at hskip
          obtain ⟨h1, h2, h3⟩ := hskip
          exact ⟨sound_advance hd hidx h2 h3, ⟨rfl, rfl, List.Perm.refl _⟩, i, rfl, by omega⟩
      | outOfBounds =>
          -- an entry is left in `ht0`, and it is not in a bucket below the cursor
          rw [hr] at hskip
          apply hu
          rw [← entries_eq_nil_iff hd.live, List.eq_nil_iff_forall_not_mem]
          intro e he
          obtain ⟨j, hj⟩ := mem_entries_iff.mp he
          have hnil : d.ht0.chain j = [] :=
            chain_eq_nil_of_skipped hd hidx (fun j h _ => hskip j h) j (Nat.lt_succ_self j)
          rw [hnil] at hj
          cases hj

theorem sound_completeRehash (hd : d.Sound) {idx : ℕ} (hidx : d.rehashidx = some idx)
    (hu : d.ht0.used = 0) : d.completeRehash.Sound ∧ SameRecords d d.completeRehash := by
  have hnil := (entries_eq_nil_iff hd.live).mpr hu
  have hrec : d.completeRehash.records = d.records := by
    simp [records, completeRehash, hnil]
  refine ⟨⟨hd.target, sound_null, hrec ▸ hd.nodup, (hd.busy idx hidx).1, fun _ => rfl, ?_⟩,
    ⟨rfl, rfl, List.Perm.of_eq hrec⟩⟩
  intro i hi
  cases hi

/-- One call of `rehash_step` moves records between the tables and changes nothing else. -/
theorem rehashStep_spec (hd : d.Sound) (steps : ℤ) :
    (d.rehashStep steps).2.Sound ∧ SameRecords d (d.rehashStep steps).2 := by
  rw [rehashStep]
  cases hr : d.isRehashing with
  | false => exact ⟨hd, SameRecords.refl d⟩
  | true =>
      obtain ⟨idx, hidx⟩ := isRehashing_iff.mp hr
      have hloop := rehashLoop_spec steps.toNat (steps * 10) hd hidx
      simp only [Bool.not_true, Bool.false_eq_true, if_false]
      cases ho : rehashLoop steps.toNat (steps * 10) d with
      | paused d' =>
          rw [ho] at hloop
          exact ⟨hloop.1, hloop.2.1⟩
      | outOfBounds d' => rw [ho] at hloop; exact hloop.elim
      | migrated d' =>
          rw [ho] at hloop
          obtain ⟨h1, h2, idx', h3, -⟩ := hloop
          by_cases hu : d'.ht0.used = 0
          · obtain ⟨h4, h5⟩ := sound_completeRehash h1 h3 hu
            simpa only [hu, if_true] using ⟨h4, h2.trans h5⟩
          · simpa only [hu, if_false] using ⟨h1, h2⟩

theorem stepIfRehashing_spec (hd : d.Sound) :
    d.stepIfRehashing.Sound ∧ SameRecords d d.stepIfRehashing := by
  rw [stepIfRehashing]
  split_ifs
  · exact rehashStep_spec hd 1
  · exact ⟨hd, SameRecords.refl d⟩

end Keva.Dict
