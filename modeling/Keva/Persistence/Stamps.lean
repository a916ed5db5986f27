import Keva.Core.Shown
import Keva.Lib.Int64Exact
import Keva.Persistence.Rdb

/-!
# Saving while the clock runs

A save asks for the time that a key has left and then adds the time that it reads next. Between the
two readings the clock may move on, and then the record has a later deadline than the key. For each
sequence of readings the records are told in terms of the contents of the database, and it is said
for which readings they have the deadlines of their keys.
-/

namespace Keva

/-- The readings of the system clock that a save makes, in milliseconds since the epoch. -/
structure SaveClock where
  reading : ℕ → MillisecondTimestamp
  nonneg : 0 ≤ reading 0
  mono : ∀ n, reading n ≤ reading (n + 1)

namespace SaveClock

variable (clock : SaveClock)

theorem reading_zero_le (n : ℕ) : clock.reading 0 ≤ clock.reading n := by
  induction n with
  | zero => exact Int64.le_refl _
  | succ n ih => exact Int64.le_trans ih (clock.mono n)

/-- A clock that stands still. -/
def still (t : MillisecondTimestamp) (ht : 0 ≤ t.toInt) : SaveClock where
  reading := fun _ => t
  nonneg := Int64.le_iff_toInt_le.mpr ht
  mono := fun _ => Int64.le_refl t

end SaveClock

/-- The deadline that is recorded for `e`: the time left at `c`, counted from `c'` on. -/
def recordedDeadline (e c c' : MillisecondTimestamp) : MillisecondTimestamp :=
  c' + (if 0 < e - c then e - c else 0)

/-- The recorded deadline is the deadline if the clock stood still and had not passed it. -/
theorem recordedDeadline_eq_iff {e c c' : MillisecondTimestamp} (he : 0 ≤ e) (hc : 0 ≤ c)
    (hcc' : c ≤ c') : recordedDeadline e c c' = e ↔ c = c' ∧ c ≤ e := by
  have h0 : (0 : Int64).toInt = 0 := rfl
  rw [Int64.le_iff_toInt_le, h0] at he hc
  have hsub : (e - c).toInt = e.toInt - c.toInt := by
    have he' := e.inI64_toInt
    have hc' := c.inI64_toInt
    rw [Int64.toInt_sub_eq_iff]
    unfold InI64 at he' hc' ⊢
    omega
  have hleft : 0 < e - c ↔ c.toInt < e.toInt := by
    rw [Int64.lt_iff_toInt_lt, hsub, h0]
    omega
  unfold recordedDeadline
  by_cases hpos : 0 < e - c
  · have hlt := hleft.mp hpos
    rw [if_pos hpos]
    constructor
    · intro h
      have hcancel : c' + (e - c) = c + (e - c) := by
        rw [h, Int64.add_comm, Int64.sub_add_cancel]
      refine ⟨((Int64.add_left_inj _).mp hcancel).symm, ?_⟩
      rw [Int64.le_iff_toInt_le]
      omega
    · rintro ⟨rfl, -⟩
      rw [Int64.add_comm, Int64.sub_add_cancel]
  · have hle : e.toInt ≤ c.toInt := not_lt.mp fun h => hpos (hleft.mpr h)
    rw [if_neg hpos, Int64.add_zero]
    rw [Int64.le_iff_toInt_le] at hcc' ⊢
    constructor
    · rintro rfl
      have heq : c = c' := Int64.toInt_inj.mp (by omega)
      exact ⟨heq, by rw [heq]⟩
    · rintro ⟨rfl, h⟩
      exact Int64.toInt_inj.mp (by omega)

theorem SaveClock.recordedDeadline_eq_iff (clock : SaveClock) (n : ℕ) {e : MillisecondTimestamp}
    (h : clock.reading 0 < e) :
    recordedDeadline e (clock.reading n) (clock.reading (n + 1)) = e ↔
      clock.reading n = clock.reading (n + 1) ∧ clock.reading n ≤ e := by
  apply Keva.recordedDeadline_eq_iff _ _ (clock.mono n)
  · exact Int64.le_of_lt (Int64.lt_of_le_of_lt clock.nonneg h)
  · exact Int64.le_trans clock.nonneg (clock.reading_zero_le n)

namespace KevaDatabase

variable {clock : ℕ → MillisecondTimestamp}

/-- The records for the entries, from clock reading `n` on, in terms of the contents. -/
def stampedRecords (clock : ℕ → MillisecondTimestamp) (K : Keyspace) :
    List (Bytes × KevaObject) → ℕ → List RdbRecord
  | [], _ => []
  | p :: entries, n =>
      if K.expired (clock 0) p.1 then stampedRecords clock K entries n
      else
        match K.deadlines p.1 with
        | some e =>
            ⟨p.1, p.2.getStringValue, some (recordedDeadline e (clock n) (clock (n + 1)))⟩ ::
              stampedRecords clock K entries (n + 2)
        | none => ⟨p.1, p.2.getStringValue, none⟩ :: stampedRecords clock K entries n

theorem saveWalk_eq_stampedRecords {entries : List (Bytes × KevaObject)} {db : KevaDatabase}
    (h : ∀ p ∈ entries, db.content.objects p.1 = some p.2) (n : ℕ) :
    (saveWalk clock entries n db).1 = stampedRecords clock db.content entries n := by
  induction entries generalizing n db with
  | nil => rfl
  | cons p entries ih =>
      obtain ⟨k, obj⟩ := p
      have ho : db.content.objects k = some obj := h _ List.mem_cons_self
      have hrest : ∀ p ∈ entries, db.content.objects p.1 = some p.2 :=
        fun p hp => h p (List.mem_cons_of_mem _ hp)
      rw [saveWalk, isExpired_eq, stampedRecords]
      dsimp only
      cases db.content.expired (clock 0) k with
      | true => exact ih hrest n
      | false =>
          have hcontent : (db.pttl k (clock n)).2.content = db.content := content_pttl db k _
          rw [if_neg Bool.false_ne_true, if_neg Bool.false_ne_true, pttl_fst]
          rw [← hcontent] at hrest
          cases hd : db.content.deadlines k with
          | none =>
              have hp : db.content.pttl k (clock n) = -1 := by
                unfold Keyspace.pttl
                rw [ho, hd]
              rw [hp, if_neg (by decide)]
              dsimp only
              rw [ih hrest, hcontent]
          | some e =>
              have hp : db.content.pttl k (clock n) =
                  if 0 < e - clock n then e - clock n else 0 := by
                unfold Keyspace.pttl
                rw [ho, hd]
              have hnn : 0 ≤ db.content.pttl k (clock n) := by
                rw [hp]
                split_ifs with hpos
                · exact Int64.le_of_lt hpos
                · exact Int64.le_refl 0
              rw [if_pos hnn]
              dsimp only
              rw [ih hrest, hcontent, hp]
              rfl

theorem saveRecords_eq (db : KevaDatabase) (clock : ℕ → MillisecondTimestamp) :
    (db.saveRecords clock).1 = stampedRecords clock db.content db.keys.forEach 1 :=
  saveWalk_eq_stampedRecords (fun _ hp => (Dict.mem_forEach_iff db.keys_sound).mp hp) 1

theorem mem_stampedRecords {K : Keyspace} {entries : List (Bytes × KevaObject)} {r : RdbRecord}
    {n : ℕ} (h : r ∈ stampedRecords clock K entries n) :
    ∃ p ∈ entries, r.key = p.1 ∧ r.value = p.2.getStringValue := by
  induction entries generalizing n with
  | nil => cases h
  | cons p entries ih =>
      have hrest : ∀ {n}, r ∈ stampedRecords clock K entries n →
          ∃ p' ∈ p :: entries, r.key = p'.1 ∧ r.value = p'.2.getStringValue := by
        intro n hr
        obtain ⟨p', hp', heq⟩ := ih hr
        exact ⟨p', List.mem_cons_of_mem p hp', heq⟩
      rw [stampedRecords] at h
      split_ifs at h
      · exact hrest h
      · cases hd : K.deadlines p.1 with
        | none =>
            rw [hd] at h
            rcases List.mem_cons.mp h with rfl | h
            · exact ⟨p, List.mem_cons_self, rfl, rfl⟩
            · exact hrest h
        | some e =>
            rw [hd] at h
            rcases List.mem_cons.mp h with rfl | h
            · exact ⟨p, List.mem_cons_self, rfl, rfl⟩
            · exact hrest h

theorem objects_of_mem_saveRecords {db : KevaDatabase} {r : RdbRecord}
    (h : r ∈ (db.saveRecords clock).1) :
    ∃ obj, db.content.objects r.key = some obj ∧ r.value = obj.getStringValue := by
  rw [saveRecords_eq] at h
  obtain ⟨⟨k, obj⟩, hp, hkey, hvalue⟩ := mem_stampedRecords h
  refine ⟨obj, ?_, hvalue⟩
  rw [hkey]
  exact (Dict.mem_forEach_iff db.keys_sound).mp hp

/-- The deadlines of the entries that a save beginning at `t` visits, in the order of its visits. -/
def visitedDeadlines (K : Keyspace) (t : MillisecondTimestamp)
    (entries : List (Bytes × KevaObject)) : List MillisecondTimestamp :=
  (entries.filter fun p => !K.expired t p.1).filterMap fun p => K.deadlines p.1

end KevaDatabase

/-- For each of the deadlines, in this order, the two readings from the `n`-th on agree and have not
passed it. -/
def PunctualFrom (clock : ℕ → MillisecondTimestamp) (deadlines : List MillisecondTimestamp)
    (n : ℕ) : Prop :=
  ∀ i e, deadlines[i]? = some e →
    clock (n + 2 * i) = clock (n + 2 * i + 1) ∧ clock (n + 2 * i) ≤ e

theorem punctualFrom_cons {clock : ℕ → MillisecondTimestamp} {e : MillisecondTimestamp}
    {deadlines : List MillisecondTimestamp} {n : ℕ} :
    PunctualFrom clock (e :: deadlines) n ↔
      (clock n = clock (n + 1) ∧ clock n ≤ e) ∧ PunctualFrom clock deadlines (n + 2) := by
  have hshift : ∀ i, n + 2 * (i + 1) = n + 2 + 2 * i := fun i => by omega
  constructor
  · intro h
    refine ⟨h 0 e rfl, fun i e' hi => ?_⟩
    have hnext := h (i + 1) e' hi
    rwa [hshift] at hnext
  · rintro ⟨hfirst, hrest⟩ i e' hi
    cases i with
    | zero =>
        cases hi
        exact hfirst
    | succ i =>
        rw [hshift]
        exact hrest i e' hi

namespace KevaDatabase

/-- The records carry the deadlines of their keys. -/
def CarryDeadlines (K : Keyspace) (records : List RdbRecord) : Prop :=
  ∀ r ∈ records, ∀ e, K.deadlines r.key = some e → r.expire = some e

theorem carryDeadlines_stampedRecords_iff (clock : SaveClock) (K : Keyspace)
    (entries : List (Bytes × KevaObject)) (n : ℕ) :
    CarryDeadlines K (stampedRecords clock.reading K entries n) ↔
      PunctualFrom clock.reading (visitedDeadlines K (clock.reading 0) entries) n := by
  induction entries generalizing n with
  | nil => exact iff_of_true (fun r hr => by cases hr) (fun i e hi => by cases hi)
  | cons p entries ih =>
      unfold visitedDeadlines at ih ⊢
      rw [stampedRecords, List.filter_cons]
      cases he : K.expired (clock.reading 0) p.1 with
      | true => exact ih n
      | false =>
          rw [if_neg Bool.false_ne_true, Bool.not_false, if_pos rfl, List.filterMap_cons]
          cases hd : K.deadlines p.1 with
          | none =>
              dsimp only
              rw [← ih n]
              unfold CarryDeadlines
              rw [List.forall_mem_cons]
              refine and_iff_right fun e hdeadline => ?_
              rw [hd] at hdeadline
              cases hdeadline
          | some e =>
              have hhead := clock.recordedDeadline_eq_iff n ((Keyspace.not_expired_iff hd).mp he)
              dsimp only
              rw [punctualFrom_cons, ← ih (n + 2), ← hhead]
              unfold CarryDeadlines
              rw [List.forall_mem_cons]
              refine and_congr_left' ⟨fun h => Option.some.inj (h e hd), fun h e' hd' => ?_⟩
              rw [hd] at hd'
              cases hd'
              rw [h]

/-- Every record of the save carries the deadline of its key. -/
def SavesDeadlines (db : KevaDatabase) (clock : SaveClock) : Prop :=
  CarryDeadlines db.content (db.saveRecords clock.reading).1

/-- For every key with a deadline that the save visits, the two readings of the clock that it makes
for this key agree and have not passed the deadline. -/
def PunctualSave (db : KevaDatabase) (clock : SaveClock) : Prop :=
  PunctualFrom clock.reading
    (visitedDeadlines db.content (clock.reading 0) db.keys.forEach) 1

theorem savesDeadlines_iff (db : KevaDatabase) (clock : SaveClock) :
    db.SavesDeadlines clock ↔ db.PunctualSave clock := by
  unfold SavesDeadlines PunctualSave
  rw [saveRecords_eq]
  exact carryDeadlines_stampedRecords_iff clock _ _ 1

theorem stampedRecords_of_punctual {K : Keyspace} {entries : List (Bytes × KevaObject)} {n : ℕ}
    (clock : SaveClock)
    (h : PunctualFrom clock.reading (visitedDeadlines K (clock.reading 0) entries) n) :
    stampedRecords clock.reading K entries n =
      (entries.filter fun p => !K.expired (clock.reading 0) p.1).map fun p =>
        ⟨p.1, p.2.getStringValue, K.deadlines p.1⟩ := by
  induction entries generalizing n with
  | nil => rfl
  | cons p entries ih =>
      unfold visitedDeadlines at ih h
      rw [List.filter_cons] at h
      rw [stampedRecords, List.filter_cons]
      cases he : K.expired (clock.reading 0) p.1 with
      | true =>
          rw [he] at h
          exact ih h
      | false =>
          rw [he, Bool.not_false, if_pos rfl, List.filterMap_cons] at h
          rw [if_neg Bool.false_ne_true, Bool.not_false, if_pos rfl, List.map_cons]
          cases hd : K.deadlines p.1 with
          | none =>
              rw [hd] at h
              dsimp only at h ⊢
              rw [ih h]
          | some e =>
              rw [hd] at h
              dsimp only at h ⊢
              obtain ⟨hhead, hrest⟩ := punctualFrom_cons.mp h
              rw [← clock.recordedDeadline_eq_iff n ((Keyspace.not_expired_iff hd).mp he)] at hhead
              rw [hhead, ih hrest]

theorem punctualFrom_still (t : MillisecondTimestamp) (K : Keyspace)
    (entries : List (Bytes × KevaObject)) (n : ℕ) :
    PunctualFrom (fun _ => t) (visitedDeadlines K t entries) n := by
  intro i e hi
  obtain ⟨p, hp, hd⟩ := List.mem_filterMap.mp (List.mem_of_getElem? hi)
  have he : K.expired t p.1 = false := by
    rw [List.mem_filter, Bool.not_eq_true'] at hp
    exact hp.2
  exact ⟨rfl, Int64.le_of_lt ((Keyspace.not_expired_iff hd).mp he)⟩

end KevaDatabase

end Keva
