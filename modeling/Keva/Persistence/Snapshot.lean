import Keva.Persistence.RdbRoundTrip
import Keva.Persistence.Stamps

/-!
# What a snapshot records

When the clock stands still at `t` during a save, the records are exactly the keys that are shown at
`t`, each with its value and its absolute deadline. Loading them into an empty database brings back
the same keys, values and deadlines.
-/

namespace Keva

namespace KevaDatabase

variable {t : MillisecondTimestamp}

theorem saveWalk_eq (ht : 0 ≤ t.toInt) {entries : List (Bytes × KevaObject)} {db : KevaDatabase}
    (h : ∀ p ∈ entries, db.content.objects p.1 = some p.2) (n : ℕ) :
    (saveWalk (fun _ => t) entries n db).1 =
      (entries.filter fun p => !db.content.expired t p.1).map fun p =>
        ⟨p.1, p.2.getStringValue, db.content.deadlines p.1⟩ := by
  rw [saveWalk_eq_stampedRecords h]
  exact stampedRecords_of_punctual (.still t ht) (punctualFrom_still t _ _ n)

theorem saveRecords_spec (ht : 0 ≤ t.toInt) (db : KevaDatabase) :
    ((db.saveRecords fun _ => t).1.map RdbRecord.key).Nodup ∧
      ∀ r, r ∈ (db.saveRecords fun _ => t).1 ↔
        db.content.shown t r.key = some (r.value, r.expire) := by
  have hmem : ∀ p, p ∈ db.keys.forEach ↔ db.content.objects p.1 = some p.2 := fun p =>
    Dict.mem_forEach_iff db.keys_sound
  have heq := saveWalk_eq ht (fun p hp => (hmem p).mp hp) 1
  unfold saveRecords
  rw [heq]
  constructor
  · rw [List.map_map]
    exact (List.filter_sublist.map _).nodup (Dict.nodup_forEach db.keys_sound)
  · intro r
    rw [List.mem_map]
    constructor
    · rintro ⟨p, hp, rfl⟩
      rw [List.mem_filter, Bool.not_eq_true'] at hp
      exact Keyspace.shown_of_live ((hmem p).mp hp.1) hp.2
    · intro hshown
      obtain ⟨obj, ho, he, hv, hd⟩ := Keyspace.shown_eq_some_iff.mp hshown
      refine ⟨(r.key, obj), ?_, ?_⟩
      · rw [List.mem_filter, Bool.not_eq_true']
        exact ⟨(hmem _).mpr ho, he⟩
      · dsimp only
        rw [hv, hd]

end KevaDatabase

/-- `K'` has the keys that are live in `K` at `t`, with the same bytes and deadlines, and no
others. -/
structure Keyspace.Restores (t : MillisecondTimestamp) (K K' : Keyspace) : Prop where
  keys : ∀ k, (K'.objects k).isSome ↔ K.Live t k
  values : ∀ k, (K'.objects k).map KevaObject.getStringValue = (K.shown t k).map Prod.fst
  deadlines : ∀ k, K'.deadlines k = (K.shown t k).bind Prod.snd

namespace KevaDatabase

theorem shown_deadline_ne {K : Keyspace} {k v : Bytes} {e : MillisecondTimestamp}
    (ht : 0 ≤ t.toInt) (h : K.shown t k = some (v, some e)) : e ≠ -1 := by
  obtain ⟨obj, -, he, -, hd⟩ := Keyspace.shown_eq_some_iff.mp h
  have hlt := (Keyspace.not_expired_iff hd).mp he
  rw [Int64.lt_iff_toInt_lt] at hlt
  rintro rfl
  have hneg : (-1 : Int64).toInt = -1 := rfl
  omega

theorem getStringValue_createString_of_shown {K : Keyspace} (hK : K.Canonical) {k v : Bytes}
    {e : Option MillisecondTimestamp} (h : K.shown t k = some (v, e)) (clock : UInt32) :
    (KevaObject.createString v clock).getStringValue = v := by
  obtain ⟨obj, ho, -, rfl, -⟩ := Keyspace.shown_eq_some_iff.mp h
  exact (hK k obj ho).getStringValue_createString clock

theorem restores_loadRecords (ht : 0 ≤ t.toInt) {db db' : KevaDatabase}
    (hdb : db.content.Canonical) (hempty : db'.content = .empty) (secs : ℕ → Int64) :
    Keyspace.Restores t db.content
      (loadRecords secs 0 (db.saveRecords fun _ => t).1 db').content := by
  obtain ⟨hnodup, hmem⟩ := saveRecords_spec ht db
  have hkey : ∀ k, ((loadRecords secs 0 (db.saveRecords fun _ => t).1 db').content.objects k).map
        KevaObject.getStringValue = (db.content.shown t k).map Prod.fst ∧
      (loadRecords secs 0 (db.saveRecords fun _ => t).1 db').content.deadlines k =
        (db.content.shown t k).bind Prod.snd := by
    intro k
    cases hshown : db.content.shown t k with
    | none =>
        have hk : k ∉ (db.saveRecords fun _ => t).1.map RdbRecord.key := by
          intro hk
          obtain ⟨r, hr, rfl⟩ := List.mem_map.mp hk
          rw [hmem, hshown] at hr
          cases hr
        obtain ⟨ho, hd⟩ := @loadRecords_of_notMem secs _ k hk 0 db'
        rw [ho, hd, hempty]
        exact ⟨rfl, rfl⟩
    | some shown =>
        obtain ⟨v, e⟩ := shown
        have hr : (⟨k, v, e⟩ : RdbRecord) ∈ (db.saveRecords fun _ => t).1 := (hmem _).mpr hshown
        obtain ⟨⟨clock, ho⟩, hd⟩ := @loadRecords_of_mem secs _ hnodup _ hr 0 db'
        rw [ho, hd, Option.map_some, getStringValue_createString_of_shown hdb hshown]
        refine ⟨rfl, ?_⟩
        cases e with
        | none => rfl
        | some e => exact if_pos (shown_deadline_ne ht hshown)
  refine ⟨fun k => ?_, fun k => (hkey k).1, fun k => (hkey k).2⟩
  rw [← Keyspace.shown_isSome_iff, ← Option.isSome_map (f := KevaObject.getStringValue),
    (hkey k).1, Option.isSome_map]

theorem short_saveRecords {db : KevaDatabase}
    (hshort : ∀ k obj, db.content.objects k = some obj →
      k.length < 2 ^ 32 ∧ obj.getStringValue.length < 2 ^ 32)
    (clock : ℕ → MillisecondTimestamp) : ∀ r ∈ (db.saveRecords clock).1, r.Short := by
  intro r hr
  obtain ⟨obj, ho, hvalue⟩ := objects_of_mem_saveRecords hr
  obtain ⟨hkey, hlen⟩ := hshort _ _ ho
  exact ⟨hkey, hvalue ▸ hlen⟩

theorem restores_rdbLoad (ht : 0 ≤ t.toInt) {db : KevaDatabase} (hdb : db.content.Canonical)
    (hshort : ∀ k obj, db.content.objects k = some obj →
      k.length < 2 ^ 32 ∧ obj.getStringValue.length < 2 ^ 32)
    (P Q : DictParams) (dbId : UInt32) (secs : ℕ → Int64) :
    let r := (KevaDatabase.empty P Q).rdbLoad secs
      (.whole (rdb.image dbId (db.saveRecords fun _ => t).1))
    r.1 = .ok () ∧ Keyspace.Restores t db.content r.2.content := by
  rw [rdbLoad_image (short_saveRecords hshort fun _ => t)]
  exact ⟨rfl, restores_loadRecords ht hdb (content_empty P Q) secs⟩

end KevaDatabase

end Keva
