import Keva.Persistence.RdbGrammar

/-!
# Loading what was saved

`save_database_to_writer` writes documented items, and tells every length in the shortest way. A
load stores their records one after the other, so that every key has what its last record says.
-/

namespace Keva

open rdb RdbReader

theorem LengthForm.exists_bytes_eq {len : ℕ} (h : len < 2 ^ 32) :
    ∃ form : LengthForm, form.length = len ∧ form.bytes = lengthBytes len ∧ form.Documented := by
  unfold lengthBytes
  split_ifs with hsix hfourteen
  · exact ⟨.six ⟨len, hsix⟩, rfl, rfl, trivial⟩
  · exact ⟨.fourteen ⟨len, hfourteen⟩, rfl, rfl, trivial⟩
  · refine ⟨.thirtyTwo 0 (UInt32.ofNat len), ?_, rfl, rfl⟩
    exact UInt32.toNat_ofNat_of_lt' h

theorem RdbString.exists_bytes_eq {sv : Bytes} (h : sv.length < 2 ^ 32) :
    ∃ s : RdbString, s.data = sv ∧ s.bytes = stringBytes sv ∧ s.form.Documented := by
  obtain ⟨form, hlength, hbytes, hdocumented⟩ := LengthForm.exists_bytes_eq h
  refine ⟨⟨form, sv, hlength.symm⟩, rfl, ?_, hdocumented⟩
  unfold RdbString.bytes stringBytes
  rw [hbytes]

theorem takes_readString {sv : Bytes} (h : sv.length < 2 ^ 32) :
    Takes readString (stringBytes sv) sv := by
  obtain ⟨s, rfl, hbytes, -⟩ := RdbString.exists_bytes_eq h
  rw [← hbytes]
  exact s.takes

theorem takes_readLength_long {len : ℕ} (h : 16384 ≤ len) :
    Takes readLength (lengthBytes len) (len % 2 ^ 32) := by
  have hlong := (LengthForm.thirtyTwo 0 (UInt32.ofNat len)).takes
  unfold LengthForm.length at hlong
  dsimp only at hlong
  rw [UInt32.toNat_ofNat'] at hlong
  unfold lengthBytes
  rw [if_neg (by omega), if_neg (by omega)]
  exact hlong

namespace RdbRecord

/-- Key and value have lengths that four bytes can tell. -/
structure Short (r : RdbRecord) : Prop where
  key : r.key.length < 2 ^ 32
  value : r.value.length < 2 ^ 32

end RdbRecord

def RdbToken.record? : RdbToken → Option RdbRecord
  | record expire key value => some ⟨key.data, value.data, expire⟩
  | _ => none

def recordsOf (tokens : List RdbToken) : List RdbRecord := tokens.filterMap RdbToken.record?

theorem RdbToken.exists_bytes_eq {r : RdbRecord} (h : r.Short) :
    ∃ token : RdbToken, token.record? = some r ∧ token.bytes = recordBytes r ∧
      token.Documented := by
  obtain ⟨key, value, expire⟩ := r
  obtain ⟨key, rfl, hkey, hkeyDoc⟩ := RdbString.exists_bytes_eq h.key
  obtain ⟨value, rfl, hvalue, hvalueDoc⟩ := RdbString.exists_bytes_eq h.value
  refine ⟨.record expire key value, rfl, ?_, hkeyDoc, hvalueDoc⟩
  unfold RdbToken.bytes recordBytes
  dsimp only
  rw [hkey, hvalue]
  cases expire with
  | none => rfl
  | some absExpire =>
      unfold markerBytes
      rw [List.append_assoc]
      rfl

theorem exists_tokens_eq {records : List RdbRecord} (h : ∀ r ∈ records, r.Short) :
    ∃ tokens : List RdbToken, recordsOf tokens = records ∧
      tokens.flatMap RdbToken.bytes = records.flatMap recordBytes ∧
      ∀ token ∈ tokens, token.Documented := by
  induction records with
  | nil => exact ⟨[], rfl, rfl, fun _ h => (by cases h)⟩
  | cons r records ih =>
      obtain ⟨token, hrecord, hbytes, hdocumented⟩ := RdbToken.exists_bytes_eq
        (h r List.mem_cons_self)
      obtain ⟨tokens, hrecords, hflat, hall⟩ := ih fun r' hr' => h r' (List.mem_cons_of_mem r hr')
      refine ⟨token :: tokens, ?_, ?_, ?_⟩
      · unfold recordsOf at hrecords ⊢
        rw [List.filterMap_cons_some hrecord, hrecords]
      · rw [List.flatMap_cons, List.flatMap_cons, hbytes, hflat]
      · exact List.forall_mem_cons.mpr ⟨hdocumented, hall⟩

theorem image_eq_fileBytes {records : List RdbRecord} (h : ∀ r ∈ records, r.Short)
    (dbId : UInt32) :
    ∃ tokens, recordsOf tokens = records ∧ (∀ token ∈ tokens, token.Documented) ∧
      image dbId records = fileBytes version tokens := by
  obtain ⟨tokens, hrecords, hbytes, hdocumented⟩ := exists_tokens_eq h
  refine ⟨.selectDb dbId :: tokens, hrecords,
    List.forall_mem_cons.mpr ⟨trivial, hdocumented⟩, ?_⟩
  have hbody : fileBody version (.selectDb dbId :: tokens) = payload dbId records := by
    unfold fileBody payload
    rw [List.flatMap_cons, hbytes]
    simp only [RdbToken.bytes, List.append_assoc]
  rw [image_eq, fileBytes, hbody]

namespace KevaDatabase

/-- The records stored one after the other, the first of them as the `n`-th key. -/
def loadRecords (secs : ℕ → Int64) : ℕ → List RdbRecord → KevaDatabase → KevaDatabase
  | _, [], db => db
  | n, r :: records, db =>
      loadRecords secs (n + 1) records
        (db.loadRecord r.key r.value (r.expire.getD (-1)) (secs n))

variable {secs : ℕ → Int64}

theorem loadTokens_eq_loadRecords {tokens : List RdbToken}
    (h : ∀ token ∈ tokens, token.Documented) (n : ℕ) (db : KevaDatabase) :
    loadTokens secs n (-1) tokens db = loadRecords secs n (recordsOf tokens) db := by
  induction tokens generalizing n db with
  | nil => rfl
  | cons token tokens ih =>
      have hrest := fun n => ih (fun t ht => h t (List.mem_cons_of_mem token ht)) n
      cases token with
      | selectDb dbId => exact hrest n db
      | record expire key value => exact hrest (n + 1) _
      | unknown expire opcode hunknown => exact (h _ List.mem_cons_self).elim

theorem rdbLoad_image {records : List RdbRecord} (h : ∀ r ∈ records, r.Short) (dbId : UInt32)
    (db : KevaDatabase) :
    db.rdbLoad secs (.whole (image dbId records)) = (.ok (), loadRecords secs 0 records db) := by
  obtain ⟨tokens, hrecords, hdocumented, himage⟩ := image_eq_fileBytes h dbId
  rw [himage, ← List.append_nil (fileBytes version tokens), rdbLoad_fileBytes (UInt16.le_refl _),
    loadTokens_eq_loadRecords hdocumented, hrecords]

/-- The record of `k` that comes last. -/
def lastRecord (records : List RdbRecord) (k : Bytes) : Option RdbRecord :=
  records.reverse.find? fun r => r.key = k

theorem lastRecord_cons (r : RdbRecord) (records : List RdbRecord) (k : Bytes) :
    lastRecord (r :: records) k =
      (lastRecord records k).or (if r.key = k then some r else none) := by
  unfold lastRecord
  rw [List.reverse_cons, List.find?_append]
  by_cases hk : r.key = k
  · rw [if_pos hk, List.find?_cons_of_pos (by simpa using hk)]
  · rw [if_neg hk, List.find?_cons_of_neg (by simpa using hk), List.find?_nil]

theorem lastRecord_eq_none_iff {records : List RdbRecord} {k : Bytes} :
    lastRecord records k = none ↔ k ∉ records.map RdbRecord.key := by
  unfold lastRecord
  simp

theorem lastRecord_of_mem {records : List RdbRecord} (hnodup : (records.map RdbRecord.key).Nodup)
    {r : RdbRecord} (hr : r ∈ records) : lastRecord records r.key = some r := by
  induction records with
  | nil => cases hr
  | cons r' records ih =>
      rw [List.map_cons, List.nodup_cons] at hnodup
      rw [lastRecord_cons]
      rcases List.mem_cons.mp hr with rfl | hr
      · rw [lastRecord_eq_none_iff.mpr hnodup.1, if_pos rfl, Option.none_or]
      · rw [ih hnodup.2 hr, Option.some_or]

theorem content_loadRecord (db : KevaDatabase) (key value : Bytes) (pendingExpire secs : Int64) :
    (db.loadRecord key value pendingExpire secs).content =
      ⟨Function.update db.content.objects key
          (some (KevaObject.createString value (LruClock.current secs))),
        Function.update db.content.deadlines key
          (if pendingExpire ≠ -1 then some pendingExpire else none)⟩ := by
  unfold loadRecord
  dsimp only
  split_ifs
  · rw [content_setExpire, content_set]
    apply Keyspace.ext
    · rfl
    · exact Function.update_idem ..
  · rw [content_set]
    rfl

theorem content_loadRecords (records : List RdbRecord) (k : Bytes) (n : ℕ) (db : KevaDatabase) :
    let K := (loadRecords secs n records db).content
    match lastRecord records k with
    | none => K.objects k = db.content.objects k ∧ K.deadlines k = db.content.deadlines k
    | some r => (∃ clock, K.objects k = some (KevaObject.createString r.value clock)) ∧
        K.deadlines k = if r.expire.getD (-1) ≠ -1 then some (r.expire.getD (-1)) else none := by
  induction records generalizing n db with
  | nil => exact ⟨rfl, rfl⟩
  | cons r records ih =>
      have hrest := ih (n + 1) (db.loadRecord r.key r.value (r.expire.getD (-1)) (secs n))
      rw [content_loadRecord] at hrest
      rw [lastRecord_cons]
      cases hlast : lastRecord records k with
      | some r' =>
          rw [hlast] at hrest
          exact hrest
      | none =>
          rw [hlast] at hrest
          obtain ⟨ho, hd⟩ := hrest
          rw [Option.none_or]
          by_cases hk : r.key = k
          · rw [if_pos hk]
            subst hk
            exact ⟨⟨_, ho.trans (Function.update_self ..)⟩, hd.trans (Function.update_self ..)⟩
          · rw [if_neg hk]
            exact ⟨ho.trans (Function.update_of_ne (Ne.symm hk) _ _),
              hd.trans (Function.update_of_ne (Ne.symm hk) _ _)⟩

theorem loadRecords_of_notMem {records : List RdbRecord} {k : Bytes}
    (hk : k ∉ records.map RdbRecord.key) (n : ℕ) (db : KevaDatabase) :
    (loadRecords secs n records db).content.objects k = db.content.objects k ∧
      (loadRecords secs n records db).content.deadlines k = db.content.deadlines k := by
  have hcontent := @content_loadRecords secs records k n db
  rwa [lastRecord_eq_none_iff.mpr hk] at hcontent

theorem loadRecords_of_mem {records : List RdbRecord} (hnodup : (records.map RdbRecord.key).Nodup)
    {r : RdbRecord} (hr : r ∈ records) (n : ℕ) (db : KevaDatabase) :
    (∃ clock, (loadRecords secs n records db).content.objects r.key =
      some (KevaObject.createString r.value clock)) ∧
    (loadRecords secs n records db).content.deadlines r.key =
      if r.expire.getD (-1) ≠ -1 then some (r.expire.getD (-1)) else none := by
  have hcontent := @content_loadRecords secs records r.key n db
  rwa [lastRecord_of_mem hnodup hr] at hcontent

end KevaDatabase

end Keva
