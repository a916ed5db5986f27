import Keva.Command.Strings
import Keva.Persistence.RdbRoundTrip

/-!
# When a load is faithful

A file of the documented format has database selectors and records behind its header, then the end
and the checksum. `rdb_load` also accepts bytes behind the checksum and passes over opcodes that it
does not know. The expiry in front of such an opcode goes to whichever record comes next.
-/

namespace Keva

open rdb

/-- `K` has the keys of the records and no others, each with the value and the expiry of its last
record. -/
def Faithful (records : List RdbRecord) (K : Keyspace) : Prop :=
  ∀ k, (K.objects k).map KevaObject.getStringValue =
      (KevaDatabase.lastRecord records k).map RdbRecord.value ∧
    K.deadlines k = (KevaDatabase.lastRecord records k).bind RdbRecord.expire

/-- The load changes this record: -1 means that it has no expiry, and a numeral with redundant zeros
loses them. -/
def RdbRecord.Altered (r : RdbRecord) : Prop := r.expire = some (-1) ∨ RedundantNumeral r.value

namespace KevaDatabase

variable {secs : ℕ → Int64} {db : KevaDatabase} {tokens : List RdbToken}

theorem expire_eq_iff (expire : Option Int64) :
    (if expire.getD (-1) ≠ -1 then some (expire.getD (-1)) else none) = expire ↔
      expire ≠ some (-1) := by
  cases expire with
  | none => exact ⟨fun _ => by simp, fun _ => rfl⟩
  | some t =>
      rw [Option.getD_some]
      by_cases ht : t = -1
      · rw [ht]
        simp
      · rw [if_pos ht]
        exact ⟨fun _ h => ht (Option.some_inj.mp h), fun _ => rfl⟩

theorem faithful_loadRecords_iff (hdb : db.content = .empty) (records : List RdbRecord) (n : ℕ) :
    Faithful records (loadRecords secs n records db).content ↔
      ∀ k r, lastRecord records k = some r → ¬ r.Altered := by
  unfold Faithful
  refine forall_congr' fun k => ?_
  have hcontent := @content_loadRecords secs records k n db
  rw [hdb] at hcontent
  cases hlast : lastRecord records k with
  | none =>
      rw [hlast] at hcontent
      obtain ⟨ho, hd⟩ := hcontent
      rw [ho, hd]
      exact ⟨fun _ r hr => (by cases hr), fun _ => ⟨rfl, rfl⟩⟩
  | some r =>
      rw [hlast] at hcontent
      obtain ⟨⟨clock, ho⟩, hd⟩ := hcontent
      rw [ho, hd, Option.map_some, Option.map_some, Option.some_inj, Option.bind_some,
        getStringValue_createString_iff, expire_eq_iff]
      unfold RdbRecord.Altered
      constructor
      · rintro ⟨hvalue, hexpire⟩ r' hr'
        obtain rfl := Option.some_inj.mp hr'
        rintro (h | h)
        · exact hexpire h
        · exact hvalue h
      · intro h
        have hr := not_or.mp (h r rfl)
        exact ⟨hr.2, hr.1⟩

/-- If the load succeeds, `b` is a file of the documented format and its records are what the
database has afterwards. -/
def LoadsFaithfully (secs : ℕ → Int64) (db : KevaDatabase) (b : Bytes) : Prop :=
  (db.rdbLoad secs (.whole b)).1 = .ok () →
    ∃ v tokens, v ≤ version ∧ (∀ token ∈ tokens, token.Documented) ∧ b = fileBytes v tokens ∧
      Faithful (recordsOf tokens) (db.rdbLoad secs (.whole b)).2.content

/-- Wherever items and their checksum are found in `b`, the items are documented, nothing follows
and no key has a last record that is altered. -/
def ReadsPlainly (b : Bytes) : Prop :=
  ∀ v tokens trailing, v ≤ version → b = fileBytes v tokens ++ trailing →
    trailing = [] ∧ (∀ token ∈ tokens, token.Documented) ∧
      ∀ k r, lastRecord (recordsOf tokens) k = some r → ¬ r.Altered

theorem LoadsFaithfully.documented {v : UInt16} {trailing : Bytes} (hv : v ≤ version)
    (h : LoadsFaithfully secs db (fileBytes v tokens ++ trailing)) :
    trailing = [] ∧ (∀ token ∈ tokens, token.Documented) ∧
      Faithful (recordsOf tokens) (loadTokens secs 0 (-1) tokens db).content := by
  unfold LoadsFaithfully at h
  rw [rdbLoad_fileBytes hv] at h
  obtain ⟨v', tokens', -, hdocumented, heq, hfaithful⟩ := h rfl
  rw [← List.append_nil (fileBytes v' tokens')] at heq
  obtain ⟨-, rfl, htrailing⟩ := fileBytes_unique heq
  exact ⟨htrailing, hdocumented, hfaithful⟩

theorem loadsFaithfully_fileBytes {v : UInt16} (hv : v ≤ version) (hdb : db.content = .empty)
    (hdocumented : ∀ token ∈ tokens, token.Documented)
    (halters : ∀ k r, lastRecord (recordsOf tokens) k = some r → ¬ r.Altered) :
    LoadsFaithfully secs db (fileBytes v tokens) := by
  have hload := @rdbLoad_fileBytes secs v hv tokens [] db
  rw [List.append_nil, loadTokens_eq_loadRecords hdocumented] at hload
  intro _
  refine ⟨v, tokens, hv, hdocumented, rfl, ?_⟩
  rw [hload]
  exact (faithful_loadRecords_iff hdb _ _).mpr halters

/-- A load into an empty database accepts nothing but the documented format and stores what it says
if and only if the file has no other items, nothing behind its checksum, and no record that is
altered as the last one of its key. -/
theorem loads_faithfully_iff (hdb : db.content = .empty) (secs : ℕ → Int64) (b : Bytes) :
    LoadsFaithfully secs db b ↔ ReadsPlainly b := by
  constructor
  · rintro h v tokens trailing hv rfl
    obtain ⟨htrailing, hdocumented, hfaithful⟩ := h.documented hv
    rw [loadTokens_eq_loadRecords hdocumented, faithful_loadRecords_iff hdb] at hfaithful
    exact ⟨htrailing, hdocumented, hfaithful⟩
  · intro h hok
    have hopened := @rdbLoad_opened secs b unexpectedEof db
    unfold RdbFile.whole at hok
    rw [hok] at hopened
    obtain ⟨v, tokens, trailing, hv, hb⟩ := hopened
    obtain ⟨rfl, hdocumented, halters⟩ := h v tokens trailing hv hb
    rw [List.append_nil] at hb
    subst hb
    exact loadsFaithfully_fileBytes hv hdb hdocumented halters hok

/-- A file with one record is plain. -/
theorem loads_faithfully_one_record :
    let P := DictParams.exact fun _ => 0
    let key : RdbString := ⟨.six 1, [107], rfl⟩
    let value : RdbString := ⟨.six 1, [118], rfl⟩
    LoadsFaithfully (fun _ => 0) (empty P P)
      (fileBytes 1 [.selectDb 0, .record (some 5) key value]) := by
  intro P key value
  refine (loads_faithfully_iff (content_empty P P) (fun _ => 0) _).mpr ?_
  intro v tokens trailing _ heq
  rw [← List.append_nil (fileBytes 1 _)] at heq
  obtain ⟨-, rfl, rfl⟩ := fileBytes_unique heq
  refine ⟨rfl, ?_, ?_⟩
  · simp [RdbToken.Documented, LengthForm.Documented, key, value]
  · intro k r hr
    have hmem : r ∈ recordsOf [.selectDb 0, .record (some 5) key value] :=
      List.mem_reverse.mp (List.mem_of_find?_eq_some hr)
    obtain rfl : r = ⟨[107], [118], some 5⟩ := List.mem_singleton.mp hmem
    unfold RdbRecord.Altered RedundantNumeral
    decide

/-- The opcode 1 stands behind an expiry, which goes to the key of the record that follows. -/
theorem loads_expiry_of_unknown_opcode :
    let P := DictParams.exact fun _ => 0
    let key : RdbString := ⟨.six 1, [107], rfl⟩
    let value : RdbString := ⟨.six 1, [118], rfl⟩
    let tokens := [.unknown (some 5) 1 ⟨by decide, by decide⟩, .record none key value]
    let b := fileBytes 1 tokens
    let r := (empty P P).rdbLoad (fun _ => 0) (.whole b)
    r.1 = .ok () ∧ r.2.content.deadlines [107] = some 5 ∧
      ¬ LoadsFaithfully (fun _ => 0) (empty P P) b := by
  intro P key value tokens b r
  have hload : r = (.ok (), loadTokens (fun _ => 0) 0 (-1) tokens (empty P P)) := by
    have hbytes := @rdbLoad_fileBytes (fun _ => 0) 1 (by decide) tokens [] (empty P P)
    rwa [List.append_nil] at hbytes
  rw [hload]
  refine ⟨rfl, by decide +kernel, fun hfaithful => ?_⟩
  rw [← List.append_nil b] at hfaithful
  obtain ⟨-, hdocumented, -⟩ := hfaithful.documented (by decide)
  exact hdocumented _ List.mem_cons_self

end KevaDatabase

end Keva
