import Keva.Persistence.Snapshot
import Keva.Server.SaveFailures

/-!
# The load at startup

`main` loads the snapshot into the database that it has just made. A load that fails may have stored
keys before it did, and `main` flushes them, except when there is no snapshot at all.
-/

namespace Keva

open rdb

namespace KevaDatabase

/-- `rdb_load` in `main`, and what `main` does with its status. -/
def loadAtStartup (secs : ℕ → Int64) (file : RdbFile) (db : KevaDatabase) : KevaDatabase :=
  match db.rdbLoad secs file with
  | (.ok (), db) => db
  | (.error e, db) => if e.code ≠ .notFound then db.flush else db

variable {secs : ℕ → Int64} {file : RdbFile} {db : KevaDatabase} {e : Failure}

theorem dbsize_of_empty (h : db.content = .empty) : db.dbsize = 0 := by
  have hsize : db.keys.size = _ := Dict.size_eq_ncard db.keys_sound
  have hnone : {k | db.keys.toMap k ≠ none} = ∅ := by
    have hobjects : db.keys.toMap = fun _ => none := congrArg Keyspace.objects h
    rw [hobjects]
    simp
  rw [dbsize, hsize, hnone, Set.ncard_empty]

theorem loadAtStartup_of_error (h : (db.rdbLoad secs file).1 = .error e) :
    db.loadAtStartup secs file =
      if e.code ≠ .notFound then (db.rdbLoad secs file).2.flush else (db.rdbLoad secs file).2 := by
  unfold loadAtStartup
  generalize db.rdbLoad secs file = r at h ⊢
  obtain ⟨status, db'⟩ := r
  obtain rfl : status = .error e := h
  rfl

theorem content_loadAtStartup_of_error (h : (db.rdbLoad secs file).1 = .error e)
    (hcode : e.code ≠ .notFound) : (db.loadAtStartup secs file).content = .empty := by
  rw [loadAtStartup_of_error h, if_pos hcode, content_flush]

theorem rdbLoad_of_notFound (h : (db.rdbLoad secs file).1 = .error e)
    (hcode : e.code = .notFound) : (db.rdbLoad secs file).2 = db := by
  cases file with
  | missing => rfl
  | unreadable message => rfl
  | opened content message =>
      have hopened := @rdbLoad_opened secs content message db
      rw [h] at hopened
      exact absurd hcode hopened

theorem content_loadAtStartup (hdb : db.content = .empty)
    (h : (db.rdbLoad secs file).1 = .error e) :
    (db.loadAtStartup secs file).content = .empty := by
  by_cases hcode : e.code = .notFound
  · rw [loadAtStartup_of_error h, if_neg (not_not.mpr hcode), rdbLoad_of_notFound h hcode, hdb]
  · exact content_loadAtStartup_of_error h hcode

end KevaDatabase

/-- No proper prefix of a snapshot is loaded: the load of it fails, whatever `read` reports at its
end and whatever the database holds, and `main` is left with an empty database. So it is after any
load that fails. -/
theorem torn_snapshots_never_loaded {filename : Bytes} (dir : SaveDirectory filename)
    (kernel : SaveKernel) (clock : ℕ → MillisecondTimestamp) (db : KevaDatabase)
    (hshort : ∀ k obj, db.content.objects k = some obj →
      k.length < 2 ^ 32 ∧ obj.getStringValue.length < 2 ^ 32)
    (hok : (db.rdbSaveSync filename clock kernel dir.files).status = .ok ()) :
    (∃ snapshot, (db.rdbSaveSync filename clock kernel dir.files).files.read filename =
        some snapshot ∧
      ∀ torn, torn <+: snapshot → torn ≠ snapshot → ∀ secs message (start : KevaDatabase),
        let file := RdbFile.opened torn message
        (∃ e, (start.rdbLoad secs file).1 = .error e ∧ e.code ≠ .notFound) ∧
        (start.loadAtStartup secs file).content = .empty ∧
        (start.loadAtStartup secs file).dbsize = 0) ∧
    ∀ secs file (start : KevaDatabase) e, start.content = .empty →
      (start.rdbLoad secs file).1 = .error e →
      (start.loadAtStartup secs file).content = .empty ∧
      (start.loadAtStartup secs file).dbsize = 0 := by
  refine ⟨?_, fun secs file start e hstart hload => ?_⟩
  · have hread := (rdbSaveSync_spec dir kernel clock db).replaced hok
    refine ⟨_, hread, fun torn hprefix hne secs message start => ?_⟩
    obtain ⟨tokens, -, -, himage⟩ :=
      image_eq_fileBytes (KevaDatabase.short_saveRecords hshort clock) 0
    rw [himage] at hprefix hne
    obtain ⟨e, hload, hcode⟩ :=
      @KevaDatabase.rdbLoad_prefix secs version tokens torn hprefix hne message start
    have hempty := KevaDatabase.content_loadAtStartup_of_error hload hcode
    exact ⟨⟨e, hload, hcode⟩, hempty, KevaDatabase.dbsize_of_empty hempty⟩
  · have hempty := KevaDatabase.content_loadAtStartup hstart hload
    exact ⟨hempty, KevaDatabase.dbsize_of_empty hempty⟩

/-- One key is saved, and only nineteen bytes of the snapshot are there at the next start. -/
theorem torn_snapshots_never_loaded_one_key :
    let filename := ascii "dump.rdb"
    let dir : SaveDirectory filename := ⟨SaveSystem.fresh.fs, fun _ h => by cases h⟩
    let kernel : SaveKernel := ⟨.ok (), [], .ok ()⟩
    let P := DictParams.exact fun _ => 0
    let db := (KevaDatabase.empty P P).set [107] (.createString [118] 0)
    ∃ snapshot, (db.rdbSaveSync filename (fun _ => 10) kernel dir.files).files.read filename =
        some snapshot ∧
      ((KevaDatabase.empty P P).loadAtStartup (fun _ => 0) (.whole (snapshot.take 19))).dbsize =
        0 := by
  intro filename dir kernel P db
  have hshort : ∀ k obj, db.content.objects k = some obj →
      k.length < 2 ^ 32 ∧ obj.getStringValue.length < 2 ^ 32 := by
    intro k obj h
    rw [KevaDatabase.content_set, KevaDatabase.content_empty] at h
    change Function.update (fun _ => none) [107] (some (KevaObject.createString [118] 0)) k =
      some obj at h
    by_cases hk : k = [107]
    · rw [hk, Function.update_self, Option.some_inj] at h
      rw [hk, ← h]
      decide
    · rw [Function.update_of_ne hk] at h
      cases h
  obtain ⟨⟨snapshot, hread, htorn⟩, -⟩ :=
    torn_snapshots_never_loaded dir kernel (fun _ => 10) db hshort (by decide +kernel)
  refine ⟨snapshot, hread, ?_⟩
  have hlength : ((db.rdbSaveSync filename (fun _ => 10) kernel dir.files).files.read
      filename).map List.length = some 25 := by
    decide +kernel
  rw [hread] at hlength
  have hne : snapshot.take 19 ≠ snapshot := by
    intro heq
    have hshorter := congrArg List.length heq
    rw [List.length_take, Option.some_inj.mp hlength] at hshorter
    omega
  exact (htorn _ (List.take_prefix 19 snapshot) hne (fun _ => 0) unexpectedEof _).2.2

end Keva
