import Keva.Persistence.FdWriter
import Keva.Server.SaveFiles
import Keva.Server.Saving

/-!
# Saves that fail

`rdb_save_sync` with every answer that the kernel gives it, when no other process is saving. An
error leaves the traversal of the keys through the status that the visitor has captured: the keys
that come behind it are passed over. Only the temporary file is written until the very end, so that
the snapshot is replaced by a complete one or not at all.
-/

namespace Keva

open Session FdWriter rdb

/-- The snapshot and the temporary file are not links to one file. -/
structure SaveDirectory (filename : Bytes) where
  files : Files
  separate : files.Separate (tmpPath filename) filename

/-- What the kernel answers to a save. -/
structure SaveKernel where
  openFile : Except Bytes Unit
  writes : List WriteAnswer
  rename : Except Bytes Unit

/-- `RdbWriter w{fd}` for a file that was opened with `O_TRUNC`. -/
def FdWriter.create (files : Files) (name : Bytes) (answers : List WriteAnswer) : FdWriter where
  files := (files.openTruncate name).2
  fd := (files.openTruncate name).1
  writer := .init
  answers := answers
  holds := by
    rw [FileSystem.openTruncate_data, Function.update_self]
    rfl

/-- What the visitor of `save_database_to_writer` has captured. `readings` counts the readings of
the clock and `visited` the entries that were not passed over because of an error. -/
structure SaveVisit where
  result : Except Bytes Unit
  file : FdWriter
  db : KevaDatabase
  readings : ℕ
  visited : ℕ

def SaveVisit.visit (clock : ℕ → MillisecondTimestamp) (v : SaveVisit)
    (e : Bytes × KevaObject) : SaveVisit :=
  match v.result with
  | .error _ => v
  | .ok () =>
      if v.db.isExpired e.1 (clock 0) then { v with visited := v.visited + 1 }
      else
        let (ttlMs, db) := v.db.pttl e.1 (clock v.readings)
        if 0 ≤ ttlMs then
          let absExpire := clock (v.readings + 1) + ttlMs
          let (result, file) := writeEntry e.1 e.2.getStringValue (some absExpire) v.file
          ⟨result, file, db, v.readings + 2, v.visited + 1⟩
        else
          let (result, file) := writeEntry e.1 e.2.getStringValue none v.file
          ⟨result, file, db, v.readings, v.visited + 1⟩

/-- How a save has ended, with the answers of the kernel that it has not asked for. -/
structure SaveResult where
  status : Except Bytes Unit
  files : Files
  db : KevaDatabase
  visited : ℕ
  answers : List WriteAnswer

/-- `rdb_save_sync` behind the records: the `EOF` opcode, the checksum and the rename. -/
def SaveVisit.finish (filename : Bytes) (rename : Except Bytes Unit) (v : SaveVisit) : SaveResult :=
  match writeU8 opcodeEof v.file with
  | (.error message, file) => ⟨.error message, file.files, v.db, v.visited, file.answers⟩
  | (.ok (), file) =>
      match writeCrc64 file with
      | (.error message, files, answers) => ⟨.error message, files, v.db, v.visited, answers⟩
      | (.ok (), files, answers) =>
          match rename with
          | .error message => ⟨.error message, files, v.db, v.visited, answers⟩
          | .ok () =>
              match files.rename (tmpPath filename) filename with
              | none =>
                  ⟨.error (ascii "No such file or directory"), files, v.db, v.visited, answers⟩
              | some files => ⟨.ok (), files, v.db, v.visited, answers⟩

namespace KevaDatabase

def saveDatabaseToWriter (clock : ℕ → MillisecondTimestamp) (db : KevaDatabase)
    (file : FdWriter) : SaveVisit :=
  let selector : Writing Unit := do
    writeU8 opcodeDb
    writeU32 0
  match selector file with
  | (.error message, file) => ⟨.error message, file, db, 1, 0⟩
  | (.ok (), file) => db.keys.forEach.foldl (SaveVisit.visit clock) ⟨.ok (), file, db, 1, 0⟩

def rdbSaveSync (filename : Bytes) (clock : ℕ → MillisecondTimestamp) (kernel : SaveKernel)
    (files : Files) (db : KevaDatabase) : SaveResult :=
  match kernel.openFile with
  | .error message => ⟨.error message, files, db, 0, kernel.writes⟩
  | .ok () =>
      let header : Writing Unit := do
        writeBytes magic
        writeU16 version
      match header (.create files (tmpPath filename) kernel.writes) with
      | (.error message, file) => ⟨.error message, file.files, db, 0, file.answers⟩
      | (.ok (), file) =>
          let v := saveDatabaseToWriter clock db file
          match v.result with
          | .error message => ⟨.error message, v.file.files, v.db, v.visited, v.file.answers⟩
          | .ok () => v.finish filename kernel.rename

/-- What one entry adds to the records, and the readings and the database behind it. -/
def saveStep (clock : ℕ → MillisecondTimestamp) (e : Bytes × KevaObject) (n : ℕ)
    (db : KevaDatabase) : List RdbRecord × ℕ × KevaDatabase :=
  if db.isExpired e.1 (clock 0) then ([], n, db)
  else
    let (ttlMs, db) := db.pttl e.1 (clock n)
    if 0 ≤ ttlMs then ([⟨e.1, e.2.getStringValue, some (clock (n + 1) + ttlMs)⟩], n + 2, db)
    else ([⟨e.1, e.2.getStringValue, none⟩], n, db)

variable {clock : ℕ → MillisecondTimestamp}

theorem saveWalk_cons (e : Bytes × KevaObject) (entries : List (Bytes × KevaObject)) (n : ℕ)
    (db : KevaDatabase) :
    let r := saveStep clock e n db
    saveWalk clock (e :: entries) n db =
      (r.1 ++ (saveWalk clock entries r.2.1 r.2.2).1, (saveWalk clock entries r.2.1 r.2.2).2) := by
  obtain ⟨key, obj⟩ := e
  intro r
  rw [saveWalk]
  dsimp only [r]
  unfold saveStep
  dsimp only
  split_ifs
  · rfl
  · rfl
  · rfl

theorem visit_spec {v : SaveVisit} (h : v.result = .ok ()) (e : Bytes × KevaObject) :
    let r := saveStep clock e v.readings v.db
    let v' := v.visit clock e
    v'.db = r.2.2 ∧ v'.readings = r.2.1 ∧ v'.visited = v.visited + 1 ∧
      ∃ chunk used, Wrote v.file v'.file chunk used ∧
        Settled (r.1.flatMap recordBytes) chunk used v'.result := by
  intro r v'
  have hwrites : ∀ record : RdbRecord, ∃ chunk used,
      Wrote v.file (writeEntry record.key record.value record.expire v.file).2 chunk used ∧
        Settled ([record].flatMap recordBytes) chunk used
          (writeEntry record.key record.value record.expire v.file).1 := by
    intro record
    rw [List.flatMap_singleton]
    exact puts_writeEntry record v.file
  dsimp only [r, v']
  unfold SaveVisit.visit saveStep
  rw [h]
  dsimp only
  split_ifs
  · exact ⟨rfl, rfl, rfl, [], [], Wrote.refl _, rfl, fun _ => List.not_mem_nil⟩
  · exact ⟨rfl, rfl, rfl, hwrites ⟨_, _, some _⟩⟩
  · exact ⟨rfl, rfl, rfl, hwrites ⟨_, _, none⟩⟩

theorem foldl_visit_of_error {v : SaveVisit} {message : Bytes} (h : v.result = .error message)
    (entries : List (Bytes × KevaObject)) : entries.foldl (SaveVisit.visit clock) v = v := by
  induction entries with
  | nil => rfl
  | cons e entries ih =>
      have hpassed : v.visit clock e = v := by
        unfold SaveVisit.visit
        rw [h]
      rw [List.foldl_cons, hpassed, ih]

/-- The traversal from `v` to `v'` has come through `n` of the entries. -/
structure Traversed (clock : ℕ → MillisecondTimestamp) (entries : List (Bytes × KevaObject))
    (v v' : SaveVisit) (n : ℕ) : Prop where
  visited : v'.visited = v.visited + n
  db : v'.db = (saveWalk clock (entries.take n) v.readings v.db).2
  all : v'.result = .ok () → n = entries.length
  wrote : ∃ chunk used, Wrote v.file v'.file chunk used ∧
    Settled ((saveWalk clock entries v.readings v.db).1.flatMap recordBytes) chunk used v'.result

theorem traversed_foldl_visit (entries : List (Bytes × KevaObject)) {v : SaveVisit}
    (h : v.result = .ok ()) :
    ∃ n, Traversed clock entries v (entries.foldl (SaveVisit.visit clock) v) n := by
  induction entries generalizing v with
  | nil =>
      refine ⟨0, rfl, rfl, fun _ => rfl, [], [], Wrote.refl _, ?_⟩
      rw [List.foldl_nil, h]
      exact ⟨rfl, fun _ => List.not_mem_nil⟩
  | cons e entries ih =>
      obtain ⟨hdb, hreadings, hvisited, chunk, used, hwrote, hsettled⟩ := @visit_spec clock v h e
      have hwalk := @saveWalk_cons clock e entries v.readings v.db
      cases hr : (v.visit clock e).result with
      | error message =>
          rw [hr] at hsettled
          rw [List.foldl_cons, foldl_visit_of_error hr]
          refine ⟨1, hvisited, ?_, fun hok => ?_, chunk, used, hwrote, ?_⟩
          · rw [List.take_succ_cons, List.take_zero, saveWalk_cons, hdb]
            rfl
          · rw [hr] at hok
            cases hok
          · rw [hr, hwalk, List.flatMap_append]
            exact ⟨hsettled.1.trans (List.prefix_append _ _), hsettled.2⟩
      | ok u =>
          rw [hr] at hsettled
          obtain ⟨rfl, hnone⟩ := hsettled
          obtain ⟨n, hrest⟩ := ih hr
          obtain ⟨chunk', used', hwrote', hsettled'⟩ := hrest.wrote
          refine ⟨n + 1, ?_, ?_, fun hok => ?_, _, _, hwrote.trans hwrote', ?_⟩
          · rw [List.foldl_cons, hrest.visited, hvisited]
            omega
          · rw [List.foldl_cons, hrest.db, List.take_succ_cons, saveWalk_cons, hdb, hreadings]
          · rw [List.length_cons, hrest.all hok]
          · rw [List.foldl_cons, hwalk, List.flatMap_append]
            rw [hreadings, hdb] at hsettled'
            exact hsettled'.append hnone _

/-- The bytes of the `DB` selector and of the records. -/
def bodyBytes (records : List RdbRecord) : Bytes :=
  (opcodeDb :: LittleEndian.encode 4 (0 : UInt32).toNat) ++ records.flatMap recordBytes

theorem saveDatabaseToWriter_spec (clock : ℕ → MillisecondTimestamp) (db : KevaDatabase)
    (file : FdWriter) :
    let v := saveDatabaseToWriter clock db file
    v.db = db.saveInterrupted clock v.visited ∧
      (v.result = .ok () → v.db = (db.saveRecords clock).2) ∧
      ∃ chunk used, Wrote file v.file chunk used ∧
        Settled (bodyBytes (db.saveRecords clock).1) chunk used v.result := by
  intro v
  set selector : Writing Unit := do
    writeU8 opcodeDb
    writeU32 0 with hselector
  have hputs : Puts selector ([opcodeDb] ++ LittleEndian.encode 4 (0 : UInt32).toNat) :=
    puts_bind (puts_writeBytes [opcodeDb]) (puts_writeBytes _)
  obtain ⟨chunk, used, hwrote, hsettled⟩ := hputs file
  have hv : v = match selector file with
      | (.error message, file) => ⟨.error message, file, db, 1, 0⟩
      | (.ok (), file) =>
          db.keys.forEach.foldl (SaveVisit.visit clock) ⟨.ok (), file, db, 1, 0⟩ := rfl
  generalize selector file = r at hwrote hsettled hv
  obtain ⟨status, file'⟩ := r
  cases status with
  | error message =>
      rw [hv]
      exact ⟨rfl, (fun hok => by cases hok), chunk, used, hwrote,
        hsettled.1.trans (List.prefix_append _ _), hsettled.2⟩
  | ok u =>
      obtain ⟨rfl, hnone⟩ := hsettled
      obtain ⟨n, htraversed⟩ :=
        @traversed_foldl_visit clock db.keys.forEach ⟨.ok (), file', db, 1, 0⟩ rfl
      dsimp only at hv
      rw [← hv] at htraversed
      obtain ⟨chunk', used', hwrote', hsettled'⟩ := htraversed.wrote
      have hn : v.visited = n := htraversed.visited.trans (Nat.zero_add n)
      refine ⟨?_, fun hok => ?_, _, _, hwrote.trans hwrote', hsettled'.append hnone _⟩
      · rw [htraversed.db, hn]
        rfl
      · rw [htraversed.db, htraversed.all hok, List.take_length]
        rfl

end KevaDatabase

/-- A system call that the save made has failed. -/
def SaveResult.Failed (kernel : SaveKernel) (r : SaveResult) : Prop :=
  (∃ message, kernel.openFile = .error message) ∨
    (∃ used message, kernel.writes = used ++ r.answers ∧ .fails message ∈ used) ∨
    ∃ message, kernel.rename = .error message

section

variable {filename : Bytes} {dir : SaveDirectory filename} {kernel : SaveKernel}
  {clock : ℕ → MillisecondTimestamp} {db : KevaDatabase} {files : Files}

/-- Only the file that was opened differs from what it was then. -/
structure OnlyTemporary (dir : SaveDirectory filename) (files : Files) : Prop where
  names : files.names = (dir.files.openTruncate (tmpPath filename)).2.names
  others : ∀ i, i ≠ (dir.files.openTruncate (tmpPath filename)).1 →
    files.data i = (dir.files.openTruncate (tmpPath filename)).2.data i

theorem OnlyTemporary.separate (h : OnlyTemporary dir files) :
    files.Separate (tmpPath filename) filename := by
  have hopened := FileSystem.separate_openTruncate (tmpPath_ne filename) dir.separate
  intro i htmp
  rw [h.names] at htmp ⊢
  exact hopened i htmp

theorem OnlyTemporary.names_tmp (h : OnlyTemporary dir files) :
    files.names (tmpPath filename) = some (dir.files.openTruncate (tmpPath filename)).1 := by
  rw [h.names]
  exact FileSystem.openTruncate_names ..

theorem OnlyTemporary.read (h : OnlyTemporary dir files) :
    files.read filename = dir.files.read filename := by
  rw [← FileSystem.read_openTruncate (tmpPath_ne filename) dir.separate]
  unfold FileSystem.read
  rw [h.names]
  cases hname : (dir.files.openTruncate (tmpPath filename)).2.names filename with
  | none => rfl
  | some i =>
      have hi : i ≠ (dir.files.openTruncate (tmpPath filename)).1 := by
        rintro rfl
        have hopened := FileSystem.separate_openTruncate (tmpPath_ne filename) dir.separate
        exact hopened _ (FileSystem.openTruncate_names ..) hname
      exact congrArg some (h.others i hi)

theorem onlyTemporary_of_wrote {file : FdWriter} {chunk : Bytes} {used : List WriteAnswer}
    (h : Wrote (.create dir.files (tmpPath filename) kernel.writes) file chunk used) :
    OnlyTemporary dir file.files := ⟨h.names, h.others⟩

/-- How a save of `db` ends. -/
structure SaveResult.Spec (dir : SaveDirectory filename) (kernel : SaveKernel)
    (clock : ℕ → MillisecondTimestamp) (db : KevaDatabase) (r : SaveResult) : Prop where
  interrupted : r.db = db.saveInterrupted clock r.visited
  complete : r.status = .ok () → r.db = (db.saveRecords clock).2
  granted : r.status = .ok () → ¬ r.Failed kernel
  kept : ∀ message, r.status = .error message →
    r.files.read filename = dir.files.read filename
  replaced : r.status = .ok () →
    r.files.read filename = some (rdb.image 0 (db.saveRecords clock).1)

theorem SaveResult.spec_error {message : Bytes} {visited : ℕ} {answers : List WriteAnswer}
    {db' : KevaDatabase} (hfiles : files.read filename = dir.files.read filename)
    (hdb : db' = db.saveInterrupted clock visited) :
    SaveResult.Spec dir kernel clock db ⟨.error message, files, db', visited, answers⟩ :=
  ⟨hdb, (fun h => by cases h), (fun h => by cases h), fun _ _ => hfiles, (fun h => by cases h)⟩

theorem payload_eq_append (records : List RdbRecord) :
    magic ++ LittleEndian.encode 2 version.toNat ++ KevaDatabase.bodyBytes records ++ [opcodeEof] =
      payload 0 records := by
  unfold payload KevaDatabase.bodyBytes
  simp only [List.append_assoc]

theorem OnlyTemporary.rename (h : OnlyTemporary dir files) :
    ∃ renamed, files.rename (tmpPath filename) filename = some renamed ∧
      renamed.read filename =
        some (files.data (dir.files.openTruncate (tmpPath filename)).1) := by
  obtain ⟨renamed, hrenamed, -, hread⟩ :=
    FileSystem.rename_eq (tmpPath_ne filename).symm h.separate h.names_tmp
  exact ⟨renamed, hrenamed, hread⟩

theorem not_failed {r : SaveResult} {used : List WriteAnswer} (hopen : kernel.openFile = .ok ())
    (hrename : kernel.rename = .ok ()) (hwrites : kernel.writes = used ++ r.answers)
    (hnone : ∀ message, .fails message ∉ used) : ¬ r.Failed kernel := by
  rintro (⟨message, herror⟩ | ⟨used', message, hwrites', hmem⟩ | ⟨message, herror⟩)
  · rw [hopen] at herror
    cases herror
  · rw [← List.append_cancel_right (hwrites.symm.trans hwrites')] at hmem
    exact hnone message hmem
  · rw [hrename] at herror
    cases herror

theorem spec_finish {v : SaveVisit} {used : List WriteAnswer} (hopen : kernel.openFile = .ok ())
    (hdb : v.db = db.saveInterrupted clock v.visited) (hcomplete : v.db = (db.saveRecords clock).2)
    (hwrote : Wrote (.create dir.files (tmpPath filename) kernel.writes) v.file
      (magic ++ LittleEndian.encode 2 version.toNat ++
        KevaDatabase.bodyBytes (db.saveRecords clock).1) used)
    (hnone : ∀ message, .fails message ∉ used) :
    SaveResult.Spec dir kernel clock db (v.finish filename kernel.rename) := by
  unfold SaveVisit.finish
  obtain ⟨chunk, used₁, hwrote₁, hsettled⟩ := puts_writeBytes [opcodeEof] v.file
  change Wrote v.file (writeU8 opcodeEof v.file).2 chunk used₁ at hwrote₁
  change Settled _ chunk used₁ (writeU8 opcodeEof v.file).1 at hsettled
  generalize writeU8 opcodeEof v.file = r at hwrote₁ hsettled ⊢
  obtain ⟨status, file⟩ := r
  replace hwrote := hwrote.trans hwrote₁
  cases status with
  | error message => exact SaveResult.spec_error (onlyTemporary_of_wrote hwrote).read hdb
  | ok u =>
      obtain ⟨rfl, hnone₁⟩ := hsettled
      dsimp only at hwrote ⊢
      rw [payload_eq_append] at hwrote
      obtain ⟨hnames, hothers, used₂, hused₂, hcrc⟩ := writeCrc64_spec file
      generalize writeCrc64 file = r at hnames hothers hused₂ hcrc ⊢
      obtain ⟨status, files, answers⟩ := r
      dsimp only at hnames hothers hused₂ hcrc ⊢
      have honly : OnlyTemporary dir files :=
        ⟨hnames.trans hwrote.names, fun i hi =>
          (hothers i (by rwa [hwrote.fd])).trans (hwrote.others i hi)⟩
      cases status with
      | error message => exact SaveResult.spec_error honly.read hdb
      | ok u =>
          obtain ⟨hnone₂, hdata⟩ := hcrc rfl
          cases hrename : kernel.rename with
          | error message => exact SaveResult.spec_error honly.read hdb
          | ok u =>
              obtain ⟨renamed, hrenamed, hread⟩ := honly.rename
              dsimp only
              rw [hrenamed]
              have hwrites : kernel.writes = (used ++ used₁ ++ used₂) ++ answers := by
                rw [List.append_assoc, ← hused₂]
                exact hwrote.answers
              refine ⟨hdb, fun _ => hcomplete, fun _ => not_failed hopen hrename hwrites ?_,
                (fun _ h => by cases h), fun _ => ?_⟩
              · simp only [List.mem_append, not_or]
                exact fun message => ⟨⟨hnone message, hnone₁ message⟩, hnone₂ message⟩
              · have hwritten : file.writer.written = payload 0 (db.saveRecords clock).1 :=
                  hwrote.written
                rw [hwrote.fd] at hdata
                rw [hread, image_eq, ← hwritten, ← file.writer.crc_eq]
                exact congrArg some hdata

theorem rdbSaveSync_spec (dir : SaveDirectory filename) (kernel : SaveKernel)
    (clock : ℕ → MillisecondTimestamp) (db : KevaDatabase) :
    SaveResult.Spec dir kernel clock db (db.rdbSaveSync filename clock kernel dir.files) := by
  unfold KevaDatabase.rdbSaveSync
  cases hopen : kernel.openFile with
  | error message => exact SaveResult.spec_error rfl rfl
  | ok u =>
      dsimp only
      set file : FdWriter := .create dir.files (tmpPath filename) kernel.writes
      set header : Writing Unit := do
        writeBytes magic
        writeU16 version
      have hputs : Puts header (magic ++ LittleEndian.encode 2 version.toNat) :=
        puts_bind (puts_writeBytes magic) (puts_writeBytes _)
      obtain ⟨chunk, used, hwrote, hsettled⟩ := hputs file
      generalize header file = r at hwrote hsettled ⊢
      obtain ⟨status, opened⟩ := r
      cases status with
      | error message => exact SaveResult.spec_error (onlyTemporary_of_wrote hwrote).read rfl
      | ok u =>
          obtain ⟨rfl, hnone⟩ := hsettled
          obtain ⟨hdb, hcomplete, chunk', used', hwrote', hsettled'⟩ :=
            KevaDatabase.saveDatabaseToWriter_spec clock db opened
          dsimp only at hwrote ⊢
          generalize KevaDatabase.saveDatabaseToWriter clock db opened = v at *
          cases hv : v.result with
          | error message =>
              exact SaveResult.spec_error (onlyTemporary_of_wrote (hwrote.trans hwrote')).read hdb
          | ok u =>
              rw [hv] at hsettled'
              obtain ⟨rfl, hnone'⟩ := hsettled'
              refine spec_finish hopen hdb (hcomplete hv) (hwrote.trans hwrote') ?_
              simp only [List.mem_append, not_or]
              exact fun message => ⟨hnone message, hnone' message⟩

end

def SaveResult.outcome (r : SaveResult) : SaveOutcome :=
  match r.status with
  | .ok () => .ok
  | .error message => .error r.visited message

/-- The next save reads this clock and ends like this. -/
def World.withSave (w : World) (clock : ℕ → MillisecondTimestamp) (r : SaveResult) : World :=
  { w with saveClock := clock, save := r.outcome }

variable {s : Session} {r : SaveResult} {clock : ℕ → MillisecondTimestamp} {message : Bytes}
  {args : List RespValue} {env : ℕ → World}

theorem exec_handleSave_error (hr : r.status = .error message) :
    (exec (fun n => (env n).withSave clock r) (handleSave args) s).2 =
      { s with
        db := s.db.saveInterrupted clock r.visited
        output := s.output ++ RespEncoder.error message
        calls := s.calls + 2 } := by
  have hsave : s.perform (fun n => (env n).withSave clock r) .rdbSaveSync =
      (.error message, { s with
        db := s.db.saveInterrupted clock r.visited
        calls := s.calls + 1 }) := by
    change ((s.rdbSaveSync ((env s.calls).withSave clock r)).1,
      { (s.rdbSaveSync ((env s.calls).withSave clock r)).2 with calls := s.calls + 1 }) = _
    unfold Session.rdbSaveSync World.withSave SaveResult.outcome
    rw [hr]
    rfl
  rw [handleSave, exec_rdbSaveSync_bind, hsave]
  rfl

/-- A save during which a system call fails returns an error. Whenever it does, the snapshot file
has its previous content, and SAVE replies the error, changes neither the time of the last save nor
the number of changes since, and leaves the keyspace as it was. A save that returns ok has replaced
the snapshot by the complete image, which ends in the checksum of everything before it. -/
theorem failed_save_leaves_all {filename : Bytes} (dir : SaveDirectory filename)
    (kernel : SaveKernel) (clock : ℕ → MillisecondTimestamp) (env : ℕ → World) (s : Session)
    {frame : RespValue} {args : List RespValue}
    (hframe : frameCommand frame = some (⟨ascii "SAVE", handleSave, 1, 1, false⟩, args)) :
    let r := s.db.rdbSaveSync filename clock kernel dir.files
    let after := replyStep (fun n => (env n).withSave clock r) s frame
    (r.Failed kernel → ∃ message, r.status = .error message) ∧
    (∀ message, r.status = .error message →
      r.files.read filename = dir.files.read filename ∧
      after.1 = RespEncoder.error message ∧
      after.2.server.lastSaveTime = s.server.lastSaveTime ∧
      after.2.server.dirtyKeys = s.server.dirtyKeys ∧
      after.2.db = r.db ∧ after.2.db.content = s.db.content) ∧
    (r.status = .ok () →
      let whole := payload 0 (s.db.saveRecords clock).1
      r.files.read filename =
        some (whole ++ LittleEndian.encode 8 (crc64Update 0 whole).toNat)) := by
  intro r after
  have hspec : SaveResult.Spec dir kernel clock s.db r := rdbSaveSync_spec dir kernel clock s.db
  refine ⟨fun hfailed => ?_, fun message hr => ?_, fun hok => ?_⟩
  · cases hr : r.status with
    | error message => exact ⟨message, rfl⟩
    | ok u => exact absurd hfailed (hspec.granted hr)
  · have hexec := @exec_handleSave_error s r clock message args env hr
    set env' : ℕ → World := fun n => (env n).withSave clock r
    have hafter : (exec env' (executeFrame frame) s).2 =
        (perform env' (exec env' (handleSave args) s).2 .recordCommand).2 := by
      rw [(executeFrame_of_some hframe).1, runCommand, exec_bind, exec_bind]
      rfl
    have hreply : after.1 = RespEncoder.error message := by
      apply replyStep_fst
      rw [hafter, hexec]
      rfl
    have hdb : after.2.db = s.db.saveInterrupted clock r.visited := by
      change (exec env' (executeFrame frame) s).2.db = _
      rw [hafter, hexec]
      rfl
    have hserver : after.2.server.lastSaveTime = s.server.lastSaveTime ∧
        after.2.server.dirtyKeys = s.server.dirtyKeys := by
      change (exec env' (executeFrame frame) s).2.server.lastSaveTime = _ ∧
        (exec env' (executeFrame frame) s).2.server.dirtyKeys = _
      rw [hafter, hexec]
      exact ⟨rfl, rfl⟩
    have hcontent : after.2.db.content = s.db.content := by
      rw [hdb, KevaDatabase.content_saveInterrupted]
    exact ⟨hspec.kept message hr, hreply, hserver.1, hserver.2,
      hdb.trans hspec.interrupted.symm, hcontent⟩
  · rw [hspec.replaced hok, image_eq]

/-- There is a snapshot with one key, and a second key has been set when the disk is full. -/
theorem failed_save_leaves_all_full_disk :
    let filename := ascii "dump.rdb"
    let set := fun (s : Session) (k : Bytes) =>
      (replyStep (fun _ => World.still 10 0) s (commandFrame [ascii "SET", k, ascii "v"])).2
    let before := set freshSession (ascii "a")
    let s := set before (ascii "b")
    let saved := before.db.rdbSaveSync filename (fun _ => 10) ⟨.ok (), [], .ok ()⟩
      SaveSystem.fresh.fs
    let kernel : SaveKernel :=
      ⟨.ok (), [.accepts 2, .interrupted, .accepts 5, .fails (ascii "No space left on device")],
        .ok ()⟩
    let frame := commandFrame [ascii "SAVE"]
    let r := s.db.rdbSaveSync filename (fun _ => 10) kernel saved.files
    let after := replyStep (fun _ => (World.still 10 0).withSave (fun _ => 10) r) s frame
    saved.status = .ok () ∧ r.status = .error (ascii "No space left on device") ∧
      (saved.files.read filename).isSome ∧
        r.files.read filename = saved.files.read filename ∧
          after.1 = RespEncoder.error (ascii "No space left on device") ∧
            after.2.server.dirtyKeys = 2 := by
  intro filename set before s saved kernel frame r after
  have htmp : (saved.files.names (tmpPath filename)).isNone := by decide +kernel
  let dir : SaveDirectory filename := ⟨saved.files, fun i h => by
    rw [Option.isNone_iff_eq_none.mp htmp] at h
    cases h⟩
  have hframe : frameCommand frame =
      some (⟨ascii "SAVE", handleSave, 1, 1, false⟩, frame.elements) := rfl
  have hstatus : r.status = .error (ascii "No space left on device") := by decide +kernel
  have hdirty : s.server.dirtyKeys = 2 := by decide +kernel
  obtain ⟨-, herror, -⟩ := failed_save_leaves_all dir kernel (fun _ => 10)
    (fun _ => World.still 10 0) s hframe
  obtain ⟨hread, hreply, -, hkept, -⟩ := herror _ hstatus
  exact ⟨by decide +kernel, hstatus, by decide +kernel, hread, hreply, hkept.trans hdirty⟩
end Keva
