import Keva.Lib.FileSystem
import Keva.Lib.Run
import Keva.Command.Isolation
import Keva.Persistence.RdbSave

/-!
# Saves on the file system

`rdb_save_sync` writes a temporary file and renames it over the snapshot. Every save uses the same
temporary name, so two saves that overlap write into one file. `handle_bgsave` refuses to start a
second child, but SAVE and the final save of `main` do not look whether a child is running.
-/

namespace Keva

open Session

abbrev Files : Type := FileSystem Bytes UInt8

def tmpPath (filename : Bytes) : Bytes := filename ++ ascii ".tmp"

inductive SavePhase
  | opening
  | writing (inode offset : ℕ)
  | written
  | ended (ok : Bool)

/-- A run of `rdb_save_sync` in some process. What it writes is settled when it begins. -/
structure SaveTask where
  image : Bytes
  phase : SavePhase

/-- A write puts out some of the bytes that are left. A process fails at an error or when it is
killed. -/
inductive SaveAction
  | openFile
  | write (n : ℕ)
  | close
  | rename
  | fail

/-- The save has the temporary file open, or has written it and not renamed it yet. -/
def SaveTask.Active (task : SaveTask) : Prop :=
  match task.phase with
  | .writing _ _ | .written => True
  | _ => False

/-- The save has returned. -/
def SaveTask.Ended (task : SaveTask) : Prop :=
  match task.phase with
  | .ended _ => True
  | _ => False

def SaveTask.act (filename : Bytes) (fs : Files) (task : SaveTask) (action : SaveAction) :
    Files × SaveTask :=
  match task.phase, action with
  | .opening, .openFile =>
      ((fs.openTruncate (tmpPath filename)).2,
        { task with phase := .writing (fs.openTruncate (tmpPath filename)).1 0 })
  | .writing inode offset, .write n =>
      let bytes := (task.image.drop offset).take n
      (fs.write inode offset bytes, { task with phase := .writing inode (offset + bytes.length) })
  | .writing _ offset, .close =>
      (fs, if offset = task.image.length then { task with phase := .written } else task)
  | .written, .rename =>
      match fs.rename (tmpPath filename) filename with
      | some fs => (fs, { task with phase := .ended true })
      | none => (fs, { task with phase := .ended false })
  | .ended _, _ => (fs, task)
  | _, .fail => (fs, { task with phase := .ended false })
  | _, _ => (fs, task)

/-- The process id under which the server's own save is kept. -/
def serverPid : ℤ := 0

/-- `tasks` are the saves of the server and of the children that have not been reaped. `begun` lists
what the saves that have begun are to write. -/
structure SaveSystem where
  fs : Files
  session : Session
  tasks : ℤ → Option SaveTask
  running : Bool
  begun : List Bytes

/-- What the event loop handles besides saves. -/
def ServerEvent.Ordinary : ServerEvent → Prop
  | .request _ frame =>
      frameName frame ≠ some (ascii "SAVE") ∧ frameName frame ≠ some (ascii "BGSAVE")
  | .cron _ _ _ _ => True
  | .rehash => True
  | .childFinishes _ => False
  | .childExit _ => False

inductive SaveStep
  | serve (e : ServerEvent) (h : e.Ordinary)
  | save (clock : ℕ → MillisecondTimestamp)
  | saveReturned (time : Int64)
  | bgsave (clock : ℕ → MillisecondTimestamp) (pid : ℕ)
  | childExit (time : Int64)
  | shutdown (clock : ℕ → MillisecondTimestamp)
  | act (pid : ℤ) (action : SaveAction)

namespace SaveSystem

/-- The event loop is between two events. -/
def Idle (s : SaveSystem) : Prop := s.running = true ∧ s.tasks serverPid = none

instance (s : SaveSystem) : Decidable s.Idle :=
  match h : s.tasks serverPid with
  | none => decidable_of_iff (s.running = true) (by rw [Idle, h, and_iff_left rfl])
  | some task => isFalse (by rw [Idle, h]; rintro ⟨-, ⟨⟩⟩)

/-- `rdb_save_sync` begins in a process that has the server's keyspace or a copy of it. -/
def begin (s : SaveSystem) (pid : ℤ) (clock : ℕ → MillisecondTimestamp) : SaveSystem :=
  let image := rdb.image 0 (s.session.db.saveRecords clock).1
  { s with
    tasks := Function.update s.tasks pid (some ⟨image, .opening⟩)
    begun := image :: s.begun }

/-- The server saves its own keyspace. The walk over it migrates buckets, as many as a save that
fails would at most. -/
def beginServer (s : SaveSystem) (clock : ℕ → MillisecondTimestamp) : SaveSystem :=
  { s.begin serverPid clock with
    session := { s.session with db := (s.session.db.saveRecords clock).2 } }

/-- The event loop handles an event that saves nothing. -/
def serve (s : SaveSystem) (e : ServerEvent) : SaveSystem :=
  if s.Idle then { s with session := s.session.handle e } else s

/-- What `handle_save` and `on_bgsave_child_exit` note after a save that went well. -/
def accountSave (s : Session) (ok : Bool) (time : Int64) : Session :=
  if ok then { s with server := { s.server with lastSaveTime := time, dirtyKeys := 0 } } else s

def handleSave (s : SaveSystem) (clock : ℕ → MillisecondTimestamp) : SaveSystem :=
  if s.Idle then s.beginServer clock else s

/-- The server's own save is over. -/
def saveReturned (s : SaveSystem) (time : Int64) : SaveSystem :=
  match s.tasks serverPid with
  | some ⟨_, .ended ok⟩ =>
      { s with
        tasks := Function.update s.tasks serverPid none
        session := accountSave s.session ok time }
  | _ => s

/-- `pid` is what `fork` returns. -/
def handleBgsave (s : SaveSystem) (clock : ℕ → MillisecondTimestamp) (pid : ℕ) : SaveSystem :=
  if s.Idle ∧ s.session.server.bgsaveChildPid = -1 ∧ 0 < pid then
    { s.begin pid clock with
      session := { s.session with server := { s.session.server with bgsaveChildPid := pid } } }
  else s

def onBgsaveChildExit (s : SaveSystem) (time : Int64) : SaveSystem :=
  let pid := s.session.server.bgsaveChildPid
  if s.Idle ∧ pid ≠ -1 then
    match s.tasks pid with
    | some ⟨_, .ended ok⟩ =>
        let session := accountSave s.session ok time
        { s with
          tasks := Function.update s.tasks pid none
          session := { session with server := { session.server with bgsaveChildPid := -1 } } }
    | _ => s
  else s

/-- The end of `main`. -/
def shutdown (s : SaveSystem) (clock : ℕ → MillisecondTimestamp) : SaveSystem :=
  if s.Idle then
    if s.session.server.config.rdbEnabled ∧ 0 < s.session.server.dirtyKeys then
      { s.beginServer clock with running := false }
    else { s with running := false }
  else s

/-- The process `pid` goes on with its save. -/
def act (filename : Bytes) (s : SaveSystem) (pid : ℤ) (action : SaveAction) : SaveSystem :=
  match s.tasks pid with
  | none => s
  | some task =>
      { s with
        fs := (task.act filename s.fs action).1
        tasks := Function.update s.tasks pid (some (task.act filename s.fs action).2) }

/-- Steps that are not possible in a state leave it as it is. -/
def step (filename : Bytes) (s : SaveSystem) : SaveStep → SaveSystem
  | .serve e _ => s.serve e
  | .save clock => s.handleSave clock
  | .saveReturned time => s.saveReturned time
  | .bgsave clock pid => s.handleBgsave clock pid
  | .childExit time => s.onBgsaveChildExit time
  | .shutdown clock => s.shutdown clock
  | .act pid action => s.act filename pid action

def run (filename : Bytes) (s : SaveSystem) (steps : List SaveStep) : SaveSystem :=
  steps.foldl (step filename) s

end SaveSystem

theorem tmpPath_ne (filename : Bytes) : filename ≠ tmpPath filename := by
  intro h
  have hlen := congrArg List.length h
  have htmp : (ascii ".tmp").length = 4 := rfl
  rw [tmpPath, List.length_append] at hlen
  omega

namespace SaveTask

variable {filename : Bytes} {fs : Files} {task : SaveTask} {action : SaveAction}

/-- While the save is active the temporary file holds what has been written of the image. -/
def Sound (filename : Bytes) (fs : Files) (task : SaveTask) : Prop :=
  match task.phase with
  | .writing inode offset => fs.names (tmpPath filename) = some inode ∧
      fs.data inode = task.image.take offset ∧ offset ≤ task.image.length
  | .written => ∃ inode, fs.names (tmpPath filename) = some inode ∧ fs.data inode = task.image
  | _ => True

theorem sound_of_not_active (h : ¬ task.Active) : task.Sound filename fs := by
  unfold Active at h
  unfold Sound
  split
  · rename_i hphase
    rw [hphase] at h
    exact absurd trivial h
  · rename_i hphase
    rw [hphase] at h
    exact absurd trivial h
  · trivial

/-- What one action of a sound save leaves. -/
structure Acted (filename : Bytes) (fs : Files) (task : SaveTask) (r : Files × SaveTask) :
    Prop where
  image : r.2.image = task.image
  sound : r.2.Sound filename r.1
  separate : r.1.Separate (tmpPath filename) filename
  read : r.1.read filename = fs.read filename ∨ r.1.read filename = some task.image

theorem acted_of_inactive {task' : SaveTask} (himage : task'.image = task.image)
    (hseparate : fs.Separate (tmpPath filename) filename) (h : ¬ task'.Active) :
    Acted filename fs task (fs, task') :=
  ⟨himage, sound_of_not_active h, hseparate, .inl rfl⟩

theorem acted_openFile (hseparate : fs.Separate (tmpPath filename) filename)
    (hphase : task.phase = .opening) : Acted filename fs task (task.act filename fs .openFile) := by
  unfold act
  rw [hphase]
  refine ⟨rfl, ⟨?_, ?_, Nat.zero_le _⟩, ?_, .inl ?_⟩
  · exact fs.openTruncate_names _
  · dsimp only
    rw [FileSystem.openTruncate_data, Function.update_self, List.take_zero]
  · exact FileSystem.separate_openTruncate (tmpPath_ne filename) hseparate
  · exact FileSystem.read_openTruncate (tmpPath_ne filename) hseparate

theorem acted_write {inode offset : ℕ} (hseparate : fs.Separate (tmpPath filename) filename)
    (hsound : task.Sound filename fs) (hphase : task.phase = .writing inode offset) (n : ℕ) :
    Acted filename fs task (task.act filename fs (.write n)) := by
  unfold Sound at hsound
  rw [hphase] at hsound
  obtain ⟨hname, hdata, hoffset⟩ := hsound
  unfold act
  rw [hphase]
  dsimp only
  have hlen : (fs.data inode).length = offset := by
    rw [hdata, List.length_take, Nat.min_eq_left hoffset]
  refine ⟨rfl, ⟨hname, ?_, ?_⟩, hseparate, .inl ?_⟩
  · unfold FileSystem.write
    dsimp only
    rw [Function.update_self, ← hlen, FileSystem.writeAt_length, hlen, hdata, List.take_add]
    congr 1
    rw [List.take_eq_take_iff, List.length_take]
    omega
  · dsimp only
    rw [List.length_take, List.length_drop]
    omega
  · exact FileSystem.read_write_of_ne (hseparate inode hname) _ _

theorem acted_close {inode offset : ℕ} (hseparate : fs.Separate (tmpPath filename) filename)
    (hsound : task.Sound filename fs) (hphase : task.phase = .writing inode offset) :
    Acted filename fs task (task.act filename fs .close) := by
  have hsound' := hsound
  unfold Sound at hsound'
  rw [hphase] at hsound'
  obtain ⟨hname, hdata, -⟩ := hsound'
  unfold act
  rw [hphase]
  dsimp only
  split_ifs with hend
  · refine ⟨rfl, ⟨inode, hname, ?_⟩, hseparate, .inl rfl⟩
    rw [hdata, hend, List.take_length]
  · exact ⟨rfl, hsound, hseparate, .inl rfl⟩

theorem acted_rename (hseparate : fs.Separate (tmpPath filename) filename)
    (hsound : task.Sound filename fs) (hphase : task.phase = .written) :
    Acted filename fs task (task.act filename fs .rename) := by
  unfold Sound at hsound
  rw [hphase] at hsound
  obtain ⟨inode, hname, hdata⟩ := hsound
  obtain ⟨fs', hrename, hnone, hread⟩ :=
    FileSystem.rename_eq (tmpPath_ne filename).symm hseparate hname
  unfold act
  rw [hphase]
  dsimp only
  rw [hrename]
  refine ⟨rfl, trivial, fun i hi => ?_, .inr ?_⟩
  · rw [hnone] at hi
    cases hi
  · rw [hread, hdata]

theorem acted (hseparate : fs.Separate (tmpPath filename) filename)
    (hsound : task.Sound filename fs) (action : SaveAction) :
    Acted filename fs task (task.act filename fs action) := by
  have hsame : Acted filename fs task (fs, task) := ⟨rfl, hsound, hseparate, .inl rfl⟩
  have hfailed : Acted filename fs task (fs, { task with phase := .ended false }) :=
    acted_of_inactive rfl hseparate id
  cases hphase : task.phase with
  | opening =>
      cases action with
      | openFile => exact acted_openFile hseparate hphase
      | fail => simpa only [act, hphase] using hfailed
      | _ => simpa only [act, hphase] using hsame
  | writing inode offset =>
      cases action with
      | write n => exact acted_write hseparate hsound hphase n
      | close => exact acted_close hseparate hsound hphase
      | fail => simpa only [act, hphase] using hfailed
      | _ => simpa only [act, hphase] using hsame
  | written =>
      cases action with
      | rename => exact acted_rename hseparate hsound hphase
      | fail => simpa only [act, hphase] using hfailed
      | _ => simpa only [act, hphase] using hsame
  | ended ok => simpa only [act, hphase] using hsame

/-- A save that is not active only touches files when it opens the temporary one. -/
theorem act_of_not_active (h : ¬ task.Active)
    (hopen : ¬ (task.phase = .opening ∧ action = .openFile)) :
    (task.act filename fs action).1 = fs ∧ ¬ (task.act filename fs action).2.Active := by
  have hsame : fs = fs ∧ ¬ task.Active := ⟨rfl, h⟩
  have hfailed : fs = fs ∧ ¬ SaveTask.Active { task with phase := .ended false } := ⟨rfl, id⟩
  cases hphase : task.phase with
  | opening =>
      cases action with
      | openFile => exact absurd ⟨hphase, rfl⟩ hopen
      | fail => simpa only [act, hphase] using hfailed
      | _ => simpa only [act, hphase] using hsame
  | writing inode offset =>
      unfold Active at h
      rw [hphase] at h
      exact absurd trivial h
  | written =>
      unfold Active at h
      rw [hphase] at h
      exact absurd trivial h
  | ended ok => simpa only [act, hphase] using hsame

theorem ended_act (h : task.Ended) : (task.act filename fs action).2.Ended := by
  have hended := h
  unfold Ended at h
  split at h
  · rename_i ok hphase
    simpa only [act, hphase] using hended
  · exact h.elim

theorem not_ended_of_active (h : task.Active) : ¬ task.Ended := by
  unfold Active at h
  unfold Ended
  split
  · rename_i ok hphase
    rw [hphase] at h
    exact fun _ => h
  · exact id

end SaveTask

namespace SaveSystem

variable {filename : Bytes} {start : Option Bytes} {s : SaveSystem}

/-- No other save is active when one opens the temporary file. -/
def Exclusive (s : SaveSystem) : SaveStep → Prop
  | .act pid .openFile => ∀ task, s.tasks pid = some task → task.phase = .opening →
      ∀ q task', q ≠ pid → s.tasks q = some task' → ¬ task'.Active
  | _ => True

/-- The snapshot is missing, or is as it was at the start, or is what some save began to write. -/
def Whole (filename : Bytes) (start : Option Bytes) (s : SaveSystem) : Prop :=
  s.fs.read filename = none ∨ s.fs.read filename = start ∨
    ∃ image ∈ s.begun, s.fs.read filename = some image

structure Safe (filename : Bytes) (start : Option Bytes) (s : SaveSystem) : Prop where
  whole : Whole filename start s
  separate : s.fs.Separate (tmpPath filename) filename
  image : ∀ pid task, s.tasks pid = some task → task.image ∈ s.begun
  sound : ∀ pid task, s.tasks pid = some task → task.Sound filename s.fs
  alone : ∀ p q task task', s.tasks p = some task → s.tasks q = some task' → task.Active →
    task'.Active → p = q

theorem Safe.of_same {s' : SaveSystem} (h : Safe filename start s) (hfs : s'.fs = s.fs)
    (htasks : s'.tasks = s.tasks) (hbegun : s'.begun = s.begun) : Safe filename start s' := by
  obtain ⟨fs, session, tasks, running, begun⟩ := s'
  dsimp only at hfs htasks hbegun
  subst hfs htasks hbegun
  exact ⟨h.whole, h.separate, h.image, h.sound, h.alone⟩

theorem Safe.remove (h : Safe filename start s) (pid : ℤ) (session : Session) :
    Safe filename start
      { s with tasks := Function.update s.tasks pid none, session := session } := by
  have hold : ∀ p task, Function.update s.tasks pid none p = some task → s.tasks p = some task := by
    intro p task hp
    by_cases hpid : p = pid
    · rw [hpid, Function.update_self] at hp
      cases hp
    · rwa [Function.update_of_ne hpid] at hp
  refine ⟨h.whole, h.separate, ?_, ?_, ?_⟩
  · exact fun p task hp => h.image p task (hold p task hp)
  · exact fun p task hp => h.sound p task (hold p task hp)
  · exact fun p q task task' hp hq => h.alone p q task task' (hold p task hp) (hold q task' hq)

theorem Safe.update (h : Safe filename start s) {pid : ℤ} {task : SaveTask} {fs : Files}
    {begun : List Bytes} (himage : task.image ∈ begun) (hbegun : s.begun ⊆ begun)
    (hread : fs.read filename = s.fs.read filename ∨ fs.read filename = some task.image)
    (hseparate : fs.Separate (tmpPath filename) filename) (hsound : task.Sound filename fs)
    (hothers : ∀ q task', q ≠ pid → s.tasks q = some task' → task'.Sound filename fs)
    (halone : task.Active → ∀ q task', q ≠ pid → s.tasks q = some task' → ¬ task'.Active) :
    Safe filename start
      { s with fs := fs, tasks := Function.update s.tasks pid (some task), begun := begun } := by
  have hcases : ∀ q task', Function.update s.tasks pid (some task) q = some task' →
      q = pid ∧ task' = task ∨ q ≠ pid ∧ s.tasks q = some task' := by
    intro q task' hq
    by_cases hpid : q = pid
    · rw [hpid, Function.update_self] at hq
      exact .inl ⟨hpid, (Option.some.inj hq).symm⟩
    · rw [Function.update_of_ne hpid] at hq
      exact .inr ⟨hpid, hq⟩
  refine ⟨?_, hseparate, ?_, ?_, ?_⟩
  · rcases hread with hsame | hnew
    · unfold Whole
      dsimp only
      rw [hsame]
      rcases h.whole with hnone | hstart | ⟨image, hmem, himage⟩
      · exact .inl hnone
      · exact .inr (.inl hstart)
      · exact .inr (.inr ⟨image, hbegun hmem, himage⟩)
    · exact .inr (.inr ⟨task.image, himage, hnew⟩)
  · intro q task' hq
    rcases hcases q task' hq with ⟨-, rfl⟩ | ⟨-, hold⟩
    · exact himage
    · exact hbegun (h.image q task' hold)
  · intro q task' hq
    rcases hcases q task' hq with ⟨-, rfl⟩ | ⟨hne, hold⟩
    · exact hsound
    · exact hothers q task' hne hold
  · intro p q task₁ task₂ hp hq hactive hactive'
    rcases hcases p task₁ hp with ⟨rfl, rfl⟩ | ⟨hne, hold⟩
    · rcases hcases q task₂ hq with ⟨rfl, rfl⟩ | ⟨hne', hold'⟩
      · rfl
      · exact absurd hactive' (halone hactive q task₂ hne' hold')
    · rcases hcases q task₂ hq with ⟨rfl, rfl⟩ | ⟨hne', hold'⟩
      · exact absurd hactive (halone hactive' p task₁ hne hold)
      · exact h.alone p q task₁ task₂ hold hold' hactive hactive'

theorem Safe.begin (h : Safe filename start s) (pid : ℤ) (clock : ℕ → MillisecondTimestamp) :
    Safe filename start (s.begin pid clock) :=
  h.update List.mem_cons_self (List.subset_cons_self _ _) (.inl rfl) h.separate trivial
    (fun q task' _ hq => h.sound q task' hq) (fun hactive => hactive.elim)

theorem Safe.act (h : Safe filename start s) {pid : ℤ} {action : SaveAction}
    (hexclusive : Exclusive s (.act pid action)) :
    Safe filename start (s.act filename pid action) := by
  unfold SaveSystem.act
  cases htask : s.tasks pid with
  | none => exact h
  | some task =>
      obtain ⟨himage, hsound, hseparate, hread⟩ :=
        SaveTask.acted h.separate (h.sound pid task htask) action
      have halone : ∀ q task', q ≠ pid → s.tasks q = some task' → task'.Active →
          (task.act filename s.fs action).1 = s.fs ∧
            ¬ (task.act filename s.fs action).2.Active := by
        intro q task' hne hq hactive
        apply SaveTask.act_of_not_active
        · exact fun hpid => hne (h.alone q pid task' task hq htask hactive hpid)
        · rintro ⟨hphase, rfl⟩
          exact hexclusive task htask hphase q task' hne hq hactive
      apply h.update (himage ▸ h.image pid task htask) (List.Subset.refl _) (himage ▸ hread)
        hseparate hsound
      · intro q task' hne hq
        by_cases hactive : task'.Active
        · rw [(halone q task' hne hq hactive).1]
          exact h.sound q task' hq
        · exact SaveTask.sound_of_not_active hactive
      · intro hpid q task' hne hq hactive
        exact (halone q task' hne hq hactive).2 hpid

theorem Safe.step (h : Safe filename start s) {e : SaveStep} (hexclusive : Exclusive s e) :
    Safe filename start (s.step filename e) := by
  cases e with
  | serve e he =>
      change Safe filename start (s.serve e)
      unfold serve
      split_ifs
      · exact h.of_same rfl rfl rfl
      · exact h
  | save clock =>
      change Safe filename start (s.handleSave clock)
      unfold handleSave
      split_ifs
      · exact (h.begin serverPid clock).of_same rfl rfl rfl
      · exact h
  | saveReturned time =>
      change Safe filename start (s.saveReturned time)
      unfold saveReturned
      split
      · exact h.remove serverPid _
      · exact h
  | bgsave clock pid =>
      change Safe filename start (s.handleBgsave clock pid)
      unfold handleBgsave
      split_ifs
      · exact (h.begin pid clock).of_same rfl rfl rfl
      · exact h
  | childExit time =>
      change Safe filename start (s.onBgsaveChildExit time)
      unfold onBgsaveChildExit
      dsimp only
      split_ifs
      · split
        · exact h.remove _ _
        · exact h
      · exact h
  | shutdown clock =>
      change Safe filename start (s.shutdown clock)
      unfold shutdown
      split_ifs
      · exact (h.begin serverPid clock).of_same rfl rfl rfl
      · exact h.of_same rfl rfl rfl
      · exact h
  | act pid action => exact h.act hexclusive

/-- SAVE and the final save only begin when no child is saving. -/
def NoChildSaving (s : SaveSystem) : SaveStep → Prop
  | .save _ | .shutdown _ => ∀ pid task, s.tasks pid = some task → task.Ended
  | _ => True

/-- The only child is the one that the server knows of, and it saves only when the server does
not. -/
structure Guarded (s : SaveSystem) : Prop where
  pids : ∀ pid task, s.tasks pid = some task →
    pid = serverPid ∨ pid = s.session.server.bgsaveChildPid ∧ 0 < pid
  apart : ∀ task, s.tasks serverPid = some task → ¬ task.Ended →
    ∀ pid task', pid ≠ serverPid → s.tasks pid = some task' → task'.Ended

theorem Guarded.exclusive (h : Guarded s) (e : SaveStep) : Exclusive s e := by
  cases e with
  | act pid action =>
      cases action with
      | openFile =>
          intro task htask hphase q task' hne hq hactive
          have hended : ¬ task.Ended := by
            unfold SaveTask.Ended
            rw [hphase]
            exact id
          have hended' := SaveTask.not_ended_of_active hactive
          rcases h.pids pid task htask with rfl | ⟨hpid, -⟩
          · exact hended' (h.apart task htask hended q task' hne hq)
          · rcases h.pids q task' hq with rfl | ⟨hqpid, -⟩
            · exact hended (h.apart task' hq hended' pid task hne.symm htask)
            · exact hne (hqpid.trans hpid.symm)
      | _ => trivial
  | _ => trivial

theorem Guarded.of_same {s' : SaveSystem} (h : Guarded s) (htasks : s'.tasks = s.tasks)
    (hpid : s'.session.server.bgsaveChildPid = s.session.server.bgsaveChildPid) : Guarded s' := by
  constructor
  · rw [htasks, hpid]
    exact h.pids
  · rw [htasks]
    exact h.apart

theorem Guarded.begin (h : Guarded s) (hended : ∀ pid task, s.tasks pid = some task → task.Ended)
    (clock : ℕ → MillisecondTimestamp) : Guarded (s.begin serverPid clock) := by
  have hold : ∀ pid task, pid ≠ serverPid → (s.begin serverPid clock).tasks pid = some task →
      s.tasks pid = some task := by
    intro pid task hne hp
    unfold SaveSystem.begin at hp
    dsimp only at hp
    rwa [Function.update_of_ne hne] at hp
  constructor
  · intro pid task hp
    by_cases hne : pid = serverPid
    · exact .inl hne
    · exact h.pids pid task (hold pid task hne hp)
  · intro _ _ _ pid task' hne hp
    exact hended pid task' (hold pid task' hne hp)

theorem serve_bgsaveChildPid {e : ServerEvent} (he : e.Ordinary) (session : Session) :
    (session.handle e).server.bgsaveChildPid = session.server.bgsaveChildPid := by
  cases e with
  | request env frame => exact replyStep_bgsaveChildPid he.2 env session
  | cron now draw₁ draw₂ draw₃ => rfl
  | rehash => rfl
  | childFinishes clock => exact he.elim
  | childExit time => exact he.elim

theorem accountSave_bgsaveChildPid (session : Session) (ok : Bool) (time : Int64) :
    (accountSave session ok time).server.bgsaveChildPid = session.server.bgsaveChildPid := by
  cases ok <;> rfl

theorem Guarded.saveReturned (h : Guarded s) (time : Int64) : Guarded (s.saveReturned time) := by
  unfold SaveSystem.saveReturned
  split
  · constructor
    · intro pid task hp
      dsimp only at hp ⊢
      rw [accountSave_bgsaveChildPid]
      by_cases hne : pid = serverPid
      · exact .inl hne
      · rw [Function.update_of_ne hne] at hp
        exact h.pids pid task hp
    · intro task htask
      dsimp only at htask
      rw [Function.update_self] at htask
      cases htask
  · exact h

theorem Guarded.handleBgsave (h : Guarded s) (clock : ℕ → MillisecondTimestamp) (pid : ℕ) :
    Guarded (s.handleBgsave clock pid) := by
  unfold SaveSystem.handleBgsave
  split_ifs with hguard
  · obtain ⟨⟨-, hidle⟩, hnochild, hpos⟩ := hguard
    have hnone : ∀ p task, s.tasks p ≠ some task := by
      intro p task hp
      rcases h.pids p task hp with rfl | ⟨heq, hp'⟩
      · rw [hidle] at hp
        cases hp
      · omega
    constructor
    · intro p task hp
      by_cases hpid : p = pid
      · exact .inr ⟨hpid, by omega⟩
      · change Function.update s.tasks _ _ p = some task at hp
        rw [Function.update_of_ne hpid] at hp
        exact absurd hp (hnone p task)
    · intro task htask
      change Function.update s.tasks _ _ serverPid = some task at htask
      have hne : serverPid ≠ pid := by
        unfold serverPid
        omega
      rw [Function.update_of_ne hne] at htask
      exact absurd htask (hnone serverPid task)
  · exact h

theorem Guarded.onBgsaveChildExit (h : Guarded s) (time : Int64) :
    Guarded (s.onBgsaveChildExit time) := by
  unfold SaveSystem.onBgsaveChildExit
  dsimp only
  split_ifs with hguard
  · split
    · have hold : ∀ p task, Function.update s.tasks s.session.server.bgsaveChildPid none p =
          some task → p = serverPid := by
        intro p task hp
        by_cases hne : p = s.session.server.bgsaveChildPid
        · rw [hne, Function.update_self] at hp
          cases hp
        · rw [Function.update_of_ne hne] at hp
          exact (h.pids p task hp).resolve_right fun hchild => hne hchild.1
      constructor
      · exact fun p task hp => .inl (hold p task hp)
      · exact fun _ _ _ p task hne hp => absurd (hold p task hp) hne
    · exact h
  · exact h

theorem Guarded.act (h : Guarded s) (pid : ℤ) (action : SaveAction) :
    Guarded (s.act filename pid action) := by
  unfold SaveSystem.act
  cases htask : s.tasks pid with
  | none => exact h
  | some task =>
      set task₁ := (task.act filename s.fs action).2 with htask₁
      -- a save that has not ended had not ended before
      have hold : ∀ q task', Function.update s.tasks pid (some task₁) q = some task' →
          ∃ old, s.tasks q = some old ∧ (old.Ended → task'.Ended) := by
        intro q task' hq
        by_cases hne : q = pid
        · rw [hne, Function.update_self] at hq
          obtain rfl := Option.some.inj hq
          exact ⟨task, hne ▸ htask, SaveTask.ended_act⟩
        · rw [Function.update_of_ne hne] at hq
          exact ⟨task', hq, id⟩
      constructor
      · intro q task' hq
        obtain ⟨old, hq', -⟩ := hold q task' hq
        exact h.pids q old hq'
      · intro task₂ hserver hended q task' hne hq
        obtain ⟨old, hserver', himp⟩ := hold serverPid task₂ hserver
        obtain ⟨old', hq', himp'⟩ := hold q task' hq
        exact himp' (h.apart old hserver' (fun hold => hended (himp hold)) q old' hne hq')

theorem Guarded.step (h : Guarded s) {e : SaveStep} (he : NoChildSaving s e) :
    Guarded (s.step filename e) := by
  cases e with
  | serve e hordinary =>
      change Guarded (s.serve e)
      unfold serve
      split_ifs
      · exact h.of_same rfl (serve_bgsaveChildPid hordinary s.session)
      · exact h
  | save clock =>
      change Guarded (s.handleSave clock)
      unfold handleSave
      split_ifs
      · exact (h.begin he clock).of_same rfl rfl
      · exact h
  | saveReturned time => exact h.saveReturned time
  | bgsave clock pid => exact h.handleBgsave clock pid
  | childExit time => exact h.onBgsaveChildExit time
  | shutdown clock =>
      change Guarded (s.shutdown clock)
      unfold shutdown
      split_ifs
      · exact (h.begin he clock).of_same rfl rfl
      · exact h.of_same rfl rfl
      · exact h
  | act pid action => exact h.act pid action

/-- The server has just started: no saves yet. -/
structure AtBoot (filename : Bytes) (s : SaveSystem) : Prop where
  separate : s.fs.Separate (tmpPath filename) filename
  tasks : ∀ pid, s.tasks pid = none
  begun : s.begun = []
  bgsaveChildPid : s.session.server.bgsaveChildPid = -1

theorem AtBoot.safe (h : AtBoot filename s) : Safe filename (s.fs.read filename) s := by
  have hnone : ∀ {pid task}, s.tasks pid ≠ some task := by
    intro pid task hp
    rw [h.tasks] at hp
    cases hp
  exact ⟨.inr (.inl rfl), h.separate, fun _ _ hp => absurd hp hnone,
    fun _ _ hp => absurd hp hnone, fun _ _ _ _ hp => absurd hp hnone⟩

theorem AtBoot.guarded (h : AtBoot filename s) : Guarded s := by
  have hnone : ∀ {pid task}, s.tasks pid ≠ some task := by
    intro pid task hp
    rw [h.tasks] at hp
    cases hp
  exact ⟨fun _ _ hp => absurd hp hnone, fun _ hp => absurd hp hnone⟩

theorem exclusive_of_noChildSaving {steps : List SaveStep} (h : Guarded s)
    (hrun : Run.Along (step filename) NoChildSaving s steps) :
    Run.Along (step filename) Exclusive s steps := by
  induction steps generalizing s with
  | nil => trivial
  | cons e steps ih => exact ⟨h.exclusive e, ih (h.step hrun.1) hrun.2⟩

/-- When no two saves have the temporary file open at a time, the snapshot is whole in every state
reached. That is so when SAVE and the final save only begin while no child is saving. -/
theorem snapshot_whole (h : AtBoot filename s) :
    (∀ steps, Run.Along (step filename) Exclusive s steps →
      Whole filename (s.fs.read filename) (s.run filename steps)) ∧
    ∀ steps, Run.Along (step filename) NoChildSaving s steps →
      Run.Along (step filename) Exclusive s steps := by
  constructor
  · intro steps hrun
    exact (Run.foldl_invariant (fun _ _ hc hs => Safe.step hs hc) hrun h.safe).whole
  · intro steps hrun
    exact exclusive_of_noChildSaving h.guarded hrun

/-- A server with an empty keyspace and no snapshot. -/
def fresh : SaveSystem where
  fs := ⟨fun _ => none, fun _ => [], 0, FileSystem.fresh_none⟩
  session := freshSession
  tasks := fun _ => none
  running := true
  begun := []

theorem atBoot_fresh (filename : Bytes) : AtBoot filename fresh := by
  refine ⟨fun _ h => ?_, fun _ => rfl, rfl, rfl⟩
  cases h

/-- A save and then a child's. -/
theorem snapshot_whole_bgsave :
    let filename := ascii "dump.rdb"
    let steps := [.save fun _ => 10, .act serverPid .openFile, .act serverPid (.write 100),
      .act serverPid .close, .act serverPid .rename, .saveReturned 0, .bgsave (fun _ => 10) 1,
      .act 1 .openFile, .act 1 (.write 10)]
    Whole filename none (fresh.run filename steps) := by
  intro filename steps
  obtain ⟨hwhole, hexclusive⟩ := snapshot_whole (atBoot_fresh filename)
  apply hwhole steps
  apply hexclusive
  exact ⟨fun _ _ h => (by cases h), trivial, trivial, trivial, trivial, trivial, trivial, trivial,
    trivial, trivial⟩

/-- SAVE empties the temporary file before the child renames it. -/
theorem overlapping_saves_tear :
    let filename := ascii "dump.rdb"
    let steps := [.bgsave (fun _ => 10) 1, .act 1 .openFile, .act 1 (.write 100), .act 1 .close,
      .save fun _ => 10, .act serverPid .openFile, .act 1 .rename]
    AtBoot filename fresh ∧ (fresh.run filename steps).fs.read filename = some [] ∧
      ¬ Whole filename none (fresh.run filename steps) := by
  intro filename steps
  have hread : (fresh.run filename steps).fs.read filename = some [] := by decide +kernel
  refine ⟨atBoot_fresh filename, hread, ?_⟩
  have himages : (fresh.run filename steps).begun.all fun image => image ≠ [] := by decide +kernel
  rintro (hnone | hnone | ⟨image, hmem, himage⟩)
  · rw [hread] at hnone
    cases hnone
  · rw [hread] at hnone
    cases hnone
  · rw [hread] at himage
    have hne := List.all_eq_true.mp himages image hmem
    rw [decide_eq_true_eq] at hne
    exact hne (Option.some.inj himage).symm

end SaveSystem

end Keva
