import Keva.Server.Background
import Keva.Server.SaveFiles

/-!
# Recovery after a crash

The server may be killed at any point of a run, with any save half done. The snapshot that is found
then is the one of the last save that was renamed, and a server that starts from it answers like the
server did when that save began. A save that has succeeded is never undone.
-/

namespace Keva

open Session

namespace SaveTask

variable {filename : Bytes} {fs : Files} {task : SaveTask} {action : SaveAction}

theorem act_of_ended (h : task.Ended) : task.act filename fs action = (fs, task) := by
  unfold Ended at h
  unfold act
  split at h
  · rename_i ok hphase
    rw [hphase]
  · exact h.elim

/-- A save succeeds when its image gets the name of the snapshot. -/
theorem read_of_renamed {image : Bytes} (hseparate : fs.Separate (tmpPath filename) filename)
    (hsound : task.Sound filename fs) (hended : ¬ task.Ended)
    (h : (task.act filename fs action).2 = ⟨image, .ended true⟩) :
    (task.act filename fs action).1.read filename = some task.image := by
  have hphase' := congrArg SaveTask.phase h
  cases hphase : task.phase with
  | opening => cases action <;> simp [act, hphase] at hphase'
  | writing inode offset =>
      cases action with
      | close =>
          simp only [act, hphase] at hphase'
          split_ifs at hphase'
          rw [hphase] at hphase'
          cases hphase'
      | _ => simp [act, hphase] at hphase'
  | written =>
      cases action with
      | rename =>
          unfold Sound at hsound
          rw [hphase] at hsound
          obtain ⟨inode, hname, hdata⟩ := hsound
          obtain ⟨fs', hrename, -, hread⟩ :=
            FileSystem.rename_eq (tmpPath_ne filename).symm hseparate hname
          simp only [act, hphase, hrename]
          rw [hread, hdata]
      | _ => simp [act, hphase] at hphase'
  | ended ok =>
      unfold Ended at hended
      rw [hphase] at hended
      exact absurd trivial hended

end SaveTask

namespace SaveSystem

variable {filename : Bytes} {start : Option Bytes} {s : SaveSystem} {e : SaveStep}
  {base : List Bytes}

/-- The save that a step begins: its process and its clock. -/
def begins (s : SaveSystem) : SaveStep → Option (ℤ × (ℕ → MillisecondTimestamp))
  | .save clock => if s.Idle then some (serverPid, clock) else none
  | .bgsave clock pid =>
      if s.Idle ∧ s.session.server.bgsaveChildPid = -1 ∧ 0 < pid then some (pid, clock) else none
  | .shutdown clock =>
      if s.Idle ∧ s.session.server.config.rdbEnabled ∧ 0 < s.session.server.dirtyKeys then
        some (serverPid, clock)
      else none
  | _ => none

/-- What a save writes that begins now. -/
def imageAt (s : SaveSystem) (clock : ℕ → MillisecondTimestamp) : Bytes :=
  rdb.image 0 (s.session.db.saveRecords clock).1

theorem step_of_begins (filename : Bytes) {pid : ℤ} {clock : ℕ → MillisecondTimestamp}
    (h : s.begins e = some (pid, clock)) :
    let s' := s.step filename e
    s'.begun = s.imageAt clock :: s.begun ∧ s'.fs = s.fs ∧
      s'.tasks = Function.update s.tasks pid (some ⟨s.imageAt clock, .opening⟩) := by
  cases e with
  | save clock' =>
      dsimp only [begins] at h
      split_ifs at h with hidle
      obtain ⟨rfl, rfl⟩ := Prod.mk.inj (Option.some.inj h)
      change let s' := s.handleSave clock'
        s'.begun = _ ∧ s'.fs = _ ∧ s'.tasks = _
      rw [handleSave, if_pos hidle]
      exact ⟨rfl, rfl, rfl⟩
  | bgsave clock' pid' =>
      dsimp only [begins] at h
      split_ifs at h with hguard
      obtain ⟨rfl, rfl⟩ := Prod.mk.inj (Option.some.inj h)
      change let s' := s.handleBgsave clock' pid'
        s'.begun = _ ∧ s'.fs = _ ∧ s'.tasks = _
      rw [handleBgsave, if_pos hguard]
      exact ⟨rfl, rfl, rfl⟩
  | shutdown clock' =>
      dsimp only [begins] at h
      split_ifs at h with hguard
      obtain ⟨rfl, rfl⟩ := Prod.mk.inj (Option.some.inj h)
      change let s' := s.shutdown clock'
        s'.begun = _ ∧ s'.fs = _ ∧ s'.tasks = _
      rw [shutdown, if_pos hguard.1, if_pos hguard.2]
      exact ⟨rfl, rfl, rfl⟩
  | _ => cases h

theorem step_of_other (filename : Bytes) (h : s.begins e = none)
    (hact : ∀ pid action, e ≠ .act pid action) :
    let s' := s.step filename e
    s'.begun = s.begun ∧ s'.fs = s.fs ∧ ∀ pid task, s'.tasks pid = some task →
      s.tasks pid = some task := by
  have hforget : ∀ q pid task, Function.update s.tasks q none pid = some task →
      s.tasks pid = some task := by
    intro q pid task hpid
    by_cases hq : pid = q
    · rw [hq, Function.update_self] at hpid
      cases hpid
    · rwa [Function.update_of_ne hq] at hpid
  cases e with
  | serve e he =>
      change let s' := s.serve e
        s'.begun = _ ∧ s'.fs = _ ∧ ∀ pid task, s'.tasks pid = _ → _
      unfold serve
      split_ifs
      · exact ⟨rfl, rfl, fun _ _ hpid => hpid⟩
      · exact ⟨rfl, rfl, fun _ _ hpid => hpid⟩
  | save clock =>
      dsimp only [begins] at h
      split_ifs at h with hidle
      change let s' := s.handleSave clock
        s'.begun = _ ∧ s'.fs = _ ∧ ∀ pid task, s'.tasks pid = _ → _
      rw [handleSave, if_neg hidle]
      exact ⟨rfl, rfl, fun _ _ hpid => hpid⟩
  | saveReturned time =>
      change let s' := s.saveReturned time
        s'.begun = _ ∧ s'.fs = _ ∧ ∀ pid task, s'.tasks pid = _ → _
      unfold saveReturned
      split
      · exact ⟨rfl, rfl, hforget serverPid⟩
      · exact ⟨rfl, rfl, fun _ _ hpid => hpid⟩
  | bgsave clock pid =>
      dsimp only [begins] at h
      split_ifs at h with hguard
      change let s' := s.handleBgsave clock pid
        s'.begun = _ ∧ s'.fs = _ ∧ ∀ pid task, s'.tasks pid = _ → _
      rw [handleBgsave, if_neg hguard]
      exact ⟨rfl, rfl, fun _ _ hpid => hpid⟩
  | childExit time =>
      change let s' := s.onBgsaveChildExit time
        s'.begun = _ ∧ s'.fs = _ ∧ ∀ pid task, s'.tasks pid = _ → _
      unfold onBgsaveChildExit
      dsimp only
      split_ifs
      · split
        · exact ⟨rfl, rfl, hforget _⟩
        · exact ⟨rfl, rfl, fun _ _ hpid => hpid⟩
      · exact ⟨rfl, rfl, fun _ _ hpid => hpid⟩
  | shutdown clock =>
      dsimp only [begins] at h
      change let s' := s.shutdown clock
        s'.begun = _ ∧ s'.fs = _ ∧ ∀ pid task, s'.tasks pid = _ → _
      unfold shutdown
      split_ifs with hidle hdirty
      · rw [if_pos ⟨hidle, hdirty⟩] at h
        cases h
      · exact ⟨rfl, rfl, fun _ _ hpid => hpid⟩
      · exact ⟨rfl, rfl, fun _ _ hpid => hpid⟩
  | act pid action => exact absurd rfl (hact pid action)

/-- The server starts a save only when none of its own is going on, and a child only when it knows
of no other. -/
theorem Guarded.ended_of_begins (h : Guarded s) (hsave : NoChildSaving s e)
    (hbegins : (s.begins e).isSome) : ∀ pid task, s.tasks pid = some task → task.Ended := by
  cases e with
  | save clock => exact hsave
  | shutdown clock => exact hsave
  | bgsave clock pid =>
      dsimp only [begins] at hbegins
      split_ifs at hbegins with hguard
      · obtain ⟨⟨-, hidle⟩, hnochild, -⟩ := hguard
        intro p task hp
        rcases h.pids p task hp with rfl | ⟨heq, hpos⟩
        · rw [hidle] at hp
          cases hp
        · omega
      · cases hbegins
  | _ => cases hbegins

/-- At most one save is going on, the last one that has begun. -/
structure Serial (filename : Bytes) (start : Option Bytes) (s : SaveSystem) : Prop where
  safe : Safe filename start s
  guarded : Guarded s
  latest : ∀ pid task, s.tasks pid = some task → ¬ task.Ended →
    s.begun.head? = some task.image

theorem AtBoot.serial (h : AtBoot filename s) : Serial filename (s.fs.read filename) s := by
  refine ⟨h.safe, h.guarded, fun pid task hp => ?_⟩
  rw [h.tasks] at hp
  cases hp

theorem Serial.step (h : Serial filename start s) (he : NoChildSaving s e) :
    Serial filename start (s.step filename e) := by
  refine ⟨h.safe.step (h.guarded.exclusive e), h.guarded.step he, ?_⟩
  intro pid task hp hended
  cases hbegins : s.begins e with
  | some b =>
      obtain ⟨q, clock⟩ := b
      obtain ⟨hbegun, -, htasks⟩ := step_of_begins filename hbegins
      rw [htasks] at hp
      rw [hbegun, List.head?_cons]
      by_cases hq : pid = q
      · rw [hq, Function.update_self] at hp
        rw [← Option.some.inj hp]
      · rw [Function.update_of_ne hq] at hp
        have hall := h.guarded.ended_of_begins he (by rw [hbegins]; rfl)
        exact absurd (hall pid task hp) hended
  | none =>
      by_cases hact : ∃ q action, e = .act q action
      · obtain ⟨q, action, rfl⟩ := hact
        change (s.act filename q action).tasks pid = some task at hp
        change (s.act filename q action).begun.head? = _
        unfold SaveSystem.act at hp ⊢
        cases hq : s.tasks q with
        | none =>
            rw [hq] at hp
            exact h.latest pid task hp hended
        | some old =>
            rw [hq] at hp
            dsimp only at hp ⊢
            by_cases hpid : pid = q
            · rw [hpid, Function.update_self] at hp
              obtain rfl := Option.some.inj hp
              have himage := (SaveTask.acted h.safe.separate (h.safe.sound q old hq) action).image
              rw [himage]
              exact h.latest q old hq fun hold => hended (SaveTask.ended_act hold)
            · rw [Function.update_of_ne hpid] at hp
              exact h.latest pid task hp hended
      · obtain ⟨hbegun, -, hold⟩ := step_of_other filename hbegins
          fun q action heq => hact ⟨q, action, heq⟩
        rw [hbegun]
        exact h.latest pid task (hold pid task hp) hended

theorem Serial.run {steps : List SaveStep} (h : Serial filename start s)
    (hrun : Run.Along (SaveSystem.step filename) NoChildSaving s steps) :
    Serial filename start (s.run filename steps) :=
  Run.foldl_invariant (fun _ _ he hs => Serial.step hs he) hrun h

/-- The snapshot was written by a save that began after those of `base`. -/
def Kept (filename : Bytes) (base : List Bytes) (s : SaveSystem) : Prop :=
  ∃ newer, s.begun = newer ++ base ∧ ∃ image ∈ newer, s.fs.read filename = some image

/-- A save has begun after those of `base`. -/
def Newer (base : List Bytes) (s : SaveSystem) : Prop :=
  ∃ image newer, s.begun = image :: (newer ++ base)

/-- The snapshot changes only when the last save that has begun is renamed; it is over then. -/
theorem Serial.read_act (h : Serial filename start s) (pid : ℤ) (action : SaveAction) :
    let s' := s.act filename pid action
    s'.begun = s.begun ∧ (s'.fs.read filename = s.fs.read filename ∨
      s'.fs.read filename = s.begun.head?) ∧
        ∀ q image, s'.tasks q = some ⟨image, .ended true⟩ →
          s.tasks q = some ⟨image, .ended true⟩ ∨ s'.fs.read filename = s.begun.head? := by
  intro s'
  cases htask : s.tasks pid with
  | none =>
      have hsame : s' = s := by
        change s.act filename pid action = s
        unfold SaveSystem.act
        rw [htask]
      rw [hsame]
      exact ⟨rfl, .inl rfl, fun _ _ hq => .inl hq⟩
  | some task =>
      have hacted : s' = { s with
          fs := (task.act filename s.fs action).1
          tasks := Function.update s.tasks pid (some (task.act filename s.fs action).2) } := by
        change s.act filename pid action = _
        unfold SaveSystem.act
        rw [htask]
      have hsound := h.safe.sound pid task htask
      rw [hacted]
      refine ⟨rfl, ?_, ?_⟩
      · rcases (SaveTask.acted h.safe.separate hsound action).read with hold | hnew
        · exact .inl hold
        · by_cases hended : task.Ended
          · left
            dsimp only
            rw [SaveTask.act_of_ended hended]
          · exact .inr (hnew.trans (h.latest pid task htask hended).symm)
      · intro q image hq
        dsimp only at hq ⊢
        by_cases hpid : q = pid
        · rw [hpid, Function.update_self] at hq
          by_cases hended : task.Ended
          · left
            rw [SaveTask.act_of_ended hended] at hq
            rw [hpid, htask, hq]
          · right
            rw [h.latest pid task htask hended]
            exact SaveTask.read_of_renamed h.safe.separate hsound hended (Option.some.inj hq)
        · rw [Function.update_of_ne hpid] at hq
          exact .inl hq

theorem Serial.read_step (h : Serial filename start s) (e : SaveStep) :
    let s' := s.step filename e
    (∃ newer, s'.begun = newer ++ s.begun) ∧
      (s'.fs.read filename = s.fs.read filename ∨ s'.fs.read filename = s.begun.head?) ∧
        ∀ q image, s'.tasks q = some ⟨image, .ended true⟩ →
          s.tasks q = some ⟨image, .ended true⟩ ∨ s'.fs.read filename = s.begun.head? := by
  intro s'
  cases hbegins : s.begins e with
  | some b =>
      obtain ⟨pid, clock⟩ := b
      obtain ⟨hbegun, hfs, htasks⟩ := step_of_begins filename hbegins
      refine ⟨⟨[s.imageAt clock], hbegun⟩, .inl ?_, fun q image hq => .inl ?_⟩
      · change (s.step filename e).fs.read filename = _
        rw [hfs]
      · change (s.step filename e).tasks q = _ at hq
        rw [htasks] at hq
        by_cases hpid : q = pid
        · rw [hpid, Function.update_self] at hq
          cases hq
        · rwa [Function.update_of_ne hpid] at hq
  | none =>
      by_cases hact : ∃ q action, e = .act q action
      · obtain ⟨q, action, rfl⟩ := hact
        obtain ⟨hbegun, hread, hended⟩ := h.read_act q action
        exact ⟨⟨[], hbegun⟩, hread, hended⟩
      · obtain ⟨hbegun, hfs, hold⟩ := step_of_other filename hbegins
          fun q action heq => hact ⟨q, action, heq⟩
        refine ⟨⟨[], hbegun⟩, .inl ?_, fun q image hq => .inl (hold q _ hq)⟩
        change (s.step filename e).fs.read filename = _
        rw [hfs]

theorem Newer.kept_of_head (h : Newer base s) {s' : SaveSystem}
    (hbegun : ∃ newer, s'.begun = newer ++ s.begun)
    (hread : s'.fs.read filename = s.begun.head?) : Kept filename base s' := by
  obtain ⟨image, older, hs⟩ := h
  obtain ⟨newer, hs'⟩ := hbegun
  refine ⟨newer ++ image :: older, ?_, image, ?_, ?_⟩
  · rw [hs', hs, List.append_assoc, List.cons_append]
  · exact List.mem_append_right newer List.mem_cons_self
  · rw [hread, hs, List.head?_cons]

theorem Newer.step (h : Newer base s) (hserial : Serial filename start s) (e : SaveStep) :
    Newer base (s.step filename e) := by
  obtain ⟨image, older, hs⟩ := h
  obtain ⟨⟨newer, hbegun⟩, -⟩ := hserial.read_step e
  cases newer with
  | nil => exact ⟨image, older, hbegun.trans hs⟩
  | cons image' newer =>
      refine ⟨image', newer ++ image :: older, ?_⟩
      rw [hbegun, hs, List.cons_append, List.append_assoc, List.cons_append]

/-- A snapshot that is new enough is replaced by newer ones only. -/
theorem Kept.step (h : Kept filename base s) (hnewer : Newer base s)
    (hserial : Serial filename start s) (e : SaveStep) :
    Kept filename base (s.step filename e) := by
  obtain ⟨hbegun, hread, -⟩ := hserial.read_step e
  rcases hread with hsame | hhead
  · obtain ⟨older, hs, image, hmem, himage⟩ := h
    obtain ⟨newer, hs'⟩ := hbegun
    refine ⟨newer ++ older, ?_, image, List.mem_append_right newer hmem, hsame.trans himage⟩
    rw [hs', hs, List.append_assoc]
  · exact hnewer.kept_of_head hbegun hhead

/-- While the save of `pid` that began after those of `base` is going on, nothing is known about the
snapshot; once it has succeeded the snapshot is new enough. -/
structure Lasting (filename : Bytes) (start : Option Bytes) (base : List Bytes) (pid : ℤ)
    (s : SaveSystem) : Prop where
  serial : Serial filename start s
  newer : Newer base s
  kept : ∀ image, s.tasks pid = some ⟨image, .ended true⟩ → Kept filename base s

theorem Lasting.of_begins {pid : ℤ} {clock : ℕ → MillisecondTimestamp}
    (h : Serial filename start s) (he : NoChildSaving s e)
    (hbegins : s.begins e = some (pid, clock)) :
    Lasting filename start s.begun pid (s.step filename e) := by
  obtain ⟨hbegun, -, htasks⟩ := step_of_begins filename hbegins
  refine ⟨h.step he, ⟨s.imageAt clock, [], hbegun⟩, fun image himage => ?_⟩
  rw [htasks, Function.update_self] at himage
  cases himage

theorem Lasting.step {pid : ℤ} (h : Lasting filename start base pid s) (he : NoChildSaving s e) :
    Lasting filename start base pid (s.step filename e) := by
  refine ⟨h.serial.step he, h.newer.step h.serial e, fun image himage => ?_⟩
  obtain ⟨hbegun, -, hended⟩ := h.serial.read_step e
  rcases hended pid image himage with hold | hhead
  · exact (h.kept image hold).step h.newer h.serial e
  · exact h.newer.kept_of_head hbegun hhead

theorem Lasting.run {pid : ℤ} {steps : List SaveStep} (h : Lasting filename start base pid s)
    (hrun : Run.Along (SaveSystem.step filename) NoChildSaving s steps) :
    Lasting filename start base pid (s.run filename steps) :=
  Run.foldl_invariant (fun _ _ he hs => Lasting.step hs he) hrun h

theorem Kept.run {steps : List SaveStep} (h : Kept filename base s) (hnewer : Newer base s)
    (hserial : Serial filename start s)
    (hrun : Run.Along (SaveSystem.step filename) NoChildSaving s steps) :
    Kept filename base (s.run filename steps) := by
  induction steps generalizing s with
  | nil => exact h
  | cons e steps ih =>
      exact ih (h.step hnewer hserial e) (hnewer.step hserial e) (hserial.step hrun.1) hrun.2

/-- `image` is the snapshot of the keyspace in a state of the run, the state in which its save
began. -/
def Saved (filename : Bytes) (s : SaveSystem) (steps : List SaveStep) (image : Bytes) : Prop :=
  ∃ done e pid clock, done ++ [e] <+: steps ∧
    (s.run filename done).begins e = some (pid, clock) ∧
      image = (s.run filename done).imageAt clock

theorem begun_step (filename : Bytes) (s : SaveSystem) (e : SaveStep) :
    ∃ newer, (s.step filename e).begun = newer ++ s.begun ∧
      ∀ image ∈ newer, ∃ pid clock, s.begins e = some (pid, clock) ∧ image = s.imageAt clock := by
  cases hbegins : s.begins e with
  | some b =>
      obtain ⟨pid, clock⟩ := b
      refine ⟨[s.imageAt clock], (step_of_begins filename hbegins).1, ?_⟩
      intro image himage
      exact ⟨pid, clock, rfl, List.mem_singleton.mp himage⟩
  | none =>
      refine ⟨[], ?_, fun image himage => (by cases himage)⟩
      by_cases hact : ∃ q action, e = .act q action
      · obtain ⟨q, action, rfl⟩ := hact
        change (s.act filename q action).begun = _
        unfold SaveSystem.act
        split <;> rfl
      · exact (step_of_other filename hbegins
          fun q action heq => hact ⟨q, action, heq⟩).1

theorem saved_of_begun (filename : Bytes) (s : SaveSystem) (steps : List SaveStep) :
    ∃ newer, (s.run filename steps).begun = newer ++ s.begun ∧
      ∀ image ∈ newer, Saved filename s steps image := by
  induction steps generalizing s with
  | nil => exact ⟨[], rfl, fun image himage => (by cases himage)⟩
  | cons e steps ih =>
      obtain ⟨newer, hnewer, hsaved⟩ := ih (s.step filename e)
      obtain ⟨first, hfirst, hbegins⟩ := begun_step filename s e
      refine ⟨newer ++ first, ?_, fun image himage => ?_⟩
      · change ((s.step filename e).run filename steps).begun = _
        rw [hnewer, hfirst, List.append_assoc]
      · rcases List.mem_append.mp himage with hlater | hnow
        · obtain ⟨done, e', pid, clock, hprefix, hb, heq⟩ := hsaved image hlater
          exact ⟨e :: done, e', pid, clock, List.cons_prefix_cons.mpr ⟨rfl, hprefix⟩, hb, heq⟩
        · obtain ⟨pid, clock, hb, heq⟩ := hbegins image hnow
          exact ⟨[], e, pid, clock, List.cons_prefix_cons.mpr ⟨rfl, List.nil_prefix⟩, hb, heq⟩

theorem accountSave_db (session : Session) (ok : Bool) (time : Int64) :
    (accountSave session ok time).db = session.db := by
  cases ok <;> rfl

theorem proper_step (filename : Bytes) (h : s.session.db.content.Proper) (e : SaveStep) :
    (s.step filename e).session.db.content.Proper := by
  have hsaved : ∀ clock, (s.session.db.saveRecords clock).2.content.Proper := by
    intro clock
    rwa [KevaDatabase.content_saveRecords]
  cases e with
  | serve e he =>
      change (s.serve e).session.db.content.Proper
      unfold serve
      split_ifs
      · exact proper_handle h e
      · exact h
  | save clock =>
      change (s.handleSave clock).session.db.content.Proper
      unfold handleSave
      split_ifs
      · exact hsaved clock
      · exact h
  | saveReturned time =>
      change (s.saveReturned time).session.db.content.Proper
      unfold saveReturned
      split
      · rw [accountSave_db]
        exact h
      · exact h
  | bgsave clock pid =>
      change (s.handleBgsave clock pid).session.db.content.Proper
      unfold handleBgsave
      split_ifs
      · exact h
      · exact h
  | childExit time =>
      change (s.onBgsaveChildExit time).session.db.content.Proper
      unfold onBgsaveChildExit
      dsimp only
      split_ifs
      · split
        · dsimp only
          rw [accountSave_db]
          exact h
        · exact h
      · exact h
  | shutdown clock =>
      change (s.shutdown clock).session.db.content.Proper
      unfold shutdown
      split_ifs
      · exact hsaved clock
      · exact h
      · exact h
  | act pid action =>
      change (s.act filename pid action).session.db.content.Proper
      unfold SaveSystem.act
      split
      · exact h
      · exact h

theorem proper_run (filename : Bytes) (h : s.session.db.content.Proper) (steps : List SaveStep) :
    (s.run filename steps).session.db.content.Proper := by
  induction steps generalizing s with
  | nil => exact h
  | cons e steps ih => exact ih (proper_step filename h e)

/-- No time passes while a save is made, and its length fields suffice. -/
def SavesStill (s : SaveSystem) (e : SaveStep) : Prop :=
  ∀ pid clock, s.begins e = some (pid, clock) →
    (∃ t : MillisecondTimestamp, 0 ≤ t.toInt ∧ clock = fun _ => t) ∧ s.session.db.content.Short

/-- A server that starts from `file` answers every run of requests as `session` would from `t`
on. -/
def RestartsLike (t : MillisecondTimestamp) (session : Session) (file : Bytes) : Prop :=
  ∀ P Q server secs events events' T,
    Weave.Woven ServerEvent.isRequest ServerEvent.At t events events' T →
      Weave.Answered AnswersAlike (session.transcript events)
        ((Session.start P Q server secs (.whole file)).transcript events')

theorem Saved.restartsLike {steps : List SaveStep} {image : Bytes}
    (h : Saved filename s steps image) (hproper : s.session.db.content.Proper)
    (hstill : Run.Along (step filename) SavesStill s steps) :
    ∃ done e pid t, done ++ [e] <+: steps ∧
      (s.run filename done).begins e = some (pid, fun _ => t) ∧
        RestartsLike t (s.run filename done).session image := by
  obtain ⟨done, e, pid, clock, ⟨rest, rfl⟩, hbegins, rfl⟩ := h
  rw [List.append_assoc, Run.along_append] at hstill
  obtain ⟨⟨t, ht, rfl⟩, hshort⟩ := hstill.2.1 pid clock hbegins
  refine ⟨done, e, pid, t, List.prefix_append _ _, hbegins, ?_⟩
  intro P Q server secs events events' T hwoven
  have hlook := lookalike_start (proper_run filename hproper done) hshort ht P Q server
    secs 0
  exact Related.answered hlook hwoven

/-- A save that has succeeded survives a crash at any later point: the server that is started then
answers like the one that crashed did at the beginning of that save or of a later one. -/
theorem saved_state_recovered (hboot : AtBoot filename s) (hproper : s.session.db.content.Proper)
    {pre mid post : List SaveStep} {pid : ℤ} {clock : ℕ → MillisecondTimestamp} {image : Bytes}
    (hrun : Run.Along (step filename) (fun s e => NoChildSaving s e ∧ SavesStill s e) s
      (pre ++ e :: (mid ++ post)))
    (hbegins : (s.run filename pre).begins e = some (pid, clock))
    (hdone : (s.run filename (pre ++ e :: mid)).tasks pid = some ⟨image, .ended true⟩) :
    ∃ done e' pid' t file, pre <+: done ∧ done ++ [e'] <+: pre ++ e :: (mid ++ post) ∧
      (s.run filename done).begins e' = some (pid', fun _ => t) ∧
      (s.run filename (pre ++ e :: (mid ++ post))).fs.read filename = some file ∧
      RestartsLike t (s.run filename done).session file := by
  obtain ⟨hserial, hstill⟩ := Run.along_and.mp hrun
  obtain ⟨hpre, hserial⟩ := Run.along_append.mp hserial
  obtain ⟨-, hstill⟩ := Run.along_append.mp hstill
  have hsplit : ∀ l, s.run filename (pre ++ l) = (s.run filename pre).run filename l := by
    intro l
    exact List.foldl_append
  rw [hsplit] at hdone ⊢
  have hstart : Lasting filename (s.fs.read filename) (s.run filename pre).begun pid
      ((s.run filename pre).step filename e) :=
    .of_begins (hboot.serial.run hpre) hserial.1 hbegins
  obtain ⟨hmid, hpost⟩ := Run.along_append.mp hserial.2
  have hlasting := hstart.run hmid
  have hkept := (hlasting.kept image hdone).run hlasting.newer hlasting.serial hpost
  have hrest : ((s.run filename pre).step filename e).run filename (mid ++ post) =
      (((s.run filename pre).step filename e).run filename mid).run filename post :=
    List.foldl_append
  obtain ⟨newer, hbegun, file, hfile, hread⟩ := hrest ▸ hkept
  obtain ⟨newer', hbegun', hsaved⟩ :=
    saved_of_begun filename (s.run filename pre) (e :: (mid ++ post))
  obtain rfl : newer = newer' := List.append_cancel_right (hbegun.symm.trans hbegun')
  obtain ⟨done, e', pid', t, hprefix, hb, hlike⟩ := (hsaved file hfile).restartsLike
    (proper_run filename hproper pre) hstill
  rw [← hsplit] at hb hlike
  exact ⟨pre ++ done, e', pid', t, file, List.prefix_append _ _, by
    rwa [List.append_assoc, List.prefix_append_right_inj], hb, hread, hlike⟩

/-- The server is killed at some time after a save of its own. -/
theorem saved_state_recovered_save :
    let filename := ascii "dump.rdb"
    let mid := [.act serverPid .openFile, .act serverPid (.write 100), .act serverPid .close,
      .act serverPid .rename]
    let post := [.saveReturned 0, .serve .rehash trivial]
    let steps := .save (fun _ => 10) :: (mid ++ post)
    ∃ done e pid t file, done ++ [e] <+: steps ∧
      (fresh.run filename done).begins e = some (pid, fun _ => t) ∧
      (fresh.run filename steps).fs.read filename = some file ∧
      RestartsLike t (fresh.run filename done).session file := by
  intro filename mid post steps
  have hempty : fresh.session.db.content = .empty := KevaDatabase.content_empty _ _
  have hproper : fresh.session.db.content.Proper := KevaDatabase.Reachable.proper .empty
  have hstill : SavesStill fresh (.save fun _ => 10) := by
    intro pid clock h
    obtain ⟨-, rfl⟩ := Prod.mk.inj (Option.some.inj h)
    refine ⟨⟨10, by decide, rfl⟩, fun k obj ho => ?_⟩
    rw [hempty] at ho
    cases ho
  have hnone : ∀ (s : SaveSystem) e, s.begins e = none → SavesStill s e := by
    intro s e h pid clock hsome
    rw [h] at hsome
    cases hsome
  have hdone : (fresh.run filename ([] ++ .save (fun _ => 10) :: mid)).tasks serverPid =
      some ⟨fresh.imageAt fun _ => 10, .ended true⟩ := by rfl
  have hrun : Run.Along (step filename) (fun s e => NoChildSaving s e ∧ SavesStill s e) fresh
      ([] ++ .save (fun _ => 10) :: (mid ++ post)) :=
    ⟨⟨fun _ _ h => (by cases h), hstill⟩, ⟨trivial, hnone _ _ rfl⟩, ⟨trivial, hnone _ _ rfl⟩,
      ⟨trivial, hnone _ _ rfl⟩, ⟨trivial, hnone _ _ rfl⟩, ⟨trivial, hnone _ _ rfl⟩,
      ⟨trivial, hnone _ _ rfl⟩, trivial⟩
  obtain ⟨done, e, pid, t, file, -, hrest⟩ :=
    saved_state_recovered (atBoot_fresh filename) hproper hrun rfl hdone
  exact ⟨done, e, pid, t, file, hrest⟩

end SaveSystem

end Keva
