import Keva.Server.ActiveExpiry
import Keva.Server.Saving
import Keva.Server.Sequential

/-!
# What INFO counts

Three figures of INFO move while the server runs: the commands that have been processed, the keys
that have expired, and the changes since the last save. In every run of the event loop they are what
a reader of the log would count: the frames that name a command, the keys that the crons have taken
out of the database, and the write commands behind the last save that succeeded.
-/

namespace Keva

open Session Handler

/-- The frame names a command, whether there is one of that name or not. -/
def namesCommand (frame : RespValue) : Bool :=
  match frame.elements with
  | [] => false
  | nameValue :: _ => nameValue.isBulkString

/-- The frame runs a write command. -/
def writes (frame : RespValue) : Bool := (frameCommand frame).any fun c => c.1.write

def SaveOutcome.succeeds : SaveOutcome → Bool
  | .ok => true
  | .error _ _ => false

/-- The frame is a SAVE that succeeds. -/
def savesNow (env : ℕ → World) (s : Session) (frame : RespValue) : Bool :=
  frameName frame = some (ascii "SAVE") && (env s.calls).save.succeeds

variable {env : ℕ → World} {s : Session} {frame : RespValue} {entry : CommandEntry}
  {args : List RespValue}

theorem Session.stats_perform {op : Call} (h : op ≠ .recordCommand) (env : ℕ → World)
    (s : Session) : (s.perform env op).2.server.stats = s.server.stats := by
  cases op with
  | recordCommand => exact absurd rfl h
  | rdbSaveSync =>
      change (s.rdbSaveSync (env s.calls)).2.server.stats = _
      unfold Session.rdbSaveSync
      cases (env s.calls).save <;> rfl
  | rdbSaveBackground =>
      change (s.rdbSaveBackground (env s.calls)).2.server.stats = _
      unfold Session.rdbSaveBackground
      cases (env s.calls).fork <;> rfl
  | _ => rfl

theorem calls_handleSave (args : List RespValue) :
    (handleSave args).Calls (· ≠ .recordCommand) := by
  refine ⟨by simp, fun status => ?_⟩
  cases status with
  | error message => exact ⟨by simp, fun _ => trivial⟩
  | ok _ =>
      exact ⟨by simp, fun _ => ⟨by simp, fun _ => ⟨by simp, fun _ => ⟨by simp, fun _ => trivial⟩⟩⟩⟩

theorem calls_handler (he : entry ∈ commandTable) (ha : entry.admits args = true) :
    (entry.handler args).Calls (· ≠ .recordCommand) := by
  by_cases hsave : entry.name = ascii "SAVE"
  · have hnames : (commandTable.map CommandEntry.name).Nodup := by decide
    have hmem : ⟨ascii "SAVE", handleSave, 1, 1, false⟩ ∈ commandTable := by simp [commandTable]
    rw [List.inj_on_of_nodup_map hnames he hmem hsave]
    exact calls_handleSave args
  · have hkinds : ∀ e ∈ commandTable, e.name ≠ ascii "SAVE" →
        .account ∉ (footprint e.name).kinds := by decide
    refine Program.Calls.mono (uses_handler he ha) fun op hop hrecord => ?_
    rw [hrecord] at hop
    exact hkinds entry he hsave hop.kind_mem

theorem stats_runCommand (he : entry ∈ commandTable) (ha : entry.admits args = true)
    (env : ℕ → World) (s : Session) :
    (s.exec env (runCommand entry args)).2.server.stats = { s.server.stats with
      totalCommandsProcessed := s.server.stats.totalCommandsProcessed + 1 } := by
  have hhandler : (s.exec env (entry.handler args)).2.server.stats = s.server.stats :=
    Program.run_invariant (I := fun s' : Session => s'.server.stats = s.server.stats)
      (fun s' op hop hs' => (stats_perform hop env s').trans hs') (calls_handler he ha) rfl
  rw [runCommand, exec_bind, exec_bind, ← hhandler]
  cases entry.write <;> rfl

theorem stats_executeFrame (env : ℕ → World) (s : Session) (frame : RespValue) :
    (s.exec env (executeFrame frame)).2.server.stats = { s.server.stats with
      totalCommandsProcessed := s.server.stats.totalCommandsProcessed +
        UInt64.ofNat (namesCommand frame).toNat } := by
  unfold executeFrame namesCommand
  cases hframe : frame.elements with
  | nil =>
      change s.server.stats = { s.server.stats with
        totalCommandsProcessed := s.server.stats.totalCommandsProcessed + 0 }
      rw [UInt64.add_zero]
  | cons nameValue rest =>
      dsimp only
      cases hb : nameValue.isBulkString with
      | false =>
          change s.server.stats = { s.server.stats with
            totalCommandsProcessed := s.server.stats.totalCommandsProcessed + 0 }
          rw [UInt64.add_zero]
      | true =>
          rw [if_neg (by simp)]
          cases hc : findCommand (nameValue.str.map toUpper) with
          | none => rfl
          | some entry =>
              dsimp only
              split_ifs with ha
              · exact stats_runCommand (List.mem_of_find?_eq_some hc) ha env s
              · rfl

theorem dirtyKeys_handleSave (env : ℕ → World) (s : Session) (args : List RespValue) :
    (s.exec env (handleSave args)).2.server.dirtyKeys =
      if (env s.calls).save.succeeds then 0 else s.server.dirtyKeys := by
  have hsave : s.perform env .rdbSaveSync = ((s.rdbSaveSync (env s.calls)).1,
      { (s.rdbSaveSync (env s.calls)).2 with calls := s.calls + 1 }) := rfl
  rw [handleSave, exec_rdbSaveSync_bind, hsave]
  unfold Session.rdbSaveSync
  cases (env s.calls).save <;> rfl

theorem dirtyKeys_handler (he : entry ∈ commandTable) (ha : entry.admits args = true)
    (hc : frameCommand frame = some (entry, args)) (hsave : entry.name ≠ ascii "SAVE")
    (env : ℕ → World) (s : Session) :
    (s.exec env (entry.handler args)).2.server.dirtyKeys = s.server.dirtyKeys := by
  by_cases hb : entry.name = ascii "BGSAVE"
  · obtain rfl := findEntry (e := ⟨ascii "BGSAVE", handleBgsave, 1, 1, false⟩) hc hb rfl
    exact (exec_handleBgsave_saving args).2.2
  · exact (sameSaving_exec (uses_handler he ha) (savingKinds_of_ne he hsave hb) env s).dirtyKeys

theorem dirtyKeys_executeFrame (env : ℕ → World) (s : Session) (frame : RespValue) :
    (s.exec env (executeFrame frame)).2.server.dirtyKeys =
      if savesNow env s frame then 0
      else s.server.dirtyKeys + UInt64.ofNat (writes frame).toNat := by
  unfold savesNow writes frameName
  cases hc : frameCommand frame with
  | none =>
      rw [(exec_executeFrame_of_none hc env s).1.dirtyKeys]
      exact (UInt64.add_zero _).symm
  | some c =>
      obtain ⟨entry, args⟩ := c
      obtain ⟨heq, he, ha, -⟩ := executeFrame_of_some hc
      have hdirty := (exec_runCommand_saving entry args env s).2.2.2
      rw [← heq] at hdirty
      rw [hdirty, Option.map_some, Option.any_some]
      by_cases hsave : entry.name = ascii "SAVE"
      · obtain rfl := findEntry (e := ⟨ascii "SAVE", handleSave, 1, 1, false⟩) hc hsave rfl
        rw [dirtyKeys_handleSave]
        cases (env s.calls).save with
        | ok => rfl
        | error visited message => exact (UInt64.add_zero _).symm
      · rw [dirtyKeys_handler he ha hc hsave]
        cases entry.write <;> simp [hsave]

namespace Entry

def namesCommand : Entry → Bool
  | .dispatched _ _ step => step.frame?.any Keva.namesCommand
  | _ => false

def writes : Entry → Bool
  | .dispatched _ _ step => step.frame?.any Keva.writes
  | _ => false

/-- A save has succeeded: the SAVE that the entry runs, or that of a child that is reaped. -/
def saves (s : Session) : Entry → Bool
  | .dispatched _ env step => step.frame?.any (savesNow env s)
  | .reaped status _ => status = some true
  | _ => false

/-- The keys that a cron takes out of the database. -/
def takesOut (s : Session) : Entry → ℕ
  | .cron tick =>
      s.db.dbsize - (s.serverCron tick.now tick.draw₁ tick.draw₂ tick.draw₃).db.dbsize
  | _ => 0

variable {P Q : DictParams} (e : Entry)

theorem reachable_perform (h : KevaDatabase.Reachable P Q s.db) :
    KevaDatabase.Reachable P Q (e.perform s).2.db := by
  cases e with
  | dispatched id env step =>
      obtain ⟨state, action⟩ := step
      cases action with
      | reject => exact h
      | execute frame => exact .command env frame { s with state := state, output := [] } h
  | reaped status time =>
      cases status with
      | none => exact h
      | some ok => cases ok <;> exact h
  | childFinishes clock =>
      rw [perform, finishChild_db]
      exact h
  | cron tick => exact (h.activeExpireCycle tick.now tick.draw₁ tick.draw₂ tick.draw₃).rehashStep
  | _ => exact h

theorem dbsize_rehashStep (db : KevaDatabase) : db.rehashStep.dbsize = db.dbsize := by
  have hkeys : db.rehashStep.keys.toMap = db.keys.toMap :=
    congrArg Keyspace.objects (KevaDatabase.content_rehashStep db)
  have hsize : db.rehashStep.dbsize = _ := Dict.size_eq_ncard db.rehashStep.keys_sound
  rw [hsize, hkeys]
  exact (Dict.size_eq_ncard db.keys_sound).symm

theorem expiredKeys_serverCron (h : KevaDatabase.Reachable P Q s.db) (now : MillisecondTimestamp)
    (draw₁ draw₂ draw₃ : SampleDraw) :
    (s.serverCron now draw₁ draw₂ draw₃).server.stats.expiredKeys =
      s.server.stats.expiredKeys +
        UInt64.ofNat (s.db.dbsize - (s.serverCron now draw₁ draw₂ draw₃).db.dbsize) := by
  have hcycle := KevaDatabase.dbsize_activeExpireCycle h.regular h.healthy.noOrphans now draw₁
    draw₂ draw₃
  have hdb : (s.serverCron now draw₁ draw₂ draw₃).db.dbsize =
      (s.db.activeExpireCycle now draw₁ draw₂ draw₃).2.dbsize := dbsize_rehashStep _
  rw [hdb, ← hcycle, Nat.add_sub_cancel]
  rfl

theorem stats_perform (h : KevaDatabase.Reachable P Q s.db) :
    (e.perform s).2.server.stats = { s.server.stats with
      totalCommandsProcessed :=
        s.server.stats.totalCommandsProcessed + UInt64.ofNat e.namesCommand.toNat
      expiredKeys := s.server.stats.expiredKeys + UInt64.ofNat (e.takesOut s) } := by
  cases e with
  | dispatched id env step =>
      obtain ⟨state, action⟩ := step
      cases action with
      | reject => simp [perform, DispatchStep.perform, namesCommand, DispatchStep.frame?, takesOut]
      | execute frame =>
          have hstats := stats_executeFrame env { s with state := state, output := [] } frame
          simpa [perform, DispatchStep.perform, answerFrame, namesCommand, DispatchStep.frame?,
            takesOut] using hstats
  | cron tick =>
      have hexpired := expiredKeys_serverCron h tick.now tick.draw₁ tick.draw₂ tick.draw₃
      have htakes : (cron tick).takesOut s = s.db.dbsize -
          (s.serverCron tick.now tick.draw₁ tick.draw₂ tick.draw₃).db.dbsize := rfl
      rw [htakes, ← hexpired]
      simp [perform, serverCron, namesCommand]
  | reaped status time =>
      cases status with
      | none => simp [perform, reap, namesCommand, takesOut]
      | some ok => cases ok <;> simp [perform, reap, namesCommand, takesOut]
  | childFinishes clock =>
      have hstats : (s.finishChild clock).server.stats = s.server.stats := by
        unfold finishChild
        split <;> rfl
      simp [perform, hstats, namesCommand, takesOut]
  | _ => simp [perform, namesCommand, takesOut]

theorem dirtyKeys_perform :
    (e.perform s).2.server.dirtyKeys =
      if e.saves s then 0 else s.server.dirtyKeys + UInt64.ofNat e.writes.toNat := by
  cases e with
  | dispatched id env step =>
      obtain ⟨state, action⟩ := step
      cases action with
      | reject => simp [perform, DispatchStep.perform, saves, writes, DispatchStep.frame?]
      | execute frame =>
          exact dirtyKeys_executeFrame env { s with state := state, output := [] } frame
  | reaped status time =>
      cases status with
      | none => simp [perform, reap, saves, writes]
      | some ok => cases ok <;> simp [perform, reap, saves, writes]
  | childFinishes clock =>
      have hdirty : (s.finishChild clock).server.dirtyKeys = s.server.dirtyKeys := by
        unfold finishChild
        split <;> rfl
      simp [perform, hdirty, saves, writes]
  | cron tick => simp [perform, serverCron, saves, writes]
  | _ => simp [perform, saves, writes]

end Entry

/-- The keys that the crons of the log take out of the database. -/
def takenOut : Session → List Entry → ℕ
  | _, [] => 0
  | s, e :: log => e.takesOut s + takenOut (e.perform s).2 log

/-- No save succeeds. -/
def Unsaved (s : Session) (log : List Entry) : Prop :=
  Run.Along (fun s (e : Entry) => (e.perform s).2) (fun s e => e.saves s = false) s log

/-- The figures of INFO are those of the log: what it has counted since `s`, and the changes since
the last save in it that has succeeded. -/
structure Figures (s : Session) (log : List Entry) (srv : ServerContext) : Prop where
  stats : srv.stats = { s.server.stats with
    totalCommandsProcessed :=
      s.server.stats.totalCommandsProcessed + UInt64.ofNat (log.countP Entry.namesCommand)
    expiredKeys := s.server.stats.expiredKeys + UInt64.ofNat (takenOut s log) }
  unsaved : Unsaved s log →
    srv.dirtyKeys = s.server.dirtyKeys + UInt64.ofNat (log.countP Entry.writes)
  saved : ∀ before e after, log = before ++ e :: after → e.saves (replay s before) = true →
    Unsaved (replay s (before ++ [e])) after →
      srv.dirtyKeys = UInt64.ofNat (after.countP Entry.writes)

variable {P Q : DictParams} {log : List Entry}

theorem countP_cons_eq (p : Entry → Bool) (e : Entry) (log : List Entry) :
    (e :: log).countP p = (p e).toNat + log.countP p := by
  rw [List.countP_cons, Nat.add_comm]
  cases p e <;> rfl

theorem stats_replay (h : KevaDatabase.Reachable P Q s.db) (log : List Entry) :
    (replay s log).server.stats = { s.server.stats with
      totalCommandsProcessed :=
        s.server.stats.totalCommandsProcessed + UInt64.ofNat (log.countP Entry.namesCommand)
      expiredKeys := s.server.stats.expiredKeys + UInt64.ofNat (takenOut s log) } := by
  induction log generalizing s with
  | nil => simp [replay, takenOut]
  | cons e log ih =>
      have hreplay : replay s (e :: log) = replay (e.perform s).2 log := rfl
      rw [hreplay, ih (e.reachable_perform h), e.stats_perform h, countP_cons_eq, takenOut]
      simp only [UInt64.ofNat_add, UInt64.add_assoc]

theorem dirtyKeys_replay (h : Unsaved s log) :
    (replay s log).server.dirtyKeys =
      s.server.dirtyKeys + UInt64.ofNat (log.countP Entry.writes) := by
  induction log generalizing s with
  | nil => simp [replay]
  | cons e log ih =>
      obtain ⟨hsaves, hrest⟩ := h
      have hreplay : replay s (e :: log) = replay (e.perform s).2 log := rfl
      have hone := e.dirtyKeys_perform (s := s)
      rw [hsaves, if_neg Bool.false_ne_true] at hone
      rw [hreplay, ih hrest, hone, countP_cons_eq, UInt64.ofNat_add, UInt64.add_assoc]

theorem figures_replay (h : KevaDatabase.Reachable P Q s.db) (log : List Entry) :
    Figures s log (replay s log).server := by
  refine ⟨stats_replay h log, dirtyKeys_replay, ?_⟩
  rintro before e after rfl hsaves hunsaved
  have hsplit : replay s (before ++ e :: after) = replay (replay s (before ++ [e])) after := by
    rw [← replay_append, List.append_assoc, List.singleton_append]
  have hsaved : (replay s (before ++ [e])).server.dirtyKeys = 0 := by
    rw [replay_append]
    exact (e.dirtyKeys_perform).trans (if_pos hsaves)
  rw [hsplit, dirtyKeys_replay hunsaved, hsaved, UInt64.zero_add]

theorem answer_info (hc : frameCommand frame = some (⟨ascii "INFO", handleInfo, 1, 2, false⟩, args))
    (env : ℕ → World) (s : Session) (state : ConnectionState) :
    ((DispatchStep.mk state (.execute frame)).perform env s).1 =
      RespEncoder.bulkString (infoText s.server (env (s.calls + 1)).time s.db.dbsize) := by
  change (exec env (executeFrame frame) { s with state := state, output := [] }).2.output = _
  rw [(executeFrame_of_some hc).1, runCommand, exec_bind, exec_bind]
  rfl

namespace Reactor

variable {d : Descriptors} {interval monotonic : ℤ} {wakes : List Wake} {r : Reactor}

/-- In every run of the event loop the figures of INFO are those of the log. At its end the server
has them, and every INFO in it has been answered with the figures of what came before. -/
theorem figures_add_up (h : KevaDatabase.Reachable P Q s.db)
    (hrun : Reactor.run d interval wakes (started d s monotonic) = (log, some r)) :
    Figures s log r.session.server ∧
      ∀ before id env state frame args after,
        log = before ++ .dispatched id env ⟨state, .execute frame⟩ :: after →
          frameCommand frame = some (⟨ascii "INFO", handleInfo, 1, 2, false⟩, args) →
            ∃ srv now keys, Figures s before srv ∧
              ((DispatchStep.mk state (.execute frame)).perform env (replay s before)).1 =
                RespEncoder.bulkString (infoText srv now keys) := by
  have hseq := (invariant_sequential d interval s).run [] (sequential_started d s monotonic) hrun
  rw [List.nil_append] at hseq
  rw [hseq.session]
  refine ⟨figures_replay h log, ?_⟩
  rintro before id env state frame args after - hc
  exact ⟨_, _, _, figures_replay h before, answer_info hc env (replay s before) state⟩

/-- A client stores a key for five milliseconds, the cron takes it out, and another client asks for
INFO. -/
def expiredThenInfo : List Wake :=
  let chunk := fun (words : List Bytes) (h : (commandFrame words).wire ≠ [])
    (hlen : (commandFrame words).wire.length ≤ constants.readBufferSize) =>
      (⟨(commandFrame words).wire, h, hlen⟩ : Chunk)
  let answers := fun (accepted : List ℕ) (chunks : List Chunk) =>
    (⟨accepted, 0, ⟨chunks, .wouldBlock⟩, fun _ => .still 10 0, ⟨[1000], .wouldBlock⟩,
      ⟨[], .wouldBlock⟩⟩ : KernelAnswers)
  let input : EventMask := ⟨false, true, false⟩
  let tick : TimerTick := ⟨200, 15, ⟨0, 0⟩, ⟨0, 0⟩, ⟨0, 0⟩⟩
  [.ready [.ready ⟨3, input, answers [5, 6] []⟩,
      .ready ⟨5, input, answers [] [chunk [ascii "PSETEX", ascii "k", ascii "5", ascii "v"]
        (by decide) (by decide)]⟩] tick,
    .ready [.ready ⟨6, input, answers [] [chunk [ascii "INFO"] (by decide) (by decide)]⟩] tick]

theorem figures_add_up_expiredThenInfo :
    ∃ log r, Reactor.run ⟨3, 4, 65536⟩ 100 expiredThenInfo (started ⟨3, 4, 65536⟩ freshSession 0) =
      (log, some r) ∧ Figures freshSession log r.session.server ∧
        r.session.server.stats.totalCommandsProcessed = 2 ∧
          r.session.server.stats.expiredKeys = 1 ∧ r.session.server.dirtyKeys = 1 := by
  have hall : (Reactor.run ⟨3, 4, 65536⟩ 100 expiredThenInfo
      (started ⟨3, 4, 65536⟩ freshSession 0)).2.any (fun r =>
        r.session.server.stats.totalCommandsProcessed = 2 &&
          r.session.server.stats.expiredKeys = 1 && r.session.server.dirtyKeys = 1) := by
    decide +kernel
  obtain ⟨⟨log, result⟩, hrun⟩ : ∃ p, Reactor.run ⟨3, 4, 65536⟩ 100 expiredThenInfo
      (started ⟨3, 4, 65536⟩ freshSession 0) = p := ⟨_, rfl⟩
  rw [hrun] at hall
  obtain ⟨r, rfl, hr⟩ := (Option.any_eq_true _ _).mp hall
  rw [Bool.and_eq_true, Bool.and_eq_true, decide_eq_true_iff, decide_eq_true_iff,
    decide_eq_true_iff] at hr
  have hempty : KevaDatabase.Reachable (DictParams.exact fun _ => 0) (DictParams.exact fun _ => 0)
      freshSession.db := .empty
  exact ⟨log, r, hrun, (figures_add_up hempty hrun).1, hr.1.1, hr.1.2, hr.2⟩

end Reactor

end Keva
