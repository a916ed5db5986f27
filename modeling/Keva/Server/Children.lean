import Keva.Server.Saving
import Keva.Server.Sequential

/-!
# No child is forgotten

The server learns that the child of a BGSAVE has exited from a byte in the pipe of the signals. The
byte is there as long as the child has not been reaped, unless the server is about to stop, so that
BGSAVE is only refused while a child runs or is about to be reaped.
-/

namespace Keva

open Session

theorem perform_child {env : ℕ → World} {op : Call} (h : op.kind ≠ .fork) (s : Session) :
    (s.perform env op).2.child = s.child := by
  cases op with
  | rdbSaveBackground => exact absurd rfl h
  | rdbSaveSync =>
      change (s.rdbSaveSync (env s.calls)).2.child = _
      unfold Session.rdbSaveSync
      cases (env s.calls).save <;> rfl
  | _ => rfl

theorem exec_child {α : Type} {kinds : List CallKind} {keys : List Bytes} {p : Handler α}
    (h : Uses kinds keys p) (hkinds : .fork ∉ kinds) (env : ℕ → World) (s : Session) :
    (exec env p s).2.child = s.child := by
  have hcalls : p.Calls (Call.Within kinds keys) := h
  refine Program.run_invariant (I := fun s' : Session => s'.child = s.child)
    (fun s' op hop hs' => ?_) hcalls rfl
  rw [perform_child (fun hfork => hkinds (hfork ▸ hop.kind_mem))]
  exact hs'

/-- The child and the pid that the server knows are as before, or a child has been started and there
was none before. -/
def SameChild (s s' : Session) : Prop :=
  s'.child = s.child ∧ s'.server.bgsaveChildPid = s.server.bgsaveChildPid ∨
    s.server.bgsaveChildPid = -1 ∧ s'.child.isSome ∧ s'.server.bgsaveChildPid ≠ -1

theorem sameChild_handleBgsave (args : List RespValue) (env : ℕ → World) (s : Session) :
    SameChild s (exec env (handleBgsave args) s).2 := by
  rw [handleBgsave, exec_serverContext_bind]
  split_ifs with hpid
  · exact .inl ⟨rfl, rfl⟩
  · have hnone : s.server.bgsaveChildPid = -1 := not_not.mp hpid
    rw [exec_rdbSaveBackground_bind]
    set s₁ := (s.perform env .serverContext).2 with hs₁
    have hfork : SameChild s (s₁.perform env .rdbSaveBackground).2 := by
      change SameChild s { (s₁.rdbSaveBackground (env s₁.calls)).2 with calls := s₁.calls + 1 }
      unfold Session.rdbSaveBackground
      cases (env s₁.calls).fork with
      | error message => exact .inl ⟨rfl, rfl⟩
      | ok pid =>
          refine .inr ⟨hnone, rfl, ?_⟩
          dsimp only
          omega
    cases (s₁.perform env .rdbSaveBackground).1 with
    | ok u => exact hfork
    | error message => exact hfork

theorem sameChild_executeFrame (f : RespValue) (env : ℕ → World) (s : Session) :
    SameChild s (exec env (executeFrame f) s).2 := by
  by_cases hname : frameName f = some (ascii "BGSAVE")
  · obtain ⟨⟨entry, args⟩, hc, hentry⟩ := Option.map_eq_some_iff.mp hname
    obtain rfl := findEntry (e := ⟨ascii "BGSAVE", handleBgsave, 1, 1, false⟩) hc hentry rfl
    rw [(executeFrame_of_some hc).1, runCommand, exec_bind, exec_bind]
    exact sameChild_handleBgsave args env s
  · refine .inl ⟨?_, replyStep_bgsaveChildPid hname env s⟩
    cases hc : frameCommand f with
    | none => exact exec_child (executeFrame_of_none hc) (by decide) env s
    | some c =>
        obtain ⟨entry, args⟩ := c
        obtain ⟨heq, he, ha, -⟩ := executeFrame_of_some hc
        have hfork : CallKind.fork ∉ .account :: (footprint entry.name).kinds := by
          intro hin
          rcases List.mem_cons.mp hin with hin | hin
          · cases hin
          · apply hname
            rw [frameName, hc, Option.map_some, fork_of_mem_kinds he hin]
        exact exec_child (heq ▸ uses_runCommand he ha) hfork env s

/-- The server knows a pid exactly while it has a child. -/
def KnowsChild (s : Session) : Prop := s.server.bgsaveChildPid = -1 ↔ s.child = none

theorem KnowsChild.sameChild {s s' : Session} (h : KnowsChild s) (hsame : SameChild s s') :
    KnowsChild s' ∧ (s.child.isSome → s'.child.isSome) := by
  rcases hsame with ⟨hchild, hpid⟩ | ⟨-, hchild, hpid⟩
  · unfold KnowsChild
    rw [hchild, hpid]
    exact ⟨h, id⟩
  · refine ⟨⟨fun heq => absurd heq hpid, fun hnone => ?_⟩, fun _ => hchild⟩
    rw [hnone] at hchild
    cases hchild

theorem DispatchStep.sameChild (step : DispatchStep) (env : ℕ → World) (s : Session) :
    SameChild s (step.perform env s).2 := by
  unfold DispatchStep.perform
  split
  · exact sameChild_executeFrame _ env { s with state := step.state, output := [] }
  · exact .inl ⟨rfl, rfl⟩

theorem KnowsChild.steps {s : Session} (h : KnowsChild s) (env : ℕ → World)
    (steps : List DispatchStep) :
    KnowsChild (Run.run (fun s step => DispatchStep.perform env s step) s steps).2 ∧
      (s.child.isSome →
        (Run.run (fun s step => DispatchStep.perform env s step) s steps).2.child.isSome) := by
  have hstep : ∀ (s' : Session) (step : DispatchStep),
      KnowsChild s' ∧ (s.child.isSome → s'.child.isSome) →
        KnowsChild (step.perform env s').2 ∧
          (s.child.isSome → (step.perform env s').2.child.isSome) := by
    rintro s' step ⟨hs', hchild⟩
    obtain ⟨hknows, hsome⟩ := hs'.sameChild (step.sameChild env s')
    exact ⟨hknows, fun hs => hsome (hchild hs)⟩
  exact Run.run_invariant hstep steps ⟨h, id⟩

namespace Reactor

variable {d : Descriptors} {r r' : Reactor} {log log' : List Entry}

/-- Reading the pipe will tell that a child has exited, or will stop the server. -/
def Pending (r : Reactor) : Prop :=
  .chld ∈ r.pipe ∨ .term ∈ r.pipe ∨ .int ∈ r.pipe

structure Minded (r : Reactor) : Prop where
  knows : KnowsChild r.session
  child : r.exited.isSome → r.session.child.isSome
  pending : r.exited.isSome → r.running = true → r.Pending

theorem Minded.of_same (h : Minded r) (hchild : r'.session.child.isSome = r.session.child.isSome)
    (hpid : r'.session.server.bgsaveChildPid = r.session.server.bgsaveChildPid)
    (hrunning : r'.running = r.running) (hpipe : r'.pipe = r.pipe)
    (hexited : r'.exited = r.exited) : Minded r' := by
  have hnone : r'.session.child = none ↔ r.session.child = none := by
    rw [← Option.isNone_iff_eq_none, ← Option.isNone_iff_eq_none, ← Option.not_isSome,
      ← Option.not_isSome, hchild]
  refine ⟨?_, ?_, ?_⟩
  · unfold KnowsChild
    rw [hpid, hnone]
    exact h.knows
  · rw [hexited, hchild]
    exact h.child
  · unfold Pending
    rw [hexited, hrunning, hpipe]
    exact h.pending

theorem pending_of_ne_nil (h : r.pipe ≠ []) : r.Pending := by
  obtain ⟨signal, pipe, hpipe⟩ := List.exists_cons_of_ne_nil h
  unfold Pending
  rw [hpipe]
  cases signal with
  | term => exact .inr (.inl List.mem_cons_self)
  | int => exact .inr (.inr List.mem_cons_self)
  | chld => exact .inl List.mem_cons_self

theorem pipe_raise_ne_nil (hroom : 0 < d.pipeRoom) (r : Reactor) (signal : Signal) :
    (r.raise d signal).pipe ≠ [] := by
  unfold raise
  split_ifs with hlt
  · exact List.append_ne_nil_of_right_ne_nil _ (List.cons_ne_nil _ _)
  · rintro hnil
    rw [hnil, List.length_nil] at hlt
    exact hlt hroom

theorem Minded.raise (hroom : 0 < d.pipeRoom) (h : Minded r) (signal : Signal) :
    Minded (r.raise d signal) := by
  have hsame : (r.raise d signal).session = r.session ∧
      (r.raise d signal).exited = r.exited := by
    unfold Reactor.raise
    split_ifs <;> exact ⟨rfl, rfl⟩
  refine ⟨?_, ?_, fun _ _ => pending_of_ne_nil (pipe_raise_ne_nil hroom r signal)⟩
  · rw [hsame.1]
    exact h.knows
  · rw [hsame.1, hsame.2]
    exact h.child

theorem Minded.childExits (hroom : 0 < d.pipeRoom) (h : Minded r) (ok : Bool) :
    Minded (r.childExits d ok) := by
  unfold Reactor.childExits
  split
  · rename_i child hchild _
    split_ifs
    · exact h
    · have hsome : r.session.child.isSome := by rw [hchild]; rfl
      have hsame : (Reactor.raise d { r with exited := some ok } .chld).session = r.session := by
        unfold Reactor.raise
        split_ifs <;> rfl
      refine ⟨?_, fun _ => ?_, fun _ _ => pending_of_ne_nil (pipe_raise_ne_nil hroom _ _)⟩
      · rw [hsame]
        exact h.knows
      · rw [hsame]
        exact hsome
  · exact h

theorem Minded.childFinishes (h : Minded r) (clock : ℕ → MillisecondTimestamp) :
    Minded (r.childFinishes clock).2 := by
  unfold Reactor.childFinishes
  split
  · refine h.of_same ?_ ?_ rfl rfl rfl
    · change (r.session.finishChild clock).child.isSome = _
      unfold finishChild
      split
      · rename_i hchild
        rw [hchild]
        rfl
      · rfl
    · change (r.session.finishChild clock).server.bgsaveChildPid = _
      unfold finishChild
      split <;> rfl
  · exact h

theorem Minded.onSignalPipeReadable (h : Minded r) (a : KernelAnswers) :
    Minded (r.onSignalPipeReadable a).2 := by
  unfold Reactor.onSignalPipeReadable
  split
  · exact h
  · rename_i signal pipe hpipe
    cases signal with
    | term => exact ⟨h.knows, h.child, fun _ hrun => by cases hrun⟩
    | int => exact ⟨h.knows, h.child, fun _ hrun => by cases hrun⟩
    | chld =>
        dsimp only
        split_ifs with hpid
        · refine ⟨h.knows, h.child, fun hexited => ?_⟩
          have hsome := h.child hexited
          rw [h.knows.mp hpid] at hsome
          cases hsome
        · refine ⟨?_, fun hexited => (by cases hexited), fun hexited => (by cases hexited)⟩
          unfold Session.reap
          split
          · exact h.knows
          · exact ⟨fun _ => rfl, fun _ => rfl⟩
          · exact ⟨fun _ => rfl, fun _ => rfl⟩

theorem Minded.onClientReadable {fd : ℕ} {a : KernelAnswers} (h : Minded r)
    (hrun : r.onClientReadable fd a = (log', some r')) : Minded r' := by
  unfold Reactor.onClientReadable at hrun
  split at hrun
  · obtain rfl := Option.some.inj (Prod.mk.inj hrun).2
    exact h
  · rename_i c hc
    dsimp only at hrun
    split_ifs at hrun
    · obtain rfl := Option.some.inj (Prod.mk.inj hrun).2
      exact h.of_same rfl rfl rfl rfl rfl
    · generalize hdispatch : dispatch a.env (c.fillReadBuffer a.reads).2 r.session = result at hrun
      obtain ⟨steps, _ | ⟨c₂, s₂⟩⟩ := result
      · cases (Prod.mk.inj hrun).2
      obtain rfl := Option.some.inj (Prod.mk.inj hrun).2
      obtain ⟨hknows, hsome⟩ := h.knows.steps a.env steps
      rw [← (dispatchLoop_perform hdispatch).1] at hknows hsome
      exact ⟨hknows, fun hexited => hsome (h.child hexited), h.pending⟩

theorem Minded.callWritable (h : Minded r) (fd : ℕ) (asked : Bool) (a : KernelAnswers) :
    Minded (r.callWritable fd asked a).2 := by
  unfold Reactor.callWritable
  split
  · exact h
  · split_ifs
    · unfold Reactor.onClientWritable
      split
      · exact h
      · exact h.of_same rfl rfl rfl rfl rfl
    · exact h

theorem invariant_minded (hroom : 0 < d.pipeRoom) (interval : ℤ) :
    Invariant d interval (fun _ => Minded) where
  accept {log r} fd h := by
    unfold Reactor.accept
    split_ifs
    · exact h
    · exact h.of_same rfl rfl rfl rfl rfl
  signal a h := h.onSignalPipeReadable a
  readable _ h hrun := h.onClientReadable hrun
  writable fd asked a h := h.callWritable fd asked a
  raise signal h := h.raise hroom signal
  childExits ok h := h.childExits hroom ok
  childFinishes clock h := h.childFinishes clock
  timer {log r} tick h := by
    unfold Reactor.maybeRunTimer
    split_ifs
    · exact h
    · exact h.of_same rfl rfl rfl rfl rfl
    · exact h

/-- The next byte makes the server reap the child or stop. -/
theorem Minded.reaps (h : Minded r) (hexited : r.exited.isSome) (hrunning : r.running = true)
    (a : KernelAnswers) :
    let r' := (r.onSignalPipeReadable a).2
    r'.running = false ∨
      r'.exited = none ∧ r'.session.child = none ∧ r'.session.server.bgsaveChildPid = -1 := by
  intro r'
  have hpid : r.session.server.bgsaveChildPid ≠ -1 := by
    intro hpid
    have hsome := h.child hexited
    rw [h.knows.mp hpid] at hsome
    cases hsome
  obtain ⟨ok, hok⟩ := Option.isSome_iff_exists.mp hexited
  have hreap : (r.session.reap r.exited a.time).child = none ∧
      (r.session.reap r.exited a.time).server.bgsaveChildPid = -1 := by
    rw [hok]
    cases ok <;> exact ⟨rfl, rfl⟩
  change (r.onSignalPipeReadable a).2.running = false ∨ _
  unfold Reactor.onSignalPipeReadable
  split
  · rename_i hnil
    have hpending := h.pending hexited hrunning
    unfold Pending at hpending
    simp [hnil] at hpending
  · rename_i signal pipe hpipe
    cases signal with
    | term => exact .inl rfl
    | int => exact .inl rfl
    | chld =>
        right
        change (r.onSignalPipeReadable a).2.exited = none ∧
          (r.onSignalPipeReadable a).2.session.child = none ∧
            (r.onSignalPipeReadable a).2.session.server.bgsaveChildPid = -1
        unfold Reactor.onSignalPipeReadable
        rw [hpipe]
        dsimp only
        rw [if_neg hpid]
        exact ⟨rfl, hreap⟩

/-- In every run, whatever signals arrive and however full the pipe gets: the server knows of its
child, and when the child has exited, with whatever status, there is a byte in the pipe, the pipe is
watched, and reading the byte reaps the child or stops the server. -/
theorem no_child_forgotten {s : Session} {interval monotonic : ℤ} {wakes : List Wake}
    (hroom : 0 < d.pipeRoom) (hs : KnowsChild s)
    (hrun : Reactor.run d interval wakes (started d s monotonic) = (log, some r)) :
    KnowsChild r.session ∧ (r.exited.isSome → r.running = true →
      r.pipe ≠ [] ∧ r.server.interest d.signal = some ⟨true, false⟩ ∧
        ∀ a, let r' := (r.onSignalPipeReadable a).2
          r'.running = false ∨ r'.exited = none ∧ r'.session.child = none ∧
            r'.session.server.bgsaveChildPid = -1) := by
  have hstart : Minded (started d s monotonic) :=
    ⟨hs, fun hexited => (by cases hexited), fun hexited => (by cases hexited)⟩
  have h : Minded r := (invariant_minded hroom interval).run [] hstart hrun
  have hagree := ((invariant_sequential d interval s).run []
    (sequential_started d s monotonic) hrun).agree
  refine ⟨h.knows, fun hexited hrunning => ⟨?_, ?_, h.reaps hexited hrunning⟩⟩
  · intro hnil
    have hpending := h.pending hexited hrunning
    unfold Pending at hpending
    simp [hnil] at hpending
  · exact (hagree.listening d.signal (.inr rfl)).2.2

/-- A child fails. -/
theorem no_child_forgotten_failed :
    let d : Descriptors := ⟨3, 4, 1⟩
    let answers := fun chunks : List Chunk => (⟨[5], 0, ⟨chunks, .wouldBlock⟩,
      fun _ => .still 10 0, ⟨[100], .wouldBlock⟩, ⟨[], .wouldBlock⟩⟩ : KernelAnswers)
    let bgsave : Chunk := ⟨(commandFrame [ascii "BGSAVE"]).wire, by decide, by decide⟩
    let input : EventMask := ⟨false, true, false⟩
    let tick : TimerTick := ⟨0, 10, ⟨0, 0⟩, ⟨0, 0⟩, ⟨0, 0⟩⟩
    let wakes := [.ready [.ready ⟨3, input, answers []⟩, .ready ⟨5, input, answers [bgsave]⟩,
      .childExits false] tick]
    ∃ log r, Reactor.run d 100 wakes (started d freshSession 0) = (log, some r) ∧
      r.pipe ≠ [] := by
  intro d answers bgsave input tick wakes
  have hexited : ((Reactor.run d 100 wakes (started d freshSession 0)).2.any
      fun r => r.exited.isSome && r.running) = true := by decide +kernel
  obtain ⟨⟨log, result⟩, hrun⟩ : ∃ p, Reactor.run d 100 wakes (started d freshSession 0) = p :=
    ⟨_, rfl⟩
  rw [hrun] at hexited
  cases result with
  | none => cases hexited
  | some r =>
      have hboth := Bool.and_eq_true_iff.mp hexited
      have hfresh : KnowsChild freshSession := ⟨fun _ => rfl, fun _ => rfl⟩
      exact ⟨log, r, hrun, ((no_child_forgotten (by decide) hfresh hrun).2 hboth.1 hboth.2).1⟩

end Reactor

end Keva
