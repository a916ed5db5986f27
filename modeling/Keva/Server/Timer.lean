import Keva.Command.Strings
import Keva.Lib.Pacing
import Keva.Server.Reactor

/-!
# The pace of the cron

The event loop looks at its timer whenever it is done with the events that `epoll_wait` has
reported, and after a timeout. A return that a signal has interrupted goes straight back to
`epoll_wait`.
-/

namespace Keva

/-- When the timer is looked at after the return of `epoll_wait`. -/
def Wake.look? : Wake → Option ℤ
  | .ready _ tick => some tick.monotonic
  | _ => none

def Entry.cron? : Entry → Option ℤ
  | .cron tick => some tick.monotonic
  | _ => none

namespace Reactor

/-- When the crons of the log have run. -/
def crons (log : List Entry) : List ℤ := log.filterMap Entry.cron?

/-- The returns of `epoll_wait` that the loop comes to, before it has stopped or `epoll_wait` has
failed. -/
def handled (d : Descriptors) (interval : ℤ) : List Wake → Reactor → List Wake
  | [], _ => []
  | wake :: wakes, r =>
      if r.running then
        match wake with
        | .interrupted => .interrupted :: handled d interval wakes r
        | .failed => []
        | .ready batch tick =>
            match (dispatchBatch d batch r).2 with
            | none => []
            | some r' =>
                .ready batch tick :: handled d interval wakes (r'.maybeRunTimer interval tick).2
      else []

variable {d : Descriptors} {interval monotonic : ℤ} {r r' : Reactor} {log log' : List Entry}
  {wakes : List Wake} {batch : List Happening} {times : List ℤ} {last : ℤ}

theorem crons_append (log log' : List Entry) : crons (log ++ log') = crons log ++ crons log' :=
  List.filterMap_append

theorem crons_cycle (id : ℕ) (bytes : Bytes) (env : ℕ → World) (steps : List DispatchStep)
    (out : Bytes) :
    crons (.received id bytes :: steps.map (.dispatched id env) ++ [.sent id out]) = [] := by
  apply List.filterMap_eq_nil_iff.mpr
  intro e he
  simp only [List.cons_append, List.mem_cons, List.mem_append, List.mem_map, List.not_mem_nil,
    or_false] at he
  rcases he with rfl | ⟨step, -, rfl⟩ | rfl <;> rfl

/-- The crons so far, and when the timer has last fired. -/
structure Timed (times : List ℤ) (last : ℤ) (log : List Entry) (r : Reactor) : Prop where
  crons : crons log = times
  last : r.lastTimerFire = last

theorem Timed.quiet (h : Timed times last log r) (hlog : Reactor.crons log' = [])
    (hlast : r'.lastTimerFire = r.lastTimerFire) : Timed times last (log ++ log') r' :=
  ⟨by rw [crons_append, hlog, List.append_nil, h.crons], hlast.trans h.last⟩

theorem lastTimerFire_raise (d : Descriptors) (r : Reactor) (signal : Signal) :
    (r.raise d signal).lastTimerFire = r.lastTimerFire := by
  unfold Reactor.raise
  split_ifs <;> rfl

/-- Callbacks leave the timer alone. The interval is zero here, which is to have no timer. -/
theorem invariant_timed (d : Descriptors) (times : List ℤ) (last : ℤ) :
    Invariant d 0 (Timed times last) where
  accept fd h := by
    unfold Reactor.accept
    split_ifs
    · exact h.quiet rfl rfl
    · exact h.quiet rfl rfl
  signal a h := by
    unfold Reactor.onSignalPipeReadable
    split
    · exact h.quiet rfl rfl
    · rename_i signal pipe _
      cases signal with
      | chld =>
          dsimp only
          split_ifs
          · exact h.quiet rfl rfl
          · exact h.quiet rfl rfl
      | _ => exact h.quiet rfl rfl
  readable {log r fd a log' r'} _ h hrun := by
    unfold Reactor.onClientReadable at hrun
    split at hrun
    · obtain ⟨rfl, hr⟩ := Prod.mk.inj hrun
      obtain rfl := Option.some.inj hr
      exact h.quiet rfl rfl
    · dsimp only at hrun
      split_ifs at hrun
      · obtain ⟨rfl, hr⟩ := Prod.mk.inj hrun
        obtain rfl := Option.some.inj hr
        exact h.quiet rfl rfl
      · split at hrun
        · cases (Prod.mk.inj hrun).2
        · obtain ⟨rfl, hr⟩ := Prod.mk.inj hrun
          obtain rfl := Option.some.inj hr
          exact h.quiet (crons_cycle _ _ _ _ _) rfl
  writable fd asked a h := by
    unfold Reactor.callWritable
    split
    · exact h.quiet rfl rfl
    · split_ifs
      · unfold Reactor.onClientWritable
        split
        · exact h.quiet rfl rfl
        · exact h.quiet rfl rfl
      · exact h.quiet rfl rfl
  raise signal h := ⟨h.crons, (lastTimerFire_raise d _ signal).trans h.last⟩
  childExits ok h := by
    unfold Reactor.childExits
    split
    · split_ifs
      · exact h
      · exact ⟨h.crons, (lastTimerFire_raise d _ .chld).trans h.last⟩
    · exact h
  childFinishes clock h := by
    unfold Reactor.childFinishes
    split
    · exact h.quiet rfl rfl
    · exact h.quiet rfl rfl
  timer tick h := h.quiet rfl rfl

theorem crons_dispatchBatch (hrun : dispatchBatch d batch r = (log, some r')) :
    crons log = [] ∧ r'.lastTimerFire = r.lastTimerFire := by
  have hstart : Timed [] r.lastTimerFire [] r := ⟨rfl, rfl⟩
  have h := (invariant_timed d [] r.lastTimerFire).dispatchBatch hstart hrun
  exact ⟨h.crons, h.last⟩

theorem handled_prefix (d : Descriptors) (interval : ℤ) (wakes : List Wake) (r : Reactor) :
    handled d interval wakes r <+: wakes := by
  induction wakes generalizing r with
  | nil => exact List.nil_prefix
  | cons wake wakes ih =>
      unfold handled
      split_ifs
      · cases wake with
        | interrupted => exact List.cons_prefix_cons.mpr ⟨rfl, ih r⟩
        | failed => exact List.nil_prefix
        | ready batch tick =>
            dsimp only
            split
            · exact List.nil_prefix
            · exact List.cons_prefix_cons.mpr ⟨rfl, ih _⟩
      · exact List.nil_prefix

/-- The crons of a run are the firings of the timer. A loop that still runs has come to all. -/
theorem crons_run (hpos : 0 < interval) (hrun : run d interval wakes r = (log, some r')) :
    (r'.running = true → .failed ∉ wakes → handled d interval wakes r = wakes) ∧
      crons log = Pacing.fires interval r.lastTimerFire
        ((handled d interval wakes r).filterMap Wake.look?) := by
  induction wakes generalizing r log with
  | nil =>
      obtain ⟨rfl, -⟩ := Prod.mk.inj hrun
      exact ⟨fun _ _ => rfl, rfl⟩
  | cons wake wakes ih =>
      unfold Reactor.run at hrun
      unfold handled
      split_ifs at hrun ⊢ with hrunning
      · cases wake with
        | interrupted =>
            obtain ⟨hall, hcrons⟩ := ih hrun
            refine ⟨fun hr hfailed => ?_, hcrons⟩
            dsimp only
            rw [hall hr fun h => hfailed (.tail _ h)]
        | failed =>
            obtain ⟨rfl, -⟩ := Prod.mk.inj hrun
            exact ⟨fun _ hfailed => absurd List.mem_cons_self hfailed, rfl⟩
        | ready batch tick =>
            dsimp only at hrun ⊢
            split at hrun
            · cases (Prod.mk.inj hrun).2
            · rename_i log₁ r₁ hbatch
              obtain ⟨rfl, hr⟩ := Prod.mk.inj hrun
              obtain ⟨hall, hcrons⟩ := ih (Prod.ext rfl hr)
              obtain ⟨hquiet, hlast⟩ := crons_dispatchBatch hbatch
              rw [hbatch]
              dsimp only
              refine ⟨fun hr' hfailed => ?_, ?_⟩
              · rw [hall hr' fun h => hfailed (.tail _ h)]
              · rw [crons_append, crons_append, hquiet, List.nil_append, hcrons,
                  List.filterMap_cons, Wake.look?]
                dsimp only
                rw [Pacing.fires, ← hlast]
                unfold maybeRunTimer
                rw [if_neg (not_le.mpr hpos)]
                split_ifs <;> rfl
      · obtain ⟨rfl, hr⟩ := Prod.mk.inj hrun
        obtain rfl := Option.some.inj hr
        exact ⟨fun hr => absurd hr hrunning, rfl⟩

/-- In every run of the event loop, over the returns of `epoll_wait` that it comes to: the crons are
at least the interval of the timer apart, and whenever the timer has just been looked at, the
interval has not passed since the last one. If the clock does not go back and the timer is looked at
every `gap` at the latest, the crons are not much further apart either, and their number is that of
the intervals that have passed, but for the delay that `gap` makes. -/
theorem crons_paced {s : Session} (hpos : 0 < interval)
    (hrun : run d interval wakes (started d s monotonic) = (log, some r)) :
    let done := handled d interval wakes (started d s monotonic)
    let looks := done.filterMap Wake.look?
    done <+: wakes ∧ (r.running = true → .failed ∉ wakes → done = wakes) ∧
      (monotonic :: crons log).IsChain (fun t t' => t + interval ≤ t') ∧
        looks.getLastD monotonic - (crons log).getLastD monotonic < interval ∧
          ∀ gap, (monotonic :: looks).IsChain (fun t t' => t ≤ t' ∧ t' ≤ t + gap) →
            (monotonic :: crons log).IsChain (fun t t' => t' < t + interval + gap) ∧
              (crons log).length • interval ≤ looks.getLastD monotonic - monotonic ∧
                looks.getLastD monotonic - monotonic <
                  interval + (crons log).length • (interval + gap) := by
  intro done looks
  obtain ⟨hall, hcrons⟩ := crons_run hpos hrun
  have hself : monotonic - monotonic < interval := by rwa [sub_self]
  change crons log = Pacing.fires interval monotonic looks at hcrons
  rw [hcrons]
  have hdone : done <+: wakes := handled_prefix d interval wakes _
  refine ⟨hdone, hall, Pacing.spaced _ _ _, Pacing.not_due hpos hself _, fun gap hlooks => ?_⟩
  exact ⟨Pacing.prompt hpos hself (hlooks.imp fun _ _ => And.right),
    Pacing.length_fires hpos hlooks⟩

/-- Two crons in three looks, the second look too early and the third late. -/
theorem crons_paced_three :
    let look := fun time : ℤ => Wake.ready [] ⟨time, 10, ⟨0, 0⟩, ⟨0, 0⟩, ⟨0, 0⟩⟩
    let d : Descriptors := ⟨3, 4, 65536⟩
    ∃ log r, Reactor.run d 100 [look 100, look 180, look 250] (started d freshSession 0) =
      (log, some r) ∧ crons log = [100, 250] ∧
        ([0, 100, 250] : List ℤ).IsChain (fun t t' => t + 100 ≤ t') ∧
          ([0, 100, 250] : List ℤ).IsChain (fun t t' => t' < t + 100 + 100) := by
  intro look d
  obtain ⟨⟨log, result⟩, hrun⟩ : ∃ p, Reactor.run d 100 [look 100, look 180, look 250]
      (started d freshSession 0) = p := ⟨_, rfl⟩
  have hrunning : (Reactor.run d 100 [look 100, look 180, look 250]
      (started d freshSession 0)).2.any Reactor.running := by rfl
  have hcrons : crons (Reactor.run d 100 [look 100, look 180, look 250]
      (started d freshSession 0)).1 = [100, 250] := by rfl
  rw [hrun] at hrunning hcrons
  obtain ⟨r, rfl, hr⟩ := (Option.any_eq_true _ _).mp hrunning
  obtain ⟨-, hall, hspaced, -, hgap⟩ := crons_paced (by decide) hrun
  rw [hall hr (by simp [look])] at hgap
  have hlate := (hgap 100 (by simp [look, Wake.look?])).1
  dsimp only at hcrons
  rw [hcrons] at hspaced hlate
  exact ⟨log, r, hrun, hcrons, hspaced, hlate⟩

end Reactor

end Keva
