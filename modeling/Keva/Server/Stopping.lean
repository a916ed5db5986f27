import Keva.Lib.Mailbox
import Keva.Server.Sequential

/-!
# How the server is stopped

SIGTERM and SIGINT put a byte into the pipe of the signals, and the event loop stops when it reads
it, one byte each time the pipe is reported. Nothing that the clients do keeps the loop from
stopping, and nothing but these two signals stops it.
-/

namespace Keva

def Signal.stops : Signal → Bool
  | .term | .int => true
  | .chld => false

/-- The pipe of the signals is reported. -/
def Happening.reports (d : Descriptors) : Happening → Bool
  | .ready e => e.fd = d.signal && (e.mask.error || e.mask.input)
  | _ => false

def Happening.stops : Happening → Bool
  | Happening.signal sig => sig.stops
  | _ => false

/-- How often the pipe of the signals is reported. -/
def Wake.reports (d : Descriptors) : Wake → ℕ
  | .ready batch _ => batch.countP (Happening.reports d)
  | _ => 0

def Wake.stops : Wake → Bool
  | .ready batch _ => batch.any Happening.stops
  | _ => false

namespace Reactor

open Mailbox (takes)

/-- The reactor as a reader of the pipe. -/
def mail (r : Reactor) : Mailbox.State Signal := ⟨r.running, r.pipe⟩

variable {d : Descriptors} {interval monotonic : ℤ} {r r' : Reactor} {log log' : List Entry}
  {s : Session} {fd : ℕ} {a : KernelAnswers} {e : Happening} {batch : List Happening}
  {wakes : List Wake}

theorem mail_onSignalPipeReadable (room : ℕ) (r : Reactor) (a : KernelAnswers) :
    (r.onSignalPipeReadable a).2.mail = Mailbox.step room Signal.stops r.mail .take := by
  obtain ⟨server, clientIds, nextClientId, session, running, lastTimerFire, pipe, exited⟩ := r
  cases pipe with
  | nil => rfl
  | cons signal pipe =>
      cases signal with
      | chld =>
          unfold onSignalPipeReadable
          dsimp only
          split_ifs <;> simp [mail, Mailbox.step, Signal.stops]
      | _ => simp [onSignalPipeReadable, mail, Mailbox.step, Signal.stops]

theorem mail_raise (r : Reactor) (d : Descriptors) (signal : Signal) :
    (r.raise d signal).mail = Mailbox.step d.pipeRoom Signal.stops r.mail (.put signal) := by
  unfold raise Mailbox.step
  split_ifs with h h'
  · rfl
  · exact absurd h h'
  · contradiction
  · rfl

theorem mail_accept (r : Reactor) (d : Descriptors) (fd : ℕ) :
    (r.accept d fd).2.mail = r.mail := by
  unfold accept
  split_ifs <;> rfl

theorem mail_onNewConnection (fds : List ℕ) (r : Reactor) :
    (onNewConnection d fds r).2.mail = r.mail := by
  induction fds generalizing r with
  | nil => rfl
  | cons fd fds ih =>
      rw [onNewConnection]
      exact (ih _).trans (mail_accept r d fd)

theorem mail_onClientReadable (hrun : r.onClientReadable fd a = (log', some r')) :
    r'.mail = r.mail := by
  unfold onClientReadable at hrun
  split at hrun
  · rw [← Option.some.inj (Prod.mk.inj hrun).2]
  · dsimp only at hrun
    split_ifs at hrun
    · rw [← Option.some.inj (Prod.mk.inj hrun).2]
      rfl
    · split at hrun
      · cases (Prod.mk.inj hrun).2
      · rw [← Option.some.inj (Prod.mk.inj hrun).2]
        rfl

theorem mail_callWritable (r : Reactor) (fd : ℕ) (asked : Bool) (a : KernelAnswers) :
    (r.callWritable fd asked a).2.mail = r.mail := by
  unfold callWritable
  split
  · rfl
  · split_ifs
    · unfold onClientWritable
      split <;> rfl
    · rfl

theorem mail_maybeRunTimer (r : Reactor) (interval : ℤ) (tick : TimerTick) :
    (r.maybeRunTimer interval tick).2.mail = r.mail := by
  unfold maybeRunTimer
  split_ifs <;> rfl

/-- `r'` comes from `r` by reading the pipe `n` times and by putting signals into it. With `quiet`
none of them stops the server. -/
def Delivers (d : Descriptors) (r : Reactor) (n : ℕ) (quiet : Bool) (r' : Reactor) : Prop :=
  ∃ ops, r'.mail = Mailbox.after d.pipeRoom Signal.stops r.mail ops ∧ takes ops = n ∧
    (quiet = true → ∀ m, .put m ∈ ops → m.stops = false)

theorem Delivers.same (h : r'.mail = r.mail) (quiet : Bool) : Delivers d r 0 quiet r' :=
  ⟨[], h, rfl, fun _ m hm => by cases hm⟩

theorem Delivers.trans {r'' : Reactor} {n n' : ℕ} {quiet quiet' : Bool}
    (h : Delivers d r n quiet r') (h' : Delivers d r' n' quiet' r'') :
    Delivers d r (n + n') (quiet && quiet') r'' := by
  obtain ⟨ops, hmail, htakes, hputs⟩ := h
  obtain ⟨ops', hmail', htakes', hputs'⟩ := h'
  refine ⟨ops ++ ops', ?_, ?_, fun hquiet m hm => ?_⟩
  · rw [hmail', hmail, Mailbox.after_append]
  · rw [Mailbox.takes_append, htakes, htakes']
  · rw [Bool.and_eq_true] at hquiet
    rcases List.mem_append.mp hm with hm | hm
    · exact hputs hquiet.1 m hm
    · exact hputs' hquiet.2 m hm

theorem delivers_callReadable (hne : d.listen ≠ d.signal) (hagree : r.server.Agree d.own)
    {asked : Bool} (hrun : r.callReadable d fd asked a = (log', some r')) :
    Delivers d r (if fd = d.signal && asked then 1 else 0) true r' := by
  unfold callReadable at hrun
  by_cases hfd : fd = d.signal
  · subst hfd
    rw [(hagree.listening _ (.inr rfl)).2.1] at hrun
    cases asked with
    | false =>
        obtain rfl := Option.some.inj (Prod.mk.inj hrun).2
        rw [Bool.and_false, if_neg Bool.false_ne_true]
        exact .same rfl true
    | true =>
        unfold onReadable at hrun
        dsimp only at hrun
        rw [Bool.and_self, if_pos rfl, if_neg hne.symm, if_pos rfl] at hrun
        obtain rfl := Option.some.inj (Prod.mk.inj hrun).2
        rw [decide_eq_true rfl, Bool.true_and, if_pos rfl]
        exact ⟨[.take], mail_onSignalPipeReadable d.pipeRoom r a, rfl, fun _ m hm => by simp at hm⟩
  · rw [decide_eq_false hfd, Bool.false_and, if_neg Bool.false_ne_true]
    apply Delivers.same
    split at hrun
    · rw [← Option.some.inj (Prod.mk.inj hrun).2]
    · split_ifs at hrun
      · unfold onReadable at hrun
        split_ifs at hrun
        · rw [← Option.some.inj (Prod.mk.inj hrun).2]
          exact mail_onNewConnection _ r
        · exact mail_onClientReadable hrun
      · rw [← Option.some.inj (Prod.mk.inj hrun).2]

theorem delivers_happen (hne : d.listen ≠ d.signal) (hagree : r.server.Agree d.own)
    (hrun : r.happen d e = (log', some r')) :
    Delivers d r (if e.reports d then 1 else 0) (!e.stops) r' := by
  cases e with
  | ready e =>
      change r.dispatchReady d e = _ at hrun
      unfold dispatchReady at hrun
      change Delivers d r
        (if decide (e.fd = d.signal) && (e.mask.error || e.mask.input) then 1 else 0) true r'
      split_ifs at hrun with herror
      · rw [herror, Bool.true_or]
        exact delivers_callReadable hne hagree hrun
      · rw [Bool.not_eq_true] at herror
        rw [herror, Bool.false_or]
        split at hrun
        · cases (Prod.mk.inj hrun).2
        · rename_i log₁ r₁ hread
          rw [← Option.some.inj (Prod.mk.inj hrun).2]
          have h := delivers_callReadable hne hagree hread
          exact h.trans (.same (mail_callWritable r₁ _ _ _) true)
  | signal signal =>
      rw [← Option.some.inj (Prod.mk.inj hrun).2]
      refine ⟨[.put signal], mail_raise r d signal, rfl, fun hquiet m hm => ?_⟩
      obtain rfl := Mailbox.Op.put.inj (List.mem_singleton.mp hm)
      simpa [Happening.stops] using hquiet
  | childFinishes clock =>
      rw [← Option.some.inj (Prod.mk.inj hrun).2]
      apply Delivers.same
      change (r.childFinishes clock).2.mail = _
      unfold childFinishes
      split <;> rfl
  | childExits ok =>
      rw [← Option.some.inj (Prod.mk.inj hrun).2]
      change Delivers d r 0 true (r.childExits d ok)
      unfold childExits
      split
      · split_ifs
        · exact .same rfl true
        · refine ⟨[.put .chld], mail_raise _ d .chld, rfl, fun _ m hm => ?_⟩
          obtain rfl := Mailbox.Op.put.inj (List.mem_singleton.mp hm)
          rfl
      · exact .same rfl true

theorem delivers_dispatchBatch (hne : d.listen ≠ d.signal) (h : Sequential d s log r)
    (hrun : dispatchBatch d batch r = (log', some r')) :
    Delivers d r (batch.countP (Happening.reports d)) (!batch.any Happening.stops) r' := by
  induction batch generalizing r log log' with
  | nil =>
      rw [← Option.some.inj (Prod.mk.inj hrun).2]
      exact .same rfl true
  | cons e batch ih =>
      rw [dispatchBatch] at hrun
      split at hrun
      · cases (Prod.mk.inj hrun).2
      · rename_i log₁ r₁ hfirst
        have hnext := (invariant_sequential d 0 s).happen h hfirst
        have hrest := ih hnext (Prod.ext rfl (Prod.mk.inj hrun).2)
        have hboth := (delivers_happen hne h.agree hfirst).trans hrest
        rwa [List.countP_cons, Nat.add_comm, List.any_cons, Bool.not_or]

theorem delivers_run (hne : d.listen ≠ d.signal) (h : Sequential d s log r)
    (hrun : run d interval wakes r = (log', some r')) :
    ∃ n, Delivers d r n (!wakes.any Wake.stops) r' ∧
      (r'.running = true → .failed ∉ wakes → n = (wakes.map (Wake.reports d)).sum) := by
  induction wakes generalizing r log log' with
  | nil =>
      rw [← Option.some.inj (Prod.mk.inj hrun).2]
      exact ⟨0, .same rfl true, fun _ _ => rfl⟩
  | cons wake wakes ih =>
      unfold Reactor.run at hrun
      split_ifs at hrun with hrunning
      · cases wake with
        | interrupted =>
            obtain ⟨n, hdelivers, hn⟩ := ih h hrun
            refine ⟨n, hdelivers, fun hr hfailed => ?_⟩
            rw [List.map_cons, List.sum_cons]
            change n = 0 + _
            rw [Nat.zero_add]
            exact hn hr fun hmem => hfailed (.tail _ hmem)
        | failed =>
            rw [← Option.some.inj (Prod.mk.inj hrun).2]
            exact ⟨0, .same rfl _, fun _ hfailed => absurd List.mem_cons_self hfailed⟩
        | ready batch tick =>
            dsimp only at hrun
            split at hrun
            · cases (Prod.mk.inj hrun).2
            · rename_i log₁ r₁ hbatch
              have hmail := mail_maybeRunTimer r₁ interval tick
              have hnext := (((invariant_sequential d 0 s).dispatchBatch h hbatch).maybeRunTimer
                interval tick)
              obtain ⟨n, hdelivers, hn⟩ := ih hnext (Prod.ext rfl (Prod.mk.inj hrun).2)
              have hfirst := (delivers_dispatchBatch hne h hbatch).trans (.same hmail true)
              have hboth := hfirst.trans hdelivers
              rw [Bool.and_true] at hboth
              refine ⟨_, by rwa [List.any_cons, Wake.stops, Bool.not_or], fun hr hfailed => ?_⟩
              rw [List.map_cons, List.sum_cons, Wake.reports, Nat.add_zero,
                hn hr fun hmem => hfailed (.tail _ hmem)]
      · rw [← Option.some.inj (Prod.mk.inj hrun).2]
        exact ⟨0, .same rfl _, fun hr => absurd hr hrunning⟩

/-- In every run of the event loop: the loop is only stopped by a SIGTERM or a SIGINT that has
arrived. If one of them arrives while there is room in the pipe, then the loop stops as soon as the
pipe has been reported once for it and once for each byte before it, whatever else happens. -/
theorem stopped_by_signal (hne : d.listen ≠ d.signal)
    (hrun : run d interval wakes (started d s monotonic) = (log, some r)) :
    (r.running = false → ∃ wake ∈ wakes, wake.stops = true) ∧
      ∀ signal : Signal, signal.stops = true → r.pipe.length < d.pipeRoom →
        ∀ after log' r', run d interval after (r.raise d signal) = (log', some r') →
          .failed ∉ after → r.pipe.length < (after.map (Wake.reports d)).sum →
            r'.running = false := by
  have hstart := sequential_started d s monotonic
  have hseq := (invariant_sequential d interval s).run [] hstart hrun
  constructor
  · intro hstopped
    obtain ⟨n, ⟨ops, hmail, -, hputs⟩, -⟩ := delivers_run hne hstart hrun
    by_contra hnone
    have hquiet : (!wakes.any Wake.stops) = true := by
      simpa using hnone
    have hcalm : Mailbox.Calm Signal.stops (started d s monotonic).mail :=
      ⟨rfl, fun m hm => by cases hm⟩
    have hrunning : (Mailbox.after d.pipeRoom Signal.stops (started d s monotonic).mail
        ops).running = true := (hcalm.after (hputs hquiet)).running
    rw [← hmail] at hrunning
    exact absurd (hstopped.symm.trans hrunning) Bool.false_ne_true
  · intro signal hsignal hroom after log' r' hafter hfailed hreports
    have hpipe : (r.raise d signal).pipe = r.pipe ++ [signal] := by
      unfold Reactor.raise
      rw [if_pos hroom]
    obtain ⟨n, ⟨ops, hmail, htakes, -⟩, hn⟩ := delivers_run hne (hseq.raise signal) hafter
    by_contra hrunning
    rw [Bool.not_eq_false] at hrunning
    rw [hn hrunning hfailed] at htakes
    have hmem : signal ∈ (r.raise d signal).mail.queue := by
      change signal ∈ (r.raise d signal).pipe
      rw [hpipe]
      exact List.mem_append_right _ List.mem_cons_self
    have hlen : (r.raise d signal).mail.queue.length ≤ takes ops := by
      change (r.raise d signal).pipe.length ≤ _
      rw [hpipe, htakes, List.length_append]
      exact hreports
    have hstopped : (Mailbox.after d.pipeRoom Signal.stops (r.raise d signal).mail ops).running =
        false := Mailbox.stopped hsignal hmem hlen
    rw [← hmail] at hstopped
    exact absurd (hstopped.symm.trans hrunning) Bool.false_ne_true

/-- A SIGTERM behind a SIGCHLD: the pipe is reported twice, and the third wake finds the loop
stopped. -/
def termAfterChild : List Wake :=
  let answers : KernelAnswers :=
    ⟨[], 0, ⟨[], .wouldBlock⟩, fun _ => .still 10 0, ⟨[], .wouldBlock⟩, ⟨[], .wouldBlock⟩⟩
  let tick : TimerTick := ⟨200, 10, ⟨0, 0⟩, ⟨0, 0⟩, ⟨0, 0⟩⟩
  let reported : Happening := .ready ⟨4, ⟨false, true, false⟩, answers⟩
  [.ready [reported] tick, .interrupted, .ready [reported] tick, .ready [reported] tick]

theorem stopped_by_signal_termAfterChild :
    let d : Descriptors := ⟨3, 4, 65536⟩
    let tick : TimerTick := ⟨200, 10, ⟨0, 0⟩, ⟨0, 0⟩, ⟨0, 0⟩⟩
    ∃ log r log' r',
      Reactor.run d 100 [.ready [.signal .chld] tick] (started d freshSession 0) = (log, some r) ∧
        Reactor.run d 100 termAfterChild (r.raise d .term) = (log', some r') ∧
          r.running = true ∧ r'.running = false := by
  intro d tick
  obtain ⟨⟨log, result⟩, hrun⟩ : ∃ p, Reactor.run d 100 [.ready [.signal .chld] tick]
      (started d freshSession 0) = p := ⟨_, rfl⟩
  have hresult : (Reactor.run d 100 [.ready [.signal .chld] tick]
      (started d freshSession 0)).2.any (fun r => r.running && r.pipe.length = 1 &&
        (Reactor.run d 100 termAfterChild (r.raise d .term)).2.isSome) := by decide +kernel
  rw [hrun] at hresult
  obtain ⟨r, rfl, hr⟩ := (Option.any_eq_true _ _).mp hresult
  rw [Bool.and_eq_true, Bool.and_eq_true, decide_eq_true_iff] at hr
  obtain ⟨⟨hrunning, hlength⟩, hsome⟩ := hr
  obtain ⟨⟨log', result'⟩, hrun'⟩ : ∃ p, Reactor.run d 100 termAfterChild (r.raise d .term) = p :=
    ⟨_, rfl⟩
  rw [hrun'] at hsome
  obtain ⟨r', rfl⟩ := Option.isSome_iff_exists.mp hsome
  have hroom : r.pipe.length < d.pipeRoom := by
    rw [hlength]
    decide
  have hreports : r.pipe.length < (termAfterChild.map (Wake.reports d)).sum := by
    rw [hlength]
    decide
  have hstopped := (stopped_by_signal (by decide) hrun).2 .term rfl hroom termAfterChild log' r'
    hrun' (by simp [termAfterChild]) hreports
  exact ⟨log, r, log', r', hrun, hrun', hrunning, hstopped⟩

end Reactor

end Keva
