import Keva.Net.Buffers
import Keva.Net.Registry
import Keva.Server.Events

/-!
# The event loop

One thread waits for ready descriptors and calls their callbacks one after the other: new
connections on the listening socket, signals on the pipe, bytes on the clients' sockets. After each
batch the timer is looked at. Signal handlers and the child of a BGSAVE run in between. The kernel's
answers are given with each event; an answer that the kernel cannot give is passed over. `Entry` is
what happens, in order.
-/

namespace Keva

open Function (update)

/-- The descriptors that the event loop listens on itself, and the number of bytes that the pipe of
the signals takes. -/
structure Descriptors where
  listen : ℕ
  signal : ℕ
  pipeRoom : ℕ

def Descriptors.own (d : Descriptors) : Set ℕ := {d.listen, d.signal}

instance (d : Descriptors) : DecidablePred (· ∈ d.own) := fun fd =>
  inferInstanceAs (Decidable (fd = d.listen ∨ fd = d.signal))

/-- The signals that have a handler. -/
inductive Signal
  | term
  | int
  | chld

/-- What the kernel answers while the callbacks of a descriptor run. `accepted` are the results of
`accept4`, `drained` are the writes of `on_client_writable`. -/
structure KernelAnswers where
  accepted : List ℕ
  time : Int64
  reads : Reads
  env : ℕ → World
  writes : Writes
  drained : Writes

structure ReadyEvent where
  fd : ℕ
  mask : EventMask
  answers : KernelAnswers

/-- Between two callbacks signals may arrive, and the child of a BGSAVE may replace the snapshot and
exit, `ok` if with status 0. -/
inductive Happening
  | ready (e : ReadyEvent)
  | signal (signal : Signal)
  | childFinishes (clock : ℕ → MillisecondTimestamp)
  | childExits (ok : Bool)

/-- What `maybe_run_timer` and the cron read. -/
structure TimerTick where
  monotonic : ℤ
  now : MillisecondTimestamp
  draw₁ : SampleDraw
  draw₂ : SampleDraw
  draw₃ : SampleDraw

/-- How `epoll_wait` returns. -/
inductive Wake
  | interrupted
  | failed
  | ready (batch : List Happening) (tick : TimerTick)

/-- What happens in a run. Connections are told apart by their client ids. -/
inductive Entry
  | accepted (id : ℕ)
  | received (id : ℕ) (bytes : Bytes)
  | dispatched (id : ℕ) (env : ℕ → World) (step : DispatchStep)
  | sent (id : ℕ) (bytes : Bytes)
  | reaped (status : Option Bool) (time : Int64)
  | childFinishes (clock : ℕ → MillisecondTimestamp)
  | cron (tick : TimerTick)

/-- `clientIds` are the ids of the connections in `server.clients`, `pipe` are the signals that have
not been read, `exited` is the status of a child that has exited and has not been reaped. -/
structure Reactor where
  server : TcpServer
  clientIds : ℕ → ℕ
  nextClientId : ℕ
  session : Session
  running : Bool
  lastTimerFire : ℤ
  pipe : List Signal
  exited : Option Bool

/-- `on_bgsave_child_exit`, with what `waitpid` reports. A child that failed is reaped and nothing
else is noted. -/
def Session.reap (s : Session) (status : Option Bool) (time : Int64) : Session :=
  match status with
  | none => s
  | some true =>
      { s with
        child := none
        server := { s.server with bgsaveChildPid := -1, lastSaveTime := time, dirtyKeys := 0 } }
  | some false =>
      { s with
        child := none
        server := { s.server with bgsaveChildPid := -1 } }

namespace Reactor

/-- `main` right before `run`. -/
def started (d : Descriptors) (session : Session) (monotonic : ℤ) : Reactor where
  server := TcpServer.listening d.own
  clientIds := fun _ => 0
  nextClientId := 1
  session := session
  running := true
  lastTimerFire := monotonic
  pipe := []
  exited := none

variable (d : Descriptors) (interval : ℤ) (r : Reactor)

/-- One round of the accept loop. The kernel hands out descriptors that are not in use. -/
def accept (fd : ℕ) : List Entry × Reactor :=
  if fd ∈ d.own ∨ (r.server.clients fd).isSome then ([], r)
  else
    ([.accepted r.nextClientId],
      { r with
        server := r.server.onNewConnection fd
        clientIds := update r.clientIds fd r.nextClientId
        nextClientId := r.nextClientId + 1 })

def onNewConnection : List ℕ → Reactor → List Entry × Reactor
  | [], r => ([], r)
  | fd :: fds, r =>
      let (log, r) := r.accept d fd
      let (log', r) := onNewConnection fds r
      (log ++ log', r)

/-- One byte is read from the pipe. -/
def onSignalPipeReadable (a : KernelAnswers) : List Entry × Reactor :=
  match r.pipe with
  | [] => ([], r)
  | signal :: pipe =>
      let r := { r with pipe := pipe }
      match signal with
      | .term | .int => ([], { r with running := false })
      | .chld =>
          if r.session.server.bgsaveChildPid = -1 then ([], r)
          else
            ([.reaped r.exited a.time],
              { r with session := r.session.reap r.exited a.time, exited := none })

def onClientReadable (fd : ℕ) (a : KernelAnswers) : List Entry × Option Reactor :=
  match r.server.clients fd with
  | none => ([], some r)
  | some c =>
      let id := r.clientIds fd
      let (n, c) := c.fillReadBuffer a.reads
      if n ≤ 0 then
        ([.received id a.reads.bytes], some { r with server := r.server.closeConnection fd })
      else
        let (steps, result) := dispatch a.env c r.session
        let log := .received id a.reads.bytes :: steps.map (.dispatched id a.env)
        match result with
        | none => (log, none)
        | some (c, s) =>
            (log ++ [.sent id (c.flushedBytes a.writes)], some
              { r with server := r.server.flushAfterDispatch fd c a.writes, session := s })

def onClientWritable (fd : ℕ) (a : KernelAnswers) : List Entry × Reactor :=
  match r.server.clients fd with
  | none => ([], r)
  | some c =>
      ([.sent (r.clientIds fd) (c.flushedBytes a.drained)],
        { r with server := r.server.onClientWritable fd a.drained })

/-- The readable callback that is registered for a descriptor. -/
def onReadable (fd : ℕ) (a : KernelAnswers) : List Entry × Option Reactor :=
  if fd = d.listen then
    let (log, r) := onNewConnection d a.accepted r
    (log, some r)
  else if fd = d.signal then
    let (log, r) := r.onSignalPipeReadable a
    (log, some r)
  else r.onClientReadable fd a

/-- `signal_handler`. A full pipe takes no byte. -/
def raise (signal : Signal) : Reactor :=
  if r.pipe.length < d.pipeRoom then { r with pipe := r.pipe ++ [signal] } else r

/-- A child exits with status 0 only after it has replaced the snapshot. -/
def childExits (ok : Bool) : Reactor :=
  match r.session.child, r.exited with
  | some child, none =>
      if ok && !child.finished then r else raise d { r with exited := some ok } .chld
  | _, _ => r

def childFinishes (clock : ℕ → MillisecondTimestamp) : List Entry × Reactor :=
  match r.exited with
  | none => ([.childFinishes clock], { r with session := r.session.finishChild clock })
  | some _ => ([], r)

def callReadable (fd : ℕ) (asked : Bool) (a : KernelAnswers) : List Entry × Option Reactor :=
  match r.server.handlers fd with
  | none => ([], some r)
  | some h => if asked && h.onReadable then r.onReadable d fd a else ([], some r)

def callWritable (fd : ℕ) (asked : Bool) (a : KernelAnswers) : List Entry × Reactor :=
  match r.server.handlers fd with
  | none => ([], r)
  | some h => if asked && h.onWritable then r.onClientWritable fd a else ([], r)

/-- One descriptor of a batch. -/
def dispatchReady (e : ReadyEvent) : List Entry × Option Reactor :=
  if e.mask.error then r.callReadable d e.fd true e.answers
  else
    match r.callReadable d e.fd e.mask.input e.answers with
    | (log, none) => (log, none)
    | (log, some r) =>
        let (log', r) := r.callWritable e.fd e.mask.output e.answers
        (log ++ log', some r)

def happen : Happening → List Entry × Option Reactor
  | .ready e => r.dispatchReady d e
  | .signal signal => ([], some (r.raise d signal))
  | .childFinishes clock =>
      let (log, r) := r.childFinishes clock
      (log, some r)
  | .childExits ok => ([], some (r.childExits d ok))

def dispatchBatch : List Happening → Reactor → List Entry × Option Reactor
  | [], r => ([], some r)
  | h :: batch, r =>
      match r.happen d h with
      | (log, none) => (log, none)
      | (log, some r) =>
          let (log', r) := dispatchBatch batch r
          (log ++ log', r)

def maybeRunTimer (tick : TimerTick) : List Entry × Reactor :=
  if interval ≤ 0 then ([], r)
  else if interval ≤ tick.monotonic - r.lastTimerFire then
    ([.cron tick],
      { r with
        lastTimerFire := tick.monotonic
        session := r.session.serverCron tick.now tick.draw₁ tick.draw₂ tick.draw₃ })
  else ([], r)

/-- `EventLoop::run` over the returns of `epoll_wait`. Without a result the process has ended. -/
def run : List Wake → Reactor → List Entry × Option Reactor
  | [], r => ([], some r)
  | wake :: wakes, r =>
      if r.running then
        match wake with
        | .interrupted => run wakes r
        | .failed => ([], some r)
        | .ready batch tick =>
            match dispatchBatch d batch r with
            | (log, none) => (log, none)
            | (log, some r) =>
                let (log', r) := r.maybeRunTimer interval tick
                let (log'', r) := run wakes r
                (log ++ log' ++ log'', r)
      else ([], some r)

/-- `TcpServer::stop` and the final save of `main`. What has not been sent is dropped. -/
def finish (w : World) : Reactor :=
  { r with
    server :=
      { clients := fun _ => none
        handlers := fun fd =>
          if fd = d.listen ∨ (r.server.clients fd).isSome then none else r.server.handlers fd
        interest := fun fd =>
          if fd = d.listen ∨ (r.server.clients fd).isSome then none else r.server.interest fd }
    session := r.session.shutdown w }

theorem same_onSignalPipeReadable (r : Reactor) (a : KernelAnswers) :
    (r.onSignalPipeReadable a).2.server = r.server ∧
      (r.onSignalPipeReadable a).2.clientIds = r.clientIds ∧
      (r.onSignalPipeReadable a).2.nextClientId = r.nextClientId := by
  unfold onSignalPipeReadable
  split
  · exact ⟨rfl, rfl, rfl⟩
  · rename_i signal pipe _
    cases signal with
    | chld =>
        dsimp only
        split_ifs <;> exact ⟨rfl, rfl, rfl⟩
    | _ => exact ⟨rfl, rfl, rfl⟩

theorem same_raise (r : Reactor) (d : Descriptors) (signal : Signal) :
    (r.raise d signal).server = r.server ∧ (r.raise d signal).clientIds = r.clientIds ∧
      (r.raise d signal).nextClientId = r.nextClientId := by
  unfold raise
  split_ifs <;> exact ⟨rfl, rfl, rfl⟩

theorem same_childExits (r : Reactor) (d : Descriptors) (ok : Bool) :
    (r.childExits d ok).server = r.server ∧ (r.childExits d ok).clientIds = r.clientIds ∧
      (r.childExits d ok).nextClientId = r.nextClientId := by
  unfold childExits
  split
  · split_ifs
    · exact ⟨rfl, rfl, rfl⟩
    · exact same_raise { r with exited := some ok } d .chld
  · exact ⟨rfl, rfl, rfl⟩

variable {d interval}

/-- `I log r` survives whatever is done between two looks at the event loop. -/
structure Invariant (d : Descriptors) (interval : ℤ) (I : List Entry → Reactor → Prop) : Prop where
  accept : ∀ {log r} fd, I log r → I (log ++ (r.accept d fd).1) (r.accept d fd).2
  signal : ∀ {log r} a, I log r →
    I (log ++ (r.onSignalPipeReadable a).1) (r.onSignalPipeReadable a).2
  readable : ∀ {log r fd a log' r'}, fd ∉ d.own → I log r →
    r.onClientReadable fd a = (log', some r') → I (log ++ log') r'
  writable : ∀ {log r} fd asked a, I log r →
    I (log ++ (r.callWritable fd asked a).1) (r.callWritable fd asked a).2
  raise : ∀ {log r} signal, I log r → I log (r.raise d signal)
  childExits : ∀ {log r} ok, I log r → I log (r.childExits d ok)
  childFinishes : ∀ {log r} clock, I log r →
    I (log ++ (r.childFinishes clock).1) (r.childFinishes clock).2
  timer : ∀ {log r} tick, I log r →
    I (log ++ (r.maybeRunTimer interval tick).1) (r.maybeRunTimer interval tick).2

namespace Invariant

variable {I : List Entry → Reactor → Prop} (hI : Invariant d interval I) {r r' : Reactor}
  {log log' : List Entry}

include hI

theorem onNewConnection (h : I log r) (fds : List ℕ) :
    I (log ++ (Reactor.onNewConnection d fds r).1) (Reactor.onNewConnection d fds r).2 := by
  induction fds generalizing log r with
  | nil =>
      rw [Reactor.onNewConnection, List.append_nil]
      exact h
  | cons fd fds ih =>
      have hrest := ih (hI.accept fd h)
      rwa [List.append_assoc] at hrest

theorem callReadable {fd : ℕ} {asked : Bool} {a : KernelAnswers} (h : I log r)
    (hrun : r.callReadable d fd asked a = (log', some r')) : I (log ++ log') r' := by
  have hsame : (([] : List Entry), some r) = (log', some r') → I (log ++ log') r' := by
    rintro ⟨⟩
    rwa [List.append_nil]
  unfold Reactor.callReadable at hrun
  split at hrun
  · exact hsame hrun
  · split_ifs at hrun
    · unfold Reactor.onReadable at hrun
      split_ifs at hrun with hlisten hsignal
      · obtain ⟨rfl, hr⟩ := Prod.mk.inj hrun
        obtain rfl := Option.some.inj hr
        exact hI.onNewConnection h a.accepted
      · obtain ⟨rfl, hr⟩ := Prod.mk.inj hrun
        obtain rfl := Option.some.inj hr
        exact hI.signal a h
      · refine hI.readable ?_ h hrun
        rintro (rfl | rfl)
        · exact hlisten rfl
        · exact hsignal rfl
    · exact hsame hrun

theorem happen {e : Happening} (h : I log r) (hrun : r.happen d e = (log', some r')) :
    I (log ++ log') r' := by
  cases e with
  | ready e =>
      change r.dispatchReady d e = _ at hrun
      unfold Reactor.dispatchReady at hrun
      split_ifs at hrun
      · exact hI.callReadable h hrun
      · split at hrun
        · cases (Prod.mk.inj hrun).2
        · rename_i log₁ r₁ hread
          obtain ⟨rfl, hr⟩ := Prod.mk.inj hrun
          obtain rfl := Option.some.inj hr
          rw [← List.append_assoc]
          exact hI.writable e.fd e.mask.output e.answers (hI.callReadable h hread)
  | signal signal =>
      obtain ⟨rfl, hr⟩ := Prod.mk.inj hrun
      obtain rfl := Option.some.inj hr
      rw [List.append_nil]
      exact hI.raise signal h
  | childFinishes clock =>
      obtain ⟨rfl, hr⟩ := Prod.mk.inj hrun
      obtain rfl := Option.some.inj hr
      exact hI.childFinishes clock h
  | childExits ok =>
      obtain ⟨rfl, hr⟩ := Prod.mk.inj hrun
      obtain rfl := Option.some.inj hr
      rw [List.append_nil]
      exact hI.childExits ok h

theorem dispatchBatch {batch : List Happening} (h : I log r)
    (hrun : Reactor.dispatchBatch d batch r = (log', some r')) : I (log ++ log') r' := by
  induction batch generalizing log log' r with
  | nil =>
      obtain ⟨rfl, hr⟩ := Prod.mk.inj hrun
      obtain rfl := Option.some.inj hr
      rwa [List.append_nil]
  | cons e batch ih =>
      rw [Reactor.dispatchBatch] at hrun
      split at hrun
      · cases (Prod.mk.inj hrun).2
      · rename_i log₁ r₁ hfirst
        obtain ⟨rfl, hr⟩ := Prod.mk.inj hrun
        have hrest := ih (hI.happen h hfirst) (Prod.ext rfl hr)
        rwa [List.append_assoc] at hrest

theorem run (log : List Entry) {wakes : List Wake} (h : I log r)
    (hrun : Reactor.run d interval wakes r = (log', some r')) : I (log ++ log') r' := by
  induction wakes generalizing log log' r with
  | nil =>
      obtain ⟨rfl, hr⟩ := Prod.mk.inj hrun
      obtain rfl := Option.some.inj hr
      rwa [List.append_nil]
  | cons wake wakes ih =>
      unfold Reactor.run at hrun
      split_ifs at hrun
      · cases wake with
        | interrupted => exact ih log h hrun
        | failed =>
            obtain ⟨rfl, hr⟩ := Prod.mk.inj hrun
            obtain rfl := Option.some.inj hr
            rwa [List.append_nil]
        | ready batch tick =>
            dsimp only at hrun
            split at hrun
            · cases (Prod.mk.inj hrun).2
            · rename_i log₁ r₁ hbatch
              obtain ⟨rfl, hr⟩ := Prod.mk.inj hrun
              have htimer := hI.timer tick (hI.dispatchBatch h hbatch)
              have hrest := ih _ htimer (Prod.ext rfl hr)
              rwa [List.append_assoc, List.append_assoc, ← List.append_assoc log₁] at hrest
      · obtain ⟨rfl, hr⟩ := Prod.mk.inj hrun
        obtain rfl := Option.some.inj hr
        rwa [List.append_nil]

end Invariant

end Reactor

end Keva
