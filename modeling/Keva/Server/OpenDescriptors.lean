import Keva.Net.Socket
import Keva.Server.Sequential

/-!
# The descriptors of a running server

The event loop finds a connection under each descriptor that a client's socket owns, and under no
other. `socketEvents` is what a run does with the sockets: a connection is accepted when the event
loop takes a result of `accept4`, and closed when a callback takes its entry out of `clients_`. The
other descriptors (the pipe for signals, that of epoll, the standard streams) are left arbitrary.
-/

namespace Keva

open ServerSockets (after handle)

/-- The results of `accept4`. -/
def Happening.accepted (d : Descriptors) : Happening → List ℕ
  | .ready e => if e.fd = d.listen then e.answers.accepted else []
  | _ => []

def Wake.accepted (d : Descriptors) : Wake → List ℕ
  | .ready batch _ => batch.flatMap (Happening.accepted d)
  | _ => []

def SocketEvent.accepts (fd : ℕ) : SocketEvent → Bool
  | .accept fd' => fd' = fd
  | _ => false

def SocketEvent.closes (fd : ℕ) : SocketEvent → Bool
  | .close fd' => fd' = fd
  | _ => false

namespace Reactor

variable (d : Descriptors) (interval : ℤ)

/-- What the accept loop does with the sockets. -/
def acceptEvents : List ℕ → Reactor → List SocketEvent
  | [], _ => []
  | fd :: fds, r =>
      let events := acceptEvents fds (r.accept d fd).2
      if fd ∈ d.own ∨ (r.server.clients fd).isSome then events else .accept fd :: events

/-- What the callbacks of a client do with the sockets, from `r` to `r'`. -/
def clientEvents (fd : ℕ) (r r' : Reactor) : List SocketEvent :=
  if (r.server.clients fd).isSome && (r'.server.clients fd).isNone then [.close fd] else []

def happenEvents (r r' : Reactor) : Happening → List SocketEvent
  | .ready e =>
      if e.fd = d.listen then
        if e.mask.error || e.mask.input then acceptEvents d e.answers.accepted r else []
      else clientEvents e.fd r r'
  | _ => []

def batchEvents : List Happening → Reactor → List SocketEvent
  | [], _ => []
  | e :: batch, r =>
      match (r.happen d e).2 with
      | none => []
      | some r' => happenEvents d r r' e ++ batchEvents batch r'

/-- What `run` does with the sockets, as long as the process does not end. -/
def socketEvents : List Wake → Reactor → List SocketEvent
  | [], _ => []
  | wake :: wakes, r =>
      if r.running then
        match wake with
        | .interrupted => socketEvents wakes r
        | .failed => []
        | .ready batch tick =>
            match (dispatchBatch d batch r).2 with
            | none => []
            | some r' =>
                batchEvents d batch r ++ socketEvents wakes (r'.maybeRunTimer interval tick).2
      else []

variable {d interval} {monotonic : ℤ} {r r' r'' : Reactor} {log log' : List Entry} {s : Session}
  {strangers : ℕ → Bool} {start : SocketEvent} {events : List SocketEvent} {fd : ℕ}
  {e : Happening} {batch : List Happening} {wakes : List Wake}

/-- After `events` the sockets are those of the connections that the event loop knows, and each
connection that it has accepted and does not know has been closed once. -/
structure Mirrors (strangers : ℕ → Bool) (d : Descriptors) (start : SocketEvent) (r : Reactor)
    (events : List SocketEvent) : Prop where
  listen : (after strangers (start :: events)).1.listenSocket.fd = some d.listen
  clients : ∀ fd, fd ∈ (after strangers (start :: events)).1.clients.map Prod.fst ↔
    (r.server.clients fd).isSome
  balanced : ∀ fd, events.countP (SocketEvent.accepts fd) =
    events.countP (SocketEvent.closes fd) + (r.server.clients fd).isSome.toNat

theorem after_concat (strangers : ℕ → Bool) (start e : SocketEvent) (events : List SocketEvent) :
    after strangers (start :: (events ++ [e])) = handle (after strangers (start :: events)) e := by
  rw [after, ← List.cons_append, List.foldl_append]
  rfl

namespace Mirrors

theorem isOpen_iff (h : Mirrors strangers d start r events) (fd : ℕ) :
    (after strangers (start :: events)).2.isOpen fd = true ↔
      strangers fd = true ∨ fd = d.listen ∨ (r.server.clients fd).isSome := by
  rw [(ServerSockets.tidy_after _ _).isOpen_iff, h.clients, h.listen, Option.some.injEq,
    eq_comm (a := d.listen)]

theorem of_same (h : Mirrors strangers d start r events)
    (hsame : ∀ fd, (r'.server.clients fd).isSome = (r.server.clients fd).isSome) :
    Mirrors strangers d start r' events :=
  ⟨h.listen, fun fd => by rw [hsame, h.clients], fun fd => by rw [hsame, h.balanced]⟩

theorem accept (h : Mirrors strangers d start r events) (hfresh : strangers fd = false)
    (hbusy : ¬ (fd ∈ d.own ∨ (r.server.clients fd).isSome)) :
    Mirrors strangers d start (r.accept d fd).2 (events ++ [.accept fd]) := by
  have htidy := ServerSockets.tidy_after strangers (start :: events)
  have hclosed : (after strangers (start :: events)).2.isOpen fd = false := by
    rw [← Bool.not_eq_true, h.isOpen_iff, hfresh]
    rintro (hs | hlisten | hclient)
    · cases hs
    · exact hbusy (.inl (.inl hlisten))
    · exact hbusy (.inr hclient)
  have hknown : ∀ fd', ((r.accept d fd).2.server.clients fd').isSome =
      ((r.server.clients fd').isSome || decide (fd' = fd)) := by
    intro fd'
    unfold Reactor.accept TcpServer.onNewConnection TcpServer.setClient TcpServer.addReadable
    rw [if_neg hbusy, TcpServer.epollAddOrMod_eq]
    by_cases hfd : fd' = fd
    · simp [hfd]
    · simp [hfd, TcpServer.setHandlers]
  constructor
  · rw [after_concat, handle, if_neg (Bool.eq_false_iff.mp hclosed)]
    exact (congrArg (·.1.listenSocket.fd)
      (ServerSockets.onNewConnection_of_fresh htidy hclosed)).trans h.listen
  · intro fd'
    rw [after_concat, htidy.mem_keys_accept, h.clients, hknown, hclosed]
    simp
  · intro fd'
    rw [List.countP_append, List.countP_append, h.balanced, hknown]
    by_cases hfd : fd' = fd
    · have hnone : (r.server.clients fd).isSome = false :=
        Bool.eq_false_iff.mpr fun hsome => hbusy (.inr hsome)
      rw [hfd, hnone]
      simp [SocketEvent.accepts, SocketEvent.closes]
    · simp [SocketEvent.accepts, SocketEvent.closes, hfd, Ne.symm hfd]

theorem onNewConnection {fds : List ℕ} (h : Mirrors strangers d start r events)
    (hfresh : ∀ fd ∈ fds, strangers fd = false) :
    Mirrors strangers d start (Reactor.onNewConnection d fds r).2
      (events ++ acceptEvents d fds r) := by
  induction fds generalizing r events with
  | nil => rwa [acceptEvents, List.append_nil]
  | cons fd fds ih =>
      have hrest : ∀ fd' ∈ fds, strangers fd' = false := fun fd' hfd' => hfresh fd' (.tail fd hfd')
      rw [acceptEvents]
      split_ifs with hbusy
      · have hpass : (r.accept d fd).2 = r := by
          unfold Reactor.accept
          rw [if_pos hbusy]
        have htail := ih (r := (r.accept d fd).2) (hpass.symm ▸ h) hrest
        exact htail
      · have htail := ih (h.accept (hfresh fd List.mem_cons_self) hbusy) hrest
        rwa [List.append_assoc] at htail

theorem close (h : Mirrors strangers d start r events)
    (hsome : (r.server.clients fd).isSome = true) (hgone : r'.server.clients fd = none)
    (helse : ∀ j, j ≠ fd → r'.server.clients j = r.server.clients j) :
    Mirrors strangers d start r' (events ++ [.close fd]) := by
  have htidy := ServerSockets.tidy_after strangers (start :: events)
  have hlisten : (handle (after strangers (start :: events)) (.close fd)).1.listenSocket =
      (after strangers (start :: events)).1.listenSocket := by
    rw [handle, ServerSockets.closeConnection]
    split <;> rfl
  constructor
  · rw [after_concat, hlisten]
    exact h.listen
  · intro fd'
    rw [after_concat, htidy.mem_keys_close, h.clients]
    by_cases hfd : fd' = fd
    · simp [hfd, hgone]
    · rw [helse fd' hfd]
      simp [hfd]
  · intro fd'
    rw [List.countP_append, List.countP_append, h.balanced]
    by_cases hfd : fd' = fd
    · rw [hfd, hsome, hgone]
      simp [SocketEvent.accepts, SocketEvent.closes]
    · rw [helse fd' hfd]
      simp [SocketEvent.accepts, SocketEvent.closes, Ne.symm hfd]

end Mirrors

/-- From `r` to `r'` no connection has changed but that of `fd`, which has not been accepted. -/
structure TouchesOnly (fd : ℕ) (r r' : Reactor) : Prop where
  elsewhere : ∀ j, j ≠ fd → r'.server.clients j = r.server.clients j
  absent : r.server.clients fd = none → r'.server.clients fd = none

namespace TouchesOnly

theorem of_server (hserver : r'.server = r.server) : TouchesOnly fd r r' :=
  ⟨fun j _ => by rw [hserver], fun h => by rw [hserver, h]⟩

theorem trans (h : TouchesOnly fd r r') (h' : TouchesOnly fd r' r'') : TouchesOnly fd r r'' :=
  ⟨fun j hj => (h'.elsewhere j hj).trans (h.elsewhere j hj), fun hc => h'.absent (h.absent hc)⟩

theorem of_clientStep
    (h : r' = r ∨ ∃ c, r.server.clients fd = some c ∧ ClientStep s log fd r log' r') :
    TouchesOnly fd r r' := by
  rcases h with rfl | ⟨c, hc, hstep⟩
  · exact of_server rfl
  · refine ⟨hstep.elsewhere, fun hnone => ?_⟩
    rw [hnone] at hc
    cases hc

theorem callReadable {asked : Bool} {a : KernelAnswers} (h : Sequential d s log r)
    (hne : fd ≠ d.listen) (hrun : r.callReadable d fd asked a = (log', some r')) :
    TouchesOnly fd r r' := by
  unfold Reactor.callReadable at hrun
  split at hrun
  · obtain rfl := Option.some.inj (Prod.mk.inj hrun).2
    exact of_server rfl
  · split_ifs at hrun
    · unfold onReadable at hrun
      rw [if_neg hne] at hrun
      split_ifs at hrun with hsignal
      · obtain rfl := Option.some.inj (Prod.mk.inj hrun).2
        exact of_server (same_onSignalPipeReadable r a).1
      · refine of_clientStep (h.client_onClientReadable ?_ hrun)
        rintro (hlisten | hpipe)
        · exact hne hlisten
        · exact hsignal hpipe
    · obtain rfl := Option.some.inj (Prod.mk.inj hrun).2
      exact of_server rfl

theorem mirrors (h : TouchesOnly fd r r') (hmirrors : Mirrors strangers d start r events) :
    Mirrors strangers d start r' (events ++ clientEvents fd r r') := by
  have hquiet : (r'.server.clients fd).isSome = (r.server.clients fd).isSome →
      Mirrors strangers d start r' events := fun hfd => hmirrors.of_same fun j => by
    by_cases hj : j = fd
    · rw [hj, hfd]
    · rw [h.elsewhere j hj]
  unfold clientEvents
  cases hc : r.server.clients fd with
  | none =>
      rw [Option.isSome_none, Bool.false_and, if_neg Bool.false_ne_true, List.append_nil]
      exact hquiet (by rw [hc, h.absent hc])
  | some c =>
      cases hc' : r'.server.clients fd with
      | none => exact hmirrors.close (by rw [hc, Option.isSome_some]) hc' h.elsewhere
      | some c' =>
          rw [Option.isNone_some, Bool.and_false, if_neg Bool.false_ne_true, List.append_nil]
          exact hquiet (by rw [hc, hc']; rfl)

end TouchesOnly

theorem callReadable_listen (h : r.server.Agree d.own) (asked : Bool) (a : KernelAnswers) :
    (r.callReadable d d.listen asked a).2 =
      some (if asked then (Reactor.onNewConnection d a.accepted r).2 else r) := by
  unfold callReadable onReadable
  rw [(h.listening d.listen (.inl rfl)).2.1]
  cases asked <;> simp

theorem callWritable_listen (h : r.server.Agree d.own) (asked : Bool) (a : KernelAnswers) :
    (r.callWritable d.listen asked a).2 = r := by
  unfold callWritable
  rw [(h.listening d.listen (.inl rfl)).2.1]
  simp

theorem dispatchReady_listen (h : Sequential d s log r) {e : ReadyEvent} (he : e.fd = d.listen) :
    (r.dispatchReady d e).2 = some (if e.mask.error || e.mask.input then
      (Reactor.onNewConnection d e.answers.accepted r).2 else r) := by
  unfold dispatchReady
  rw [he]
  cases e.mask.error with
  | true => exact callReadable_listen h.agree true e.answers
  | false =>
      have hread := callReadable_listen h.agree e.mask.input e.answers
      rw [if_neg Bool.false_ne_true, Bool.false_or]
      generalize hcall : r.callReadable d d.listen e.mask.input e.answers = result at hread ⊢
      obtain ⟨log₁, _ | r₁⟩ := result
      · cases hread
      · have hnext := (invariant_sequential d 0 s).callReadable h hcall
        rw [← hread]
        exact congrArg some (callWritable_listen hnext.agree e.mask.output e.answers)

theorem mirrors_happen (h : Sequential d s log r) (hmirrors : Mirrors strangers d start r events)
    (hfresh : ∀ fd ∈ e.accepted d, strangers fd = false) (hrun : r.happen d e = (log', some r')) :
    Mirrors strangers d start r' (events ++ happenEvents d r r' e) := by
  have hkept : r'.server = r.server → Mirrors strangers d start r' (events ++ []) := by
    intro hserver
    rw [List.append_nil]
    exact hmirrors.of_same fun fd => by rw [hserver]
  cases e with
  | ready e =>
      change r.dispatchReady d e = _ at hrun
      rw [happenEvents]
      by_cases he : e.fd = d.listen
      · have hr := dispatchReady_listen h he
        rw [hrun] at hr
        obtain rfl := Option.some.inj hr
        rw [Happening.accepted, if_pos he] at hfresh
        rw [if_pos he]
        split_ifs
        · exact hmirrors.onNewConnection hfresh
        · rwa [List.append_nil]
      · rw [if_neg he]
        refine TouchesOnly.mirrors ?_ hmirrors
        unfold dispatchReady at hrun
        split_ifs at hrun
        · exact .callReadable h he hrun
        · split at hrun
          · cases (Prod.mk.inj hrun).2
          · rename_i log₁ r₁ hread
            obtain rfl := Option.some.inj (Prod.mk.inj hrun).2
            have hnext := (invariant_sequential d 0 s).callReadable h hread
            have hwrite := hnext.client_callWritable e.fd e.mask.output e.answers
            exact (TouchesOnly.callReadable h he hread).trans (.of_clientStep hwrite)
  | signal signal =>
      obtain rfl := Option.some.inj (Prod.mk.inj hrun).2
      exact hkept (same_raise r d signal).1
  | childFinishes clock =>
      obtain rfl := Option.some.inj (Prod.mk.inj hrun).2
      apply hkept
      change (r.childFinishes clock).2.server = r.server
      unfold Reactor.childFinishes
      split <;> rfl
  | childExits ok =>
      obtain rfl := Option.some.inj (Prod.mk.inj hrun).2
      exact hkept (same_childExits r d ok).1

theorem mirrors_dispatchBatch (h : Sequential d s log r)
    (hmirrors : Mirrors strangers d start r events)
    (hfresh : ∀ fd ∈ batch.flatMap (Happening.accepted d), strangers fd = false)
    (hrun : dispatchBatch d batch r = (log', some r')) :
    Mirrors strangers d start r' (events ++ batchEvents d batch r) := by
  induction batch generalizing r log log' events with
  | nil =>
      obtain rfl := Option.some.inj (Prod.mk.inj hrun).2
      rwa [batchEvents, List.append_nil]
  | cons e batch ih =>
      rw [List.flatMap_cons] at hfresh
      rw [dispatchBatch] at hrun
      rw [batchEvents]
      split at hrun
      · cases (Prod.mk.inj hrun).2
      · rename_i log₁ r₁ hfirst
        have hnext := (invariant_sequential d 0 s).happen h hfirst
        have hhead := mirrors_happen h hmirrors
          (fun fd hfd => hfresh fd (List.mem_append_left _ hfd)) hfirst
        have htail := ih hnext hhead (fun fd hfd => hfresh fd (List.mem_append_right _ hfd))
          (Prod.ext rfl (Prod.mk.inj hrun).2)
        rw [hfirst]
        rwa [List.append_assoc] at htail

theorem mirrors_run (h : Sequential d s log r) (hmirrors : Mirrors strangers d start r events)
    (hfresh : ∀ fd ∈ wakes.flatMap (Wake.accepted d), strangers fd = false)
    (hrun : run d interval wakes r = (log', some r')) :
    Mirrors strangers d start r' (events ++ socketEvents d interval wakes r) := by
  induction wakes generalizing r log log' events with
  | nil =>
      obtain rfl := Option.some.inj (Prod.mk.inj hrun).2
      rwa [socketEvents, List.append_nil]
  | cons wake wakes ih =>
      rw [List.flatMap_cons] at hfresh
      have hrest : ∀ fd ∈ wakes.flatMap (Wake.accepted d), strangers fd = false :=
        fun fd hfd => hfresh fd (List.mem_append_right _ hfd)
      unfold Reactor.run at hrun
      unfold socketEvents
      split_ifs at hrun ⊢
      · cases wake with
        | interrupted => exact ih h hmirrors hrest hrun
        | failed =>
            obtain rfl := Option.some.inj (Prod.mk.inj hrun).2
            rwa [List.append_nil]
        | ready batch tick =>
            dsimp only at hrun ⊢
            split at hrun
            · cases (Prod.mk.inj hrun).2
            · rename_i log₁ r₁ hbatch
              have hnext := ((invariant_sequential d 0 s).dispatchBatch h hbatch).maybeRunTimer
                interval tick
              have hhead := mirrors_dispatchBatch h hmirrors
                (fun fd hfd => hfresh fd (List.mem_append_left _ hfd)) hbatch
              have htimer : (r₁.maybeRunTimer interval tick).2.server = r₁.server := by
                unfold maybeRunTimer
                split_ifs <;> rfl
              have htail := ih hnext (hhead.of_same fun fd => by rw [htimer]) hrest
                (Prod.ext rfl (Prod.mk.inj hrun).2)
              rw [hbatch]
              rwa [List.append_assoc] at htail
      · obtain rfl := Option.some.inj (Prod.mk.inj hrun).2
        rwa [List.append_nil]

theorem mirrors_started (hlisten : strangers d.listen = false) {host : Bytes} {a : ServerAnswers}
    (hsocket : a.socket = .ok d.listen) (hconfigure : a.configure host = .ok ())
    (s : Session) (monotonic : ℤ) :
    Mirrors strangers d (.start host a) (started d s monotonic) [] := by
  have hafter : (after strangers [.start host a]).1 = ⟨⟨some d.listen⟩, []⟩ := by
    rw [after, List.foldl_cons, List.foldl_nil, handle, hsocket]
    dsimp only
    rw [if_neg (Bool.eq_false_iff.mp hlisten), ServerSockets.start, Socket.createServer, hsocket]
    dsimp only
    rw [hconfigure]
    rfl
  constructor
  · rw [hafter]
  · intro fd
    rw [hafter]
    simp [started, TcpServer.listening]
  · intro fd
    simp [started, TcpServer.listening]

/-- In every run of the event loop, whichever descriptors others have: at its end just theirs, that
of the listening socket and those of the connections that the event loop knows are open. Each
connection that it has accepted is one of these or has been closed, once; no descriptor has been
closed that was not open; and when the server is destroyed, just those of others are left. -/
theorem descriptors_known (hlisten : strangers d.listen = false) (host : Bytes) {a : ServerAnswers}
    (hsocket : a.socket = .ok d.listen) (hconfigure : a.configure host = .ok ())
    (hfresh : ∀ fd ∈ wakes.flatMap (Wake.accepted d), strangers fd = false)
    (hrun : run d interval wakes (started d s monotonic) = (log, some r)) :
    let events := socketEvents d interval wakes (started d s monotonic)
    let sockets := after strangers (.start host a :: events)
    (∀ fd, sockets.2.isOpen fd = true ↔
        strangers fd = true ∨ fd = d.listen ∨ (r.server.clients fd).isSome) ∧
      (∀ fd, events.countP (SocketEvent.accepts fd) =
        events.countP (SocketEvent.closes fd) + (r.server.clients fd).isSome.toNat) ∧
        sockets.2.misclosed = false ∧ sockets.1.destroy sockets.2 = ⟨strangers, false⟩ := by
  have h := mirrors_run (sequential_started d s monotonic)
    (mirrors_started hlisten hsocket hconfigure s monotonic) hfresh hrun
  have htidy := ServerSockets.tidy_after strangers
    (.start host a :: socketEvents d interval wakes (started d s monotonic))
  exact ⟨h.isOpen_iff, h.balanced, htidy.owned.sound, htidy.destroy_eq⟩

/-- The first of two clients ends its stream, and a third one is given its descriptor. -/
def reusedDescriptor : List Wake :=
  let answers := fun (accepted : List ℕ) (ending : ReadEnd) =>
    (⟨accepted, 0, ⟨[], ending⟩, fun _ => .still 10 0, ⟨[], .wouldBlock⟩,
      ⟨[], .wouldBlock⟩⟩ : KernelAnswers)
  let input : EventMask := ⟨false, true, false⟩
  let tick : TimerTick := ⟨200, 10, ⟨0, 0⟩, ⟨0, 0⟩, ⟨0, 0⟩⟩
  [.ready [.ready ⟨6, input, answers [8, 9] .wouldBlock⟩] tick,
    .ready [.ready ⟨8, input, answers [] .eof⟩, .ready ⟨6, input, answers [8] .wouldBlock⟩] tick]

/-- Others have the standard streams, the descriptor of epoll and both ends of the pipe. -/
theorem descriptors_known_reusedDescriptor :
    let d : Descriptors := ⟨6, 4, 65536⟩
    let start := started d freshSession 0
    let a : ServerAnswers := ⟨.ok 6, .ok (), .ok (), .ok (), .ok (), true, .ok (), .ok ()⟩
    let events := socketEvents d 100 reusedDescriptor start
    let sockets := after (fun fd => fd < 6) (.start (ascii "127.0.0.1") a :: events)
    ∃ log r, Reactor.run d 100 reusedDescriptor start = (log, some r) ∧
      (∀ fd, sockets.2.isOpen fd = true ↔
        decide (fd < 6) = true ∨ fd = 6 ∨ (r.server.clients fd).isSome) ∧
        (r.server.clients 8).isSome ∧ (r.server.clients 9).isSome ∧
          events.countP (SocketEvent.closes 8) = 1 ∧
            events.countP (SocketEvent.accepts 8) = 2 ∧ sockets.2.misclosed = false := by
  intro d start a events sockets
  have hclients : (Reactor.run d 100 reusedDescriptor start).2.any (fun r =>
      (r.server.clients 8).isSome && (r.server.clients 9).isSome) := by decide +kernel
  have hcloses : events.countP (SocketEvent.closes 8) = 1 := by decide +kernel
  obtain ⟨⟨log, result⟩, hrun⟩ : ∃ p, Reactor.run d 100 reusedDescriptor start = p := ⟨_, rfl⟩
  rw [hrun] at hclients
  obtain ⟨r, rfl, hr⟩ := (Option.any_eq_true _ _).mp hclients
  rw [Bool.and_eq_true] at hr
  have hfresh : ∀ fd ∈ reusedDescriptor.flatMap (Wake.accepted d), decide (fd < 6) = false := by
    decide
  have hlisten : decide (d.listen < 6) = false := by decide
  have hconfigure : a.configure (ascii "127.0.0.1") = .ok () := rfl
  obtain ⟨hopen, hbalanced, hsound, -⟩ :=
    descriptors_known hlisten (ascii "127.0.0.1") rfl hconfigure hfresh hrun
  refine ⟨log, r, hrun, hopen, hr.1, hr.2, hcloses, ?_, hsound⟩
  have haccepts := hbalanced 8
  rwa [hr.1, hcloses] at haccepts

end Reactor

end Keva
