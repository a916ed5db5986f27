import Keva.Command.Strings
import Keva.Server.Reactor

/-!
# The server is one sequential store

Whatever the clients send, in whatever pieces, and however the kernel interleaves and cuts the
events, a run of the event loop is the execution of one sequence of commands on one session. Every
client gets the replies to its own commands, in order: the commands are the frames of the bytes it
has sent.
-/

namespace Keva

open Framing (Tail frames)
open Function (update)

/-- The reply to one step of dispatch, and the session after it. -/
def DispatchStep.perform (env : ℕ → World) (s : Session) (step : DispatchStep) : Bytes × Session :=
  match step.action with
  | .execute frame => answerFrame env { s with state := step.state } frame
  | .reject => (RespEncoder.error (ascii "Protocol error: invalid RESP2 format"), s)

namespace Entry

def perform (s : Session) : Entry → Bytes × Session
  | .dispatched _ env step => step.perform env s
  | .reaped status time => ([], s.reap status time)
  | .childFinishes clock => ([], s.finishChild clock)
  | .cron tick => ([], s.serverCron tick.now tick.draw₁ tick.draw₂ tick.draw₃)
  | _ => ([], s)

def client? : Entry → Option ℕ
  | .accepted id | .received id _ | .dispatched id _ _ | .sent id _ => some id
  | _ => none

def receivedFrom (id : ℕ) : Entry → Bytes
  | .received j bytes => if j = id then bytes else []
  | _ => []

def sentTo (id : ℕ) : Entry → Bytes
  | .sent j bytes => if j = id then bytes else []
  | _ => []

def executedFor (id : ℕ) : Entry → Option RespValue
  | .dispatched j _ step => if j = id then step.frame? else none
  | _ => none

end Entry

/-- The session after everything in the log has been done, one after the other. -/
def replay (s : Session) (log : List Entry) : Session := log.foldl (fun s e => (e.perform s).2) s

/-- The replies to one client when the log is replayed. -/
def repliesFor (id : ℕ) : Session → List Entry → Bytes
  | _, [] => []
  | s, e :: log =>
      (if e.client? = some id then (e.perform s).1 else []) ++ repliesFor id (e.perform s).2 log

def receivedFrom (id : ℕ) (log : List Entry) : Bytes := log.flatMap (Entry.receivedFrom id)

def sentTo (id : ℕ) (log : List Entry) : Bytes := log.flatMap (Entry.sentTo id)

def executedFor (id : ℕ) (log : List Entry) : List RespValue := log.filterMap (Entry.executedFor id)

section

variable {s : Session} {log log' : List Entry} {id : ℕ}

theorem replay_append (s : Session) (log log' : List Entry) :
    replay s (log ++ log') = replay (replay s log) log' := List.foldl_append

theorem repliesFor_append (id : ℕ) (s : Session) (log log' : List Entry) :
    repliesFor id s (log ++ log') = repliesFor id s log ++ repliesFor id (replay s log) log' := by
  induction log generalizing s with
  | nil => rfl
  | cons e log ih =>
      rw [List.cons_append, repliesFor, repliesFor, ih, List.append_assoc]
      rfl

theorem receivedFrom_append (id : ℕ) (log log' : List Entry) :
    receivedFrom id (log ++ log') = receivedFrom id log ++ receivedFrom id log' :=
  List.flatMap_append

theorem sentTo_append (id : ℕ) (log log' : List Entry) :
    sentTo id (log ++ log') = sentTo id log ++ sentTo id log' := List.flatMap_append

theorem executedFor_append (id : ℕ) (log log' : List Entry) :
    executedFor id (log ++ log') = executedFor id log ++ executedFor id log' :=
  List.filterMap_append

theorem replay_mute {e : Entry} (h : ∀ s, e.perform s = ([], s)) (id : ℕ) (s : Session)
    (log : List Entry) :
    repliesFor id s (e :: log) = repliesFor id s log ∧ replay s (e :: log) = replay s log := by
  constructor
  · rw [repliesFor, h, ite_self]
    rfl
  · rw [replay, List.foldl_cons, h]
    rfl

/-- The log has nothing about the client `id`. -/
def Lacks (id : ℕ) (log : List Entry) : Prop := ∀ e ∈ log, e.client? ≠ some id

theorem Lacks.repliesFor_eq (h : Lacks id log) (s : Session) : repliesFor id s log = [] := by
  induction log generalizing s with
  | nil => rfl
  | cons e log ih =>
      rw [repliesFor, if_neg (h e List.mem_cons_self), ih fun e' he' => h e' (.tail e he')]
      rfl

theorem Lacks.receivedFrom_eq (h : Lacks id log) : receivedFrom id log = [] := by
  refine List.flatMap_eq_nil_iff.mpr fun e he => ?_
  cases e with
  | received j bytes => exact if_neg fun hj => h _ he (congrArg some hj)
  | _ => rfl

theorem Lacks.sentTo_eq (h : Lacks id log) : sentTo id log = [] := by
  refine List.flatMap_eq_nil_iff.mpr fun e he => ?_
  cases e with
  | sent j bytes => exact if_neg fun hj => h _ he (congrArg some hj)
  | _ => rfl

theorem Lacks.executedFor_eq (h : Lacks id log) : executedFor id log = [] := by
  refine List.filterMap_eq_nil_iff.mpr fun e he => ?_
  cases e with
  | dispatched j env step => exact if_neg fun hj => h _ he (congrArg some hj)
  | _ => rfl

/-- An open connection: the replies so far are what has been sent and what is waiting to be, the
frames that have arrived completely have been executed, and the rest is in the read buffer. -/
structure Streams (s : Session) (log : List Entry) (id : ℕ) (c : Connection) : Prop where
  replies : sentTo id log ++ c.unsent = repliesFor id s log
  executed : executedFor id log = (frames RespParser.parse (receivedFrom id log)).1
  view : c.readView = (frames RespParser.parse (receivedFrom id log)).2.rest

/-- Any connection, open or not: a client gets replies in order, none but to its own commands, and
these are frames that it has sent, in order. -/
structure Served (s : Session) (log : List Entry) (id : ℕ) : Prop where
  sent : sentTo id log <+: repliesFor id s log
  executed : executedFor id log <+: (frames RespParser.parse (receivedFrom id log)).1

theorem Streams.served {c : Connection} (h : Streams s log id c) : Served s log id :=
  ⟨⟨c.unsent, h.replies⟩, h.executed ▸ List.prefix_rfl⟩

theorem Streams.silent {c : Connection} (h : Streams s log id c) (hlog : Lacks id log') :
    Streams s (log ++ log') id c := by
  constructor
  · rw [sentTo_append, repliesFor_append, hlog.sentTo_eq, hlog.repliesFor_eq, List.append_nil,
      List.append_nil, h.replies]
  · rw [executedFor_append, receivedFrom_append, hlog.executedFor_eq, hlog.receivedFrom_eq,
      List.append_nil, List.append_nil, h.executed]
  · rw [receivedFrom_append, hlog.receivedFrom_eq, List.append_nil, h.view]

theorem Served.silent (h : Served s log id) (hlog : Lacks id log') : Served s (log ++ log') id := by
  constructor
  · rw [sentTo_append, repliesFor_append, hlog.sentTo_eq, hlog.repliesFor_eq, List.append_nil,
      List.append_nil]
    exact h.sent
  · rw [executedFor_append, receivedFrom_append, hlog.executedFor_eq, hlog.receivedFrom_eq,
      List.append_nil, List.append_nil]
    exact h.executed

theorem prefix_frames_append (bytes bytes' : Bytes) :
    (frames RespParser.parse bytes).1 <+: (frames RespParser.parse (bytes ++ bytes')).1 := by
  rw [Framing.frames_append_rest RespParser.stable_parse RespParser.advances_parse]
  exact List.prefix_append _ _

end

theorem Connection.unsent_consume (c : Connection) (n : ℕ) : (c.consume n).unsent = c.unsent := rfl

theorem Connection.unsent_setState (c : Connection) (state : ConnectionState) :
    (c.setState state).unsent = c.unsent := rfl

theorem dispatchLoop_perform {env : ℕ → World} {fuel : ℕ} {c c' : Connection} {s s' : Session}
    {steps : List DispatchStep} (h : dispatchLoop env fuel c s = (steps, some (c', s'))) :
    s' = (Run.run (fun s step => step.perform env s) s steps).2 ∧
      c'.unsent = c.unsent ++
        (Run.run (fun s step => step.perform env s) s steps).1.flatten := by
  have hstop : ∀ {steps : List DispatchStep} {c c' : Connection} {s s' : Session},
      (([] : List DispatchStep), some (c, s)) = (steps, some (c', s')) →
      s' = (Run.run (fun s step => step.perform env s) s steps).2 ∧
        c'.unsent = c.unsent ++
          (Run.run (fun s step => step.perform env s) s steps).1.flatten := by
    rintro steps c c' s s' ⟨⟩
    exact ⟨rfl, (List.append_nil _).symm⟩
  induction fuel generalizing c s steps with
  | zero => exact hstop h
  | succ fuel ih =>
      rw [dispatchLoop] at h
      split_ifs at h
      · exact hstop h
      · split at h
        · exact hstop h
        · obtain ⟨rfl, hresult⟩ := Prod.mk.inj h
          obtain ⟨rfl, rfl⟩ := Prod.mk.inj (Option.some.inj hresult)
          refine ⟨rfl, ?_⟩
          rw [Connection.reject, Connection.unsent_setState, Connection.unsent_appendResponse]
          exact congrArg (c.unsent ++ ·) (List.append_nil _).symm
        · cases h
        · rename_i frame rest hparse
          dsimp only at h
          obtain ⟨rfl, hresult⟩ := Prod.mk.inj h
          obtain ⟨hs, hunsent⟩ := ih (Prod.ext rfl hresult)
          rw [Run.run_cons, hs, hunsent, List.flatten_cons, ← List.append_assoc]
          refine ⟨rfl, ?_⟩
          rw [Connection.execute, Connection.unsent_setState, Connection.unsent_appendResponse,
            Connection.unsent_consume]
          rfl

theorem repliesFor_dispatched (id : ℕ) (env : ℕ → World) (s : Session) (steps : List DispatchStep) :
    repliesFor id s (steps.map (.dispatched id env)) =
        (Run.run (fun s step => step.perform env s) s steps).1.flatten ∧
      replay s (steps.map (.dispatched id env)) =
        (Run.run (fun s step => step.perform env s) s steps).2 := by
  induction steps generalizing s with
  | nil => exact ⟨rfl, rfl⟩
  | cons step steps ih =>
      obtain ⟨hreplies, hreplay⟩ := ih (step.perform env s).2
      have habout : (Entry.dispatched id env step).client? = some id := rfl
      rw [List.map_cons, Run.run_cons, List.flatten_cons, repliesFor, if_pos habout, ← hreplies]
      exact ⟨rfl, hreplay⟩

theorem dispatch_frames {env : ℕ → World} {c c' : Connection} {s s' : Session}
    {steps : List DispatchStep} (h : dispatch env c s = (steps, some (c', s'))) :
    steps.filterMap DispatchStep.frame? = (frames RespParser.parse c.readView).1 ∧
      c'.readView = (frames RespParser.parse c.readView).2.rest := by
  obtain ⟨c₁, s₁, hexec, hdispatch⟩ := dispatch_spec env c s
  rw [hdispatch] at h
  obtain ⟨rfl, hresult⟩ := Prod.mk.inj h
  rw [List.filterMap_append, filterMap_executionSteps]
  obtain ⟨c₂, htail, heq⟩ := Option.map_eq_some_iff.mp hresult
  obtain rfl : c₂ = c' := congrArg Prod.fst heq
  cases ht : (frames RespParser.parse c.readView).2 with
  | waiting rest =>
      rw [ht] at htail hexec
      obtain rfl := Option.some.inj htail
      exact ⟨List.append_nil _, hexec.readView⟩
  | failed fault rest =>
      rw [ht] at htail hexec
      cases fault with
      | protocolError =>
          obtain rfl := Option.some.inj htail
          exact ⟨List.append_nil _, hexec.readView⟩
      | lengthError => cases htail

theorem executedFor_dispatched (id : ℕ) (env : ℕ → World) (steps : List DispatchStep) :
    executedFor id (steps.map (.dispatched id env)) = steps.filterMap DispatchStep.frame? := by
  rw [executedFor, List.filterMap_map]
  refine List.filterMap_congr fun step _ => ?_
  exact if_pos rfl

/-- The log of one readable event: bytes come in, steps are taken, bytes go out. -/
def cycleLog (id : ℕ) (env : ℕ → World) (bytes : Bytes) (steps : List DispatchStep) (out : Bytes) :
    List Entry :=
  (.received id bytes :: steps.map (.dispatched id env)) ++ [.sent id out]

section

variable {id : ℕ} {env : ℕ → World} {bytes out : Bytes} {steps : List DispatchStep}

theorem client?_cycleLog : ∀ e ∈ cycleLog id env bytes steps out, e.client? = some id := by
  intro e he
  simp only [cycleLog, List.mem_append, List.mem_cons, List.mem_map, List.not_mem_nil,
    or_false] at he
  rcases he with (rfl | ⟨step, -, rfl⟩) | rfl <;> rfl

theorem receivedFrom_cycleLog : receivedFrom id (cycleLog id env bytes steps out) = bytes := by
  have hsteps : receivedFrom id (steps.map (.dispatched id env)) = [] := by
    refine List.flatMap_eq_nil_iff.mpr fun e he => ?_
    obtain ⟨step, -, rfl⟩ := List.mem_map.mp he
    rfl
  have hself : Entry.receivedFrom id (.received id bytes) = bytes := if_pos rfl
  rw [cycleLog, receivedFrom_append, receivedFrom, List.flatMap_cons, hself]
  change bytes ++ receivedFrom id (steps.map (.dispatched id env)) ++ [] = bytes
  rw [hsteps, List.append_nil, List.append_nil]

theorem sentTo_cycleLog : sentTo id (cycleLog id env bytes steps out) = out := by
  have hsteps : sentTo id (.received id bytes :: steps.map (.dispatched id env)) = [] := by
    refine List.flatMap_eq_nil_iff.mpr fun e he => ?_
    rcases List.mem_cons.mp he with rfl | he
    · rfl
    · obtain ⟨step, -, rfl⟩ := List.mem_map.mp he
      rfl
  rw [cycleLog, sentTo_append, hsteps, sentTo, List.flatMap_singleton]
  exact if_pos rfl

theorem executedFor_cycleLog : executedFor id (cycleLog id env bytes steps out) =
    steps.filterMap DispatchStep.frame? := by
  rw [← executedFor_dispatched id env steps, cycleLog, executedFor_append]
  exact List.append_nil _

theorem repliesFor_cycleLog (s : Session) :
    repliesFor id s (cycleLog id env bytes steps out) =
        (Run.run (fun s step => step.perform env s) s steps).1.flatten ∧
      replay s (cycleLog id env bytes steps out) =
        (Run.run (fun s step => step.perform env s) s steps).2 := by
  obtain ⟨hreplies, hreplay⟩ := repliesFor_dispatched id env s steps
  have hfirst := replay_mute (e := .received id bytes) (fun _ => rfl) id s
    (steps.map (.dispatched id env))
  have hlast := fun s => replay_mute (e := .sent id out) (fun _ => rfl) id s []
  rw [cycleLog, repliesFor_append, replay_append, hfirst.1, hfirst.2, (hlast _).1, (hlast _).2,
    hreplies, hreplay]
  exact ⟨List.append_nil _, rfl⟩

end

namespace Reactor

variable {d : Descriptors} {r r' : Reactor} {fd : ℕ} {a : KernelAnswers} {log log' : List Entry}

/-- The event in which the network layer finds the callback of a client. -/
def readableEvent (r : Reactor) (a : KernelAnswers) : ReadableEvent :=
  ⟨a.reads, a.writes, a.env, r.session⟩

theorem server_onClientReadable (r : Reactor) (fd : ℕ) (a : KernelAnswers) :
    (r.onClientReadable fd a).2.map Reactor.server =
      (r.server.onClientReadable fd (r.readableEvent a)).2 := by
  unfold onClientReadable TcpServer.onClientReadable readableEvent
  cases r.server.clients fd with
  | none => rfl
  | some c =>
      dsimp only
      split_ifs
      · rfl
      · generalize dispatch a.env (c.fillReadBuffer a.reads).2 r.session = result
        obtain ⟨steps, _ | ⟨c', s'⟩⟩ := result <;> rfl

theorem server_onClientWritable (r : Reactor) (fd : ℕ) (a : KernelAnswers) :
    (r.onClientWritable fd a).2.server = r.server.onClientWritable fd a.drained := by
  unfold onClientWritable TcpServer.onClientWritable
  cases r.server.clients fd <;> rfl

/-- What holds in a run with the session `s` at its beginning and the log so far. -/
structure Sequential (d : Descriptors) (s : Session) (log : List Entry) (r : Reactor) : Prop where
  reach : r.server.Reachable d.own
  session : r.session = replay s log
  streams : ∀ fd c, r.server.clients fd = some c → Streams s log (r.clientIds fd) c
  known : ∀ e ∈ log, ∀ id, e.client? = some id → id < r.nextClientId
  ids : ∀ fd c, r.server.clients fd = some c → r.clientIds fd < r.nextClientId
  apart : ∀ fd fd' c c', r.server.clients fd = some c → r.server.clients fd' = some c' →
    r.clientIds fd = r.clientIds fd' → fd = fd'
  served : ∀ id, Served s log id

theorem sequential_started (d : Descriptors) (s : Session) (monotonic : ℤ) :
    Sequential d s [] (started d s monotonic) where
  reach := .refl
  session := rfl
  streams _ _ hc := by cases hc
  known _ he := by cases he
  ids _ _ hc := by cases hc
  apart _ _ _ _ hc := by cases hc
  served _ := ⟨List.prefix_rfl, List.nil_prefix⟩

/-- A callback of the client on `fd` that adds `log'` to the log. -/
structure ClientStep (s : Session) (log : List Entry) (fd : ℕ) (r : Reactor) (log' : List Entry)
    (r' : Reactor) : Prop where
  clientIds : r'.clientIds = r.clientIds
  nextClientId : r'.nextClientId = r.nextClientId
  about : ∀ e ∈ log', e.client? = some (r.clientIds fd)
  session : r'.session = replay r.session log'
  elsewhere : ∀ j, j ≠ fd → r'.server.clients j = r.server.clients j
  streams : ∀ c, r'.server.clients fd = some c → Streams s (log ++ log') (r.clientIds fd) c
  served : Served s (log ++ log') (r.clientIds fd)

variable {s : Session}

theorem Sequential.client (h : Sequential d s log r) {c : Connection}
    (hc : r.server.clients fd = some c) (hstep : ClientStep s log fd r log' r')
    (hreach : r'.server.Reachable d.own) : Sequential d s (log ++ log') r' := by
  have hsilent : ∀ id, id ≠ r.clientIds fd → Lacks id log' := by
    intro id hid e he heq
    rw [hstep.about e he] at heq
    exact hid (Option.some.inj heq).symm
  have hopen : ∀ j c', j ≠ fd → r'.server.clients j = some c' → r.server.clients j = some c' :=
    fun j c' hj hc' => (hstep.elsewhere j hj).symm.trans hc'
  have hsome : ∀ j c', r'.server.clients j = some c' → ∃ c, r.server.clients j = some c := by
    intro j c' hc'
    by_cases hj : j = fd
    · exact ⟨c, hj ▸ hc⟩
    · exact ⟨c', hopen j c' hj hc'⟩
  refine ⟨hreach, ?_, ?_, ?_, ?_, ?_, ?_⟩
  · rw [hstep.session, h.session, replay_append]
  · intro j c' hc'
    rw [hstep.clientIds]
    by_cases hj : j = fd
    · rw [hj] at hc' ⊢
      exact hstep.streams c' hc'
    · have hc'' := hopen j c' hj hc'
      exact (h.streams j c' hc'').silent
        (hsilent _ fun heq => hj (h.apart j fd c' c hc'' hc heq))
  · intro e he id hid
    rw [hstep.nextClientId]
    rcases List.mem_append.mp he with he | he
    · exact h.known e he id hid
    · rw [hstep.about e he] at hid
      exact Option.some.inj hid ▸ h.ids fd c hc
  · intro j c' hc'
    obtain ⟨c'', hc''⟩ := hsome j c' hc'
    rw [hstep.clientIds, hstep.nextClientId]
    exact h.ids j c'' hc''
  · intro j j' c₁ c₂ hj hj' heq
    obtain ⟨c₁', hj⟩ := hsome j c₁ hj
    obtain ⟨c₂', hj'⟩ := hsome j' c₂ hj'
    rw [hstep.clientIds] at heq
    exact h.apart j j' c₁' c₂' hj hj' heq
  · intro id
    by_cases hid : id = r.clientIds fd
    · rw [hid]
      exact hstep.served
    · exact (h.served id).silent (hsilent id hid)

theorem Sequential.background (h : Sequential d s log r) (hlog : ∀ e ∈ log', e.client? = none)
    (hserver : r'.server = r.server) (hids : r'.clientIds = r.clientIds)
    (hnext : r'.nextClientId = r.nextClientId) (hsession : r'.session = replay r.session log') :
    Sequential d s (log ++ log') r' := by
  have hsilent : ∀ id, Lacks id log' := by
    intro id e he heq
    rw [hlog e he] at heq
    cases heq
  refine ⟨?_, ?_, ?_, ?_, ?_, ?_, fun id => (h.served id).silent (hsilent id)⟩
  · rw [hserver]
    exact h.reach
  · rw [hsession, h.session, replay_append]
  · intro fd c hc
    rw [hserver] at hc
    rw [hids]
    exact (h.streams fd c hc).silent (hsilent _)
  · intro e he id hid
    rw [hnext]
    rcases List.mem_append.mp he with he | he
    · exact h.known e he id hid
    · rw [hlog e he] at hid
      cases hid
  · intro fd c hc
    rw [hserver] at hc
    rw [hids, hnext]
    exact h.ids fd c hc
  · intro fd fd' c c' hc hc' heq
    rw [hserver] at hc hc'
    rw [hids] at heq
    exact h.apart fd fd' c c' hc hc' heq

theorem Sequential.accept (h : Sequential d s log r) (fd : ℕ) :
    Sequential d s (log ++ (r.accept d fd).1) (r.accept d fd).2 := by
  unfold Reactor.accept
  split_ifs with hbusy
  · rw [List.append_nil]
    exact h
  · rw [not_or, Option.not_isSome_iff_eq_none] at hbusy
    obtain ⟨hown, hfree⟩ := hbusy
    have hother : ∀ id, Lacks id [Entry.accepted r.nextClientId] ∨ id = r.nextClientId := by
      intro id
      by_cases hid : id = r.nextClientId
      · exact .inr hid
      · left
        intro e he heq
        rw [List.mem_singleton.mp he] at heq
        exact hid (Option.some.inj heq).symm
    have hnew : Lacks r.nextClientId log := fun e he heq =>
      lt_irrefl _ (h.known e he _ heq)
    -- nothing of the new client but that it was accepted
    have hstreams : Streams s (log ++ [.accepted r.nextClientId]) r.nextClientId .accepted := by
      constructor
      · rw [sentTo_append, repliesFor_append, hnew.sentTo_eq, hnew.repliesFor_eq]
        have habout : (Entry.accepted r.nextClientId).client? = some r.nextClientId := rfl
        rw [repliesFor, if_pos habout]
        rfl
      · rw [executedFor_append, receivedFrom_append, hnew.executedFor_eq, hnew.receivedFrom_eq]
        rfl
      · rw [receivedFrom_append, hnew.receivedFrom_eq]
        rfl
    have hclients : ∀ j, (r.server.onNewConnection fd).clients j =
        update r.server.clients fd (some .accepted) j := by
      intro j
      unfold TcpServer.onNewConnection TcpServer.setClient TcpServer.addReadable
      rw [TcpServer.epollAddOrMod_eq]
      rfl
    refine ⟨h.reach.tail (.accept hown hfree), ?_, ?_, ?_, ?_, ?_, ?_⟩
    · rw [replay_append, ← h.session]
      rfl
    · intro j c hc
      rw [hclients] at hc
      dsimp only
      by_cases hj : j = fd
      · rw [hj, Function.update_self] at hc ⊢
        obtain rfl := Option.some.inj hc
        exact hstreams
      · rw [Function.update_of_ne hj] at hc ⊢
        have hlt := h.ids j c hc
        exact (h.streams j c hc).silent ((hother _).resolve_right (by omega))
    · intro e he id hid
      dsimp only
      rcases List.mem_append.mp he with he | he
      · have := h.known e he id hid
        omega
      · rw [List.mem_singleton.mp he] at hid
        have := Option.some.inj hid
        omega
    · intro j c hc
      rw [hclients] at hc
      dsimp only
      by_cases hj : j = fd
      · rw [hj, Function.update_self]
        omega
      · rw [Function.update_of_ne hj] at hc ⊢
        have := h.ids j c hc
        omega
    · intro j j' c c' hc hc' heq
      rw [hclients] at hc hc'
      dsimp only at heq
      by_cases hj : j = fd
      · by_cases hj' : j' = fd
        · rw [hj, hj']
        · rw [Function.update_of_ne hj'] at hc' heq
          rw [hj, Function.update_self] at heq
          have := h.ids j' c' hc'
          omega
      · rw [Function.update_of_ne hj] at hc heq
        by_cases hj' : j' = fd
        · rw [hj', Function.update_self] at heq
          have := h.ids j c hc
          omega
        · rw [Function.update_of_ne hj'] at hc' heq
          exact h.apart j j' c c' hc hc' heq
    · intro id
      rcases hother id with hsilent | rfl
      · exact (h.served id).silent hsilent
      · exact hstreams.served

theorem flushedBytes_append_of_flushed (c : Connection) (w : Writes) :
    c.flushedBytes w ++ (if c.hasPendingWrites then c.flushWriteBuffer w else c).unsent =
      c.unsent := by
  split_ifs with hpending
  · exact Connection.flushedBytes_append w
  · unfold Connection.flushedBytes Connection.flushLoopBytes
    rw [if_neg hpending]
    rfl

theorem clients_flushAfterDispatch_eq (server : TcpServer) (fd : ℕ) (c : Connection) (w : Writes)
    {c' : Connection} (h : (server.flushAfterDispatch fd c w).clients fd = some c') :
    c' = if c.hasPendingWrites then c.flushWriteBuffer w else c := by
  unfold TcpServer.flushAfterDispatch at h
  dsimp only at h
  generalize (if c.hasPendingWrites = true then c.flushWriteBuffer w else c) = flushed at h ⊢
  split_ifs at h
  all_goals first
    | rw [TcpServer.clients_closeConnection] at h; cases h
    | rw [TcpServer.clients_setClient] at h; exact (Option.some.inj h).symm

theorem clientStep_readable {c : Connection} (hwired : r.server.WiredAt fd)
    (hc : r.server.clients fd = some c) (hs : r.session = replay s log)
    (h : Streams s log (r.clientIds fd) c)
    (hrun : r.onClientReadable fd a = (log', some r')) : ClientStep s log fd r log' r' := by
  have hserver : (r.server.onClientReadable fd (r.readableEvent a)).2 = some r'.server := by
    rw [← server_onClientReadable, hrun]
    rfl
  have hsame := (TcpServer.onClientReadable_wired hwired hserver).2
  unfold onClientReadable at hrun
  rw [hc] at hrun
  dsimp only at hrun
  split_ifs at hrun with hn
  · -- the end of the stream, an error, or nothing to read
    obtain ⟨rfl, hr⟩ := Prod.mk.inj hrun
    obtain rfl := Option.some.inj hr
    refine ⟨rfl, rfl, ?_, rfl, hsame.clients, ?_, ?_⟩
    · intro e he
      rw [List.mem_singleton.mp he]
      rfl
    · intro c' hc'
      rw [TcpServer.clients_closeConnection] at hc'
      cases hc'
    · have hmute := replay_mute (e := .received (r.clientIds fd) a.reads.bytes) (fun _ => rfl)
        (r.clientIds fd) (replay s log) []
      constructor
      · rw [sentTo_append, repliesFor_append, hmute.1]
        exact (List.append_nil _).symm ▸ (List.append_nil _).symm ▸ h.served.sent
      · rw [executedFor_append, receivedFrom_append]
        refine List.IsPrefix.trans ?_ (prefix_frames_append _ _)
        exact (List.append_nil (executedFor (r.clientIds fd) log)).symm ▸ h.served.executed
  · -- the new bytes are dispatched
    generalize hdispatch : dispatch a.env (c.fillReadBuffer a.reads).2 r.session = result at hrun
    obtain ⟨steps, _ | ⟨c₂, s₂⟩⟩ := result
    · cases (Prod.mk.inj hrun).2
    obtain ⟨rfl, hr⟩ := Prod.mk.inj hrun
    obtain rfl := Option.some.inj hr
    obtain ⟨hframes, hview⟩ := dispatch_frames hdispatch
    obtain ⟨hs₂, hunsent⟩ := dispatchLoop_perform hdispatch
    rw [(Connection.fillReadBuffer_spec c a.reads).1, h.view] at hframes hview
    rw [Connection.unsent_fillReadBuffer] at hunsent
    have hmore := Framing.frames_append_rest RespParser.stable_parse RespParser.advances_parse
      (receivedFrom (r.clientIds fd) log) a.reads.bytes
    obtain ⟨hreplies, hreplay⟩ := @repliesFor_cycleLog (r.clientIds fd) a.env a.reads.bytes
      (c₂.flushedBytes a.writes) steps r.session
    have hflushed := flushedBytes_append_of_flushed c₂ a.writes
    set flushed := if c₂.hasPendingWrites then c₂.flushWriteBuffer a.writes else c₂ with hf
    have hflushedView : flushed.readView = c₂.readView := by
      rw [hf]
      split_ifs
      · exact (c₂.flushed_flushWriteBuffer a.writes).readView
      · rfl
    change ClientStep s log fd r (cycleLog (r.clientIds fd) a.env a.reads.bytes steps
      (c₂.flushedBytes a.writes)) _
    -- what the streams would be if the connection stayed open
    have hstreams : Streams s (log ++ cycleLog (r.clientIds fd) a.env a.reads.bytes steps
        (c₂.flushedBytes a.writes)) (r.clientIds fd) flushed := by
      constructor
      · rw [sentTo_append, repliesFor_append, sentTo_cycleLog, ← hs, hreplies, ← h.replies,
          List.append_assoc, List.append_assoc, hflushed, hunsent]
      · rw [executedFor_append, receivedFrom_append, executedFor_cycleLog, receivedFrom_cycleLog,
          hframes, h.executed, hmore]
      · rw [receivedFrom_append, receivedFrom_cycleLog, hflushedView, hview, hmore]
    refine ⟨rfl, rfl, client?_cycleLog, hs₂.trans hreplay.symm, hsame.clients, ?_, hstreams.served⟩
    intro c' hc'
    rw [clients_flushAfterDispatch_eq _ _ _ _ hc']
    exact hstreams

theorem clientStep_writable {c : Connection} (hwired : r.server.WiredAt fd)
    (hc : r.server.clients fd = some c) (h : Streams s log (r.clientIds fd) c) :
    ClientStep s log fd r (r.onClientWritable fd a).1 (r.onClientWritable fd a).2 := by
  have hsame := (TcpServer.onClientWritable_wired hwired a.drained).2
  have hlog : r.onClientWritable fd a = ([.sent (r.clientIds fd) (c.flushedBytes a.drained)],
      { r with server := r.server.onClientWritable fd a.drained }) := by
    unfold onClientWritable
    rw [hc]
  rw [hlog]
  have hmute := replay_mute (e := .sent (r.clientIds fd) (c.flushedBytes a.drained))
    (fun _ => rfl) (r.clientIds fd)
  have hsent : sentTo (r.clientIds fd) [.sent (r.clientIds fd) (c.flushedBytes a.drained)] =
      c.flushedBytes a.drained := by
    rw [sentTo, List.flatMap_singleton]
    exact if_pos rfl
  have hreceived : receivedFrom (r.clientIds fd)
      [.sent (r.clientIds fd) (c.flushedBytes a.drained)] = [] := rfl
  have hexecuted : executedFor (r.clientIds fd)
      [.sent (r.clientIds fd) (c.flushedBytes a.drained)] = [] := rfl
  have hstreams : Streams s (log ++ [.sent (r.clientIds fd) (c.flushedBytes a.drained)])
      (r.clientIds fd) (c.flushWriteBuffer a.drained) := by
    constructor
    · rw [sentTo_append, repliesFor_append, (hmute _ _).1, hsent, List.append_assoc,
        Connection.flushedBytes_append, h.replies]
      exact (List.append_nil _).symm
    · rw [executedFor_append, receivedFrom_append, hexecuted, hreceived, List.append_nil,
        List.append_nil, h.executed]
    · rw [receivedFrom_append, hreceived, List.append_nil,
        (c.flushed_flushWriteBuffer a.drained).readView, h.view]
  refine ⟨rfl, rfl, ?_, (hmute r.session []).2.symm, hsame.clients, ?_, hstreams.served⟩
  · intro e he
    rw [List.mem_singleton.mp he]
    rfl
  · intro c' hc'
    dsimp only at hc'
    unfold TcpServer.onClientWritable at hc'
    rw [hc] at hc'
    dsimp only at hc'
    have hc'' : c' = c.flushWriteBuffer a.drained := by
      split_ifs at hc'
      all_goals first
        | rw [TcpServer.clients_closeConnection] at hc'; cases hc'
        | rw [TcpServer.clients_setClient] at hc'; exact (Option.some.inj hc').symm
    rw [hc'']
    exact hstreams

theorem Sequential.agree (h : Sequential d s log r) : r.server.Agree d.own := h.reach.agree

theorem Sequential.unchanged (h : Sequential d s log r) : Sequential d s (log ++ []) r := by
  rwa [List.append_nil]

theorem Sequential.onSignalPipeReadable (h : Sequential d s log r) (a : KernelAnswers) :
    Sequential d s (log ++ (r.onSignalPipeReadable a).1) (r.onSignalPipeReadable a).2 := by
  have hnone : ∀ e ∈ ([] : List Entry), e.client? = none := fun _ he => by cases he
  unfold Reactor.onSignalPipeReadable
  split
  · exact h.unchanged
  · rename_i signal pipe _
    cases signal with
    | chld =>
        dsimp only
        split_ifs
        · exact h.background hnone rfl rfl rfl rfl
        · refine h.background (fun e he => ?_) rfl rfl rfl rfl
          rw [List.mem_singleton.mp he]
          rfl
    | _ => exact h.background hnone rfl rfl rfl rfl

theorem Sequential.quiet (h : Sequential d s log r) (hserver : r'.server = r.server)
    (hids : r'.clientIds = r.clientIds) (hnext : r'.nextClientId = r.nextClientId)
    (hsession : r'.session = r.session) : Sequential d s log r' := by
  rw [← List.append_nil log]
  exact h.background (fun _ he => by cases he) hserver hids hnext hsession

theorem Sequential.raise (h : Sequential d s log r) (signal : Signal) :
    Sequential d s log (r.raise d signal) := by
  unfold Reactor.raise
  split_ifs
  · exact h.quiet rfl rfl rfl rfl
  · exact h

theorem Sequential.childExits (h : Sequential d s log r) (ok : Bool) :
    Sequential d s log (r.childExits d ok) := by
  unfold Reactor.childExits
  split
  · split_ifs
    · exact h
    · have hexited : Sequential d s log { r with exited := some ok } := h.quiet rfl rfl rfl rfl
      exact hexited.raise .chld
  · exact h

theorem Sequential.childFinishes (h : Sequential d s log r) (clock : ℕ → MillisecondTimestamp) :
    Sequential d s (log ++ (r.childFinishes clock).1) (r.childFinishes clock).2 := by
  unfold Reactor.childFinishes
  split
  · refine h.background (fun e he => ?_) rfl rfl rfl rfl
    rw [List.mem_singleton.mp he]
    rfl
  · exact h.unchanged

theorem Sequential.onClientReadable (h : Sequential d s log r) (hown : fd ∉ d.own)
    (hrun : r.onClientReadable fd a = (log', some r')) : Sequential d s (log ++ log') r' := by
  cases hc : r.server.clients fd with
  | none =>
      unfold Reactor.onClientReadable at hrun
      rw [hc] at hrun
      obtain ⟨rfl, hr⟩ := Prod.mk.inj hrun
      obtain rfl := Option.some.inj hr
      exact h.unchanged
  | some c =>
      have hwired := h.agree.wired fd hown
      obtain ⟨writable, hh, -⟩ := hwired.of_connected hc
      refine h.client hc (clientStep_readable hwired hc h.session (h.streams fd c hc) hrun) ?_
      have hserver : (r.server.onClientReadable fd (r.readableEvent a)).2 = some r'.server := by
        rw [← server_onClientReadable, hrun]
        rfl
      have hready : r.server.dispatchReady fd ⟨true, false, false⟩ (r.readableEvent a) a.drained =
          some r'.server := by
        rw [TcpServer.dispatchReady, if_pos rfl, TcpServer.callReadable, hh]
        exact hserver
      exact h.reach.tail (.ready hown hready)

theorem Sequential.callWritable (h : Sequential d s log r) (fd : ℕ) (asked : Bool)
    (a : KernelAnswers) :
    Sequential d s (log ++ (r.callWritable fd asked a).1) (r.callWritable fd asked a).2 := by
  unfold Reactor.callWritable
  split
  · exact h.unchanged
  · rename_i handlers hh
    split_ifs with hasked
    · cases hc : r.server.clients fd with
      | none =>
          unfold Reactor.onClientWritable
          rw [hc]
          exact h.unchanged
      | some c =>
          have hown : fd ∉ d.own := by
            intro hown
            rw [(h.agree.listening fd hown).1] at hc
            cases hc
          have hwired := h.agree.wired fd hown
          refine h.client hc (clientStep_writable hwired hc (h.streams fd c hc)) ?_
          have hcall : r.server.callReadable fd false (r.readableEvent a) = some r.server := by
            rw [TcpServer.callReadable, hh]
            rfl
          have hready : r.server.dispatchReady fd ⟨false, false, true⟩ (r.readableEvent a)
              a.drained = some (r.server.onClientWritable fd a.drained) := by
            rw [TcpServer.dispatchReady, if_neg Bool.false_ne_true, hcall, Option.map_some,
              TcpServer.callWritable, hh]
            rw [Bool.and_eq_true] at hasked
            exact congrArg some (if_pos hasked.2)
          rw [server_onClientWritable]
          exact h.reach.tail (.ready hown hready)
    · exact h.unchanged

theorem Sequential.client_onClientReadable (h : Sequential d s log r) (hown : fd ∉ d.own)
    (hrun : r.onClientReadable fd a = (log', some r')) :
    r' = r ∨ ∃ c, r.server.clients fd = some c ∧ ClientStep s log fd r log' r' := by
  cases hc : r.server.clients fd with
  | none =>
      unfold Reactor.onClientReadable at hrun
      rw [hc] at hrun
      exact .inl (Option.some.inj (Prod.mk.inj hrun).2).symm
  | some c =>
      exact .inr ⟨c, rfl, clientStep_readable (h.agree.wired fd hown) hc h.session
        (h.streams fd c hc) hrun⟩

theorem Sequential.client_callWritable (h : Sequential d s log r) (fd : ℕ) (asked : Bool)
    (a : KernelAnswers) :
    (r.callWritable fd asked a).2 = r ∨ ∃ c, r.server.clients fd = some c ∧
      ClientStep s log fd r (r.callWritable fd asked a).1 (r.callWritable fd asked a).2 := by
  unfold Reactor.callWritable
  split
  · exact .inl rfl
  · split_ifs
    · cases hc : r.server.clients fd with
      | none =>
          unfold Reactor.onClientWritable
          rw [hc]
          exact .inl rfl
      | some c =>
          have hown : fd ∉ d.own := by
            intro hown
            rw [(h.agree.listening fd hown).1] at hc
            cases hc
          exact .inr ⟨c, rfl, clientStep_writable (h.agree.wired fd hown) hc (h.streams fd c hc)⟩
    · exact .inl rfl

theorem Sequential.maybeRunTimer (h : Sequential d s log r) (interval : ℤ) (tick : TimerTick) :
    Sequential d s (log ++ (r.maybeRunTimer interval tick).1)
      (r.maybeRunTimer interval tick).2 := by
  unfold Reactor.maybeRunTimer
  split_ifs
  · exact h.unchanged
  · refine h.background (fun e he => ?_) rfl rfl rfl rfl
    rw [List.mem_singleton.mp he]
    rfl
  · exact h.unchanged

theorem invariant_sequential (d : Descriptors) (interval : ℤ) (s : Session) :
    Invariant d interval (Sequential d s) where
  accept fd h := h.accept fd
  signal a h := h.onSignalPipeReadable a
  readable hown h hrun := h.onClientReadable hown hrun
  writable fd asked a h := h.callWritable fd asked a
  raise signal h := h.raise signal
  childExits ok h := h.childExits ok
  childFinishes clock h := h.childFinishes clock
  timer tick h := h.maybeRunTimer interval tick

/-- In every run of the event loop the server's session is what one sequence of commands, crons and
reaped children makes of the first one, and every open connection has been sent or is about to be
sent exactly the replies to its frames in that sequence, which are all the complete frames of the
bytes received from it. No client, not even one that is gone, is sent anything else. -/
theorem server_is_sequential {interval monotonic : ℤ} {wakes : List Wake}
    (hrun : Reactor.run d interval wakes (started d s monotonic) = (log, some r)) :
    r.session = replay s log ∧
      (∀ fd c, r.server.clients fd = some c → Streams s log (r.clientIds fd) c) ∧
        (∀ id, Served s log id) ∧
        ∀ fd c, r.server.clients fd = some c → c.hasPendingWrites = true →
          ∃ interest, r.server.interest fd = some interest ∧ interest.epollOut = true := by
  have h := (invariant_sequential d interval s).run [] (sequential_started d s monotonic) hrun
  rw [List.nil_append] at h
  refine ⟨h.session, h.streams, h.served, fun fd c hc hpending => ?_⟩
  have hown : fd ∉ d.own := by
    intro hown
    rw [(h.agree.listening fd hown).1] at hc
    cases hc
  obtain ⟨writable, -, hi, hw⟩ := (h.agree.wired fd hown).of_connected hc
  exact ⟨_, hi, hw hpending⟩

theorem Sequential.server_finish (h : Sequential d s log r) (hne : d.listen ≠ d.signal)
    (w : World) : (r.finish d w).server = TcpServer.listening {d.signal} := by
  have hentries : ∀ fd, (if fd = d.listen ∨ (r.server.clients fd).isSome then none
        else r.server.handlers fd) =
          (if fd ∈ ({d.signal} : Set ℕ) then some ⟨true, false⟩ else none) ∧
      (if fd = d.listen ∨ (r.server.clients fd).isSome then none
        else r.server.interest fd) =
          (if fd ∈ ({d.signal} : Set ℕ) then some ⟨true, false⟩ else none) := by
    intro fd
    by_cases hlisten : fd = d.listen
    · have hno : fd ∉ ({d.signal} : Set ℕ) := hlisten ▸ hne
      have hgone : fd = d.listen ∨ (r.server.clients fd).isSome := .inl hlisten
      rw [if_pos hgone, if_pos hgone, if_neg hno, if_neg hno]
      exact ⟨rfl, rfl⟩
    by_cases hsignal : fd = d.signal
    · obtain ⟨hclient, hhandlers, hinterest⟩ := h.agree.listening fd (.inr hsignal)
      have hno : ¬ (fd = d.listen ∨ (r.server.clients fd).isSome) := by
        rw [hclient]
        simp [hlisten]
      have hyes : fd ∈ ({d.signal} : Set ℕ) := hsignal
      rw [if_neg hno, if_neg hno, if_pos hyes, if_pos hyes, hhandlers, hinterest]
      exact ⟨rfl, rfl⟩
    · have hno : fd ∉ ({d.signal} : Set ℕ) := hsignal
      rw [if_neg hno, if_neg hno]
      have hown : fd ∉ d.own := fun hown => hown.elim hlisten hsignal
      cases hc : r.server.clients fd with
      | some c => exact ⟨if_pos (.inr rfl), if_pos (.inr rfl)⟩
      | none =>
          have hwired := h.agree.wired fd hown
          have hfree := hwired.free hc
          have hinterest := hwired.interest_eq
          rw [hfree] at hinterest ⊢
          rw [hinterest]
          exact ⟨ite_self _, ite_self _⟩
  unfold finish TcpServer.listening
  rw [TcpServer.mk.injEq]
  exact ⟨rfl, funext fun fd => (hentries fd).1, funext fun fd => (hentries fd).2⟩

/-- Two clients, the second of which reads what the first has written. -/
def twoClients : List Wake :=
  let chunk := fun (words : List Bytes) (h : (commandFrame words).wire ≠ [])
    (hlen : (commandFrame words).wire.length ≤ constants.readBufferSize) =>
      (⟨(commandFrame words).wire, h, hlen⟩ : Chunk)
  let answers := fun (accepted : List ℕ) (chunks : List Chunk) =>
    (⟨accepted, 0, ⟨chunks, .wouldBlock⟩, fun _ => .still 10 0, ⟨[100], .wouldBlock⟩,
      ⟨[], .wouldBlock⟩⟩ : KernelAnswers)
  let input : EventMask := ⟨false, true, false⟩
  let tick : TimerTick := ⟨200, 10, ⟨0, 0⟩, ⟨0, 0⟩, ⟨0, 0⟩⟩
  [.ready [.ready ⟨3, input, answers [5, 6] []⟩] tick,
    .ready [.ready ⟨5, input, answers []
        [chunk [ascii "SET", ascii "k", ascii "v"] (by decide) (by decide)]⟩,
      .ready ⟨6, input, answers [] [chunk [ascii "GET", ascii "k"] (by decide) (by decide)]⟩] tick]

theorem server_is_sequential_two_clients :
    ∃ log r, Reactor.run ⟨3, 4, 65536⟩ 100 twoClients (started ⟨3, 4, 65536⟩ freshSession 0) =
      (log, some r) ∧ r.session = replay freshSession log ∧
        sentTo 2 log <+: repliesFor 2 freshSession log := by
  have hsome : (Reactor.run ⟨3, 4, 65536⟩ 100 twoClients
      (started ⟨3, 4, 65536⟩ freshSession 0)).2.isSome := by decide +kernel
  obtain ⟨⟨log, result⟩, hrun⟩ : ∃ p, Reactor.run ⟨3, 4, 65536⟩ 100 twoClients
      (started ⟨3, 4, 65536⟩ freshSession 0) = p := ⟨_, rfl⟩
  rw [hrun] at hsome
  obtain ⟨r, rfl⟩ := Option.isSome_iff_exists.mp hsome
  have h := server_is_sequential hrun
  exact ⟨log, r, hrun, h.1, (h.2.2.1 2).sent⟩

end Reactor

end Keva
