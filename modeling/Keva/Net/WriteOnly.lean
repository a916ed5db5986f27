import Keva.Net.Closing

/-!
# Connections in state `WriteOnly`

QUIT and malformed input put a connection into the state `WriteOnly`. Neither `dispatch` nor the
handlers of the server look at that state: the frames behind a QUIT are executed all the same, and a
connection stays when its last reply has been sent. `HonoursWriteOnly` is what the state is for, and
`KeepsWriteOnly` says of one event when it is not violated.
-/

namespace Keva

open Framing (Tail frames)

def malformed : Tail ParseFault UInt8 → Bool
  | .failed .protocolError _ => true
  | _ => false

/-- The frames of a buffer and what is left of it give no work to a connection that is, or has
become, `WriteOnly`. -/
structure StopsInTime (state : ConnectionState) (frames : List RespValue)
    (tail : Tail ParseFault UInt8) : Prop where
  idle : state = .writeOnly → frames = [] ∧ malformed tail = false
  behind : frames.Pairwise fun frame _ => runsQuit frame = false
  rejected : malformed tail = true → ∀ frame ∈ frames, runsQuit frame = false

/-- Dispatch leaves the connection in state `WriteOnly`. -/
def EndsWriteOnly (state : ConnectionState) (frames : List RespValue)
    (tail : Tail ParseFault UInt8) : Prop :=
  state = .writeOnly ∨ (∃ frame ∈ frames, runsQuit frame = true) ∨ malformed tail = true

/-- The bytes that dispatch appends to the write buffer. -/
def dispatchReplies (env : ℕ → World) (s : Session) (frames : List RespValue)
    (tail : Tail ParseFault UInt8) : Bytes :=
  repliesTo env s frames ++
    if malformed tail then RespEncoder.error (ascii "Protocol error: invalid RESP2 format") else []

theorem stateAfter_eq_writeOnly {state : ConnectionState} {frame : RespValue} :
    stateAfter state frame = .writeOnly ↔ state = .writeOnly ∨ runsQuit frame = true := by
  unfold stateAfter
  by_cases hq : runsQuit frame = true
  · simp [hq]
  · simp [hq]

theorem foldl_stateAfter_eq_writeOnly {state : ConnectionState} {frames : List RespValue} :
    frames.foldl stateAfter state = .writeOnly ↔
      state = .writeOnly ∨ ∃ frame ∈ frames, runsQuit frame = true := by
  induction frames generalizing state with
  | nil => simp
  | cons frame frames ih =>
      rw [List.foldl_cons, ih, stateAfter_eq_writeOnly, List.exists_mem_cons_iff, or_assoc]

theorem executionSteps_honour_iff {state : ConnectionState} {frames : List RespValue} :
    (∀ step ∈ executionSteps state frames, step.state ≠ .writeOnly) ↔
      (state = .writeOnly → frames = []) ∧
        frames.Pairwise fun frame _ => runsQuit frame = false := by
  induction frames generalizing state with
  | nil => simp [executionSteps]
  | cons frame frames ih =>
      rw [executionSteps, List.forall_mem_cons, ih, stateAfter_eq_writeOnly,
        List.pairwise_cons]
      constructor
      · rintro ⟨hstate, hnil, hpair⟩
        refine ⟨fun h => absurd h hstate, fun frame' hframe' => ?_, hpair⟩
        by_contra hq
        rw [hnil (.inr (by simpa using hq))] at hframe'
        cases hframe'
      · rintro ⟨hstate, hbehind, hpair⟩
        refine ⟨fun h => List.cons_ne_nil _ _ (hstate h), ?_, hpair⟩
        rintro (h | hq)
        · exact absurd (hstate h) (List.cons_ne_nil _ _)
        · refine List.eq_nil_iff_forall_not_mem.mpr fun frame' hframe' => ?_
          rw [hbehind frame' hframe'] at hq
          cases hq

theorem steps_honour_iff {state : ConnectionState} {frames : List RespValue}
    {tail : Tail ParseFault UInt8} {c : Connection} (hc : c.state = frames.foldl stateAfter state) :
    (∀ step ∈ executionSteps state frames ++ (dispatchTail tail c).1, step.state ≠ .writeOnly) ↔
      StopsInTime state frames tail := by
  have hlast : (∀ step ∈ (dispatchTail tail c).1, step.state ≠ .writeOnly) ↔
      (malformed tail = true → c.state ≠ .writeOnly) := by
    unfold dispatchTail malformed
    split <;> simp_all
  rw [List.forall_mem_append, executionSteps_honour_iff, hlast, hc, Ne,
    foldl_stateAfter_eq_writeOnly]
  constructor
  · rintro ⟨⟨hidle, hbehind⟩, hrejected⟩
    refine ⟨fun h => ⟨hidle h, ?_⟩, hbehind, fun hm frame hframe => ?_⟩
    · by_contra hm
      exact hrejected (by simpa using hm) (.inl h)
    · by_contra hq
      exact hrejected hm (.inr ⟨frame, hframe, by simpa using hq⟩)
  · rintro ⟨hidle, hbehind, hrejected⟩
    refine ⟨⟨fun h => (hidle h).1, hbehind⟩, fun hm => ?_⟩
    rintro (h | ⟨frame, hframe, hq⟩)
    · rw [(hidle h).2] at hm
      cases hm
    · rw [hrejected hm frame hframe] at hq
      cases hq

namespace TcpServer

/-- A connection in state `WriteOnly` has something left to send. -/
def Waits (fd : ℕ) (server : TcpServer) : Prop :=
  ∀ c, server.clients fd = some c → c.state = .writeOnly → c.hasPendingWrites = true

/-- In a run: nothing is dispatched in state `WriteOnly`, and a connection in that state is gone
after the first event that leaves it with nothing to send. -/
def HonoursWriteOnly (fd : ℕ) (events : List ClientEvent) (server : TcpServer) : Prop :=
  ∀ before after, events = before ++ after →
    (∀ step ∈ (serve fd before server).1, step.state ≠ .writeOnly) ∧
      ∀ server', (serve fd before server).2 = some server' → server'.Waits fd

/-- What one event must not do. In the readable case the process may end in `dispatch`, and then
there is no connection to be closed. -/
def KeepsWriteOnly (fd : ℕ) (server : TcpServer) (event : ClientEvent) : Prop :=
  ∀ c, server.clients fd = some c →
    match event with
    | .writable w => c.state = .writeOnly → w.capacity < c.pending
    | .readable e => e.reads.Delivers →
        ∀ fs tail, frames RespParser.parse (c.readView ++ e.reads.bytes) = (fs, tail) →
          StopsInTime c.state fs tail ∧
            ((∀ rest, tail ≠ .failed .lengthError rest) → EndsWriteOnly c.state fs tail →
              e.writes.capacity < c.pending +
                (dispatchReplies e.env { e.session with state := c.state } fs tail).length)

variable {server : TcpServer} {fd : ℕ} {c : Connection}

theorem keepsWriteOnly_of_none (server : TcpServer) (event : ClientEvent)
    (h : server.clients fd = none) : KeepsWriteOnly fd server event := by
  intro c hc
  rw [h] at hc
  cases hc

theorem waits_of_none (h : server.clients fd = none) : server.Waits fd := by
  intro c hc
  rw [h] at hc
  cases hc

theorem waits_iff_of_flushed {c' : Connection} {w : Writes} (h : c.Flushed w c')
    (hclients : server.clients fd = if c'.isClosed then none else some c') :
    server.Waits fd ↔ (c.state = .writeOnly → w.capacity < c.pending) := by
  constructor
  · intro hwaits hstate
    by_contra hle
    have hstate' : c'.state = .writeOnly := by
      rw [h.state, if_neg (fun hand => hle hand.1), hstate]
    have hopen : c'.isClosed ≠ true := by
      unfold Connection.isClosed
      rw [hstate']
      decide
    rw [if_neg hopen] at hclients
    have hpending := Connection.hasPendingWrites_iff.mp (hwaits c' hclients hstate')
    rw [h.pending] at hpending
    omega
  · intro hcapacity c₀ hc₀ hstate₀
    rw [hclients] at hc₀
    split_ifs at hc₀
    obtain rfl := Option.some.inj hc₀
    rw [h.state] at hstate₀
    split_ifs at hstate₀
    have hlt := hcapacity hstate₀
    rw [Connection.hasPendingWrites_iff, h.pending]
    omega

theorem dispatchTail_spec {c₀ c : Connection} {env : ℕ → World} {s : Session}
    {fs : List RespValue} {tail : Tail ParseFault UInt8}
    (h : c₀.Executed env s fs tail.rest c) (htail : ∀ rest, tail ≠ .failed .lengthError rest) :
    ∃ c', (dispatchTail tail c).2 = some c' ∧
      (c'.state = .writeOnly ↔ EndsWriteOnly c₀.state fs tail) ∧
      c'.pending = c₀.pending +
        (dispatchReplies env { s with state := c₀.state } fs tail).length := by
  have hpending : c.pending =
      c₀.pending + (repliesTo env { s with state := c₀.state } fs).length := by
    have hle := c₀.writePos_le
    unfold Connection.pending
    rw [h.writeBuf, h.writePos, List.length_append]
    omega
  unfold EndsWriteOnly dispatchReplies
  rw [List.length_append, ← Nat.add_assoc, ← hpending, ← or_assoc,
    ← foldl_stateAfter_eq_writeOnly, ← h.state]
  cases tail with
  | waiting rest => exact ⟨c, rfl, by simp [malformed], rfl⟩
  | failed e rest =>
      cases e with
      | protocolError =>
          refine ⟨c.reject, rfl, by simp [malformed, Connection.reject, Connection.setState], ?_⟩
          exact Connection.pending_appendResponse _
      | lengthError => exact absurd rfl (htail rest)

theorem readable_honours_iff {e : ReadableEvent} (hc : server.clients fd = some c)
    (he : e.reads.Delivers) {fs : List RespValue} {tail : Tail ParseFault UInt8}
    (hframes : frames RespParser.parse (c.readView ++ e.reads.bytes) = (fs, tail)) :
    ((∀ step ∈ (server.onClientReadable fd e).1, step.state ≠ .writeOnly) ∧
      ∀ server', (server.onClientReadable fd e).2 = some server' → server'.Waits fd) ↔
      StopsInTime c.state fs tail ∧
        ((∀ rest, tail ≠ .failed .lengthError rest) → EndsWriteOnly c.state fs tail →
          e.writes.capacity < c.pending +
            (dispatchReplies e.env { e.session with state := c.state } fs tail).length) := by
  obtain ⟨hview, hblock, -⟩ := c.fillReadBuffer_spec e.reads
  obtain ⟨-, hstate⟩ := hblock he.ending
  obtain ⟨c₁, s₁, hexec, hdispatch⟩ := dispatch_spec e.env (c.fillReadBuffer e.reads).2 e.session
  rw [hview, hframes] at hexec hdispatch
  rw [onClientReadable_of_delivers hc he, hdispatch]
  dsimp only
  rw [hstate, steps_honour_iff (hexec.state.trans (by rw [hstate]))]
  refine and_congr_right fun _ => ?_
  by_cases htail : ∀ rest, tail ≠ .failed .lengthError rest
  · obtain ⟨c', hc', hends, hpending⟩ := dispatchTail_spec hexec htail
    rw [hstate] at hends hpending
    rw [Connection.pending_fillReadBuffer] at hpending
    obtain ⟨c'', hflushed, hclients⟩ := clients_flushAfterDispatch server fd c' e.writes
    rw [hc', ← hpending, ← hends, ← waits_iff_of_flushed hflushed hclients]
    exact ⟨fun h _ => h _ rfl, fun h server' hs => Option.some.inj hs ▸ h htail⟩
  · simp only [not_forall, not_not] at htail
    obtain ⟨rest, rfl⟩ := htail
    exact ⟨fun _ h => absurd rfl (h rest), fun _ server' hs => by cases hs⟩

/-- One event dispatches nothing in state `WriteOnly`, and leaves no such connection without
something to send, exactly when it does what it must. -/
theorem event_honours_iff (server : TcpServer) (event : ClientEvent) :
    ((∀ step ∈ (server.onClientEvent fd event).1, step.state ≠ .writeOnly) ∧
      ∀ server', (server.onClientEvent fd event).2 = some server' → server'.Waits fd) ↔
      KeepsWriteOnly fd server event := by
  cases hc : server.clients fd with
  | none =>
      rw [onClientEvent_of_none hc]
      refine ⟨fun _ => keepsWriteOnly_of_none server event hc, fun _ => ⟨by simp, ?_⟩⟩
      intro server' hs
      rw [← Option.some.inj hs]
      exact waits_of_none hc
  | some c =>
      unfold KeepsWriteOnly
      rw [hc]
      cases event with
      | writable w =>
          obtain ⟨c', hflushed, hclients⟩ := clients_onClientWritable hc w
          have hiff := waits_iff_of_flushed hflushed hclients
          constructor
          · rintro ⟨-, hwaits⟩ c₀ hc₀
            rw [← Option.some.inj hc₀]
            exact hiff.mp (hwaits _ rfl)
          · intro h
            refine ⟨by simp [onClientEvent], fun server' hs => ?_⟩
            rw [← Option.some.inj hs]
            exact hiff.mpr (h c rfl)
      | readable e =>
          by_cases he : e.reads.Delivers
          · constructor
            · intro h c₀ hc₀ _ fs tail hframes
              rw [← Option.some.inj hc₀] at hframes ⊢
              exact (readable_honours_iff hc he hframes).mp h
            · intro h
              exact (readable_honours_iff hc he rfl).mpr (h c rfl he _ _ rfl)
          · rw [onClientEvent, onClientReadable_of_not_delivers hc he]
            refine ⟨fun _ c₀ _ h => absurd h he, fun _ => ⟨by simp, fun server' hs => ?_⟩⟩
            rw [← Option.some.inj hs]
            exact waits_of_none (clients_closeConnection server fd)

theorem honoursWriteOnly_cons {event : ClientEvent} {events : List ClientEvent}
    (hwaits : server.Waits fd) :
    HonoursWriteOnly fd (event :: events) server ↔
      ((∀ step ∈ (server.onClientEvent fd event).1, step.state ≠ .writeOnly) ∧
        ∀ server', (server.onClientEvent fd event).2 = some server' → server'.Waits fd) ∧
      ∀ server', (server.onClientEvent fd event).2 = some server' →
        HonoursWriteOnly fd events server' := by
  constructor
  · intro h
    refine ⟨?_, fun server' hs before after heq => ?_⟩
    · obtain ⟨hsteps, hwaits'⟩ := h [event] events rfl
      cases hs : (server.onClientEvent fd event).2 with
      | none =>
          rw [serve_cons_of_none hs] at hsteps
          exact ⟨hsteps, fun server' hs' => by cases hs'⟩
      | some server₁ =>
          rw [serve_cons hs] at hsteps hwaits'
          refine ⟨fun step hstep => hsteps step (List.mem_append_left _ hstep), ?_⟩
          intro server' hs'
          exact hwaits' server' hs'
    · obtain ⟨hsteps, hwaits'⟩ := h (event :: before) after (by rw [heq]; rfl)
      rw [serve_cons hs] at hsteps hwaits'
      exact ⟨fun step hstep => hsteps step (List.mem_append_right _ hstep), hwaits'⟩
  · rintro ⟨⟨hsteps, -⟩, hrest⟩ before after heq
    cases before with
    | nil =>
        refine ⟨by simp [serve], fun server' hs => ?_⟩
        rw [← Option.some.inj hs]
        exact hwaits
    | cons e before =>
        obtain ⟨rfl, rfl⟩ := List.cons.inj heq
        cases hs : (server.onClientEvent fd event).2 with
        | none =>
            rw [serve_cons_of_none hs]
            exact ⟨hsteps, fun server' hs' => by cases hs'⟩
        | some server' =>
            obtain ⟨hsteps', hwaits'⟩ := hrest server' hs before after rfl
            rw [serve_cons hs]
            exact ⟨List.forall_mem_append.mpr ⟨hsteps, hsteps'⟩, hwaits'⟩

theorem honoursWriteOnly_iff_of_waits (hwaits : server.Waits fd) (events : List ClientEvent) :
    HonoursWriteOnly fd events server ↔ Along fd (KeepsWriteOnly fd) events server := by
  induction events generalizing server with
  | nil =>
      refine ⟨fun _ => trivial, fun _ before after heq => ?_⟩
      obtain ⟨rfl, -⟩ := List.append_eq_nil_iff.mp heq.symm
      refine ⟨by simp [serve], fun server' hs => ?_⟩
      rw [← Option.some.inj hs]
      exact hwaits
  | cons event events ih =>
      rw [honoursWriteOnly_cons hwaits, Along, event_honours_iff]
      refine and_congr_right fun hkeeps => forall₂_congr fun server' hs => ih ?_
      exact ((event_honours_iff server event).mpr hkeeps).2 server' hs

/-- A connection honours `WriteOnly` in a run exactly when every event of the run does what it
must. -/
theorem honoursWriteOnly_iff (hopen : server.clients fd = some .accepted)
    (events : List ClientEvent) :
    HonoursWriteOnly fd events server ↔ Along fd (KeepsWriteOnly fd) events server := by
  apply honoursWriteOnly_iff_of_waits
  intro c hc hstate
  rw [← Option.some.inj (hopen.symm.trans hc)] at hstate
  cases hstate

def quitCommand : ClientCommand where
  args := [ascii "QUIT"]
  nonempty := by decide
  count_le := by decide
  length_le := by decide

/-- The kernel takes two bytes of the reply to a QUIT, and one more later. -/
def slowQuit : List ClientEvent :=
  [.readable { pingEvent .wouldBlock with
      reads := ⟨[⟨quitCommand.frame.wire, by decide +kernel, by decide +kernel⟩], .wouldBlock⟩
      writes := ⟨[1], .wouldBlock⟩ },
    .writable ⟨[0], .wouldBlock⟩]

theorem honoursWriteOnly_slowQuit :
    HonoursWriteOnly 5 slowQuit oneClient ∧
      ((serve 5 slowQuit oneClient).2.bind fun server => server.clients 5).map
        (fun c => (c.state, c.pending)) = some (.writeOnly, 2) := by
  have hopen : oneClient.clients 5 = some .accepted := clients_setClient _ _ _
  have hframes := frames_commands [quitCommand]
  rw [List.flatMap_singleton] at hframes
  have hpending : (serve 5 (slowQuit.take 1) oneClient).2.all fun server =>
      (server.clients 5).all fun c => c.pending = 3 := by decide +kernel
  refine ⟨(honoursWriteOnly_iff hopen slowQuit).mpr ⟨?_, fun server hs => ⟨?_, fun _ _ => trivial⟩⟩,
    by decide +kernel⟩
  · rintro c hc - fs tail hfs
    obtain rfl := Option.some.inj (hopen.symm.trans hc)
    obtain ⟨rfl, rfl⟩ := Prod.mk.inj (hfs.symm.trans hframes)
    exact ⟨⟨nofun, List.pairwise_singleton _ _, nofun⟩, fun _ _ => by decide +kernel⟩
  · rintro c hc -
    have hserve : (serve 5 (slowQuit.take 1) oneClient).2 = some server :=
      congrArg Prod.snd (serve_cons hs [])
    rw [hserve, Option.all_some, hc, Option.all_some, decide_eq_true_eq] at hpending
    rw [hpending]
    decide

def quitPingChunk : Chunk where
  bytes := (RespValue.array [.bulkString (ascii "QUIT")]).wire ++ pingCommand.frame.wire
  nonempty := by decide +kernel
  length_le := by decide +kernel

/-- A QUIT with a PING behind it; the kernel takes what is written in one piece. -/
def quitPingEvent : ReadableEvent :=
  { pingEvent .wouldBlock with
    reads := ⟨[quitPingChunk], .wouldBlock⟩
    writes := ⟨[99], .wouldBlock⟩ }

/-- The PING behind the QUIT is executed in state `WriteOnly`, and the connection stays when both
replies have been sent. -/
theorem ping_behind_quit_is_executed :
    let events := [ClientEvent.readable quitPingEvent]
    (serve 5 events oneClient).1.map DispatchStep.state = [.connected, .writeOnly] ∧
      ((serve 5 events oneClient).2.bind fun server => server.clients 5).map
        (fun c => (c.state, c.hasPendingWrites)) = some (.writeOnly, false) ∧
      ¬ HonoursWriteOnly 5 events oneClient := by
  intro events
  have hstates : (serve 5 events oneClient).1.map DispatchStep.state =
      [.connected, .writeOnly] := by decide +kernel
  refine ⟨hstates, by decide +kernel, fun h => ?_⟩
  have hmem : ConnectionState.writeOnly ∈
      (serve 5 events oneClient).1.map DispatchStep.state := by
    rw [hstates]
    decide
  obtain ⟨step, hstep, heq⟩ := List.mem_map.mp hmem
  exact (h events [] (List.append_nil _).symm).1 step hstep heq

end TcpServer

end Keva
