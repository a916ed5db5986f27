import Keva.Net.Stream

/-!
# Commands of a client that closes

When the reads of one event end with an end of file or an error, the connection is closed without a
dispatch, whatever the event has read before. The commands of a stream are all executed exactly when
no such event completes one.
-/

namespace Keva

open Framing (Tail frames)

def ClientEvent.bytes : ClientEvent → Bytes
  | .readable e => e.reads.bytes
  | .writable _ => []

namespace TcpServer

/-- The bytes that `fill_read_buffer` reads for `fd` in a run. -/
def bytesRead (fd : ℕ) : List ClientEvent → TcpServer → Bytes
  | [], _ => []
  | e :: events, server =>
      if (server.clients fd).isNone then []
      else
        e.bytes ++
          match (server.onClientEvent fd e).2 with
          | some server => bytesRead fd events server
          | none => []

/-- If the reads of the event end with an end of file or an error, then what is buffered and read
holds no complete frame. -/
def KeepsCommands (fd : ℕ) (server : TcpServer) (event : ClientEvent) : Prop :=
  ∀ c e, server.clients fd = some c → event = .readable e → e.reads.ending ≠ .wouldBlock →
    (frames RespParser.parse (c.readView ++ e.reads.bytes)).1 = []

variable {server : TcpServer} {fd : ℕ} {c : Connection}

theorem bytesRead_of_none (h : server.clients fd = none) (events : List ClientEvent) :
    bytesRead fd events server = [] := by
  cases events with
  | nil => rfl
  | cons e events => rw [bytesRead, h, Option.isNone_none, if_pos rfl]

theorem exists_bytesRead_cons (hc : server.clients fd = some c) (event : ClientEvent)
    (events : List ClientEvent) :
    ∃ t, bytesRead fd (event :: events) server = event.bytes ++ t := by
  rw [bytesRead, hc, Option.isNone_some, if_neg Bool.false_ne_true]
  exact ⟨_, rfl⟩

theorem bytesRead_cons {server' : TcpServer} {event : ClientEvent}
    (hc : server.clients fd = some c)
    (h : (server.onClientEvent fd event).2 = some server') (events : List ClientEvent) :
    bytesRead fd (event :: events) server = event.bytes ++ bytesRead fd events server' := by
  rw [bytesRead, hc, Option.isNone_some, if_neg Bool.false_ne_true, h]

theorem keepsCommands_of_none (server : TcpServer) (event : ClientEvent)
    (h : server.clients fd = none) : KeepsCommands fd server event := by
  intro c e hc
  rw [h] at hc
  cases hc

theorem onClientEvent_cases (hc : server.clients fd = some c)
    (hidle : frames RespParser.parse c.readView = ([], .waiting c.readView))
    {event : ClientEvent} {rest : Bytes}
    (hwait : (frames RespParser.parse (c.readView ++ event.bytes)).2 = .waiting rest) :
    ∃ server', (server.onClientEvent fd event).2 = some server' ∧
      ((KeepsCommands fd server event ∧
          (server.onClientEvent fd event).1.filterMap DispatchStep.frame? =
            (frames RespParser.parse (c.readView ++ event.bytes)).1 ∧
          ∀ c', server'.clients fd = some c' → c'.readView = rest) ∨
        (¬ KeepsCommands fd server event ∧ (server.onClientEvent fd event).1 = [] ∧
          (frames RespParser.parse (c.readView ++ event.bytes)).1 ≠ [] ∧
          server'.clients fd = none)) := by
  cases event with
  | writable w =>
      obtain ⟨c', hflushed, hclients⟩ := clients_onClientWritable hc w
      change (frames RespParser.parse (c.readView ++ [])).2 = _ at hwait
      refine ⟨server.onClientWritable fd w, rfl, .inl ⟨fun _ _ _ h => (by cases h), ?_, ?_⟩⟩
      · change [] = (frames RespParser.parse (c.readView ++ [])).1
        rw [List.append_nil, hidle]
      · intro c'' hc''
        rw [List.append_nil, hidle] at hwait
        rw [hclients] at hc''
        split_ifs at hc''
        rw [← Option.some.inj hc'', hflushed.readView]
        exact Tail.waiting.inj hwait
  | readable e =>
      change (frames RespParser.parse (c.readView ++ e.reads.bytes)).2 = _ at hwait
      by_cases hdel : e.reads.Delivers
      · obtain ⟨c', s', hexec, hdispatch⟩ :=
          dispatch_spec e.env (c.fillReadBuffer e.reads).2 e.session
        rw [(c.fillReadBuffer_spec e.reads).1, hwait] at hexec hdispatch
        obtain ⟨c'', hflushed, hclients⟩ := clients_flushAfterDispatch server fd c' e.writes
        have hevent := onClientReadable_of_delivers hc hdel
        rw [hdispatch, dispatchTail, List.append_nil] at hevent
        refine ⟨server.flushAfterDispatch fd c' e.writes, congrArg Prod.snd hevent,
          .inl ⟨?_, ?_, ?_⟩⟩
        · intro c₀ e₀ hc₀ he₀ hending
          cases he₀
          exact absurd hdel.ending hending
        · rw [onClientEvent, hevent]
          exact filterMap_executionSteps _ _
        · intro c₀ hc₀
          rw [hclients] at hc₀
          split_ifs at hc₀
          rw [← Option.some.inj hc₀, hflushed.readView]
          exact hexec.readView
      · have hevent := onClientReadable_of_not_delivers hc hdel
        have hclosed := clients_closeConnection server fd
        refine ⟨server.closeConnection fd, congrArg Prod.snd hevent, ?_⟩
        rw [onClientEvent, hevent]
        by_cases hnone : (frames RespParser.parse (c.readView ++ e.reads.bytes)).1 = []
        · refine .inl ⟨fun c₀ e₀ hc₀ he₀ _ => ?_, hnone.symm, fun c' hc' => ?_⟩
          · cases he₀
            rw [hc] at hc₀
            cases hc₀
            exact hnone
          · rw [hclosed] at hc'
            cases hc'
        · refine .inr ⟨fun hkeeps => hnone (hkeeps c e hc rfl fun hending => hnone ?_), rfl, hnone,
            hclosed⟩
          -- without an end of file the loop has read nothing
          have hbytes : e.reads.bytes = [] := by
            rw [Reads.bytes_eq_nil_iff]
            by_contra hchunks
            exact hdel ⟨hchunks, hending⟩
          rw [hbytes, List.append_nil, hidle]

/-- What is buffered between two events holds no complete frame, so that the frames executed and the
frames of the bytes read so far are the same. -/
theorem serve_frames_iff {events : List ClientEvent} {rest : Bytes}
    (hc : server.clients fd = some c)
    (hidle : frames RespParser.parse c.readView = ([], .waiting c.readView))
    (hwait : (frames RespParser.parse (c.readView ++ bytesRead fd events server)).2 =
      .waiting rest) :
    (serve fd events server).1.filterMap DispatchStep.frame? =
        (frames RespParser.parse (c.readView ++ bytesRead fd events server)).1 ↔
      Along fd (KeepsCommands fd) events server := by
  induction events generalizing server c with
  | nil =>
      rw [bytesRead, List.append_nil, hidle]
      exact ⟨fun _ => trivial, fun _ => rfl⟩
  | cons event events ih =>
      have hst := RespParser.stable_parse
      have hadv := RespParser.advances_parse
      obtain ⟨t, ht⟩ := exists_bytesRead_cons hc event events
      obtain ⟨rest₁, hrest₁⟩ : ∃ rest₁,
          (frames RespParser.parse (c.readView ++ event.bytes)).2 = .waiting rest₁ := by
        rw [ht, ← List.append_assoc] at hwait
        exact Framing.frames_waiting_of_append hst hadv hwait
      obtain ⟨server', hevent, hcases⟩ := onClientEvent_cases hc hidle hrest₁
      rw [bytesRead_cons hc hevent, ← List.append_assoc] at hwait ⊢
      rw [along_cons hevent, serve_cons hevent, List.filterMap_append]
      cases hc' : server'.clients fd with
      | none =>
          have halong := along_of_none keepsCommands_of_none hc' events
          rw [serve_of_none hc', bytesRead_of_none hc', List.append_nil, List.filterMap_nil,
            List.append_nil]
          rcases hcases with ⟨hkeeps, hsteps, -⟩ | ⟨hdrops, hsteps, hne, -⟩
          · exact ⟨fun _ => ⟨hkeeps, halong⟩, fun _ => hsteps⟩
          · rw [hsteps]
            exact ⟨fun h => absurd h.symm hne, fun h => absurd h.1 hdrops⟩
      | some c' =>
          rcases hcases with ⟨hkeeps, hsteps, hview⟩ | ⟨-, -, -, hnone⟩
          · have hidle' := Framing.frames_rest hadv (c.readView ++ event.bytes)
            have hview' := hview c' hc'
            rw [hrest₁, Tail.rest, ← hview'] at hidle'
            rw [Framing.frames_append_rest hst hadv, hrest₁, Tail.rest, ← hview'] at hwait ⊢
            rw [← ih hc' hidle' hwait, ← hsteps, List.append_right_inj]
            exact ⟨fun h => ⟨hkeeps, h⟩, And.right⟩
          · rw [hc'] at hnone
            cases hnone

/-- A client sends commands. All those that were read completely are executed, each once and in
order, exactly when no event reads the end of one together with an end of file or an error. -/
theorem commands_executed_iff {events : List ClientEvent}
    (hopen : server.clients fd = some .accepted) (commands : List ClientCommand)
    (hstream : bytesRead fd events server <+:
      commands.flatMap fun command => command.frame.wire) :
    (serve fd events server).1.filterMap DispatchStep.frame? =
        (frames RespParser.parse (bytesRead fd events server)).1 ↔
      Along fd (KeepsCommands fd) events server := by
  obtain ⟨t, ht⟩ := hstream
  have hframes := frames_commands commands
  rw [← ht] at hframes
  obtain ⟨rest, hrest⟩ := Framing.frames_waiting_of_append RespParser.stable_parse
    RespParser.advances_parse (congrArg Prod.snd hframes)
  have hview : Connection.accepted.readView = [] := rfl
  have hiff := @serve_frames_iff server fd .accepted events rest hopen
  rw [hview, List.nil_append] at hiff
  exact hiff (Framing.frames_of_incomplete RespParser.parse_nil) hrest

/-- A server with one connection, which has just been accepted under the descriptor 5. -/
def oneClient : TcpServer := onNewConnection ⟨fun _ => none, fun _ => none, fun _ => none⟩ 5

def pingChunk : Chunk where
  bytes := pingCommand.frame.wire
  nonempty := by decide +kernel
  length_le := by decide +kernel

/-- A PING arrives, and then the read loop ends in the given way. -/
def pingEvent (ending : ReadEnd) : ReadableEvent :=
  let P := DictParams.exact (fun _ => 0)
  ⟨⟨[pingChunk], ending⟩, ⟨[], .wouldBlock⟩, fun _ => .still 10 0,
    .initial P P (.init ⟨6379, 10, true⟩ 0)⟩

/-- A PING in two pieces, and then the end of the stream. -/
def cutPing : List ClientEvent :=
  let event := fun reads : Reads =>
    ClientEvent.readable { pingEvent .wouldBlock with reads := reads }
  [event ⟨[Connection.pingHead], .wouldBlock⟩, event ⟨[Connection.pingTail], .wouldBlock⟩,
    event ⟨[], .eof⟩]

theorem commands_executed_cutPing :
    bytesRead 5 cutPing oneClient = pingCommand.frame.wire ∧
      (serve 5 cutPing oneClient).1.filterMap DispatchStep.frame? = [pingCommand.frame] := by
  have hread : bytesRead 5 cutPing oneClient = pingCommand.frame.wire := by decide +kernel
  have hopen : oneClient.clients 5 = some .accepted := clients_setClient _ _ _
  have hstream : bytesRead 5 cutPing oneClient <+:
      [pingCommand].flatMap fun command => command.frame.wire := ⟨[], by decide +kernel⟩
  have hiff := commands_executed_iff hopen [pingCommand] hstream
  -- when the stream ends, nothing is left in the read buffer
  have hempty : (serve 5 (cutPing.take 2) oneClient).2.all fun server =>
      (server.clients 5).all fun c => c.readView.isEmpty := by decide +kernel
  have hkeeps : Along 5 (KeepsCommands 5) cutPing oneClient := by
    refine ⟨?_, fun server hs => ⟨?_, fun server' hs' => ⟨?_, fun _ _ => trivial⟩⟩⟩
    · rintro c e - he hne
      cases he
      exact absurd rfl hne
    · rintro c e - he hne
      cases he
      exact absurd rfl hne
    · rintro c e hc he -
      cases he
      have hserve : (serve 5 (cutPing.take 2) oneClient).2 = some server' :=
        (congrArg Prod.snd (serve_cons hs _)).trans (congrArg Prod.snd (serve_cons hs' []))
      rw [hserve, Option.all_some, hc, Option.all_some, List.isEmpty_iff] at hempty
      rw [hempty]
      exact congrArg Prod.fst (Framing.frames_of_incomplete RespParser.parse_nil)
  have hframes := frames_commands [pingCommand]
  rw [List.flatMap_singleton] at hframes
  refine ⟨hread, (hiff.mpr hkeeps).trans ?_⟩
  rw [hread, hframes]
  rfl

/-- A PING that comes together with the end of the stream is read and not executed. -/
theorem ping_before_eof_is_dropped :
    let events := [ClientEvent.readable (pingEvent .eof)]
    bytesRead 5 events oneClient = pingCommand.frame.wire ∧
      (serve 5 events oneClient).1 = [] ∧
      (frames RespParser.parse (bytesRead 5 events oneClient)).1 = [pingCommand.frame] := by
  intro events
  have hread : bytesRead 5 events oneClient = pingCommand.frame.wire := by
    decide +kernel
  have hopen : oneClient.clients 5 = some .accepted := clients_setClient _ _ _
  have hdelivers : ¬ (pingEvent .eof).reads.Delivers := by
    rintro ⟨-, hending⟩
    cases hending
  have hevent : oneClient.onClientEvent 5 (.readable (pingEvent .eof)) =
      ([], some (oneClient.closeConnection 5)) :=
    onClientReadable_of_not_delivers hopen hdelivers
  have hframes := frames_commands [pingCommand]
  rw [List.flatMap_singleton] at hframes
  refine ⟨hread, ?_, ?_⟩
  · rw [serve_cons (congrArg Prod.snd hevent), hevent]
    rfl
  · rw [hread, hframes]
    rfl

end TcpServer

end Keva
