import Keva.Net.TcpServer
import Keva.Protocol.Resp2

/-!
# Commands in a stream of bytes

A readable event fills the read buffer and dispatches what it holds. However the bytes of a stream
are cut into events, and the events into reads, the cycles of a connection execute the frames of the
stream, each once and in order.
-/

namespace Keva

open Framing (Tail frames)

/-- A request of a client: an array of bulk strings, of sizes that a container can have. -/
structure ClientCommand where
  args : List Bytes
  nonempty : args ≠ []
  count_le : args.length ≤ maxElements
  length_le : ∀ arg ∈ args, arg.length ≤ maxSize

namespace ClientCommand

def frame (command : ClientCommand) : RespValue := .array (command.args.map .bulkString)

theorem encodable_frame (command : ClientCommand) : command.frame.Encodable := by
  apply RespValue.Encodable.array
  · rw [List.length_map]
    exact command.count_le
  · intro e he
    obtain ⟨arg, harg, rfl⟩ := List.mem_map.mp he
    exact .bulkString (command.length_le arg harg)

end ClientCommand

def pingCommand : ClientCommand where
  args := [ascii "PING"]
  nonempty := by decide
  count_le := by decide
  length_le := by decide

theorem frames_commands (commands : List ClientCommand) :
    frames RespParser.parse (commands.flatMap fun command => command.frame.wire) =
      (commands.map ClientCommand.frame, .waiting []) := by
  have hwire : (commands.flatMap fun command => command.frame.wire) =
      (commands.map ClientCommand.frame).flatMap RespValue.wire := by
    rw [List.flatMap_map]
  rw [hwire]
  apply Framing.frames_flatMap RespParser.advances_parse RespParser.parse_nil
  intro frame hframe rest
  obtain ⟨command, -, rfl⟩ := List.mem_map.mp hframe
  exact RespParser.parse_wire command.encodable_frame rest

namespace Connection

/-- What a readable event does with the read buffer: it is filled, and dispatched unless the client
is to be disconnected. -/
def cycle (c : Connection) (e : ReadableEvent) : List DispatchStep × Option Connection :=
  let (n, c) := c.fillReadBuffer e.reads
  if n ≤ 0 then ([], some c)
  else
    let (steps, result) := dispatch e.env c e.session
    (steps, result.map Prod.fst)

def cycles : List ReadableEvent → Connection → List DispatchStep × Option Connection
  | [], c => ([], some c)
  | e :: events, c =>
      match c.cycle e with
      | (steps, none) => (steps, none)
      | (steps, some c) =>
          let (steps', result) := cycles events c
          (steps ++ steps', result)

theorem cycle_spec {c : Connection} {e : ReadableEvent} {rest : Bytes} (he : e.reads.Delivers)
    (h : (frames RespParser.parse (c.readView ++ e.reads.bytes)).2 = .waiting rest) :
    ∃ steps c', c.cycle e = (steps, some c') ∧ c'.readView = rest ∧
      steps.map DispatchStep.action =
        (frames RespParser.parse (c.readView ++ e.reads.bytes)).1.map .execute := by
  obtain ⟨c', s', hexec, hdispatch⟩ := dispatch_spec e.env (c.fillReadBuffer e.reads).2 e.session
  rw [(fillReadBuffer_spec c e.reads).1, h, dispatchTail, List.append_nil] at hdispatch
  rw [(fillReadBuffer_spec c e.reads).1, h] at hexec
  refine ⟨executionSteps (c.fillReadBuffer e.reads).2.state
    (frames RespParser.parse (c.readView ++ e.reads.bytes)).1, c', ?_, hexec.readView,
    map_action_executionSteps _ _⟩
  have hn := c.count_pos_iff.mpr he
  rw [cycle]
  dsimp only
  rw [if_neg (by omega), hdispatch]
  rfl

theorem cycles_spec {events : List ReadableEvent} {c : Connection} {rest : Bytes}
    (hevents : ∀ e ∈ events, e.reads.Delivers)
    (h : (frames RespParser.parse (c.readView ++ events.flatMap (·.reads.bytes))).2 =
      .waiting rest)
    (hc : frames RespParser.parse c.readView = ([], .waiting c.readView)) :
    ∃ steps c', cycles events c = (steps, some c') ∧ c'.readView = rest ∧
      steps.map DispatchStep.action =
        (frames RespParser.parse (c.readView ++ events.flatMap (·.reads.bytes))).1.map
          .execute := by
  induction events generalizing c with
  | nil =>
      rw [List.flatMap_nil, List.append_nil] at h ⊢
      rw [hc] at h ⊢
      exact ⟨[], c, rfl, Tail.waiting.inj h, rfl⟩
  | cons e events ih =>
      rw [List.flatMap_cons, ← List.append_assoc] at h ⊢
      have hst := RespParser.stable_parse
      have hadv := RespParser.advances_parse
      obtain ⟨rest₁, hrest₁⟩ := Framing.frames_waiting_of_append hst hadv h
      obtain ⟨steps, c₁, hcycle, hview, hsteps⟩ :=
        cycle_spec (hevents e List.mem_cons_self) hrest₁
      -- the new buffer is idle again: what is left holds no complete frame
      have hc₁ := Framing.frames_rest hadv (c.readView ++ e.reads.bytes)
      rw [Framing.frames_append_rest hst hadv, hrest₁, Tail.rest, ← hview] at h ⊢
      rw [hrest₁, Tail.rest, ← hview] at hc₁
      obtain ⟨steps', c', hcycles, hview', hsteps'⟩ :=
        ih (fun e' he' => hevents e' (List.mem_cons_of_mem e he')) h hc₁
      refine ⟨steps ++ steps', c', ?_, hview', ?_⟩
      · rw [cycles, hcycle]
        dsimp only
        rw [hcycles]
      · rw [List.map_append, List.map_append, hsteps, hsteps']

/-- However the bytes of a list of commands are cut into events and reads, the commands are
executed, each once and in order, and nothing is left in the read buffer. -/
theorem cycles_commands (commands : List ClientCommand) (events : List ReadableEvent)
    (hevents : ∀ e ∈ events, e.reads.Delivers)
    (hbytes : events.flatMap (·.reads.bytes) =
      commands.flatMap fun command => command.frame.wire) :
    ∃ steps c, cycles events accepted = (steps, some c) ∧
      steps.map DispatchStep.action = commands.map (fun command => .execute command.frame) ∧
      c.readView = [] := by
  have hframes := frames_commands commands
  rw [← hbytes] at hframes
  have hnil := Framing.frames_of_incomplete RespParser.parse_nil
  obtain ⟨steps, c, hcycles, hview, hsteps⟩ :=
    cycles_spec (c := accepted) hevents (congrArg Prod.snd hframes) hnil
  refine ⟨steps, c, hcycles, ?_, hview⟩
  rw [hsteps]
  exact (congrArg (fun r => r.1.map DispatchAction.execute) hframes).trans (List.map_map)

/-- The bytes of a PING, cut inside the header of its only element. -/
def pingHead : Chunk where
  bytes := pingCommand.frame.wire.take 5
  nonempty := by decide +kernel
  length_le := by decide +kernel

def pingTail : Chunk where
  bytes := pingCommand.frame.wire.drop 5
  nonempty := by decide +kernel
  length_le := by decide +kernel

theorem cycles_commands_ping :
    let P := DictParams.exact (fun _ => 0)
    let session := Session.initial P P (.init ⟨6379, 10, true⟩ 0)
    let event := fun chunk : Chunk =>
      (⟨⟨[chunk], .wouldBlock⟩, ⟨[], .wouldBlock⟩, fun _ => .still 10 0, session⟩ : ReadableEvent)
    ∃ steps c, cycles [event pingHead, event pingTail] accepted = (steps, some c) ∧
      steps.map DispatchStep.action = [.execute pingCommand.frame] ∧ c.readView = [] := by
  intro P session event
  apply cycles_commands [pingCommand]
  · intro e he
    rcases List.mem_pair.mp he with rfl | rfl
    · exact ⟨List.cons_ne_nil _ _, rfl⟩
    · exact ⟨List.cons_ne_nil _ _, rfl⟩
  · decide +kernel

end Connection

end Keva
