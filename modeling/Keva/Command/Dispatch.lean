import Keva.Command.Footprint
import Keva.Lib.Run
import Keva.Net.Connection
import Keva.Protocol.RespParser

/-!
# Dispatching the buffered frames

`dispatch` parses and executes frames until the read buffer holds no complete one. It returns, in
order, what it has done and in which state of the connection: frames executed, and the rejection of
malformed input. There is no connection afterwards if the parser throws: nothing catches
`std::length_error`, so the process ends.
-/

namespace Keva

open Framing (Tail frames)

inductive DispatchAction
  | execute (frame : RespValue)
  | reject

structure DispatchStep where
  state : ConnectionState
  action : DispatchAction

/-- The frame that the step executes. -/
def DispatchStep.frame? (step : DispatchStep) : Option RespValue :=
  match step.action with
  | .execute frame => some frame
  | .reject => none

/-- The bytes that the handler of one frame appends, and the session after it. -/
def answerFrame (env : ℕ → World) (s : Session) (frame : RespValue) : Bytes × Session :=
  let s' := (Session.exec env (executeFrame frame) { s with output := [] }).2
  (s'.output, s')

/-- Runs the command of a frame that has been consumed; the handlers append to the connection's
write buffer and may set its state. -/
def Connection.execute (env : ℕ → World) (c : Connection) (s : Session) (frame : RespValue) :
    Connection × Session :=
  let (bytes, s') := answerFrame env { s with state := c.state } frame
  ((c.appendResponse bytes).setState s'.state, s')

def Connection.reject (c : Connection) : Connection :=
  (c.appendResponse (RespEncoder.error (ascii "Protocol error: invalid RESP2 format"))).setState
    .writeOnly

def dispatchLoop (env : ℕ → World) :
    ℕ → Connection → Session → List DispatchStep × Option (Connection × Session)
  | 0, c, s => ([], some (c, s))
  | fuel + 1, c, s =>
      if c.readView.isEmpty then ([], some (c, s))
      else
        match RespParser.parse c.readView with
        | .incomplete => ([], some (c, s))
        | .error .protocolError => ([⟨c.state, .reject⟩], some (c.reject, s))
        | .error .lengthError => ([], none)
        | .complete frame rest =>
            let (c', s') := (c.consume (c.readView.length - rest.length)).execute env s frame
            let (steps, result) := dispatchLoop env fuel c' s'
            (⟨c.state, .execute frame⟩ :: steps, result)

/-- Every frame has at least one byte, so the length of the buffer is fuel enough. -/
def dispatch (env : ℕ → World) (c : Connection) (s : Session) :
    List DispatchStep × Option (Connection × Session) :=
  dispatchLoop env (c.readView.length + 1) c s

/-- The frame runs QUIT, the only command that sets the state of the connection. -/
def runsQuit (frame : RespValue) : Bool :=
  match frameCommand frame with
  | some (entry, _) => entry.name = ascii "QUIT"
  | none => false

def stateAfter (state : ConnectionState) (frame : RespValue) : ConnectionState :=
  if runsQuit frame then .writeOnly else state

section

variable {env : ℕ → World}

theorem Session.perform_state {op : Call} (h : op.kind ≠ .state) (s : Session) :
    (s.perform env op).2.state = s.state := by
  cases op with
  | setState state => exact absurd rfl h
  | rdbSaveSync =>
      change (s.rdbSaveSync (env s.calls)).2.state = s.state
      unfold Session.rdbSaveSync
      cases (env s.calls).save <;> rfl
  | rdbSaveBackground =>
      change (s.rdbSaveBackground (env s.calls)).2.state = s.state
      unfold Session.rdbSaveBackground
      cases (env s.calls).fork <;> rfl
  | _ => rfl

theorem exec_state {α : Type} {kinds : List CallKind} {keys : List Bytes} {p : Handler α}
    (h : Uses kinds keys p) (hstate : .state ∉ kinds) (s : Session) :
    (s.exec env p).2.state = s.state := by
  have hcalls : p.Calls (Call.Within kinds keys) := h
  refine Program.run_invariant (I := fun s' : Session => s'.state = s.state)
    (fun s' op hop hs' => ?_) hcalls rfl
  rw [Session.perform_state (fun hk => hstate (hk ▸ hop.kind_mem))]
  exact hs'

theorem name_of_state_mem {entry : CommandEntry} (he : entry ∈ commandTable)
    (h : .state ∈ (footprint entry.name).kinds) : entry.name = ascii "QUIT" := by
  have hall : ∀ e ∈ commandTable, .state ∈ (footprint e.name).kinds →
      e.name = ascii "QUIT" := by decide
  exact hall entry he h

theorem exec_executeFrame_state (s : Session) (frame : RespValue) :
    (s.exec env (executeFrame frame)).2.state = stateAfter s.state frame := by
  unfold stateAfter runsQuit
  cases hc : frameCommand frame with
  | none => exact exec_state (executeFrame_of_none hc) (by decide) s
  | some c =>
      obtain ⟨entry, args⟩ := c
      obtain ⟨heq, he, ha, -⟩ := executeFrame_of_some hc
      dsimp only
      rw [heq]
      by_cases hq : entry.name = ascii "QUIT"
      · rw [if_pos (decide_eq_true hq)]
        have hfind := (findCommand_of_frameCommand hc).1
        rw [hq] at hfind
        obtain rfl : _ = entry := Option.some.inj hfind
        rfl
      · rw [if_neg (by simpa using hq)]
        refine exec_state (uses_runCommand he ha) (fun hin => hq (name_of_state_mem he ?_)) s
        exact (List.mem_cons.mp hin).resolve_left (by decide)

end

/-- The steps of executing the frames one after the other. -/
def executionSteps : ConnectionState → List RespValue → List DispatchStep
  | _, [] => []
  | state, frame :: frames =>
      ⟨state, .execute frame⟩ :: executionSteps (stateAfter state frame) frames

theorem filterMap_executionSteps (state : ConnectionState) (frames : List RespValue) :
    (executionSteps state frames).filterMap DispatchStep.frame? = frames := by
  induction frames generalizing state with
  | nil => rfl
  | cons frame frames ih =>
      rw [executionSteps, List.filterMap_cons]
      exact congrArg (frame :: ·) (ih _)

theorem map_action_executionSteps (state : ConnectionState) (frames : List RespValue) :
    (executionSteps state frames).map DispatchStep.action = frames.map .execute := by
  induction frames generalizing state with
  | nil => rfl
  | cons frame frames ih => exact congrArg (DispatchAction.execute frame :: ·) (ih _)

/-- The replies to the frames, one after the other. -/
def repliesTo (env : ℕ → World) (s : Session) (frames : List RespValue) : Bytes :=
  (Run.run (answerFrame env) s frames).1.flatten

/-- What dispatch does when the buffer holds no further frame. -/
def dispatchTail (tail : Tail ParseFault UInt8) (c : Connection) :
    List DispatchStep × Option Connection :=
  match tail with
  | .waiting _ => ([], some c)
  | .failed .protocolError _ => ([⟨c.state, .reject⟩], some c.reject)
  | .failed .lengthError _ => ([], none)

/-- `c'` comes from `c` by consuming and executing `frames`, with `rest` left to be read. -/
structure Connection.Executed (env : ℕ → World) (c : Connection) (s : Session)
    (frames : List RespValue) (rest : Bytes) (c' : Connection) : Prop where
  readView : c'.readView = rest
  state : c'.state = frames.foldl stateAfter c.state
  writePos : c'.writePos = c.writePos
  writeBuf : c'.writeBuf = c.writeBuf ++ repliesTo env { s with state := c.state } frames

theorem Connection.execute_consume {env : ℕ → World} {c : Connection} {frame : RespValue}
    {rest : Bytes} (h : RespParser.parse c.readView = .complete frame rest) (s : Session) :
    ((c.consume (c.readView.length - rest.length)).execute env s frame).1.readView = rest ∧
      ((c.consume (c.readView.length - rest.length)).execute env s frame).1.state =
        stateAfter c.state frame := by
  obtain ⟨u, -, hu⟩ := RespParser.advances_parse _ _ _ h
  refine ⟨?_, exec_executeFrame_state _ frame⟩
  change (c.consume (c.readView.length - rest.length)).readView = rest
  rw [readView_consume (Nat.sub_le _ _), hu, List.length_append, Nat.add_sub_cancel,
    List.drop_left]

theorem dispatchLoop_spec (env : ℕ → World) (fuel : ℕ) {c : Connection} (s : Session)
    (hfuel : c.readView.length < fuel) :
    ∃ c' s', c.Executed env s (frames RespParser.parse c.readView).1
        (frames RespParser.parse c.readView).2.rest c' ∧
      dispatchLoop env fuel c s =
        (executionSteps c.state (frames RespParser.parse c.readView).1 ++
            (dispatchTail (frames RespParser.parse c.readView).2 c').1,
          (dispatchTail (frames RespParser.parse c.readView).2 c').2.map (·, s')) := by
  induction fuel generalizing c s with
  | zero => omega
  | succ fuel ih =>
      have hstop : c.Executed env s [] c.readView c := ⟨rfl, rfl, rfl, (List.append_nil _).symm⟩
      rw [dispatchLoop]
      by_cases hempty : c.readView.isEmpty
      · have hnil : c.readView = [] := List.isEmpty_iff.mp hempty
        have hframes := Framing.frames_of_incomplete RespParser.parse_nil
        rw [if_pos hempty]
        rw [hnil] at hstop ⊢
        rw [hframes]
        exact ⟨c, s, hstop, rfl⟩
      rw [if_neg hempty]
      cases hparse : RespParser.parse c.readView with
      | incomplete =>
          rw [Framing.frames_of_incomplete hparse]
          exact ⟨c, s, hstop, rfl⟩
      | error e =>
          rw [Framing.frames_of_error hparse]
          refine ⟨c, s, hstop, ?_⟩
          cases e <;> rfl
      | complete frame rest =>
          obtain ⟨hview, hstate⟩ := @Connection.execute_consume env c frame rest hparse s
          have hlt := RespParser.advances_parse.length_lt hparse
          rw [Framing.frames_of_complete RespParser.advances_parse hparse]
          obtain ⟨c', s', hexec, hloop⟩ := ih
            ((c.consume (c.readView.length - rest.length)).execute env s frame).2
            (by rw [hview]; omega)
          rw [hview] at hexec hloop
          refine ⟨c', s', ?_, ?_⟩
          · refine ⟨hexec.readView, ?_, hexec.writePos, ?_⟩
            · rw [hexec.state, hstate, List.foldl_cons]
            · exact hexec.writeBuf.trans (List.append_assoc _ _ _)
          · dsimp only
            rw [hloop, hstate, executionSteps]
            rfl

theorem dispatch_spec (env : ℕ → World) (c : Connection) (s : Session) :
    ∃ c' s', c.Executed env s (frames RespParser.parse c.readView).1
        (frames RespParser.parse c.readView).2.rest c' ∧
      dispatch env c s =
        (executionSteps c.state (frames RespParser.parse c.readView).1 ++
            (dispatchTail (frames RespParser.parse c.readView).2 c').1,
          (dispatchTail (frames RespParser.parse c.readView).2 c').2.map (·, s')) :=
  dispatchLoop_spec env _ s (Nat.lt_succ_self _)

end Keva
