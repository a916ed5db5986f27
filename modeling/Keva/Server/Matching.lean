import Keva.Server.Sequential

/-!
# Replies can be told apart

A client that decodes what it receives gets one value for each of its commands, in order: the reply
to it. At any moment it has the replies to its first commands and perhaps the beginning of the next
one, however the replies were cut into writes and whatever other clients were served in between.
-/

namespace Keva

open Framing (frames)

namespace Entry

def stepFor (id : ℕ) : Entry → Option DispatchStep
  | .dispatched j _ step => if j = id then some step else none
  | _ => none

/-- The frame is decoded to one reply, of a size that strings and vectors can have. -/
def Answerable (s : Session) : Entry → Prop
  | .dispatched _ env ⟨_, .execute frame⟩ =>
      (∀ n, (env n).Plain) ∧ s.db.content.Fits ∧ frame.Fits ∧ ¬ SplitsReply frame
  | _ => True

end Entry

/-- The steps of dispatch for one client. -/
def stepsFor (id : ℕ) (log : List Entry) : List DispatchStep := log.filterMap (Entry.stepFor id)

/-- What is appended to the write buffer of one client in each of its steps. -/
def replyList (id : ℕ) : Session → List Entry → List Bytes
  | _, [] => []
  | s, e :: log =>
      ((e.stepFor id).map fun _ => (e.perform s).1).toList ++ replyList id (e.perform s).2 log

section

variable {id : ℕ} {s : Session} {e : Entry} {log : List Entry}

theorem length_replyList (id : ℕ) (s : Session) (log : List Entry) :
    (replyList id s log).length = (stepsFor id log).length := by
  induction log generalizing s with
  | nil => rfl
  | cons e log ih =>
      rw [replyList, List.length_append, ih, stepsFor, stepsFor, List.filterMap_cons]
      cases e.stepFor id with
      | none => simp
      | some step => simp [Nat.add_comm]

theorem flatten_replyList (id : ℕ) (s : Session) (log : List Entry) :
    (replyList id s log).flatten = repliesFor id s log := by
  induction log generalizing s with
  | nil => rfl
  | cons e log ih =>
      have hreply : ((e.stepFor id).map fun _ => (e.perform s).1).toList.flatten =
          if e.client? = some id then (e.perform s).1 else [] := by
        cases e with
        | dispatched j env step =>
            by_cases hj : j = id
            · simp [Entry.stepFor, Entry.client?, hj]
            · simp [Entry.stepFor, Entry.client?, hj]
        | _ => simp [Entry.stepFor, Entry.perform]
      rw [replyList, repliesFor, List.flatten_append, ih, hreply]

theorem wire_of_answerable (h : e.Answerable s) {step : DispatchStep}
    (hstep : e.stepFor id = some step) :
    ∃ v : RespValue, v.Encodable ∧ (e.perform s).1 = v.wire := by
  cases e with
  | dispatched j env step' =>
      obtain ⟨state, action⟩ := step'
      cases action with
      | execute frame =>
          obtain ⟨henv, hdb, hframe, hsplit⟩ := h
          obtain ⟨v, hv, hout⟩ := emits_executeFrame hframe hsplit env henv
            { s with state := state, output := [] } hdb
          rw [List.nil_append] at hout
          exact ⟨v, hv, hout⟩
      | reject =>
          refine ⟨.error (ascii "ERR Protocol error: invalid RESP2 format"), ?_, ?_⟩
          · apply RespValue.Encodable.error
            decide
          · rfl
  | _ => cases hstep

theorem replyList_eq_map_wire
    (h : Run.Along (fun s e => (e.perform s).2)
      (fun s e => (e.stepFor id).isSome → e.Answerable s) s log) :
    ∃ vs : List RespValue, (∀ v ∈ vs, v.Encodable) ∧
      replyList id s log = vs.map RespValue.wire := by
  induction log generalizing s with
  | nil => exact ⟨[], by simp, rfl⟩
  | cons e log ih =>
      obtain ⟨vs, hvs, hrest⟩ := ih h.2
      cases hstep : e.stepFor id with
      | none =>
          refine ⟨vs, hvs, ?_⟩
          rw [replyList, hstep, hrest]
          rfl
      | some step =>
          obtain ⟨v, hv, hwire⟩ := wire_of_answerable (h.1 (by rw [hstep]; rfl)) hstep
          refine ⟨v :: vs, ?_, ?_⟩
          · simpa using ⟨hv, hvs⟩
          · rw [replyList, hstep, hrest, hwire]
            rfl

end

theorem frames_of_prefix_wire {vs : List RespValue} (hvs : ∀ v ∈ vs, v.Encodable) {bytes : Bytes}
    (h : bytes <+: (vs.map RespValue.wire).flatten) :
    ∃ got part, frames RespParser.parse bytes = (got, .waiting part) ∧ got <+: vs := by
  obtain ⟨rest, hrest⟩ := h
  have hall : frames RespParser.parse (bytes ++ rest) = (vs, .waiting []) := by
    rw [hrest, ← List.flatMap_def]
    exact Framing.frames_flatMap RespParser.advances_parse RespParser.parse_nil
      fun v hv => RespParser.parse_wire (hvs v hv)
  obtain ⟨part, hpart⟩ := Framing.frames_waiting_of_append RespParser.stable_parse
    RespParser.advances_parse (congrArg Prod.snd hall)
  refine ⟨(frames RespParser.parse bytes).1, part, Prod.ext rfl hpart, ?_⟩
  have hprefix := prefix_frames_append bytes rest
  rwa [hall] at hprefix

namespace Reactor

variable {d : Descriptors} {interval monotonic : ℤ} {s : Session} {wakes : List Wake}
  {log : List Entry} {r : Reactor}

/-- In every run of the event loop, what a client has been sent decodes to the replies to its first
steps, one value each and in order, and to nothing else. Together with what is still waiting in the
write buffer of an open connection it decodes to the replies to all steps. -/
theorem replies_match (hrun : Reactor.run d interval wakes (started d s monotonic) = (log, some r))
    (id : ℕ) (hanswerable : Run.Along (fun s e => (e.perform s).2)
      (fun s e => (e.stepFor id).isSome → e.Answerable s) s log) :
    ∃ vs : List RespValue, replyList id s log = vs.map RespValue.wire ∧
      vs.length = (stepsFor id log).length ∧
      (∃ got part, frames RespParser.parse (sentTo id log) = (got, .waiting part) ∧ got <+: vs) ∧
      ∀ fd c, r.server.clients fd = some c → r.clientIds fd = id →
        frames RespParser.parse (sentTo id log ++ c.unsent) = (vs, .waiting []) := by
  have h := (invariant_sequential d interval s).run [] (sequential_started d s monotonic) hrun
  rw [List.nil_append] at h
  obtain ⟨vs, hvs, hwire⟩ := replyList_eq_map_wire hanswerable
  have hreplies : repliesFor id s log = (vs.map RespValue.wire).flatten := by
    rw [← hwire, flatten_replyList]
  have hsent := (h.served id).sent
  rw [hreplies] at hsent
  refine ⟨vs, hwire, ?_, frames_of_prefix_wire hvs hsent, fun fd c hc hid => ?_⟩
  · rw [← length_replyList id s log, hwire, List.length_map]
  · have hall := (h.streams fd c hc).replies
    rw [hid, hreplies] at hall
    rw [hall, ← List.flatMap_def]
    exact Framing.frames_flatMap RespParser.advances_parse RespParser.parse_nil
      fun v hv => RespParser.parse_wire (hvs v hv)

/-- A client that has sent one command decodes at most one reply. -/
theorem replies_match_ping :
    let ping := commandFrame [ascii "PING"]
    let answers := fun (accepted : List ℕ) (chunks : List Chunk) =>
      (⟨accepted, 0, ⟨chunks, .wouldBlock⟩, fun _ => .still 10 0, ⟨[100], .wouldBlock⟩,
        ⟨[], .wouldBlock⟩⟩ : KernelAnswers)
    let input : EventMask := ⟨false, true, false⟩
    let wakes := [.ready [.ready ⟨3, input, answers [5] []⟩,
      .ready ⟨5, input, answers [] [⟨ping.wire, by decide, by decide⟩]⟩]
        ⟨0, 10, ⟨0, 0⟩, ⟨0, 0⟩, ⟨0, 0⟩⟩]
    ∃ log r, Reactor.run ⟨3, 4, 65536⟩ 100 wakes (started ⟨3, 4, 65536⟩ freshSession 0) =
        (log, some r) ∧
      ∃ got part, frames RespParser.parse (sentTo 1 log) = (got, .waiting part) ∧
        got.length ≤ 1 := by
  intro ping answers input wakes
  let log : List Entry := [.accepted 1, .received 1 ping.wire,
    .dispatched 1 (fun _ => .still 10 0) ⟨.connected, .execute ping⟩, .sent 1 (ascii "+PONG\r\n")]
  have hlog : (Reactor.run ⟨3, 4, 65536⟩ 100 wakes
      (started ⟨3, 4, 65536⟩ freshSession 0)).1 = log := rfl
  have hsome : (Reactor.run ⟨3, 4, 65536⟩ 100 wakes
      (started ⟨3, 4, 65536⟩ freshSession 0)).2.isSome := by decide +kernel
  obtain ⟨r, hr⟩ := Option.isSome_iff_exists.mp hsome
  have hrun : Reactor.run ⟨3, 4, 65536⟩ 100 wakes (started ⟨3, 4, 65536⟩ freshSession 0) =
      (log, some r) := Prod.ext hlog hr
  have henv : (World.still 10 0).Plain := ⟨fun _ _ h => (by cases h), fun _ h => (by cases h)⟩
  have hfits : freshSession.db.content.Fits := by
    refine fits_of_forEach _ (by decide) fun p hp => ?_
    have hnone : freshSession.db.keys.forEach = [] := rfl
    rw [hnone] at hp
    cases hp
  have hping : ping.Fits ∧ ¬ SplitsReply ping := by
    refine ⟨⟨by decide, by decide⟩, ?_⟩
    rintro ⟨name, rest, hframe, hnone, -⟩
    obtain ⟨hname, -⟩ := List.cons.inj (RespValue.array.inj hframe)
    have hfind : (findCommand ((ascii "PING").map toUpper)).isSome := by decide
    rw [RespValue.bulkString.inj hname, hnone] at hfind
    cases hfind
  have hno : ∀ {P : Prop}, (none : Option DispatchStep).isSome → P := fun h => by cases h
  obtain ⟨vs, -, hlength, ⟨got, part, hgot, hprefix⟩, -⟩ := replies_match hrun 1
    ⟨hno, hno, fun _ => ⟨fun _ => henv, hfits, hping⟩, hno, trivial⟩
  exact ⟨log, r, hrun, got, part, hgot, hprefix.length_le.trans hlength.le⟩

end Reactor

end Keva
