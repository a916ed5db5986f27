import Keva.Protocol.Reserves
import Keva.Server.Sequential

/-!
# What can end the server

Nothing catches what `reserve` throws, so an exception in the parser ends the process. As long as
memory suffices, no other callback of the event loop can do that: the last bytes before such an end
are an array header that announces more elements than a vector can have, behind complete frames of
the same client.
-/

namespace Keva

open Framing (Tail frames)

namespace Reactor

variable {d : Descriptors} {interval monotonic : ℤ} {r : Reactor} {log log' : List Entry}

/-- The last callback of the log has ended the process, and `I` held before it. -/
def Ends (d : Descriptors) (I : List Entry → Reactor → Prop) (log : List Entry) : Prop :=
  ∃ log₁ r fd a log₂, log = log₁ ++ log₂ ∧ fd ∉ d.own ∧ I log₁ r ∧
    r.onClientReadable fd a = (log₂, none)

namespace Invariant

variable {I : List Entry → Reactor → Prop} (hI : Invariant d interval I)

include hI

omit hI in
theorem ends_callReadable {fd : ℕ} {asked : Bool} {a : KernelAnswers} (h : I log r)
    (hrun : r.callReadable d fd asked a = (log', none)) : Ends d I (log ++ log') := by
  unfold Reactor.callReadable at hrun
  split at hrun
  · cases (Prod.mk.inj hrun).2
  · split_ifs at hrun
    · unfold Reactor.onReadable at hrun
      split_ifs at hrun with hlisten hsignal
      · cases (Prod.mk.inj hrun).2
      · cases (Prod.mk.inj hrun).2
      · refine ⟨log, r, fd, a, log', rfl, ?_, h, hrun⟩
        rintro (rfl | rfl)
        · exact hlisten rfl
        · exact hsignal rfl
    · cases (Prod.mk.inj hrun).2

omit hI in
theorem ends_happen {e : Happening} (h : I log r) (hrun : r.happen d e = (log', none)) :
    Ends d I (log ++ log') := by
  cases e with
  | ready e =>
      change r.dispatchReady d e = _ at hrun
      unfold Reactor.dispatchReady at hrun
      split_ifs at hrun
      · exact ends_callReadable h hrun
      · split at hrun
        · rename_i log₁ hread
          obtain ⟨rfl, -⟩ := Prod.mk.inj hrun
          exact ends_callReadable h hread
        · cases (Prod.mk.inj hrun).2
  | _ => cases (Prod.mk.inj hrun).2

theorem ends_dispatchBatch {batch : List Happening} (h : I log r)
    (hrun : Reactor.dispatchBatch d batch r = (log', none)) : Ends d I (log ++ log') := by
  induction batch generalizing log log' r with
  | nil => cases (Prod.mk.inj hrun).2
  | cons e batch ih =>
      rw [Reactor.dispatchBatch] at hrun
      split at hrun
      · rename_i log₁ hfirst
        obtain ⟨rfl, -⟩ := Prod.mk.inj hrun
        exact ends_happen h hfirst
      · rename_i log₁ r₁ hfirst
        obtain ⟨rfl, hr⟩ := Prod.mk.inj hrun
        have hrest := ih (hI.happen h hfirst) (Prod.ext rfl hr)
        rwa [List.append_assoc] at hrest

theorem ends_run (log : List Entry) {wakes : List Wake} (h : I log r)
    (hrun : Reactor.run d interval wakes r = (log', none)) : Ends d I (log ++ log') := by
  induction wakes generalizing log log' r with
  | nil => cases (Prod.mk.inj hrun).2
  | cons wake wakes ih =>
      unfold Reactor.run at hrun
      split_ifs at hrun
      · cases wake with
        | interrupted => exact ih log h hrun
        | failed => cases (Prod.mk.inj hrun).2
        | ready batch tick =>
            dsimp only at hrun
            split at hrun
            · rename_i log₁ hbatch
              obtain ⟨rfl, -⟩ := Prod.mk.inj hrun
              exact hI.ends_dispatchBatch h hbatch
            · rename_i log₁ r₁ hbatch
              obtain ⟨rfl, hr⟩ := Prod.mk.inj hrun
              have htimer := hI.timer tick (hI.dispatchBatch h hbatch)
              have hrest := ih _ htimer (Prod.ext rfl hr)
              rwa [List.append_assoc, List.append_assoc, ← List.append_assoc log₁] at hrest
      · cases (Prod.mk.inj hrun).2

end Invariant

theorem failed_of_dispatch {env : ℕ → World} {c : Connection} {s : Session}
    {steps : List DispatchStep} (h : dispatch env c s = (steps, none)) :
    ∃ rest, (frames RespParser.parse c.readView).2 = .failed .lengthError rest := by
  obtain ⟨c', s', -, hdispatch⟩ := dispatch_spec env c s
  rw [hdispatch] at h
  have hnone := Option.map_eq_none_iff.mp (Prod.mk.inj h).2
  cases ht : (frames RespParser.parse c.readView).2 with
  | waiting rest =>
      rw [ht] at hnone
      cases hnone
  | failed fault rest =>
      cases fault with
      | lengthError => exact ⟨rest, rfl⟩
      | protocolError =>
          rw [ht] at hnone
          cases hnone

theorem receivedFrom_dispatched (id : ℕ) (env : ℕ → World) (bytes : Bytes)
    (steps : List DispatchStep) :
    receivedFrom id (.received id bytes :: steps.map (.dispatched id env)) = bytes := by
  have hsteps : receivedFrom id (steps.map (.dispatched id env)) = [] := by
    refine List.flatMap_eq_nil_iff.mpr fun e he => ?_
    obtain ⟨step, -, rfl⟩ := List.mem_map.mp he
    rfl
  have hself : Entry.receivedFrom id (.received id bytes) = bytes := if_pos rfl
  rw [receivedFrom, List.flatMap_cons, hself]
  change bytes ++ receivedFrom id (steps.map (.dispatched id env)) = bytes
  rw [hsteps, List.append_nil]

theorem failed_of_onClientReadable {s : Session} {fd : ℕ} {a : KernelAnswers} {c : Connection}
    (hc : r.server.clients fd = some c) (h : Streams s log (r.clientIds fd) c)
    (hrun : r.onClientReadable fd a = (log', none)) :
    ∃ rest, (frames RespParser.parse (receivedFrom (r.clientIds fd) (log ++ log'))).2 =
      .failed .lengthError rest := by
  unfold onClientReadable at hrun
  rw [hc] at hrun
  dsimp only at hrun
  split_ifs at hrun
  · cases (Prod.mk.inj hrun).2
  · generalize hdispatch : dispatch a.env (c.fillReadBuffer a.reads).2 r.session = result at hrun
    obtain ⟨steps, _ | ⟨c₂, s₂⟩⟩ := result
    · obtain ⟨rfl, -⟩ := Prod.mk.inj hrun
      obtain ⟨rest, hfailed⟩ := failed_of_dispatch hdispatch
      rw [(Connection.fillReadBuffer_spec c a.reads).1, h.view] at hfailed
      rw [receivedFrom_append, receivedFrom_dispatched,
        Framing.frames_append_rest RespParser.stable_parse RespParser.advances_parse]
      exact ⟨rest, hfailed⟩
    · cases (Prod.mk.inj hrun).2

/-- Where memory suffices, a run of the event loop ends the process only if the bytes received from
some client are complete frames and then `rest`, whose parse comes to an array header that announces
more elements than a vector can have. -/
theorem ended_by_header {s : Session} {wakes : List Wake}
    (hrun : Reactor.run d interval wakes (started d s monotonic) = (log, none)) :
    ∃ id rest reserve,
      (frames RespParser.parse (receivedFrom id log)).2 = .failed .lengthError rest ∧
        ReachesReserve rest reserve ∧ maxElements < reserve.count := by
  have hends := (invariant_sequential d interval s).ends_run [] (sequential_started d s monotonic)
    hrun
  rw [List.nil_append] at hends
  obtain ⟨log₁, r, fd, a, log₂, rfl, -, h, hlast⟩ := hends
  cases hc : r.server.clients fd with
  | none =>
      unfold onClientReadable at hlast
      rw [hc] at hlast
      cases (Prod.mk.inj hlast).2
  | some c =>
      obtain ⟨rest, hfailed⟩ := failed_of_onClientReadable hc (h.streams fd c hc) hlast
      obtain ⟨reserve, hreaches, hcount⟩ := parse_eq_lengthError_iff.mp
        (Framing.error_of_failed RespParser.advances_parse hfailed)
      exact ⟨r.clientIds fd, rest, reserve, hfailed, hreaches, hcount⟩

/-- A client whose first bytes announce 2^63 - 1 elements. -/
def hugeHeader : List Wake :=
  let answers := fun (accepted : List ℕ) (chunks : List Chunk) =>
    (⟨accepted, 0, ⟨chunks, .wouldBlock⟩, fun _ => .still 10 0, ⟨[], .wouldBlock⟩,
      ⟨[], .wouldBlock⟩⟩ : KernelAnswers)
  let input : EventMask := ⟨false, true, false⟩
  let tick : TimerTick := ⟨200, 10, ⟨0, 0⟩, ⟨0, 0⟩, ⟨0, 0⟩⟩
  [.ready [.ready ⟨3, input, answers [5] []⟩, .ready ⟨5, input, answers []
    [⟨ascii "*9223372036854775807\r\n", by decide, by decide⟩]⟩] tick]

theorem ended_by_header_hugeHeader :
    ∃ log, Reactor.run ⟨3, 4, 65536⟩ 100 hugeHeader (started ⟨3, 4, 65536⟩ freshSession 0) =
      (log, none) ∧ ∃ id rest reserve,
        (frames RespParser.parse (receivedFrom id log)).2 = .failed .lengthError rest ∧
          ReachesReserve rest reserve ∧ maxElements < reserve.count := by
  have hnone : (Reactor.run ⟨3, 4, 65536⟩ 100 hugeHeader
      (started ⟨3, 4, 65536⟩ freshSession 0)).2.isNone := by decide +kernel
  obtain ⟨⟨log, result⟩, hrun⟩ : ∃ p, Reactor.run ⟨3, 4, 65536⟩ 100 hugeHeader
      (started ⟨3, 4, 65536⟩ freshSession 0) = p := ⟨_, rfl⟩
  rw [hrun] at hnone
  obtain rfl := Option.isNone_iff_eq_none.mp hnone
  exact ⟨log, hrun, ended_by_header hrun⟩

end Reactor

end Keva
