import Keva.Server.Sequential

/-!
# Replies are delivered

A connection with unsent replies waits for `EPOLLOUT`. Each time that the kernel reports it and
takes at least one byte, at least one byte is gone, whatever else happens in between. So a client
that goes on reading gets everything that was waiting for it, unless its connection is closed.
-/

namespace Keva

/-- The kernel reports that the socket `fd` takes bytes, and then takes at least one. -/
def Happening.drains (fd : ℕ) : Happening → Bool
  | .ready e => e.fd = fd && !e.mask.error && e.mask.output && !e.answers.drained.accepted.isEmpty
  | _ => false

def Wake.drains (fd : ℕ) : Wake → ℕ
  | .ready batch _ => batch.countP (Happening.drains fd)
  | _ => 0

namespace Reactor

variable {d : Descriptors} {interval monotonic : ℤ} {s : Session} {r r' : Reactor}
  {log log' : List Entry} {fd id total n : ℕ}

/-- The first `total` bytes of the replies to the client `id` are known. If its connection is still
open, then it is on `fd`, and `n` of them at least have been sent. -/
structure Follows (d : Descriptors) (s : Session) (fd id total n : ℕ) (log : List Entry)
    (r : Reactor) : Prop where
  sequential : Sequential d s log r
  known : id < r.nextClientId
  replies : total ≤ (repliesFor id s log).length
  sent : ∀ j c, r.server.clients j = some c → r.clientIds j = id →
    j = fd ∧ n ≤ (sentTo id log).length

namespace Follows

theorem mono {m : ℕ} (h : Follows d s fd id total n log r) (hle : m ≤ n) :
    Follows d s fd id total m log r :=
  ⟨h.sequential, h.known, h.replies, fun j c hc hid =>
    ⟨(h.sent j c hc hid).1, hle.trans (h.sent j c hc hid).2⟩⟩

theorem keep (h : Follows d s fd id total n log r) (hseq : Sequential d s (log ++ log') r')
    (hnext : r.nextClientId ≤ r'.nextClientId)
    (hopen : ∀ j c', r'.server.clients j = some c' → r'.clientIds j = id →
      ∃ c, r.server.clients j = some c ∧ r.clientIds j = id) :
    Follows d s fd id total n (log ++ log') r' := by
  refine ⟨hseq, h.known.trans_le hnext, ?_, fun j c' hc' hid => ?_⟩
  · rw [repliesFor_append, List.length_append]
    exact Nat.le_add_right_of_le h.replies
  · obtain ⟨c, hc, hid⟩ := hopen j c' hc' hid
    obtain ⟨hj, hn⟩ := h.sent j c hc hid
    rw [sentTo_append, List.length_append]
    exact ⟨hj, Nat.le_add_right_of_le hn⟩

theorem same (h : Follows d s fd id total n log r) (hseq : Sequential d s (log ++ log') r')
    (hserver : r'.server = r.server) (hids : r'.clientIds = r.clientIds)
    (hnext : r'.nextClientId = r.nextClientId) : Follows d s fd id total n (log ++ log') r' :=
  h.keep hseq hnext.ge fun _ c hc hid => ⟨c, hserver ▸ hc, hids ▸ hid⟩

theorem accept (h : Follows d s fd id total n log r) (j : ℕ) :
    Follows d s fd id total n (log ++ (r.accept d j).1) (r.accept d j).2 := by
  have hseq := h.sequential.accept j
  unfold Reactor.accept at hseq ⊢
  split_ifs at hseq ⊢
  · exact h.same hseq rfl rfl rfl
  · refine h.keep hseq (Nat.le_succ _) fun k c hc hid => ?_
    dsimp only at hc hid
    by_cases hk : k = j
    · -- the new connection has another id
      rw [hk, Function.update_self] at hid
      exact absurd hid.symm (Nat.ne_of_lt h.known)
    · rw [Function.update_of_ne hk] at hid
      have hclients : (r.server.onNewConnection j).clients k = r.server.clients k := by
        unfold TcpServer.onNewConnection TcpServer.setClient TcpServer.addReadable
        rw [TcpServer.epollAddOrMod_eq]
        exact Function.update_of_ne hk _ _
      exact ⟨c, hclients ▸ hc, hid⟩

theorem client (h : Follows d s fd id total n log r) {j : ℕ} {c : Connection}
    (hc : r.server.clients j = some c) (hstep : ClientStep s log j r log' r')
    (hseq : Sequential d s (log ++ log') r') : Follows d s fd id total n (log ++ log') r' := by
  refine h.keep hseq hstep.nextClientId.ge fun k c' hc' hid => ?_
  rw [hstep.clientIds] at hid
  by_cases hk : k = j
  · rw [hk] at hid ⊢
    exact ⟨c, hc, hid⟩
  · rw [hstep.elsewhere k hk] at hc'
    exact ⟨c', hc', hid⟩

theorem onClientReadable {j : ℕ} {a : KernelAnswers} (h : Follows d s fd id total n log r)
    (hown : j ∉ d.own) (hrun : r.onClientReadable j a = (log', some r')) :
    Follows d s fd id total n (log ++ log') r' := by
  have hseq := h.sequential.onClientReadable hown hrun
  rcases h.sequential.client_onClientReadable hown hrun with rfl | ⟨c, hc, hstep⟩
  · exact h.same hseq rfl rfl rfl
  · exact h.client hc hstep hseq

theorem callWritable (h : Follows d s fd id total n log r) (j : ℕ) (asked : Bool)
    (a : KernelAnswers) :
    Follows d s fd id total n (log ++ (r.callWritable j asked a).1)
      (r.callWritable j asked a).2 := by
  have hseq := h.sequential.callWritable j asked a
  rcases h.sequential.client_callWritable j asked a with hsame | ⟨c, hc, hstep⟩
  · exact h.same hseq (by rw [hsame]) (by rw [hsame]) (by rw [hsame])
  · exact h.client hc hstep hseq

end Follows

theorem invariant_follows (d : Descriptors) (interval : ℤ) (s : Session) (fd id total n : ℕ) :
    Invariant d interval (Follows d s fd id total n) where
  accept j h := h.accept j
  signal a h := by
    obtain ⟨hserver, hids, hnext⟩ := same_onSignalPipeReadable _ a
    exact h.same (h.sequential.onSignalPipeReadable a) hserver hids hnext
  readable hown h hrun := h.onClientReadable hown hrun
  writable j asked a h := h.callWritable j asked a
  raise {log r} signal h := by
    obtain ⟨hserver, hids, hnext⟩ := same_raise r d signal
    rw [← List.append_nil log]
    exact h.same ((List.append_nil log).symm ▸ h.sequential.raise signal) hserver hids hnext
  childExits {log r} ok h := by
    obtain ⟨hserver, hids, hnext⟩ := same_childExits r d ok
    rw [← List.append_nil log]
    exact h.same ((List.append_nil log).symm ▸ h.sequential.childExits ok) hserver hids hnext
  childFinishes {log r} clock h := by
    refine h.same (h.sequential.childFinishes clock) ?_ ?_ ?_
    all_goals
      unfold Reactor.childFinishes
      split <;> rfl
  timer {log r} tick h := by
    refine h.same (h.sequential.maybeRunTimer interval tick) ?_ ?_ ?_
    all_goals
      unfold Reactor.maybeRunTimer
      split_ifs <;> rfl

theorem flushedBytes_length_pos {c : Connection} {w : Writes} (hpending : c.hasPendingWrites = true)
    (hw : w.accepted ≠ []) : 0 < (c.flushedBytes w).length := by
  have hunsent := List.length_pos_iff.mpr (Connection.hasPendingWrites_iff_unsent.mp hpending)
  unfold Connection.flushedBytes Connection.flushLoopBytes
  rw [if_pos hpending]
  cases hn : w.accepted with
  | nil => exact absurd hn hw
  | cons k accepted =>
      rw [List.length_append, List.length_take]
      omega

theorem clientIds_callWritable (r : Reactor) (fd : ℕ) (asked : Bool) (a : KernelAnswers) :
    (r.callWritable fd asked a).2.clientIds = r.clientIds := by
  unfold callWritable
  split
  · rfl
  · split_ifs
    · unfold onClientWritable
      split <;> rfl
    · rfl

theorem Follows.drain {a : KernelAnswers} (h : Follows d s fd id total n log r)
    (ha : a.drained.accepted ≠ []) :
    Follows d s fd id total (min total (n + 1)) (log ++ (r.callWritable fd true a).1)
      (r.callWritable fd true a).2 := by
  have hkeep := h.callWritable fd true a
  refine ⟨hkeep.sequential, hkeep.known, hkeep.replies, fun j c' hc' hid => ?_⟩
  obtain ⟨rfl, -⟩ := hkeep.sent j c' hc' hid
  refine ⟨rfl, ?_⟩
  rw [clientIds_callWritable] at hid
  rw [sentTo_append, List.length_append]
  cases hc : r.server.clients j with
  | none =>
      -- a callback opens no connection
      have hsame : (r.callWritable j true a).2.server.clients j = none := by
        unfold Reactor.callWritable Reactor.onClientWritable
        rw [hc]
        split
        · exact hc
        · split_ifs <;> exact hc
      rw [hsame] at hc'
      cases hc'
  | some c =>
      obtain ⟨-, hn⟩ := h.sent j c hc hid
      have hstreams := h.sequential.streams j c hc
      rw [hid] at hstreams
      by_cases hpending : c.hasPendingWrites = true
      · have hown : j ∉ d.own := by
          intro hown
          rw [(h.sequential.agree.listening j hown).1] at hc
          cases hc
        obtain ⟨writable, hh, -, hw⟩ := (h.sequential.agree.wired j hown).of_connected hc
        have hlog : (r.callWritable j true a).1 = [.sent id (c.flushedBytes a.drained)] := by
          unfold Reactor.callWritable Reactor.onClientWritable
          rw [hh, hc, hid]
          exact congrArg Prod.fst (if_pos (hw hpending))
        have hsent : sentTo id [.sent id (c.flushedBytes a.drained)] =
            c.flushedBytes a.drained := by
          rw [sentTo, List.flatMap_singleton]
          exact if_pos rfl
        have hpos := flushedBytes_length_pos hpending ha
        rw [hlog, hsent]
        omega
      · have hnil : c.unsent = [] := by
          by_contra hne
          exact hpending (Connection.hasPendingWrites_iff_unsent.mpr hne)
        have hall := congrArg List.length hstreams.replies
        rw [hnil, List.append_nil] at hall
        have htotal := h.replies
        omega

theorem Follows.happen {e : Happening} (h : Follows d s fd id total n log r)
    (he : e.drains fd = true) (hrun : r.happen d e = (log', some r')) :
    Follows d s fd id total (min total (n + 1)) (log ++ log') r' := by
  cases e with
  | ready e =>
      simp only [Happening.drains, Bool.and_eq_true, decide_eq_true_eq, Bool.not_eq_true',
        List.isEmpty_eq_false_iff] at he
      obtain ⟨⟨⟨rfl, herror⟩, houtput⟩, haccepted⟩ := he
      change r.dispatchReady d e = _ at hrun
      unfold Reactor.dispatchReady at hrun
      rw [herror, if_neg Bool.false_ne_true, houtput] at hrun
      split at hrun
      · cases (Prod.mk.inj hrun).2
      · rename_i log₁ r₁ hread
        obtain ⟨rfl, hr⟩ := Prod.mk.inj hrun
        obtain rfl := Option.some.inj hr
        have hread' := (invariant_follows d 0 s e.fd id total n).callReadable h hread
        rw [← List.append_assoc]
        exact hread'.drain haccepted
  | _ => cases he

theorem Follows.dispatchBatch {batch : List Happening} (h : Follows d s fd id total n log r)
    (hrun : Reactor.dispatchBatch d batch r = (log', some r')) :
    Follows d s fd id total (min total (n + batch.countP (Happening.drains fd))) (log ++ log')
      r' := by
  induction batch generalizing log log' r n with
  | nil =>
      obtain ⟨rfl, hr⟩ := Prod.mk.inj hrun
      obtain rfl := Option.some.inj hr
      rw [List.append_nil]
      exact h.mono (min_le_right _ _)
  | cons e batch ih =>
      rw [Reactor.dispatchBatch] at hrun
      split at hrun
      · cases (Prod.mk.inj hrun).2
      · rename_i log₁ r₁ hfirst
        obtain ⟨rfl, hr⟩ := Prod.mk.inj hrun
        rw [List.countP_cons, ← List.append_assoc]
        by_cases he : e.drains fd = true
        · refine (ih (h.happen he hfirst) (Prod.ext rfl hr)).mono ?_
          rw [if_pos he]
          omega
        · have hstep := (invariant_follows d 0 s fd id total n).happen h hfirst
          rw [if_neg he]
          exact ih hstep (Prod.ext rfl hr)

theorem not_running_of_run {wakes : List Wake} (hstopped : r.running = false)
    (hrun : Reactor.run d interval wakes r = (log', some r')) : r'.running = false := by
  cases wakes with
  | nil =>
      obtain ⟨-, hr⟩ := Prod.mk.inj hrun
      exact Option.some.inj hr ▸ hstopped
  | cons wake wakes =>
      unfold Reactor.run at hrun
      rw [hstopped, if_neg Bool.false_ne_true] at hrun
      obtain ⟨-, hr⟩ := Prod.mk.inj hrun
      exact Option.some.inj hr ▸ hstopped

theorem Follows.run {wakes : List Wake} (h : Follows d s fd id total n log r)
    (hfailed : Wake.failed ∉ wakes) (hrunning : r'.running = true)
    (hrun : Reactor.run d interval wakes r = (log', some r')) :
    Follows d s fd id total (min total (n + (wakes.map (Wake.drains fd)).sum)) (log ++ log')
      r' := by
  induction wakes generalizing log log' r n with
  | nil =>
      obtain ⟨rfl, hr⟩ := Prod.mk.inj hrun
      obtain rfl := Option.some.inj hr
      rw [List.append_nil]
      exact h.mono (min_le_right _ _)
  | cons wake wakes ih =>
      have hrest : Wake.failed ∉ wakes := fun hin => hfailed (.tail _ hin)
      cases hr : r.running with
      | false =>
          rw [not_running_of_run hr hrun] at hrunning
          cases hrunning
      | true =>
          rw [List.map_cons, List.sum_cons]
          unfold Reactor.run at hrun
          rw [hr, if_pos rfl] at hrun
          cases wake with
          | failed => exact absurd List.mem_cons_self hfailed
          | interrupted =>
              have hnone : Wake.interrupted.drains fd = 0 := rfl
              rw [hnone, Nat.zero_add]
              exact ih h hrest hrun
          | ready batch tick =>
              dsimp only at hrun
              split at hrun
              · cases (Prod.mk.inj hrun).2
              · rename_i log₁ r₁ hbatch
                obtain ⟨rfl, hr₁⟩ := Prod.mk.inj hrun
                have htimer := (invariant_follows d interval s fd id total _).timer tick
                  (h.dispatchBatch hbatch)
                have hlast := ih htimer hrest (Prod.ext rfl hr₁)
                rw [List.append_assoc, List.append_assoc, ← List.append_assoc log₁] at hlast
                refine hlast.mono ?_
                rw [Wake.drains]
                omega

/-- In every state of the server that a run reaches: if the kernel reports for a connection that its
socket takes bytes, and takes some, at least as often as there are unsent bytes, then in the end all
of these have been sent, before anything else, or the connection has been closed. Other clients,
signals, timers and further requests of the same client make no difference. -/
theorem replies_delivered {wakes more : List Wake} {c : Connection}
    (hreached : Reactor.run d interval wakes (started d s monotonic) = (log, some r))
    (hc : r.server.clients fd = some c)
    (hrun : Reactor.run d interval more r = (log', some r')) (hfailed : Wake.failed ∉ more)
    (hrunning : r'.running = true)
    (hdrains : c.unsent.length ≤ (more.map (Wake.drains fd)).sum) :
    c.unsent <+: sentTo (r.clientIds fd) log' ∨
      ∀ j c', r'.server.clients j = some c' → r'.clientIds j ≠ r.clientIds fd := by
  have hseq := (invariant_sequential d interval s).run [] (sequential_started d s monotonic)
    hreached
  rw [List.nil_append] at hseq
  have hstart := hseq.streams fd c hc
  have hfirst : Follows d s fd (r.clientIds fd) (repliesFor (r.clientIds fd) s log).length
      (sentTo (r.clientIds fd) log).length log r :=
    ⟨hseq, hseq.ids fd c hc, le_rfl, fun j c' hc' hid => ⟨hseq.apart j fd c' c hc' hc hid, le_rfl⟩⟩
  have hlast := hfirst.run hfailed hrunning hrun
  by_cases hopen : ∃ j c', r'.server.clients j = some c' ∧ r'.clientIds j = r.clientIds fd
  · left
    obtain ⟨j, c', hc', hid⟩ := hopen
    obtain ⟨-, hsent⟩ := hlast.sent j c' hc' hid
    have hend := (hlast.sequential.streams j c' hc').replies
    rw [hid, sentTo_append, repliesFor_append, ← hstart.replies, List.append_assoc,
      List.append_assoc] at hend
    have hend := List.append_cancel_left hend
    rw [sentTo_append, List.length_append, ← hstart.replies, List.length_append] at hsent
    exact List.prefix_of_prefix_length_le (List.prefix_append _ _) ⟨c'.unsent, hend⟩ (by omega)
  · right
    exact fun j c' hc' hid => hopen ⟨j, c', hc', hid⟩

/-- A client that asks for a PONG and does not read it yet. -/
def slowClient : List Wake :=
  let answers := fun (accepted : List ℕ) (chunks : List Chunk) =>
    (⟨accepted, 0, ⟨chunks, .wouldBlock⟩, fun _ => .still 10 0, ⟨[], .wouldBlock⟩,
      ⟨[], .wouldBlock⟩⟩ : KernelAnswers)
  let input : EventMask := ⟨false, true, false⟩
  let tick : TimerTick := ⟨200, 10, ⟨0, 0⟩, ⟨0, 0⟩, ⟨0, 0⟩⟩
  [.ready [.ready ⟨3, input, answers [5] []⟩, .ready ⟨5, input, answers []
    [⟨(commandFrame [ascii "PING"]).wire, by decide, by decide⟩]⟩] tick]

/-- Seven times one byte. -/
def readsByByte : List Wake :=
  List.replicate 7 (.ready [.ready ⟨5, ⟨false, false, true⟩,
    ⟨[], 0, ⟨[], .wouldBlock⟩, fun _ => .still 10 0, ⟨[], .wouldBlock⟩, ⟨[0], .wouldBlock⟩⟩⟩]
    ⟨200, 10, ⟨0, 0⟩, ⟨0, 0⟩, ⟨0, 0⟩⟩)

theorem replies_delivered_pong :
    ∃ log r c log' r', Reactor.run ⟨3, 4, 65536⟩ 100 slowClient
        (started ⟨3, 4, 65536⟩ freshSession 0) = (log, some r) ∧
      r.server.clients 5 = some c ∧ c.unsent.length = 7 ∧
      Reactor.run ⟨3, 4, 65536⟩ 100 readsByByte r = (log', some r') ∧
      (c.unsent <+: sentTo (r.clientIds 5) log' ∨
        ∀ j c', r'.server.clients j = some c' → r'.clientIds j ≠ r.clientIds 5) := by
  have hunsent : ((Reactor.run ⟨3, 4, 65536⟩ 100 slowClient
      (started ⟨3, 4, 65536⟩ freshSession 0)).2.bind fun r =>
        (r.server.clients 5).map fun c => c.unsent.length) = some 7 := by decide +kernel
  have hrunning : ((Reactor.run ⟨3, 4, 65536⟩ 100 slowClient
      (started ⟨3, 4, 65536⟩ freshSession 0)).2.bind fun r =>
        (Reactor.run ⟨3, 4, 65536⟩ 100 readsByByte r).2.map Reactor.running) = some true := by
    decide +kernel
  obtain ⟨⟨log, result⟩, hreached⟩ : ∃ p, Reactor.run ⟨3, 4, 65536⟩ 100 slowClient
      (started ⟨3, 4, 65536⟩ freshSession 0) = p := ⟨_, rfl⟩
  rw [hreached] at hunsent hrunning
  obtain ⟨r, rfl, hunsent⟩ := Option.bind_eq_some_iff.mp hunsent
  obtain ⟨c, hc, hlength⟩ := Option.map_eq_some_iff.mp hunsent
  rw [Option.bind_some] at hrunning
  obtain ⟨⟨log', result'⟩, hrun⟩ : ∃ p, Reactor.run ⟨3, 4, 65536⟩ 100 readsByByte r = p :=
    ⟨_, rfl⟩
  rw [hrun] at hrunning
  obtain ⟨r', rfl, hon⟩ := Option.map_eq_some_iff.mp hrunning
  exact ⟨log, r, c, log', r', hreached, hc, hlength, hrun, replies_delivered hreached hc hrun
    (by simp [readsByByte]) hon (hlength.trans_le (by decide))⟩

end Reactor

end Keva
