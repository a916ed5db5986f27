import Keva.Server.Background
import Keva.Server.Sequential

/-!
# A server that is stopped and started again

The final save of one process is what the next one loads. The clients of the next one are sent what
the first one would have sent them if it had gone on. So they are after any number of restarts: the
replies are those of one process that has done everything since the first start.
-/

namespace Keva

open Session

namespace Entry

/-- No time passes while a frame is executed or while the cron runs. -/
def At (t : MillisecondTimestamp) : Entry → Prop
  | .dispatched _ env _ => ∃ w : World, w.nowMs = t ∧ env = fun _ => w
  | .cron tick => tick.now = t
  | _ => True

/-- What two replies to the same entry have in common. -/
def SameReply : Entry → Bytes → Bytes → Prop
  | .dispatched _ _ ⟨_, .execute frame⟩, bytes, bytes' =>
      Discreet frame → SameAnswer frame bytes bytes'
  | _, bytes, bytes' => bytes = bytes'

variable {t : MillisecondTimestamp} {e : Entry} {s s' : Session}

theorem reap_db (s : Session) (status : Option Bool) (time : Int64) :
    (s.reap status time).db = s.db := by
  rcases status with _ | _ | _ <;> rfl

theorem lookalike_perform (hat : e.At t) (h : Related t s s') :
    e.SameReply (e.perform s).1 (e.perform s').1 ∧
      Related t (e.perform s).2 (e.perform s').2 := by
  have hsame : (∀ s, (e.perform s).2.db = s.db) → Related t (e.perform s).2 (e.perform s').2 := by
    intro hdb
    unfold Related
    rwa [hdb, hdb]
  cases e with
  | dispatched id env step =>
      obtain ⟨w, hw, rfl⟩ := hat
      obtain ⟨state, action⟩ := step
      cases action with
      | execute frame =>
          -- the frame finds the state of its own connection and no output so far
          let start := fun s : Session => { s with state := state, output := [] }
          have hstart : Lookalike t (start s).db.content (start s').db.content := h
          obtain ⟨hshown, hanswer⟩ := replyStep_lookalike hw hstart frame
          exact ⟨hanswer, hstart.proper.executeFrame _ frame, hstart.proper'.executeFrame _ frame,
            hshown⟩
      | reject => exact ⟨rfl, h⟩
  | cron tick =>
      obtain rfl : tick.now = t := hat
      have hleft := h.reaped_left (s.reaped_serverCron tick.now tick.draw₁ tick.draw₂ tick.draw₃)
      exact ⟨rfl, hleft.reaped_right
        (s'.reaped_serverCron tick.now tick.draw₁ tick.draw₂ tick.draw₃)⟩
  | reaped status time => exact ⟨rfl, hsame fun s => reap_db s status time⟩
  | childFinishes clock => exact ⟨rfl, hsame fun s => s.finishChild_db clock⟩
  | _ => exact ⟨rfl, h⟩

end Entry

/-- The reply tells what is shown, and it tells it in one order. -/
def Plain (f : RespValue) : Prop := Discreet f ∧ frameName f ≠ some (ascii "KEYS")

instance decidablePlain : DecidablePred Plain := fun f =>
  inferInstanceAs (Decidable ((∀ name ∈ frameName f, name ∉ revealing) ∧
    frameName f ≠ some (ascii "KEYS")))

theorem SameAnswer.eq_of_plain {f : RespValue} {bytes bytes' : Bytes}
    (h : Discreet f → SameAnswer f bytes bytes') (hplain : Plain f) : bytes = bytes' := by
  rcases h hplain.1 with heq | ⟨hkeys, -⟩
  · exact heq
  · exact absurd hkeys hplain.2

section

variable {t u : MillisecondTimestamp} {s s' : Session} {log : List Entry}

theorem related_replay (h : Related t s s') (htimed : Weave.Timed Entry.At t log u) :
    Related u (replay s log) (replay s' log) := by
  induction htimed generalizing s s' with
  | nil ht => exact h.later ht
  | cons ht hat _ ih => exact ih (Entry.lookalike_perform hat (h.later ht)).2

theorem Related.repliesFor_eq (h : Related t s s') (htimed : Weave.Timed Entry.At t log u) {id : ℕ}
    (hplain : ∀ f ∈ executedFor id log, Plain f) : repliesFor id s log = repliesFor id s' log := by
  induction htimed generalizing s s' with
  | nil ht => rfl
  | @cons t t' u e log ht hat _ ih =>
      obtain ⟨hreply, hrel⟩ := Entry.lookalike_perform hat (h.later ht)
      have hmem : ∀ f, e.executedFor id = some f ∨ f ∈ executedFor id log → Plain f := by
        intro f hf
        apply hplain
        simpa [executedFor] using hf
      have hsame : e.client? = some id → (e.perform s).1 = (e.perform s').1 := by
        intro hid
        cases e with
        | dispatched j env step =>
            obtain rfl : j = id := Option.some.inj hid
            obtain ⟨state, action⟩ := step
            cases action with
            | execute frame => exact SameAnswer.eq_of_plain hreply (hmem frame (.inl (if_pos rfl)))
            | reject => exact hreply
        | _ => exact hreply
      rw [repliesFor, repliesFor, ih hrel fun f hf => hmem f (.inr hf)]
      split_ifs with hid
      · rw [hsame hid]
      · rfl

end

/-- No time passes in a callback. -/
def Happening.At (t : MillisecondTimestamp) : Happening → Prop
  | .ready e => ∃ w : World, w.nowMs = t ∧ e.answers.env = fun _ => w
  | _ => True

/-- The clock does not go back from the time `t` to the time `u`. -/
inductive InOrder : MillisecondTimestamp → List Wake → MillisecondTimestamp → Prop
  | nil {t u : MillisecondTimestamp} (h : t ≤ u) : InOrder t [] u
  | interrupted {t u : MillisecondTimestamp} {wakes : List Wake} (h : InOrder t wakes u) :
      InOrder t (.interrupted :: wakes) u
  | failed {t u : MillisecondTimestamp} {wakes : List Wake} (h : InOrder t wakes u) :
      InOrder t (.failed :: wakes) u
  | ready {t t' u : MillisecondTimestamp} {batch : List Happening} {tick : TimerTick}
      {wakes : List Wake} (hbatch : Weave.Timed Happening.At t batch t') (ht : t' ≤ tick.now)
      (h : InOrder tick.now wakes u) : InOrder t (.ready batch tick :: wakes) u

theorem InOrder.le {t u : MillisecondTimestamp} {wakes : List Wake} (h : InOrder t wakes u) :
    t ≤ u := by
  induction h with
  | nil h => exact h
  | interrupted _ ih => exact ih
  | failed _ ih => exact ih
  | ready hbatch ht _ ih => exact (hbatch.le.trans ht).trans ih

namespace Reactor

variable {d : Descriptors} {interval : ℤ} {r r' : Reactor} {log : List Entry} {a : KernelAnswers}
  {fd : ℕ} {asked : Bool} {w : World} {t u : MillisecondTimestamp} {wakes : List Wake}

theorem at_onNewConnection (fds : List ℕ) :
    ∀ e ∈ (onNewConnection d fds r).1, e.At t := by
  induction fds generalizing r with
  | nil =>
      intro e he
      cases he
  | cons fd fds ih =>
      intro e he
      have haccept : e ∈ (r.accept d fd).1 → e.At t := by
        intro he
        unfold accept at he
        split_ifs at he
        · cases he
        · rw [List.mem_singleton.mp he]
          trivial
      rcases List.mem_append.mp he with he | he
      · exact haccept he
      · exact ih e he

theorem at_onSignalPipeReadable : ∀ e ∈ (r.onSignalPipeReadable a).1, e.At t := by
  intro e he
  unfold onSignalPipeReadable at he
  split at he
  · cases he
  · dsimp only at he
    split at he
    · cases he
    · cases he
    · split_ifs at he
      · cases he
      · rw [List.mem_singleton.mp he]
        trivial

theorem at_onClientReadable (ha : w.nowMs = t ∧ a.env = fun _ => w) :
    ∀ e ∈ (r.onClientReadable fd a).1, e.At t := by
  intro e he
  have hlog : ∀ (id : ℕ) (steps : List DispatchStep),
      e ∈ Entry.received id a.reads.bytes :: steps.map (.dispatched id a.env) → e.At t := by
    intro id steps he
    rcases List.mem_cons.mp he with rfl | he
    · trivial
    · obtain ⟨step, -, rfl⟩ := List.mem_map.mp he
      exact ⟨w, ha⟩
  unfold onClientReadable at he
  split at he
  · cases he
  · dsimp only at he
    split_ifs at he
    · rw [List.mem_singleton.mp he]
      trivial
    · split at he
      · exact hlog _ _ he
      · rcases List.mem_append.mp he with he | he
        · exact hlog _ _ he
        · rw [List.mem_singleton.mp he]
          trivial

theorem at_callReadable (ha : w.nowMs = t ∧ a.env = fun _ => w) :
    ∀ e ∈ (r.callReadable d fd asked a).1, e.At t := by
  intro e he
  unfold callReadable at he
  split at he
  · cases he
  · split_ifs at he
    · unfold onReadable at he
      split_ifs at he
      · exact at_onNewConnection _ e he
      · exact at_onSignalPipeReadable e he
      · exact at_onClientReadable ha e he
    · cases he

theorem at_callWritable : ∀ e ∈ (r.callWritable fd asked a).1, e.At t := by
  intro e he
  unfold callWritable at he
  split at he
  · cases he
  · split_ifs at he
    · unfold onClientWritable at he
      split at he
      · cases he
      · rw [List.mem_singleton.mp he]
        trivial
    · cases he

theorem at_happen {h : Happening} (hat : h.At t) : ∀ e ∈ (r.happen d h).1, e.At t := by
  intro e he
  cases h with
  | ready event =>
      obtain ⟨w, ha⟩ := hat
      change e ∈ (r.dispatchReady d event).1 at he
      unfold dispatchReady at he
      split_ifs at he
      · exact at_callReadable ha e he
      · have hread : ∀ e ∈ (r.callReadable d event.fd event.mask.input event.answers).1, e.At t :=
          at_callReadable ha
        split at he
        · rename_i heq
          rw [heq] at hread
          exact hread e he
        · rename_i heq
          rw [heq] at hread
          rcases List.mem_append.mp he with he | he
          · exact hread e he
          · exact at_callWritable e he
  | signal signal => cases he
  | childFinishes clock =>
      change e ∈ (r.childFinishes clock).1 at he
      unfold childFinishes at he
      split at he
      · rw [List.mem_singleton.mp he]
        trivial
      · cases he
  | childExits ok => cases he

theorem timed_dispatchBatch {batch : List Happening} (h : Weave.Timed Happening.At t batch u)
    (hrun : dispatchBatch d batch r = (log, some r')) : Weave.Timed Entry.At t log u := by
  induction h generalizing log r with
  | nil ht =>
      obtain ⟨rfl, -⟩ := Prod.mk.inj hrun
      exact .nil ht
  | @cons t t' u event batch ht hat _ ih =>
      rw [dispatchBatch] at hrun
      split at hrun
      · cases (Prod.mk.inj hrun).2
      · rename_i log₁ r₁ hfirst
        obtain ⟨rfl, hr⟩ := Prod.mk.inj hrun
        have hlog : ∀ e ∈ (r.happen d event).1, e.At t' := at_happen hat
        rw [hfirst] at hlog
        have htimed := Weave.Timed.of_forall hlog
        exact (htimed.append (ih (Prod.ext rfl hr))).earlier ht

theorem timed_maybeRunTimer (interval : ℤ) (tick : TimerTick) (r : Reactor) :
    Weave.Timed Entry.At tick.now (r.maybeRunTimer interval tick).1 tick.now := by
  unfold maybeRunTimer
  split_ifs
  · exact .nil le_rfl
  · exact .cons le_rfl rfl (.nil le_rfl)
  · exact .nil le_rfl

theorem timed_run (h : InOrder t wakes u) (hrun : run d interval wakes r = (log, some r')) :
    Weave.Timed Entry.At t log u := by
  induction h generalizing log r with
  | nil ht =>
      obtain ⟨rfl, -⟩ := Prod.mk.inj hrun
      exact .nil ht
  | interrupted h ih =>
      rw [run] at hrun
      split_ifs at hrun
      · exact ih hrun
      · obtain ⟨rfl, -⟩ := Prod.mk.inj hrun
        exact .nil h.le
  | failed h =>
      rw [run] at hrun
      split_ifs at hrun <;>
      · obtain ⟨rfl, -⟩ := Prod.mk.inj hrun
        exact .nil h.le
  | ready hbatch ht h ih =>
      rw [run] at hrun
      split_ifs at hrun
      · dsimp only at hrun
        split at hrun
        · cases (Prod.mk.inj hrun).2
        · rename_i log₁ r₁ hfirst
          obtain ⟨rfl, hr⟩ := Prod.mk.inj hrun
          have hrest := ih (Prod.ext rfl hr)
          have htimer := (timed_maybeRunTimer interval _ r₁).earlier ht
          exact ((timed_dispatchBatch hbatch hfirst).append htimer).append hrest
      · obtain ⟨rfl, -⟩ := Prod.mk.inj hrun
        exact .nil ((hbatch.le.trans ht).trans h.le)

end Reactor

/-- The file that `rdb_filename` names, as the last save has left it. -/
def Session.file (s : Session) : RdbFile :=
  match s.snapshot with
  | none => .missing
  | some records => .whole (rdb.image 0 records)

theorem file_shutdown {s : Session} {w : World} {t : MillisecondTimestamp}
    (henabled : s.server.config.rdbEnabled) (hdirty : 0 < s.server.dirtyKeys)
    (hsave : w.save = .ok) (hclock : w.saveClock = fun _ => t) :
    (s.shutdown w).file = .whole (rdb.image 0 (s.db.saveRecords fun _ => t).1) := by
  rw [Session.shutdown, if_pos ⟨henabled, hdirty⟩, Session.rdbSaveSync, hsave, hclock]
  rfl

namespace Reactor

/-- A process on the descriptors `d` has started with the session `start` at the time `t`. Since
then it has done what is in `log`, and at the time `u` it is at `r`. -/
def Process (d : Descriptors) (start : Session) (t : MillisecondTimestamp) (log : List Entry)
    (r : Reactor) (u : MillisecondTimestamp) : Prop :=
  ∃ interval wakes monotonic, InOrder t wakes u ∧
    Reactor.run d interval wakes (started d start monotonic) = (log, some r)

/-- The final save is made, and it succeeds without time passing. -/
structure SavesAt (t : MillisecondTimestamp) (r : Reactor) (w : World) : Prop where
  enabled : r.session.server.config.rdbEnabled
  dirty : 0 < r.session.server.dirtyKeys
  ok : w.save = .ok
  clock : w.saveClock = fun _ => t
  nonneg : 0 ≤ t.toInt
  short : r.session.db.content.Short

/-- Processes one after the other, the first of which starts with the session `s` and each other one
from what the one before it has saved. `past` is what all but the last one have done. The last one
has started with `start`, has done what is in `log` and is at `r` at the time `t`. -/
inductive Succession (s : Session) : List Entry → Session → List Entry → Reactor →
    MillisecondTimestamp → Prop
  | first {d : Descriptors} {log : List Entry} {r : Reactor} {t u : MillisecondTimestamp}
      (h : Process d s t log r u) : Succession s [] s log r u
  | next {d d' : Descriptors} {past log log' : List Entry} {start : Session} {r r' : Reactor}
      {t t' u : MillisecondTimestamp} {w : World} {P Q : DictParams} {server : ServerContext}
      {secs : ℕ → Int64} (h : Succession s past start log r t) (ht : t ≤ t')
      (hsaves : SavesAt t' r w)
      (h' : Process d' (Session.start P Q server secs (r.finish d w).session.file) t' log' r' u) :
      Succession s (past ++ log) (Session.start P Q server secs (r.finish d w).session.file) log' r'
        u

variable {s start : Session} {past log : List Entry} {r : Reactor} {t : MillisecondTimestamp}

theorem Process.sequential {d : Descriptors} {u : MillisecondTimestamp}
    (h : Process d start t log r u) : Sequential d start log r := by
  obtain ⟨interval, wakes, monotonic, -, hrun⟩ := h
  exact (invariant_sequential d interval start).run [] (sequential_started d start monotonic) hrun

theorem Process.timed {d : Descriptors} {u : MillisecondTimestamp}
    (h : Process d start t log r u) : Weave.Timed Entry.At t log u := by
  obtain ⟨interval, wakes, monotonic, horder, hrun⟩ := h
  exact timed_run horder hrun

theorem Succession.sequential (h : Succession s past start log r t) :
    ∃ d, Sequential d start log r := by
  cases h with
  | first h => exact ⟨_, h.sequential⟩
  | next _ _ _ h' => exact ⟨_, h'.sequential⟩

theorem Succession.related (h : Succession s past start log r t) (hproper : s.db.content.Proper) :
    ∃ t₀, Weave.Timed Entry.At t₀ log t ∧ Related t₀ (replay s past) start := by
  induction h with
  | first h => exact ⟨_, h.timed, hproper, hproper, fun _ => rfl⟩
  | @next d d' past log log' start r r' t t' u w P Q server secs h ht hsaves h' ih =>
      refine ⟨t', h'.timed, ?_⟩
      obtain ⟨t₀, htimed, hrelated⟩ := ih
      have hend : Related t (replay s (past ++ log)) r.session := by
        obtain ⟨_, hsequential⟩ := h.sequential
        rw [replay_append, hsequential.session]
        exact related_replay hrelated htimed
      have hfile : (r.finish d w).session.file =
          .whole (rdb.image 0 (r.session.db.saveRecords fun _ => t').1) :=
        file_shutdown hsaves.enabled hsaves.dirty hsaves.ok hsaves.clock
      have hstart := lookalike_start hend.proper' hsaves.short hsaves.nonneg P Q server secs 0
      rw [← hfile] at hstart
      refine ⟨hend.proper, hstart.proper', fun k => ?_⟩
      rw [hstart.shown, hend.shown.later ht]

/-- However often the server is stopped and started again, the clients of the process that runs now
are sent the bytes that one process would send them which had done everything since the first
start. -/
theorem restarts_unnoticed {P Q : DictParams} {server : ServerContext} {secs : ℕ → Int64}
    {file : RdbFile} (h : Succession (Session.start P Q server secs file) past start log r t)
    {id : ℕ} (hplain : ∀ f ∈ executedFor id log, Plain f) :
    let replies := repliesFor id (replay (Session.start P Q server secs file) past) log
    sentTo id log <+: replies ∧
      ∀ fd c, r.server.clients fd = some c → r.clientIds fd = id →
        sentTo id log ++ c.unsent = replies := by
  intro replies
  obtain ⟨d, hsequential⟩ := h.sequential
  obtain ⟨t₀, htimed, hrelated⟩ := h.related (proper_start P Q server secs file)
  have hreplies : replies = repliesFor id start log := hrelated.repliesFor_eq htimed hplain
  rw [hreplies]
  refine ⟨(hsequential.served id).sent, fun fd c hc hid => ?_⟩
  rw [← hid]
  exact (hsequential.streams fd c hc).replies

/-- A client that has just connected sends one command. -/
def oneCommand (now : MillisecondTimestamp) (words : List Bytes)
    (h : (commandFrame words).wire ≠ [])
    (hlen : (commandFrame words).wire.length ≤ constants.readBufferSize) : List Wake :=
  let answers := fun (accepted : List ℕ) (chunks : List Chunk) =>
    (⟨accepted, 0, ⟨chunks, .wouldBlock⟩, fun _ => .still now 0, ⟨[100], .wouldBlock⟩,
      ⟨[], .wouldBlock⟩⟩ : KernelAnswers)
  let input : EventMask := ⟨false, true, false⟩
  [.ready [.ready ⟨3, input, answers [5] []⟩,
    .ready ⟨5, input, answers [] [⟨(commandFrame words).wire, h, hlen⟩]⟩]
      ⟨0, now, ⟨0, 0⟩, ⟨0, 0⟩, ⟨0, 0⟩⟩]

theorem inOrder_oneCommand {t now : MillisecondTimestamp} (ht : t ≤ now) (words : List Bytes)
    (h : (commandFrame words).wire ≠ [])
    (hlen : (commandFrame words).wire.length ≤ constants.readBufferSize) :
    InOrder t (oneCommand now words h hlen) now := by
  have hat : ∀ e : ReadyEvent, (e.answers.env = fun _ => .still now 0) →
      (Happening.ready e).At now := fun e he => ⟨World.still now 0, rfl, he⟩
  refine .ready (.cons ht (hat _ rfl) (.cons le_rfl (hat _ rfl) (.nil le_rfl))) le_rfl ?_
  exact .nil le_rfl

/-- A value that was written before the restart is read after it. -/
theorem restarts_unnoticed_get :
    let P := DictParams.exact fun _ => 0
    let s := Session.start P P (.init ⟨6379, 10, true⟩ 0) (fun _ => 0) .missing
    ∃ past start log r, Succession s past start log r 30 ∧
      sentTo 1 log <+: repliesFor 1 (replay s past) log := by
  intro P s
  let d : Descriptors := ⟨3, 4, 65536⟩
  let wakes := oneCommand 10 [ascii "SET", ascii "k", ascii "v"] (by decide) (by decide)
  let wakes' := oneCommand 30 [ascii "GET", ascii "k"] (by decide) (by decide)
  let start := fun r : Reactor => Session.start P P (.init ⟨6379, 10, true⟩ 0) (fun _ => 0)
    (r.finish d (.still 20 0)).session.file
  have hall : (Reactor.run d 100 wakes (started d s 0)).2.any fun r =>
      r.session.server.config.rdbEnabled && decide (0 < r.session.server.dirtyKeys) &&
        (r.session.db.keys.forEach.all fun p =>
          p.1.length < 2 ^ 32 && p.2.getStringValue.length < 2 ^ 32) &&
        (Reactor.run d 100 wakes' (started d (start r) 0)).2.isSome &&
        (executedFor 1 (Reactor.run d 100 wakes' (started d (start r) 0)).1).all
          fun f => decide (Plain f) := by
    decide +kernel
  obtain ⟨⟨past, result⟩, hrun⟩ : ∃ p, Reactor.run d 100 wakes (started d s 0) = p := ⟨_, rfl⟩
  rw [hrun] at hall
  obtain ⟨r, rfl, hr⟩ := (Option.any_eq_true _ _).mp hall
  simp only [Bool.and_eq_true, decide_eq_true_eq] at hr
  obtain ⟨⟨⟨⟨henabled, hdirty⟩, hkeys⟩, hsome⟩, hplain⟩ := hr
  have hshort : r.session.db.content.Short := by
    intro k obj ho
    have hmem : (k, obj) ∈ r.session.db.keys.forEach :=
      (Dict.mem_forEach_iff r.session.db.keys_sound).mpr ho
    simpa using List.all_eq_true.mp hkeys (k, obj) hmem
  obtain ⟨⟨log, result⟩, hrun'⟩ : ∃ p, Reactor.run d 100 wakes' (started d (start r) 0) = p :=
    ⟨_, rfl⟩
  rw [hrun'] at hsome hplain
  obtain ⟨r', rfl⟩ := Option.isSome_iff_exists.mp hsome
  have hfirst : Succession s [] s past r 10 :=
    .first ⟨100, wakes, 0, inOrder_oneCommand (t := 10) le_rfl _ _ _, hrun⟩
  have hsaves : SavesAt 20 r (.still 20 0) := ⟨henabled, hdirty, rfl, rfl, by decide, hshort⟩
  have hsecond : Succession s past (start r) log r' 30 :=
    .next hfirst (by decide) hsaves
      ⟨100, wakes', 0, inOrder_oneCommand (by decide) _ _ _, hrun'⟩
  have hreplies := restarts_unnoticed hsecond (by simpa using hplain)
  exact ⟨past, start r, log, r', hsecond, hreplies.1⟩

end Reactor

end Keva
