import Keva.Command.Lookalike
import Keva.Lib.Weave
import Keva.Server.Startup

/-!
# Work in the background

Between two requests the server deletes expired keys, migrates buckets and reaps children. None of
that shows in its replies: two servers whose databases show the same and that are given the same
requests answer alike, whatever either does between them. A server that has loaded a snapshot
answers like the one that took it.
-/

namespace Keva

open Session

theorem Keyspace.SameShown.later {t T : MillisecondTimestamp} {K K' : Keyspace} (ht : t ≤ T)
    (h : K.SameShown t K') : K.SameShown T K' := by
  intro k
  have hiff : ∀ p, K'.shown T k = some p ↔ K.shown T k = some p := by
    rintro ⟨v, e⟩
    rw [Keyspace.shown_eq_some_of_le ht, Keyspace.shown_eq_some_of_le ht, h k]
  exact Option.ext hiff

theorem Keyspace.Proper.reaped {now : MillisecondTimestamp} {K K' : Keyspace} (h : K.Proper)
    (hr : Keyspace.Reaped now K K') : K'.Proper :=
  ⟨h.wellEncoded.reaped hr, (h.healthy.reaped hr).noOrphans⟩

theorem Keyspace.Proper.executeFrame {s : Session} (h : s.db.content.Proper) (env : ℕ → World)
    (f : RespValue) : (s.exec env (executeFrame f)).2.db.content.Proper :=
  ⟨wellEncoded_executeFrame f env h.wellEncoded, noOrphans_executeFrame f env h.noOrphans⟩

theorem KevaDatabase.Reachable.proper {P Q : DictParams} {db : KevaDatabase}
    (h : KevaDatabase.Reachable P Q db) : db.content.Proper :=
  ⟨h.wellEncoded, h.healthy.noOrphans⟩

namespace Lookalike

variable {t T : MillisecondTimestamp} {K K' L : Keyspace}

theorem later (h : Lookalike t K K') (ht : t ≤ T) : Lookalike T K K' :=
  ⟨h.proper, h.proper', h.shown.later ht⟩

theorem reaped_left (h : Lookalike t K K') (hr : Keyspace.Reaped t K L) : Lookalike t L K' :=
  ⟨h.proper.reaped hr, h.proper', fun k => by rw [h.shown, hr.shown_eq Int64.le_rfl]⟩

theorem reaped_right (h : Lookalike t K K') (hr : Keyspace.Reaped t K' L) : Lookalike t K L :=
  ⟨h.proper, h.proper'.reaped hr, fun k => by rw [hr.shown_eq Int64.le_rfl, h.shown]⟩

end Lookalike

instance preorderInt64 : Preorder Int64 where
  le := (· ≤ ·)
  lt := (· < ·)
  le_refl _ := Int64.le_rfl
  le_trans _ _ _ := Int64.le_trans
  lt_iff_le_not_ge a b := by
    rw [Int64.lt_iff_toInt_lt, Int64.le_iff_toInt_le, Int64.le_iff_toInt_le]
    omega

namespace ServerEvent

def isRequest : ServerEvent → Bool
  | .request _ _ => true
  | _ => false

/-- No time passes while a frame is executed or while the cron runs. -/
def At (t : MillisecondTimestamp) : ServerEvent → Prop
  | .request env _ => ∃ w : World, w.nowMs = t ∧ env = fun _ => w
  | .cron now _ _ _ => now = t
  | _ => True

end ServerEvent

/-- The bytes that an event makes the server put out. -/
def Session.respond (s : Session) : ServerEvent → Bytes × Session
  | .request env frame => replyStep env s frame
  | e => ([], s.handle e)

theorem respond_snd (s : Session) (e : ServerEvent) : (s.respond e).2 = s.handle e := by
  cases e <;> rfl

theorem foldl_respond (s : Session) (events : List ServerEvent) :
    events.foldl (fun s e => (s.respond e).2) s = s.handleAll events := by
  have hstep : (fun s e => (Session.respond s e).2) = Session.handle :=
    funext fun s => funext (respond_snd s)
  rw [hstep]
  rfl

/-- The requests of a run, each with its reply. -/
def Session.transcript (s : Session) (events : List ServerEvent) : List (ServerEvent × Bytes) :=
  Weave.transcript ServerEvent.isRequest Session.respond s events

/-- What may be seen of a reply. -/
def AnswersAlike : ServerEvent → Bytes → Bytes → Prop
  | .request _ frame, bytes, bytes' => Discreet frame → SameAnswer frame bytes bytes'
  | _, _, _ => True

theorem reaped_handle {t : MillisecondTimestamp} {e : ServerEvent} (hat : e.At t)
    (he : e.isRequest = false) (s : Session) :
    Keyspace.Reaped t s.db.content (s.handle e).db.content := by
  cases e with
  | request env frame => cases he
  | cron now draw₁ draw₂ draw₃ =>
      obtain rfl : now = t := hat
      exact s.reaped_serverCron now draw₁ draw₂ draw₃
  | rehash =>
      change Keyspace.Reaped t s.db.content s.db.rehashStep.content
      rw [KevaDatabase.content_rehashStep]
      exact .refl _
  | childFinishes clock =>
      change Keyspace.Reaped t s.db.content (s.finishChild clock).db.content
      rw [Session.finishChild_db]
      exact .refl _
  | childExit time =>
      change Keyspace.Reaped t s.db.content (s.onBgsaveChildExit time).db.content
      rw [Session.onBgsaveChildExit_db]
      exact .refl _

theorem proper_handle {s : Session} (h : s.db.content.Proper) (e : ServerEvent) :
    (s.handle e).db.content.Proper := by
  cases e with
  | request env frame => exact h.executeFrame env frame
  | cron now draw₁ draw₂ draw₃ => exact h.reaped (s.reaped_serverCron now draw₁ draw₂ draw₃)
  | rehash => exact h.reaped (reaped_handle (t := 0) (e := .rehash) trivial rfl s)
  | childFinishes clock =>
      exact h.reaped (reaped_handle (t := 0) (e := .childFinishes clock) trivial rfl s)
  | childExit time => exact h.reaped (reaped_handle (t := 0) (e := .childExit time) trivial rfl s)

/-- The databases of two servers look alike. -/
def Related (t : MillisecondTimestamp) (s s' : Session) : Prop :=
  Lookalike t s.db.content s'.db.content

theorem lookalike_respond {t : MillisecondTimestamp} {e : ServerEvent} {s s' : Session}
    (hat : e.At t) (he : e.isRequest = true) (h : Related t s s') :
    AnswersAlike e (s.respond e).1 (s'.respond e).1 ∧
      Related t (s.respond e).2 (s'.respond e).2 := by
  cases e with
  | request env frame =>
      obtain ⟨w, hw, rfl⟩ := hat
      obtain ⟨hshown, hanswer⟩ := replyStep_lookalike hw h frame
      exact ⟨hanswer, h.proper.executeFrame _ frame, h.proper'.executeFrame _ frame, hshown⟩
  | _ => cases he

theorem related_respond_left {t : MillisecondTimestamp} {e : ServerEvent} {s s' : Session}
    (hat : e.At t) (he : e.isRequest = false) (h : Related t s s') :
    Related t (s.respond e).2 s' := by
  rw [respond_snd]
  exact h.reaped_left (reaped_handle hat he s)

theorem related_respond_right {t : MillisecondTimestamp} {e : ServerEvent} {s s' : Session}
    (hat : e.At t) (he : e.isRequest = false) (h : Related t s s') :
    Related t s (s'.respond e).2 := by
  rw [respond_snd]
  exact h.reaped_right (reaped_handle hat he s')

section

variable {t T : MillisecondTimestamp} {s s' : Session} {events events' : List ServerEvent}

theorem Related.answered (h : Related t s s')
    (hwoven : Weave.Woven ServerEvent.isRequest ServerEvent.At t events events' T) :
    Weave.Answered AnswersAlike (s.transcript events) (s'.transcript events') :=
  (hwoven.answered (fun ht hs => hs.later ht) related_respond_left related_respond_right
    lookalike_respond h).1

theorem Related.handleAll (h : Related t s s')
    (hwoven : Weave.Woven ServerEvent.isRequest ServerEvent.At t events events' T) :
    Related T (s.handleAll events) (s'.handleAll events') := by
  rw [← foldl_respond, ← foldl_respond]
  exact (hwoven.answered (fun ht hs => hs.later ht) related_respond_left related_respond_right
    lookalike_respond h).2

/-- Two servers whose databases show the same and that are given the same requests answer alike and
show the same in the end, whatever happens between the requests on either side. -/
theorem background_unnoticed (h : Related t s s')
    (hwoven : Weave.Woven ServerEvent.isRequest ServerEvent.At t events events' T) :
    Weave.Answered AnswersAlike (s.transcript events) (s'.transcript events') ∧
      Related T (s.handleAll events) (s'.handleAll events') :=
  ⟨h.answered hwoven, h.handleAll hwoven⟩

end

/-- The cron of one of the servers runs after the key has expired. -/
theorem background_unnoticed_cron :
    let request := fun (now : MillisecondTimestamp) (words : List Bytes) =>
      ServerEvent.request (fun _ => World.still now 0) (commandFrame words)
    let set := request 10 [ascii "PSETEX", ascii "k", ascii "5", ascii "v"]
    let get := request 20 [ascii "GET", ascii "k"]
    let draw : SampleDraw := ⟨0, 0⟩
    Weave.Answered AnswersAlike (freshSession.transcript [set, .cron 18 draw draw draw, get])
      (freshSession.transcript [set, .rehash, get]) := by
  intro request set get draw
  have hfresh : Related 0 freshSession freshSession :=
    ⟨KevaDatabase.Reachable.proper .empty, KevaDatabase.Reachable.proper .empty, fun _ => rfl⟩
  have hset : set.At 10 := ⟨World.still 10 0, rfl, rfl⟩
  have hcron : (ServerEvent.cron 18 draw draw draw).At 18 := rfl
  have hget : get.At 20 := ⟨World.still 20 0, rfl, rfl⟩
  refine (background_unnoticed (T := 20) hfresh ?_).1
  refine .both (by decide) hset rfl (.left (by decide) hcron rfl ?_)
  exact .right le_rfl trivial rfl (.both (by decide) hget rfl (.nil le_rfl))

/-- `main` up to the event loop. The configuration does not keep it from loading the snapshot. -/
def Session.start (P Q : DictParams) (server : ServerContext) (secs : ℕ → Int64) (file : RdbFile) :
    Session :=
  { Session.initial P Q server with db := (KevaDatabase.empty P Q).loadAtStartup secs file }

theorem Keyspace.Restores.sameShown {t : MillisecondTimestamp} {K K' : Keyspace}
    (h : Keyspace.Restores t K K') : K.SameShown t K' := by
  intro k
  have hvalues := h.values k
  have hdeadlines := h.deadlines k
  cases hshown : K.shown t k with
  | none =>
      rw [hshown] at hvalues
      exact Keyspace.shown_of_none (Option.map_eq_none_iff.mp hvalues)
  | some p =>
      obtain ⟨v, e⟩ := p
      rw [hshown] at hvalues hdeadlines
      obtain ⟨obj, ho, hv⟩ := Option.map_eq_some_iff.mp hvalues
      obtain ⟨_, -, he, -, hd⟩ := Keyspace.shown_eq_some_iff.mp hshown
      have hsame : K'.deadlines k = K.deadlines k := hdeadlines.trans hd.symm
      refine Keyspace.shown_eq_some_iff.mpr ⟨obj, ho, ?_, hv, hdeadlines⟩
      rw [Keyspace.expired_congr t hsame, he]

/-- No key and no value is longer than the length fields of a snapshot can tell. -/
def Keyspace.Short (K : Keyspace) : Prop :=
  ∀ k obj, K.objects k = some obj → k.length < 2 ^ 32 ∧ obj.getStringValue.length < 2 ^ 32

section

variable {t T : MillisecondTimestamp} {db : KevaDatabase} {events events' : List ServerEvent}

theorem proper_start (P Q : DictParams) (server : ServerContext) (secs : ℕ → Int64)
    (file : RdbFile) : (Session.start P Q server secs file).db.content.Proper := by
  have hreach := KevaDatabase.Reachable.rdbLoad (P := P) (Q := Q) secs file .empty
  have hflush : ((KevaDatabase.empty P Q).rdbLoad secs file).2.flush.content.Proper := by
    rw [KevaDatabase.content_flush, ← KevaDatabase.content_empty P Q]
    exact (KevaDatabase.Reachable.empty (P := P) (Q := Q)).proper
  unfold Session.start KevaDatabase.loadAtStartup
  dsimp only
  split
  · rename_i db heq
    rw [heq] at hreach
    exact hreach.proper
  · rename_i e db heq
    rw [heq] at hreach hflush
    split_ifs
    · exact hflush
    · exact hreach.proper

theorem lookalike_start (h : db.content.Proper) (hshort : db.content.Short) (ht : 0 ≤ t.toInt)
    (P Q : DictParams) (server : ServerContext) (secs : ℕ → Int64) (dbId : UInt32) :
    Lookalike t db.content (Session.start P Q server secs
      (.whole (rdb.image dbId (db.saveRecords fun _ => t).1))).db.content := by
  refine ⟨h, proper_start P Q server secs _, Keyspace.Restores.sameShown ?_⟩
  obtain ⟨hok, hrestores⟩ :=
    KevaDatabase.restores_rdbLoad ht h.healthy.canonical hshort P Q dbId secs
  unfold Session.start KevaDatabase.loadAtStartup
  generalize (KevaDatabase.empty P Q).rdbLoad secs
    (.whole (rdb.image dbId (db.saveRecords fun _ => t).1)) = r at hok hrestores ⊢
  obtain ⟨status, db'⟩ := r
  obtain rfl : status = .ok () := hok
  exact hrestores

/-- Whatever its hash functions, a server that was started from a snapshot answers every run of
requests as the server would have that took the snapshot. -/
theorem restart_unnoticed {P Q : DictParams} {s : Session}
    (h : KevaDatabase.Reachable P Q s.db) (hshort : s.db.content.Short) (ht : 0 ≤ t.toInt)
    (hwoven : Weave.Woven ServerEvent.isRequest ServerEvent.At t events events' T)
    (P' Q' : DictParams) (server : ServerContext) (secs : ℕ → Int64) (dbId : UInt32) :
    Weave.Answered AnswersAlike (s.transcript events)
      ((Session.start P' Q' server secs
        (.whole (rdb.image dbId (s.db.saveRecords fun _ => t).1))).transcript events') :=
  Related.answered (lookalike_start h.proper hshort ht P' Q' server secs dbId) hwoven

end

/-- A key that was saved is read after the restart. -/
theorem restart_unnoticed_set :
    let P := DictParams.exact fun _ => 0
    let env := fun _ : ℕ => World.still 10 0
    let k := ascii "k"
    let s := (freshSession.exec env (executeFrame (commandFrame [ascii "SET", k, ascii "v"]))).2
    let get := ServerEvent.request (fun _ => World.still 20 0) (commandFrame [ascii "GET", k])
    let restarted := Session.start P P (.init ⟨6379, 10, true⟩ 0) (fun _ => 0)
      (.whole (rdb.image 0 (s.db.saveRecords fun _ => 12).1))
    Weave.Answered AnswersAlike (s.transcript [get]) (restarted.transcript [.rehash, get]) := by
  intro P env k s get restarted
  have hreach : KevaDatabase.Reachable P P s.db := .command env _ freshSession .empty
  have hall : s.db.keys.forEach.all fun p =>
      p.1.length < 2 ^ 32 && p.2.getStringValue.length < 2 ^ 32 := by decide +kernel
  have hshort : s.db.content.Short := by
    intro k obj ho
    have hmem : (k, obj) ∈ s.db.keys.forEach := (Dict.mem_forEach_iff s.db.keys_sound).mpr ho
    have hshort := List.all_eq_true.mp hall (k, obj) hmem
    simpa using hshort
  have hget : get.At 20 := ⟨World.still 20 0, rfl, rfl⟩
  refine restart_unnoticed (T := 20) hreach hshort (by decide) ?_ P P _ _ _
  exact .right le_rfl trivial rfl (.both (by decide) hget rfl (.nil le_rfl))

end Keva
