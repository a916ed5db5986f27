import Keva.Command.Ttl

/-!
# Keys are isolated from each other

A command changes nothing about the keys that it is not about, whatever it does to the two tables.
Conversely its replies and what it leaves of its own keys depend on nothing but those keys: two
sessions that agree on them cannot be told apart. So commands about different keys can be swapped.
BGSAVE also depends on whether a child is running.
-/

namespace Keva

open Session Handler

namespace Keyspace

def AgreeOn (keys : List Bytes) (K K' : Keyspace) : Prop :=
  ∀ k ∈ keys, K.objects k = K'.objects k ∧ K.deadlines k = K'.deadlines k

variable {keys : List Bytes} {K K' : Keyspace} {k : Bytes} {t : MillisecondTimestamp}

theorem AgreeOn.update (h : AgreeOn keys K K') (k : Bytes) {o o' : Option KevaObject}
    {d d' : Option MillisecondTimestamp} (ho : o = o') (hd : d = d') :
    AgreeOn keys ⟨Function.update K.objects k o, Function.update K.deadlines k d⟩
      ⟨Function.update K'.objects k o', Function.update K'.deadlines k d'⟩ := by
  intro j hj
  subst ho hd
  by_cases hjk : j = k
  · rw [hjk]
    dsimp only
    rw [Function.update_self, Function.update_self, Function.update_self, Function.update_self]
    exact ⟨rfl, rfl⟩
  · dsimp only
    rw [Function.update_of_ne hjk, Function.update_of_ne hjk, Function.update_of_ne hjk,
      Function.update_of_ne hjk]
    exact h j hj

theorem AgreeOn.updateObjects (h : AgreeOn keys K K') (hk : k ∈ keys) (o : Option KevaObject) :
    AgreeOn keys { K with objects := Function.update K.objects k o }
      { K' with objects := Function.update K'.objects k o } := by
  have hupdate := h.update k (o := o) rfl (h k hk).2
  rwa [Function.update_eq_self, Function.update_eq_self] at hupdate

theorem AgreeOn.updateDeadlines (h : AgreeOn keys K K') (hk : k ∈ keys)
    (d : Option MillisecondTimestamp) :
    AgreeOn keys { K with deadlines := Function.update K.deadlines k d }
      { K' with deadlines := Function.update K'.deadlines k d } := by
  have hupdate := h.update k (d := d) (h k hk).1 rfl
  rwa [Function.update_eq_self, Function.update_eq_self] at hupdate

theorem AgreeOn.get (h : AgreeOn keys K K') (hk : k ∈ keys) (secs : Int64) :
    (K.get k t secs).1 = (K'.get k t secs).1 ∧
      AgreeOn keys (K.get k t secs).2 (K'.get k t secs).2 := by
  obtain ⟨hko, hkd⟩ := h k hk
  have hexpired := expired_congr t hkd
  cases ho : K.objects k with
  | none =>
      rw [get_of_none ho, get_of_none (hko ▸ ho)]
      exact ⟨rfl, h⟩
  | some obj =>
      cases he : K.expired t k with
      | true =>
          rw [get_of_expired ho he, get_of_expired (hko ▸ ho) (hexpired ▸ he)]
          exact ⟨rfl, h.update k rfl rfl⟩
      | false =>
          rw [get_of_live ho he, get_of_live (hko ▸ ho) (hexpired ▸ he)]
          exact ⟨rfl, h.updateObjects hk _⟩

end Keyspace

variable {keys : List Bytes} {w : World} {s s' : Session} {k : Bytes} {α : Type}

/-- The calls whose answers depend on no more than one key and on the world. -/
def localKinds : List CallKind :=
  [.bounds, .lookup, .inspect, .store, .erase, .deadline, .persist, .ttl, .clock, .reply, .state,
    .account, .save]

theorem Call.Within.agreeOn_effect {op : Call} (hop : op.Within localKinds keys)
    {K K' : Keyspace} (h : K.AgreeOn keys K') : (op.effect w K).AgreeOn keys (op.effect w K') := by
  cases op with
  | get k => exact (h.get (hop.key_mem k rfl) w.time).2
  | set k obj => exact h.update k rfl rfl
  | del k => exact h.update k rfl rfl
  | setExpire k e => exact h.updateDeadlines (hop.key_mem k rfl) _
  | removeExpire k => exact h.updateDeadlines (hop.key_mem k rfl) _
  | flush => exact absurd hop.kind_mem (by decide)
  | _ => exact h

theorem perform_agreeOn {op : Call} (hop : op.Within localKinds keys)
    (h : s.db.content.AgreeOn keys s'.db.content) :
    (s.perform (fun _ => w) op).1 = (s'.perform (fun _ => w) op).1 := by
  cases op with
  | get k =>
      rw [perform_get_fst, perform_get_fst]
      exact (h.get (hop.key_mem k rfl) _).1
  | peek k =>
      obtain ⟨ho, hd⟩ := h k (hop.key_mem k rfl)
      change (s.db.peek k w.nowMs).1 = (s'.db.peek k w.nowMs).1
      rw [KevaDatabase.peek_fst, KevaDatabase.peek_fst, Keyspace.peek, Keyspace.peek, ho,
        Keyspace.expired_congr w.nowMs hd]
  | del k =>
      change (s.db.del k).1 = (s'.db.del k).1
      rw [KevaDatabase.del_fst, KevaDatabase.del_fst, (h k (hop.key_mem k rfl)).1]
  | pttl k =>
      obtain ⟨ho, hd⟩ := h k (hop.key_mem k rfl)
      change (s.db.pttl k w.nowMs).1 = (s'.db.pttl k w.nowMs).1
      rw [KevaDatabase.pttl_fst, KevaDatabase.pttl_fst, Keyspace.pttl, Keyspace.pttl, ho, hd]
  | rdbSaveSync =>
      change (s.rdbSaveSync w).1 = (s'.rdbSaveSync w).1
      unfold Session.rdbSaveSync
      cases w.save <;> rfl
  | forEach | dbsize | serverContext | flush | rdbSaveBackground =>
      exact absurd hop.kind_mem (by decide)
  | _ => rfl

/-- The sessions agree on `keys` and have put out the same bytes since `o` and `o'`. -/
structure InStep (keys : List Bytes) (o o' : Bytes) (s s' : Session) : Prop where
  agree : s.db.content.AgreeOn keys s'.db.content
  output : ∃ bytes, s.output = o ++ bytes ∧ s'.output = o' ++ bytes

theorem inStep_perform {op : Call} (hop : op.Within localKinds keys) {o o' : Bytes}
    (h : InStep keys o o' s s') :
    (s.perform (fun _ => w) op).1 = (s'.perform (fun _ => w) op).1 ∧
      InStep keys o o' (s.perform (fun _ => w) op).2 (s'.perform (fun _ => w) op).2 := by
  refine ⟨perform_agreeOn hop h.agree, ?_, ?_⟩
  · rw [content_perform, content_perform]
    exact hop.agreeOn_effect h.agree
  · obtain ⟨bytes, hout, hout'⟩ := h.output
    by_cases hreply : op.kind = .reply
    · cases op with
      | appendResponse data =>
          refine ⟨bytes ++ data, ?_, ?_⟩
          · change s.output ++ data = _
            rw [hout, List.append_assoc]
          · change s'.output ++ data = _
            rw [hout', List.append_assoc]
      | _ => cases hreply
    · rw [perform_output hreply, perform_output hreply]
      exact ⟨bytes, hout, hout'⟩

theorem inStep_exec {kinds : List CallKind} {p : Handler α} (h : Uses kinds keys p)
    (hkinds : kinds ⊆ localKinds) (hagree : s.db.content.AgreeOn keys s'.db.content) :
    InStep keys s.output s'.output (exec (fun _ => w) p s).2 (exec (fun _ => w) p s').2 := by
  have hcalls : p.Calls (Call.Within localKinds keys) := h.mono hkinds (List.Subset.refl _)
  have hstart : InStep keys s.output s'.output s s' :=
    ⟨hagree, [], (List.append_nil _).symm, (List.append_nil _).symm⟩
  exact (Program.run_related (R := InStep keys s.output s'.output)
    (fun s s' op hop hs => inStep_perform hop hs) hcalls hstart).2

/-- The keys that a frame is about. -/
def frameKeys (frame : RespValue) : List Bytes :=
  match frameCommand frame with
  | none => []
  | some (entry, args) => keyArguments entry args

/-- The name of the command that a frame runs, if it runs one. -/
def frameName (frame : RespValue) : Option Bytes :=
  (frameCommand frame).map fun c => c.1.name

/-- The commands that are about the whole keyspace. -/
def wholeKeyspace : List Bytes := [ascii "FLUSHDB", ascii "KEYS", ascii "DBSIZE", ascii "INFO"]

variable {frame f f' : RespValue}

theorem local_of_frameName {entry : CommandEntry} (he : entry ∈ commandTable)
    (hname : entry.name ∉ wholeKeyspace) (hbgsave : entry.name ≠ ascii "BGSAVE") :
    .account :: (footprint entry.name).kinds ⊆ localKinds := by
  have hall : ∀ e ∈ commandTable, e.name ∉ wholeKeyspace → e.name ≠ ascii "BGSAVE" →
      .account :: (footprint e.name).kinds ⊆ localKinds := by decide
  exact hall entry he hname hbgsave

/-- What BGSAVE replies, given the child that the server knows of. -/
def bgsaveReply (w : World) (pid : ℤ) : Bytes :=
  if pid ≠ -1 then RespEncoder.error (ascii "Background save already in progress")
  else
    match w.fork with
    | .ok _ => RespEncoder.simpleString (ascii "Background saving started")
    | .error message => RespEncoder.error message

theorem perform_rdbSaveBackground (s : Session) :
    let r := s.perform (fun _ => w) .rdbSaveBackground
    r.1 = w.fork.map (fun _ => ()) ∧ r.2.db = s.db ∧ r.2.output = s.output := by
  change (s.rdbSaveBackground w).1 = _ ∧ (s.rdbSaveBackground w).2.db = s.db ∧
    (s.rdbSaveBackground w).2.output = s.output
  unfold Session.rdbSaveBackground
  cases w.fork with
  | ok pid => exact ⟨rfl, rfl, rfl⟩
  | error message => exact ⟨rfl, rfl, rfl⟩

theorem exec_handleBgsave (args : List RespValue) (s : Session) :
    let r := (exec (fun _ => w) (handleBgsave args) s).2
    r.output = s.output ++ bgsaveReply w s.server.bgsaveChildPid ∧ r.db = s.db := by
  rw [handleBgsave, bgsaveReply, exec_serverContext_bind]
  split_ifs
  · exact ⟨rfl, rfl⟩
  · rw [exec_rdbSaveBackground_bind]
    obtain ⟨hstatus, hdb, hout⟩ := @perform_rdbSaveBackground w
      (s.perform (fun _ => w) .serverContext).2
    rw [hstatus]
    cases w.fork with
    | ok pid => exact ⟨congrArg (· ++ _) hout, hdb⟩
    | error message => exact ⟨congrArg (· ++ _) hout, hdb⟩

theorem replyStep_bgsave {entry : CommandEntry} {args : List RespValue}
    (h : frameCommand f = some (entry, args)) (hname : entry.name = ascii "BGSAVE") (s : Session) :
    (replyStep (fun _ => w) s f).1 = bgsaveReply w s.server.bgsaveChildPid ∧
      (replyStep (fun _ => w) s f).2.db = s.db := by
  have hfind := (findCommand_of_frameCommand h).1
  have hentry : some entry = some ⟨ascii "BGSAVE", handleBgsave, 1, 1, false⟩ := by
    rw [← hfind, hname]
    rfl
  obtain rfl := Option.some.inj hentry
  obtain ⟨hout, hdb⟩ := @replyStep_of_frameCommand (fun _ => w) s args f _ h
  obtain ⟨hbytes, hsame⟩ := @exec_handleBgsave w args s
  rw [hbytes] at hout
  exact ⟨(List.append_cancel_left hout).symm, hdb.symm.trans hsame⟩

/-- What a frame replies and leaves of its keys depends on its keys, and for BGSAVE on whether a
child is running. -/
theorem replyStep_agreeOn (hname : ∀ name ∈ frameName f, name ∉ wholeKeyspace)
    (hagree : s.db.content.AgreeOn (frameKeys f) s'.db.content)
    (hchild : frameName f = some (ascii "BGSAVE") →
      s.server.bgsaveChildPid = s'.server.bgsaveChildPid) :
    (replyStep (fun _ => w) s f).1 = (replyStep (fun _ => w) s' f).1 ∧
      (replyStep (fun _ => w) s f).2.db.content.AgreeOn (frameKeys f)
        (replyStep (fun _ => w) s' f).2.db.content := by
  have hlocal : ∀ {kinds : List CallKind}, Uses kinds (frameKeys f) (executeFrame f) →
      kinds ⊆ localKinds → (replyStep (fun _ => w) s f).1 = (replyStep (fun _ => w) s' f).1 ∧
        (replyStep (fun _ => w) s f).2.db.content.AgreeOn (frameKeys f)
          (replyStep (fun _ => w) s' f).2.db.content := by
    intro kinds huses hkinds
    have hstep := @inStep_exec (frameKeys f) w s s' Unit kinds (executeFrame f) huses hkinds hagree
    obtain ⟨bytes, hout, hout'⟩ := hstep.output
    exact ⟨(replyStep_fst hout).trans (replyStep_fst hout').symm, hstep.agree⟩
  cases hc : frameCommand f with
  | none =>
      have hkeys : frameKeys f = [] := by rw [frameKeys, hc]
      exact hlocal (hkeys ▸ executeFrame_of_none hc) (by decide)
  | some c =>
      obtain ⟨entry, args⟩ := c
      obtain ⟨heq, he, ha, -⟩ := executeFrame_of_some hc
      have hkeys : frameKeys f = keyArguments entry args := by rw [frameKeys, hc]
      have hentry : frameName f = some entry.name := by
        rw [frameName, hc]
        rfl
      by_cases hbgsave : entry.name = ascii "BGSAVE"
      · obtain ⟨hreply, hdb⟩ := @replyStep_bgsave w f entry args hc hbgsave s
        obtain ⟨hreply', hdb'⟩ := @replyStep_bgsave w f entry args hc hbgsave s'
        rw [hreply, hreply', hdb, hdb', hchild (hbgsave ▸ hentry)]
        exact ⟨rfl, hagree⟩
      · have huses : Uses (.account :: (footprint entry.name).kinds) (frameKeys f)
            (executeFrame f) := by
          rw [hkeys, heq]
          exact uses_runCommand he ha
        exact hlocal huses (local_of_frameName he (hname _ hentry) hbgsave)

theorem replyStep_elsewhere {env : ℕ → World} (hname : frameName f ≠ some (ascii "FLUSHDB"))
    (hk : k ∉ frameKeys f) (s : Session) :
    (replyStep env s f).2.db.content.objects k = s.db.content.objects k ∧
      (replyStep env s f).2.db.content.deadlines k = s.db.content.deadlines k := by
  apply exec_executeFrame_elsewhere
  intro entry args hc
  constructor
  · rwa [frameKeys, hc] at hk
  · rintro heq
    rw [frameName, hc, Option.map_some, heq] at hname
    exact hname rfl

theorem perform_bgsaveChildPid {env : ℕ → World} {op : Call} (h : op.kind ≠ .fork) (s : Session) :
    (s.perform env op).2.server.bgsaveChildPid = s.server.bgsaveChildPid := by
  cases op with
  | rdbSaveBackground => exact absurd rfl h
  | rdbSaveSync =>
      change (s.rdbSaveSync (env s.calls)).2.server.bgsaveChildPid = _
      unfold Session.rdbSaveSync
      cases (env s.calls).save <;> rfl
  | _ => rfl

theorem exec_bgsaveChildPid {kinds : List CallKind} {p : Handler α} (h : Uses kinds keys p)
    (hkinds : .fork ∉ kinds) (env : ℕ → World) (s : Session) :
    (exec env p s).2.server.bgsaveChildPid = s.server.bgsaveChildPid := by
  have hcalls : p.Calls (Call.Within kinds keys) := h
  refine Program.run_invariant
    (I := fun s' : Session => s'.server.bgsaveChildPid = s.server.bgsaveChildPid)
    (fun s' op hop hs' => ?_) hcalls rfl
  rw [perform_bgsaveChildPid (fun hfork => hkinds (hfork ▸ hop.kind_mem))]
  exact hs'

theorem fork_of_mem_kinds {entry : CommandEntry} (he : entry ∈ commandTable)
    (h : .fork ∈ (footprint entry.name).kinds) : entry.name = ascii "BGSAVE" := by
  have hall : ∀ e ∈ commandTable, .fork ∈ (footprint e.name).kinds →
      e.name = ascii "BGSAVE" := by decide
  exact hall entry he h

theorem replyStep_bgsaveChildPid (hname : frameName f ≠ some (ascii "BGSAVE")) (env : ℕ → World)
    (s : Session) : (replyStep env s f).2.server.bgsaveChildPid = s.server.bgsaveChildPid := by
  cases hc : frameCommand f with
  | none => exact exec_bgsaveChildPid (executeFrame_of_none hc) (by decide) env s
  | some c =>
      obtain ⟨entry, args⟩ := c
      obtain ⟨heq, he, ha, -⟩ := executeFrame_of_some hc
      have hfork : CallKind.fork ∉ .account :: (footprint entry.name).kinds := by
        intro hin
        rcases List.mem_cons.mp hin with hin | hin
        · cases hin
        · apply hname
          rw [frameName, hc, Option.map_some, fork_of_mem_kinds he hin]
      have huses : Uses (.account :: (footprint entry.name).kinds) (keyArguments entry args)
          (executeFrame f) := heq ▸ uses_runCommand he ha
      exact exec_bgsaveChildPid huses hfork env s

/-- GET replies the same for `k` at any time, and its deadline is the same. -/
structure SameKey (k : Bytes) (s s' : Session) : Prop where
  get : ∀ env frame args t, (∀ n, (env n).nowMs = t) → Requests "GET" k frame args →
    (replyStep env s frame).1 = (replyStep env s' frame).1
  deadline : s.db.content.deadlines k = s'.db.content.deadlines k

theorem getReply_touch (obj : KevaObject) (clock : UInt32) :
    getReply (some (obj.touch clock)) = getReply (some obj) := by
  unfold getReply
  dsimp only
  rw [KevaObject.type_touch, KevaObject.getStringValue_touch]

theorem sameKey_of_eq (ho : s.db.content.objects k = s'.db.content.objects k)
    (hd : s.db.content.deadlines k = s'.db.content.deadlines k) : SameKey k s s' := by
  refine ⟨fun env frame args t henv hreq => ?_, hd⟩
  rw [replyStep_get hreq, replyStep_get hreq, henv, henv]
  have hexpired := Keyspace.expired_congr t hd
  cases ho' : s'.db.content.objects k with
  | none => rw [Keyspace.get_of_none ho', Keyspace.get_of_none (ho.trans ho')]
  | some obj =>
      cases he' : s'.db.content.expired t k with
      | true =>
          rw [Keyspace.get_of_expired ho' he',
            Keyspace.get_of_expired (ho.trans ho') (hexpired.trans he')]
      | false =>
          rw [Keyspace.get_of_live ho' he',
            Keyspace.get_of_live (ho.trans ho') (hexpired.trans he'), getReply_touch,
            getReply_touch]

/-- The two frames in either order: each gets the same reply, and the keyspace shows the same. -/
structure Commutes (w : World) (s : Session) (f f' : RespValue) : Prop where
  reply : (replyStep (fun _ => w) s f).1 =
    (replyStep (fun _ => w) (replyStep (fun _ => w) s f').2 f).1
  reply' : (replyStep (fun _ => w) (replyStep (fun _ => w) s f).2 f').1 =
    (replyStep (fun _ => w) s f').1
  shown : ∀ t k, (replyStep (fun _ => w) (replyStep (fun _ => w) s f).2 f').2.db.content.shown t k =
    (replyStep (fun _ => w) (replyStep (fun _ => w) s f').2 f).2.db.content.shown t k

theorem replyStep_after (hname : ∀ name ∈ frameName f, name ∉ wholeKeyspace)
    (hname' : ∀ name ∈ frameName f', name ∉ wholeKeyspace)
    (hdisj : ∀ k ∈ frameKeys f, k ∉ frameKeys f')
    (hbgsave : ¬ (frameName f = some (ascii "BGSAVE") ∧ frameName f' = some (ascii "BGSAVE")))
    (w : World) (s : Session) :
    (replyStep (fun _ => w) s f).1 = (replyStep (fun _ => w) (replyStep (fun _ => w) s f').2 f).1 ∧
      (replyStep (fun _ => w) s f).2.db.content.AgreeOn (frameKeys f)
        (replyStep (fun _ => w) (replyStep (fun _ => w) s f').2 f).2.db.content := by
  have hflush : frameName f' ≠ some (ascii "FLUSHDB") := fun h => hname' _ h (by decide)
  apply replyStep_agreeOn hname
  · intro k hk
    obtain ⟨ho, hd⟩ := @replyStep_elsewhere k f' (fun _ => w) hflush (hdisj k hk) s
    exact ⟨ho.symm, hd.symm⟩
  · intro hf
    have hf' : frameName f' ≠ some (ascii "BGSAVE") := fun h => hbgsave ⟨hf, h⟩
    exact (replyStep_bgsaveChildPid hf' _ s).symm

theorem commutes_of_disjoint (hname : ∀ name ∈ frameName f, name ∉ wholeKeyspace)
    (hname' : ∀ name ∈ frameName f', name ∉ wholeKeyspace)
    (hdisj : ∀ k ∈ frameKeys f, k ∉ frameKeys f')
    (hbgsave : ¬ (frameName f = some (ascii "BGSAVE") ∧ frameName f' = some (ascii "BGSAVE")))
    (w : World) (s : Session) : Commutes w s f f' := by
  have hdisj' : ∀ k ∈ frameKeys f', k ∉ frameKeys f := fun k hk' hk => hdisj k hk hk'
  have hflush : frameName f ≠ some (ascii "FLUSHDB") := fun h => hname _ h (by decide)
  have hflush' : frameName f' ≠ some (ascii "FLUSHDB") := fun h => hname' _ h (by decide)
  obtain ⟨hreply, hagree⟩ := replyStep_after hname hname' hdisj hbgsave w s
  obtain ⟨hreply', hagree'⟩ :=
    replyStep_after hname' hname hdisj' (fun h => hbgsave ⟨h.2, h.1⟩) w s
  refine ⟨hreply, hreply'.symm, fun t k => ?_⟩
  set s₁ := (replyStep (fun _ => w) s f).2
  set s₂ := (replyStep (fun _ => w) s f').2
  by_cases hk : k ∈ frameKeys f
  · -- the second frame of the one order leaves `k` to `f`, the first of the other does too
    obtain ⟨ho, hd⟩ := @replyStep_elsewhere k f' (fun _ => w) hflush' (hdisj k hk) s₁
    obtain ⟨ho', hd'⟩ := hagree k hk
    exact Keyspace.shown_congr (ho.trans ho') (hd.trans hd')
  · obtain ⟨ho, hd⟩ := @replyStep_elsewhere k f (fun _ => w) hflush hk s₂
    rw [Keyspace.shown_congr ho hd]
    by_cases hk' : k ∈ frameKeys f'
    · obtain ⟨ho', hd'⟩ := hagree' k hk'
      exact Keyspace.shown_congr ho'.symm hd'.symm
    · obtain ⟨ho₁, hd₁⟩ := @replyStep_elsewhere k f' (fun _ => w) hflush' hk' s₁
      obtain ⟨ho₂, hd₂⟩ := @replyStep_elsewhere k f' (fun _ => w) hflush' hk' s
      obtain ⟨ho₃, hd₃⟩ := @replyStep_elsewhere k f (fun _ => w) hflush hk s
      exact Keyspace.shown_congr (ho₁.trans (ho₃.trans ho₂.symm)) (hd₁.trans (hd₃.trans hd₂.symm))

/-- A command leaves every key that it is not about as it was, and two commands about different keys
can be swapped unless both are BGSAVE. -/
theorem keys_isolated (s : Session) :
    (∀ env frame k, frameName frame ≠ some (ascii "FLUSHDB") → k ∉ frameKeys frame →
      SameKey k s (replyStep env s frame).2) ∧
    ∀ w f f', (∀ name ∈ frameName f, name ∉ wholeKeyspace) →
      (∀ name ∈ frameName f', name ∉ wholeKeyspace) → (∀ k ∈ frameKeys f, k ∉ frameKeys f') →
      ¬ (frameName f = some (ascii "BGSAVE") ∧ frameName f' = some (ascii "BGSAVE")) →
      Commutes w s f f' := by
  constructor
  · intro env frame k hname hk
    obtain ⟨ho, hd⟩ := @replyStep_elsewhere k frame env hname hk s
    exact sameKey_of_eq ho.symm hd.symm
  · intro w f f' hname hname' hdisj hbgsave
    exact commutes_of_disjoint hname hname' hdisj hbgsave w s

theorem keys_isolated_set_append :
    let f := commandFrame [ascii "SET", ascii "a", ascii "1"]
    let f' := commandFrame [ascii "APPEND", ascii "b", ascii "2"]
    Commutes (World.still 10 0) freshSession f f' := by
  intro f f'
  exact (keys_isolated freshSession).2 _ f f' (by decide) (by decide) (by decide) (by decide)

/-- The second of two BGSAVEs is told that the first is in progress, whichever it is. -/
theorem bgsaves_do_not_commute :
    let f := commandFrame [ascii "BGSAVE"]
    let f' := commandFrame [ascii "bgsave"]
    frameName f = some (ascii "BGSAVE") ∧ frameName f' = some (ascii "BGSAVE") ∧
      frameKeys f = [] ∧ frameKeys f' = [] ∧
      ¬ Commutes (World.still 10 0) freshSession f f' := by
  intro f f'
  refine ⟨by decide, by decide, by decide, by decide, fun h => ?_⟩
  exact absurd h.reply (by decide +kernel)

end Keva
