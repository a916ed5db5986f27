import Keva.Command.Del
import Keva.Command.Encodings
import Keva.Command.Invisible
import Keva.Command.Overlap
import Keva.Server.Saving

/-!
# Databases that show the same cannot be told apart

What is left of two databases that show the same once the expired keys are gone differs in its LRU
clocks only, and these are overwritten by the lookup that would give them away. Commands therefore
answer alike on both and leave databases that show the same, whatever tables, hash functions and
expired keys are behind what is shown. The commands that look at the physical state are the
exceptions.
-/

namespace Keva

open Session Handler

namespace Keyspace

/-- Touched at the same time, the objects are the same. -/
structure SameValues (K K' : Keyspace) : Prop where
  objects : ∀ k clock, (K.objects k).map (KevaObject.touch · clock) =
    (K'.objects k).map (KevaObject.touch · clock)
  deadlines : K.deadlines = K'.deadlines

variable {K K' : Keyspace} {t : MillisecondTimestamp} {k : Bytes}

theorem SameValues.isSome_eq (h : SameValues K K') (k : Bytes) :
    (K.objects k).isSome = (K'.objects k).isSome := by
  have hmap := congrArg Option.isSome (h.objects k 0)
  rwa [Option.isSome_map, Option.isSome_map] at hmap

theorem SameValues.expired_eq (h : SameValues K K') (t : MillisecondTimestamp) (k : Bytes) :
    K.expired t k = K'.expired t k := expired_congr t (congrFun h.deadlines k)

theorem SameValues.update (h : SameValues K K') (k : Bytes) (o o' : Option KevaObject)
    (ho : ∀ clock, o.map (KevaObject.touch · clock) = o'.map (KevaObject.touch · clock))
    {d d' : Bytes → Option MillisecondTimestamp} (hd : d = d') :
    SameValues ⟨Function.update K.objects k o, d⟩ ⟨Function.update K'.objects k o', d'⟩ := by
  refine ⟨fun j clock => ?_, hd⟩
  by_cases hj : j = k
  · dsimp only
    rw [hj, Function.update_self, Function.update_self, ho]
  · dsimp only
    rw [Function.update_of_ne hj, Function.update_of_ne hj, h.objects]

theorem SameValues.purge (h : SameValues K K') (t : MillisecondTimestamp) :
    SameValues (K.purge t) (K'.purge t) := by
  constructor
  · intro k clock
    rw [purge_objects, purge_objects, h.expired_eq]
    split_ifs
    · rfl
    · exact h.objects k clock
  · funext k
    rw [purge_deadlines, purge_deadlines, h.expired_eq, h.deadlines]

theorem SameValues.get (h : SameValues K K') (k : Bytes) (t : MillisecondTimestamp)
    (secs : Int64) :
    (K.get k t secs).1 = (K'.get k t secs).1 ∧
      SameValues (K.get k t secs).2 (K'.get k t secs).2 := by
  have hobj := h.objects k (LruClock.current secs)
  cases ho : K.objects k with
  | none =>
      have ho' : K'.objects k = none := by
        rw [ho] at hobj
        exact Option.map_eq_none_iff.mp hobj.symm
      rw [get_of_none ho, get_of_none ho']
      exact ⟨rfl, h⟩
  | some obj =>
      obtain ⟨obj', ho'⟩ : ∃ obj', K'.objects k = some obj' := by
        rw [← Option.isSome_iff_exists, ← h.isSome_eq, ho]
        rfl
      rw [ho, ho'] at hobj
      have htouch : obj.touch (LruClock.current secs) = obj'.touch (LruClock.current secs) :=
        Option.some.inj hobj
      cases he : K.expired t k with
      | true =>
          rw [get_of_expired ho he, get_of_expired ho' (h.expired_eq t k ▸ he)]
          refine ⟨rfl, h.update k none none (fun _ => rfl) ?_⟩
          rw [h.deadlines]
      | false =>
          rw [get_of_live ho he, get_of_live ho' (h.expired_eq t k ▸ he), htouch]
          exact ⟨rfl, h.update k _ _ (fun _ => rfl) h.deadlines⟩

theorem SameValues.shown_eq (h : SameValues K K') (t : MillisecondTimestamp) (k : Bytes) :
    K'.shown t k = K.shown t k := by
  have hbytes : (K'.objects k).map KevaObject.getStringValue =
      (K.objects k).map KevaObject.getStringValue := by
    have hmap := congrArg (Option.map KevaObject.getStringValue) (h.objects k 0)
    rw [Option.map_map, Option.map_map] at hmap
    have htouch : (KevaObject.getStringValue ∘ fun obj => KevaObject.touch obj 0) =
        KevaObject.getStringValue := funext fun obj => KevaObject.getStringValue_touch obj 0
    rw [htouch] at hmap
    exact hmap.symm
  have hshown : ∀ L : Keyspace, L.shown t k = if L.expired t k then none
      else ((L.objects k).map KevaObject.getStringValue).map fun v => (v, L.deadlines k) := by
    intro L
    unfold shown visible
    split_ifs
    · rfl
    · rw [Option.map_map, Option.map_map]
      rfl
  rw [hshown, hshown, hbytes, h.expired_eq, h.deadlines]

theorem shown_purge (K : Keyspace) (t : MillisecondTimestamp) (k : Bytes) :
    (K.purge t).shown t k = K.shown t k := by
  cases he : K.expired t k with
  | true => rw [shown_of_none (purge_of_expired t he).1, shown_of_expired he]
  | false => exact shown_congr (purge_of_not_expired t he).1 (purge_of_not_expired t he).2

/-- What a database is made of: objects in the encoding of their bytes, deadlines of stored keys. -/
structure Proper (K : Keyspace) : Prop where
  wellEncoded : K.WellEncoded
  noOrphans : K.NoOrphans

theorem Proper.healthy (h : K.Proper) : K.Healthy := ⟨h.wellEncoded.canonical, h.noOrphans⟩

theorem sameValues_purge (hK : K.Proper) (hK' : K'.Proper) (h : K.SameShown t K') :
    SameValues (K.purge t) (K'.purge t) := by
  have hkey : ∀ k, (∀ clock, ((K.purge t).objects k).map (KevaObject.touch · clock) =
      ((K'.purge t).objects k).map (KevaObject.touch · clock)) ∧
        (K.purge t).deadlines k = (K'.purge t).deadlines k := by
    intro k
    -- a keyspace that shows nothing of `k` has nothing of `k` left after the purge
    have hgone : ∀ L : Keyspace, L.NoOrphans → L.shown t k = none →
        (L.purge t).objects k = none ∧ (L.purge t).deadlines k = none := by
      intro L hL hnone
      cases he : L.expired t k with
      | true => exact purge_of_expired t he
      | false =>
          obtain ⟨ho, hd⟩ := @purge_of_not_expired t L k he
          cases hobj : L.objects k with
          | none => exact ⟨ho.trans hobj, hd.trans (hL k hobj)⟩
          | some obj =>
              rw [shown_of_live hobj he] at hnone
              cases hnone
    cases hshown : K.shown t k with
    | none =>
        obtain ⟨ho, hd⟩ := hgone K hK.noOrphans hshown
        obtain ⟨ho', hd'⟩ := hgone K' hK'.noOrphans ((h k).trans hshown)
        rw [ho, hd, ho', hd']
        exact ⟨fun _ => rfl, rfl⟩
    | some p =>
        obtain ⟨v, e⟩ := p
        obtain ⟨obj, hobj, he, hv, hd⟩ := shown_eq_some_iff.mp hshown
        obtain ⟨obj', hobj', he', hv', hd'⟩ := shown_eq_some_iff.mp ((h k).trans hshown)
        rw [(purge_of_not_expired t he).1, (purge_of_not_expired t he).2,
          (purge_of_not_expired t he').1, (purge_of_not_expired t he').2, hobj, hobj', hd, hd']
        refine ⟨fun clock => ?_, rfl⟩
        rw [Option.map_some, Option.map_some, hK.wellEncoded k obj hobj clock,
          hK'.wellEncoded k obj' hobj' clock, hv, hv']
  exact ⟨fun k => (hkey k).1, funext fun k => (hkey k).2⟩

end Keyspace

/-- The calls that are answered from values, deadlines and the world alone. -/
def valueKinds : List CallKind :=
  [.bounds, .lookup, .store, .erase, .deadline, .persist, .ttl, .flush, .clock, .reply, .state,
    .account]

variable {w : World} {s s' : Session} {keys : List Bytes} {t : MillisecondTimestamp}

theorem Keyspace.SameValues.effect {op : Call} (hop : op.kind ∈ valueKinds) {K K' : Keyspace}
    (h : K.SameValues K') : (op.effect w K).SameValues (op.effect w K') := by
  cases op with
  | get k => exact (h.get k w.nowMs w.time).2
  | set k obj =>
      refine h.update k _ _ (fun _ => rfl) ?_
      rw [h.deadlines]
  | del k =>
      refine h.update k _ _ (fun _ => rfl) ?_
      rw [h.deadlines]
  | setExpire k e =>
      refine ⟨h.objects, ?_⟩
      change Function.update K.deadlines k _ = Function.update K'.deadlines k _
      rw [h.deadlines]
  | removeExpire k =>
      refine ⟨h.objects, ?_⟩
      change Function.update K.deadlines k _ = Function.update K'.deadlines k _
      rw [h.deadlines]
  | flush => exact ⟨fun _ _ => rfl, rfl⟩
  | _ => exact h

theorem answer_of_sameValues {op : Call} (hop : op.kind ∈ valueKinds)
    (h : s.db.content.SameValues s'.db.content) :
    (s.perform (fun _ => w) op).1 = (s'.perform (fun _ => w) op).1 := by
  cases op with
  | get k =>
      rw [perform_get_fst, perform_get_fst]
      exact (h.get k _ _).1
  | del k =>
      change (s.db.del k).1 = (s'.db.del k).1
      rw [KevaDatabase.del_fst, KevaDatabase.del_fst, h.isSome_eq]
  | pttl k =>
      change (s.db.pttl k w.nowMs).1 = (s'.db.pttl k w.nowMs).1
      have hsome := h.isSome_eq k
      rw [KevaDatabase.pttl_fst, KevaDatabase.pttl_fst, Keyspace.pttl, Keyspace.pttl, h.deadlines]
      cases ho : s.db.content.objects k with
      | none =>
          rw [ho] at hsome
          rw [Option.not_isSome_iff_eq_none.mp (Bool.eq_false_iff.mp hsome.symm)]
      | some obj =>
          rw [ho] at hsome
          obtain ⟨obj', ho'⟩ := Option.isSome_iff_exists.mp hsome.symm
          rw [ho']
          cases s'.db.content.deadlines k <;> rfl
  | peek k | forEach | dbsize | serverContext | rdbSaveSync | rdbSaveBackground =>
      exact absurd hop (by simp [Call.kind, valueKinds])
  | _ => rfl

/-- The databases differ in their LRU clocks, and both sessions have put out the same bytes since
`o` and `o'`. -/
structure InStride (o o' : Bytes) (s s' : Session) : Prop where
  values : s.db.content.SameValues s'.db.content
  output : ∃ bytes, s.output = o ++ bytes ∧ s'.output = o' ++ bytes

theorem inStride_perform {op : Call} (hop : op.kind ∈ valueKinds) {o o' : Bytes}
    (h : InStride o o' s s') :
    (s.perform (fun _ => w) op).1 = (s'.perform (fun _ => w) op).1 ∧
      InStride o o' (s.perform (fun _ => w) op).2 (s'.perform (fun _ => w) op).2 := by
  refine ⟨answer_of_sameValues hop h.values, ?_, ?_⟩
  · rw [content_perform, content_perform]
    exact h.values.effect hop
  · obtain ⟨bytes, hout, hout'⟩ := h.output
    by_cases hreply : op.kind = .reply
    · cases op with
      | appendResponse data =>
          refine ⟨bytes ++ data, ?_, ?_⟩
          · change s.output ++ data = _
            rw [hout, List.append_assoc]
          · change s'.output ++ data = _
            rw [hout', List.append_assoc]
      | _ => cases hreply
    · rw [perform_output hreply, perform_output hreply]
      exact ⟨bytes, hout, hout'⟩

theorem replyStep_sameValues {kinds : List CallKind} {f : RespValue}
    (huses : Uses kinds keys (executeFrame f)) (hkinds : kinds ⊆ valueKinds)
    (h : s.db.content.SameValues s'.db.content) :
    (replyStep (fun _ => w) s f).1 = (replyStep (fun _ => w) s' f).1 ∧
      (replyStep (fun _ => w) s f).2.db.content.SameValues
        (replyStep (fun _ => w) s' f).2.db.content := by
  have hcalls : (executeFrame f).Calls (Call.Within kinds keys) := huses
  have hstart : InStride s.output s'.output s s' :=
    ⟨h, [], (List.append_nil _).symm, (List.append_nil _).symm⟩
  have hstep : ∀ s₁ s₂ op, Call.Within kinds keys op → InStride s.output s'.output s₁ s₂ →
      (s₁.perform (fun _ => w) op).1 = (s₂.perform (fun _ => w) op).1 ∧
        InStride s.output s'.output (s₁.perform (fun _ => w) op).2
          (s₂.perform (fun _ => w) op).2 :=
    fun s₁ s₂ op hop h => inStride_perform (hkinds hop.kind_mem) h
  have hend := (Program.run_related hstep hcalls hstart).2
  obtain ⟨bytes, hout, hout'⟩ := hend.output
  exact ⟨(replyStep_fst hout).trans (replyStep_fst hout').symm, hend.values⟩

/-- The commands whose replies tell more than what is shown: whether an expired key is still stored,
how many keys are stored, and how the server's saves stand. -/
def revealing : List Bytes :=
  [ascii "DEL", ascii "TTL", ascii "PTTL", ascii "DBSIZE", ascii "INFO", ascii "SAVE",
    ascii "BGSAVE"]

def Discreet (f : RespValue) : Prop := ∀ name ∈ frameName f, name ∉ revealing

/-- The same reply, except that KEYS may list the keys in another order. -/
def SameAnswer (f : RespValue) (bytes bytes' : Bytes) : Prop :=
  bytes = bytes' ∨ frameName f = some (ascii "KEYS") ∧ ∃ found found' : List Bytes,
    found.Perm found' ∧ bytes = keysReply found ∧ bytes' = keysReply found'

/-- Both show the same and are made up properly. -/
structure Lookalike (t : MillisecondTimestamp) (K K' : Keyspace) : Prop where
  proper : K.Proper
  proper' : K'.Proper
  shown : K.SameShown t K'

section

variable {f : RespValue} {kinds : List CallKind} {entry : CommandEntry} {args : List RespValue}

theorem shown_of_respects (hw : w.nowMs = t) (hr : Respects t (executeFrame f)) (s : Session) :
    let purged := { s with db := s.db.purge t }
    (replyStep (fun _ => w) s f).1 = (replyStep (fun _ => w) purged f).1 ∧
      ∀ k, (replyStep (fun _ => w) s f).2.db.content.shown t k =
        (replyStep (fun _ => w) purged f).2.db.content.shown t k := by
  intro purged
  have halike : Alike t s purged :=
    ⟨by rw [KevaDatabase.content_purge, Keyspace.purge_purge], rfl⟩
  obtain ⟨-, hend⟩ := hr (fun _ => w) (fun _ => hw) s purged halike
  have hout : (exec (fun _ => w) (executeFrame f) s).2.output =
      (exec (fun _ => w) (executeFrame f) purged).2.output := by
    have hrest := congrArg Session.output hend.rest_eq
    exact hrest
  refine ⟨?_, fun k => ?_⟩
  · unfold replyStep
    dsimp only
    rw [hout]
  · rw [← Keyspace.shown_purge, ← Keyspace.shown_purge (K := Session.db _ |>.content)]
    exact congrArg (Keyspace.shown · t k) hend.purge_eq

theorem lookalike_of_respects (hw : w.nowMs = t) (hr : Respects t (executeFrame f))
    (huses : Uses kinds keys (executeFrame f)) (hkinds : kinds ⊆ valueKinds)
    (h : Lookalike t s.db.content s'.db.content) :
    (replyStep (fun _ => w) s f).1 = (replyStep (fun _ => w) s' f).1 ∧
      (replyStep (fun _ => w) s f).2.db.content.SameShown t
        (replyStep (fun _ => w) s' f).2.db.content := by
  have hvalues : ({ s with db := s.db.purge t } : Session).db.content.SameValues
      ({ s' with db := s'.db.purge t } : Session).db.content := by
    dsimp only
    rw [KevaDatabase.content_purge, KevaDatabase.content_purge]
    exact Keyspace.sameValues_purge h.proper h.proper' h.shown
  obtain ⟨hreply, hend⟩ := replyStep_sameValues (w := w) huses hkinds hvalues
  obtain ⟨hreply₁, hshown₁⟩ := shown_of_respects hw hr s
  obtain ⟨hreply₂, hshown₂⟩ := shown_of_respects hw hr s'
  refine ⟨hreply₁.trans (hreply.trans hreply₂.symm), fun k => ?_⟩
  rw [hshown₁, hshown₂]
  exact hend.shown_eq t k

theorem keysFound_perm_of_sameShown {db db' : KevaDatabase} (h : db.content.SameShown t db'.content)
    (pattern : Bytes) : (keysFound db t pattern).Perm (keysFound db' t pattern) := by
  have hpeek : ∀ (K : Keyspace) (k : Bytes), (∃ obj, K.peek k t = some obj) ↔
      (K.shown t k).isSome := by
    intro K k
    rw [Keyspace.shown_isSome_iff, Keyspace.live_iff, Option.isSome_iff_exists]
    rfl
  refine List.Perm.filter _ ((List.perm_ext_iff_of_nodup (db.nodup_forEach t)
    (db'.nodup_forEach t)).mpr fun k => ?_)
  simp only [List.mem_map, Prod.exists, exists_and_right, exists_eq_right,
    KevaDatabase.mem_forEach_iff, hpeek, h k]

theorem exec_peek_bind {β : Type} {env : ℕ → World} (k : Bytes)
    (g : Option KevaObject → Handler β) :
    exec env (peek k >>= g) s =
      exec env (g (s.perform env (.peek k)).1) (s.perform env (.peek k)).2 := rfl

theorem replyStep_type (hc : frameCommand f = some (entry, args))
    (hname : entry.name = ascii "TYPE") (hs : s.db.content.WellEncoded) :
    (replyStep (fun _ => w) s f).1 = RespEncoder.simpleString
      (if (s.db.content.shown w.nowMs (argStr args 1)).isSome then ascii "string"
      else ascii "none") := by
  have hreq : Requests "TYPE" (argStr args 1) f args := ⟨⟨entry, hc, hname⟩, rfl⟩
  have hfind : findCommand (ascii "TYPE") = some ⟨ascii "TYPE", handleType, 2, 2, false⟩ := rfl
  obtain ⟨ha, -⟩ := hreq.exec hfind (fun _ => w) s
  have hlen : 2 ≤ args.length := le_length_of_admits ha rfl
  refine hreq.reply_eq hfind ?_
  have hpeek : (s.perform (fun _ => w) (.peek (argStr args 1))).1 =
      s.db.content.peek (argStr args 1) w.nowMs := KevaDatabase.peek_fst _ _ _
  have hshown : (s.db.content.shown w.nowMs (argStr args 1)).isSome =
      (s.db.content.peek (argStr args 1) w.nowMs).isSome := by
    rw [Bool.eq_iff_iff, Keyspace.shown_isSome_iff, Keyspace.live_iff]
    rfl
  dsimp only
  rw [handleType, element_bind (by omega), hshown]
  rw [exec_peek_bind, hpeek]
  cases hp : s.db.content.peek (argStr args 1) w.nowMs with
  | none => rfl
  | some obj =>
      have ho : s.db.content.objects (argStr args 1) = some obj := by
        unfold Keyspace.peek at hp
        split_ifs at hp
        exact hp
      dsimp only
      rw [(hs _ obj ho).type_eq]
      rfl

theorem shown_eraseAll (K : Keyspace) (l : List Bytes) (k : Bytes) :
    (K.eraseAll l).shown t k = if k ∈ l then none else K.shown t k := by
  split_ifs with hk
  · exact Keyspace.shown_of_none (if_pos hk)
  · exact Keyspace.shown_congr (if_neg hk) (if_neg hk)

theorem discreet_cases (he : entry ∈ commandTable) (hname : entry.name ∉ revealing)
    (hkeys : entry.name ≠ ascii "KEYS") (htype : entry.name ≠ ascii "TYPE") :
    (entry.name ∈ expiryBlind ∨ .account :: (footprint entry.name).kinds ⊆ blindKinds) ∧
      .account :: (footprint entry.name).kinds ⊆ valueKinds := by
  have hall : ∀ e ∈ commandTable, e.name ∉ revealing → e.name ≠ ascii "KEYS" →
      e.name ≠ ascii "TYPE" →
      (e.name ∈ expiryBlind ∨ .account :: (footprint e.name).kinds ⊆ blindKinds) ∧
        .account :: (footprint e.name).kinds ⊆ valueKinds := by decide
  exact hall entry he hname hkeys htype

theorem write_of_revealing (he : entry ∈ commandTable) (hname : entry.name ∈ revealing)
    (hdel : entry.name ≠ ascii "DEL") : entry.write = false := by
  have hall : ∀ e ∈ commandTable, e.name ∈ revealing → e.name ≠ ascii "DEL" →
      e.write = false := by decide
  exact hall entry he hname hdel

theorem not_counts_of_write (hc : frameCommand f = some (entry, args)) (h : entry.write = false) :
    ¬ Counts f := by
  rintro ⟨entry', args', hc', hwrite⟩
  rw [hc] at hc'
  obtain ⟨rfl, -⟩ := Prod.mk.inj (Option.some.inj hc')
  rw [h] at hwrite
  cases hwrite

theorem shown_replyStep_of_not_counts (hw : w.nowMs = t) (hquiet : ¬ Counts f)
    (h : s.db.content.SameShown t s'.db.content) :
    (replyStep (fun _ => w) s f).2.db.content.SameShown t
      (replyStep (fun _ => w) s' f).2.db.content := by
  have hclock : ∀ n : ℕ, ((fun _ => w) n).nowMs ≤ t := fun _ => hw ▸ Int64.le_rfl
  intro k
  have hleft := shown_of_not_counts hquiet hclock s k
  have hright := shown_of_not_counts hquiet hclock s' k
  exact hright.trans ((h k).trans hleft.symm)

/-- Look-alike databases give the same reply to a discreet frame and look alike after any frame. -/
theorem replyStep_lookalike (hw : w.nowMs = t) (h : Lookalike t s.db.content s'.db.content)
    (f : RespValue) :
    (replyStep (fun _ => w) s f).2.db.content.SameShown t
        (replyStep (fun _ => w) s' f).2.db.content ∧
      (Discreet f →
        SameAnswer f (replyStep (fun _ => w) s f).1 (replyStep (fun _ => w) s' f).1) := by
  cases hc : frameCommand f with
  | none =>
      have huses := executeFrame_of_none hc
      obtain ⟨hreply, hshown⟩ := lookalike_of_respects hw
        (respects_of_uses huses (by decide)) huses (by decide) h
      exact ⟨hshown, fun _ => .inl hreply⟩
  | some c =>
      obtain ⟨entry, args⟩ := c
      obtain ⟨heq, he, ha, -⟩ := executeFrame_of_some hc
      have hentry : frameName f = some entry.name := by
        rw [frameName, hc]
        rfl
      by_cases hrevealing : entry.name ∈ revealing
      · refine ⟨?_, fun hd => absurd hrevealing (hd entry.name hentry)⟩
        by_cases hdel : entry.name = ascii "DEL"
        · have hreq : Requests "DEL" (argStr args 1) f args := ⟨⟨entry, hc, hdel⟩, rfl⟩
          intro k
          rw [hreq.content_eq (e := ⟨ascii "DEL", handleDel, 2, -1, true⟩) rfl,
            hreq.content_eq (e := ⟨ascii "DEL", handleDel, 2, -1, true⟩) rfl,
            (exec_handleDel _ s).2, (exec_handleDel _ s').2, shown_eraseAll, shown_eraseAll,
            h.shown]
        · exact shown_replyStep_of_not_counts hw
            (not_counts_of_write hc (write_of_revealing he hrevealing hdel)) h.shown
      by_cases hkeys : entry.name = ascii "KEYS"
      · have hfind := (findCommand_of_frameCommand hc).1
        have hentry' : entry = ⟨ascii "KEYS", handleKeys, 2, 2, false⟩ := by
          rw [hkeys] at hfind
          exact (Option.some.inj hfind).symm
        refine ⟨shown_replyStep_of_not_counts hw
          (not_counts_of_write hc (by rw [hentry'])) h.shown, fun _ => .inr ⟨hkeys ▸ hentry, ?_⟩⟩
        have hreply : ∀ s : Session, (replyStep (fun _ => w) s f).1 =
            keysReply (keysFound s.db t (argStr args 1)) := by
          intro s
          refine replyStep_fst ?_
          rw [heq, ← hw]
          exact (@exec_runCommand_keys (fun _ => w) args entry hfind hkeys ha s).1
        exact ⟨_, _, keysFound_perm_of_sameShown h.shown (argStr args 1), hreply s, hreply s'⟩
      by_cases htype : entry.name = ascii "TYPE"
      · have hfind := (findCommand_of_frameCommand hc).1
        have hentry' : entry = ⟨ascii "TYPE", handleType, 2, 2, false⟩ := by
          rw [htype] at hfind
          exact (Option.some.inj hfind).symm
        refine ⟨shown_replyStep_of_not_counts hw
          (not_counts_of_write hc (by rw [hentry'])) h.shown, fun _ => .inl ?_⟩
        rw [replyStep_type hc htype h.proper.wellEncoded,
          replyStep_type hc htype h.proper'.wellEncoded, hw, h.shown]
      · obtain ⟨hblind, hvalues⟩ := discreet_cases he hrevealing hkeys htype
        have hresp : Respects t (executeFrame f) := by
          rw [heq]
          rcases hblind with hblind | hblind
          · exact respects_runCommand (respects_handler he hblind hkeys ha)
          · exact respects_of_uses (uses_runCommand he ha) hblind
        obtain ⟨hreply, hshown⟩ := lookalike_of_respects hw hresp
          (heq ▸ uses_runCommand he ha) hvalues h
        exact ⟨hshown, fun _ => .inl hreply⟩

end

end Keva
