import Keva.Command.Footprint

/-!
# Commands leave no orphan

A deadline without its key would be inherited by the next key of that name. Every call but
`set_expire` keeps the deadlines to stored keys whatever comes before it; the handlers that call
`set_expire` have just found or stored the key.
-/

namespace Keva

open Session Handler

namespace Keyspace

variable {K : Keyspace} {k : Bytes}

theorem noOrphans_empty : Keyspace.empty.NoOrphans := fun _ _ => rfl

theorem NoOrphans.erase (h : K.NoOrphans) (k : Bytes) : (K.erase k).NoOrphans := by
  intro j hj
  by_cases hjk : j = k
  · rw [hjk]
    exact Function.update_self _ _ _
  · unfold Keyspace.erase at hj ⊢
    dsimp only at hj ⊢
    rw [Function.update_of_ne hjk] at hj ⊢
    exact h j hj

theorem NoOrphans.set (h : K.NoOrphans) (k : Bytes) (obj : KevaObject) :
    (K.set k obj).NoOrphans := by
  intro j hj
  by_cases hjk : j = k
  · rw [hjk]
    exact Function.update_self _ _ _
  · unfold Keyspace.set at hj ⊢
    dsimp only at hj ⊢
    rw [Function.update_of_ne hjk] at hj ⊢
    exact h j hj

theorem NoOrphans.get (h : K.NoOrphans) (k : Bytes) (t : MillisecondTimestamp) (secs : Int64) :
    (K.get k t secs).2.NoOrphans := by
  cases ho : K.objects k with
  | none =>
      rw [get_of_none ho]
      exact h
  | some obj =>
      cases he : K.expired t k with
      | true =>
          rw [get_of_expired ho he]
          exact h.erase k
      | false =>
          rw [get_of_live ho he]
          intro j hj
          apply h
          dsimp only at hj
          by_cases hjk : j = k
          · rw [hjk, Function.update_self] at hj
            cases hj
          · rwa [Function.update_of_ne hjk] at hj

theorem NoOrphans.removeExpire (h : K.NoOrphans) (k : Bytes) : (K.removeExpire k).NoOrphans := by
  intro j hj
  by_cases hjk : j = k
  · rw [hjk]
    exact Function.update_self _ _ _
  · unfold Keyspace.removeExpire at hj ⊢
    dsimp only at hj ⊢
    rw [Function.update_of_ne hjk]
    exact h j hj

theorem NoOrphans.setExpire (h : K.NoOrphans) (hk : (K.objects k).isSome)
    (e : MillisecondTimestamp) : (K.setExpire k e).NoOrphans := by
  intro j hj
  by_cases hjk : j = k
  · unfold Keyspace.setExpire at hj
    rw [hjk] at hj
    rw [hj] at hk
    cases hk
  · unfold Keyspace.setExpire at hj ⊢
    dsimp only at hj ⊢
    rw [Function.update_of_ne hjk]
    exact h j hj

end Keyspace

variable {kinds : List CallKind} {keys : List Bytes} {env : ℕ → World} {k : Bytes} {α β : Type}
  {args : List RespValue}

theorem Call.Within.noOrphans_effect {op : Call} (hop : op.Within kinds keys)
    (hkinds : .deadline ∉ kinds) {w : World} {K : Keyspace} (h : K.NoOrphans) :
    (op.effect w K).NoOrphans := by
  cases op with
  | get k => exact h.get k w.nowMs w.time
  | set k obj => exact h.set k obj
  | del k => exact h.erase k
  | setExpire k e => exact absurd hop.kind_mem hkinds
  | removeExpire k => exact h.removeExpire k
  | flush => exact Keyspace.noOrphans_empty
  | _ => exact h

/-- `p` takes keyspaces in `I` to keyspaces in `J`. -/
def Leads (I : Keyspace → Prop) (p : Handler α) (J : α → Keyspace → Prop) : Prop :=
  ∀ env, Program.Triple (perform env) (fun s => I s.db.content) p (fun a s => J a s.db.content)

/-- Only stored keys have deadlines, and `k` is stored. -/
structure Keyspace.Stores (k : Bytes) (K : Keyspace) : Prop where
  noOrphans : K.NoOrphans
  stored : (K.objects k).isSome

variable {I : Keyspace → Prop} {J : α → Keyspace → Prop} {L : β → Keyspace → Prop}
  {p : Handler α} {f : α → Handler β}

theorem leads_bind (hp : Leads I p J) (hf : ∀ a, Leads (J a) (f a) L) : Leads I (p >>= f) L :=
  fun env => Program.triple_bind (hp env) (fun a => hf a env)

theorem leads_call {op : Call} {J : op.Res → Keyspace → Prop}
    (h : ∀ (env : ℕ → World) (s : Session), I s.db.content →
      J (s.perform env op).1 (op.effect (env s.calls) s.db.content)) : Leads I (call op) J := by
  intro env s hs
  have hspec := h env s hs
  rw [← content_perform] at hspec
  exact hspec

theorem leads_of_uses (h : Uses kinds keys p) (hkinds : .deadline ∉ kinds) :
    Leads Keyspace.NoOrphans p (fun _ => Keyspace.NoOrphans) := by
  intro env
  have hcalls : p.Calls (Call.Within kinds keys) := h
  apply Program.triple_of_calls _ hcalls
  intro s op hop hs
  rw [content_perform]
  exact hop.noOrphans_effect hkinds hs

theorem leads_still {op : Call} (h : ∀ w K, op.effect w K = K) : Leads I (call op) (fun _ => I) :=
  leads_call (J := fun _ => I) fun env s hs => by rwa [h]

theorem leads_reply (bytes : Bytes) : Leads I (reply bytes) (fun _ => I) :=
  leads_still (fun _ _ => rfl)

theorem leads_exists (k : Bytes) : Leads Keyspace.NoOrphans («exists» k)
    (fun found K => if found then K.Stores k else K.NoOrphans) := by
  have hget : Leads Keyspace.NoOrphans (Handler.get k)
      (fun o K => if o.isSome then K.Stores k else K.NoOrphans) := by
    refine leads_call fun env s hs => ?_
    have hno : (Call.effect (env s.calls) (.get k) s.db.content).NoOrphans :=
      hs.get k (env s.calls).nowMs (env s.calls).time
    rw [perform_get_fst]
    split_ifs with hsome
    · obtain ⟨obj, hobj⟩ := Option.isSome_iff_exists.mp hsome
      refine ⟨hno, ?_⟩
      change ((s.db.content.get k (env s.calls).nowMs (env s.calls).time).2.objects k).isSome
      rw [Keyspace.objects_of_get hobj]
      rfl
    · exact hno
  exact leads_bind hget fun o => fun env => Program.triple_pure fun s hs => hs

theorem leads_storeString (k v : Bytes) :
    Leads Keyspace.NoOrphans (storeString k v) (fun _ => Keyspace.Stores k) := by
  have hclock : Uses [.clock] [] lruClock := uses_lruClock (by simp)
  refine leads_bind (leads_of_uses hclock (by decide)) fun clock => leads_call fun env s hs => ?_
  refine ⟨hs.set k _, ?_⟩
  change ((s.db.content.set k _).objects k).isSome
  unfold Keyspace.set
  dsimp only
  rw [Function.update_self]
  rfl

theorem leads_setExpire (k : Bytes) (e : MillisecondTimestamp) :
    Leads (Keyspace.Stores k) (setExpire k e) (fun _ => Keyspace.NoOrphans) :=
  leads_call fun _ _ hs => hs.noOrphans.setExpire hs.stored e

theorem leads_storeExpiring (k v : Bytes) (ms : Int64) : Leads Keyspace.NoOrphans (do
    storeString k v
    let now ← nowMilliseconds
    setExpire k (now + ms)
    reply RespEncoder.ok) (fun _ => Keyspace.NoOrphans) := by
  apply leads_bind (leads_storeString k v)
  intro _
  apply leads_bind (leads_still fun _ _ => rfl)
  intro now
  exact leads_bind (leads_setExpire k _) fun _ => leads_reply _

theorem leads_handleSet (h : 3 ≤ args.length) :
    Leads Keyspace.NoOrphans (handleSet args) (fun _ => Keyspace.NoOrphans) := by
  rw [handleSet, element_bind (by omega), element_bind (by omega)]
  have hoptions : Uses [.reply] [] (setOptions args args.length 3 ⟨-1, false, false⟩) :=
    uses_setOptions (by simp) _ _ _
  apply leads_bind (leads_of_uses hoptions (by decide))
  intro o
  cases o with
  | none => exact fun env => Program.triple_pure fun _ hs => hs
  | some o =>
      dsimp only
      have hexists : Uses [.lookup] [argStr args 1] («exists» (argStr args 1)) :=
        uses_exists (by simp) (by simp)
      apply leads_bind (leads_of_uses hexists (by decide))
      intro keyExists
      split_ifs
      · exact leads_reply _
      · exact leads_reply _
      · exact leads_storeExpiring _ _ _
      · have hplain : Uses [.store, .clock, .reply] [argStr args 1] (do
            storeString (argStr args 1) (argStr args 2)
            reply RespEncoder.ok) :=
          uses_bind (uses_storeString (by simp) (by simp) (by simp))
            (fun _ => uses_reply (by simp) _)
        exact leads_of_uses hplain (by decide)

theorem leads_setWithLifetime (name : String) (toMs : Int64 → Int64) (h : 4 ≤ args.length) :
    Leads Keyspace.NoOrphans (setWithLifetime name toMs args) (fun _ => Keyspace.NoOrphans) := by
  rw [setWithLifetime, element_bind (by omega), element_bind (by omega), element_bind (by omega)]
  cases fromChars (argStr args 2) with
  | error e => exact leads_reply _
  | ok r =>
      dsimp only
      split_ifs
      · exact leads_reply _
      · exact leads_storeExpiring _ _ _

theorem leads_setDeadline {deadline : Int64 → Handler MillisecondTimestamp}
    (hd : ∀ (I : Keyspace → Prop) n, Leads I (deadline n) (fun _ => I)) (h : 3 ≤ args.length) :
    Leads Keyspace.NoOrphans (setDeadline deadline args) (fun _ => Keyspace.NoOrphans) := by
  rw [setDeadline, element_bind (by omega), element_bind (by omega)]
  cases fromChars (argStr args 2) with
  | error e => exact leads_reply _
  | ok r =>
      dsimp only
      apply leads_bind (leads_exists _)
      intro found
      cases found with
      | false => exact leads_reply _
      | true =>
          apply leads_bind (hd _ _)
          intro e
          exact leads_bind (leads_setExpire _ e) fun _ => leads_reply _

theorem leads_now (I : Keyspace → Prop) (g : MillisecondTimestamp → MillisecondTimestamp) :
    Leads I (do
      let now ← nowMilliseconds
      pure (g now)) (fun _ => I) :=
  leads_bind (leads_still fun _ _ => rfl) fun _ _ => Program.triple_pure fun _ hs => hs

theorem leads_handler {entry : CommandEntry} (he : entry ∈ commandTable)
    (ha : entry.admits args = true) :
    Leads Keyspace.NoOrphans (entry.handler args) (fun _ => Keyspace.NoOrphans) := by
  have hmin := CommandEntry.le_length_of_admits ha
  by_cases hkinds : .deadline ∈ (footprint entry.name).kinds
  · simp only [commandTable, List.mem_cons, List.not_mem_nil, or_false] at he
    rcases he with rfl | rfl | rfl | rfl | rfl | rfl | rfl | rfl | rfl | rfl | rfl | rfl | rfl |
      rfl | rfl | rfl | rfl | rfl | rfl | rfl | rfl | rfl | rfl | rfl | rfl | rfl | rfl | rfl |
      rfl | rfl | rfl | rfl | rfl | rfl
    all_goals first
      | exact absurd hkinds (by decide)
      | skip
    · exact leads_handleSet (Int.ofNat_le.mp hmin)
    · exact leads_setWithLifetime _ _ (Int.ofNat_le.mp hmin)
    · exact leads_setWithLifetime _ _ (Int.ofNat_le.mp hmin)
    · exact leads_setDeadline (fun I _ => leads_now I _) (Int.ofNat_le.mp hmin)
    · exact leads_setDeadline (fun I _ => leads_now I _) (Int.ofNat_le.mp hmin)
    · exact leads_setDeadline (fun I _ _ => Program.triple_pure fun _ hs => hs)
        (Int.ofNat_le.mp hmin)
  · exact leads_of_uses (uses_handler he ha) hkinds

theorem noOrphans_executeFrame (frame : RespValue) (env : ℕ → World) {s : Session}
    (hs : s.db.content.NoOrphans) : (s.exec env (executeFrame frame)).2.db.content.NoOrphans := by
  cases hc : frameCommand frame with
  | none => exact leads_of_uses (executeFrame_of_none hc) (by decide) env s hs
  | some c =>
      obtain ⟨entry, args⟩ := c
      obtain ⟨heq, he, ha, -⟩ := executeFrame_of_some hc
      rw [heq]
      have hcount : Uses [.account] [] (do
          Handler.recordCommand
          if entry.write then fetchAddDirtyKeys else pure ()) := by
        refine uses_bind (uses_call (Call.within_of_key?_none (by simp [Call.kind]) rfl))
          fun _ => ?_
        split_ifs
        · exact uses_call (Call.within_of_key?_none (by simp [Call.kind]) rfl)
        · exact uses_pure _
      exact leads_bind (leads_handler he ha) (fun _ => leads_of_uses hcount (by decide)) env s hs

end Keva
