import Keva.Command.Command

/-!
# Running handlers, and what they call

`exec` runs a handler on a session. `Within` bounds a call by its kind and by the key it is about,
and demands that stored objects are canonical. Every handler stays within the kinds and keys of its
command as soon as the command has the number of elements that dispatch insists on; in particular
it never reads past the end of its elements.
-/

namespace Keva

def Session.exec {α : Type} (env : ℕ → World) (p : Handler α) (s : Session) : α × Session :=
  p.run (Session.perform env) s

namespace Session

variable {α β : Type} {env : ℕ → World} {s : Session}

@[simp] theorem exec_pure (a : α) : exec env (pure a : Handler α) s = (a, s) := rfl

@[simp] theorem exec_bind (p : Handler α) (f : α → Handler β) :
    exec env (p >>= f) s = exec env (f (exec env p s).1) (exec env p s).2 :=
  Program.run_bind (perform env) p f s

theorem exec_call_bind (op : Call) (f : op.Res → Handler β) :
    exec env (Handler.call op >>= f) s =
      exec env (f (perform env s op).1) (perform env s op).2 := rfl

@[simp] theorem exec_call (op : Call) : exec env (Handler.call op) s = perform env s op := rfl

theorem exec_get_bind (k : Bytes) (f : Option KevaObject → Handler β) :
    exec env (Handler.get k >>= f) s =
      exec env (f (perform env s (.get k)).1) (perform env s (.get k)).2 := rfl

theorem exec_set_bind (k : Bytes) (obj : KevaObject) (f : Unit → Handler β) :
    exec env (Handler.set k obj >>= f) s = exec env (f ()) (perform env s (.set k obj)).2 := rfl

theorem exec_del_bind (k : Bytes) (f : Bool → Handler β) :
    exec env (Handler.del k >>= f) s =
      exec env (f (perform env s (.del k)).1) (perform env s (.del k)).2 := rfl

theorem exec_setExpire_bind (k : Bytes) (e : MillisecondTimestamp) (f : Unit → Handler β) :
    exec env (Handler.setExpire k e >>= f) s =
      exec env (f ()) (perform env s (.setExpire k e)).2 := rfl

theorem exec_removeExpire_bind (k : Bytes) (f : Unit → Handler β) :
    exec env (Handler.removeExpire k >>= f) s =
      exec env (f ()) (perform env s (.removeExpire k)).2 := rfl

theorem exec_serverContext_bind (f : ServerContext → Handler β) :
    exec env (Handler.serverContext >>= f) s =
      exec env (f s.server) (perform env s .serverContext).2 := rfl

theorem exec_rdbSaveSync_bind (f : Except Bytes Unit → Handler β) :
    exec env (Handler.rdbSaveSync >>= f) s =
      exec env (f (perform env s .rdbSaveSync).1) (perform env s .rdbSaveSync).2 := rfl

theorem exec_rdbSaveBackground_bind (f : Except Bytes Unit → Handler β) :
    exec env (Handler.rdbSaveBackground >>= f) s =
      exec env (f (perform env s .rdbSaveBackground).1) (perform env s .rdbSaveBackground).2 := rfl

end Session

/-- The effect of a call on the keyspace. A save or a fork leaves it alone. -/
def Call.effect (w : World) : Call → Keyspace → Keyspace
  | .get key, K => (K.get key w.nowMs w.time).2
  | .set key obj, K => K.set key obj
  | .del key, K => K.erase key
  | .setExpire key ms, K => K.setExpire key ms
  | .removeExpire key, K => K.removeExpire key
  | .flush, _ => .empty
  | _, K => K

namespace Session

variable {env : ℕ → World}

theorem content_perform (s : Session) (op : Call) :
    (s.perform env op).2.db.content = op.effect (env s.calls) s.db.content := by
  cases op with
  | get k => exact KevaDatabase.content_get _ _ _ _
  | peek k => exact KevaDatabase.content_peek _ _ _
  | set k obj => exact KevaDatabase.content_set _ _ _
  | del k => exact KevaDatabase.content_del _ _
  | setExpire k e => exact KevaDatabase.content_setExpire _ _ _
  | removeExpire k => exact KevaDatabase.content_removeExpire _ _
  | pttl k => exact KevaDatabase.content_pttl _ _ _
  | flush => exact KevaDatabase.content_flush _
  | rdbSaveSync =>
      change (s.rdbSaveSync (env s.calls)).2.db.content = s.db.content
      unfold Session.rdbSaveSync
      cases (env s.calls).save with
      | ok => exact KevaDatabase.content_saveRecords _ _
      | error visited message => exact KevaDatabase.content_saveInterrupted _ _ _
  | rdbSaveBackground =>
      change (s.rdbSaveBackground (env s.calls)).2.db.content = s.db.content
      unfold Session.rdbSaveBackground
      cases (env s.calls).fork <;> rfl
  | _ => rfl

theorem perform_get_fst (s : Session) (k : Bytes) :
    (s.perform env (.get k)).1 =
      (s.db.content.get k (env s.calls).nowMs (env s.calls).time).1 :=
  KevaDatabase.get_fst _ _ _ _

end Session

/-- `elements[i].str`, or nothing past the end. -/
def argStr (args : List RespValue) (i : ℕ) : Bytes := (args[i]?.map RespValue.str).getD []

inductive CallKind
  | bounds
  | lookup
  | inspect
  | store
  | erase
  | deadline
  | persist
  | ttl
  | scan
  | size
  | flush
  | clock
  | reply
  | state
  | context
  | account
  | save
  | fork
  deriving DecidableEq

namespace Call

def kind : Call → CallKind
  | outOfBounds => .bounds
  | get _ => .lookup
  | peek _ => .inspect
  | set _ _ => .store
  | del _ => .erase
  | setExpire _ _ => .deadline
  | removeExpire _ => .persist
  | pttl _ => .ttl
  | forEach => .scan
  | dbsize => .size
  | flush => .flush
  | nowMilliseconds => .clock
  | time => .clock
  | appendResponse _ => .reply
  | setState _ => .state
  | serverContext => .context
  | storeLastSaveTime _ => .account
  | storeDirtyKeys _ => .account
  | fetchAddDirtyKeys => .account
  | recordCommand => .account
  | rdbSaveSync => .save
  | rdbSaveBackground => .fork

/-- The key that the call looks up or changes. -/
def key? : Call → Option Bytes
  | get key | peek key | set key _ | del key | setExpire key _ | removeExpire key | pttl key =>
      some key
  | _ => none

structure Within (kinds : List CallKind) (keys : List Bytes) (op : Call) : Prop where
  kind_mem : op.kind ∈ kinds
  key_mem : ∀ k, op.key? = some k → k ∈ keys
  canonical : ∀ k obj, op = .set k obj → obj.Canonical

variable {kinds : List CallKind} {keys : List Bytes}

theorem within_of_key?_none {op : Call} (hkind : op.kind ∈ kinds) (hkey : op.key? = none) :
    op.Within kinds keys := by
  refine ⟨hkind, fun k hk => ?_, fun k obj hop => ?_⟩
  · rw [hkey] at hk; cases hk
  · rw [hop] at hkey; cases hkey

theorem within_get {k : Bytes} (hkind : CallKind.lookup ∈ kinds) (hk : k ∈ keys) :
    (get k).Within kinds keys :=
  ⟨hkind, fun _ h => (by cases h; exact hk), fun _ _ h => (by cases h)⟩

theorem within_peek {k : Bytes} (hkind : CallKind.inspect ∈ kinds) (hk : k ∈ keys) :
    (peek k).Within kinds keys :=
  ⟨hkind, fun _ h => (by cases h; exact hk), fun _ _ h => (by cases h)⟩

theorem within_set {k : Bytes} {obj : KevaObject} (hkind : CallKind.store ∈ kinds) (hk : k ∈ keys)
    (hobj : obj.Canonical) : (set k obj).Within kinds keys :=
  ⟨hkind, fun _ h => (by cases h; exact hk), fun _ _ h => (by cases h; exact hobj)⟩

theorem within_del {k : Bytes} (hkind : CallKind.erase ∈ kinds) (hk : k ∈ keys) :
    (del k).Within kinds keys :=
  ⟨hkind, fun _ h => (by cases h; exact hk), fun _ _ h => (by cases h)⟩

theorem within_setExpire {k : Bytes} {e : MillisecondTimestamp}
    (hkind : CallKind.deadline ∈ kinds) (hk : k ∈ keys) : (setExpire k e).Within kinds keys :=
  ⟨hkind, fun _ h => (by cases h; exact hk), fun _ _ h => (by cases h)⟩

theorem within_removeExpire {k : Bytes} (hkind : CallKind.persist ∈ kinds) (hk : k ∈ keys) :
    (removeExpire k).Within kinds keys :=
  ⟨hkind, fun _ h => (by cases h; exact hk), fun _ _ h => (by cases h)⟩

theorem within_pttl {k : Bytes} (hkind : CallKind.ttl ∈ kinds) (hk : k ∈ keys) :
    (pttl k).Within kinds keys :=
  ⟨hkind, fun _ h => (by cases h; exact hk), fun _ _ h => (by cases h)⟩

end Call

section

variable {kinds : List CallKind} {keys : List Bytes} {w : World} {K : Keyspace}

theorem Call.Within.elsewhere {op : Call} (hop : op.Within kinds keys) (hflush : .flush ∉ kinds)
    {k : Bytes} (hk : k ∉ keys) :
    (op.effect w K).objects k = K.objects k ∧ (op.effect w K).deadlines k = K.deadlines k := by
  have hne : ∀ j, op.key? = some j → k ≠ j := fun j hj heq => hk (heq ▸ hop.key_mem j hj)
  cases op with
  | get j => exact Keyspace.get_elsewhere (hne j rfl) w.time
  | set j obj =>
      have hj := hne j rfl
      simp [effect, Keyspace.set, Function.update_of_ne hj]
  | del j =>
      have hj := hne j rfl
      simp [effect, Keyspace.erase, Function.update_of_ne hj]
  | setExpire j e =>
      have hj := hne j rfl
      simp [effect, Keyspace.setExpire, Function.update_of_ne hj]
  | removeExpire j =>
      have hj := hne j rfl
      simp [effect, Keyspace.removeExpire, Function.update_of_ne hj]
  | flush => exact absurd hop.kind_mem hflush
  | _ => exact ⟨rfl, rfl⟩

theorem Call.Within.canonical_effect {op : Call} (hop : op.Within kinds keys)
    (hK : K.Canonical) : (op.effect w K).Canonical := by
  cases op with
  | get k => exact (Keyspace.All.get hK (fun _ clock h => h.touch clock) k w.nowMs w.time).2
  | set k obj => exact Keyspace.All.update_some hK (hop.canonical k obj rfl) _
  | del k => exact Keyspace.All.update_none hK _
  | setExpire k e => exact hK
  | removeExpire k => exact hK
  | flush => exact Keyspace.all_empty
  | _ => exact hK

end

namespace Handler

variable {args : List RespValue}

theorem element_eq {i : ℕ} (hi : i < args.length) : element args i = pure (argStr args i) := by
  rw [element, argStr, List.getElem?_eq_getElem hi]
  rfl

@[simp] theorem element_bind {α : Type} {i : ℕ} (hi : i < args.length) (f : Bytes → Handler α) :
    (element args i >>= f) = f (argStr args i) := by
  rw [element_eq hi]
  rfl

end Handler

section

open Handler

variable {args : List RespValue} {kinds : List CallKind} {keys : List Bytes}

/-- The calls of `p` stay within the given kinds and keys. -/
def Uses {α : Type} (kinds : List CallKind) (keys : List Bytes) (p : Handler α) : Prop :=
  p.Calls (Call.Within kinds keys)

theorem exec_elsewhere {α : Type} {p : Handler α} (h : Uses kinds keys p) (hflush : .flush ∉ kinds)
    {k : Bytes} (hk : k ∉ keys) (env : ℕ → World) (s : Session) :
    (s.exec env p).2.db.content.objects k = s.db.content.objects k ∧
      (s.exec env p).2.db.content.deadlines k = s.db.content.deadlines k := by
  have hcalls : p.Calls (Call.Within kinds keys) := h
  refine Program.run_invariant (I := fun s' : Session =>
    s'.db.content.objects k = s.db.content.objects k ∧
      s'.db.content.deadlines k = s.db.content.deadlines k) (fun s' op hop hs' => ?_)
    hcalls ⟨rfl, rfl⟩
  obtain ⟨ho, hd⟩ := hop.elsewhere hflush hk (w := env s'.calls) (K := s'.db.content)
  rw [Session.content_perform, ho, hd]
  exact hs'

theorem exec_canonical {α : Type} {p : Handler α} (h : Uses kinds keys p) (env : ℕ → World)
    {s : Session} (hs : s.db.content.Canonical) : (s.exec env p).2.db.content.Canonical := by
  have hcalls : p.Calls (Call.Within kinds keys) := h
  refine Program.run_invariant (I := fun s' : Session => s'.db.content.Canonical)
    (fun s' op hop hs' => ?_) hcalls hs
  rw [Session.content_perform]
  exact hop.canonical_effect hs'

theorem uses_pure {α : Type} (a : α) : Uses kinds keys (pure a : Handler α) := trivial

theorem Uses.mono {α : Type} {kinds' : List CallKind} {keys' : List Bytes} {p : Handler α}
    (h : Uses kinds keys p) (hkinds : kinds ⊆ kinds') (hkeys : keys ⊆ keys') :
    Uses kinds' keys' p :=
  Program.Calls.mono h (fun _ hop =>
    ⟨hkinds hop.kind_mem, fun k hk => hkeys (hop.key_mem k hk), hop.canonical⟩)

theorem uses_bind {α β : Type} {p : Handler α} {f : α → Handler β} (hp : Uses kinds keys p)
    (hf : ∀ a, Uses kinds keys (f a)) : Uses kinds keys (p >>= f) := Program.calls_bind hp hf

theorem uses_call {op : Call} (h : op.Within kinds keys) : Uses kinds keys (call op) :=
  Program.calls_perform.mpr h

theorem uses_reply (h : CallKind.reply ∈ kinds) (bytes : Bytes) : Uses kinds keys (reply bytes) :=
  uses_call (Call.within_of_key?_none h rfl)

theorem uses_lruClock (h : CallKind.clock ∈ kinds) : Uses kinds keys lruClock :=
  uses_bind (uses_call (Call.within_of_key?_none h rfl)) (fun _ => uses_pure _)

theorem uses_nowMilliseconds (h : CallKind.clock ∈ kinds) : Uses kinds keys nowMilliseconds :=
  uses_call (Call.within_of_key?_none h rfl)

theorem uses_get {k : Bytes} (h : CallKind.lookup ∈ kinds) (hk : k ∈ keys) :
    Uses kinds keys (get k) := uses_call (Call.within_get h hk)

theorem uses_exists {k : Bytes} (h : CallKind.lookup ∈ kinds) (hk : k ∈ keys) :
    Uses kinds keys («exists» k) := uses_bind (uses_get h hk) (fun _ => uses_pure _)

theorem uses_storeString {k v : Bytes} (hs : CallKind.store ∈ kinds) (hc : CallKind.clock ∈ kinds)
    (hk : k ∈ keys) : Uses kinds keys (storeString k v) :=
  uses_bind (uses_lruClock hc) (fun clock =>
    uses_call (Call.within_set hs hk (KevaObject.canonical_createString v clock)))

/-- The option loop ends with options or with an error, and does nothing before. -/
theorem setOptions_induction {P : Handler (Option SetOptions) → Prop}
    (hdone : ∀ o, P (pure (some o)))
    (hfail : P (do
      reply (RespEncoder.error (invalidExpireMessage "set"))
      pure none)) (fuel i : ℕ) (o : SetOptions) : P (setOptions args fuel i o) := by
  induction fuel generalizing i o with
  | zero => exact hdone o
  | succ fuel ih =>
      rw [setOptions]
      split_ifs with hi
      · rw [element_bind hi]
        dsimp only
        split_ifs with hex hpx hnx hxx
        · rw [element_bind hex.2]
          cases fromChars (argStr args (i + 1)) with
          | error e => exact hfail
          | ok r =>
              dsimp only
              split_ifs
              · exact hfail
              · exact ih _ _
        · rw [element_bind hpx.2]
          cases fromChars (argStr args (i + 1)) with
          | error e => exact hfail
          | ok r =>
              dsimp only
              split_ifs
              · exact hfail
              · exact ih _ _
        · exact ih _ _
        · exact ih _ _
        · exact ih _ _
      · exact hdone o

theorem uses_setOptions (h : CallKind.reply ∈ kinds) (fuel i : ℕ) (o : SetOptions) :
    Uses kinds keys (setOptions args fuel i o) :=
  setOptions_induction (fun _ => uses_pure _) (uses_bind (uses_reply h _) (fun _ => uses_pure _))
    fuel i o

theorem uses_handleSet (h : 3 ≤ args.length) :
    Uses [.lookup, .store, .deadline, .clock, .reply] [argStr args 1] (handleSet args) := by
  rw [handleSet, element_bind (by omega), element_bind (by omega)]
  refine uses_bind (uses_setOptions (by simp) _ _ _) fun o => ?_
  cases o with
  | none => exact uses_pure _
  | some o =>
      refine uses_bind (uses_exists (by simp) (by simp)) fun keyExists => ?_
      split_ifs
      · exact uses_reply (by simp) _
      · exact uses_reply (by simp) _
      · refine uses_bind (uses_storeString (by simp) (by simp) (by simp)) fun _ => ?_
        refine uses_bind (uses_nowMilliseconds (by simp)) fun now => ?_
        exact uses_bind (uses_call (Call.within_setExpire (by simp) (by simp)))
          (fun _ => uses_reply (by simp) _)
      · exact uses_bind (uses_storeString (by simp) (by simp) (by simp))
          (fun _ => uses_reply (by simp) _)

theorem uses_handleGet (h : 2 ≤ args.length) :
    Uses [.lookup, .reply] [argStr args 1] (handleGet args) := by
  rw [handleGet, element_bind (by omega)]
  refine uses_bind (uses_get (by simp) (by simp)) fun obj => ?_
  cases obj with
  | none => exact uses_reply (by simp) _
  | some obj => dsimp only; split_ifs <;> exact uses_reply (by simp) _

theorem uses_handleGetset (h : 3 ≤ args.length) :
    Uses [.lookup, .store, .clock, .reply] [argStr args 1] (handleGetset args) := by
  rw [handleGetset, element_bind (by omega), element_bind (by omega)]
  refine uses_bind (uses_get (by simp) (by simp)) fun old => ?_
  have hstore : ∀ bytes, Uses [.lookup, .store, .clock, .reply] [argStr args 1] (do
      reply bytes
      storeString (argStr args 1) (argStr args 2)) := fun bytes =>
    uses_bind (uses_reply (by simp) _)
      (fun _ => uses_storeString (by simp) (by simp) (by simp))
  cases old with
  | none => exact hstore _
  | some old =>
      dsimp only
      split_ifs
      · exact uses_reply (by simp) _
      · exact hstore _

/-- The key arguments of MSET. -/
def msetKeys (args : List RespValue) : List Bytes :=
  (List.range' 1 (args.length / 2) 2).map (argStr args)

theorem uses_msetRound {i : ℕ} (hs : CallKind.store ∈ kinds) (hc : CallKind.clock ∈ kinds)
    (hi : i + 1 < args.length) (hk : argStr args i ∈ keys) :
    Uses kinds keys (msetRound args i) := by
  rw [msetRound, element_bind hi]
  refine uses_bind (uses_lruClock hc) fun clock => ?_
  rw [element_bind (by omega)]
  exact uses_call (Call.within_set hs hk (KevaObject.canonical_createString _ _))

theorem uses_msetLoop (hs : CallKind.store ∈ kinds) (hc : CallKind.clock ∈ kinds)
    (hodd : ¬ args.length % 2 ≠ 1) : Uses kinds (msetKeys args)
      (forM (List.range' 1 (args.length / 2) 2) (msetRound args)) := by
  refine Program.calls_forM fun i hi => ?_
  obtain ⟨j, hj, rfl⟩ := List.mem_range'.mp hi
  exact uses_msetRound hs hc (by omega) (List.mem_map_of_mem hi)

theorem uses_handleMset : Uses [.store, .clock, .reply] (msetKeys args) (handleMset args) := by
  rw [handleMset]
  split_ifs with hodd
  · exact uses_reply (by simp) _
  · exact uses_bind (uses_msetLoop (by simp) (by simp) hodd) (fun _ => uses_reply (by simp) _)

/-- All arguments after the command name. -/
def tailKeys (args : List RespValue) : List Bytes :=
  (List.range' 1 (args.length - 1)).map (argStr args)

theorem uses_mgetRound {i : ℕ} (hi : i < args.length) (hk : argStr args i ∈ keys) :
    Uses [.lookup, .reply] keys (mgetRound args i) := by
  rw [mgetRound, element_bind hi]
  refine uses_bind (uses_get (by simp) hk) fun obj => ?_
  cases obj with
  | none => exact uses_reply (by simp) _
  | some obj => dsimp only; split_ifs <;> exact uses_reply (by simp) _

theorem uses_handleMget : Uses [.lookup, .reply] (tailKeys args) (handleMget args) := by
  rw [handleMget]
  refine uses_bind (uses_reply (by simp) _) fun _ => Program.calls_forM fun i hi => ?_
  have hlt : i < args.length := by
    obtain ⟨j, hj, rfl⟩ := List.mem_range'.mp hi
    omega
  exact uses_mgetRound hlt (List.mem_map_of_mem hi)

theorem uses_handleAppend (h : 3 ≤ args.length) :
    Uses [.lookup, .store, .clock, .reply] [argStr args 1] (handleAppend args) := by
  rw [handleAppend, element_bind (by omega), element_bind (by omega)]
  refine uses_bind (uses_get (by simp) (by simp)) fun obj => ?_
  have hstore : ∀ val bytes, Uses [.lookup, .store, .clock, .reply] [argStr args 1] (do
      storeString (argStr args 1) val
      reply bytes) := fun val bytes =>
    uses_bind (uses_storeString (by simp) (by simp) (by simp)) (fun _ => uses_reply (by simp) _)
  cases obj with
  | none => exact hstore _ _
  | some obj =>
      dsimp only
      split_ifs
      · exact uses_reply (by simp) _
      · exact hstore _ _

theorem uses_handleStrlen (h : 2 ≤ args.length) :
    Uses [.lookup, .reply] [argStr args 1] (handleStrlen args) := by
  rw [handleStrlen, element_bind (by omega)]
  refine uses_bind (uses_get (by simp) (by simp)) fun obj => ?_
  cases obj with
  | none => exact uses_reply (by simp) _
  | some obj => dsimp only; split_ifs <;> exact uses_reply (by simp) _

theorem uses_updateCounter (key : Bytes) (refuses : Int64 → Bool) (next : Int64 → Int64) :
    Uses [.lookup, .store, .clock, .reply] [key] (updateCounter key refuses next) := by
  rw [updateCounter]
  refine uses_bind (uses_get (by simp) (by simp)) fun obj => ?_
  cases getIntegerObj obj with
  | none => exact uses_reply (by simp) _
  | some current =>
      dsimp only
      split_ifs
      · exact uses_reply (by simp) _
      · refine uses_bind (uses_lruClock (by simp)) fun clock => ?_
        exact uses_bind (uses_call (Call.within_set (by simp) (by simp)
          (KevaObject.canonical_createStringFromInt _ _))) (fun _ => uses_reply (by simp) _)

theorem uses_handleIncr (h : 2 ≤ args.length) :
    Uses [.lookup, .store, .clock, .reply] [argStr args 1] (handleIncr args) := by
  rw [handleIncr, element_bind (by omega)]
  exact uses_updateCounter _ _ _

theorem uses_handleDecr (h : 2 ≤ args.length) :
    Uses [.lookup, .store, .clock, .reply] [argStr args 1] (handleDecr args) := by
  rw [handleDecr, element_bind (by omega)]
  exact uses_updateCounter _ _ _

theorem uses_handleIncrby (h : 3 ≤ args.length) :
    Uses [.lookup, .store, .clock, .reply] [argStr args 1] (handleIncrby args) := by
  rw [handleIncrby, element_bind (by omega), element_bind (by omega)]
  cases fromChars (argStr args 2) with
  | error e => exact uses_reply (by simp) _
  | ok r => exact uses_updateCounter _ _ _

theorem uses_handleDecrby (h : 3 ≤ args.length) :
    Uses [.lookup, .store, .clock, .reply] [argStr args 1] (handleDecrby args) := by
  rw [handleDecrby, element_bind (by omega), element_bind (by omega)]
  cases fromChars (argStr args 2) with
  | error e => exact uses_reply (by simp) _
  | ok r => exact uses_updateCounter _ _ _

theorem uses_setWithLifetime (name : String) (toMs : Int64 → Int64) (h : 4 ≤ args.length) :
    Uses [.store, .deadline, .clock, .reply] [argStr args 1] (setWithLifetime name toMs args) := by
  rw [setWithLifetime, element_bind (by omega), element_bind (by omega), element_bind (by omega)]
  cases fromChars (argStr args 2) with
  | error e => exact uses_reply (by simp) _
  | ok r =>
      dsimp only
      split_ifs
      · exact uses_reply (by simp) _
      · refine uses_bind (uses_storeString (by simp) (by simp) (by simp)) fun _ => ?_
        refine uses_bind (uses_nowMilliseconds (by simp)) fun now => ?_
        exact uses_bind (uses_call (Call.within_setExpire (by simp) (by simp)))
          (fun _ => uses_reply (by simp) _)

theorem uses_handleSetnx (h : 3 ≤ args.length) :
    Uses [.lookup, .store, .clock, .reply] [argStr args 1] (handleSetnx args) := by
  rw [handleSetnx, element_bind (by omega), element_bind (by omega)]
  refine uses_bind (uses_exists (by simp) (by simp)) fun keyExists => ?_
  split_ifs
  · exact uses_reply (by simp) _
  · exact uses_bind (uses_storeString (by simp) (by simp) (by simp))
      (fun _ => uses_reply (by simp) _)

theorem uses_countKeys {test : Bytes → Handler Bool} {kind : CallKind}
    (htest : ∀ k ∈ tailKeys args, Uses [kind, .reply] (tailKeys args) (test k)) :
    Uses [kind, .reply] (tailKeys args) (countKeys test args) := by
  rw [countKeys]
  refine uses_bind (Program.calls_foldlM (fun count i hi => ?_) 0) (fun n => uses_reply (by simp) _)
  have hlt : i < args.length := by
    obtain ⟨j, hj, rfl⟩ := List.mem_range'.mp hi
    omega
  rw [element_bind hlt]
  exact uses_bind (htest _ (List.mem_map_of_mem hi)) (fun hit => uses_pure _)

theorem uses_handleDel : Uses [.erase, .reply] (tailKeys args) (handleDel args) :=
  uses_countKeys (fun _ hk => uses_call (Call.within_del (by simp) hk))

theorem uses_handleExists : Uses [.lookup, .reply] (tailKeys args) (handleExists args) :=
  uses_countKeys (fun _ hk => uses_exists (by simp) hk)

theorem uses_handleType (h : 2 ≤ args.length) :
    Uses [.inspect, .reply] [argStr args 1] (handleType args) := by
  rw [handleType, element_bind (by omega)]
  refine uses_bind (uses_call (Call.within_peek (by simp) (by simp))) fun obj => ?_
  cases obj with
  | none => exact uses_reply (by simp) _
  | some obj => dsimp only; cases KevaObject.type obj <;> exact uses_reply (by simp) _

theorem uses_setDeadline {deadline : Int64 → Handler MillisecondTimestamp} (h : 3 ≤ args.length)
    (hd : ∀ n, Uses [.lookup, .deadline, .clock, .reply] [argStr args 1] (deadline n)) :
    Uses [.lookup, .deadline, .clock, .reply] [argStr args 1] (setDeadline deadline args) := by
  rw [setDeadline, element_bind (by omega), element_bind (by omega)]
  cases fromChars (argStr args 2) with
  | error e => exact uses_reply (by simp) _
  | ok r =>
      refine uses_bind (uses_exists (by simp) (by simp)) fun keyExists => ?_
      split_ifs
      · exact uses_reply (by simp) _
      · refine uses_bind (hd _) fun e => ?_
        exact uses_bind (uses_call (Call.within_setExpire (by simp) (by simp)))
          (fun _ => uses_reply (by simp) _)

theorem uses_handleExpire (h : 3 ≤ args.length) :
    Uses [.lookup, .deadline, .clock, .reply] [argStr args 1] (handleExpire args) :=
  uses_setDeadline h (fun _ => uses_bind (uses_nowMilliseconds (by simp)) (fun _ => uses_pure _))

theorem uses_handlePexpire (h : 3 ≤ args.length) :
    Uses [.lookup, .deadline, .clock, .reply] [argStr args 1] (handlePexpire args) :=
  uses_setDeadline h (fun _ => uses_bind (uses_nowMilliseconds (by simp)) (fun _ => uses_pure _))

theorem uses_handleExpireat (h : 3 ≤ args.length) :
    Uses [.lookup, .deadline, .clock, .reply] [argStr args 1] (handleExpireat args) :=
  uses_setDeadline h (fun _ => uses_pure _)

theorem uses_handleTtl (h : 2 ≤ args.length) :
    Uses [.ttl, .reply] [argStr args 1] (handleTtl args) := by
  rw [handleTtl, element_bind (by omega)]
  refine uses_bind (uses_call (Call.within_pttl (by simp) (by simp))) fun ms => ?_
  split_ifs <;> exact uses_reply (by simp) _

theorem uses_handlePttl (h : 2 ≤ args.length) :
    Uses [.ttl, .reply] [argStr args 1] (handlePttl args) := by
  rw [handlePttl, element_bind (by omega)]
  exact uses_bind (uses_call (Call.within_pttl (by simp) (by simp)))
    (fun _ => uses_reply (by simp) _)

theorem uses_handlePersist (h : 2 ≤ args.length) :
    Uses [.lookup, .persist, .reply] [argStr args 1] (handlePersist args) := by
  rw [handlePersist, element_bind (by omega)]
  refine uses_bind (uses_exists (by simp) (by simp)) fun keyExists => ?_
  split_ifs
  · exact uses_reply (by simp) _
  · exact uses_bind (uses_call (Call.within_removeExpire (by simp) (by simp)))
      (fun _ => uses_reply (by simp) _)

theorem uses_handleKeys (h : 2 ≤ args.length) : Uses [.scan, .reply] [] (handleKeys args) := by
  rw [handleKeys, element_bind (by omega)]
  refine uses_bind (uses_call (Call.within_of_key?_none (by simp [Call.kind]) rfl))
    fun visited => ?_
  exact uses_bind (uses_reply (by simp) _)
    (fun _ => Program.calls_forM fun k _ => uses_reply (by simp) _)

theorem uses_handleRename (h : 3 ≤ args.length) :
    Uses [.lookup, .clock, .erase, .store, .reply] [argStr args 1, argStr args 2]
      (handleRename args) := by
  rw [handleRename, element_bind (by omega), element_bind (by omega)]
  refine uses_bind (uses_get (by simp) (by simp)) fun obj => ?_
  cases obj with
  | none => exact uses_reply (by simp) _
  | some obj =>
      refine uses_bind (uses_lruClock (by simp)) fun clock => ?_
      refine uses_bind (uses_call (Call.within_del (by simp) (by simp))) fun _ => ?_
      refine uses_bind (uses_call (Call.within_set (by simp) (by simp) ?_))
        (fun _ => uses_reply (by simp) _)
      split_ifs
      · exact KevaObject.canonical_createStringFromInt _ _
      · exact KevaObject.canonical_createString _ _

theorem uses_handleDbsize : Uses [.size, .reply] [] (handleDbsize args) :=
  uses_bind (uses_call (Call.within_of_key?_none (by simp [Call.kind]) rfl))
    (fun _ => uses_reply (by simp) _)

theorem uses_handlePing (h : 1 ≤ args.length) : Uses [.reply] [] (handlePing args) := by
  rw [handlePing]
  split_ifs
  · exact uses_reply (by simp) _
  · rw [element_bind (by omega)]
    exact uses_reply (by simp) _

theorem uses_handleEcho (h : 2 ≤ args.length) : Uses [.reply] [] (handleEcho args) := by
  rw [handleEcho, element_bind (by omega)]
  exact uses_reply (by simp) _

theorem uses_handleFlushdb : Uses [.flush, .reply] [] (handleFlushdb args) :=
  uses_bind (uses_call (Call.within_of_key?_none (by simp [Call.kind]) rfl))
    (fun _ => uses_reply (by simp) _)

theorem uses_handleInfo : Uses [.context, .clock, .size, .reply] [] (handleInfo args) :=
  uses_bind (uses_call (Call.within_of_key?_none (by simp [Call.kind]) rfl)) fun _ =>
    uses_bind (uses_call (Call.within_of_key?_none (by simp [Call.kind]) rfl)) fun _ =>
      uses_bind (uses_call (Call.within_of_key?_none (by simp [Call.kind]) rfl))
        (fun _ => uses_reply (by simp) _)

theorem uses_handleSave : Uses [.save, .clock, .account, .reply] [] (handleSave args) := by
  rw [handleSave]
  refine uses_bind (uses_call (Call.within_of_key?_none (by simp [Call.kind]) rfl)) fun status => ?_
  cases status with
  | error message => exact uses_reply (by simp) _
  | ok u =>
      exact uses_bind (uses_call (Call.within_of_key?_none (by simp [Call.kind]) rfl)) fun _ =>
        uses_bind (uses_call (Call.within_of_key?_none (by simp [Call.kind]) rfl)) fun _ =>
          uses_bind (uses_call (Call.within_of_key?_none (by simp [Call.kind]) rfl))
            (fun _ => uses_reply (by simp) _)

theorem uses_handleBgsave : Uses [.context, .fork, .reply] [] (handleBgsave args) := by
  rw [handleBgsave]
  refine uses_bind (uses_call (Call.within_of_key?_none (by simp [Call.kind]) rfl)) fun srv => ?_
  split_ifs
  · exact uses_reply (by simp) _
  · refine uses_bind (uses_call (Call.within_of_key?_none (by simp [Call.kind]) rfl))
      fun status => ?_
    cases status <;> exact uses_reply (by simp) _

theorem uses_handleSelect (h : 2 ≤ args.length) : Uses [.reply] [] (handleSelect args) := by
  rw [handleSelect, element_bind (by omega)]
  cases fromChars (argStr args 1) with
  | error e => exact uses_reply (by simp) _
  | ok r => dsimp only; split_ifs <;> exact uses_reply (by simp) _

theorem uses_handleQuit : Uses [.reply, .state] [] (handleQuit args) :=
  uses_bind (uses_reply (by simp) _)
    (fun _ => uses_call (Call.within_of_key?_none (by simp [Call.kind]) rfl))

variable {env : ℕ → World}

/-- The reply of KEYS when it has found `found`. -/
def keysReply (found : List Bytes) : Bytes :=
  (RespValue.array (found.map RespValue.bulkString)).wire

theorem exec_forM_reply {ι : Type} (l : List ι) (f : ι → Bytes) (s : Session) :
    (Session.exec env (forM l fun i => reply (f i)) s).2 =
      { s with output := s.output ++ l.flatMap f, calls := s.calls + l.length } := by
  induction l generalizing s with
  | nil => simp [Session.exec]
  | cons i l ih =>
      rw [List.forM_cons, Session.exec_bind, ih]
      simp only [List.flatMap_cons, List.length_cons, ← List.append_assoc, ← Nat.add_assoc,
        Nat.add_right_comm _ l.length 1]
      rfl

/-- The keys that KEYS reports. -/
def keysFound (db : KevaDatabase) (now : MillisecondTimestamp) (pattern : Bytes) : List Bytes :=
  ((db.forEach now).map Prod.fst).filter (globMatch pattern)

theorem exec_handleKeys (h : 2 ≤ args.length) (s : Session) :
    (Session.exec env (handleKeys args) s).2 = { s with
      output := s.output ++ keysReply (keysFound s.db (env s.calls).nowMs (argStr args 1))
      calls := s.calls + 2 + (keysFound s.db (env s.calls).nowMs (argStr args 1)).length } := by
  rw [handleKeys, element_bind (by omega)]
  change (Session.exec env (do
    reply (RespEncoder.arrayHeader
      (Int64.ofNat (keysFound s.db (env s.calls).nowMs (argStr args 1)).length))
    forM (keysFound s.db (env s.calls).nowMs (argStr args 1)) fun k =>
      reply (RespEncoder.bulkString k)) { s with calls := s.calls + 1 }).2 = _
  rw [Session.exec_bind, exec_forM_reply]
  rw [keysReply, RespValue.wire, RespValue.wireAll_eq, List.flatMap_map, List.length_map]
  simp only [← List.append_assoc]
  rfl

end

end Keva
