import Keva.Command.Footprint
import Keva.Core.Purge

/-!
# Expired keys are invisible to commands

Two sessions are `Alike` at an instant when they differ only in their databases and these have the
same purge. A handler `Respects` this when it answers and replies alike from alike sessions and
leaves them alike. Handlers that only look keys up and store values do so call by call; a handler
that changes a deadline or deletes a key does so because it has just found or stored that key.
-/

namespace Keva

open Session Handler

structure Alike (t : MillisecondTimestamp) (s s' : Session) : Prop where
  purge_eq : s.db.content.purge t = s'.db.content.purge t
  rest_eq : { s with db := s'.db } = s'

/-- The clock stands still at `t`. -/
def ClockAt (t : MillisecondTimestamp) (env : ℕ → World) : Prop := ∀ n, (env n).nowMs = t

/-- The calls that treat alike sessions alike without further ado. -/
def blindKinds : List CallKind :=
  [.bounds, .lookup, .inspect, .store, .flush, .clock, .reply, .state, .account]

variable {t : MillisecondTimestamp} {env : ℕ → World} {s s' : Session} {α β : Type}

theorem Alike.eq_withDb (h : Alike t s s') : s' = { s with db := s'.db } := h.rest_eq.symm

theorem alike_perform (henv : ClockAt t env) {op : Call} (hk : op.kind ∈ blindKinds)
    (h : Alike t s s') :
    (s.perform env op).1 = (s'.perform env op).1 ∧
      Alike t (s.perform env op).2 (s'.perform env op).2 := by
  obtain ⟨db', rfl⟩ : ∃ db', s' = { s with db := db' } := ⟨s'.db, h.eq_withDb⟩
  have hp : s.db.content.purge t = db'.content.purge t := h.purge_eq
  have hms : (env s.calls).nowMs = t := henv s.calls
  cases op with
  | get k =>
      have hget := Keyspace.get_purge_congr hp (k := k) (env s.calls).time
      refine ⟨?_, ?_, rfl⟩
      · change (s.db.get k _ _).1 = (db'.get k _ _).1
        rw [hms, KevaDatabase.get_fst, KevaDatabase.get_fst, hget.1]
      · change (s.db.get k _ _).2.content.purge t = (db'.get k _ _).2.content.purge t
        rw [hms, KevaDatabase.content_get, KevaDatabase.content_get, hget.2]
  | peek k =>
      refine ⟨?_, ?_, rfl⟩
      · change (s.db.peek k _).1 = (db'.peek k _).1
        rw [hms, KevaDatabase.peek_fst, KevaDatabase.peek_fst, Keyspace.peek_purge_congr hp]
      · change (s.db.peek k _).2.content.purge t = (db'.peek k _).2.content.purge t
        rw [KevaDatabase.content_peek, KevaDatabase.content_peek, hp]
  | set k obj =>
      refine ⟨rfl, ?_, rfl⟩
      change (s.db.set k obj).content.purge t = (db'.set k obj).content.purge t
      rw [KevaDatabase.content_set, KevaDatabase.content_set, Keyspace.set_purge_congr hp]
  | flush =>
      refine ⟨rfl, ?_, rfl⟩
      change s.db.flush.content.purge t = db'.flush.content.purge t
      rw [KevaDatabase.content_flush, KevaDatabase.content_flush]
  | outOfBounds => exact ⟨rfl, hp, rfl⟩
  | nowMilliseconds => exact ⟨rfl, hp, rfl⟩
  | time => exact ⟨rfl, hp, rfl⟩
  | appendResponse bytes => exact ⟨rfl, hp, rfl⟩
  | setState state => exact ⟨rfl, hp, rfl⟩
  | storeLastSaveTime secs => exact ⟨rfl, hp, rfl⟩
  | storeDirtyKeys n => exact ⟨rfl, hp, rfl⟩
  | fetchAddDirtyKeys => exact ⟨rfl, hp, rfl⟩
  | recordCommand => exact ⟨rfl, hp, rfl⟩
  | del k | setExpire k e | removeExpire k | pttl k | forEach | dbsize | serverContext
  | rdbSaveSync | rdbSaveBackground => exact absurd hk (by simp [Call.kind, blindKinds])

def Respects (t : MillisecondTimestamp) (p : Handler α) : Prop :=
  ∀ env, ClockAt t env → ∀ s s', Alike t s s' →
    (exec env p s).1 = (exec env p s').1 ∧ Alike t (exec env p s).2 (exec env p s').2

/-- `Respects`, for sessions in which `k` is live. -/
def RespectsAt (t : MillisecondTimestamp) (k : Bytes) (p : Handler α) : Prop :=
  ∀ env, ClockAt t env → ∀ s s', Alike t s s' → s.db.content.Live t k →
    (exec env p s).1 = (exec env p s').1 ∧ Alike t (exec env p s).2 (exec env p s').2

variable {p : Handler α} {f : α → Handler β} {k : Bytes}

theorem respects_of_uses {kinds : List CallKind} {keys : List Bytes} (h : Uses kinds keys p)
    (hkinds : kinds ⊆ blindKinds) : Respects t p := by
  intro env henv s s' hs
  have hcalls : p.Calls (Call.Within kinds keys) := h
  refine Program.run_related (R := Alike t) (fun s s' op hop halike => ?_) hcalls hs
  exact alike_perform henv (hkinds hop.kind_mem) halike

theorem respects_pure (a : α) : Respects t (pure a : Handler α) := fun _ _ _ _ hs => ⟨rfl, hs⟩

theorem respects_reply (bytes : Bytes) : Respects t (reply bytes) := by
  have h : Uses [.reply] [] (reply bytes) := uses_reply (by simp) bytes
  exact respects_of_uses h (by decide)

theorem respects_bind (hp : Respects t p) (hf : ∀ a, Respects t (f a)) : Respects t (p >>= f) := by
  intro env henv s s' hs
  obtain ⟨h1, h2⟩ := hp env henv s s' hs
  rw [exec_bind, exec_bind, ← h1]
  exact hf _ env henv _ _ h2

theorem Respects.at (h : Respects t p) : RespectsAt t k p := fun env henv s s' hs _ =>
  h env henv s s' hs

theorem respects_get_bind {f : Option KevaObject → Handler β} (hnone : Respects t (f none))
    (hsome : ∀ obj, RespectsAt t k (f (some obj))) : Respects t (Handler.get k >>= f) := by
  intro env henv s s' hs
  obtain ⟨h1, h2⟩ : _ ∧ Alike t (s.perform env (.get k)).2 (s'.perform env (.get k)).2 :=
    alike_perform henv (by simp [Call.kind, blindKinds]) hs
  rw [exec_get_bind, exec_get_bind, ← h1]
  cases ho : (s.perform env (.get k)).1 with
  | none => exact hnone env henv _ _ h2
  | some obj =>
      refine hsome obj env henv _ _ h2 ?_
      have hget : (s.db.content.get k t (env s.calls).time).1 = some obj := by
        rw [← KevaDatabase.get_fst, ← henv s.calls]
        exact ho
      have hcontent : (s.perform env (.get k)).2.db.content =
          (s.db.content.get k t (env s.calls).time).2 := by
        rw [← KevaDatabase.content_get, ← henv s.calls]
        rfl
      rw [hcontent]
      exact Keyspace.live_of_get hget

theorem respects_exists_bind {f : Bool → Handler β} (hfalse : Respects t (f false))
    (htrue : RespectsAt t k (f true)) : Respects t («exists» k >>= f) := by
  rw [«exists», bind_assoc]
  exact respects_get_bind hfalse (fun _ => htrue)

theorem respects_storeString_bind {v : Bytes} {f : Unit → Handler β} (h : RespectsAt t k (f ())) :
    Respects t (storeString k v >>= f) := by
  rw [storeString, bind_assoc]
  have hclock : Uses [.clock] [] lruClock := uses_lruClock (by simp)
  refine respects_bind (respects_of_uses hclock (by decide)) fun clock => ?_
  intro env henv s s' hs
  obtain ⟨-, h2⟩ : _ ∧ Alike t (s.perform env (.set k (KevaObject.createString v clock))).2
      (s'.perform env (.set k (KevaObject.createString v clock))).2 :=
    alike_perform henv (by simp [Call.kind, blindKinds]) hs
  rw [exec_set_bind, exec_set_bind]
  refine h env henv _ _ h2 ?_
  change (s.db.set k _).content.Live t k
  rw [KevaDatabase.content_set]
  exact Keyspace.live_set _

theorem respectsAt_clock_bind {op : Call} {f : op.Res → Handler β} (hop : op.kind ∈ blindKinds)
    (hdb : ∀ (env : ℕ → World) (s : Session), (s.perform env op).2.db = s.db)
    (h : ∀ r, RespectsAt t k (f r)) :
    RespectsAt t k (call op >>= f) := by
  intro env henv s s' hs hl
  obtain ⟨h1, h2⟩ := alike_perform henv hop hs
  rw [exec_call_bind, exec_call_bind, ← h1]
  exact h _ env henv _ _ h2 (by rw [hdb]; exact hl)

theorem respectsAt_lruClock_bind {f : UInt32 → Handler β} (h : ∀ r, RespectsAt t k (f r)) :
    RespectsAt t k (lruClock >>= f) := by
  rw [lruClock, bind_assoc]
  exact respectsAt_clock_bind (by decide) (fun _ _ => rfl) (fun _ => h _)

theorem respectsAt_nowMilliseconds_bind {f : MillisecondTimestamp → Handler β}
    (h : ∀ now, RespectsAt t k (f now)) : RespectsAt t k (nowMilliseconds >>= f) :=
  respectsAt_clock_bind (by decide) (fun _ _ => rfl) h

theorem respectsAt_setExpire_bind {e : MillisecondTimestamp} {f : Unit → Handler β}
    (h : Respects t (f ())) : RespectsAt t k (setExpire k e >>= f) := by
  intro env henv s s' hs hl
  obtain ⟨db', rfl⟩ : ∃ db', s' = { s with db := db' } := ⟨s'.db, hs.eq_withDb⟩
  rw [exec_setExpire_bind, exec_setExpire_bind]
  refine h env henv _ _ ⟨?_, rfl⟩
  change (s.db.setExpire k e).content.purge t = (db'.setExpire k e).content.purge t
  rw [KevaDatabase.content_setExpire, KevaDatabase.content_setExpire]
  exact Keyspace.setExpire_purge_congr hs.purge_eq hl e

theorem respectsAt_removeExpire_bind {f : Unit → Handler β} (h : Respects t (f ())) :
    RespectsAt t k (removeExpire k >>= f) := by
  intro env henv s s' hs hl
  obtain ⟨db', rfl⟩ : ∃ db', s' = { s with db := db' } := ⟨s'.db, hs.eq_withDb⟩
  rw [exec_removeExpire_bind, exec_removeExpire_bind]
  refine h env henv _ _ ⟨?_, rfl⟩
  change (s.db.removeExpire k).content.purge t = (db'.removeExpire k).content.purge t
  rw [KevaDatabase.content_removeExpire, KevaDatabase.content_removeExpire]
  exact Keyspace.removeExpire_purge_congr hs.purge_eq hl

theorem respectsAt_del_bind {f : Bool → Handler β} (h : ∀ b, Respects t (f b)) :
    RespectsAt t k (del k >>= f) := by
  intro env henv s s' hs hl
  obtain ⟨db', rfl⟩ : ∃ db', s' = { s with db := db' } := ⟨s'.db, hs.eq_withDb⟩
  have hl' := (Keyspace.live_iff_of_purge_eq hs.purge_eq).mp hl
  have hb : (s.db.del k).1 = (db'.del k).1 := by
    rw [KevaDatabase.del_fst, KevaDatabase.del_fst, hl.stored]
    exact hl'.stored.symm
  rw [exec_del_bind, exec_del_bind]
  change (exec env (f (s.db.del k).1) _).1 = (exec env (f (db'.del k).1) _).1 ∧ Alike t
    (exec env (f (s.db.del k).1) _).2 (exec env (f (db'.del k).1) _).2
  rw [← hb]
  refine h _ env henv _ _ ⟨?_, rfl⟩
  change (s.db.del k).2.content.purge t = (db'.del k).2.content.purge t
  rw [KevaDatabase.content_del, KevaDatabase.content_del]
  exact Keyspace.erase_purge_congr hs.purge_eq

variable {args : List RespValue}

theorem respects_handleSet (h : 3 ≤ args.length) : Respects t (handleSet args) := by
  rw [handleSet, element_bind (by omega), element_bind (by omega)]
  have hoptions : Uses [.reply] [] (setOptions args args.length 3 ⟨-1, false, false⟩) :=
    uses_setOptions (by simp) _ _ _
  refine respects_bind (respects_of_uses hoptions (by decide)) fun o => ?_
  cases o with
  | none => exact respects_pure _
  | some o =>
      have hplain : Respects t (do
          storeString (argStr args 1) (argStr args 2)
          reply RespEncoder.ok) := respects_storeString_bind (respects_reply _).at
      have htimed : Respects t (do
          storeString (argStr args 1) (argStr args 2)
          let now ← nowMilliseconds
          setExpire (argStr args 1) (now + o.expireMs)
          reply RespEncoder.ok) := respects_storeString_bind
        (respectsAt_nowMilliseconds_bind fun _ => respectsAt_setExpire_bind (respects_reply _))
      refine respects_exists_bind ?_ ?_
      · split_ifs
        · exact respects_reply _
        · exact respects_reply _
        · exact htimed
        · exact hplain
      · split_ifs
        · exact (respects_reply _).at
        · exact (respects_reply _).at
        · exact htimed.at
        · exact hplain.at

theorem respects_setWithLifetime (name : String) (toMs : Int64 → Int64) (h : 4 ≤ args.length) :
    Respects t (setWithLifetime name toMs args) := by
  rw [setWithLifetime, element_bind (by omega), element_bind (by omega), element_bind (by omega)]
  cases fromChars (argStr args 2) with
  | error e => exact respects_reply _
  | ok r =>
      dsimp only
      split_ifs
      · exact respects_reply _
      · exact respects_storeString_bind (respectsAt_nowMilliseconds_bind fun _ =>
          respectsAt_setExpire_bind (respects_reply _))

theorem respects_setDeadline {deadline : Int64 → Handler MillisecondTimestamp}
    (hd : ∀ n (f : MillisecondTimestamp → Handler Unit),
      (∀ e, RespectsAt t (argStr args 1) (f e)) → RespectsAt t (argStr args 1) (deadline n >>= f))
    (h : 3 ≤ args.length) : Respects t (setDeadline deadline args) := by
  rw [setDeadline, element_bind (by omega), element_bind (by omega)]
  cases fromChars (argStr args 2) with
  | error e => exact respects_reply _
  | ok r =>
      refine respects_exists_bind ?_ ?_
      · exact respects_reply _
      · exact hd _ _ (fun _ => respectsAt_setExpire_bind (respects_reply _))

theorem respects_handlePersist (h : 2 ≤ args.length) : Respects t (handlePersist args) := by
  rw [handlePersist, element_bind (by omega)]
  refine respects_exists_bind ?_ ?_
  · exact respects_reply _
  · exact respectsAt_removeExpire_bind (respects_reply _)

theorem respects_handleRename (h : 3 ≤ args.length) : Respects t (handleRename args) := by
  rw [handleRename, element_bind (by omega), element_bind (by omega)]
  refine respects_get_bind (respects_reply _) fun obj => ?_
  refine respectsAt_lruClock_bind fun clock => respectsAt_del_bind fun _ => ?_
  have hstore : ∀ o : KevaObject, o.Canonical → Uses [.store, .reply] [argStr args 2] (do
      Handler.set (argStr args 2) o
      reply RespEncoder.ok) := fun o ho =>
    uses_bind (uses_call (Call.within_set (by simp) (by simp) ho)) (fun _ => uses_reply (by simp) _)
  refine respects_of_uses (hstore _ ?_) (by decide)
  split_ifs
  · exact KevaObject.canonical_createStringFromInt _ _
  · exact KevaObject.canonical_createString _ _

theorem keysFound_perm {db db' : KevaDatabase} (h : db.content.purge t = db'.content.purge t)
    (pattern : Bytes) : (keysFound db t pattern).Perm (keysFound db' t pattern) := by
  refine List.Perm.filter _ ((List.perm_ext_iff_of_nodup (db.nodup_forEach t)
    (db'.nodup_forEach t)).mpr fun k => ?_)
  simp only [List.mem_map, Prod.exists, exists_and_right, exists_eq_right,
    KevaDatabase.mem_forEach_iff, Keyspace.peek_purge_congr h]

/-- The keyspace commands that must not see expired keys: all but DEL, TTL, PTTL and DBSIZE. -/
def expiryBlind : List Bytes :=
  [ascii "SET", ascii "GET", ascii "GETSET", ascii "MSET", ascii "MGET", ascii "APPEND",
    ascii "STRLEN", ascii "INCR", ascii "DECR", ascii "INCRBY", ascii "DECRBY", ascii "SETEX",
    ascii "PSETEX", ascii "SETNX", ascii "EXISTS", ascii "TYPE", ascii "EXPIRE", ascii "PEXPIRE",
    ascii "EXPIREAT", ascii "PERSIST", ascii "KEYS", ascii "RENAME", ascii "FLUSHDB"]

theorem respects_handler {entry : CommandEntry} (he : entry ∈ commandTable)
    (hname : entry.name ∈ expiryBlind) (hkeys : entry.name ≠ ascii "KEYS")
    (ha : entry.admits args = true) : Respects t (entry.handler args) := by
  have hmin := CommandEntry.le_length_of_admits ha
  by_cases hkinds : (footprint entry.name).kinds ⊆ blindKinds
  · exact respects_of_uses (uses_handler he ha) hkinds
  simp only [commandTable, List.mem_cons, List.not_mem_nil, or_false] at he
  rcases he with rfl | rfl | rfl | rfl | rfl | rfl | rfl | rfl | rfl | rfl | rfl | rfl | rfl |
    rfl | rfl | rfl | rfl | rfl | rfl | rfl | rfl | rfl | rfl | rfl | rfl | rfl | rfl | rfl | rfl |
    rfl | rfl | rfl | rfl | rfl
  all_goals first
    | exact absurd (by decide) hkinds
    | exact absurd hname (by decide)
    | skip
  · exact respects_handleSet (Int.ofNat_le.mp hmin)
  · exact respects_setWithLifetime _ _ (Int.ofNat_le.mp hmin)
  · exact respects_setWithLifetime _ _ (Int.ofNat_le.mp hmin)
  · exact respects_setDeadline (fun _ _ h => by
      rw [bind_assoc]; exact respectsAt_nowMilliseconds_bind fun _ => h _) (Int.ofNat_le.mp hmin)
  · exact respects_setDeadline (fun _ _ h => by
      rw [bind_assoc]; exact respectsAt_nowMilliseconds_bind fun _ => h _) (Int.ofNat_le.mp hmin)
  · exact respects_setDeadline (fun _ _ h => h _) (Int.ofNat_le.mp hmin)
  · exact respects_handlePersist (Int.ofNat_le.mp hmin)
  · exact absurd rfl hkeys
  · exact respects_handleRename (Int.ofNat_le.mp hmin)

theorem respects_runCommand {entry : CommandEntry} (h : Respects t (entry.handler args)) :
    Respects t (runCommand entry args) := by
  have haccount : ∀ op : Call, op.kind ∈ blindKinds → op.key? = none → Respects t (call op) :=
    fun op hkind hkey => by
      have h : Uses blindKinds [] (call op) := uses_call (Call.within_of_key?_none hkind hkey)
      exact respects_of_uses h (List.Subset.refl _)
  refine respects_bind h fun _ => respects_bind (haccount .recordCommand (by decide) rfl)
    fun _ => ?_
  split_ifs
  · exact haccount .fetchAddDirtyKeys (by decide) rfl
  · exact respects_pure _

theorem exec_runCommand_keys {entry : CommandEntry} (hfind : findCommand entry.name = some entry)
    (hkeys : entry.name = ascii "KEYS") (ha : entry.admits args = true) (s : Session) :
    (exec env (runCommand entry args) s).2.output =
        s.output ++ keysReply (keysFound s.db (env s.calls).nowMs (argStr args 1)) ∧
      (exec env (runCommand entry args) s).2.db = s.db := by
  have hmin := CommandEntry.le_length_of_admits ha
  have hentry : some entry = some ⟨ascii "KEYS", handleKeys, 2, 2, false⟩ := by
    rw [← hfind, hkeys]
    rfl
  obtain rfl := Option.some.inj hentry
  rw [runCommand, exec_bind, exec_handleKeys (Int.ofNat_le.mp hmin)]
  exact ⟨rfl, rfl⟩

/-- One reply, except that two replies of KEYS may list their keys in different orders. -/
def SameReply (name before out out' : Bytes) : Prop :=
  out = out' ∨ name = ascii "KEYS" ∧ ∃ found found' : List Bytes, found.Perm found' ∧
    out = before ++ keysReply found ∧ out' = before ++ keysReply found'

/-- A command cannot tell a database from its purge, and leaves databases with the same purge. -/
theorem executeFrame_purge (henv : ClockAt t env) {name : Bytes}
    (hname : name.map toUpper ∈ expiryBlind) (rest : List RespValue) (s : Session) :
    let frame := RespValue.array (.bulkString name :: rest)
    let r := (exec env (executeFrame frame) s).2
    let r' := (exec env (executeFrame frame) { s with db := s.db.purge t }).2
    SameReply (name.map toUpper) s.output r.output r'.output ∧
      (r.db.purge t).content = (r'.db.purge t).content := by
  intro frame r r'
  have halike : Alike t s { s with db := s.db.purge t } :=
    ⟨by rw [KevaDatabase.content_purge, Keyspace.purge_purge], rfl⟩
  have hrespects : Respects t (executeFrame frame) → SameReply (name.map toUpper) s.output r.output
      r'.output ∧ (r.db.purge t).content = (r'.db.purge t).content := fun h => by
    obtain ⟨-, hr⟩ := h env henv _ _ halike
    have hout := congrArg Session.output hr.rest_eq
    exact ⟨.inl hout, by
      rw [KevaDatabase.content_purge, KevaDatabase.content_purge, hr.purge_eq]⟩
  cases hc : frameCommand frame with
  | none => exact hrespects (respects_of_uses (executeFrame_of_none hc) (by decide))
  | some c =>
      obtain ⟨entry, args⟩ := c
      obtain ⟨heq, he, ha, -⟩ := executeFrame_of_some hc
      have hfind := (findCommand_of_frameCommand hc).1
      have hentry := (findCommand_of_frameCommand hc).2 name rest rfl
      by_cases hkeys : entry.name = ascii "KEYS"
      · have hrun := fun s => @exec_runCommand_keys env args entry hfind hkeys ha s
        obtain ⟨hout, hdb⟩ := hrun s
        obtain ⟨hout', hdb'⟩ := hrun { s with db := s.db.purge t }
        refine ⟨.inr ⟨hentry ▸ hkeys, _, _, keysFound_perm halike.purge_eq (argStr args 1), ?_, ?_⟩,
          ?_⟩
        · rw [← henv s.calls, ← hout]
          exact congrArg (fun p => (exec env p s).2.output) heq
        · refine (congrArg (fun p => (exec env p { s with db := s.db.purge t }).2.output)
            heq).trans ?_
          rw [hout', henv s.calls]
        · have hr : r.db = s.db := by rw [← hdb]; exact congrArg (fun p => (exec env p s).2.db) heq
          have hr' : r'.db = s.db.purge t := (congrArg
            (fun p => (exec env p { s with db := s.db.purge t }).2.db) heq).trans hdb'
          rw [hr, hr', KevaDatabase.content_purge, KevaDatabase.content_purge,
            KevaDatabase.content_purge, Keyspace.purge_purge]
      · exact hrespects (heq ▸ respects_runCommand (respects_handler he (hentry ▸ hname) hkeys ha))

/-- GET of a key that expired five milliseconds ago. -/
theorem executeFrame_purge_get :
    let P := DictParams.exact (fun _ => 0)
    let k := ascii "k"
    let db := ((KevaDatabase.empty P P).set k (KevaObject.createString k 0)).setExpire k 5
    let s := { Session.initial P P (.init ⟨6379, 10, true⟩ 0) with db := db }
    let frame := RespValue.array [.bulkString (ascii "get"), .bulkString k]
    let env := fun _ : ℕ => World.still 10 0
    SameReply (ascii "GET") [] (exec env (executeFrame frame) s).2.output
      (exec env (executeFrame frame) { s with db := s.db.purge 10 }).2.output :=
  (executeFrame_purge (t := 10) (fun _ => rfl) (by decide) _ _).1

end Keva
