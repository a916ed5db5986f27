import Keva.Command.Footprint
import Keva.Lib.Run
import Keva.Protocol.Resp2

/-!
# One reply for one frame

`Emits I p` says that, from a session with `I`, running `p` appends the text of exactly one value.
A handler makes silent calls and replies once on every path; MGET and KEYS announce their elements
and then write that many. The one frame that breaks the rule names an unknown command with a line
break in the name, which the error message repeats.
-/

namespace Keva

open Session Handler RespValue

/-- The messages of failed saves and forks, which come from `strerror`, are single lines. -/
structure World.Plain (w : World) : Prop where
  save : ∀ visited message, w.save = .error visited message → ¬ crlf <:+: message
  fork : ∀ message, w.fork = .error message → ¬ crlf <:+: message

def Emits {α : Type} (I : Session → Prop) (p : Handler α) : Prop :=
  ∀ env : ℕ → World, (∀ n, (env n).Plain) → ∀ s, I s →
    ∃ v : RespValue, v.Encodable ∧ (exec env p s).2.output = s.output ++ v.wire

def Silent {α : Type} (p : Handler α) : Prop :=
  ∀ env s, (exec env p s).2.output = s.output

variable {α β : Type} {I J : Session → Prop} {env : ℕ → World} {p : Handler α} {f : α → Handler β}

theorem emits_reply {v : RespValue} (hv : v.Encodable) : Emits I (reply v.wire) :=
  fun _ _ _ _ => ⟨v, hv, rfl⟩

theorem Emits.mono (h : Emits I p) (hIJ : ∀ s, J s → I s) : Emits J p :=
  fun env henv s hs => h env henv s (hIJ s hs)

theorem perform_output {op : Call} (h : op.kind ≠ .reply) (s : Session) :
    (s.perform env op).2.output = s.output := by
  cases op with
  | rdbSaveSync =>
      change (s.rdbSaveSync (env s.calls)).2.output = s.output
      rw [Session.rdbSaveSync]
      cases (env s.calls).save <;> rfl
  | rdbSaveBackground =>
      change (s.rdbSaveBackground (env s.calls)).2.output = s.output
      rw [Session.rdbSaveBackground]
      cases (env s.calls).fork <;> rfl
  | appendResponse bytes => exact absurd rfl h
  | _ => rfl

theorem silent_of_uses {kinds : List CallKind} {keys : List Bytes} (h : Uses kinds keys p)
    (hk : .reply ∉ kinds) : Silent p := by
  intro env s
  have hcalls : p.Calls (Call.Within kinds keys) := h
  refine Program.run_invariant (I := fun s' : Session => s'.output = s.output)
    (fun s' op hop hs' => ?_) hcalls rfl
  rw [perform_output (fun heq => hk (heq ▸ hop.kind_mem)), hs']

theorem emits_after (hp : Silent p) (hf : ∀ a, Emits (fun _ => True) (f a)) :
    Emits I (p >>= f) := by
  intro env henv s _
  obtain ⟨v, hv, hout⟩ := hf (exec env p s).1 env henv (exec env p s).2 trivial
  exact ⟨v, hv, by rw [exec_bind, hout, hp]⟩

theorem emits_before (hp : Emits I p) (hf : ∀ a, Silent (f a)) : Emits I (p >>= f) := by
  intro env henv s hs
  obtain ⟨v, hv, hout⟩ := hp env henv s hs
  exact ⟨v, hv, by rw [exec_bind, hf, hout]⟩

theorem silent_call {op : Call} (h : op.kind ≠ .reply) : Silent (call op) :=
  fun _ s => perform_output h s

theorem silent_bind (hp : Silent p) (hf : ∀ a, Silent (f a)) : Silent (p >>= f) := by
  intro env s
  rw [exec_bind, hf, hp]

theorem silent_pure (a : α) : Silent (pure a : Handler α) := fun _ _ => rfl

theorem emits_ok : Emits I (reply RespEncoder.ok) := by
  have h : (simpleString (ascii "OK")).Encodable := .simpleString (by decide)
  exact emits_reply h

theorem emits_simpleString {msg : Bytes} (h : ¬ crlf <:+: msg) :
    Emits I (reply (RespEncoder.simpleString msg)) := emits_reply (.simpleString h)

theorem emits_error {msg : Bytes} (h : ¬ crlf <:+: msg) :
    Emits I (reply (RespEncoder.error msg)) := by
  have hline : ¬ crlf <:+: ascii "ERR " ++ msg := by
    rwa [crlf_infix_append_iff (by decide)]
  exact emits_reply (.error hline)

theorem emits_wrongType {msg : Bytes} (h : ¬ crlf <:+: msg) :
    Emits I (reply (RespEncoder.wrongType msg)) := by
  have hline : ¬ crlf <:+: ascii "WRONGTYPE " ++ msg := by
    rwa [crlf_infix_append_iff (by decide)]
  exact emits_reply (.error hline)

theorem emits_integer (n : Int64) : Emits I (reply (RespEncoder.integer n)) :=
  emits_reply (.integer n)

theorem emits_nil : Emits I (reply RespEncoder.nil) := emits_reply .nil

theorem emits_bulkString {data : Bytes} (h : data.length ≤ maxSize) :
    Emits I (reply (RespEncoder.bulkString data)) := emits_reply (.bulkString h)

theorem silent_storeString (k v : Bytes) : Silent (storeString k v) := by
  have h : Uses [.store, .clock] [k] (storeString k v) :=
    uses_storeString (by simp) (by simp) (by simp)
  exact silent_of_uses h (by decide)

theorem silent_lruClock : Silent lruClock := by
  have h : Uses [.clock] [] lruClock := uses_lruClock (by simp)
  exact silent_of_uses h (by decide)

theorem silent_get (k : Bytes) : Silent (Handler.get k) := silent_call (by simp [Call.kind])

theorem silent_exists (k : Bytes) : Silent («exists» k) := by
  have h : Uses [.lookup] [k] («exists» k) := uses_exists (by simp) (by simp)
  exact silent_of_uses h (by decide)

/-- The value is a string that can exist. -/
def KevaObject.Fits (obj : KevaObject) : Prop := obj.getStringValue.length ≤ maxSize

/-- Every key and value is a string that can exist, and there are not too many of them. -/
structure Keyspace.Fits (K : Keyspace) : Prop where
  key : ∀ k obj, K.objects k = some obj → k.length ≤ maxSize
  value : K.All KevaObject.Fits
  count : {k | K.objects k ≠ none}.ncard ≤ maxElements

def ValuesFit (s : Session) : Prop := s.db.content.All KevaObject.Fits

theorem KevaObject.Fits.touch {obj : KevaObject} (clock : UInt32) (h : obj.Fits) :
    (obj.touch clock).Fits := by
  unfold KevaObject.Fits
  rwa [KevaObject.getStringValue_touch]

theorem valuesFit_of_uses {kinds : List CallKind} {keys : List Bytes} (h : Uses kinds keys p)
    (hk : kinds ⊆ [.lookup, .clock, .reply]) {s : Session} (hs : ValuesFit s) :
    ValuesFit (exec env p s).2 := by
  have hcalls : p.Calls (Call.Within kinds keys) := h
  refine Program.run_invariant (I := ValuesFit) (fun s op hop hs => ?_) hcalls hs
  have hkind := hk hop.kind_mem
  cases op with
  | get k =>
      have hget := (hs.get (fun _ clock h => h.touch clock) k (env s.calls).nowMs
        (env s.calls).time).2
      rw [← KevaDatabase.content_get] at hget
      exact hget
  | nowMilliseconds => exact hs
  | time => exact hs
  | appendResponse bytes => exact hs
  | _ => simp [Call.kind] at hkind

theorem emits_call {op : Call} (h : op.kind ≠ .reply) {f : op.Res → Handler β}
    (hf : ∀ env : ℕ → World, (∀ n, (env n).Plain) → ∀ s, I s →
      Emits (fun _ => True) (f (s.perform env op).1)) : Emits I (call op >>= f) := by
  intro env henv s hs
  obtain ⟨v, hv, hout⟩ := hf env henv s hs env henv (s.perform env op).2 trivial
  rw [exec_call_bind]
  exact ⟨v, hv, hout.trans (by rw [perform_output h])⟩

theorem emits_get {k : Bytes} {f : Option KevaObject → Handler β}
    (hnone : Emits (fun _ => True) (f none))
    (hsome : ∀ obj : KevaObject, obj.Fits → Emits (fun _ => True) (f (some obj))) :
    Emits ValuesFit (Handler.get k >>= f) := by
  refine emits_call (by simp [Call.kind]) fun env henv s hs => ?_
  cases ho : (s.perform env (.get k)).1 with
  | none => exact hnone
  | some obj =>
      have hget : (s.db.content.get k (env s.calls).nowMs (env s.calls).time).1 = some obj := by
        rw [← KevaDatabase.get_fst]
        exact ho
      exact hsome obj ((hs.get (fun _ clock h => h.touch clock) k _ _).1 obj hget)

variable {args : List RespValue}

theorem emits_handleGet (h : 2 ≤ args.length) : Emits ValuesFit (handleGet args) := by
  rw [handleGet, element_bind (by omega)]
  refine emits_get emits_nil fun obj hobj => ?_
  dsimp only
  split_ifs
  · exact emits_wrongType (by decide)
  · exact emits_bulkString hobj

theorem emits_handleGetset (h : 3 ≤ args.length) : Emits ValuesFit (handleGetset args) := by
  rw [handleGetset, element_bind (by omega), element_bind (by omega)]
  refine emits_get ?_ fun obj hobj => ?_
  · exact emits_before emits_nil (fun _ => silent_storeString _ _)
  · dsimp only
    split_ifs
    · exact emits_wrongType (by decide)
    · exact emits_before (emits_bulkString hobj) (fun _ => silent_storeString _ _)

theorem emits_handleAppend (h : 3 ≤ args.length) : Emits I (handleAppend args) := by
  rw [handleAppend, element_bind (by omega), element_bind (by omega)]
  refine emits_after (silent_get _) fun obj => ?_
  cases obj with
  | none => exact emits_after (silent_storeString _ _) (fun _ => emits_integer _)
  | some obj =>
      dsimp only
      split_ifs
      · exact emits_wrongType (by decide)
      · exact emits_after (silent_storeString _ _) (fun _ => emits_integer _)

theorem emits_handleStrlen (h : 2 ≤ args.length) : Emits I (handleStrlen args) := by
  rw [handleStrlen, element_bind (by omega)]
  refine emits_after (silent_get _) fun obj => ?_
  cases obj with
  | none => exact emits_integer _
  | some obj =>
      dsimp only
      split_ifs
      · exact emits_wrongType (by decide)
      · exact emits_integer _

theorem setOptions_replies (fuel i : ℕ) (o : SetOptions) (s : Session) :
    let r := exec env (setOptions args fuel i o) s
    (r.1 = none ∧ ∃ v : RespValue, v.Encodable ∧ r.2.output = s.output ++ v.wire) ∨
      (r.1.isSome ∧ r.2.output = s.output) := by
  have hline : ¬ crlf <:+: ascii "ERR " ++ invalidExpireMessage "set" := by decide
  refine setOptions_induction (P := fun p =>
    let r := exec env p s
    (r.1 = none ∧ ∃ v : RespValue, v.Encodable ∧ r.2.output = s.output ++ v.wire) ∨
      (r.1.isSome ∧ r.2.output = s.output)) ?_ ?_ fuel i o
  · exact fun _ => .inr ⟨rfl, rfl⟩
  · exact .inl ⟨rfl, .error _, .error hline, rfl⟩

theorem emits_handleSet (h : 3 ≤ args.length) : Emits I (handleSet args) := by
  rw [handleSet, element_bind (by omega), element_bind (by omega)]
  have hrest : ∀ o : SetOptions, Emits (fun _ => True) (do
      let keyExists ← «exists» (argStr args 1)
      if o.nx && keyExists then reply RespEncoder.nil
      else if o.xx && !keyExists then reply RespEncoder.nil
      else do
        storeString (argStr args 1) (argStr args 2)
        if 0 < o.expireMs then do
          let now ← nowMilliseconds
          setExpire (argStr args 1) (now + o.expireMs)
          reply RespEncoder.ok
        else reply RespEncoder.ok) := by
    intro o
    refine emits_after (silent_exists _) fun keyExists => ?_
    split_ifs
    · exact emits_nil
    · exact emits_nil
    · exact emits_after (silent_storeString _ _) fun _ =>
        emits_after (silent_call (by simp [Call.kind])) fun _ =>
          emits_after (silent_call (by simp [Call.kind])) fun _ => emits_ok
    · exact emits_after (silent_storeString _ _) fun _ => emits_ok
  intro env henv s _
  have hopt := @setOptions_replies env args args.length 3 ⟨-1, false, false⟩ s
  rw [exec_bind]
  cases ho : (exec env (setOptions args args.length 3 ⟨-1, false, false⟩) s).1 with
  | none =>
      rcases hopt with ⟨-, v, hv, hout⟩ | ⟨hsome, -⟩
      · exact ⟨v, hv, hout⟩
      · rw [ho] at hsome; cases hsome
  | some o =>
      rcases hopt with ⟨hnone, -⟩ | ⟨-, hout⟩
      · rw [ho] at hnone; cases hnone
      · obtain ⟨v, hv, hout'⟩ := hrest o env henv _ trivial
        exact ⟨v, hv, by rw [hout', hout]⟩

theorem emits_handleMset : Emits I (handleMset args) := by
  unfold handleMset
  split_ifs with hodd
  · exact emits_error (by decide)
  · have huses : Uses [.store, .clock] (msetKeys args)
        (forM (List.range' 1 (args.length / 2) 2) (msetRound args)) :=
      uses_msetLoop (by simp) (by simp) hodd
    exact emits_after (silent_of_uses huses (by decide)) (fun _ => emits_ok)

theorem emits_updateCounter (key : Bytes) (refuses : Int64 → Bool) (next : Int64 → Int64) :
    Emits I (updateCounter key refuses next) := by
  unfold updateCounter
  refine emits_after (silent_get _) fun obj => ?_
  cases getIntegerObj obj with
  | none => exact emits_error (by decide)
  | some current =>
      dsimp only
      split_ifs
      · exact emits_error (by decide)
      · exact emits_after silent_lruClock fun _ =>
          emits_after (silent_call (by simp [Call.kind])) fun _ => emits_integer _

theorem emits_handleIncr (h : 2 ≤ args.length) : Emits I (handleIncr args) := by
  rw [handleIncr, element_bind (by omega)]
  apply emits_updateCounter

theorem emits_handleDecr (h : 2 ≤ args.length) : Emits I (handleDecr args) := by
  rw [handleDecr, element_bind (by omega)]
  apply emits_updateCounter

theorem emits_handleIncrby (h : 3 ≤ args.length) : Emits I (handleIncrby args) := by
  rw [handleIncrby, element_bind (by omega), element_bind (by omega)]
  cases fromChars (argStr args 2) with
  | error e => exact emits_error (by decide)
  | ok r => apply emits_updateCounter

theorem emits_handleDecrby (h : 3 ≤ args.length) : Emits I (handleDecrby args) := by
  rw [handleDecrby, element_bind (by omega), element_bind (by omega)]
  cases fromChars (argStr args 2) with
  | error e => exact emits_error (by decide)
  | ok r => apply emits_updateCounter

theorem emits_setWithLifetime {name : String} (toMs : Int64 → Int64)
    (hname : ¬ crlf <:+: invalidExpireMessage name) (h : 4 ≤ args.length) :
    Emits I (setWithLifetime name toMs args) := by
  rw [setWithLifetime, element_bind (by omega), element_bind (by omega), element_bind (by omega)]
  cases fromChars (argStr args 2) with
  | error e => exact emits_error hname
  | ok r =>
      dsimp only
      split_ifs
      · exact emits_error hname
      · exact emits_after (silent_storeString _ _) fun _ =>
          emits_after (silent_call (by simp [Call.kind])) fun _ =>
            emits_after (silent_call (by simp [Call.kind])) fun _ => emits_ok

theorem emits_handleSetnx (h : 3 ≤ args.length) : Emits I (handleSetnx args) := by
  rw [handleSetnx, element_bind (by omega), element_bind (by omega)]
  refine emits_after (silent_exists _) fun keyExists => ?_
  split_ifs
  · exact emits_integer _
  · exact emits_after (silent_storeString _ _) (fun _ => emits_integer _)

theorem emits_countKeys {test : Bytes → Handler Bool} (htest : ∀ k, Silent (test k)) :
    Emits I (countKeys test args) := by
  unfold countKeys
  refine emits_after ?_ (fun _ => emits_integer _)
  generalize hl : List.range' 1 (args.length - 1) = l
  have hlt : ∀ i ∈ l, i < args.length := by
    intro i hi
    obtain ⟨j, hj, rfl⟩ := List.mem_range'.mp (hl ▸ hi)
    omega
  clear hl
  generalize (0 : Int64) = count
  induction l generalizing count with
  | nil => exact silent_pure _
  | cons i l ih =>
      rw [List.foldlM_cons, element_bind (hlt i List.mem_cons_self)]
      refine silent_bind (silent_bind (htest _) (fun _ => silent_pure _)) fun c => ?_
      exact ih (fun j hj => hlt j (List.mem_cons_of_mem i hj)) c

theorem emits_handleType (h : 2 ≤ args.length) : Emits I (handleType args) := by
  rw [handleType, element_bind (by omega)]
  refine emits_after (silent_call (by simp [Call.kind])) fun obj => ?_
  cases obj with
  | none => exact emits_simpleString (by decide)
  | some obj =>
      dsimp only
      cases KevaObject.type obj <;> exact emits_simpleString (by decide)

theorem emits_setDeadline {deadline : Int64 → Handler MillisecondTimestamp}
    (hd : ∀ n, Silent (deadline n)) (h : 3 ≤ args.length) :
    Emits I (setDeadline deadline args) := by
  rw [setDeadline, element_bind (by omega), element_bind (by omega)]
  cases fromChars (argStr args 2) with
  | error e => exact emits_error (by decide)
  | ok r =>
      refine emits_after (silent_exists _) fun keyExists => ?_
      split_ifs
      · exact emits_integer _
      · exact emits_after (hd _) fun _ =>
          emits_after (silent_call (by simp [Call.kind])) fun _ => emits_integer _

theorem emits_handleTtl (h : 2 ≤ args.length) : Emits I (handleTtl args) := by
  rw [handleTtl, element_bind (by omega)]
  refine emits_after (silent_call (by simp [Call.kind])) fun ms => ?_
  split_ifs <;> exact emits_integer _

theorem emits_handlePttl (h : 2 ≤ args.length) : Emits I (handlePttl args) := by
  rw [handlePttl, element_bind (by omega)]
  exact emits_after (silent_call (by simp [Call.kind])) (fun _ => emits_integer _)

theorem emits_handlePersist (h : 2 ≤ args.length) : Emits I (handlePersist args) := by
  rw [handlePersist, element_bind (by omega)]
  refine emits_after (silent_exists _) fun keyExists => ?_
  split_ifs
  · exact emits_integer _
  · exact emits_after (silent_call (by simp [Call.kind])) (fun _ => emits_integer _)

theorem emits_handleRename (h : 3 ≤ args.length) : Emits I (handleRename args) := by
  rw [handleRename, element_bind (by omega), element_bind (by omega)]
  refine emits_after (silent_get _) fun obj => ?_
  cases obj with
  | none => exact emits_error (by decide)
  | some obj =>
      exact emits_after silent_lruClock fun _ =>
        emits_after (silent_call (by simp [Call.kind])) fun _ =>
          emits_after (silent_call (by simp [Call.kind])) fun _ => emits_ok

theorem emits_handleDbsize : Emits I (handleDbsize args) :=
  emits_after (silent_call (by simp [Call.kind])) (fun _ => emits_integer _)

theorem exec_forM_emits {ι : Type} {l : List ι} {f : ι → Handler PUnit}
    (hf : ∀ i ∈ l, Emits I (f i))
    (hI : ∀ i ∈ l, ∀ s, I s → I (exec env (f i) s).2) (henv : ∀ n, (env n).Plain) {s : Session}
    (hs : I s) : ∃ vs : List RespValue, vs.length = l.length ∧ (∀ v ∈ vs, v.Encodable) ∧
      (exec env (forM l f) s).2.output = s.output ++ wireAll vs := by
  induction l generalizing s with
  | nil => exact ⟨[], rfl, by simp, (List.append_nil _).symm⟩
  | cons i l ih =>
      obtain ⟨v, hv, hout⟩ := hf i List.mem_cons_self env henv s hs
      obtain ⟨vs, hlen, hvs, hout'⟩ := ih (fun j hj => hf j (List.mem_cons_of_mem i hj))
        (fun j hj => hI j (List.mem_cons_of_mem i hj)) (hI i List.mem_cons_self s hs)
      refine ⟨v :: vs, by rw [List.length_cons, List.length_cons, hlen], ?_, ?_⟩
      · intro w hw
        rcases List.mem_cons.mp hw with rfl | hw
        · exact hv
        · exact hvs w hw
      · rw [List.forM_cons, exec_bind, hout', hout, wireAll, List.append_assoc]

theorem emits_handleMget (h : args.length ≤ maxElements) : Emits ValuesFit (handleMget args) := by
  intro env henv s hs
  have hlt : ∀ i ∈ List.range' 1 (args.length - 1), i < args.length := by
    intro i hi
    obtain ⟨j, hj, rfl⟩ := List.mem_range'.mp hi
    omega
  have hround : ∀ i ∈ List.range' 1 (args.length - 1), Emits ValuesFit (mgetRound args i) := by
    intro i hi
    rw [mgetRound, element_bind (hlt i hi)]
    refine emits_get emits_nil fun obj hobj => ?_
    dsimp only
    split_ifs
    · exact emits_nil
    · exact emits_bulkString hobj
  obtain ⟨vs, hlen, hvs, hout⟩ := exec_forM_emits (s := { s with
      output := s.output ++ RespEncoder.arrayHeader (Int64.ofNat (args.length - 1))
      calls := s.calls + 1 }) hround
    (fun i hi s hs => valuesFit_of_uses (uses_mgetRound (hlt i hi) (List.mem_map_of_mem hi))
      (by decide) hs) henv hs
  rw [List.length_range'] at hlen
  refine ⟨.array vs, .array (by omega) hvs, ?_⟩
  rw [wire, hlen, ← List.append_assoc]
  exact hout

theorem emits_handleKeys (h : 2 ≤ args.length) :
    Emits (fun s => s.db.content.Fits) (handleKeys args) := by
  intro env _ s hs
  rw [exec_handleKeys h]
  refine ⟨_, .array ?_ ?_, rfl⟩
  · rw [List.length_map]
    have hcount := hs.count
    have hsize : s.db.keys.size = _ := Dict.size_eq_ncard s.db.keys_sound
    calc (keysFound s.db (env s.calls).nowMs (argStr args 1)).length
        ≤ ((s.db.forEach (env s.calls).nowMs).map Prod.fst).length := List.length_filter_le _ _
      _ ≤ s.db.keys.forEach.length := by rw [List.length_map]; exact List.length_filter_le _ _
      _ = s.db.keys.size := Dict.length_forEach s.db.keys_sound
      _ ≤ maxElements := by rw [hsize]; exact hcount
  · intro e he
    obtain ⟨k, hk, rfl⟩ := List.mem_map.mp he
    obtain ⟨⟨k', obj⟩, hmem, rfl⟩ := List.mem_map.mp (List.mem_filter.mp hk).1
    refine .bulkString (hs.key k' obj ?_)
    exact (Dict.mem_forEach_iff s.db.keys_sound).mp (List.mem_filter.mp hmem).1

theorem length_argStr_le (h : ∀ a ∈ args, a.str.length ≤ maxSize) (i : ℕ) :
    (argStr args i).length ≤ maxSize := by
  unfold argStr
  cases ha : args[i]? with
  | none => exact Nat.zero_le _
  | some a => exact h a (List.mem_of_getElem? ha)

theorem emits_handlePing (h : 1 ≤ args.length) (hargs : ∀ a ∈ args, a.str.length ≤ maxSize) :
    Emits I (handlePing args) := by
  unfold handlePing
  split_ifs
  · exact emits_simpleString (by decide)
  · rw [element_bind (by omega)]
    exact emits_bulkString (length_argStr_le hargs 1)

theorem emits_handleEcho (h : 2 ≤ args.length) (hargs : ∀ a ∈ args, a.str.length ≤ maxSize) :
    Emits I (handleEcho args) := by
  rw [handleEcho, element_bind (by omega)]
  exact emits_bulkString (length_argStr_le hargs 1)

theorem emits_handleFlushdb : Emits I (handleFlushdb args) :=
  emits_after (silent_call (by simp [Call.kind])) (fun _ => emits_ok)

theorem length_renderInt_int32 (n : Int32) : (Decimal.renderInt n.toInt).length ≤ 20 := by
  have h1 := Int32.le_toInt n
  have h2 := Int32.toInt_lt n
  exact Decimal.length_renderInt_le (by decide) (by omega)

theorem length_infoText_le (srv : ServerContext) (now : Int64) {keys : ℕ} (h : keys < 10 ^ 20) :
    (infoText srv now keys).length ≤ maxSize := by
  have hcount : ∀ n : UInt64, (Decimal.renderNat n.toNat).length ≤ 20 := fun n =>
    Decimal.length_renderNat_le (by decide) (by have := n.toNat_lt; omega)
  have hport : (Decimal.renderNat srv.config.port.toNat).length ≤ 20 :=
    Decimal.length_renderNat_le (by decide) (by have := srv.config.port.toNat_lt; omega)
  have hhz := length_renderInt_int32 srv.config.hz
  have hkeys : (Decimal.renderNat keys).length ≤ 20 := Decimal.length_renderNat_le (by decide) h
  have h1 := length_toChars_le (now - srv.startTimeSeconds)
  have h2 := length_toChars_le srv.lastSaveTime
  have h3 := hcount srv.dirtyKeys
  have h4 := hcount srv.stats.totalCommandsProcessed
  have h5 := hcount srv.stats.totalConnectionsReceived
  have h6 := hcount srv.stats.keyspaceHits
  have h7 := hcount srv.stats.keyspaceMisses
  have h8 := hcount srv.stats.expiredKeys
  have h9 := hcount srv.stats.evictedKeys
  have hlit : ∀ s ∈ ["# Server", "keva_version:0.1.0", "os:Linux", "arch_bits:64", "hz:",
      "uptime_in_seconds:", "tcp_port:", "# Clients", "connected_clients:1", "# Stats",
      "total_commands_processed:", "total_connections_received:", "keyspace_hits:",
      "keyspace_misses:", "expired_keys:", "evicted_keys:", "# Persistence", "rdb_enabled:",
      "rdb_last_save_time:", "rdb_changes_since_last_save:", "# Keyspace", "db0:keys=",
      ",expires=0\r\n"], (ascii s).length ≤ 40 := by decide
  have hen : (if srv.config.rdbEnabled then ascii "1" else ascii "0").length = 1 := by
    split_ifs <;> rfl
  have hmax : maxSize = 9223372036854775807 := by decide
  simp only [List.forall_mem_cons, List.not_mem_nil, false_implies, implies_true, and_true] at hlit
  have hcrlf : crlf.length = 2 := rfl
  unfold infoText
  dsimp only
  simp only [List.length_append]
  rw [hen, List.length_nil]
  omega
theorem emits_handleInfo : Emits (fun s => s.db.content.Fits) (handleInfo args) := by
  intro env _ s hs
  have hsize : s.db.dbsize < 10 ^ 20 := by
    have hcount := hs.count
    have hmax : maxElements < 10 ^ 20 := by decide
    have heq : s.db.dbsize = _ := Dict.size_eq_ncard s.db.keys_sound
    exact lt_of_le_of_lt (heq.trans_le hcount) hmax
  exact ⟨_, .bulkString (length_infoText_le s.server (env (s.calls + 1)).time hsize), rfl⟩

theorem rdbSaveSync_plain {s : Session} {w : World} (hw : w.Plain) {message : Bytes}
    (h : (s.rdbSaveSync w).1 = .error message) : ¬ crlf <:+: message := by
  unfold Session.rdbSaveSync at h
  cases hsave : w.save with
  | ok => rw [hsave] at h; cases h
  | error visited m =>
      rw [hsave] at h
      exact Except.error.inj h ▸ hw.save visited m hsave

theorem rdbSaveBackground_plain {s : Session} {w : World} (hw : w.Plain) {message : Bytes}
    (h : (s.rdbSaveBackground w).1 = .error message) : ¬ crlf <:+: message := by
  unfold Session.rdbSaveBackground at h
  cases hfork : w.fork with
  | ok pid => rw [hfork] at h; cases h
  | error m =>
      rw [hfork] at h
      exact Except.error.inj h ▸ hw.fork m hfork

theorem emits_handleSave : Emits I (handleSave args) := by
  refine emits_call (by simp [Call.kind]) fun env henv s _ => ?_
  cases hstatus : (s.perform env .rdbSaveSync).1 with
  | ok u =>
      exact emits_after (silent_call (by simp [Call.kind])) fun _ =>
        emits_after (silent_call (by simp [Call.kind])) fun _ =>
          emits_after (silent_call (by simp [Call.kind])) fun _ => emits_ok
  | error message => exact emits_error (rdbSaveSync_plain (henv s.calls) hstatus)

theorem emits_handleBgsave : Emits I (handleBgsave args) := by
  unfold handleBgsave
  refine emits_after (silent_call (by simp [Call.kind])) fun srv => ?_
  split_ifs
  · exact emits_error (by decide)
  refine emits_call (by simp [Call.kind]) fun env henv s _ => ?_
  cases hstatus : (s.perform env .rdbSaveBackground).1 with
  | ok u => exact emits_simpleString (by decide)
  | error message => exact emits_error (rdbSaveBackground_plain (henv s.calls) hstatus)

theorem emits_handleSelect (h : 2 ≤ args.length) : Emits I (handleSelect args) := by
  rw [handleSelect, element_bind (by omega)]
  cases fromChars (argStr args 1) with
  | error e => exact emits_error (by decide)
  | ok r =>
      dsimp only
      split_ifs
      · exact emits_error (by decide)
      · exact emits_ok

theorem emits_handleQuit : Emits I (handleQuit args) :=
  emits_before emits_ok (fun _ => silent_call (by simp [Call.kind]))

/-- The frame's elements and their texts are of sizes that vectors and strings can have. -/
structure RespValue.Fits (frame : RespValue) : Prop where
  count : frame.elements.length ≤ maxElements
  text : ∀ a ∈ frame.elements, a.str.length ≤ maxSize

theorem emits_handler {entry : CommandEntry} (he : entry ∈ commandTable)
    (ha : entry.admits args = true) (hcount : args.length ≤ maxElements)
    (hargs : ∀ a ∈ args, a.str.length ≤ maxSize) :
    Emits (fun s => s.db.content.Fits) (entry.handler args) := by
  have hmin := CommandEntry.le_length_of_admits ha
  simp only [commandTable, List.mem_cons, List.not_mem_nil, or_false] at he
  rcases he with rfl | rfl | rfl | rfl | rfl | rfl | rfl | rfl | rfl | rfl | rfl | rfl | rfl |
    rfl | rfl | rfl | rfl | rfl | rfl | rfl | rfl | rfl | rfl | rfl | rfl | rfl | rfl | rfl | rfl |
    rfl | rfl | rfl | rfl | rfl
  · exact emits_handleSet (Int.ofNat_le.mp hmin)
  · exact (emits_handleGet (Int.ofNat_le.mp hmin)).mono fun _ h => h.value
  · exact (emits_handleGetset (Int.ofNat_le.mp hmin)).mono fun _ h => h.value
  · exact emits_handleMset
  · exact (emits_handleMget hcount).mono fun _ h => h.value
  · exact emits_handleAppend (Int.ofNat_le.mp hmin)
  · exact emits_handleStrlen (Int.ofNat_le.mp hmin)
  · exact emits_handleIncr (Int.ofNat_le.mp hmin)
  · exact emits_handleIncrby (Int.ofNat_le.mp hmin)
  · exact emits_handleDecr (Int.ofNat_le.mp hmin)
  · exact emits_handleDecrby (Int.ofNat_le.mp hmin)
  · exact emits_setWithLifetime _ (by decide) (Int.ofNat_le.mp hmin)
  · exact emits_setWithLifetime _ (by decide) (Int.ofNat_le.mp hmin)
  · exact emits_handleSetnx (Int.ofNat_le.mp hmin)
  · exact emits_countKeys fun _ => silent_call (by simp [Call.kind])
  · exact emits_countKeys silent_exists
  · exact emits_handleType (Int.ofNat_le.mp hmin)
  · exact emits_setDeadline (fun _ => silent_bind (silent_call (by simp [Call.kind]))
      (fun _ => silent_pure _)) (Int.ofNat_le.mp hmin)
  · exact emits_setDeadline (fun _ => silent_bind (silent_call (by simp [Call.kind]))
      (fun _ => silent_pure _)) (Int.ofNat_le.mp hmin)
  · exact emits_setDeadline (fun _ => silent_pure _) (Int.ofNat_le.mp hmin)
  · exact emits_handleTtl (Int.ofNat_le.mp hmin)
  · exact emits_handlePttl (Int.ofNat_le.mp hmin)
  · exact emits_handlePersist (Int.ofNat_le.mp hmin)
  · exact emits_handleKeys (Int.ofNat_le.mp hmin)
  · exact emits_handleRename (Int.ofNat_le.mp hmin)
  · exact @emits_handleDbsize _ args
  · exact emits_handlePing (Int.ofNat_le.mp hmin) hargs
  · exact emits_handleEcho (Int.ofNat_le.mp hmin) hargs
  · exact @emits_handleFlushdb _ args
  · exact @emits_handleInfo args
  · exact @emits_handleSave _ args
  · exact @emits_handleBgsave _ args
  · exact emits_handleSelect (Int.ofNat_le.mp hmin)
  · exact @emits_handleQuit _ args

theorem emits_runCommand {entry : CommandEntry} (h : Emits I (entry.handler args)) :
    Emits I (runCommand entry args) := by
  refine emits_before h fun _ => silent_bind (silent_call (by simp [Call.kind])) fun _ => ?_
  split_ifs
  · exact silent_call (by simp [Call.kind])
  · exact silent_pure _

/-- The frame names an unknown command, and there is a line break in the name. -/
def SplitsReply (frame : RespValue) : Prop :=
  ∃ name rest, frame = .array (.bulkString name :: rest) ∧
    findCommand (name.map toUpper) = none ∧ crlf <:+: name

theorem crlf_infix_map_toUpper {name : Bytes} : crlf <:+: name.map toUpper ↔ crlf <:+: name := by
  have hkeep : ∀ b c : UInt8, c < 32 → (toUpper b = c ↔ b = c) := by
    intro b c hc
    by_cases hb : 97 ≤ b ∧ b ≤ 122
    · have h1 : toUpper b = b - 32 := if_pos hb
      rw [h1]
      simp only [UInt8.le_iff_toNat_le, UInt8.lt_iff_toNat_lt, UInt8.reduceToNat,
        ← UInt8.toNat_inj, UInt8.toNat_sub] at hb hc ⊢
      omega
    · rw [show toUpper b = b from if_neg hb]
  constructor
  · intro h
    obtain ⟨l, hl, heq⟩ := List.infix_map_iff.mp h
    obtain ⟨x, y, rfl⟩ : ∃ x y, l = [x, y] := by
      apply List.length_eq_two.mp
      have := congrArg List.length heq
      rw [List.length_map] at this
      exact this.symm
    have h13 := (hkeep x 13 (by decide)).mp (List.cons.inj heq).1.symm
    have h10 := (hkeep y 10 (by decide)).mp (List.cons.inj (List.cons.inj heq).2).1.symm
    rwa [h13, h10] at hl
  · intro h
    exact List.infix_map_iff.mpr ⟨crlf, h, rfl⟩

theorem crlf_infix_unknownCommandMessage {name : Bytes} :
    crlf <:+: unknownCommandMessage name ↔ crlf <:+: name := by
  unfold unknownCommandMessage
  rw [crlf_infix_append_iff_left (by decide), crlf_infix_append_iff (by decide)]

theorem Rejection.plain {frame : RespValue} {message : Bytes} (hrej : Rejection frame message)
    (h : ¬ SplitsReply frame) : ¬ crlf <:+: message := by
  cases hrej with
  | noArray => decide
  | noName => decide
  | @unknown name rest hframe hc =>
      intro hin
      refine h ⟨name, rest, hframe, hc, ?_⟩
      exact crlf_infix_map_toUpper.mp (crlf_infix_unknownCommandMessage.mp hin)
  | @arity name rest entry hframe hc ha =>
      have hnames : ∀ e ∈ commandTable, ¬ crlf <:+: wrongArityMessage e.name := by decide
      exact hnames entry (List.mem_of_find?_eq_some hc)

theorem emits_executeFrame {frame : RespValue} (hfits : frame.Fits) (h : ¬ SplitsReply frame) :
    Emits (fun s => s.db.content.Fits) (executeFrame frame) := by
  cases hc : frameCommand frame with
  | none =>
      obtain ⟨message, hrej, heq | heq⟩ := executeFrame_rejects hc
      · rw [heq]
        exact emits_error (hrej.plain h)
      · rw [heq]
        exact emits_before (emits_error (hrej.plain h)) (fun _ => silent_call (by simp [Call.kind]))
  | some c =>
      obtain ⟨entry, args⟩ := c
      obtain ⟨heq, he, ha, rfl⟩ := executeFrame_of_some hc
      rw [heq]
      exact emits_runCommand (emits_handler he ha hfits.count hfits.text)

/-- The reply to such a frame is an error line with more bytes behind it. -/
theorem executeFrame_splits {frame : RespValue} (h : SplitsReply frame) (s : Session) :
    ∃ v rest, RespValue.Encodable v ∧ rest ≠ [] ∧
      (exec env (executeFrame frame) s).2.output = s.output ++ (v.wire ++ rest) := by
  obtain ⟨name, args, rfl, hc, hin⟩ := h
  have hmsg : crlf <:+: ascii "ERR " ++ unknownCommandMessage (name.map toUpper) := by
    rw [crlf_infix_append_iff (by decide), crlf_infix_unknownCommandMessage]
    exact crlf_infix_map_toUpper.mpr hin
  obtain ⟨u, v, huv, hu⟩ := exists_first_crlf hmsg
  refine ⟨.error u, v ++ crlf, .error hu, by simp [crlf], ?_⟩
  have hrun : (exec env (executeFrame (.array (.bulkString name :: args))) s).2.output =
      s.output ++ RespEncoder.error (unknownCommandMessage (name.map toUpper)) := by
    have hframe : executeFrame (.array (.bulkString name :: args)) = (do
        reply (RespEncoder.error (unknownCommandMessage (name.map toUpper)))
        recordCommand) := by
      simp only [executeFrame, RespValue.elements, RespValue.isBulkString, Bool.not_true,
        Bool.false_eq_true, if_false, RespValue.str, hc]
    rw [hframe]
    rfl
  have herr : RespEncoder.error (unknownCommandMessage (name.map toUpper)) =
      ascii "-" ++ (ascii "ERR " ++ unknownCommandMessage (name.map toUpper)) ++ crlf := rfl
  rw [hrun, herr, huv, wire]
  simp only [List.append_assoc]

/-- One frame of a pipeline, with the bytes that it appends to the write buffer. -/
def replyStep (env : ℕ → World) (s : Session) (frame : RespValue) : Bytes × Session :=
  let s' := (exec env (executeFrame frame) s).2
  (s'.output.drop s.output.length, s')

theorem output_isPrefix_exec (p : Handler α) (s : Session) :
    s.output <+: (exec env p s).2.output := by
  refine Program.run_invariant (I := fun s' : Session => s.output <+: s'.output)
    (fun s' op _ hs' => ?_) (Program.calls_true p) (List.prefix_refl _)
  by_cases hk : op.kind = .reply
  · cases op with
    | appendResponse bytes => exact hs'.trans (List.prefix_append _ _)
    | _ => simp [Call.kind] at hk
  · rw [perform_output hk]
    exact hs'

theorem replyStep_output (s : Session) (frame : RespValue) :
    (replyStep env s frame).2.output = s.output ++ (replyStep env s frame).1 := by
  obtain ⟨t, ht⟩ := @output_isPrefix_exec Unit env (executeFrame frame) s
  unfold replyStep
  dsimp only
  rw [← ht, List.drop_left]

theorem replyStep_fst {s : Session} {frame : RespValue} {bytes : Bytes}
    (h : (exec env (executeFrame frame) s).2.output = s.output ++ bytes) :
    (replyStep env s frame).1 = bytes := by
  unfold replyStep
  dsimp only
  rw [h, List.drop_left]

theorem replyStep_parse_iff (henv : ∀ n, (env n).Plain) {s : Session} (hs : s.db.content.Fits)
    {frame : RespValue} (hframe : frame.Fits) :
    (∃ v, RespParser.parse (replyStep env s frame).1 = .complete v []) ↔ ¬ SplitsReply frame := by
  constructor
  · rintro ⟨v, hv⟩ hsplit
    obtain ⟨w, rest, hw, hrest, hout⟩ := @executeFrame_splits env frame hsplit s
    rw [replyStep_fst hout, RespParser.parse_wire hw] at hv
    exact hrest (Framing.Verdict.complete.inj hv).2
  · intro hsplit
    obtain ⟨v, hv, hout⟩ := emits_executeFrame hframe hsplit env henv s hs
    have hparse := RespParser.parse_wire hv []
    rw [List.append_nil] at hparse
    exact ⟨v, by rw [replyStep_fst hout, hparse]⟩

/-- Before every frame of the pipeline the keyspace fits. -/
def FitsAlong (env : ℕ → World) : List RespValue → Session → Prop
  | [], _ => True
  | frame :: frames, s => s.db.content.Fits ∧ FitsAlong env frames (replyStep env s frame).2

theorem pipeline_output (frames : List RespValue) (s : Session) :
    (Run.run (replyStep env) s frames).2.output =
      s.output ++ (Run.run (replyStep env) s frames).1.flatten := by
  induction frames generalizing s with
  | nil => exact (List.append_nil _).symm
  | cons frame frames ih =>
      rw [Run.run_cons, List.flatten_cons, ih, replyStep_output, List.append_assoc]

theorem pipeline_wire (henv : ∀ n, (env n).Plain) {frames : List RespValue}
    (hframes : ∀ frame ∈ frames, frame.Fits) (hsplit : ∀ frame ∈ frames, ¬ SplitsReply frame)
    {s : Session} (hs : FitsAlong env frames s) :
    ∃ vs : List RespValue, (∀ v ∈ vs, v.Encodable) ∧
      (Run.run (replyStep env) s frames).1 = vs.map wire := by
  induction frames generalizing s with
  | nil => exact ⟨[], by simp, rfl⟩
  | cons frame frames ih =>
      obtain ⟨v, hv, hout⟩ := emits_executeFrame (hframes frame List.mem_cons_self)
        (hsplit frame List.mem_cons_self) env henv s hs.1
      obtain ⟨vs, hvs, hrest⟩ := ih (fun f hf => hframes f (List.mem_cons_of_mem frame hf))
        (fun f hf => hsplit f (List.mem_cons_of_mem frame hf)) hs.2
      refine ⟨v :: vs, ?_, ?_⟩
      · intro w hw
        rcases List.mem_cons.mp hw with rfl | hw
        · exact hv
        · exact hvs w hw
      · rw [Run.run_cons, List.map_cons, hrest, replyStep_fst hout]

theorem not_splits_of_pipeline (henv : ∀ n, (env n).Plain) {frames : List RespValue}
    (hframes : ∀ frame ∈ frames, frame.Fits) {s : Session} (hs : FitsAlong env frames s)
    {vs : List RespValue}
    (h : List.Forall₂ (fun bytes v => RespParser.parse bytes = .complete v [])
      (Run.run (replyStep env) s frames).1 vs) : ∀ frame ∈ frames, ¬ SplitsReply frame := by
  induction frames generalizing s vs with
  | nil => simp
  | cons frame frames ih =>
      rw [Run.run_cons] at h
      obtain ⟨v, vs', hv, hrest, -⟩ := List.forall₂_cons_left_iff.mp h
      intro f hf
      rcases List.mem_cons.mp hf with rfl | hf
      · exact (replyStep_parse_iff henv hs.1 (hframes f List.mem_cons_self)).mp ⟨v, hv⟩
      · exact ih (fun f hf => hframes f (List.mem_cons_of_mem frame hf)) hs.2 hrest f hf

/-- The frames of a pipeline get one reply each, and the output decodes to these replies in order,
exactly when no frame names an unknown command with a line break in the name. -/
theorem pipeline_replies_iff (henv : ∀ n, (env n).Plain) {frames : List RespValue}
    (hframes : ∀ frame ∈ frames, frame.Fits) {s : Session} (hs : FitsAlong env frames s) :
    let replies := (Run.run (replyStep env) s frames).1
    ((Run.run (replyStep env) s frames).2.output = s.output ++ replies.flatten ∧
      ∃ vs, List.Forall₂ (fun bytes v => RespParser.parse bytes = .complete v []) replies vs ∧
        Framing.frames RespParser.parse replies.flatten = (vs, .waiting [])) ↔
      ∀ frame ∈ frames, ¬ SplitsReply frame := by
  intro replies
  constructor
  · rintro ⟨-, vs, hforall, -⟩
    exact not_splits_of_pipeline henv hframes hs hforall
  · intro hsplit
    obtain ⟨vs, hvs, hwire⟩ := pipeline_wire henv hframes hsplit hs
    have hreplies : replies = vs.map wire := hwire
    refine ⟨pipeline_output frames s, vs, ?_, ?_⟩
    · rw [hreplies]
      have hparse : ∀ v ∈ vs, RespParser.parse (wire v) = .complete v [] := fun v hv => by
        have := RespParser.parse_wire (hvs v hv) []
        rwa [List.append_nil] at this
      rw [List.forall₂_map_left_iff, List.forall₂_same]
      exact hparse
    · rw [hreplies, ← List.flatMap_def]
      exact Framing.frames_flatMap RespParser.advances_parse RespParser.parse_nil
        (fun v hv => RespParser.parse_wire (hvs v hv))

theorem fits_of_forEach (db : KevaDatabase) (hsize : db.dbsize ≤ maxElements)
    (hall : ∀ p ∈ db.keys.forEach, p.1.length ≤ maxSize ∧ p.2.getStringValue.length ≤ maxSize) :
    db.content.Fits := by
  have hstored : ∀ {k obj}, db.content.objects k = some obj → (k, obj) ∈ db.keys.forEach :=
    fun ho => (Dict.mem_forEach_iff db.keys_sound).mpr ho
  refine ⟨fun k obj ho => (hall _ (hstored ho)).1, fun k obj ho => (hall _ (hstored ho)).2, ?_⟩
  have hcount := Dict.size_eq_ncard db.keys_sound
  exact hcount ▸ hsize

theorem pipeline_replies_unknown :
    let P := DictParams.exact (fun _ => 0)
    let s := Session.initial P P (.init ⟨6379, 10, true⟩ 0)
    let words := fun args : List Bytes => RespValue.array (args.map .bulkString)
    let frames := [words [ascii "set", ascii "k", ascii "v"], words [ascii "GET", ascii "k"],
      words [ascii "foo"]]
    let env := fun _ : ℕ => World.still 10 0
    let replies := (Run.run (replyStep env) s frames).1
    (Run.run (replyStep env) s frames).2.output = s.output ++ replies.flatten ∧
      ∃ vs, List.Forall₂ (fun bytes v => RespParser.parse bytes = .complete v []) replies vs ∧
        Framing.frames RespParser.parse replies.flatten = (vs, .waiting []) := by
  intro P s words frames env replies
  have henv : ∀ n, (env n).Plain := fun _ =>
    ⟨fun _ _ h => (by cases h), fun _ h => (by cases h)⟩
  have hframes : ∀ frame ∈ frames, frame.Fits := by
    intro frame hframe
    simp only [frames, List.mem_cons, List.not_mem_nil, or_false] at hframe
    rcases hframe with rfl | rfl | rfl <;> exact ⟨by decide, by decide⟩
  have hfits : ∀ s' : Session, s'.db.dbsize ≤ 1 → (s'.db.keys.forEach.all fun p =>
      p.1.length ≤ 1 && p.2.getStringValue.length ≤ 1) → s'.db.content.Fits := by
    intro s' hsize hall
    refine fits_of_forEach s'.db (hsize.trans (by decide)) fun p hp => ?_
    have hp := List.all_eq_true.mp hall p hp
    rw [Bool.and_eq_true, decide_eq_true_eq, decide_eq_true_eq] at hp
    exact ⟨hp.1.trans (by decide), hp.2.trans (by decide)⟩
  have halong : FitsAlong env frames s :=
    ⟨hfits _ (by decide +kernel) (by decide +kernel),
      hfits _ (by decide +kernel) (by decide +kernel),
      hfits _ (by decide +kernel) (by decide +kernel), trivial⟩
  apply (pipeline_replies_iff henv hframes halong).mpr
  rintro frame hframe ⟨name, rest, heq, hfind, hcrlf⟩
  simp only [frames, List.mem_cons, List.not_mem_nil, or_false] at hframe
  rcases hframe with rfl | rfl | rfl
  · cases heq
    exact absurd hfind (by decide)
  · cases heq
    exact absurd hfind (by decide)
  · cases heq
    exact absurd hcrlf (by decide)
/-- The name `x`, line break, `y` of an unknown command: two lines come back, and the second is no
reply. -/
theorem unknown_command_splits :
    let P := DictParams.exact (fun _ => 0)
    let s := Session.initial P P (.init ⟨6379, 10, true⟩ 0)
    let frame := RespValue.array [.bulkString (ascii "x" ++ crlf ++ ascii "y")]
    let env := fun _ : ℕ => World.still 10 0
    (replyStep env s frame).1 = ascii "-ERR unknown command `X\r\nY`\r\n" ∧
      ¬ ∃ v, RespParser.parse (replyStep env s frame).1 = .complete v [] := by
  intro P s frame env
  have hout : (replyStep env s frame).1 = ascii "-ERR unknown command `X\r\nY`\r\n" := by rfl
  refine ⟨hout, ?_⟩
  rintro ⟨v, hv⟩
  have hparse : RespParser.parse (ascii "-ERR unknown command `X\r\nY`\r\n") =
      .complete (.error (ascii "ERR unknown command `X")) (ascii "Y`\r\n") := by rfl
  rw [hout, hparse] at hv
  cases (Framing.Verdict.complete.inj hv).2

end Keva
