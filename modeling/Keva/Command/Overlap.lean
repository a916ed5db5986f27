import Keva.Command.SetGrammar
import Keva.Server.Reachable

/-!
# Commands that overlap

SETEX, PSETEX, SETNX, MSET and GETSET are written out beside SET, MGET beside GET, and INCR and
DECR beside INCRBY. At a constant clock each leaves what its counterpart leaves, as far as a client
can see, with the corresponding replies.
-/

namespace Keva

open Session Handler

/-- The frame runs the command `name` with these words behind its name. -/
def Issues (name : String) (words : List Bytes) (frame : RespValue) : Prop :=
  ∃ entry args, frameCommand frame = some (entry, args) ∧ entry.name = ascii name ∧
    wordsFrom args 1 = words

/-- Both keyspaces show the same at time `t`. -/
def Keyspace.SameShown (t : MillisecondTimestamp) (K K' : Keyspace) : Prop :=
  ∀ j, K'.shown t j = K.shown t j

/-- The same reply, or an error in both places. -/
def SameVerdict (bytes bytes' : Bytes) : Prop :=
  bytes = bytes' ∨ (∃ message, bytes = RespEncoder.error message) ∧
    ∃ message, bytes' = RespEncoder.error message

/-- The frames are SETs of the pairs that the words make up, in order. -/
inductive SetFrames : List Bytes → List RespValue → Prop
  | nil : SetFrames [] []
  | cons {k v : Bytes} {frame : RespValue} {words : List Bytes} {frames : List RespValue}
      (h : Issues "SET" [k, v] frame) (hs : SetFrames words frames) :
      SetFrames (k :: v :: words) (frame :: frames)

/-- The frames are GETs of the words, in order. -/
inductive GetFrames : List Bytes → List RespValue → Prop
  | nil : GetFrames [] []
  | cons {k : Bytes} {frame : RespValue} {words : List Bytes} {frames : List RespValue}
      (h : Issues "GET" [k] frame) (hs : GetFrames words frames) :
      GetFrames (k :: words) (frame :: frames)

variable {env : ℕ → World} {s s' : Session} {t : MillisecondTimestamp} {k v : Bytes}
  {args args' : List RespValue} {frame frame' : RespValue} {name : String} {words : List Bytes}
  {K K' K'' : Keyspace}

theorem Keyspace.SameShown.refl (t : MillisecondTimestamp) (K : Keyspace) : K.SameShown t K :=
  fun _ => rfl

theorem Keyspace.SameShown.symm (h : K.SameShown t K') : K'.SameShown t K := fun j => (h j).symm

theorem Keyspace.SameShown.trans (h : K.SameShown t K') (h' : K'.SameShown t K'') :
    K.SameShown t K'' := fun j => (h' j).trans (h j)

theorem Keyspace.sameShown_get (K : Keyspace) (t : MillisecondTimestamp) (k : Bytes)
    (secs : Int64) : K.SameShown t (K.get k t secs).2 := fun j => Keyspace.shown_get k secs j

theorem Keyspace.SameShown.storing (h : K.SameShown t K') (k v : Bytes) (clock clock' : UInt32)
    (ms : Int64) : (K.storing k (KevaObject.createString v clock) t ms).SameShown t
      (K'.storing k (KevaObject.createString v clock') t ms) := by
  have hvalue : (KevaObject.createString v clock').getStringValue =
      (KevaObject.createString v clock).getStringValue := by
    rw [KevaObject.getStringValue_createString, KevaObject.getStringValue_createString]
  intro j
  by_cases hj : j = k
  · by_cases hms : 0 < ms
    · rw [hj, shown_storing_pos hms, shown_storing_pos hms, hvalue]
    · rw [hj, shown_storing_nonpos hms, shown_storing_nonpos hms, hvalue]
  · rw [shown_storing_of_ne hj, shown_storing_of_ne hj, h j]

theorem argStr_of_wordsFrom {i : ℕ} (h : wordsFrom args i = words) (j : ℕ) :
    argStr args (i + j) = words[j]?.getD [] := by
  unfold argStr
  rw [← h, wordsFrom, List.getElem?_map, List.getElem?_drop]

theorem Issues.requests (h : Issues name (k :: words) frame) :
    ∃ args, Requests name k frame args ∧ wordsFrom args 1 = k :: words ∧
      args.length = words.length + 2 := by
  obtain ⟨entry, args, hframe, hname, hwords⟩ := h
  refine ⟨args, ⟨⟨entry, hframe, hname⟩, argStr_of_wordsFrom hwords 0⟩, hwords, ?_⟩
  have hlen := congrArg List.length hwords
  rw [wordsFrom, List.length_map, List.length_drop, List.length_cons] at hlen
  omega

theorem setOptions_of_le {i : ℕ} (hi : args.length ≤ i) (fuel : ℕ) (o : SetOptions) :
    setOptions args fuel i o = pure (some o) := by
  cases fuel with
  | zero => rfl
  | succ fuel => rw [setOptions, if_neg (by omega)]

theorem setOptions_ex {w a rest : Bytes} {n : Int64} (hws : wordsFrom args 3 = [w, a])
    (hw : w.map toUpper = ascii "EX") (hn : fromChars a = .ok (n, rest)) (hpos : ¬ n ≤ 0)
    (o : SetOptions) :
    setOptions args args.length 3 o = pure (some { o with expireMs := n * 1000 }) := by
  obtain ⟨hi, rfl, hrest⟩ := wordsFrom_eq_cons hws
  obtain ⟨hi', rfl, hend⟩ := wordsFrom_eq_cons hrest
  have hlen : args.length ≤ 5 := length_le_of_wordsFrom hend
  obtain ⟨fuel, hfuel⟩ : ∃ f, args.length = f + 1 := ⟨args.length - 1, by omega⟩
  rw [hfuel, setOptions, if_pos hi, element_bind hi]
  dsimp only
  rw [if_pos ⟨hw, hi'⟩, element_bind hi', hn]
  dsimp only
  rw [if_neg hpos, setOptions_of_le hlen]

theorem setOptions_px {w a rest : Bytes} {n : Int64} (hws : wordsFrom args 3 = [w, a])
    (hw : w.map toUpper = ascii "PX") (hn : fromChars a = .ok (n, rest)) (hpos : ¬ n ≤ 0)
    (o : SetOptions) :
    setOptions args args.length 3 o = pure (some { o with expireMs := n }) := by
  obtain ⟨hi, rfl, hrest⟩ := wordsFrom_eq_cons hws
  obtain ⟨hi', rfl, hend⟩ := wordsFrom_eq_cons hrest
  have hlen : args.length ≤ 5 := length_le_of_wordsFrom hend
  obtain ⟨fuel, hfuel⟩ : ∃ f, args.length = f + 1 := ⟨args.length - 1, by omega⟩
  rw [hfuel, setOptions, if_pos hi, element_bind hi]
  dsimp only
  rw [hw, if_neg (fun hex => absurd hex.1 (by decide)), if_pos ⟨rfl, hi'⟩, element_bind hi', hn]
  dsimp only
  rw [if_neg hpos, setOptions_of_le hlen]

theorem replyStep_setWithLifetime {e : CommandEntry} {command : String} {toMs : Int64 → Int64}
    {n : Int64} {rest : Bytes} (henv : ∀ i, (env i).nowMs = t) (h : Requests name k frame args)
    (hfind : findCommand (ascii name) = some e)
    (hhandler : e.handler = setWithLifetime command toMs)
    (hlen : 4 ≤ args.length) (hn : fromChars (argStr args 2) = .ok (n, rest)) (hpos : ¬ n ≤ 0)
    (hms : 0 < toMs n) :
    (replyStep env s frame).1 = RespEncoder.ok ∧ ∃ clock,
      (replyStep env s frame).2.db.content =
        s.db.content.storing k (KevaObject.createString (argStr args 3) clock) t (toMs n) := by
  have hexec : exec env (e.handler args) s = exec env (do
      storeString (argStr args 1) (argStr args 3)
      let now ← nowMilliseconds
      setExpire (argStr args 1) (now + toMs n)
      reply RespEncoder.ok) s := by
    rw [hhandler, setWithLifetime, element_bind (by omega), element_bind (by omega),
      element_bind (by omega), hn]
    dsimp only
    rw [if_neg hpos]
  refine ⟨h.reply_eq hfind (by rw [hexec]; rfl), LruClock.current (env s.calls).time, ?_⟩
  rw [h.content_eq hfind, hexec, ← h.key_eq, Keyspace.storing, if_pos hms, ← henv (s.calls + 2)]
  change ((s.db.set (argStr args 1) _).setExpire (argStr args 1) _).content = _
  rw [KevaDatabase.content_setExpire, KevaDatabase.content_set]
  rfl

theorem lifetime_agrees {e : CommandEntry} {command : String} {toMs : Int64 → Int64} {w : Bytes}
    (henv : ∀ i, (env i).nowMs = t) (h : Requests name k frame args)
    (hfind : findCommand (ascii name) = some e)
    (hhandler : e.handler = setWithLifetime command toMs)
    (hlen : 4 ≤ args.length) (h' : Requests "SET" k frame' args')
    (hvalue : argStr args' 2 = argStr args 3) (hws : wordsFrom args' 3 = [w, argStr args 2])
    (hw : IsLifetimeWord w)
    (hopt : ∀ n rest, fromChars (argStr args 2) = .ok (n, rest) → ¬ n ≤ 0 → 0 < toMs n ∧
      setOptions args' args'.length 3 ⟨-1, false, false⟩ = pure (some ⟨toMs n, false, false⟩)) :
    SameVerdict (replyStep env s frame).1 (replyStep env s frame').1 ∧
      (replyStep env s frame').2.db.content.SameShown t (replyStep env s frame).2.db.content := by
  by_cases hbad : BadAmount (argStr args 2)
  · have hrefused : RefusedWords (wordsFrom args' 3) := hws ▸ .here hw hbad
    obtain ⟨herr', hcontent'⟩ := replyStep_set_refused env s h' hrefused
    have hhandler' : e.handler args = reply (RespEncoder.error (invalidExpireMessage command)) := by
      rw [hhandler]
      cases hn : fromChars (argStr args 2) with
      | error err =>
          rw [setWithLifetime, element_bind (by omega), element_bind (by omega),
            element_bind (by omega), hn]
      | ok r => exact setWithLifetime_of_nonpos hlen hn (hbad r.1 r.2 hn) command toMs
    obtain ⟨herr, hcontent⟩ := @replyStep_of_reply env s k args frame name e _ h hfind hhandler'
    rw [hcontent, hcontent']
    exact ⟨.inr ⟨⟨_, herr⟩, herr'⟩, .refl t _⟩
  · obtain ⟨n, rest, hn, hpos⟩ : ∃ n rest, fromChars (argStr args 2) = .ok (n, rest) ∧ ¬ n ≤ 0 := by
      by_contra hnone
      exact hbad fun n rest hn => by_contra fun hpos => hnone ⟨n, rest, hn, hpos⟩
    obtain ⟨hms, ho⟩ := hopt n rest hn hpos
    obtain ⟨hreply, clock, hcontent⟩ :=
      replyStep_setWithLifetime (s := s) henv h hfind hhandler hlen hn hpos hms
    have hallowed : ¬ SetOptions.Forbids ⟨toMs n, false, false⟩
        (s.db.content.Live (env s.calls).nowMs k) := by simp [SetOptions.Forbids]
    obtain ⟨hreply', clock', hcontent'⟩ := replyStep_set_allowed h' ho hallowed
    rw [hcontent, hcontent', hvalue, henv, henv]
    refine ⟨.inl (hreply.trans hreply'.symm), Keyspace.SameShown.storing ?_ k _ _ _ _⟩
    exact (Keyspace.sameShown_get _ _ _ _).symm

theorem requests_lifetime {a w : Bytes} (h : Issues name [k, a, v] frame)
    (h' : Issues "SET" [k, v, w, a] frame') :
    ∃ args args', Requests name k frame args ∧ args.length = 4 ∧ argStr args 2 = a ∧
      Requests "SET" k frame' args' ∧ argStr args' 2 = argStr args 3 ∧
      wordsFrom args' 3 = [w, argStr args 2] := by
  obtain ⟨args, hreq, hwords, hlen⟩ := h.requests
  obtain ⟨args', hreq', hwords', -⟩ := h'.requests
  have ha : argStr args 2 = a := argStr_of_wordsFrom hwords 1
  have hv : argStr args 3 = v := argStr_of_wordsFrom hwords 2
  have hv' : argStr args' 2 = v := argStr_of_wordsFrom hwords' 1
  refine ⟨args, args', hreq, hlen, ha, hreq', hv'.trans hv.symm, ?_⟩
  rw [ha]
  exact (wordsFrom_eq_cons (wordsFrom_eq_cons hwords').2.2).2.2

theorem setex_agrees {a w : Bytes} (henv : ∀ i, (env i).nowMs = t)
    (h : Issues "SETEX" [k, a, v] frame) (h' : Issues "SET" [k, v, w, a] frame')
    (hw : w.map toUpper = ascii "EX")
    (hrange : ∀ n rest, fromChars a = .ok (n, rest) → InI64 (n.toInt * 1000)) :
    SameVerdict (replyStep env s frame).1 (replyStep env s frame').1 ∧
      (replyStep env s frame').2.db.content.SameShown t (replyStep env s frame).2.db.content := by
  obtain ⟨args, args', hreq, hlen, ha, hreq', hvalue, hws⟩ := requests_lifetime h h'
  refine lifetime_agrees (e := ⟨ascii "SETEX", handleSetex, 4, 4, true⟩) henv hreq rfl rfl
    hlen.ge hreq' hvalue hws (.inl hw) fun n rest hn hpos => ?_
  refine ⟨?_, setOptions_ex hws hw hn hpos _⟩
  have hprod : (n * 1000).toInt = n.toInt * 1000 := by
    have hmul : n * 1000 = Int64.ofInt (n.toInt * 1000) := by
      rw [Int64.ofInt_mul, Int64.ofInt_toInt]
      rfl
    rw [hmul, Int64.toInt_ofInt_eq_iff]
    exact hrange n rest (ha ▸ hn)
  have hzero : (0 : Int64).toInt = 0 := rfl
  rw [Int64.le_iff_toInt_le] at hpos
  rw [Int64.lt_iff_toInt_lt, hprod]
  omega

theorem psetex_agrees {a w : Bytes} (henv : ∀ i, (env i).nowMs = t)
    (h : Issues "PSETEX" [k, a, v] frame) (h' : Issues "SET" [k, v, w, a] frame')
    (hw : w.map toUpper = ascii "PX") :
    SameVerdict (replyStep env s frame).1 (replyStep env s frame').1 ∧
      (replyStep env s frame').2.db.content.SameShown t (replyStep env s frame).2.db.content := by
  obtain ⟨args, args', hreq, hlen, ha, hreq', hvalue, hws⟩ := requests_lifetime h h'
  refine lifetime_agrees (e := ⟨ascii "PSETEX", handlePsetex, 4, 4, true⟩) henv hreq rfl rfl
    hlen.ge hreq' hvalue hws (.inr hw) fun n rest hn hpos => ?_
  exact ⟨Int64.not_le.mp hpos, setOptions_px hws hw hn hpos _⟩

theorem content_lookup (henv : ∀ i, (env i).nowMs = t) (s : Session) (k : Bytes) :
    (s.perform env (.get k)).2.db.content = (s.db.content.get k t (env s.calls).time).2 := by
  rw [content_perform, ← henv s.calls]
  rfl

theorem found_iff (henv : ∀ i, (env i).nowMs = t) (s : Session) (k : Bytes) :
    (s.perform env (.get k)).1.isSome = true ↔ s.db.content.Live t k := by
  rw [perform_get_found_iff, henv]

theorem storing_plain (K : Keyspace) (k : Bytes) (obj : KevaObject) (t : MillisecondTimestamp) :
    K.storing k obj t (-1) = K.set k obj := if_neg (by decide)

theorem exec_handleSetnx_eq (h : 3 ≤ args.length) (env : ℕ → World) (s : Session) :
    let r := s.perform env (.get (argStr args 1))
    exec env (handleSetnx args) s = exec env
      (if r.1.isSome then reply (RespEncoder.integer 0)
      else do
        storeString (argStr args 1) (argStr args 2)
        reply (RespEncoder.integer 1)) r.2 := by
  rw [handleSetnx, element_bind (by omega), element_bind (by omega)]
  rfl

theorem replyStep_setnx_found (henv : ∀ i, (env i).nowMs = t) (h : Requests "SETNX" k frame args)
    (hlive : s.db.content.Live t k) :
    (replyStep env s frame).1 = RespEncoder.integer 0 ∧ (replyStep env s frame).2.db.content =
      (s.db.content.get k t (env s.calls).time).2 := by
  let e : CommandEntry := ⟨ascii "SETNX", handleSetnx, 3, 3, true⟩
  obtain ⟨ha, -⟩ := h.exec (e := e) rfl env s
  have hexec := exec_handleSetnx_eq (le_length_of_admits ha rfl) env s
  dsimp only at hexec
  rw [h.key_eq, (found_iff henv s k).mpr hlive] at hexec
  have hout : (exec env (e.handler args) s).2.output = s.output ++ RespEncoder.integer 0 :=
    (congrArg (fun r => r.2.output) hexec).trans rfl
  refine ⟨h.reply_eq (e := e) rfl hout, ?_⟩
  rw [h.content_eq (e := e) rfl, ← content_lookup henv]
  exact congrArg (fun r => r.2.db.content) hexec

theorem replyStep_setnx_missing (henv : ∀ i, (env i).nowMs = t)
    (h : Requests "SETNX" k frame args) (hdead : ¬ s.db.content.Live t k) :
    (replyStep env s frame).1 = RespEncoder.integer 1 ∧ ∃ clock,
      (replyStep env s frame).2.db.content =
        (s.db.content.get k t (env s.calls).time).2.storing k
          (KevaObject.createString (argStr args 2) clock) t (-1) := by
  let e : CommandEntry := ⟨ascii "SETNX", handleSetnx, 3, 3, true⟩
  obtain ⟨ha, -⟩ := h.exec (e := e) rfl env s
  have hexec := exec_handleSetnx_eq (le_length_of_admits ha rfl) env s
  dsimp only at hexec
  rw [h.key_eq, Bool.eq_false_iff.mpr (mt (found_iff henv s k).mp hdead),
    if_neg Bool.false_ne_true] at hexec
  have hout : (exec env (e.handler args) s).2.output = s.output ++ RespEncoder.integer 1 :=
    (congrArg (fun r => r.2.output) hexec).trans rfl
  refine ⟨h.reply_eq (e := e) rfl hout, LruClock.current (env (s.calls + 1)).time, ?_⟩
  rw [h.content_eq (e := e) rfl, storing_plain, ← content_lookup henv, ← KevaDatabase.content_set]
  exact congrArg (fun r => r.2.db.content) hexec

theorem setnx_agrees {w : Bytes} (henv : ∀ i, (env i).nowMs = t)
    (h : Issues "SETNX" [k, v] frame) (h' : Issues "SET" [k, v, w] frame')
    (hw : w.map toUpper = ascii "NX") :
    ((replyStep env s frame).1 = RespEncoder.integer 1 ∧
          (replyStep env s frame').1 = RespEncoder.ok ∨
        (replyStep env s frame).1 = RespEncoder.integer 0 ∧
          (replyStep env s frame').1 = RespEncoder.nil) ∧
      (replyStep env s frame').2.db.content.SameShown t (replyStep env s frame).2.db.content := by
  obtain ⟨args, hreq, hwords, -⟩ := h.requests
  obtain ⟨args', hreq', hwords', -⟩ := h'.requests
  have hv : argStr args 2 = v := argStr_of_wordsFrom hwords 1
  have hv' : argStr args' 2 = v := argStr_of_wordsFrom hwords' 1
  have hws : wordsFrom args' 3 = [w] := (wordsFrom_eq_cons (wordsFrom_eq_cons hwords').2.2).2.2
  have hfuel : args'.length ≤ 3 + args'.length := Nat.le_add_left _ _
  have hopt := setOptions_of_optionWords (.nx hw .nil) hws hfuel ⟨-1, false, false⟩
  by_cases hlive : s.db.content.Live t k
  · obtain ⟨hreply, hcontent⟩ := replyStep_setnx_found henv hreq hlive
    have hforbids : SetOptions.Forbids ⟨-1, true, false⟩
        (s.db.content.Live (env s.calls).nowMs k) := .inl ⟨rfl, by rwa [henv]⟩
    obtain ⟨hreply', hcontent'⟩ := replyStep_set_forbidden hreq' hopt hforbids
    rw [hcontent, hcontent', henv]
    exact ⟨.inr ⟨hreply, hreply'⟩, .refl t _⟩
  · obtain ⟨hreply, clock, hcontent⟩ := replyStep_setnx_missing henv hreq hlive
    have hallowed : ¬ SetOptions.Forbids ⟨-1, true, false⟩
        (s.db.content.Live (env s.calls).nowMs k) := by
      rw [henv]
      simp [SetOptions.Forbids, hlive]
    obtain ⟨hreply', clock', hcontent'⟩ := replyStep_set_allowed hreq' hopt hallowed
    rw [hcontent, hcontent', hv, hv', henv, henv]
    exact ⟨.inl ⟨hreply, hreply'⟩, Keyspace.SameShown.storing (.refl t _) k v _ _ _⟩

theorem replyStep_set_plain (henv : ∀ i, (env i).nowMs = t) (h : Issues "SET" [k, v] frame) :
    (replyStep env s frame).1 = RespEncoder.ok ∧ ∃ clock,
      (replyStep env s frame).2.db.content =
        (s.db.content.get k t (env s.calls).time).2.storing k
          (KevaObject.createString v clock) t (-1) := by
  obtain ⟨args, hreq, hwords, -⟩ := h.requests
  have hv : argStr args 2 = v := argStr_of_wordsFrom hwords 1
  have hws : wordsFrom args 3 = [] := (wordsFrom_eq_cons (wordsFrom_eq_cons hwords).2.2).2.2
  have hfuel : args.length ≤ 3 + args.length := Nat.le_add_left _ _
  have hopt := setOptions_of_optionWords .nil hws hfuel ⟨-1, false, false⟩
  have hallowed : ¬ SetOptions.Forbids ⟨-1, false, false⟩
      (s.db.content.Live (env s.calls).nowMs k) := by simp [SetOptions.Forbids]
  obtain ⟨hreply, clock, hcontent⟩ := replyStep_set_allowed hreq hopt hallowed
  rw [hv, henv, henv] at hcontent
  exact ⟨hreply, clock, hcontent⟩

theorem replyStep_getset (hs : s.db.content.Canonical) (henv : ∀ i, (env i).nowMs = t)
    (h : Requests "GETSET" k frame args) :
    (replyStep env s frame).1 = getReply (s.db.content.get k t (env s.calls).time).1 ∧ ∃ clock,
      (replyStep env s frame).2.db.content =
        (s.db.content.get k t (env s.calls).time).2.storing k
          (KevaObject.createString (argStr args 2) clock) t (-1) := by
  let e : CommandEntry := ⟨ascii "GETSET", handleGetset, 3, 3, true⟩
  obtain ⟨ha, -⟩ := h.exec (e := e) rfl env s
  have hlen : 3 ≤ args.length := le_length_of_admits ha rfl
  have hfound := (Keyspace.All.get hs (fun _ clock h => h.touch clock) k t (env s.calls).time).1
  have hexec : exec env (handleGetset args) s = exec env (do
      reply (getReply (s.db.content.get k t (env s.calls).time).1)
      storeString k (argStr args 2)) (s.perform env (.get k)).2 := by
    rw [handleGetset, element_bind (by omega), element_bind (by omega), h.key_eq, exec_get_bind,
      perform_get_fst, henv]
    cases hget : (s.db.content.get k t (env s.calls).time).1 with
    | none => rfl
    | some old =>
        unfold getReply
        dsimp only
        have htype : ¬ old.type ≠ .string := not_not_intro (hfound old hget).type_eq
        rw [if_neg htype, if_neg htype]
  have hout : (exec env (e.handler args) s).2.output =
      s.output ++ getReply (s.db.content.get k t (env s.calls).time).1 :=
    (congrArg (fun r => r.2.output) hexec).trans rfl
  refine ⟨h.reply_eq (e := e) rfl hout, LruClock.current (env (s.calls + 2)).time, ?_⟩
  rw [h.content_eq (e := e) rfl, storing_plain, ← content_lookup henv, ← KevaDatabase.content_set]
  exact congrArg (fun r => r.2.db.content) hexec

theorem getset_agrees {getFrame : RespValue} (hs : s.db.content.Canonical)
    (henv : ∀ i, (env i).nowMs = t) (h : Issues "GETSET" [k, v] frame)
    (hget : Issues "GET" [k] getFrame) (h' : Issues "SET" [k, v] frame') :
    (replyStep env s frame).1 = (replyStep env s getFrame).1 ∧
      (replyStep env s frame').2.db.content.SameShown t (replyStep env s frame).2.db.content := by
  obtain ⟨args, hreq, hwords, -⟩ := h.requests
  obtain ⟨getArgs, hgetReq, -, -⟩ := hget.requests
  have hv : argStr args 2 = v := argStr_of_wordsFrom hwords 1
  obtain ⟨hreply, clock, hcontent⟩ := replyStep_getset hs henv hreq
  obtain ⟨-, clock', hcontent'⟩ := replyStep_set_plain (s := s) henv h'
  rw [hreply, replyStep_get hgetReq, henv, hcontent, hcontent', hv]
  exact ⟨rfl, Keyspace.SameShown.storing (.refl t _) k v _ _ _⟩

theorem agrees_of_handler {e e' : CommandEntry} {name' : String} (h : Requests name k frame args)
    (hfind : findCommand (ascii name) = some e) (h' : Requests name' k frame' args')
    (hfind' : findCommand (ascii name') = some e') (heq : e.handler args = e'.handler args') :
    (replyStep env s frame).1 = (replyStep env s frame').1 ∧
      (replyStep env s frame').2.db.content.SameShown t (replyStep env s frame).2.db.content := by
  obtain ⟨-, hout', -⟩ := h'.exec hfind' env s
  rw [← heq] at hout'
  refine ⟨h.reply_eq hfind hout', ?_⟩
  rw [h.content_eq hfind, h'.content_eq hfind', heq]
  exact .refl t _

theorem incr_agrees {a : Bytes} (h : Issues "INCR" [k] frame) (h' : Issues "INCRBY" [k, a] frame')
    (ha : Decimal.Numeral a 1) :
    (replyStep env s frame).1 = (replyStep env s frame').1 ∧
      (replyStep env s frame').2.db.content.SameShown t (replyStep env s frame).2.db.content := by
  obtain ⟨args, hreq, -, hlen⟩ := h.requests
  obtain ⟨args', hreq', hwords', hlen'⟩ := h'.requests
  have hn : fromChars (argStr args' 2) = .ok (1, []) := by
    have hword : argStr args' 2 = a := argStr_of_wordsFrom hwords' 1
    rw [hword, fromChars_eq_ok_nil_iff]
    exact ha
  have hfind : findCommand (ascii "INCR") = some ⟨ascii "INCR", handleIncr, 2, 2, true⟩ := rfl
  have hfind' : findCommand (ascii "INCRBY") =
      some ⟨ascii "INCRBY", handleIncrby, 3, 3, true⟩ := rfl
  apply agrees_of_handler hreq hfind hreq' hfind'
  change handleIncr args = handleIncrby args'
  rw [handleIncr_eq (by rw [hlen]; simp) hreq.key_eq,
    handleIncrby_eq (by rw [hlen']; simp) hreq'.key_eq hn]
  congr 1
  funext c
  rw [Bool.eq_iff_iff, beq_iff_eq, incrbyRefuses_iff]
  exact not_inI64_add_one

theorem decr_agrees {a : Bytes} (h : Issues "DECR" [k] frame) (h' : Issues "INCRBY" [k, a] frame')
    (ha : Decimal.Numeral a (-1)) :
    (replyStep env s frame).1 = (replyStep env s frame').1 ∧
      (replyStep env s frame').2.db.content.SameShown t (replyStep env s frame).2.db.content := by
  obtain ⟨args, hreq, -, hlen⟩ := h.requests
  obtain ⟨args', hreq', hwords', hlen'⟩ := h'.requests
  have hn : fromChars (argStr args' 2) = .ok (-1, []) := by
    have hword : argStr args' 2 = a := argStr_of_wordsFrom hwords' 1
    rw [hword, fromChars_eq_ok_nil_iff]
    exact ha
  have hfind : findCommand (ascii "DECR") = some ⟨ascii "DECR", handleDecr, 2, 2, true⟩ := rfl
  have hfind' : findCommand (ascii "INCRBY") =
      some ⟨ascii "INCRBY", handleIncrby, 3, 3, true⟩ := rfl
  apply agrees_of_handler hreq hfind hreq' hfind'
  change handleDecr args = handleIncrby args'
  rw [handleDecr_eq (by rw [hlen]; simp) hreq.key_eq,
    handleIncrby_eq (by rw [hlen']; simp) hreq'.key_eq hn]
  have hrefuses : (fun c => c == Int64.minValue) = incrbyRefuses (-1) := by
    funext c
    rw [Bool.eq_iff_iff, beq_iff_eq, incrbyRefuses_iff]
    exact not_inI64_sub_one
  have hnext : (fun c : Int64 => c - 1) = fun c => c + -1 := by
    funext c
    exact Int64.sub_eq_add_neg c 1
  rw [hrefuses, hnext]

theorem msetRound_spec {i : ℕ} (hi : i + 1 < args.length) (env : ℕ → World) (s : Session) :
    (exec env (msetRound args i) s).2.output = s.output ∧ ∃ clock,
      (exec env (msetRound args i) s).2.db.content = s.db.content.storing (argStr args i)
        (KevaObject.createString (argStr args (i + 1)) clock) t (-1) := by
  rw [msetRound_eq hi]
  refine ⟨rfl, LruClock.current (env s.calls).time, ?_⟩
  rw [storing_plain]
  exact KevaDatabase.content_set _ _ _

theorem msetLoop_agrees (henv : ∀ i, (env i).nowMs = t) {frames : List RespValue}
    (hframes : SetFrames words frames) {i : ℕ} (hwords : wordsFrom args i = words)
    (hsame : s'.db.content.SameShown t s.db.content) :
    let r := (exec env (forM (List.range' i frames.length 2) (msetRound args)) s).2
    let r' := Run.run (replyStep env) s' frames
    r.output = s.output ∧ (∀ bytes ∈ r'.1, bytes = RespEncoder.ok) ∧
      r'.2.db.content.SameShown t r.db.content := by
  induction hframes generalizing i s s' with
  | nil => exact ⟨rfl, fun bytes hb => (List.not_mem_nil hb).elim, hsame⟩
  | @cons k v frame words frames h hs ih =>
      obtain ⟨hi, hk, hrest⟩ := wordsFrom_eq_cons hwords
      obtain ⟨hi', hv, hrest'⟩ := wordsFrom_eq_cons hrest
      obtain ⟨hout, clock, hcontent⟩ := msetRound_spec (t := t) hi' env s
      obtain ⟨hreply, clock', hcontent'⟩ := replyStep_set_plain (s := s') henv h
      have hstep : (replyStep env s' frame).2.db.content.SameShown t
          (exec env (msetRound args i) s).2.db.content := by
        rw [hcontent, hcontent', hk, hv]
        apply Keyspace.SameShown.storing
        exact (Keyspace.sameShown_get _ _ _ _).symm.trans hsame
      obtain ⟨houts, hok, hend⟩ := ih hrest' hstep
      rw [List.length_cons, List.range'_succ, List.forM_cons, exec_bind, Run.run_cons]
      exact ⟨houts.trans hout, List.forall_mem_cons.mpr ⟨hreply, hok⟩, hend⟩

theorem SetFrames.length_eq {frames : List RespValue} (h : SetFrames words frames) :
    words.length = 2 * frames.length := by
  induction h with
  | nil => rfl
  | cons h hs ih =>
      rw [List.length_cons, List.length_cons, List.length_cons, ih]
      omega

theorem Issues.requests_all (h : Issues name words frame) : ∃ args,
    Requests name (argStr args 1) frame args ∧ wordsFrom args 1 = words ∧
      args.length = words.length + 1 := by
  obtain ⟨entry, args, hframe, hname, hwords⟩ := h
  refine ⟨args, ⟨⟨entry, hframe, hname⟩, rfl⟩, hwords, ?_⟩
  obtain ⟨word, rest, -, rfl, -⟩ := frameCommand_shape hframe
  rw [← hwords, wordsFrom, List.drop_one, List.tail_cons, List.length_map, List.length_cons]

theorem mset_agrees (henv : ∀ i, (env i).nowMs = t) (h : Issues "MSET" words frame)
    {frames : List RespValue} (hframes : SetFrames words frames) :
    let r' := Run.run (replyStep env) s frames
    (replyStep env s frame).1 = RespEncoder.ok ∧ (∀ bytes ∈ r'.1, bytes = RespEncoder.ok) ∧
      r'.2.db.content.SameShown t (replyStep env s frame).2.db.content := by
  let e : CommandEntry := ⟨ascii "MSET", handleMset, 3, -1, true⟩
  obtain ⟨args, hreq, hwords, hlen⟩ := h.requests_all
  have hcount := hframes.length_eq
  have hhalf : args.length / 2 = frames.length := by omega
  obtain ⟨hout, hok, hend⟩ :=
    msetLoop_agrees (s := s) henv hframes hwords (.refl t s.db.content)
  have hexec : exec env (e.handler args) s = exec env (do
      forM (List.range' 1 frames.length 2) (msetRound args)
      reply RespEncoder.ok) s := by
    change exec env (handleMset args) s = _
    rw [handleMset, if_neg (by omega), hhalf]
  refine ⟨hreq.reply_eq (e := e) rfl ?_, hok, ?_⟩
  · rw [hexec, exec_bind, ← hout]
    rfl
  · rw [hreq.content_eq (e := e) rfl, hexec, exec_bind]
    exact hend

theorem mset_odd_words (h : Issues "MSET" words frame) (hodd : words.length % 2 = 1) :
    (∃ message, (replyStep env s frame).1 = RespEncoder.error message) ∧
      (replyStep env s frame).2.db.content = s.db.content := by
  obtain ⟨args, hreq, hwords, hlen⟩ := h.requests_all
  have hhandler : handleMset args =
      reply (RespEncoder.error (ascii "wrong number of arguments for MSET")) := by
    rw [handleMset, if_pos (by omega)]
  obtain ⟨hreply, hcontent⟩ := @replyStep_of_reply env s (argStr args 1) args frame "MSET"
    ⟨ascii "MSET", handleMset, 3, -1, true⟩ _ hreq rfl hhandler
  exact ⟨⟨_, hreply⟩, hcontent⟩

theorem replyStep_get_content (henv : ∀ i, (env i).nowMs = t) (h : Requests "GET" k frame args) :
    (replyStep env s frame).2.db.content = (s.db.content.get k t (env s.calls).time).2 := by
  obtain ⟨ha, -⟩ := h.exec (e := ⟨ascii "GET", handleGet, 2, 2, false⟩) rfl env s
  rw [h.content_eq (e := ⟨ascii "GET", handleGet, 2, 2, false⟩) rfl, ← content_lookup henv,
    ← h.key_eq]
  exact congrArg KevaDatabase.content (exec_handleGet (le_length_of_admits ha rfl) env s).2

/-- A round of MGET replies as GET does. The two differ only on objects that are no strings. -/
theorem mgetRound_spec {i : ℕ} (hi : i < args.length) (hs : s.db.content.Canonical)
    (henv : ∀ i, (env i).nowMs = t) :
    let found := s.db.content.get (argStr args i) t (env s.calls).time
    (exec env (mgetRound args i) s).2.output = s.output ++ getReply found.1 ∧
      (exec env (mgetRound args i) s).2.db.content = found.2 := by
  intro found
  have hfound := (Keyspace.All.get hs (fun _ clock h => h.touch clock) (argStr args i) t
    (env s.calls).time).1
  have hexec : exec env (mgetRound args i) s =
      exec env (reply (getReply found.1)) (s.perform env (.get (argStr args i))).2 := by
    rw [mgetRound, element_bind hi, exec_get_bind, perform_get_fst, henv]
    cases hget : (s.db.content.get (argStr args i) t (env s.calls).time).1 with
    | none => rfl
    | some obj =>
        unfold getReply
        dsimp only
        have htype : ¬ obj.type ≠ .string := not_not_intro (hfound obj hget).type_eq
        rw [if_neg htype, if_neg htype]
  rw [hexec]
  exact ⟨rfl, content_lookup henv s _⟩

theorem getReply_get_congr (hs : K.Canonical) (hs' : K'.Canonical) (hsame : K.SameShown t K')
    (k : Bytes) (secs secs' : Int64) :
    getReply (K.get k t secs).1 = getReply (K'.get k t secs').1 := by
  apply getReply_congr (Keyspace.All.get hs (fun _ clock h => h.touch clock) k t secs).1
    (Keyspace.All.get hs' (fun _ clock h => h.touch clock) k t secs').1
  rw [Keyspace.getStringValue_get, Keyspace.getStringValue_get, hsame k]

theorem mgetLoop_agrees (henv : ∀ i, (env i).nowMs = t) {frames : List RespValue}
    (hframes : GetFrames words frames) {i : ℕ} (hwords : wordsFrom args i = words)
    (hs : s.db.content.Canonical) (hs' : s'.db.content.Canonical)
    (hsame : s'.db.content.SameShown t s.db.content) :
    let r := (exec env (forM (List.range' i frames.length) (mgetRound args)) s).2
    let r' := Run.run (replyStep env) s' frames
    r.output = s.output ++ r'.1.flatten ∧ r'.2.db.content.SameShown t r.db.content := by
  induction hframes generalizing i s s' with
  | nil => exact ⟨(List.append_nil _).symm, hsame⟩
  | @cons k frame words frames h hf ih =>
      obtain ⟨hi, hk, hrest⟩ := wordsFrom_eq_cons hwords
      obtain ⟨args', hreq, -⟩ := h.requests
      obtain ⟨hout, hcontent⟩ := mgetRound_spec hi hs henv
      have hcontent' := replyStep_get_content (s := s') henv hreq
      have hreply : (replyStep env s' frame).1 =
          getReply (s.db.content.get (argStr args i) t (env s.calls).time).1 := by
        rw [replyStep_get hreq, henv, hk]
        exact getReply_get_congr hs' hs hsame k _ _
      have hkept := (Keyspace.All.get hs (fun _ clock h => h.touch clock) (argStr args i) t
        (env s.calls).time).2
      have hkept' := (Keyspace.All.get hs' (fun _ clock h => h.touch clock) k t
        (env s'.calls).time).2
      have hstep : (replyStep env s' frame).2.db.content.SameShown t
          (exec env (mgetRound args i) s).2.db.content := by
        rw [hcontent, hcontent']
        exact ((Keyspace.sameShown_get _ _ _ _).symm.trans hsame).trans
          (Keyspace.sameShown_get _ _ _ _)
      obtain ⟨houts, hend⟩ := ih hrest (by rw [hcontent]; exact hkept)
        (by rw [hcontent']; exact hkept') hstep
      rw [List.length_cons, List.range'_succ, List.forM_cons, exec_bind, Run.run_cons]
      refine ⟨?_, hend⟩
      refine houts.trans ?_
      rw [hout, hreply, List.flatten_cons, List.append_assoc]

theorem GetFrames.length_eq {frames : List RespValue} (h : GetFrames words frames) :
    words.length = frames.length := by
  induction h with
  | nil => rfl
  | cons h hs ih => rw [List.length_cons, List.length_cons, ih]

theorem mget_agrees (hs : s.db.content.Canonical) (henv : ∀ i, (env i).nowMs = t)
    (h : Issues "MGET" words frame) {frames : List RespValue}
    (hframes : GetFrames words frames) :
    let r' := Run.run (replyStep env) s frames
    (replyStep env s frame).1 =
        RespEncoder.arrayHeader (Int64.ofNat frames.length) ++ r'.1.flatten ∧
      r'.2.db.content.SameShown t (replyStep env s frame).2.db.content := by
  let e : CommandEntry := ⟨ascii "MGET", handleMget, 2, -1, false⟩
  obtain ⟨args, hreq, hwords, hlen⟩ := h.requests_all
  have hcount := hframes.length_eq
  have hkeys : args.length - 1 = frames.length := by omega
  let header := RespEncoder.arrayHeader (Int64.ofNat frames.length)
  let s₁ : Session := (s.perform env (.appendResponse header)).2
  have hexec : exec env (e.handler args) s =
      exec env (forM (List.range' 1 frames.length) (mgetRound args)) s₁ := by
    change exec env (handleMget args) s = _
    rw [handleMget, hkeys]
    rfl
  obtain ⟨hout, hend⟩ := mgetLoop_agrees (s := s₁) henv hframes hwords hs hs (.refl t _)
  refine ⟨hreq.reply_eq (e := e) rfl ?_, ?_⟩
  · rw [hexec, hout, ← List.append_assoc]
    rfl
  · rw [hreq.content_eq (e := e) rfl, hexec]
    exact hend

/-- What the overlapping commands do from the state `s` at time `t`. In each field the frame of the
one command is compared with the frame, or the frames, of the other. -/
structure CommandsAgree (env : ℕ → World) (s : Session) (t : MillisecondTimestamp) : Prop where
  setex : ∀ frame frame' k a v w, Issues "SETEX" [k, a, v] frame →
    Issues "SET" [k, v, w, a] frame' → w.map toUpper = ascii "EX" →
    (∀ n rest, fromChars a = .ok (n, rest) → InI64 (n.toInt * 1000)) →
    SameVerdict (replyStep env s frame).1 (replyStep env s frame').1 ∧
      (replyStep env s frame').2.db.content.SameShown t (replyStep env s frame).2.db.content
  psetex : ∀ frame frame' k a v w, Issues "PSETEX" [k, a, v] frame →
    Issues "SET" [k, v, w, a] frame' → w.map toUpper = ascii "PX" →
    SameVerdict (replyStep env s frame).1 (replyStep env s frame').1 ∧
      (replyStep env s frame').2.db.content.SameShown t (replyStep env s frame).2.db.content
  setnx : ∀ frame frame' k v w, Issues "SETNX" [k, v] frame → Issues "SET" [k, v, w] frame' →
    w.map toUpper = ascii "NX" →
    ((replyStep env s frame).1 = RespEncoder.integer 1 ∧
          (replyStep env s frame').1 = RespEncoder.ok ∨
        (replyStep env s frame).1 = RespEncoder.integer 0 ∧
          (replyStep env s frame').1 = RespEncoder.nil) ∧
      (replyStep env s frame').2.db.content.SameShown t (replyStep env s frame).2.db.content
  mset : ∀ frame frames words, Issues "MSET" words frame → SetFrames words frames →
    (replyStep env s frame).1 = RespEncoder.ok ∧
      (∀ bytes ∈ (Run.run (replyStep env) s frames).1, bytes = RespEncoder.ok) ∧
      (Run.run (replyStep env) s frames).2.db.content.SameShown t
        (replyStep env s frame).2.db.content
  msetUnpaired : ∀ frame words, Issues "MSET" words frame → words.length % 2 = 1 →
    (∃ message, (replyStep env s frame).1 = RespEncoder.error message) ∧
      (replyStep env s frame).2.db.content = s.db.content
  mget : ∀ frame frames words, Issues "MGET" words frame → GetFrames words frames →
    (replyStep env s frame).1 = RespEncoder.arrayHeader (Int64.ofNat frames.length) ++
        (Run.run (replyStep env) s frames).1.flatten ∧
      (Run.run (replyStep env) s frames).2.db.content.SameShown t
        (replyStep env s frame).2.db.content
  getset : ∀ frame getFrame setFrame k v, Issues "GETSET" [k, v] frame →
    Issues "GET" [k] getFrame → Issues "SET" [k, v] setFrame →
    (replyStep env s frame).1 = (replyStep env s getFrame).1 ∧
      (replyStep env s setFrame).2.db.content.SameShown t (replyStep env s frame).2.db.content
  incr : ∀ frame frame' k a, Issues "INCR" [k] frame → Issues "INCRBY" [k, a] frame' →
    Decimal.Numeral a 1 →
    (replyStep env s frame).1 = (replyStep env s frame').1 ∧
      (replyStep env s frame').2.db.content.SameShown t (replyStep env s frame).2.db.content
  decr : ∀ frame frame' k a, Issues "DECR" [k] frame → Issues "INCRBY" [k, a] frame' →
    Decimal.Numeral a (-1) →
    (replyStep env s frame).1 = (replyStep env s frame').1 ∧
      (replyStep env s frame').2.db.content.SameShown t (replyStep env s frame).2.db.content

/-- Commands that overlap agree, on every database that a server can reach. -/
theorem overlapping_commands_agree {P Q : DictParams} (hs : KevaDatabase.Reachable P Q s.db)
    (henv : ∀ i, (env i).nowMs = t) : CommandsAgree env s t where
  setex _ _ _ _ _ _ h h' hw hrange := setex_agrees henv h h' hw hrange
  psetex _ _ _ _ _ _ h h' hw := psetex_agrees henv h h' hw
  setnx _ _ _ _ _ h h' hw := setnx_agrees henv h h' hw
  mset _ _ _ h hframes := mset_agrees henv h hframes
  msetUnpaired _ _ h hodd := mset_odd_words h hodd
  mget _ _ _ h hframes := mget_agrees hs.healthy.canonical henv h hframes
  getset _ _ _ _ _ h hget hset := getset_agrees hs.healthy.canonical henv h hget hset
  incr _ _ _ _ h h' ha := incr_agrees h h' ha
  decr _ _ _ _ h h' ha := decr_agrees h h' ha

/-- From an empty server, `PSETEX k 5 v` and `SET k v px 5`. -/
theorem overlapping_commands_fresh :
    let env := fun _ : ℕ => World.still 10 0
    let frame := commandFrame [ascii "PSETEX", ascii "k", ascii "5", ascii "v"]
    let frame' := commandFrame [ascii "SET", ascii "k", ascii "v", ascii "px", ascii "5"]
    SameVerdict (replyStep env freshSession frame).1 (replyStep env freshSession frame').1 ∧
      (replyStep env freshSession frame').2.db.content.SameShown 10
        (replyStep env freshSession frame).2.db.content := by
  intro env frame frame'
  have hreach : KevaDatabase.Reachable (.exact fun _ => 0) (.exact fun _ => 0) freshSession.db :=
    .empty
  have henv : ∀ i, (env i).nowMs = 10 := fun _ => rfl
  exact (overlapping_commands_agree hreach henv).psetex frame frame' _ _ _ _
    ⟨_, _, rfl, rfl, rfl⟩ ⟨_, _, rfl, rfl, rfl⟩ (by decide)

end Keva
