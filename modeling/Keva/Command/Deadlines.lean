import Keva.Command.Counters

/-!
# Setting deadlines

SET with EX or PX, SETEX, PSETEX, EXPIRE, PEXPIRE and EXPIREAT turn an argument into an absolute
time in milliseconds and store it. None of them looks whether the time is an `i64`, and PTTL later
subtracts the clock from it.
-/

namespace Keva

open Session Handler

/-- The clock readings that are considered. -/
def ClockRange (t : MillisecondTimestamp) : Prop := 0 ≤ t.toInt ∧ t.toInt ≤ 2 ^ 62

/-- A lifetime given in units of `unit` milliseconds, unless it is refused. -/
def readLifetime (unit : ℤ) (amount : Bytes) : Option ℤ :=
  match fromChars amount with
  | .ok (n, _) => if n ≤ 0 then none else some (n.toInt * unit)
  | .error _ => none

/-- The lifetimes that the option loop of SET reads from element `i` on, as exact integers, unless
it refuses one. -/
def lifetimes (args : List RespValue) : ℕ → ℕ → Option (List ℤ)
  | 0, _ => some []
  | fuel + 1, i =>
      if i < args.length then
        let opt := (argStr args i).map toUpper
        if opt = ascii "EX" ∧ i + 1 < args.length then do
          let l ← readLifetime 1000 (argStr args (i + 1))
          let ls ← lifetimes args fuel (i + 2)
          some (l :: ls)
        else if opt = ascii "PX" ∧ i + 1 < args.length then do
          let l ← readLifetime 1 (argStr args (i + 1))
          let ls ← lifetimes args fuel (i + 2)
          some (l :: ls)
        else lifetimes args fuel (i + 1)
      else some []

/-- What `handle_set` is left with after reading these lifetimes: each overwrites the one before. -/
def lastLifetime (initial : Int64) (ls : List ℤ) : Int64 :=
  ls.foldl (fun _ l => Int64.ofInt l) initial

theorem lastLifetime_cons (initial : Int64) (l : ℤ) (ls : List ℤ) :
    lastLifetime initial (l :: ls) = lastLifetime (Int64.ofInt l) ls := rfl

theorem lastLifetime_concat (initial : Int64) (l : ℤ) (ls : List ℤ) :
    lastLifetime initial (ls ++ [l]) = Int64.ofInt l := by
  rw [lastLifetime, List.foldl_append]
  rfl

variable {env : ℕ → World} {s : Session} {k : Bytes} {args : List RespValue} {frame : RespValue}
  {name : String} {ls : List ℤ}

theorem readLifetime_eq_some {unit l : ℤ} {amount : Bytes} (h : readLifetime unit amount = some l) :
    ∃ n rest, fromChars amount = .ok (n, rest) ∧ ¬ n ≤ 0 ∧ 0 < n.toInt ∧ l = n.toInt * unit := by
  unfold readLifetime at h
  cases hn : fromChars amount with
  | error err =>
      rw [hn] at h
      cases h
  | ok r =>
      rw [hn] at h
      dsimp only at h
      split_ifs at h with hneg
      refine ⟨r.1, r.2, rfl, hneg, ?_, (Option.some.inj h).symm⟩
      rw [Int64.le_iff_toInt_le] at hneg
      have hzero : (0 : Int64).toInt = 0 := rfl
      omega

theorem cons_eq_some {first : Option ℤ} {rest : Option (List ℤ)} (h : (do
    let l ← first
    let ls ← rest
    some (l :: ls)) = some ls) : ∃ l ls', first = some l ∧ rest = some ls' ∧ ls = l :: ls' := by
  obtain ⟨l, hl, h⟩ := Option.bind_eq_some_iff.mp h
  obtain ⟨ls', hrest, h⟩ := Option.bind_eq_some_iff.mp h
  exact ⟨l, ls', hl, hrest, (Option.some.inj h).symm⟩

theorem setOptions_of_lifetimes (fuel : ℕ) {i : ℕ} (h : lifetimes args fuel i = some ls)
    (o : SetOptions) : ∃ o', setOptions args fuel i o = pure (some o') ∧
      o'.expireMs = lastLifetime o.expireMs ls := by
  induction fuel generalizing i o ls with
  | zero =>
      obtain rfl := Option.some.inj h
      exact ⟨o, rfl, rfl⟩
  | succ fuel ih =>
      unfold lifetimes at h
      unfold setOptions
      split_ifs at h ⊢ with hlt
      · rw [element_bind hlt]
        dsimp only at h ⊢
        split_ifs at h ⊢ with hex hpx hnx hxx
        · obtain ⟨l, rest, hl, hrest, rfl⟩ := cons_eq_some h
          obtain ⟨n, text, hn, hneg, -, rfl⟩ := readLifetime_eq_some hl
          obtain ⟨o', hrun, he⟩ := ih hrest { o with expireMs := n * 1000 }
          rw [element_bind hex.2, hn]
          dsimp only
          rw [if_neg hneg]
          refine ⟨o', hrun, he.trans ?_⟩
          rw [lastLifetime_cons, Int64.ofInt_mul, Int64.ofInt_toInt]
          rfl
        · obtain ⟨l, rest, hl, hrest, rfl⟩ := cons_eq_some h
          obtain ⟨n, text, hn, hneg, -, rfl⟩ := readLifetime_eq_some hl
          obtain ⟨o', hrun, he⟩ := ih hrest { o with expireMs := n }
          rw [element_bind hpx.2, hn]
          dsimp only
          rw [if_neg hneg]
          refine ⟨o', hrun, he.trans ?_⟩
          rw [lastLifetime_cons, Int.mul_one, Int64.ofInt_toInt]
        · obtain ⟨o', hrun, he⟩ := ih h { o with nx := true }
          exact ⟨o', hrun, he⟩
        · obtain ⟨o', hrun, he⟩ := ih h { o with xx := true }
          exact ⟨o', hrun, he⟩
        · exact ih h o
      · obtain rfl := Option.some.inj h
        exact ⟨o, rfl, rfl⟩

theorem readLifetime_eq_none {unit : ℤ} {amount : Bytes} (h : readLifetime unit amount = none) :
    (∃ err, fromChars amount = .error err) ∨
      ∃ n rest, fromChars amount = .ok (n, rest) ∧ n ≤ 0 := by
  unfold readLifetime at h
  cases hn : fromChars amount with
  | error err => exact .inl ⟨err, rfl⟩
  | ok r =>
      rw [hn] at h
      dsimp only at h
      split_ifs at h with hneg
      exact .inr ⟨r.1, r.2, rfl, hneg⟩

theorem rest_eq_none {first : Option ℤ} {rest : Option (List ℤ)} {l : ℤ} (h : (do
    let l ← first
    let ls ← rest
    some (l :: ls)) = none) (hl : first = some l) : rest = none := by
  rw [hl] at h
  cases rest with
  | none => rfl
  | some ls => cases h

theorem amount_of_refused {β : Type} {unit : ℤ} {amount : Bytes} {rest : Option (List ℤ)} {bad : β}
    {next : Int64 → β} (h : (do
      let l ← readLifetime unit amount
      let ls ← rest
      some (l :: ls)) = none) (hnext : rest = none → ∀ n, next n = bad) :
    (match fromChars amount with
      | .ok (n, _) => if n ≤ 0 then bad else next n
      | .error _ => bad) = bad := by
  cases hl : readLifetime unit amount with
  | none =>
      obtain ⟨err, hn⟩ | ⟨n, text, hn, hneg⟩ := readLifetime_eq_none hl
      · rw [hn]
      · rw [hn]
        exact if_pos hneg
  | some l =>
      obtain ⟨n, text, hn, hneg, -, -⟩ := readLifetime_eq_some hl
      rw [hn]
      dsimp only
      rw [if_neg hneg]
      exact hnext (rest_eq_none h hl) n

theorem setOptions_of_refused (fuel : ℕ) {i : ℕ} (h : lifetimes args fuel i = none)
    (o : SetOptions) : setOptions args fuel i o =
      reply (RespEncoder.error (invalidExpireMessage "set")) >>= fun _ => pure none := by
  induction fuel generalizing i o with
  | zero => cases h
  | succ fuel ih =>
      unfold lifetimes at h
      unfold setOptions
      split_ifs at h ⊢ with hlt
      rw [element_bind hlt]
      dsimp only at h ⊢
      split_ifs at h ⊢ with hex hpx hnx hxx
      · rw [element_bind hex.2]
        exact amount_of_refused h (fun hrest _ => ih hrest _)
      · rw [element_bind hpx.2]
        exact amount_of_refused h (fun hrest _ => ih hrest _)
      · exact ih h _
      · exact ih h _
      · exact ih h _

theorem pos_of_mem_lifetimes (fuel : ℕ) {i : ℕ} (h : lifetimes args fuel i = some ls) :
    ∀ l ∈ ls, 0 < l := by
  induction fuel generalizing i ls with
  | zero =>
      obtain rfl := Option.some.inj h
      simp
  | succ fuel ih =>
      unfold lifetimes at h
      split_ifs at h with hlt
      · dsimp only at h
        split_ifs at h with hex hpx
        · obtain ⟨l, rest, hl, hrest, rfl⟩ := cons_eq_some h
          obtain ⟨n, -, -, -, hpos, rfl⟩ := readLifetime_eq_some hl
          exact List.forall_mem_cons.mpr ⟨by omega, ih hrest⟩
        · obtain ⟨l, rest, hl, hrest, rfl⟩ := cons_eq_some h
          obtain ⟨n, -, -, -, hpos, rfl⟩ := readLifetime_eq_some hl
          exact List.forall_mem_cons.mpr ⟨by omega, ih hrest⟩
        · exact ih h
      · obtain rfl := Option.some.inj h
        simp

/-- The key is stored and has the deadline `e`. -/
structure Keyspace.Due (K : Keyspace) (k : Bytes) (e : MillisecondTimestamp) : Prop where
  stored : (K.objects k).isSome
  deadline : K.deadlines k = some e

theorem Keyspace.due_setExpire {K : Keyspace} (h : (K.objects k).isSome)
    (e : MillisecondTimestamp) : (K.setExpire k e).Due k e :=
  ⟨h, Function.update_self _ _ _⟩

variable {now : MillisecondTimestamp}

theorem exec_storeExpiring (henv : ∀ n, (env n).nowMs = now) (k v : Bytes) (ms : Int64)
    (s : Session) :
    let r := (exec env (do
      storeString k v
      let now ← nowMilliseconds
      setExpire k (now + ms)
      reply RespEncoder.ok) s).2
    r.output = s.output ++ RespEncoder.ok ∧ r.db.content.Due k (now + ms) := by
  refine ⟨rfl, ?_⟩
  obtain ⟨⟨clock, hstored⟩, -⟩ := @exec_storeString env k v s
  change ((exec env (storeString k v) s).2.db.setExpire k ((env _).nowMs + ms)).content.Due k _
  rw [henv, KevaDatabase.content_setExpire]
  apply Keyspace.due_setExpire
  rw [hstored]
  rfl

theorem exec_setWithLifetime {n : Int64} {rest : Bytes} (henv : ∀ n, (env n).nowMs = now)
    (h : 4 ≤ args.length) (hn : fromChars (argStr args 2) = .ok (n, rest)) (hpos : ¬ n ≤ 0)
    (command : String) (toMs : Int64 → Int64) (s : Session) :
    let r := (exec env (setWithLifetime command toMs args) s).2
    r.output = s.output ++ RespEncoder.ok ∧
      r.db.content.Due (argStr args 1) (now + toMs n) := by
  rw [setWithLifetime, element_bind (by omega), element_bind (by omega), element_bind (by omega),
    hn]
  dsimp only
  rw [if_neg hpos]
  exact exec_storeExpiring henv _ _ _ s

theorem exec_handleSet_of_lifetimes (henv : ∀ n, (env n).nowMs = now) (h : 3 ≤ args.length)
    (hls : lifetimes args args.length 3 = some ls) (s : Session) :
    let r := (exec env (handleSet args) s).2
    r.output = s.output ++ RespEncoder.nil ∨ r.output = s.output ++ RespEncoder.ok ∧
      (0 < lastLifetime (-1) ls →
        r.db.content.Due (argStr args 1) (now + lastLifetime (-1) ls)) := by
  obtain ⟨o, hopt, he⟩ := setOptions_of_lifetimes args.length hls ⟨-1, false, false⟩
  rw [← he, handleSet, element_bind (by omega), element_bind (by omega), hopt, pure_bind]
  dsimp only
  rw [exec_bind]
  have hsilent := silent_exists (argStr args 1) env s
  generalize exec env («exists» (argStr args 1)) s = r at hsilent ⊢
  rw [← hsilent]
  split_ifs with hnx hxx hpos
  · exact .inl rfl
  · exact .inl rfl
  · obtain ⟨hout, hdue⟩ := exec_storeExpiring henv (argStr args 1) (argStr args 2) o.expireMs r.2
    exact .inr ⟨hout, fun _ => hdue⟩
  · exact .inr ⟨rfl, fun hpos' => absurd hpos' hpos⟩

theorem exec_setDeadline {deadline : Int64 → Handler MillisecondTimestamp} {n : Int64}
    {rest : Bytes} {e : MillisecondTimestamp} (henv : ∀ n, (env n).nowMs = now)
    (h : 3 ≤ args.length) (hn : fromChars (argStr args 2) = .ok (n, rest))
    (hd : ∀ s', (exec env (deadline n) s').1 = e ∧ (exec env (deadline n) s').2.db = s'.db ∧
      (exec env (deadline n) s').2.output = s'.output) (s : Session) :
    let r := (exec env (setDeadline deadline args) s).2
    (¬ s.db.content.Live now (argStr args 1) ∧ r.output = s.output ++ RespEncoder.integer 0) ∨
      s.db.content.Live now (argStr args 1) ∧ r.output = s.output ++ RespEncoder.integer 1 ∧
        r.db.content.Due (argStr args 1) e := by
  rw [setDeadline, element_bind (by omega), element_bind (by omega), hn]
  dsimp only
  have hlive := @Keyspace.get_isSome_iff s.db.content now (argStr args 1) (env s.calls).time
  have hfst := @perform_get_fst env s (argStr args 1)
  have hcontent : (s.perform env (.get (argStr args 1))).2.db.content =
      (s.db.content.get (argStr args 1) (env s.calls).nowMs (env s.calls).time).2 :=
    content_perform s (.get (argStr args 1))
  rw [henv] at hfst hcontent
  change let r := (exec env (if !(s.perform env (.get (argStr args 1))).1.isSome then
      reply (RespEncoder.integer 0)
    else do
      let expireMs ← deadline n
      setExpire (argStr args 1) expireMs
      reply (RespEncoder.integer 1)) (s.perform env (.get (argStr args 1))).2).2
    (¬ s.db.content.Live now (argStr args 1) ∧ r.output = s.output ++ RespEncoder.integer 0) ∨
      s.db.content.Live now (argStr args 1) ∧ r.output = s.output ++ RespEncoder.integer 1 ∧
        r.db.content.Due (argStr args 1) e
  rw [hfst, ← hlive]
  cases ho : (s.db.content.get (argStr args 1) now (env s.calls).time).1 with
  | none => exact .inl ⟨Bool.false_ne_true, rfl⟩
  | some obj =>
      refine .inr ⟨rfl, ?_⟩
      obtain ⟨hfst', hdb, hout⟩ := hd (s.perform env (.get (argStr args 1))).2
      rw [Option.isSome_some, Bool.not_true, if_neg Bool.false_ne_true, exec_bind, hfst',
        exec_setExpire_bind]
      constructor
      · change (exec env (deadline n) _).2.output ++ _ = _
        rw [hout]
        rfl
      · change ((exec env (deadline n) _).2.db.setExpire (argStr args 1) e).content.Due _ e
        rw [hdb, KevaDatabase.content_setExpire]
        apply Keyspace.due_setExpire
        rw [hcontent, Keyspace.objects_of_get ho]
        rfl

/-- The command asks at time `now` for the exact deadlines `ds` one after the other, the last of
which is `d`. Only SET can ask for more than one. -/
inductive Schedules (now : ℤ) (args : List RespValue) : String → List ℤ → ℤ → Prop
  | set {ls : List ℤ} {l : ℤ} (h : lifetimes args args.length 3 = some (ls ++ [l])) :
      Schedules now args "SET" ((ls ++ [l]).map (now + ·)) (now + l)
  | setex {n : Int64} {rest : Bytes} (hn : fromChars (argStr args 2) = .ok (n, rest))
      (hpos : ¬ n ≤ 0) :
      Schedules now args "SETEX" [now + n.toInt * 1000] (now + n.toInt * 1000)
  | psetex {n : Int64} {rest : Bytes} (hn : fromChars (argStr args 2) = .ok (n, rest))
      (hpos : ¬ n ≤ 0) : Schedules now args "PSETEX" [now + n.toInt] (now + n.toInt)
  | expire {n : Int64} {rest : Bytes} (hn : fromChars (argStr args 2) = .ok (n, rest)) :
      Schedules now args "EXPIRE" [now + n.toInt * 1000] (now + n.toInt * 1000)
  | pexpire {n : Int64} {rest : Bytes} (hn : fromChars (argStr args 2) = .ok (n, rest)) :
      Schedules now args "PEXPIRE" [now + n.toInt] (now + n.toInt)
  | expireat {n : Int64} {rest : Bytes} (hn : fromChars (argStr args 2) = .ok (n, rest)) :
      Schedules now args "EXPIREAT" [n.toInt * 1000] (n.toInt * 1000)

def Accepted (reply : Bytes) : Prop := reply = RespEncoder.ok ∨ reply = RespEncoder.integer 1

/-- An accepted deadline is stored exactly, and PTTL tells the time left to it, or zero; a deadline
that is no `i64` is refused with an error, and nothing changes. -/
structure ExactDeadline (K K' : Keyspace) (now : MillisecondTimestamp) (k : Bytes) (ds : List ℤ)
    (d : ℤ) (reply : Bytes) : Prop where
  stored : (∀ z ∈ ds, InI64 z) → Accepted reply → ∃ e, K'.deadlines k = some e ∧ e.toInt = d ∧
    ∀ t, ClockRange t → InI64 (e.toInt - t.toInt) ∧ (K'.pttl k t).toInt = max (d - t.toInt) 0
  refused : ∀ z ∈ ds, ¬ InI64 z → (∃ message, reply = RespEncoder.error message) ∧
    ∀ j, K'.shown now j = K.shown now j

theorem pttl_of_due {K : Keyspace} {e t : MillisecondTimestamp} (h : K.Due k e)
    (hin : InI64 (e.toInt - t.toInt)) : (K.pttl k t).toInt = max (e.toInt - t.toInt) 0 := by
  obtain ⟨obj, ho⟩ := Option.isSome_iff_exists.mp h.stored
  have hsub := Int64.toInt_sub_eq_iff.mpr hin
  unfold Keyspace.pttl
  rw [ho, h.deadline]
  dsimp only
  split_ifs with hpos
  · rw [Int64.lt_iff_toInt_lt, hsub] at hpos
    have hzero : (0 : Int64).toInt = 0 := rfl
    rw [hsub]
    omega
  · rw [Int64.lt_iff_toInt_lt, hsub] at hpos
    have hzero : (0 : Int64).toInt = 0 := rfl
    omega

variable {K K' : Keyspace} {ds : List ℤ} {d : ℤ} {bytes : Bytes}

/-- A command that never refuses keeps to exact deadlines exactly when they are all `i64`s and the
one that it stores is not so far back that PTTL overflows. -/
theorem exactDeadline_iff_of_never_refuses
    (hreply : ∀ message, bytes ≠ RespEncoder.error message)
    (hstored : (∀ z ∈ ds, InI64 z) → Accepted bytes → ∃ e, K'.Due k e ∧ e.toInt = d)
    (haccepted : K.Live now k → -2 ^ 62 ≤ d ∨ Accepted bytes)
    (hlive : Accepted bytes → K.Live now k ∨ -2 ^ 62 ≤ d) :
    ExactDeadline K K' now k ds d bytes ↔
      (∀ z ∈ ds, InI64 z) ∧ (K.Live now k → -2 ^ 62 ≤ d) := by
  constructor
  · intro h
    have hds : ∀ z ∈ ds, InI64 z := by
      intro z hz
      by_contra hout
      obtain ⟨⟨message, herr⟩, -⟩ := h.refused z hz hout
      exact hreply message herr
    refine ⟨hds, fun hl => ?_⟩
    rcases haccepted hl with hd | hacc
    · exact hd
    · obtain ⟨e, -, rfl, hall⟩ := h.stored hds hacc
      have htop : (Int64.ofInt (2 ^ 62)).toInt = 2 ^ 62 := by decide
      obtain ⟨⟨hlo, -⟩, -⟩ := hall (Int64.ofInt (2 ^ 62)) ⟨by decide, by decide⟩
      omega
  · rintro ⟨hds, hd⟩
    refine ⟨fun _ hacc => ?_, fun z hz hout => absurd (hds z hz) hout⟩
    obtain ⟨e, hdue, rfl⟩ := hstored hds hacc
    have hlow : -2 ^ 62 ≤ e.toInt := (hlive hacc).elim hd id
    refine ⟨e, hdue.deadline, rfl, fun t ht => ?_⟩
    have hin : InI64 (e.toInt - t.toInt) := by
      have hrange := e.inI64_toInt
      obtain ⟨hnonneg, htop⟩ := ht
      unfold InI64 at hrange ⊢
      omega
    exact ⟨hin, pttl_of_due hdue hin⟩

theorem ne_error_of_head {b : UInt8} (h : bytes.head? = some b) (hb : b ≠ 45)
    (message : Bytes) : bytes ≠ RespEncoder.error message := by
  rintro rfl
  exact hb (Option.some.inj h).symm

theorem not_accepted_nil : ¬ Accepted RespEncoder.nil := by
  rintro (h | h)
  · exact absurd h (by decide)
  · exact absurd (congrArg List.head? h) (by decide)

theorem not_accepted_zero : ¬ Accepted (RespEncoder.integer 0) := by
  rintro (h | h)
  · exact absurd (congrArg List.head? h) (by decide)
  · exact absurd (integer_injective h) (by decide)

theorem toInt_ofInt_of_sum {l : ℤ} (hnow : ClockRange now) (hl : 0 < l)
    (hsum : InI64 (now.toInt + l)) : (Int64.ofInt l).toInt = l := by
  have hnonneg := hnow.1
  rw [Int64.toInt_ofInt_eq_iff]
  unfold InI64 at hsum ⊢
  omega

theorem exactDeadline_setWithLifetime {e : CommandEntry} {n : Int64} {rest : Bytes}
    {command : String} {toMs : Int64 → Int64} {l : ℤ} (henv : ∀ n, (env n).nowMs = now)
    (hnow : ClockRange now) (h : Requests name k frame args)
    (hfind : findCommand (ascii name) = some e)
    (hhandler : e.handler = setWithLifetime command toMs) (hlen : 4 ≤ args.length)
    (hn : fromChars (argStr args 2) = .ok (n, rest)) (hpos : ¬ n ≤ 0) (hl : 0 < l)
    (hms : toMs n = Int64.ofInt l) :
    ExactDeadline s.db.content (replyStep env s frame).2.db.content now k [now.toInt + l]
        (now.toInt + l) (replyStep env s frame).1 ↔
      (∀ z ∈ [now.toInt + l], InI64 z) ∧
        (s.db.content.Live now k → -2 ^ 62 ≤ now.toInt + l) := by
  obtain ⟨hout, hdue⟩ := exec_setWithLifetime henv hlen hn hpos command toMs s
  rw [← hhandler] at hout hdue
  have hreply := h.reply_eq hfind hout
  have hcontent : (replyStep env s frame).2.db.content = _ := h.content_eq hfind
  rw [← hcontent, h.key_eq, hms] at hdue
  have hlow : -2 ^ 62 ≤ now.toInt + l := by
    have := hnow.1
    omega
  rw [hreply]
  refine exactDeadline_iff_of_never_refuses (ne_error_of_head rfl (by decide)) ?_
    (fun _ => .inl hlow) (fun _ => .inr hlow)
  intro hin _
  have hsum := hin _ (List.mem_singleton.mpr rfl)
  have hofInt := toInt_ofInt_of_sum hnow hl hsum
  refine ⟨_, hdue, ?_⟩
  rw [Int64.toInt_add_eq_iff.mpr (hofInt.symm ▸ hsum), hofInt]

theorem exactDeadline_setDeadline {e : CommandEntry} {n : Int64} {rest : Bytes}
    {deadline : Int64 → Handler MillisecondTimestamp} (henv : ∀ n, (env n).nowMs = now)
    (h : Requests name k frame args) (hfind : findCommand (ascii name) = some e)
    (hhandler : e.handler = setDeadline deadline) (hlen : 3 ≤ args.length)
    (hn : fromChars (argStr args 2) = .ok (n, rest))
    (hd : ∀ s', (exec env (deadline n) s').1 = Int64.ofInt d ∧
      (exec env (deadline n) s').2.db = s'.db ∧
      (exec env (deadline n) s').2.output = s'.output) :
    ExactDeadline s.db.content (replyStep env s frame).2.db.content now k [d] d
        (replyStep env s frame).1 ↔
      (∀ z ∈ [d], InI64 z) ∧ (s.db.content.Live now k → -2 ^ 62 ≤ d) := by
  have hexec := exec_setDeadline henv hlen hn hd s
  have hcontent : (replyStep env s frame).2.db.content = _ := h.content_eq hfind
  rw [← hhandler, h.key_eq] at hexec
  dsimp only at hexec
  rw [← hcontent] at hexec
  obtain ⟨hdead, hout⟩ | ⟨hlive, hout, hdue⟩ := hexec
  · rw [h.reply_eq hfind hout]
    exact exactDeadline_iff_of_never_refuses (ne_error_of_head rfl (by decide))
      (fun _ hacc => absurd hacc not_accepted_zero) (fun hl => absurd hl hdead)
      (fun hacc => absurd hacc not_accepted_zero)
  · rw [h.reply_eq hfind hout]
    refine exactDeadline_iff_of_never_refuses (ne_error_of_head rfl (by decide)) ?_
      (fun _ => .inr (.inr rfl)) (fun _ => .inl hlive)
    intro hin _
    exact ⟨_, hdue, Int64.toInt_ofInt_eq_iff.mpr (hin _ (List.mem_singleton.mpr rfl))⟩

theorem exactDeadline_set {l : ℤ} (henv : ∀ n, (env n).nowMs = now) (hnow : ClockRange now)
    (h : Requests "SET" k frame args)
    (hls : lifetimes args args.length 3 = some (ls ++ [l])) :
    ExactDeadline s.db.content (replyStep env s frame).2.db.content now k
        ((ls ++ [l]).map (now.toInt + ·)) (now.toInt + l) (replyStep env s frame).1 ↔
      (∀ z ∈ (ls ++ [l]).map (now.toInt + ·), InI64 z) ∧
        (s.db.content.Live now k → -2 ^ 62 ≤ now.toInt + l) := by
  let e : CommandEntry := ⟨ascii "SET", handleSet, 3, -1, true⟩
  obtain ⟨ha, -⟩ := h.exec (e := e) rfl env s
  have hexec := exec_handleSet_of_lifetimes henv (le_length_of_admits ha rfl) hls s
  have hcontent : (replyStep env s frame).2.db.content = _ := h.content_eq (e := e) rfl
  rw [h.key_eq, lastLifetime_concat] at hexec
  have hl : 0 < l := pos_of_mem_lifetimes args.length hls l (by simp)
  have hlow : -2 ^ 62 ≤ now.toInt + l := by
    have := hnow.1
    omega
  obtain hout | ⟨hout, hdue⟩ := hexec
  · rw [h.reply_eq (e := e) rfl hout]
    exact exactDeadline_iff_of_never_refuses (ne_error_of_head rfl (by decide))
      (fun _ hacc => absurd hacc not_accepted_nil) (fun _ => .inl hlow) (fun _ => .inr hlow)
  · rw [h.reply_eq (e := e) rfl hout]
    refine exactDeadline_iff_of_never_refuses (ne_error_of_head rfl (by decide)) ?_
      (fun _ => .inl hlow) (fun _ => .inr hlow)
    intro hin _
    have hsum := hin (now.toInt + l) (by simp)
    have hofInt := toInt_ofInt_of_sum hnow hl hsum
    have hpos : 0 < Int64.ofInt l := by
      rw [Int64.lt_iff_toInt_lt, hofInt]
      exact hl
    refine ⟨now + Int64.ofInt l, ?_, ?_⟩
    · rw [hcontent]
      exact hdue hpos
    · rw [Int64.toInt_add_eq_iff.mpr (hofInt.symm ▸ hsum), hofInt]

theorem exactDeadline_of_schedules (env : ℕ → World) (s : Session)
    (henv : ∀ n, (env n).nowMs = now) (hnow : ClockRange now) (h : Requests name k frame args)
    (hs : Schedules now.toInt args name ds d) :
    ExactDeadline s.db.content (replyStep env s frame).2.db.content now k ds d
        (replyStep env s frame).1 ↔
      (∀ z ∈ ds, InI64 z) ∧ (s.db.content.Live now k → -2 ^ 62 ≤ d) := by
  cases hs with
  | set hls => exact exactDeadline_set henv hnow h hls
  | @setex n rest hn hpos =>
      let e : CommandEntry := ⟨ascii "SETEX", handleSetex, 4, 4, true⟩
      obtain ⟨ha, -⟩ := h.exec (e := e) rfl env s
      have hl : 0 < n.toInt * 1000 := by
        rw [Int64.le_iff_toInt_le] at hpos
        have hzero : (0 : Int64).toInt = 0 := rfl
        omega
      refine exactDeadline_setWithLifetime (e := e) henv hnow h rfl rfl
        (le_length_of_admits ha rfl) hn hpos hl ?_
      rw [Int64.ofInt_mul, Int64.ofInt_toInt]
      rfl
  | @psetex n rest hn hpos =>
      let e : CommandEntry := ⟨ascii "PSETEX", handlePsetex, 4, 4, true⟩
      obtain ⟨ha, -⟩ := h.exec (e := e) rfl env s
      have hl : 0 < n.toInt := by
        rw [Int64.le_iff_toInt_le] at hpos
        have hzero : (0 : Int64).toInt = 0 := rfl
        omega
      exact exactDeadline_setWithLifetime (e := e) henv hnow h rfl rfl
        (le_length_of_admits ha rfl) hn hpos hl (Int64.ofInt_toInt n).symm
  | @expire n rest hn =>
      let e : CommandEntry := ⟨ascii "EXPIRE", handleExpire, 3, 3, true⟩
      obtain ⟨ha, -⟩ := h.exec (e := e) rfl env s
      refine exactDeadline_setDeadline (e := e) henv h rfl rfl (le_length_of_admits ha rfl) hn
        fun s' => ⟨?_, rfl, rfl⟩
      change (env _).nowMs + n * 1000 = _
      rw [henv, Int64.ofInt_add, Int64.ofInt_mul, Int64.ofInt_toInt, Int64.ofInt_toInt]
      rfl
  | @pexpire n rest hn =>
      let e : CommandEntry := ⟨ascii "PEXPIRE", handlePexpire, 3, 3, true⟩
      obtain ⟨ha, -⟩ := h.exec (e := e) rfl env s
      refine exactDeadline_setDeadline (e := e) henv h rfl rfl (le_length_of_admits ha rfl) hn
        fun s' => ⟨?_, rfl, rfl⟩
      change (env _).nowMs + n = _
      rw [henv, Int64.ofInt_add, Int64.ofInt_toInt, Int64.ofInt_toInt]
  | @expireat n rest hn =>
      let e : CommandEntry := ⟨ascii "EXPIREAT", handleExpireat, 3, 3, true⟩
      obtain ⟨ha, -⟩ := h.exec (e := e) rfl env s
      refine exactDeadline_setDeadline (e := e) henv h rfl rfl (le_length_of_admits ha rfl) hn
        fun s' => ⟨?_, rfl, rfl⟩
      change n * 1000 = _
      rw [Int64.ofInt_mul, Int64.ofInt_toInt]
      rfl

/-- The commands that take only positive lifetimes refuse this one. -/
inductive Declines (args : List RespValue) : String → Prop
  | set (h : lifetimes args args.length 3 = none) : Declines args "SET"
  | setex {n : Int64} {rest : Bytes} (hn : fromChars (argStr args 2) = .ok (n, rest))
      (hneg : n ≤ 0) : Declines args "SETEX"
  | psetex {n : Int64} {rest : Bytes} (hn : fromChars (argStr args 2) = .ok (n, rest))
      (hneg : n ≤ 0) : Declines args "PSETEX"

theorem setWithLifetime_of_nonpos {n : Int64} {rest : Bytes} (h : 4 ≤ args.length)
    (hn : fromChars (argStr args 2) = .ok (n, rest)) (hneg : n ≤ 0) (command : String)
    (toMs : Int64 → Int64) : setWithLifetime command toMs args =
      reply (RespEncoder.error (invalidExpireMessage command)) := by
  rw [setWithLifetime, element_bind (by omega), element_bind (by omega), element_bind (by omega),
    hn]
  exact if_pos hneg

theorem refused_of_declines (env : ℕ → World) (s : Session) (h : Requests name k frame args)
    (hd : Declines args name) : (∃ message, (replyStep env s frame).1 = RespEncoder.error message) ∧
      (replyStep env s frame).2.db.content = s.db.content := by
  cases hd with
  | set hls =>
      let e : CommandEntry := ⟨ascii "SET", handleSet, 3, -1, true⟩
      obtain ⟨ha, -⟩ := h.exec (e := e) rfl env s
      have hlen : 3 ≤ args.length := le_length_of_admits ha rfl
      have hhandler : e.handler args =
          reply (RespEncoder.error (invalidExpireMessage "set")) := by
        change handleSet args = _
        rw [handleSet, element_bind (by omega), element_bind (by omega),
          setOptions_of_refused _ hls]
        rfl
      obtain ⟨hreply, hcontent⟩ := @replyStep_of_reply env s k args frame _ e _ h rfl hhandler
      exact ⟨⟨_, hreply⟩, hcontent⟩
  | setex hn hneg =>
      let e : CommandEntry := ⟨ascii "SETEX", handleSetex, 4, 4, true⟩
      obtain ⟨ha, -⟩ := h.exec (e := e) rfl env s
      obtain ⟨hreply, hcontent⟩ := @replyStep_of_reply env s k args frame _ e _ h rfl
        (setWithLifetime_of_nonpos (le_length_of_admits ha rfl) hn hneg "setex" _)
      exact ⟨⟨_, hreply⟩, hcontent⟩
  | psetex hn hneg =>
      let e : CommandEntry := ⟨ascii "PSETEX", handlePsetex, 4, 4, true⟩
      obtain ⟨ha, -⟩ := h.exec (e := e) rfl env s
      obtain ⟨hreply, hcontent⟩ := @replyStep_of_reply env s k args frame _ e _ h rfl
        (setWithLifetime_of_nonpos (le_length_of_admits ha rfl) hn hneg "psetex" _)
      exact ⟨⟨_, hreply⟩, hcontent⟩

/-- No command looks whether the deadline is an `i64`, and PTTL goes wrong on deadlines far back. A
lifetime that is declined changes nothing. -/
theorem exactDeadline_iff (env : ℕ → World) (s : Session) (henv : ∀ n, (env n).nowMs = now)
    (hnow : ClockRange now) (h : Requests name k frame args) :
    (∀ ds d, Schedules now.toInt args name ds d →
      (ExactDeadline s.db.content (replyStep env s frame).2.db.content now k ds d
          (replyStep env s frame).1 ↔
        (∀ z ∈ ds, InI64 z) ∧ (s.db.content.Live now k → -2 ^ 62 ≤ d))) ∧
    (Declines args name → (∃ message, (replyStep env s frame).1 = RespEncoder.error message) ∧
      (replyStep env s frame).2.db.content = s.db.content) :=
  ⟨fun _ _ hs => exactDeadline_of_schedules env s henv hnow h hs,
    fun hd => refused_of_declines env s h hd⟩

theorem exactDeadline_psetex :
    let env := fun _ : ℕ => World.still 10 0
    let k := ascii "k"
    let frame := commandFrame [ascii "PSETEX", k, ascii "5", ascii "v"]
    ExactDeadline freshSession.db.content (replyStep env freshSession frame).2.db.content 10 k [15]
      15 (replyStep env freshSession frame).1 := by
  intro env k frame
  have hreq : Requests "PSETEX" k frame frame.elements :=
    requests_commandFrame "PSETEX" ⟨_, rfl, rfl⟩
  have hn : fromChars (argStr frame.elements 2) = .ok (5, []) := by decide +kernel
  have hs : Schedules (10 : Int64).toInt frame.elements "PSETEX" [15] 15 := .psetex hn (by decide)
  exact ((exactDeadline_iff env freshSession (fun _ => rfl) ⟨by decide, by decide⟩ hreq).1 _ _
    hs).mpr ⟨by decide, fun _ => by decide⟩

/-- A lifetime of more than nine thousand million million seconds is accepted, and the key is gone
at once. -/
theorem setex_overflows :
    let env := fun _ : ℕ => World.still 10 0
    let k := ascii "k"
    let frame := commandFrame [ascii "SETEX", k, ascii "9223372036854776", ascii "v"]
    let stored := replyStep env freshSession frame
    ¬ InI64 (10 + 9223372036854776 * 1000) ∧ stored.1 = RespEncoder.ok ∧
      (replyStep env stored.2 (commandFrame [ascii "GET", k])).1 = RespEncoder.nil := by
  refine ⟨?_, ?_, ?_⟩ <;> decide +kernel

end Keva
