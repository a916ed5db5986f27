import Keva.Command.SetGrammar

/-!
# Numeric arguments

INCRBY, DECRBY, SETEX, PSETEX, EXPIRE, PEXPIRE, EXPIREAT, SELECT and the lifetimes of SET read a
number with `from_chars` and look only at its error code. A numeral as a whole is taken as its
value. A numeral with something behind it is taken as its value too, where `try_parse_int` also
demands that everything was read.
-/

namespace Keva

open Session Handler

/-- The option loop of SET comes to element `i` and expects an option there. -/
inductive OptionPlace (args : List RespValue) : ℕ → Prop
  | first : OptionPlace args 3
  | lifetime {i : ℕ} (h : OptionPlace args i) (hword : IsLifetimeWord (argStr args i))
      (hi : i + 1 < args.length) : OptionPlace args (i + 2)
  | other {i : ℕ} (h : OptionPlace args i)
      (hword : ¬ (IsLifetimeWord (argStr args i) ∧ i + 1 < args.length)) : OptionPlace args (i + 1)

/-- The commands with numeric arguments. -/
inductive NumericCommand
  | incrby
  | decrby
  | set
  | setex
  | psetex
  | expire
  | pexpire
  | expireat
  | select

def NumericCommand.name : NumericCommand → String
  | incrby => "INCRBY"
  | decrby => "DECRBY"
  | set => "SET"
  | setex => "SETEX"
  | psetex => "PSETEX"
  | expire => "EXPIRE"
  | pexpire => "PEXPIRE"
  | expireat => "EXPIREAT"
  | select => "SELECT"

/-- Element `i` is a numeric argument of the command. -/
inductive NumericArgument (args : List RespValue) : NumericCommand → ℕ → Prop
  | incrby : NumericArgument args .incrby 2
  | decrby : NumericArgument args .decrby 2
  | set {i : ℕ} (h : OptionPlace args i) (hword : IsLifetimeWord (argStr args i))
      (hi : i + 1 < args.length) : NumericArgument args .set (i + 1)
  | setex : NumericArgument args .setex 2
  | psetex : NumericArgument args .psetex 2
  | expire : NumericArgument args .expire 2
  | pexpire : NumericArgument args .pexpire 2
  | expireat : NumericArgument args .expireat 2
  | select : NumericArgument args .select 1

/-- The elements with the number `n`, in its plain decimal form, in place `i`. -/
def withNumber (args : List RespValue) (i : ℕ) (n : Int64) : List RespValue :=
  args.set i (.bulkString (toChars n))

/-- The reply is an error, and nothing shown now or later has changed. -/
def ArgumentRefused (env : ℕ → World) (s : Session) (frame : RespValue) : Prop :=
  (∃ message, (replyStep env s frame).1 = RespEncoder.error message) ∧
    s.db.content.Unchanged (env s.calls).nowMs (replyStep env s frame).2.db.content

/-- The argument in place `i` is a numeral as a whole, and the command does what it does for the
plain numeral of that number, or it is refused. -/
structure TakenWhole (env : ℕ → World) (s : Session) (frame : RespValue) (args : List RespValue)
    (i : ℕ) : Prop where
  whole : ∀ n : Int64, Decimal.Numeral (argStr args i) n.toInt →
    replyStep env s frame = replyStep env s (.array (withNumber args i n))
  refused : (∀ n : Int64, ¬ Decimal.Numeral (argStr args i) n.toInt) → ArgumentRefused env s frame

/-- The command refuses the number itself. INCRBY and DECRBY refuse every number when the value is
no integer, and SET refuses all its numbers when it refuses one of them. -/
inductive DeclinesNumber (K : Keyspace) (t : MillisecondTimestamp) (args : List RespValue)
    (n : Int64) : NumericCommand → Prop
  | incrby (h : ∀ c, K.counterValue t (argStr args 1) = some c → ¬ InI64 (c.toInt + n.toInt)) :
      DeclinesNumber K t args n .incrby
  | decrby (h : K.counterValue t (argStr args 1) = none) : DeclinesNumber K t args n .decrby
  | set (h : RefusedWords (wordsFrom args 3)) : DeclinesNumber K t args n .set
  | setex (h : n ≤ 0) : DeclinesNumber K t args n .setex
  | psetex (h : n ≤ 0) : DeclinesNumber K t args n .psetex
  | select (h : n ≠ 0) : DeclinesNumber K t args n .select

variable {args : List RespValue} {env : ℕ → World} {s : Session} {k : Bytes} {frame : RespValue}
  {name : String} {e : CommandEntry} {i j : ℕ} {n : Int64} {rest : Bytes}

theorem length_withNumber (args : List RespValue) (i : ℕ) (n : Int64) :
    (withNumber args i n).length = args.length := List.length_set

theorem argStr_withNumber_self (hi : i < args.length) (n : Int64) :
    argStr (withNumber args i n) i = toChars n := by
  unfold argStr withNumber
  rw [List.getElem?_set_self hi]
  rfl

theorem argStr_withNumber_of_ne (hij : i ≠ j) (n : Int64) :
    argStr (withNumber args i n) j = argStr args j := by
  unfold argStr withNumber
  rw [List.getElem?_set_ne hij]

theorem fromChars_withNumber (hi : i < args.length) (n : Int64) :
    fromChars (argStr (withNumber args i n) i) = .ok (n, []) := by
  rw [argStr_withNumber_self hi, fromChars_toChars_self]

theorem replyStep_withNumber (h : Requests name k frame args)
    (hfind : findCommand (ascii name) = some e) (hi : 0 < i)
    (hhandler : e.handler (withNumber args i n) = e.handler args) :
    replyStep env s frame = replyStep env s (.array (withNumber args i n)) := by
  obtain ⟨entry, hframe, hname⟩ := h.frame_eq
  have hentry := (findCommand_of_frameCommand hframe).1
  rw [hname, hfind] at hentry
  obtain rfl := Option.some.inj hentry
  obtain ⟨heq, -⟩ := executeFrame_of_some hframe
  obtain ⟨word, rest, -, rfl, hc, ha⟩ := frameCommand_shape hframe
  obtain ⟨i, rfl⟩ : ∃ i', i = i' + 1 := ⟨i - 1, by omega⟩
  have hcommand : frameCommand (.array (withNumber (.bulkString word :: rest) (i + 1) n)) =
      some (e, withNumber (.bulkString word :: rest) (i + 1) n) := by
    unfold CommandEntry.admits at ha
    rw [← length_withNumber _ (i + 1) n] at ha
    exact frameCommand_of_findCommand hc ha
  obtain ⟨heq', -⟩ := executeFrame_of_some hcommand
  unfold replyStep
  rw [heq, heq', runCommand, runCommand, hhandler]

theorem OptionPlace.le (h : OptionPlace args i) : 3 ≤ i := by
  induction h with
  | first => omega
  | lifetime h hword hi ih => omega
  | other h hword ih => omega

theorem OptionPlace.not_amount (h : OptionPlace args i) (hword : IsLifetimeWord (argStr args i))
    (hi : i + 1 < args.length) : ¬ OptionPlace args (i + 1) := by
  induction i with
  | zero => exact absurd h.le (by omega)
  | succ p ih =>
      intro hnext
      cases hnext with
      | first => exact absurd h.le (by omega)
      | lifetime hp hpword hpi => exact ih hp hpword hpi h
      | other hp hpword => exact hpword ⟨hword, hi⟩

/-- Both argument lists read alike for the option loop. -/
structure SameOptions (args args' : List RespValue) : Prop where
  length_eq : args'.length = args.length
  word_eq : ∀ i, OptionPlace args i → argStr args' i = argStr args i
  amount_eq : ∀ i, OptionPlace args i → IsLifetimeWord (argStr args i) → i + 1 < args.length →
    (fromChars (argStr args' (i + 1))).map Prod.fst = (fromChars (argStr args (i + 1))).map Prod.fst

theorem match_congr {α : Type} {x x' : Except Errc (Int64 × Bytes)} (bad : α)
    {next next' : Int64 → α} (hnext : ∀ n, next' n = next n) :
    x'.map Prod.fst = x.map Prod.fst →
    (match x' with
      | .ok (n, _) => if n ≤ 0 then bad else next' n
      | .error _ => bad) =
    (match x with
      | .ok (n, _) => if n ≤ 0 then bad else next n
      | .error _ => bad) := by
  intro h
  cases x with
  | error err =>
      cases x' with
      | error err' => rfl
      | ok r' => cases h
  | ok r =>
      cases x' with
      | error err' => cases h
      | ok r' =>
          dsimp only
          rw [Except.ok.inj h, hnext]

theorem setOptions_congr {args' : List RespValue} (h : SameOptions args args') (fuel : ℕ)
    (hi : OptionPlace args i) (o : SetOptions) :
    setOptions args' fuel i o = setOptions args fuel i o := by
  induction fuel generalizing i o with
  | zero => rfl
  | succ fuel ih =>
      unfold setOptions
      rw [h.length_eq]
      split_ifs with hlt
      · have hlt' : i < args'.length := h.length_eq.symm ▸ hlt
        rw [element_bind hlt, element_bind hlt', h.word_eq i hi]
        dsimp only
        split_ifs with hex hpx hnx hxx
        · rw [element_bind hex.2, element_bind (by rw [h.length_eq]; exact hex.2)]
          exact match_congr _ (fun n => ih (.lifetime hi (.inl hex.1) hex.2) _)
            (h.amount_eq i hi (.inl hex.1) hex.2)
        · rw [element_bind hpx.2, element_bind (by rw [h.length_eq]; exact hpx.2)]
          exact match_congr _ (fun n => ih (.lifetime hi (.inr hpx.1) hpx.2) _)
            (h.amount_eq i hi (.inr hpx.1) hpx.2)
        all_goals
          refine ih (.other hi ?_) _
          rintro ⟨hword | hword, hnext⟩
          · exact hex ⟨hword, hnext⟩
          · exact hpx ⟨hword, hnext⟩
      · rfl

theorem sameOptions_withNumber (h : OptionPlace args i) (hword : IsLifetimeWord (argStr args i))
    (hi : i + 1 < args.length) (hn : fromChars (argStr args (i + 1)) = .ok (n, [])) :
    SameOptions args (withNumber args (i + 1) n) where
  length_eq := length_withNumber args (i + 1) n
  word_eq j hj := by
    refine argStr_withNumber_of_ne ?_ n
    rintro rfl
    exact h.not_amount hword hi hj
  amount_eq j _ _ hj := by
    by_cases heq : i + 1 = j + 1
    · rw [← heq, fromChars_withNumber hi, hn]
    · rw [argStr_withNumber_of_ne heq]

theorem handleSet_withNumber (h : OptionPlace args i) (hword : IsLifetimeWord (argStr args i))
    (hi : i + 1 < args.length) (hn : fromChars (argStr args (i + 1)) = .ok (n, [])) :
    handleSet (withNumber args (i + 1) n) = handleSet args := by
  have hle := h.le
  have hsame := sameOptions_withNumber h hword hi hn
  rw [handleSet, handleSet, element_bind (by rw [hsame.length_eq]; omega),
    element_bind (by rw [hsame.length_eq]; omega), element_bind (by omega),
    element_bind (by omega), setOptions_congr hsame _ .first, hsame.length_eq,
    argStr_withNumber_of_ne (by omega), argStr_withNumber_of_ne (by omega)]

theorem refusedWords_of_place (h : OptionPlace args i) (hr : RefusedWords (wordsFrom args i)) :
    RefusedWords (wordsFrom args 3) := by
  induction h with
  | first => exact hr
  | @lifetime i h hword hi ih =>
      apply ih
      rw [wordsFrom_of_lt (by omega), wordsFrom_of_lt hi]
      exact .lifetime hword hr
  | @other i h hword ih =>
      have hlast : i + 1 < args.length := by
        by_contra hge
        rw [wordsFrom_of_le (not_lt.mp hge)] at hr
        cases hr
      apply ih
      rw [wordsFrom_of_lt (by omega)]
      exact .other (fun hlife => hword ⟨hlife, hlast⟩) hr

/-- What has to be known of a command: that it takes a numeral as its value, refuses what
`from_chars` refuses, and on what numbers it replies with an error. -/
theorem takenWhole_iff_of {D : Int64 → Prop} (h : Requests name k frame args)
    (hfind : findCommand (ascii name) = some e) (hi : 0 < i)
    (hwhole : ∀ n, fromChars (argStr args i) = .ok (n, []) →
      e.handler (withNumber args i n) = e.handler args)
    (herror : ∀ err, fromChars (argStr args i) = .error err → ArgumentRefused env s frame)
    (hok : ∀ n rest, fromChars (argStr args i) = .ok (n, rest) →
      (ArgumentRefused env s frame ↔ D n)) :
    TakenWhole env s frame args i ↔
      ∀ n rest, fromChars (argStr args i) = .ok (n, rest) → rest ≠ [] → D n := by
  constructor
  · intro htaken n rest hn hrest
    apply (hok n rest hn).mp
    apply htaken.refused
    intro m hm
    have heq := (fromChars_eq_ok_nil_iff.mpr hm).symm.trans hn
    exact hrest (Prod.mk.inj (Except.ok.inj heq)).2.symm
  · intro hdeclines
    constructor
    · intro n hn
      exact replyStep_withNumber h hfind hi (hwhole n (fromChars_eq_ok_nil_iff.mpr hn))
    · intro hnone
      cases hread : fromChars (argStr args i) with
      | error err => exact herror err hread
      | ok r =>
          obtain ⟨n, rest⟩ := r
          apply (hok n rest hread).mpr
          apply hdeclines n rest hread
          rintro rfl
          exact hnone n (fromChars_eq_ok_nil_iff.mp hread)

theorem refused_of_reply {message : Bytes} (h : Requests name k frame args)
    (hfind : findCommand (ascii name) = some e)
    (hhandler : e.handler args = reply (RespEncoder.error message)) :
    ArgumentRefused env s frame := by
  obtain ⟨hreply, hcontent⟩ := @replyStep_of_reply env s k args frame name e _ h hfind hhandler
  refine ⟨⟨message, hreply⟩, fun T _ j => ?_⟩
  rw [hcontent]

theorem not_refused_of_output {bytes : Bytes} {b : UInt8} (h : Requests name k frame args)
    (hfind : findCommand (ascii name) = some e)
    (hout : (exec env (e.handler args) s).2.output = s.output ++ bytes)
    (hhead : bytes.head? = some b) (hb : b ≠ 45) : ¬ ArgumentRefused env s frame := by
  rintro ⟨⟨message, herr⟩, -⟩
  rw [h.reply_eq hfind hout] at herr
  exact ne_error_of_head hhead hb message herr

theorem refused_updateCounter_iff {refuses : Int64 → Bool} {next : Int64 → Int64}
    (h : Requests name k frame args) (hfind : findCommand (ascii name) = some e)
    (hhandler : e.handler args = updateCounter (argStr args 1) refuses next) :
    ArgumentRefused env s frame ↔ ∀ c,
      s.db.content.counterValue (env s.calls).nowMs (argStr args 1) = some c →
        refuses c = true := by
  have hcontent : (replyStep env s frame).2.db.content = _ := h.content_eq hfind
  rw [hhandler] at hcontent
  cases hc : s.db.content.counterValue (env s.calls).nowMs (argStr args 1) with
  | none =>
      refine iff_of_true ⟨⟨notIntegerMessage, ?_⟩, fun T hT j => ?_⟩ (fun c hc => by cases hc)
      · apply h.reply_eq hfind
        rw [hhandler, updateCounter, exec_get_bind, perform_get_fst, getIntegerObj_get, hc]
        rfl
      · rw [hcontent, updateCounter, exec_get_bind, perform_get_fst, getIntegerObj_get, hc]
        refine Eq.trans ?_ (Keyspace.shown_get_of_le hT (argStr args 1) (env s.calls).time j)
        exact congrArg (fun K => K.shown T j) (content_perform s (.get (argStr args 1)))
  | some c =>
      have hexec := @exec_updateCounter env s (argStr args 1) refuses next c hc
      dsimp only at hexec
      split_ifs at hexec with hrefuses
      · refine iff_of_true ⟨⟨wouldOverflowMessage, ?_⟩, fun T hT j => ?_⟩ ?_
        · apply h.reply_eq hfind
          rw [hhandler]
          exact hexec.1
        · rw [hcontent, hexec.2]
          exact Keyspace.shown_get_of_le hT _ _ j
        · intro c' hc'
          rwa [← Option.some.inj hc']
      · refine iff_of_false ?_ (fun hall => hrefuses (hall c rfl))
        rw [← hhandler] at hexec
        exact not_refused_of_output h hfind hexec.1 (head_integer _) (by decide)

theorem takenWhole_setWithLifetime {command : String} {toMs : Int64 → Int64}
    (h : Requests name k frame args) (hfind : findCommand (ascii name) = some e)
    (hhandler : e.handler = setWithLifetime command toMs) (hlen : 4 ≤ args.length) :
    TakenWhole env s frame args 2 ↔
      ∀ n rest, fromChars (argStr args 2) = .ok (n, rest) → rest ≠ [] → n ≤ 0 := by
  refine takenWhole_iff_of h hfind (by omega) ?_ ?_ ?_
  · intro n hn
    have hlen' : 4 ≤ (withNumber args 2 n).length := by rwa [length_withNumber]
    rw [hhandler, setWithLifetime, setWithLifetime, element_bind (by omega),
      element_bind (by omega), element_bind (by omega), element_bind (by omega),
      element_bind (by omega), element_bind (by omega), fromChars_withNumber (by omega), hn,
      argStr_withNumber_of_ne (by omega), argStr_withNumber_of_ne (by omega)]
  · intro err herr
    apply refused_of_reply h hfind
    rw [hhandler, setWithLifetime, element_bind (by omega), element_bind (by omega),
      element_bind (by omega), herr]
  · intro n rest hn
    by_cases hneg : n ≤ 0
    · refine iff_of_true ?_ hneg
      apply refused_of_reply h hfind
      rw [hhandler]
      exact setWithLifetime_of_nonpos hlen hn hneg command toMs
    · refine iff_of_false ?_ hneg
      have hout : (exec env (e.handler args) s).2.output = s.output ++ RespEncoder.ok := by
        rw [hhandler, setWithLifetime, element_bind (by omega), element_bind (by omega),
          element_bind (by omega), hn]
        dsimp only
        rw [if_neg hneg]
        rfl
      exact not_refused_of_output h hfind hout rfl (by decide)

theorem takenWhole_setDeadline {deadline : Int64 → Handler MillisecondTimestamp}
    (h : Requests name k frame args) (hfind : findCommand (ascii name) = some e)
    (hhandler : e.handler = setDeadline deadline) (hlen : 3 ≤ args.length)
    (hd : ∀ n s', (exec env (deadline n) s').2.output = s'.output) :
    TakenWhole env s frame args 2 ↔
      ∀ n rest, fromChars (argStr args 2) = .ok (n, rest) → rest ≠ [] → False := by
  refine takenWhole_iff_of h hfind (by omega) ?_ ?_ ?_
  · intro n hn
    have hlen' : 3 ≤ (withNumber args 2 n).length := by rwa [length_withNumber]
    rw [hhandler, setDeadline, setDeadline, element_bind (by omega), element_bind (by omega),
      element_bind (by omega), element_bind (by omega), fromChars_withNumber (by omega), hn,
      argStr_withNumber_of_ne (by omega)]
  · intro err herr
    apply refused_of_reply h hfind
    rw [hhandler, setDeadline, element_bind (by omega), element_bind (by omega), herr]
  · intro n rest hn
    refine iff_of_false ?_ id
    have hexec : exec env (e.handler args) s =
        exec env (if !(s.perform env (.get (argStr args 1))).1.isSome then
          reply (RespEncoder.integer 0)
        else do
          let expireMs ← deadline n
          setExpire (argStr args 1) expireMs
          reply (RespEncoder.integer 1)) (s.perform env (.get (argStr args 1))).2 := by
      rw [hhandler, setDeadline, element_bind (by omega), element_bind (by omega), hn]
      rfl
    cases hfound : (s.perform env (.get (argStr args 1))).1.isSome with
    | false =>
        rw [hfound] at hexec
        have hout : (exec env (e.handler args) s).2.output =
            s.output ++ RespEncoder.integer 0 := by
          rw [hexec]
          rfl
        exact not_refused_of_output h hfind hout (head_integer 0) (by decide)
    | true =>
        rw [hfound, Bool.not_true, if_neg Bool.false_ne_true, exec_bind,
          exec_setExpire_bind] at hexec
        have hout : (exec env (e.handler args) s).2.output =
            s.output ++ RespEncoder.integer 1 := by
          rw [hexec]
          change (exec env (deadline n) _).2.output ++ _ = _
          rw [hd]
          rfl
        exact not_refused_of_output h hfind hout (head_integer 1) (by decide)

theorem takenWhole_update {refuses : Int64 → Int64 → Bool} {next : Int64 → Int64 → Int64}
    (h : Requests name k frame args) (hfind : findCommand (ascii name) = some e)
    (hlen : 3 ≤ args.length)
    (hread : ∀ args', 3 ≤ args'.length → ∀ n rest, fromChars (argStr args' 2) = .ok (n, rest) →
      e.handler args' = updateCounter (argStr args' 1) (refuses n) (next n))
    (herror : ∀ err, fromChars (argStr args 2) = .error err →
      e.handler args = reply (RespEncoder.error notIntegerMessage)) :
    TakenWhole env s frame args 2 ↔
      ∀ n rest, fromChars (argStr args 2) = .ok (n, rest) → rest ≠ [] → ∀ c,
        s.db.content.counterValue (env s.calls).nowMs (argStr args 1) = some c →
          refuses n c = true := by
  refine takenWhole_iff_of h hfind (by omega) ?_ ?_ ?_
  · intro n hn
    have hlen' : 3 ≤ (withNumber args 2 n).length := by rwa [length_withNumber]
    rw [hread args hlen n [] hn, hread _ hlen' n [] (fromChars_withNumber (by omega) n),
      argStr_withNumber_of_ne (by omega)]
  · intro err herr
    exact refused_of_reply h hfind (herror err herr)
  · intro n rest hn
    exact refused_updateCounter_iff h hfind (hread args hlen n rest hn)

theorem takenWhole_select (h : Requests "SELECT" k frame args) :
    TakenWhole env s frame args 1 ↔
      ∀ n rest, fromChars (argStr args 1) = .ok (n, rest) → rest ≠ [] → n ≠ 0 := by
  let e : CommandEntry := ⟨ascii "SELECT", handleSelect, 2, 2, false⟩
  have hfind : findCommand (ascii "SELECT") = some e := rfl
  obtain ⟨ha, -⟩ := h.exec hfind env s
  have hlen : 2 ≤ args.length := le_length_of_admits ha rfl
  refine takenWhole_iff_of h hfind (by omega) ?_ ?_ ?_
  · intro n hn
    have hlen' : 2 ≤ (withNumber args 1 n).length := by rwa [length_withNumber]
    change handleSelect (withNumber args 1 n) = handleSelect args
    rw [handleSelect, handleSelect, element_bind (by omega), element_bind (by omega),
      fromChars_withNumber (by omega), hn]
  · intro err herr
    apply refused_of_reply h hfind
    change handleSelect args = _
    rw [handleSelect, element_bind (by omega), herr]
  · intro n rest hn
    by_cases hzero : n = 0
    · refine iff_of_false ?_ (not_not_intro hzero)
      have hout : (exec env (e.handler args) s).2.output = s.output ++ RespEncoder.ok := by
        change (exec env (handleSelect args) s).2.output = _
        rw [handleSelect, element_bind (by omega), hn]
        dsimp only
        rw [if_neg (not_not_intro hzero)]
        rfl
      exact not_refused_of_output h hfind hout rfl (by decide)
    · refine iff_of_true ?_ hzero
      apply refused_of_reply h hfind
      change handleSelect args = _
      rw [handleSelect, element_bind (by omega), hn]
      exact if_pos hzero

theorem takenWhole_set (h : Requests "SET" k frame args) (hplace : OptionPlace args i)
    (hword : IsLifetimeWord (argStr args i)) (hi : i + 1 < args.length) :
    TakenWhole env s frame args (i + 1) ↔
      ∀ n rest, fromChars (argStr args (i + 1)) = .ok (n, rest) → rest ≠ [] →
        RefusedWords (wordsFrom args 3) := by
  have hrefused : RefusedWords (wordsFrom args 3) → ArgumentRefused env s frame := by
    intro hws
    obtain ⟨herr, hcontent⟩ := replyStep_set_refused env s h hws
    refine ⟨herr, fun T _ j => ?_⟩
    rw [hcontent]
  have hfind : findCommand (ascii "SET") = some ⟨ascii "SET", handleSet, 3, -1, true⟩ := rfl
  refine takenWhole_iff_of h hfind (by omega) ?_ ?_ ?_
  · intro n hn
    exact handleSet_withNumber hplace hword hi hn
  · intro err herr
    apply hrefused
    apply refusedWords_of_place hplace
    rw [wordsFrom_of_lt (by omega), wordsFrom_of_lt hi]
    refine .here hword fun n rest hn => ?_
    rw [herr] at hn
    cases hn
  · intro n rest hn
    exact ⟨fun ⟨⟨_, herr⟩, _⟩ => refusedWords_of_set_error h herr, hrefused⟩

/-- A numeric argument is taken whole or refused exactly when it is not a number with something
behind it that the command does not refuse anyway. EXPIRE, PEXPIRE and EXPIREAT refuse none. -/
theorem numbers_taken_whole_iff {c : NumericCommand} (env : ℕ → World) (s : Session)
    (h : Requests c.name k frame args) (ha : NumericArgument args c i) :
    TakenWhole env s frame args i ↔ ∀ n rest, fromChars (argStr args i) = .ok (n, rest) →
      rest ≠ [] → DeclinesNumber s.db.content (env s.calls).nowMs args n c := by
  have hswap : ∀ {D : Int64 → Prop}, (TakenWhole env s frame args i ↔
      ∀ n rest, fromChars (argStr args i) = .ok (n, rest) → rest ≠ [] → D n) →
      (∀ n, D n ↔ DeclinesNumber s.db.content (env s.calls).nowMs args n c) →
      (TakenWhole env s frame args i ↔ ∀ n rest, fromChars (argStr args i) = .ok (n, rest) →
        rest ≠ [] → DeclinesNumber s.db.content (env s.calls).nowMs args n c) := by
    intro D htaken hD
    simp only [htaken, hD]
  cases ha with
  | incrby =>
      let e : CommandEntry := ⟨ascii "INCRBY", handleIncrby, 3, 3, true⟩
      obtain ⟨hadm, -⟩ := h.exec (e := e) rfl env s
      have hlen : 3 ≤ args.length := le_length_of_admits hadm rfl
      refine hswap (takenWhole_update (e := e) h rfl hlen
        (fun args' hlen' n rest hn => handleIncrby_eq hlen' rfl hn)
        (fun err herr => handleIncrby_error hlen herr)) fun n => ?_
      simp only [incrbyRefuses_iff]
      exact ⟨.incrby, fun | .incrby hd => hd⟩
  | decrby =>
      let e : CommandEntry := ⟨ascii "DECRBY", handleDecrby, 3, 3, true⟩
      obtain ⟨hadm, -⟩ := h.exec (e := e) rfl env s
      have hlen : 3 ≤ args.length := le_length_of_admits hadm rfl
      refine hswap (takenWhole_update (e := e) h rfl hlen
        (fun args' hlen' n rest hn => handleDecrby_eq hlen' rfl hn)
        (fun err herr => handleDecrby_error hlen herr)) fun n => ?_
      simp only [Bool.false_eq_true, imp_false]
      rw [← Option.eq_none_iff_forall_ne_some]
      exact ⟨.decrby, fun | .decrby hd => hd⟩
  | set hplace hword hi =>
      exact hswap (takenWhole_set h hplace hword hi) fun n => ⟨.set, fun | .set hd => hd⟩
  | setex =>
      let e : CommandEntry := ⟨ascii "SETEX", handleSetex, 4, 4, true⟩
      obtain ⟨hadm, -⟩ := h.exec (e := e) rfl env s
      exact hswap (takenWhole_setWithLifetime (e := e) h rfl rfl (le_length_of_admits hadm rfl))
        fun n => ⟨.setex, fun | .setex hd => hd⟩
  | psetex =>
      let e : CommandEntry := ⟨ascii "PSETEX", handlePsetex, 4, 4, true⟩
      obtain ⟨hadm, -⟩ := h.exec (e := e) rfl env s
      exact hswap (takenWhole_setWithLifetime (e := e) h rfl rfl (le_length_of_admits hadm rfl))
        fun n => ⟨.psetex, fun | .psetex hd => hd⟩
  | expire =>
      let e : CommandEntry := ⟨ascii "EXPIRE", handleExpire, 3, 3, true⟩
      obtain ⟨hadm, -⟩ := h.exec (e := e) rfl env s
      exact hswap (takenWhole_setDeadline (e := e) h rfl rfl (le_length_of_admits hadm rfl)
        (fun _ _ => rfl)) fun n => ⟨False.elim, fun hd => nomatch hd⟩
  | pexpire =>
      let e : CommandEntry := ⟨ascii "PEXPIRE", handlePexpire, 3, 3, true⟩
      obtain ⟨hadm, -⟩ := h.exec (e := e) rfl env s
      exact hswap (takenWhole_setDeadline (e := e) h rfl rfl (le_length_of_admits hadm rfl)
        (fun _ _ => rfl)) fun n => ⟨False.elim, fun hd => nomatch hd⟩
  | expireat =>
      let e : CommandEntry := ⟨ascii "EXPIREAT", handleExpireat, 3, 3, true⟩
      obtain ⟨hadm, -⟩ := h.exec (e := e) rfl env s
      exact hswap (takenWhole_setDeadline (e := e) h rfl rfl (le_length_of_admits hadm rfl)
        (fun _ _ => rfl)) fun n => ⟨False.elim, fun hd => nomatch hd⟩
  | select =>
      exact hswap (takenWhole_select h) fun n => ⟨.select, fun | .select hd => hd⟩

theorem incrby_takes_five :
    let env := fun _ : ℕ => World.still 10 0
    let frame := commandFrame [ascii "INCRBY", ascii "k", ascii "5"]
    TakenWhole env freshSession frame frame.elements 2 := by
  intro env frame
  have hreq : Requests NumericCommand.incrby.name (ascii "k") frame frame.elements :=
    requests_commandFrame "INCRBY" ⟨_, rfl, rfl⟩
  have hread : fromChars (argStr frame.elements 2) = .ok (5, []) := by decide +kernel
  refine (numbers_taken_whole_iff env freshSession hreq .incrby).mpr fun n rest hn hrest => ?_
  rw [hread] at hn
  exact absurd (Prod.mk.inj (Except.ok.inj hn)).2.symm hrest

/-- `INCRBY k 5x` adds five, where a stored `5x` is no integer. -/
theorem incrby_takes_five_with_tail :
    let env := fun _ : ℕ => World.still 10 0
    let frame := commandFrame [ascii "INCRBY", ascii "k", ascii "5x"]
    (replyStep env freshSession frame).1 = RespEncoder.integer 5 ∧
      Buffer.tryParseInt (ascii "5x") = none ∧
      ¬ TakenWhole env freshSession frame frame.elements 2 := by
  intro env frame
  have hreply : (replyStep env freshSession frame).1 = RespEncoder.integer 5 := by decide +kernel
  have hread : fromChars (argStr frame.elements 2) = .ok (5, ascii "x") := by decide +kernel
  refine ⟨hreply, by decide +kernel, fun htaken => ?_⟩
  obtain ⟨⟨message, herr⟩, -⟩ := htaken.refused fun n hn => by
    have heq := hread.symm.trans (fromChars_eq_ok_nil_iff.mpr hn)
    exact absurd (Prod.mk.inj (Except.ok.inj heq)).2 (by decide)
  exact integer_ne_error (hreply.symm.trans herr)

end Keva
