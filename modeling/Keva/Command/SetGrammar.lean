import Keva.Command.Deadlines

/-!
# The grammar of SET

`SET key value [EX s] [PX ms] [NX|XX]`: the words behind the value are options in any order. The
option loop of `handle_set` reads such words as they are meant. It has no branch for words that are
no options, so it refuses only lifetimes that `from_chars` does not read or that are not positive.
-/

namespace Keva

open Session Handler

inductive SetOption
  | ex (seconds : Int64)
  | px (milliseconds : Int64)
  | nx
  | xx
  deriving DecidableEq

namespace SetOption

/-- The exact lifetime in milliseconds that an option gives. -/
def lifetime? : SetOption → Option ℤ
  | ex n => some (n.toInt * 1000)
  | px n => some n.toInt
  | nx => none
  | xx => none

/-- The lifetime given last. -/
def lastLifetime? : List SetOption → Option ℤ
  | [] => none
  | o :: os => (lastLifetime? os).or o.lifetime?

end SetOption

/-- The words are the options, one after the other. Letters are taken in either case. -/
inductive OptionWords : List Bytes → List SetOption → Prop
  | nil : OptionWords [] []
  | ex {word amount : Bytes} {n : Int64} {ws : List Bytes} {os : List SetOption}
      (hword : word.map toUpper = ascii "EX") (hn : Decimal.Numeral amount n.toInt) (hpos : 0 < n)
      (h : OptionWords ws os) : OptionWords (word :: amount :: ws) (.ex n :: os)
  | px {word amount : Bytes} {n : Int64} {ws : List Bytes} {os : List SetOption}
      (hword : word.map toUpper = ascii "PX") (hn : Decimal.Numeral amount n.toInt) (hpos : 0 < n)
      (h : OptionWords ws os) : OptionWords (word :: amount :: ws) (.px n :: os)
  | nx {word : Bytes} {ws : List Bytes} {os : List SetOption}
      (hword : word.map toUpper = ascii "NX") (h : OptionWords ws os) :
      OptionWords (word :: ws) (.nx :: os)
  | xx {word : Bytes} {ws : List Bytes} {os : List SetOption}
      (hword : word.map toUpper = ascii "XX") (h : OptionWords ws os) :
      OptionWords (word :: ws) (.xx :: os)

/-- The words are options, and not both NX and XX are among them. -/
def SetSyntax (ws : List Bytes) (os : List SetOption) : Prop :=
  OptionWords ws os ∧ ¬ (.nx ∈ os ∧ .xx ∈ os)

/-- The options let the key be written. -/
def MayWrite (K : Keyspace) (t : MillisecondTimestamp) (k : Bytes) (os : List SetOption) : Prop :=
  (.nx ∈ os → ¬ K.Live t k) ∧ (.xx ∈ os → K.Live t k)

/-- Nothing that is shown at `t` or later has changed. -/
def Keyspace.Unchanged (t : MillisecondTimestamp) (K K' : Keyspace) : Prop :=
  ∀ T, t ≤ T → ∀ j, K'.shown T j = K.shown T j

/-- `k` has been written at time `now` with the value `v` and the lifetime `l`. -/
structure Keyspace.Written (now : MillisecondTimestamp) (k v : Bytes) (l : Option ℤ)
    (K K' : Keyspace) : Prop where
  there : ∃ e, K'.shown now k = some (v, e) ∧ e.map Int64.toInt = l.map (now.toInt + ·)
  elsewhere : ∀ T j, j ≠ k → K'.shown T j = K.shown T j

/-- SET with the option words `ws`, which looks the key up at time `t` and sets a deadline at
time `now`, replies with `bytes` and turns `K` into `K'`. -/
structure ObeysSetGrammar (t now : MillisecondTimestamp) (k v : Bytes) (ws : List Bytes)
    (K K' : Keyspace) (bytes : Bytes) : Prop where
  invalid : (∀ os, ¬ SetSyntax ws os) →
    (∃ message, bytes = RespEncoder.error message) ∧ K.Unchanged t K'
  written : ∀ os, SetSyntax ws os → MayWrite K t k os →
    bytes = RespEncoder.ok ∧ K.Written now k v (SetOption.lastLifetime? os) K'
  refused : ∀ os, SetSyntax ws os → ¬ MayWrite K t k os →
    bytes = RespEncoder.nil ∧ K.Unchanged t K'

def IsLifetimeWord (word : Bytes) : Prop :=
  word.map toUpper = ascii "EX" ∨ word.map toUpper = ascii "PX"

/-- `from_chars` does not read a positive number at the front of the text. -/
def BadAmount (amount : Bytes) : Prop :=
  ∀ n rest, fromChars amount = .ok (n, rest) → n ≤ 0

/-- Where an option is expected there is EX or PX, with a word behind it that is no lifetime even
for `from_chars`. Any other word is passed over. -/
inductive RefusedWords : List Bytes → Prop
  | here {word amount : Bytes} {ws : List Bytes} (hword : IsLifetimeWord word)
      (hbad : BadAmount amount) : RefusedWords (word :: amount :: ws)
  | lifetime {word amount : Bytes} {ws : List Bytes} (hword : IsLifetimeWord word)
      (h : RefusedWords ws) : RefusedWords (word :: amount :: ws)
  | other {word : Bytes} {ws : List Bytes} (hword : ¬ IsLifetimeWord word)
      (h : RefusedWords ws) : RefusedWords (word :: ws)

/-- The words from element `i` on. -/
def wordsFrom (args : List RespValue) (i : ℕ) : List Bytes := (args.drop i).map RespValue.str

/-- What the option loop does with an option. -/
def SetOptions.take (o : SetOptions) : SetOption → SetOptions
  | .ex n => { o with expireMs := n * 1000 }
  | .px n => { o with expireMs := n }
  | .nx => { o with nx := true }
  | .xx => { o with xx := true }

variable {args : List RespValue} {ws : List Bytes} {os : List SetOption}

theorem wordsFrom_of_lt {i : ℕ} (hi : i < args.length) :
    wordsFrom args i = argStr args i :: wordsFrom args (i + 1) := by
  unfold wordsFrom argStr
  rw [List.drop_eq_getElem_cons hi, List.map_cons, List.getElem?_eq_getElem hi]
  rfl

theorem wordsFrom_of_le {i : ℕ} (hi : args.length ≤ i) : wordsFrom args i = [] := by
  unfold wordsFrom
  rw [List.drop_eq_nil_of_le hi, List.map_nil]

theorem wordsFrom_eq_cons {i : ℕ} {word : Bytes} (h : wordsFrom args i = word :: ws) :
    i < args.length ∧ argStr args i = word ∧ wordsFrom args (i + 1) = ws := by
  by_cases hi : i < args.length
  · rw [wordsFrom_of_lt hi] at h
    exact ⟨hi, List.cons.inj h⟩
  · rw [wordsFrom_of_le (not_lt.mp hi)] at h
    cases h

theorem length_le_of_wordsFrom {i : ℕ} (h : wordsFrom args i = []) : args.length ≤ i := by
  by_contra hi
  rw [wordsFrom_of_lt (not_le.mp hi)] at h
  cases h

theorem setOptions_of_optionWords (h : OptionWords ws os) {fuel i : ℕ}
    (hws : wordsFrom args i = ws) (hfuel : args.length ≤ i + fuel) (o : SetOptions) :
    setOptions args fuel i o = pure (some (os.foldl SetOptions.take o)) := by
  induction h generalizing fuel i o with
  | nil =>
      have hi : ¬ i < args.length := not_lt.mpr (length_le_of_wordsFrom hws)
      cases fuel with
      | zero => rfl
      | succ fuel => rw [setOptions, if_neg hi, List.foldl_nil]
  | @ex word amount n ws os hword hn hpos h ih =>
      obtain ⟨hi, rfl, hrest⟩ := wordsFrom_eq_cons hws
      obtain ⟨hi', rfl, hrest'⟩ := wordsFrom_eq_cons hrest
      obtain ⟨fuel, rfl⟩ : ∃ f, fuel = f + 1 := ⟨fuel - 1, by omega⟩
      rw [setOptions, if_pos hi, element_bind hi]
      dsimp only
      rw [if_pos ⟨hword, hi'⟩, element_bind hi', fromChars_eq_ok_nil_iff.mpr hn]
      dsimp only
      rw [if_neg (Int64.not_le.mpr hpos), ih hrest' (by omega)]
      rfl
  | @px word amount n ws os hword hn hpos h ih =>
      obtain ⟨hi, rfl, hrest⟩ := wordsFrom_eq_cons hws
      obtain ⟨hi', rfl, hrest'⟩ := wordsFrom_eq_cons hrest
      obtain ⟨fuel, rfl⟩ : ∃ f, fuel = f + 1 := ⟨fuel - 1, by omega⟩
      rw [setOptions, if_pos hi, element_bind hi]
      dsimp only
      rw [hword, if_neg (fun hex => absurd hex.1 (by decide)), if_pos ⟨rfl, hi'⟩,
        element_bind hi', fromChars_eq_ok_nil_iff.mpr hn]
      dsimp only
      rw [if_neg (Int64.not_le.mpr hpos), ih hrest' (by omega)]
      rfl
  | @nx word ws os hword h ih =>
      obtain ⟨hi, rfl, hrest⟩ := wordsFrom_eq_cons hws
      obtain ⟨fuel, rfl⟩ : ∃ f, fuel = f + 1 := ⟨fuel - 1, by omega⟩
      rw [setOptions, if_pos hi, element_bind hi]
      dsimp only
      rw [hword, if_neg (fun hex => absurd hex.1 (by decide)),
        if_neg (fun hpx => absurd hpx.1 (by decide)), if_pos rfl, ih hrest (by omega)]
      rfl
  | @xx word ws os hword h ih =>
      obtain ⟨hi, rfl, hrest⟩ := wordsFrom_eq_cons hws
      obtain ⟨fuel, rfl⟩ : ∃ f, fuel = f + 1 := ⟨fuel - 1, by omega⟩
      rw [setOptions, if_pos hi, element_bind hi]
      dsimp only
      rw [hword, if_neg (fun hex => absurd hex.1 (by decide)),
        if_neg (fun hpx => absurd hpx.1 (by decide)), if_neg (by decide), if_pos rfl,
        ih hrest (by omega)]
      rfl

theorem readLifetime_eq_none_iff {unit : ℤ} {amount : Bytes} :
    readLifetime unit amount = none ↔ BadAmount amount := by
  unfold readLifetime BadAmount
  cases hn : fromChars amount with
  | error err => exact iff_of_true rfl (fun n rest h => by cases h)
  | ok r =>
      dsimp only
      split_ifs with hneg
      · refine iff_of_true rfl fun n rest h => ?_
        obtain rfl := Except.ok.inj h
        exact hneg
      · exact iff_of_false (by simp) (fun h => hneg (h r.1 r.2 rfl))

theorem bind_cons_eq_none_iff {first : Option ℤ} {rest : Option (List ℤ)} : (do
    let l ← first
    let ls ← rest
    some (l :: ls)) = none ↔ first = none ∨ rest = none := by
  cases first with
  | none => simp
  | some l => cases rest <;> simp

theorem refusedWords_lifetime_iff {word amount : Bytes} (hword : IsLifetimeWord word) :
    RefusedWords (word :: amount :: ws) ↔ BadAmount amount ∨ RefusedWords ws := by
  constructor
  · intro h
    cases h with
    | here _ hbad => exact .inl hbad
    | lifetime _ h => exact .inr h
    | other hother _ => exact absurd hword hother
  · rintro (hbad | h)
    · exact .here hword hbad
    · exact .lifetime hword h

theorem refusedWords_other_iff {word : Bytes} (hword : ¬ IsLifetimeWord word) :
    RefusedWords (word :: ws) ↔ RefusedWords ws := by
  constructor
  · intro h
    cases h with
    | here hlife _ => exact absurd hlife hword
    | lifetime hlife _ => exact absurd hlife hword
    | other _ h => exact h
  · exact .other hword

theorem not_refusedWords_singleton (word : Bytes) : ¬ RefusedWords [word] := by
  intro h
  cases h with
  | other _ h => cases h

theorem lifetimes_eq_none_iff {fuel i : ℕ} (hfuel : args.length ≤ i + fuel) :
    lifetimes args fuel i = none ↔ RefusedWords (wordsFrom args i) := by
  induction fuel generalizing i with
  | zero =>
      rw [wordsFrom_of_le (by omega)]
      exact iff_of_false (by simp [lifetimes]) (fun h => by cases h)
  | succ fuel ih =>
      unfold lifetimes
      split_ifs with hi
      · dsimp only
        rw [wordsFrom_of_lt hi]
        split_ifs with hex hpx
        · rw [bind_cons_eq_none_iff, readLifetime_eq_none_iff, ih (by omega),
            wordsFrom_of_lt hex.2, refusedWords_lifetime_iff (.inl hex.1)]
        · rw [bind_cons_eq_none_iff, readLifetime_eq_none_iff, ih (by omega),
            wordsFrom_of_lt hpx.2, refusedWords_lifetime_iff (.inr hpx.1)]
        · rw [ih (by omega)]
          by_cases hlast : i + 1 < args.length
          · refine (refusedWords_other_iff ?_).symm
            rintro (hword | hword)
            · exact hex ⟨hword, hlast⟩
            · exact hpx ⟨hword, hlast⟩
          · rw [wordsFrom_of_le (by omega)]
            exact iff_of_false (fun h => by cases h) (not_refusedWords_singleton _)
      · rw [wordsFrom_of_le (by omega)]
        exact iff_of_false (by simp) (fun h => by cases h)

theorem nx_foldl_take (os : List SetOption) (o : SetOptions) :
    (os.foldl SetOptions.take o).nx = true ↔ o.nx = true ∨ .nx ∈ os := by
  induction os generalizing o with
  | nil => simp
  | cons a os ih =>
      rw [List.foldl_cons, ih]
      cases a <;> simp [SetOptions.take]

theorem xx_foldl_take (os : List SetOption) (o : SetOptions) :
    (os.foldl SetOptions.take o).xx = true ↔ o.xx = true ∨ .xx ∈ os := by
  induction os generalizing o with
  | nil => simp
  | cons a os ih =>
      rw [List.foldl_cons, ih]
      cases a <;> simp [SetOptions.take]

theorem expireMs_take (o : SetOptions) (a : SetOption) :
    (o.take a).expireMs = a.lifetime?.elim o.expireMs Int64.ofInt := by
  cases a with
  | ex n =>
      change n * 1000 = Int64.ofInt (n.toInt * 1000)
      rw [Int64.ofInt_mul, Int64.ofInt_toInt]
      rfl
  | px n => exact (Int64.ofInt_toInt n).symm
  | nx => rfl
  | xx => rfl

theorem expireMs_foldl_take (os : List SetOption) (o : SetOptions) :
    (os.foldl SetOptions.take o).expireMs =
      (SetOption.lastLifetime? os).elim o.expireMs Int64.ofInt := by
  induction os generalizing o with
  | nil => rfl
  | cons a os ih =>
      rw [List.foldl_cons, ih, expireMs_take, SetOption.lastLifetime?]
      cases SetOption.lastLifetime? os <;> rfl

theorem lastLifetime_pos (h : OptionWords ws os) :
    ∀ l, SetOption.lastLifetime? os = some l → 0 < l := by
  have hpos : ∀ n : Int64, 0 < n → 0 < n.toInt := fun n hn => Int64.lt_iff_toInt_lt.mp hn
  induction h with
  | nil => simp [SetOption.lastLifetime?]
  | ex hword hn h0 h ih =>
      intro l hl
      have := hpos _ h0
      rcases Option.or_eq_some_iff.mp hl with hlater | ⟨-, hfirst⟩
      · exact ih l hlater
      · obtain rfl := Option.some.inj hfirst
        omega
  | px hword hn h0 h ih =>
      intro l hl
      rcases Option.or_eq_some_iff.mp hl with hlater | ⟨-, hfirst⟩
      · exact ih l hlater
      · obtain rfl := Option.some.inj hfirst
        exact hpos _ h0
  | nx hword h ih =>
      intro l hl
      exact ih l ((Option.or_none (o := SetOption.lastLifetime? _)).symm.trans hl)
  | xx hword h ih =>
      intro l hl
      exact ih l ((Option.or_none (o := SetOption.lastLifetime? _)).symm.trans hl)

variable {env : ℕ → World} {s : Session} {k : Bytes} {frame : RespValue} {o : SetOptions}

/-- The options forbid the write. -/
def SetOptions.Forbids (o : SetOptions) (live : Prop) : Prop :=
  o.nx = true ∧ live ∨ o.xx = true ∧ ¬ live

theorem exec_handleSet_of_options (h : 3 ≤ args.length)
    (hopt : setOptions args args.length 3 ⟨-1, false, false⟩ = pure (some o)) (env : ℕ → World)
    (s : Session) :
    let r := s.perform env (.get (argStr args 1))
    exec env (handleSet args) s = exec env (if o.nx && r.1.isSome then reply RespEncoder.nil
      else if o.xx && !r.1.isSome then reply RespEncoder.nil
      else do
        storeString (argStr args 1) (argStr args 2)
        if 0 < o.expireMs then do
          let now ← nowMilliseconds
          setExpire (argStr args 1) (now + o.expireMs)
          reply RespEncoder.ok
        else reply RespEncoder.ok) r.2 := by
  rw [handleSet, element_bind (by omega), element_bind (by omega), hopt, pure_bind]
  rfl

theorem perform_get_found_iff (env : ℕ → World) (s : Session) (k : Bytes) :
    (s.perform env (.get k)).1.isSome = true ↔ s.db.content.Live (env s.calls).nowMs k := by
  rw [perform_get_fst, Keyspace.get_isSome_iff]

theorem exec_handleSet_forbidden (h : 3 ≤ args.length)
    (hopt : setOptions args args.length 3 ⟨-1, false, false⟩ = pure (some o))
    (hforbids : o.Forbids (s.db.content.Live (env s.calls).nowMs (argStr args 1))) :
    (exec env (handleSet args) s).2.output = s.output ++ RespEncoder.nil ∧
      (exec env (handleSet args) s).2.db.content =
        (s.db.content.get (argStr args 1) (env s.calls).nowMs (env s.calls).time).2 := by
  have hcontent := @content_perform env s (.get (argStr args 1))
  have hfound := perform_get_found_iff env s (argStr args 1)
  rw [exec_handleSet_of_options h hopt]
  rcases hforbids with ⟨hnx, hlive⟩ | ⟨hxx, hdead⟩
  · rw [hnx, hfound.mpr hlive]
    exact ⟨rfl, hcontent⟩
  · rw [Bool.eq_false_iff.mpr (mt hfound.mp hdead), Bool.and_false, if_neg Bool.false_ne_true, hxx]
    exact ⟨rfl, hcontent⟩

/-- What a SET that is not forbidden leaves. -/
def Keyspace.storing (K : Keyspace) (k : Bytes) (obj : KevaObject) (now : MillisecondTimestamp)
    (expireMs : Int64) : Keyspace :=
  if 0 < expireMs then (K.set k obj).setExpire k (now + expireMs) else K.set k obj

theorem exec_handleSet_allowed (h : 3 ≤ args.length)
    (hopt : setOptions args args.length 3 ⟨-1, false, false⟩ = pure (some o))
    (hallowed : ¬ o.Forbids (s.db.content.Live (env s.calls).nowMs (argStr args 1))) :
    (exec env (handleSet args) s).2.output = s.output ++ RespEncoder.ok ∧
      ∃ clock, (exec env (handleSet args) s).2.db.content =
        (s.db.content.get (argStr args 1) (env s.calls).nowMs (env s.calls).time).2.storing
          (argStr args 1) (KevaObject.createString (argStr args 2) clock)
          (env (s.calls + 3)).nowMs o.expireMs := by
  have hcontent := @content_perform env s (.get (argStr args 1))
  have hfound := perform_get_found_iff env s (argStr args 1)
  rw [exec_handleSet_of_options h hopt]
  have hnx : (o.nx && (s.perform env (.get (argStr args 1))).1.isSome) = false := by
    apply Bool.eq_false_iff.mpr
    rw [ne_eq, Bool.and_eq_true, hfound]
    exact fun hboth => hallowed (.inl hboth)
  have hxx : (o.xx && !(s.perform env (.get (argStr args 1))).1.isSome) = false := by
    apply Bool.eq_false_iff.mpr
    rw [ne_eq, Bool.and_eq_true, Bool.not_eq_true', ← Bool.not_eq_true, hfound]
    exact fun hboth => hallowed (.inr hboth)
  rw [hnx, hxx, if_neg Bool.false_ne_true, if_neg Bool.false_ne_true]
  unfold Keyspace.storing
  split_ifs with hpos
  · refine ⟨rfl, LruClock.current (env (s.calls + 1)).time, ?_⟩
    change (((s.perform env (.get (argStr args 1))).2.db.set (argStr args 1) _).setExpire
      (argStr args 1) _).content = _
    rw [KevaDatabase.content_setExpire, KevaDatabase.content_set, hcontent]
    rfl
  · refine ⟨rfl, LruClock.current (env (s.calls + 1)).time, ?_⟩
    change ((s.perform env (.get (argStr args 1))).2.db.set (argStr args 1) _).content = _
    rw [KevaDatabase.content_set, hcontent]
    rfl

/-- The arithmetic that turns a lifetime into a deadline stays in range: the lifetime comes out
positive, and the sum with the clock is an `i64`. -/
def LifetimeFits (now : MillisecondTimestamp) (l : Option ℤ) : Prop :=
  ∀ d, l = some d → 0 < Int64.ofInt d ∧ InI64 (now.toInt + d)

section

variable {K K' : Keyspace} {t now : MillisecondTimestamp} {v : Bytes} {obj : KevaObject}

theorem shown_storing_of_ne {j : Bytes} (hj : j ≠ k) (ms : Int64) :
    (K.storing k obj now ms).shown t j = K.shown t j := by
  unfold Keyspace.storing
  split_ifs
  · rw [Keyspace.shown_setExpire_of_ne hj, Keyspace.shown_set_of_ne hj]
  · rw [Keyspace.shown_set_of_ne hj]

theorem shown_storing_pos {ms : Int64} (hms : 0 < ms) :
    (K.storing k obj now ms).shown now k =
      if now + ms ≤ now then none else some (obj.getStringValue, some (now + ms)) := by
  unfold Keyspace.storing
  rw [if_pos hms]
  exact Keyspace.shown_setExpire_self (Function.update_self _ _ _) _

theorem shown_storing_nonpos {ms : Int64} (hms : ¬ 0 < ms) :
    (K.storing k obj now ms).shown now k = some (obj.getStringValue, none) := by
  unfold Keyspace.storing
  rw [if_neg hms]
  exact Keyspace.shown_set_self K now k obj

theorem toInt_add_ofInt_eq_iff {d : ℤ} :
    (now + Int64.ofInt d).toInt = now.toInt + d ↔ InI64 (now.toInt + d) := by
  have hsum : now + Int64.ofInt d = Int64.ofInt (now.toInt + d) := by
    rw [Int64.ofInt_add, Int64.ofInt_toInt]
  rw [hsum, Int64.toInt_ofInt_eq_iff]

theorem there_storing_iff {l : Option ℤ} (hpos : ∀ d, l = some d → 0 < d) (clock : UInt32) :
    (∃ e, (K.storing k (KevaObject.createString v clock) now
        (l.elim (-1) Int64.ofInt)).shown now k = some (v, e) ∧
        e.map Int64.toInt = l.map (now.toInt + ·)) ↔
      ¬ RedundantNumeral v ∧ LifetimeFits now l := by
  rw [← getStringValue_createString_iff v clock]
  cases l with
  | none =>
      rw [Option.elim_none, shown_storing_nonpos (by decide)]
      constructor
      · rintro ⟨e, he, -⟩
        exact ⟨(Prod.mk.inj (Option.some.inj he)).1, fun d hd => by cases hd⟩
      · rintro ⟨hv, -⟩
        exact ⟨none, by rw [hv], rfl⟩
  | some d =>
      rw [Option.elim_some]
      by_cases hms : 0 < Int64.ofInt d
      · rw [shown_storing_pos hms]
        constructor
        · rintro ⟨e, he, hsum⟩
          split_ifs at he with hexpired
          obtain ⟨hv, rfl⟩ := Prod.mk.inj (Option.some.inj he)
          refine ⟨hv, fun d' hd' => ?_⟩
          obtain rfl := Option.some.inj hd'
          exact ⟨hms, toInt_add_ofInt_eq_iff.mp (Option.some.inj hsum)⟩
        · rintro ⟨hv, hfits⟩
          have hsum := toInt_add_ofInt_eq_iff.mpr (hfits d rfl).2
          have hlater : ¬ now + Int64.ofInt d ≤ now := by
            have := hpos d rfl
            rw [Int64.le_iff_toInt_le, hsum]
            omega
          rw [if_neg hlater, hv]
          exact ⟨_, rfl, congrArg some hsum⟩
      · rw [shown_storing_nonpos hms]
        constructor
        · rintro ⟨e, he, hsum⟩
          obtain ⟨-, rfl⟩ := Prod.mk.inj (Option.some.inj he)
          cases hsum
        · rintro ⟨-, hfits⟩
          exact absurd (hfits d rfl).1 hms

theorem written_storing_iff {l : Option ℤ} (hpos : ∀ d, l = some d → 0 < d) (secs : Int64)
    (clock : UInt32) :
    K.Written now k v l ((K.get k t secs).2.storing k (KevaObject.createString v clock) now
        (l.elim (-1) Int64.ofInt)) ↔
      ¬ RedundantNumeral v ∧ LifetimeFits now l := by
  rw [← there_storing_iff (K := (K.get k t secs).2) (k := k) hpos clock]
  constructor
  · exact Keyspace.Written.there
  · intro hthere
    refine ⟨hthere, fun T j hj => ?_⟩
    obtain ⟨ho, hd⟩ := @Keyspace.get_elsewhere K k t j hj secs
    rw [shown_storing_of_ne hj, Keyspace.shown_congr ho hd]

end

/-- When SET does what its grammar says. -/
structure SetGrammarHolds (t now : MillisecondTimestamp) (k v : Bytes) (ws : List Bytes)
    (K : Keyspace) : Prop where
  invalid : (∀ os, ¬ SetSyntax ws os) → RefusedWords ws
  written : ∀ os, SetSyntax ws os → MayWrite K t k os →
    ¬ RedundantNumeral v ∧ LifetimeFits now (SetOption.lastLifetime? os)

theorem replyStep_set_refused (env : ℕ → World) (s : Session) (h : Requests "SET" k frame args)
    (hws : RefusedWords (wordsFrom args 3)) :
    (∃ message, (replyStep env s frame).1 = RespEncoder.error message) ∧
      (replyStep env s frame).2.db.content = s.db.content :=
  refused_of_declines env s h (.set ((lifetimes_eq_none_iff (by omega)).mpr hws))

theorem replyStep_set_forbidden (h : Requests "SET" k frame args)
    (hopt : setOptions args args.length 3 ⟨-1, false, false⟩ = pure (some o))
    (hforbids : o.Forbids (s.db.content.Live (env s.calls).nowMs k)) :
    (replyStep env s frame).1 = RespEncoder.nil ∧ (replyStep env s frame).2.db.content =
      (s.db.content.get k (env s.calls).nowMs (env s.calls).time).2 := by
  let e : CommandEntry := ⟨ascii "SET", handleSet, 3, -1, true⟩
  obtain ⟨ha, -⟩ := h.exec (e := e) rfl env s
  rw [← h.key_eq] at hforbids ⊢
  obtain ⟨hout, hcontent⟩ :=
    exec_handleSet_forbidden (le_length_of_admits ha rfl) hopt hforbids
  rw [h.content_eq (e := e) rfl]
  exact ⟨h.reply_eq (e := e) rfl hout, hcontent⟩

theorem replyStep_set_allowed (h : Requests "SET" k frame args)
    (hopt : setOptions args args.length 3 ⟨-1, false, false⟩ = pure (some o))
    (hallowed : ¬ o.Forbids (s.db.content.Live (env s.calls).nowMs k)) :
    (replyStep env s frame).1 = RespEncoder.ok ∧
      ∃ clock, (replyStep env s frame).2.db.content =
        (s.db.content.get k (env s.calls).nowMs (env s.calls).time).2.storing k
          (KevaObject.createString (argStr args 2) clock) (env (s.calls + 3)).nowMs
          o.expireMs := by
  let e : CommandEntry := ⟨ascii "SET", handleSet, 3, -1, true⟩
  obtain ⟨ha, -⟩ := h.exec (e := e) rfl env s
  rw [← h.key_eq] at hallowed ⊢
  obtain ⟨hout, hcontent⟩ := exec_handleSet_allowed (le_length_of_admits ha rfl) hopt hallowed
  rw [h.content_eq (e := e) rfl]
  exact ⟨h.reply_eq (e := e) rfl hout, hcontent⟩

theorem refusedWords_of_set_error (h : Requests "SET" k frame args) {message : Bytes}
    (herr : (replyStep env s frame).1 = RespEncoder.error message) :
    RefusedWords (wordsFrom args 3) := by
  by_contra hws
  have hfuel : args.length ≤ 3 + args.length := Nat.le_add_left _ _
  have hsome := mt (lifetimes_eq_none_iff hfuel).mp hws
  obtain ⟨ls, hls⟩ := Option.ne_none_iff_exists'.mp hsome
  obtain ⟨o, hopt, -⟩ := setOptions_of_lifetimes args.length hls ⟨-1, false, false⟩
  by_cases hforbids : o.Forbids (s.db.content.Live (env s.calls).nowMs k)
  · rw [(replyStep_set_forbidden h hopt hforbids).1] at herr
    exact ne_error_of_head rfl (by decide) message herr
  · rw [(replyStep_set_allowed h hopt hforbids).1] at herr
    exact ne_error_of_head rfl (by decide) message herr

theorem forbids_iff (K : Keyspace) (t : MillisecondTimestamp) :
    (os.foldl SetOptions.take ⟨-1, false, false⟩).Forbids (K.Live t k) ↔ ¬ MayWrite K t k os := by
  unfold SetOptions.Forbids MayWrite
  rw [nx_foldl_take, xx_foldl_take]
  simp only [Bool.false_eq_true, false_or]
  tauto

/-- SET obeys its grammar exactly when the words that are no options make it refuse a lifetime, and
what it writes is no redundant numeral and has a deadline in range. -/
theorem set_obeys_grammar_iff (env : ℕ → World) (s : Session) (h : Requests "SET" k frame args) :
    let t := (env s.calls).nowMs
    let now := (env (s.calls + 3)).nowMs
    ObeysSetGrammar t now k (argStr args 2) (wordsFrom args 3) s.db.content
        (replyStep env s frame).2.db.content (replyStep env s frame).1 ↔
      SetGrammarHolds t now k (argStr args 2) (wordsFrom args 3) s.db.content := by
  intro t now
  have hoptions : ∀ os, OptionWords (wordsFrom args 3) os →
      setOptions args args.length 3 ⟨-1, false, false⟩ =
        pure (some (os.foldl SetOptions.take ⟨-1, false, false⟩)) :=
    fun os hos => setOptions_of_optionWords hos rfl (by omega) _
  constructor
  · intro hobeys
    constructor
    · intro hinvalid
      obtain ⟨⟨message, herr⟩, -⟩ := hobeys.invalid hinvalid
      exact refusedWords_of_set_error h herr
    · intro os hos hmay
      have hallowed := mt (forbids_iff s.db.content t).mp (not_not_intro hmay)
      obtain ⟨-, clock, hcontent⟩ := replyStep_set_allowed h (hoptions os hos.1) hallowed
      obtain ⟨-, hwritten⟩ := hobeys.written os hos hmay
      rw [hcontent, expireMs_foldl_take] at hwritten
      exact (written_storing_iff (lastLifetime_pos hos.1) _ clock).mp hwritten
  · intro hholds
    constructor
    · intro hinvalid
      obtain ⟨herr, hcontent⟩ := replyStep_set_refused env s h
        (hholds.invalid hinvalid)
      refine ⟨herr, fun T _ j => ?_⟩
      rw [hcontent]
    · intro os hos hmay
      have hallowed := mt (forbids_iff s.db.content t).mp (not_not_intro hmay)
      obtain ⟨hreply, clock, hcontent⟩ := replyStep_set_allowed h (hoptions os hos.1) hallowed
      refine ⟨hreply, ?_⟩
      rw [hcontent, expireMs_foldl_take]
      exact (written_storing_iff (lastLifetime_pos hos.1) _ clock).mpr
        (hholds.written os hos hmay)
    · intro os hos hmay
      have hforbids := (forbids_iff s.db.content t).mpr hmay
      obtain ⟨hreply, hcontent⟩ := replyStep_set_forbidden h (hoptions os hos.1) hforbids
      refine ⟨hreply, fun T hT j => ?_⟩
      rw [hcontent]
      exact Keyspace.shown_get_of_le hT k _ j

/-- `SET k v px 5` on an empty database. -/
theorem set_obeys_grammar_px :
    let env := fun _ : ℕ => World.still 10 0
    let frame := commandFrame [ascii "SET", ascii "k", ascii "v", ascii "px", ascii "5"]
    ObeysSetGrammar 10 10 (ascii "k") (ascii "v") [ascii "px", ascii "5"] freshSession.db.content
      (replyStep env freshSession frame).2.db.content (replyStep env freshSession frame).1 := by
  intro env frame
  have hreq : Requests "SET" (ascii "k") frame frame.elements :=
    requests_commandFrame "SET" ⟨_, rfl, rfl⟩
  have hn : Decimal.Numeral (ascii "5") (5 : Int64).toInt :=
    fromChars_eq_ok_nil_iff.mp (by decide +kernel)
  refine (set_obeys_grammar_iff env freshSession hreq).mpr ⟨fun hinvalid => ?_, ?_⟩
  · exact absurd ⟨.px (by decide) hn (by decide) .nil, by simp⟩ (hinvalid [.px 5])
  · rintro os ⟨hos, -⟩ -
    refine ⟨fun hnumeral => absurd hnumeral.1 (by decide +kernel), ?_⟩
    cases hos with
    | ex hword => exact absurd hword (by decide)
    | px hword hn' hpos hnil =>
        cases hnil
        have hfive := (fromChars_eq_ok_nil_iff.mpr hn').symm.trans
          (fromChars_eq_ok_nil_iff.mpr hn)
        obtain rfl := (Prod.mk.inj (Except.ok.inj hfive)).1
        intro d hd
        obtain rfl := Option.some.inj hd
        decide
    | nx hword => exact absurd hword (by decide)
    | xx hword => exact absurd hword (by decide)

/-- `SET k v EX` is acknowledged, and the value never expires. -/
theorem set_accepts_dangling_ex :
    let env := fun _ : ℕ => World.still 10 0
    let frame := commandFrame [ascii "SET", ascii "k", ascii "v", ascii "EX"]
    let stored := replyStep env freshSession frame
    (∀ os, ¬ SetSyntax [ascii "EX"] os) ∧ stored.1 = RespEncoder.ok ∧
      stored.2.db.content.shown 10 (ascii "k") = some (ascii "v", none) ∧
      ¬ ObeysSetGrammar 10 10 (ascii "k") (ascii "v") [ascii "EX"] freshSession.db.content
        stored.2.db.content stored.1 := by
  intro env frame stored
  have hinvalid : ∀ os, ¬ SetSyntax [ascii "EX"] os := by
    rintro os ⟨hos, -⟩
    cases hos with
    | nx hword => exact absurd hword (by decide)
    | xx hword => exact absurd hword (by decide)
  have hreply : stored.1 = RespEncoder.ok := by decide +kernel
  refine ⟨hinvalid, hreply, by decide +kernel, fun hobeys => ?_⟩
  obtain ⟨⟨message, herr⟩, -⟩ := hobeys.invalid hinvalid
  exact ne_error_of_head rfl (by decide) message (hreply.symm.trans herr)

end Keva
