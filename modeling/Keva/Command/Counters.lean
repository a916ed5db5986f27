import Keva.Command.Strings
import Keva.Lib.Int64Exact

/-!
# Counter commands

INCR, DECR, INCRBY and DECRBY add a number to the integer under a key. The first three refuse a
result that is no `i64`; DECRBY does not look. All of them store the new value with
`KevaDatabase::set`, which takes the deadline of the key off, and so does APPEND.
-/

namespace Keva

open Session Handler

/-- `refuses` and `next` add `d` exactly, or refuse. -/
structure AddsExactly (refuses : Int64 → Bool) (next : Int64 → Int64) (d : ℤ) : Prop where
  refuses_iff : ∀ c, refuses c = true ↔ ¬ InI64 (c.toInt + d)
  toInt_next : ∀ c, InI64 (c.toInt + d) → (next c).toInt = c.toInt + d

theorem toInt_maxValue_eq : Int64.maxValue.toInt = 9223372036854775807 := by decide

theorem toInt_minValue_eq : Int64.minValue.toInt = -9223372036854775808 := by decide

theorem not_inI64_add_one {c : Int64} : c = Int64.maxValue ↔ ¬ InI64 (c.toInt + 1) := by
  have hrange := c.inI64_toInt
  unfold InI64 at hrange ⊢
  rw [← Int64.toInt_inj, toInt_maxValue_eq]
  omega

theorem not_inI64_sub_one {c : Int64} : c = Int64.minValue ↔ ¬ InI64 (c.toInt + -1) := by
  have hrange := c.inI64_toInt
  unfold InI64 at hrange ⊢
  rw [← Int64.toInt_inj, toInt_minValue_eq]
  omega

theorem addsExactly_incr : AddsExactly (fun c => c == Int64.maxValue) (fun c => c + 1) 1 where
  refuses_iff c := by
    rw [beq_iff_eq]
    exact not_inI64_add_one
  toInt_next _ h := Int64.toInt_add_eq_iff.mpr h

theorem addsExactly_decr : AddsExactly (fun c => c == Int64.minValue) (fun c => c - 1) (-1) where
  refuses_iff c := by
    rw [beq_iff_eq]
    exact not_inI64_sub_one
  toInt_next _ h := Int64.toInt_sub_eq_iff.mpr h

theorem toInt_maxValue_sub {n : Int64} (h : 0 < n) :
    (Int64.maxValue - n).toInt = Int64.maxValue.toInt - n.toInt := by
  have hrange := n.inI64_toInt
  rw [Int64.lt_iff_toInt_lt] at h
  rw [Int64.toInt_sub_eq_iff, toInt_maxValue_eq]
  unfold InI64 at *
  have hzero : (0 : Int64).toInt = 0 := rfl
  omega

theorem toInt_minValue_sub {n : Int64} (h : n < 0) :
    (Int64.minValue - n).toInt = Int64.minValue.toInt - n.toInt := by
  have hrange := n.inI64_toInt
  rw [Int64.lt_iff_toInt_lt] at h
  rw [Int64.toInt_sub_eq_iff, toInt_minValue_eq]
  unfold InI64 at *
  have hzero : (0 : Int64).toInt = 0 := rfl
  omega

theorem incrbyRefuses_iff (n c : Int64) :
    incrbyRefuses n c = true ↔ ¬ InI64 (c.toInt + n.toInt) := by
  have hzero : (0 : Int64).toInt = 0 := rfl
  have hc := c.inI64_toInt
  unfold InI64 at hc ⊢
  unfold incrbyRefuses
  rw [Bool.or_eq_true, Bool.and_eq_true, Bool.and_eq_true, decide_eq_true_iff, decide_eq_true_iff,
    decide_eq_true_iff, decide_eq_true_iff]
  by_cases hpos : 0 < n
  · have hneg : ¬ n < 0 := fun h => absurd (Int64.lt_trans hpos h) (Int64.lt_irrefl)
    rw [Int64.lt_iff_toInt_lt (x := Int64.maxValue - n), toInt_maxValue_sub hpos, toInt_maxValue_eq]
    rw [Int64.lt_iff_toInt_lt] at hpos
    simp only [hneg, false_and, or_false, Int64.lt_iff_toInt_lt]
    omega
  · by_cases hneg : n < 0
    · rw [Int64.lt_iff_toInt_lt (y := Int64.minValue - n), toInt_minValue_sub hneg,
        toInt_minValue_eq]
      rw [Int64.lt_iff_toInt_lt] at hneg
      simp only [hpos, false_and, false_or, Int64.lt_iff_toInt_lt]
      omega
    · simp only [hpos, hneg, false_and, or_false, false_iff]
      rw [Int64.lt_iff_toInt_lt] at hpos hneg
      omega

theorem addsExactly_incrby (n : Int64) :
    AddsExactly (incrbyRefuses n) (fun c => c + n) n.toInt where
  refuses_iff c := incrbyRefuses_iff n c
  toInt_next _ h := Int64.toInt_add_eq_iff.mpr h

/-- The sums that INCR forms on a counter that reads `c`, as they are over the integers. -/
def incrSums (c : Int64) : List ℤ := if c == Int64.maxValue then [] else [c.toInt + 1]

def decrSums (c : Int64) : List ℤ := if c == Int64.minValue then [] else [c.toInt - 1]

/-- INCRBY also subtracts in its guard. -/
def incrbySums (increment c : Int64) : List ℤ :=
  (if 0 < increment then [Int64.maxValue.toInt - increment.toInt] else []) ++
    (if increment < 0 then [Int64.minValue.toInt - increment.toInt] else []) ++
    if incrbyRefuses increment c then [] else [c.toInt + increment.toInt]

def decrbySums (decrement c : Int64) : List ℤ := [c.toInt - decrement.toInt]

/-- The result of a computation, and the sums that it has formed. -/
structure Computed (α : Type) where
  value : α
  sums : List ℤ

namespace Computed

variable {α β : Type}

def pure (a : α) : Computed α := ⟨a, []⟩

def add (a b : Int64) : Computed Int64 := ⟨a + b, [a.toInt + b.toInt]⟩

def sub (a b : Int64) : Computed Int64 := ⟨a - b, [a.toInt - b.toInt]⟩

def bind (m : Computed α) (f : α → Computed β) : Computed β :=
  ⟨(f m.value).value, m.sums ++ (f m.value).sums⟩

end Computed

/-- What `updateCounter` does with a counter that reads `c`: it refuses, or it goes on with the next
value. On the way it forms these sums. -/
def Computes (refuses : Int64 → Bool) (next : Int64 → Int64) (sums : Int64 → List ℤ)
    (steps : Int64 → Computed (Option Int64)) : Prop :=
  ∀ c, steps c = ⟨if refuses c then none else some (next c), sums c⟩

theorem computes_incr : Computes (fun c => c == Int64.maxValue) (fun c => c + 1) incrSums fun c =>
    if c == Int64.maxValue then .pure none
    else (Computed.add c 1).bind fun newVal => .pure (some newVal) := by
  intro c
  unfold incrSums
  dsimp only
  split_ifs <;> rfl

theorem computes_decr : Computes (fun c => c == Int64.minValue) (fun c => c - 1) decrSums fun c =>
    if c == Int64.minValue then .pure none
    else (Computed.sub c 1).bind fun newVal => .pure (some newVal) := by
  intro c
  unfold decrSums
  dsimp only
  split_ifs <;> rfl

/-- The second half of the guard is looked at only where the first one does not refuse. -/
theorem computes_incrby (n : Int64) :
    Computes (incrbyRefuses n) (fun c => c + n) (incrbySums n) fun c =>
      (if 0 < n then (Computed.sub Int64.maxValue n).bind fun most => .pure (decide (most < c))
        else .pure false).bind fun above =>
      if above then .pure none
      else
        (if n < 0 then (Computed.sub Int64.minValue n).bind fun least => .pure (decide (c < least))
          else .pure false).bind fun below =>
        if below then .pure none
        else (Computed.add c n).bind fun newVal => .pure (some newVal) := by
  intro c
  unfold incrbySums incrbyRefuses
  by_cases hpos : 0 < n
  · have hneg : ¬ n < 0 := fun h => absurd (Int64.lt_trans hpos h) Int64.lt_irrefl
    by_cases hover : Int64.maxValue - n < c
    · simp [Computed.bind, Computed.sub, Computed.pure, hpos, hneg, hover]
    · simp [Computed.bind, Computed.sub, Computed.add, Computed.pure, hpos, hneg, hover]
  · by_cases hneg : n < 0
    · by_cases hunder : c < Int64.minValue - n
      · simp [Computed.bind, Computed.sub, Computed.pure, hpos, hneg, hunder]
      · simp [Computed.bind, Computed.sub, Computed.add, Computed.pure, hpos, hneg, hunder]
    · simp [Computed.bind, Computed.add, Computed.pure, hpos, hneg]

theorem computes_decrby (n : Int64) :
    Computes (fun _ => false) (fun c => c - n) (decrbySums n) fun c =>
      (Computed.sub c n).bind fun newVal => .pure (some newVal) :=
  fun _ => rfl

theorem inI64_incrSums (c : Int64) : ∀ z ∈ incrSums c, InI64 z := by
  intro z hz
  unfold incrSums at hz
  split_ifs at hz with hmax
  · cases hz
  · rw [List.mem_singleton.mp hz]
    by_contra hout
    exact hmax (beq_iff_eq.mpr (not_inI64_add_one.mpr hout))

theorem inI64_decrSums (c : Int64) : ∀ z ∈ decrSums c, InI64 z := by
  intro z hz
  unfold decrSums at hz
  split_ifs at hz with hmin
  · cases hz
  · rw [List.mem_singleton.mp hz]
    by_contra hout
    exact hmin (beq_iff_eq.mpr (not_inI64_sub_one.mpr hout))

theorem inI64_incrbySums (n c : Int64) : ∀ z ∈ incrbySums n c, InI64 z := by
  intro z hz
  unfold incrbySums at hz
  rw [List.mem_append, List.mem_append] at hz
  rcases hz with (hz | hz) | hz
  · split_ifs at hz with hpos
    · rw [List.mem_singleton.mp hz]
      exact Int64.toInt_sub_eq_iff.mp (toInt_maxValue_sub hpos)
    · cases hz
  · split_ifs at hz with hneg
    · rw [List.mem_singleton.mp hz]
      exact Int64.toInt_sub_eq_iff.mp (toInt_minValue_sub hneg)
    · cases hz
  · split_ifs at hz with hrefuses
    · cases hz
    · rw [List.mem_singleton.mp hz]
      by_contra hout
      exact hrefuses ((incrbyRefuses_iff n c).mpr hout)

/-- The integer under the key at time `t`; a key that is not there counts as zero. -/
def Keyspace.counterValue (K : Keyspace) (t : MillisecondTimestamp) (k : Bytes) : Option Int64 :=
  getIntegerObj ((K.visible t k).map Prod.fst)

theorem getIntegerObj_touch (obj : KevaObject) (clock : UInt32) :
    getIntegerObj (some (obj.touch clock)) = getIntegerObj (some obj) := by
  unfold getIntegerObj
  dsimp only
  rw [KevaObject.type_touch, KevaObject.encoding_eq, KevaObject.encoding_eq, KevaObject.ptr_touch]
  rfl

theorem getIntegerObj_get (K : Keyspace) (k : Bytes) (t : MillisecondTimestamp) (secs : Int64) :
    getIntegerObj (K.get k t secs).1 = K.counterValue t k := by
  unfold Keyspace.counterValue Keyspace.visible
  cases ho : K.objects k with
  | none =>
      rw [Keyspace.get_of_none ho]
      split_ifs <;> rfl
  | some obj =>
      cases he : K.expired t k with
      | true =>
          rw [Keyspace.get_of_expired ho he]
          rfl
      | false =>
          rw [Keyspace.get_of_live ho he, getIntegerObj_touch]
          rfl

theorem shown_set_createStringFromInt (K : Keyspace) (t : MillisecondTimestamp) (k : Bytes)
    (n : Int64) (clock : UInt32) :
    (K.set k (KevaObject.createStringFromInt n clock)).shown t k = some (toChars n, none) := by
  have ho : (K.set k (KevaObject.createStringFromInt n clock)).objects k =
      some (KevaObject.createStringFromInt n clock) := Function.update_self _ _ _
  have hd : (K.set k (KevaObject.createStringFromInt n clock)).deadlines k = none :=
    Function.update_self _ _ _
  rw [Keyspace.shown_of_live ho (Keyspace.expired_of_deadline_none t hd), hd,
    KevaObject.getStringValue_createStringFromInt]

variable {env : ℕ → World} {s : Session} {k : Bytes} {args : List RespValue} {frame : RespValue}
  {refuses : Int64 → Bool} {next : Int64 → Int64} {c : Int64} {name : String}

theorem exec_updateCounter (hc : s.db.content.counterValue (env s.calls).nowMs k = some c) :
    let found := (s.db.content.get k (env s.calls).nowMs (env s.calls).time).2
    let r := (exec env (updateCounter k refuses next) s).2
    if refuses c then
      r.output = s.output ++ RespEncoder.error wouldOverflowMessage ∧ r.db.content = found
    else r.output = s.output ++ RespEncoder.integer (next c) ∧ ∃ clock,
      r.db.content = found.set k (KevaObject.createStringFromInt (next c) clock) := by
  intro found r
  have hfound : (s.perform env (.get k)).2.db.content = found := content_perform s (.get k)
  have hr : r = (exec env
      (if refuses c then reply (RespEncoder.error wouldOverflowMessage)
        else do
          let clock ← lruClock
          set k (KevaObject.createStringFromInt (next c) clock)
          reply (RespEncoder.integer (next c))) (s.perform env (.get k)).2).2 := by
    change (exec env (updateCounter k refuses next) s).2 = _
    rw [updateCounter, exec_get_bind, perform_get_fst, getIntegerObj_get, hc]
  rw [hr]
  cases refuses c with
  | true => exact ⟨rfl, hfound⟩
  | false =>
      refine ⟨rfl, LruClock.current (env (s.calls + 1)).time, ?_⟩
      rw [← hfound]
      exact KevaDatabase.content_set _ _ _

/-- What a counter command replies and leaves, by whether its guard refuses. -/
theorem replyStep_counter {e : CommandEntry} (h : Requests name k frame args)
    (hfind : findCommand (ascii name) = some e)
    (hhandler : e.handler args = updateCounter k refuses next)
    (hc : s.db.content.counterValue (env s.calls).nowMs k = some c) :
    if refuses c then
      (replyStep env s frame).1 = RespEncoder.error wouldOverflowMessage ∧
        ∀ t j, t = (env s.calls).nowMs →
          (replyStep env s frame).2.db.content.shown t j = s.db.content.shown t j
    else
      (replyStep env s frame).1 = RespEncoder.integer (next c) ∧
        ∀ t, (replyStep env s frame).2.db.content.shown t k = some (toChars (next c), none) := by
  have hexec := @exec_updateCounter env s k refuses next c hc
  have hcontent : (replyStep env s frame).2.db.content = _ := h.content_eq hfind
  rw [hhandler] at hcontent
  dsimp only at hexec
  split_ifs at hexec ⊢ with hrefuses
  · refine ⟨h.reply_eq hfind (by rw [hhandler]; exact hexec.1), ?_⟩
    rintro t j rfl
    rw [hcontent, hexec.2, Keyspace.shown_get]
  · obtain ⟨hout, clock, hleft⟩ := hexec
    refine ⟨h.reply_eq hfind (by rw [hhandler]; exact hout), fun t => ?_⟩
    rw [hcontent, hleft]
    exact shown_set_createStringFromInt _ _ _ _ _

theorem handleIncr_eq (h : 2 ≤ args.length) (hk : argStr args 1 = k) :
    handleIncr args = updateCounter k (fun c => c == Int64.maxValue) (fun c => c + 1) := by
  rw [handleIncr, element_bind (by omega), hk]

theorem handleDecr_eq (h : 2 ≤ args.length) (hk : argStr args 1 = k) :
    handleDecr args = updateCounter k (fun c => c == Int64.minValue) (fun c => c - 1) := by
  rw [handleDecr, element_bind (by omega), hk]

theorem handleIncrby_eq {n : Int64} {rest : Bytes} (h : 3 ≤ args.length) (hk : argStr args 1 = k)
    (hn : fromChars (argStr args 2) = .ok (n, rest)) :
    handleIncrby args = updateCounter k (incrbyRefuses n) (fun c => c + n) := by
  rw [handleIncrby, element_bind (by omega), element_bind (by omega), hk, hn]

theorem handleDecrby_eq {n : Int64} {rest : Bytes} (h : 3 ≤ args.length) (hk : argStr args 1 = k)
    (hn : fromChars (argStr args 2) = .ok (n, rest)) :
    handleDecrby args = updateCounter k (fun _ => false) (fun c => c - n) := by
  rw [handleDecrby, element_bind (by omega), element_bind (by omega), hk, hn]

theorem replyStep_of_reply {e : CommandEntry} {bytes : Bytes} (h : Requests name k frame args)
    (hfind : findCommand (ascii name) = some e) (hhandler : e.handler args = reply bytes) :
    (replyStep env s frame).1 = bytes ∧ (replyStep env s frame).2.db.content = s.db.content := by
  constructor
  · apply h.reply_eq hfind
    rw [hhandler]
    rfl
  · rw [h.content_eq hfind, hhandler]
    rfl

theorem handleIncrby_error {err : Errc} (h : 3 ≤ args.length)
    (herr : fromChars (argStr args 2) = .error err) :
    handleIncrby args = reply (RespEncoder.error notIntegerMessage) := by
  rw [handleIncrby, element_bind (by omega), element_bind (by omega), herr]

theorem handleDecrby_error {err : Errc} (h : 3 ≤ args.length)
    (herr : fromChars (argStr args 2) = .error err) :
    handleDecrby args = reply (RespEncoder.error notIntegerMessage) := by
  rw [handleDecrby, element_bind (by omega), element_bind (by omega), herr]

/-- The command adds `d`; on the way it forms the sums `sums c` of a counter that reads `c`. An
argument of DECRBY whose negative is an `i64` need not be one itself. -/
inductive Adds (args : List RespValue) : String → ℤ → (Int64 → List ℤ) → Prop
  | incr : Adds args "INCR" 1 incrSums
  | decr : Adds args "DECR" (-1) decrSums
  | incrby {n : Int64} {rest : Bytes} (hn : fromChars (argStr args 2) = .ok (n, rest)) :
      Adds args "INCRBY" n.toInt (incrbySums n)
  | decrby {n : Int64} {rest : Bytes} (hn : fromChars (argStr args 2) = .ok (n, rest)) :
      Adds args "DECRBY" (-n.toInt) (decrbySums n)
  | decrbyMin {rest : Bytes} (hn : Decimal.scanInt (argStr args 2) = some (2 ^ 63, rest)) :
      Adds args "DECRBY" (-2 ^ 63) (fun _ => [])

/-- The sum `r` is stored and replied if it is an `i64`, and otherwise refused. -/
structure ExactOrRefused (K K' : Keyspace) (t : MillisecondTimestamp) (k : Bytes) (r : ℤ)
    (reply : Bytes) : Prop where
  exact : InI64 r → ∃ n : Int64, n.toInt = r ∧ reply = RespEncoder.integer n ∧
    (K'.shown t k).map Prod.fst = some (toChars n)
  refused : ¬ InI64 r → (∃ message, reply = RespEncoder.error message) ∧
    ∀ j, K'.shown t j = K.shown t j

/-- For DECRBY, which has no guard: the result is an `i64`, or the argument is not one and neither
is the result. -/
def Guarded (name : String) (c d : ℤ) : Prop :=
  name = "DECRBY" → if d = -2 ^ 63 then ¬ InI64 (c + d) else InI64 (c + d)

theorem head_integer (n : Int64) : (RespEncoder.integer n).head? = some 58 := rfl

theorem integer_ne_error {n : Int64} {message : Bytes} :
    RespEncoder.integer n ≠ RespEncoder.error message := by
  intro h
  have hhead := head_integer n
  rw [h] at hhead
  cases hhead

variable {d : ℤ} {sums : Int64 → List ℤ}

theorem exactOrRefused_of_addsExactly {e : CommandEntry} (h : Requests name k frame args)
    (hfind : findCommand (ascii name) = some e)
    (hhandler : e.handler args = updateCounter k refuses next)
    (hc : s.db.content.counterValue (env s.calls).nowMs k = some c)
    (hadds : AddsExactly refuses next d) :
    ExactOrRefused s.db.content (replyStep env s frame).2.db.content (env s.calls).nowMs k
      (c.toInt + d) (replyStep env s frame).1 := by
  have hstep := replyStep_counter h hfind hhandler hc
  by_cases hin : InI64 (c.toInt + d)
  · have haccepts : ¬ refuses c = true := fun hr => (hadds.refuses_iff c).mp hr hin
    rw [if_neg haccepts] at hstep
    refine ⟨fun _ => ⟨next c, hadds.toInt_next c hin, hstep.1, ?_⟩, fun hout => absurd hin hout⟩
    rw [hstep.2]
    rfl
  · rw [if_pos ((hadds.refuses_iff c).mpr hin)] at hstep
    exact ⟨fun h => absurd h hin, fun _ => ⟨⟨_, hstep.1⟩, fun j => hstep.2 _ j rfl⟩⟩

/-- Counter arithmetic is exact or refused, and never overflows on the way, except that DECRBY wraps
around and refuses 2 ^ 63. -/
theorem counter_exactOrRefused_iff (env : ℕ → World) (s : Session)
    (h : Requests name k frame args) (hadds : Adds args name d sums)
    (hc : s.db.content.counterValue (env s.calls).nowMs k = some c) :
    (ExactOrRefused s.db.content (replyStep env s frame).2.db.content (env s.calls).nowMs k
        (c.toInt + d) (replyStep env s frame).1 ∧ ∀ z ∈ sums c, InI64 z) ↔
      Guarded name c.toInt d := by
  cases hadds with
  | incr =>
      let e : CommandEntry := ⟨ascii "INCR", handleIncr, 2, 2, true⟩
      obtain ⟨ha, -⟩ := h.exec (e := e) rfl env s
      have hhandler := handleIncr_eq (le_length_of_admits ha rfl) h.key_eq
      refine iff_of_true ⟨?_, inI64_incrSums c⟩ (fun hname => absurd hname (by decide))
      exact exactOrRefused_of_addsExactly (e := e) h rfl hhandler hc addsExactly_incr
  | decr =>
      let e : CommandEntry := ⟨ascii "DECR", handleDecr, 2, 2, true⟩
      obtain ⟨ha, -⟩ := h.exec (e := e) rfl env s
      have hhandler := handleDecr_eq (le_length_of_admits ha rfl) h.key_eq
      refine iff_of_true ⟨?_, inI64_decrSums c⟩ (fun hname => absurd hname (by decide))
      exact exactOrRefused_of_addsExactly (e := e) h rfl hhandler hc addsExactly_decr
  | @incrby n rest hn =>
      let e : CommandEntry := ⟨ascii "INCRBY", handleIncrby, 3, 3, true⟩
      obtain ⟨ha, -⟩ := h.exec (e := e) rfl env s
      have hhandler := handleIncrby_eq (le_length_of_admits ha rfl) h.key_eq hn
      refine iff_of_true ⟨?_, inI64_incrbySums n c⟩ (fun hname => absurd hname (by decide))
      exact exactOrRefused_of_addsExactly (e := e) h rfl hhandler hc (addsExactly_incrby n)
  | @decrby n rest hn =>
      let e : CommandEntry := ⟨ascii "DECRBY", handleDecrby, 3, 3, true⟩
      obtain ⟨ha, -⟩ := h.exec (e := e) rfl env s
      have hhandler := handleDecrby_eq (le_length_of_admits ha rfl) h.key_eq hn
      have hstep := replyStep_counter (e := e) h rfl hhandler hc
      rw [if_neg Bool.false_ne_true] at hstep
      have hrange := n.inI64_toInt
      have hguarded : Guarded "DECRBY" c.toInt (-n.toInt) ↔ InI64 (c.toInt + -n.toInt) := by
        unfold Guarded
        rw [if_neg (by unfold InI64 at hrange; omega)]
        exact ⟨fun hg => hg rfl, fun hin _ => hin⟩
      rw [hguarded]
      constructor
      · rintro ⟨-, hsums⟩
        exact hsums _ (List.mem_singleton.mpr rfl)
      · intro hin
        refine ⟨⟨fun _ => ⟨c - n, Int64.toInt_sub_eq_iff.mpr hin, hstep.1, ?_⟩,
          fun hout => absurd hin hout⟩, ?_⟩
        · rw [hstep.2]
          rfl
        · intro z hz
          rw [List.mem_singleton.mp hz]
          exact hin
  | @decrbyMin rest hn =>
      have herr : fromChars (argStr args 2) = .error .resultOutOfRange := by
        rw [fromChars, hn]
        exact if_neg (by decide)
      let e : CommandEntry := ⟨ascii "DECRBY", handleDecrby, 3, 3, true⟩
      obtain ⟨ha, -⟩ := h.exec (e := e) rfl env s
      obtain ⟨hreply, hcontent⟩ := @replyStep_of_reply env s k args frame _ e _ h rfl
        (handleDecrby_error (le_length_of_admits ha rfl) herr)
      have hguarded : Guarded "DECRBY" c.toInt (-2 ^ 63) ↔ ¬ InI64 (c.toInt + -2 ^ 63) := by
        unfold Guarded
        rw [if_pos rfl]
        exact ⟨fun hg => hg rfl, fun hout _ => hout⟩
      rw [hguarded]
      constructor
      · rintro ⟨hexact, -⟩ hin
        obtain ⟨n, -, hn, -⟩ := hexact.exact hin
        exact integer_ne_error (hn.symm.trans hreply)
      · intro hout
        refine ⟨⟨fun hin => absurd hin hout, fun _ => ⟨⟨_, hreply⟩, fun j => ?_⟩⟩, ?_⟩
        · rw [hcontent]
        · intro z hz
          cases hz

theorem incrby_exact :
    let env := fun _ : ℕ => World.still 10 0
    let frame := commandFrame [ascii "INCRBY", ascii "k", ascii "5"]
    ExactOrRefused freshSession.db.content (replyStep env freshSession frame).2.db.content 10
        (ascii "k") ((0 : Int64).toInt + (5 : Int64).toInt) (replyStep env freshSession frame).1 ∧
      ∀ z ∈ incrbySums 5 0, InI64 z := by
  intro env frame
  have hreq : Requests "INCRBY" (ascii "k") frame frame.elements :=
    requests_commandFrame "INCRBY" ⟨_, rfl, rfl⟩
  have hn : fromChars (argStr frame.elements 2) = .ok (5, []) := by decide +kernel
  have hadds : Adds frame.elements "INCRBY" (5 : Int64).toInt (incrbySums 5) := .incrby hn
  exact (counter_exactOrRefused_iff env freshSession hreq hadds (by decide +kernel)).mpr
    (fun h => absurd h (by decide))

/-- DECRBY by one wraps around at the least `i64`. -/
theorem decrby_wraps :
    let env := fun _ : ℕ => World.still 10 0
    let k := ascii "k"
    let set := commandFrame [ascii "SET", k, ascii "-9223372036854775808"]
    let s := (replyStep env freshSession set).2
    ¬ InI64 (Int64.minValue.toInt + -1) ∧ s.db.content.counterValue 10 k = some Int64.minValue ∧
      (replyStep env s (commandFrame [ascii "DECRBY", k, ascii "1"])).1 =
        RespEncoder.integer Int64.maxValue := by
  refine ⟨?_, ?_, ?_⟩ <;> decide +kernel

theorem Keyspace.deadlines_of_shown {K : Keyspace} {t : MillisecondTimestamp} {v : Bytes}
    {e : Option MillisecondTimestamp} (h : K.shown t k = some (v, e)) : K.deadlines k = e := by
  cases ho : K.objects k with
  | none =>
      rw [Keyspace.shown_of_none ho] at h
      cases h
  | some obj =>
      cases he : K.expired t k with
      | true =>
          rw [Keyspace.shown_of_expired he] at h
          cases h
      | false =>
          rw [Keyspace.shown_of_live ho he] at h
          exact (Prod.mk.inj (Option.some.inj h)).2

theorem deadlines_of_updateCounter {e : CommandEntry} {n : Int64} (h : Requests name k frame args)
    (hfind : findCommand (ascii name) = some e)
    (hhandler : e.handler args = updateCounter k refuses next)
    (hok : (replyStep env s frame).1 = RespEncoder.integer n) :
    (replyStep env s frame).2.db.content.deadlines k = none := by
  cases hc : s.db.content.counterValue (env s.calls).nowMs k with
  | none =>
      have herr : (replyStep env s frame).1 = RespEncoder.error notIntegerMessage := by
        apply h.reply_eq hfind
        rw [hhandler, updateCounter, exec_get_bind, perform_get_fst, getIntegerObj_get, hc]
        rfl
      exact absurd (hok.symm.trans herr) integer_ne_error
  | some c =>
      have hstep := replyStep_counter h hfind hhandler hc
      split_ifs at hstep
      · exact absurd (hok.symm.trans hstep.1) integer_ne_error
      · exact Keyspace.deadlines_of_shown (hstep.2 0)

theorem deadlines_of_updateBy {e : CommandEntry} {n : Int64} {refuses : Int64 → Int64 → Bool}
    {next : Int64 → Int64 → Int64} (h : Requests name k frame args)
    (hfind : findCommand (ascii name) = some e)
    (hread : ∀ d rest, fromChars (argStr args 2) = .ok (d, rest) →
      e.handler args = updateCounter k (refuses d) (next d))
    (herror : ∀ err, fromChars (argStr args 2) = .error err →
      e.handler args = reply (RespEncoder.error notIntegerMessage))
    (hok : (replyStep env s frame).1 = RespEncoder.integer n) :
    (replyStep env s frame).2.db.content.deadlines k = none := by
  cases hn : fromChars (argStr args 2) with
  | ok r => exact deadlines_of_updateCounter h hfind (hread r.1 r.2 hn) hok
  | error err =>
      have hreply := (@replyStep_of_reply env s k args frame _ e _ h hfind (herror err hn)).1
      exact absurd (hok.symm.trans hreply) integer_ne_error

theorem deadlines_of_append {n : Int64} (h : Requests "APPEND" k frame args)
    (hok : (replyStep env s frame).1 = RespEncoder.integer n) :
    (replyStep env s frame).2.db.content.deadlines k = none := by
  let e : CommandEntry := ⟨ascii "APPEND", handleAppend, 3, 3, true⟩
  obtain ⟨ha, hout, hdb⟩ := h.exec (e := e) rfl env s
  have hlen : 3 ≤ args.length := le_length_of_admits ha rfl
  rw [← hdb]
  change (exec env (handleAppend args) s).2.db.content.deadlines k = none
  change (exec env (handleAppend args) s).2.output = _ at hout
  cases hget : (s.perform env (.get (argStr args 1))).1 with
  | none =>
      rw [handleAppend, element_bind (by omega), element_bind (by omega), exec_get_bind, hget,
        h.key_eq]
      exact (holds_storeString_reply _ _ _ _).2
  | some obj =>
      by_cases htype : obj.type = .string
      · rw [← h.key_eq]
        exact (exec_handleAppend hlen hget htype).2.2
      · rw [handleAppend, element_bind (by omega), element_bind (by omega), exec_get_bind, hget]
          at hout
        dsimp only at hout
        rw [if_pos htype, hok] at hout
        have hhead := head_integer n
        rw [← List.append_cancel_left hout] at hhead
        cases hhead

/-- The commands that modify the value of a key. -/
inductive UpdateName : String → Prop
  | incr : UpdateName "INCR"
  | decr : UpdateName "DECR"
  | incrby : UpdateName "INCRBY"
  | decrby : UpdateName "DECRBY"
  | append : UpdateName "APPEND"

theorem deadlines_of_update {n : Int64} (hname : UpdateName name)
    (h : Requests name k frame args) (hok : (replyStep env s frame).1 = RespEncoder.integer n) :
    (replyStep env s frame).2.db.content.deadlines k = none := by
  cases hname with
  | incr =>
      let e : CommandEntry := ⟨ascii "INCR", handleIncr, 2, 2, true⟩
      obtain ⟨ha, -⟩ := h.exec (e := e) rfl env s
      exact deadlines_of_updateCounter (e := e) h rfl
        (handleIncr_eq (le_length_of_admits ha rfl) h.key_eq) hok
  | decr =>
      let e : CommandEntry := ⟨ascii "DECR", handleDecr, 2, 2, true⟩
      obtain ⟨ha, -⟩ := h.exec (e := e) rfl env s
      exact deadlines_of_updateCounter (e := e) h rfl
        (handleDecr_eq (le_length_of_admits ha rfl) h.key_eq) hok
  | incrby =>
      let e : CommandEntry := ⟨ascii "INCRBY", handleIncrby, 3, 3, true⟩
      obtain ⟨ha, -⟩ := h.exec (e := e) rfl env s
      have hlen : 3 ≤ args.length := le_length_of_admits ha rfl
      exact deadlines_of_updateBy (e := e) h rfl
        (fun _ _ hn => handleIncrby_eq hlen h.key_eq hn)
        (fun _ herr => handleIncrby_error hlen herr) hok
  | decrby =>
      let e : CommandEntry := ⟨ascii "DECRBY", handleDecrby, 3, 3, true⟩
      obtain ⟨ha, -⟩ := h.exec (e := e) rfl env s
      have hlen : 3 ≤ args.length := le_length_of_admits ha rfl
      exact deadlines_of_updateBy (e := e) h rfl
        (fun _ _ hn => handleDecrby_eq hlen h.key_eq hn)
        (fun _ herr => handleDecrby_error hlen herr) hok
  | append =>
      exact deadlines_of_append h hok

/-- The frame is one of the updates, on `k`. -/
def IsUpdate (k : Bytes) (frame : RespValue) : Prop :=
  ∃ name args, UpdateName name ∧ Requests name k frame args

theorem deadlines_of_updates {frames : List RespValue} (hne : frames ≠ [])
    (hupdates : ∀ frame ∈ frames, IsUpdate k frame)
    (hok : ∀ r ∈ (Run.run (replyStep env) s frames).1, ∃ n, r = RespEncoder.integer n) :
    (Run.run (replyStep env) s frames).2.db.content.deadlines k = none := by
  induction frames generalizing s with
  | nil => exact absurd rfl hne
  | cons frame frames ih =>
      rw [Run.run_cons] at hok ⊢
      obtain ⟨n, hn⟩ := hok _ List.mem_cons_self
      obtain ⟨name, args, hname, hreq⟩ := hupdates frame List.mem_cons_self
      cases frames with
      | nil => exact deadlines_of_update hname hreq hn
      | cons f fs =>
          exact ih (List.cons_ne_nil _ _) (fun g hg => hupdates g (List.mem_cons_of_mem _ hg))
            (fun r hr => hok r (List.mem_cons_of_mem _ hr))

/-- A run of successful updates keeps the deadline of the key exactly when it has none. -/
theorem updates_keep_deadline_iff (env : ℕ → World) (s : Session) {frames : List RespValue}
    (hne : frames ≠ []) (hupdates : ∀ frame ∈ frames, IsUpdate k frame)
    (hok : ∀ r ∈ (Run.run (replyStep env) s frames).1, ∃ n, r = RespEncoder.integer n) :
    (Run.run (replyStep env) s frames).2.db.content.deadlines k = s.db.content.deadlines k ↔
      s.db.content.deadlines k = none := by
  rw [deadlines_of_updates hne hupdates hok]
  exact eq_comm

theorem updates_keep_deadline_incr :
    let env := fun _ : ℕ => World.still 10 0
    let frame := commandFrame [ascii "INCR", ascii "k"]
    let final := (Run.run (replyStep env) freshSession [frame, frame]).2
    final.db.content.deadlines (ascii "k") = freshSession.db.content.deadlines (ascii "k") := by
  intro env frame final
  have hupdate : IsUpdate (ascii "k") frame :=
    ⟨"INCR", frame.elements, .incr, requests_commandFrame "INCR" ⟨_, rfl, rfl⟩⟩
  refine (updates_keep_deadline_iff env freshSession (List.cons_ne_nil frame [frame]) ?_ ?_).mpr ?_
  · intro f hf
    rcases List.mem_pair.mp hf with rfl | rfl <;> exact hupdate
  · have hreplies : (Run.run (replyStep env) freshSession [frame, frame]).1 =
        [RespEncoder.integer 1, RespEncoder.integer 2] := by decide +kernel
    intro r hr
    rw [hreplies] at hr
    rcases List.mem_pair.mp hr with rfl | rfl
    · exact ⟨1, rfl⟩
    · exact ⟨2, rfl⟩
  · decide +kernel

/-- A counter that SETEX gave ten seconds has no deadline after INCR. -/
theorem incr_drops_deadline :
    let env := fun _ : ℕ => World.still 10 0
    let k := ascii "k"
    let s := (replyStep env freshSession
      (commandFrame [ascii "SETEX", k, ascii "10", ascii "1"])).2
    let updated := replyStep env s (commandFrame [ascii "INCR", k])
    s.db.content.deadlines k = some 10010 ∧ updated.1 = RespEncoder.integer 2 ∧
      updated.2.db.content.deadlines k = none := by
  refine ⟨?_, ?_, ?_⟩ <;> decide +kernel

end Keva
