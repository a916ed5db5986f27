import Keva.Command.Replies
import Keva.Core.Shown
import Keva.Server.Events

/-!
# Reading back what was stored

A stored string comes back as it was, except that `create_string` keeps a decimal numeral as an
integer and forgets its redundant zeros. Whether a write took place is read off its reply; between
the write and the reading, commands about other keys and ticks of the cron may happen.
-/

namespace Keva

open Session Handler

/-- A numeral that the integer encoding takes and does not give back. -/
def RedundantNumeral (v : Bytes) : Prop :=
  (Buffer.tryParseInt v).isSome ∧ Decimal.Redundant v

theorem getStringValue_createString_iff (v : Bytes) (clock : UInt32) :
    (KevaObject.createString v clock).getStringValue = v ↔ ¬ RedundantNumeral v := by
  unfold RedundantNumeral
  rw [KevaObject.getStringValue_createString]
  cases hp : Buffer.tryParseInt v with
  | none => simp
  | some n =>
      rw [Option.isSome_some, eq_self, true_and]
      exact toChars_eq_iff (Buffer.fromChars_of_tryParseInt hp)

/-- The frame runs the command `name` on `key`. -/
structure Requests (name : String) (key : Bytes) (frame : RespValue) (args : List RespValue) :
    Prop where
  frame_eq : ∃ entry, frameCommand frame = some (entry, args) ∧ entry.name = ascii name
  key_eq : argStr args 1 = key

variable {env : ℕ → World} {s : Session} {k v : Bytes} {args : List RespValue} {frame : RespValue}

theorem exec_runCommand (entry : CommandEntry) (args : List RespValue) (env : ℕ → World)
    (s : Session) :
    (exec env (runCommand entry args) s).2.output = (exec env (entry.handler args) s).2.output ∧
      (exec env (runCommand entry args) s).2.db = (exec env (entry.handler args) s).2.db := by
  rw [runCommand, exec_bind, exec_bind]
  cases entry.write with
  | true => exact ⟨rfl, rfl⟩
  | false => exact ⟨rfl, rfl⟩

theorem replyStep_of_frameCommand {entry : CommandEntry}
    (h : frameCommand frame = some (entry, args)) :
    (exec env (entry.handler args) s).2.output = s.output ++ (replyStep env s frame).1 ∧
      (exec env (entry.handler args) s).2.db = (replyStep env s frame).2.db := by
  obtain ⟨heq, -⟩ := executeFrame_of_some h
  obtain ⟨hout, hdb⟩ := exec_runCommand entry args env s
  rw [← heq] at hout hdb
  rw [← hout, ← hdb, ← replyStep_output]
  exact ⟨rfl, rfl⟩

theorem Requests.exec {name : String} {e : CommandEntry} (h : Requests name k frame args)
    (hfind : findCommand (ascii name) = some e) (env : ℕ → World) (s : Session) :
    e.admits args = true ∧
      (Session.exec env (e.handler args) s).2.output = s.output ++ (replyStep env s frame).1 ∧
      (Session.exec env (e.handler args) s).2.db = (replyStep env s frame).2.db := by
  obtain ⟨entry, hframe, hname⟩ := h.frame_eq
  obtain ⟨-, -, ha, -⟩ := executeFrame_of_some hframe
  have hentry := (findCommand_of_frameCommand hframe).1
  rw [hname, hfind] at hentry
  obtain rfl := Option.some.inj hentry
  exact ⟨ha, replyStep_of_frameCommand hframe⟩

theorem Requests.reply_eq {name : String} {e : CommandEntry} (h : Requests name k frame args)
    (hfind : findCommand (ascii name) = some e) {bytes : Bytes}
    (hout : (Session.exec env (e.handler args) s).2.output = s.output ++ bytes) :
    (replyStep env s frame).1 = bytes := by
  obtain ⟨-, hout', -⟩ := h.exec hfind env s
  rw [hout'] at hout
  exact List.append_cancel_left hout

theorem Requests.content_eq {name : String} {e : CommandEntry} (h : Requests name k frame args)
    (hfind : findCommand (ascii name) = some e) :
    (replyStep env s frame).2.db.content = (Session.exec env (e.handler args) s).2.db.content := by
  obtain ⟨-, -, hdb⟩ := h.exec hfind env s
  rw [hdb]

theorem le_length_of_admits {e : CommandEntry} {n : ℕ} (ha : e.admits args = true)
    (hn : e.arityMin = n) : n ≤ args.length := by
  have := CommandEntry.le_length_of_admits ha
  omega

/-- What GET replies to a lookup. -/
def getReply : Option KevaObject → Bytes
  | none => RespEncoder.nil
  | some obj =>
      if obj.type ≠ .string then RespEncoder.wrongType wrongTypeMessage
      else RespEncoder.bulkString obj.getStringValue

def strlenReply : Option KevaObject → Bytes
  | none => RespEncoder.integer 0
  | some obj =>
      if obj.type ≠ .string then RespEncoder.wrongType wrongTypeMessage
      else RespEncoder.integer (Int64.ofNat obj.getStringValue.length)

theorem exec_handleGet (h : 2 ≤ args.length) (env : ℕ → World) (s : Session) :
    let r := s.perform env (.get (argStr args 1))
    (exec env (handleGet args) s).2.output = s.output ++ getReply r.1 ∧
      (exec env (handleGet args) s).2.db = r.2.db := by
  rw [handleGet, element_bind (by omega), exec_get_bind]
  dsimp only
  cases (s.perform env (.get (argStr args 1))).1 with
  | none => exact ⟨rfl, rfl⟩
  | some obj =>
      unfold getReply
      dsimp only
      split_ifs <;> exact ⟨rfl, rfl⟩

theorem exec_handleStrlen (h : 2 ≤ args.length) (env : ℕ → World) (s : Session) :
    (exec env (handleStrlen args) s).2.output =
      s.output ++ strlenReply (s.perform env (.get (argStr args 1))).1 := by
  rw [handleStrlen, element_bind (by omega), exec_get_bind]
  cases (s.perform env (.get (argStr args 1))).1 with
  | none => rfl
  | some obj =>
      unfold strlenReply
      dsimp only
      split_ifs <;> rfl

theorem perform_get_of_stored {obj : KevaObject} (ho : s.db.content.objects k = some obj)
    (hd : s.db.content.deadlines k = none) (env : ℕ → World) :
    ∃ clock, (s.perform env (.get k)).1 = some (obj.touch clock) := by
  refine ⟨LruClock.current (env s.calls).time, ?_⟩
  rw [perform_get_fst, Keyspace.get_of_live ho (Keyspace.expired_of_deadline_none _ hd)]

theorem get_stored {obj : KevaObject} (ho : s.db.content.objects k = some obj)
    (hd : s.db.content.deadlines k = none) (htype : obj.type = .string)
    (h : Requests "GET" k frame args) :
    (replyStep env s frame).1 = RespEncoder.bulkString obj.getStringValue := by
  obtain ⟨ha, hout, -⟩ := h.exec (e := ⟨ascii "GET", handleGet, 2, 2, false⟩) rfl env s
  obtain ⟨clock, hget⟩ := perform_get_of_stored ho hd env
  have hreply := (exec_handleGet (le_length_of_admits ha rfl) env s).1
  rw [hout, h.key_eq, hget] at hreply
  rw [List.append_cancel_left hreply, getReply, if_neg, KevaObject.getStringValue_touch]
  rw [KevaObject.type_touch, htype]
  simp

theorem strlen_stored {obj : KevaObject} (ho : s.db.content.objects k = some obj)
    (hd : s.db.content.deadlines k = none) (htype : obj.type = .string)
    (h : Requests "STRLEN" k frame args) :
    (replyStep env s frame).1 =
      RespEncoder.integer (Int64.ofNat obj.getStringValue.length) := by
  obtain ⟨ha, hout, -⟩ := h.exec (e := ⟨ascii "STRLEN", handleStrlen, 2, 2, false⟩) rfl env s
  obtain ⟨clock, hget⟩ := perform_get_of_stored ho hd env
  have hreply := exec_handleStrlen (le_length_of_admits ha rfl) env s
  rw [hout, h.key_eq, hget] at hreply
  rw [List.append_cancel_left hreply, strlenReply, if_neg, KevaObject.getStringValue_touch]
  rw [KevaObject.type_touch, htype]
  simp

/-- `k` holds `v` as `create_string` stores it, and has no deadline. -/
def Holds (K : Keyspace) (k v : Bytes) : Prop :=
  (∃ clock, K.objects k = some (KevaObject.createString v clock)) ∧ K.deadlines k = none

theorem holds_set (K : Keyspace) (k v : Bytes) (clock : UInt32) :
    Holds (K.set k (KevaObject.createString v clock)) k v := by
  refine ⟨⟨clock, ?_⟩, ?_⟩
  · simp [Keyspace.set]
  · simp [Keyspace.set]

theorem exec_storeString (k v : Bytes) (s : Session) :
    Holds (exec env (storeString k v) s).2.db.content k v := by
  change Holds (s.db.set k _).content k v
  rw [KevaDatabase.content_set]
  exact holds_set _ _ _ _

theorem holds_storeString_reply (k v bytes : Bytes) (s : Session) :
    Holds (exec env (do
      storeString k v
      reply bytes) s).2.db.content k v := by
  rw [exec_bind]
  exact exec_storeString k v s

/-- No option word sets a lifetime: `EX` and `PX` count only with a word after them. -/
def NoLifetime (args : List RespValue) : Prop :=
  ∀ i, 3 ≤ i → i + 1 < args.length →
    (argStr args i).map toUpper ≠ ascii "EX" ∧ (argStr args i).map toUpper ≠ ascii "PX"

theorem setOptions_of_noLifetime (h : NoLifetime args) (fuel : ℕ) {i : ℕ} (hi : 3 ≤ i)
    (o : SetOptions) :
    ∃ o', setOptions args fuel i o = pure (some o') ∧ o'.expireMs = o.expireMs := by
  induction fuel generalizing i o with
  | zero => exact ⟨o, rfl, rfl⟩
  | succ fuel ih =>
      unfold setOptions
      split_ifs with hlt
      · rw [element_bind hlt]
        dsimp only
        split_ifs with hex hpx hnx hxx
        · exact absurd hex.1 (h i hi hex.2).1
        · exact absurd hpx.1 (h i hi hpx.2).2
        · obtain ⟨o', hrun, he⟩ := ih (show 3 ≤ i + 1 by omega) { o with nx := true }
          exact ⟨o', hrun, he⟩
        · obtain ⟨o', hrun, he⟩ := ih (show 3 ≤ i + 1 by omega) { o with xx := true }
          exact ⟨o', hrun, he⟩
        · exact ih (by omega) o
      · exact ⟨o, rfl, rfl⟩

theorem exec_handleSet (h : 3 ≤ args.length) (hlife : NoLifetime args) (env : ℕ → World)
    (s : Session) :
    ((exec env (handleSet args) s).2.output = s.output ++ RespEncoder.nil) ∨
      ((exec env (handleSet args) s).2.output = s.output ++ RespEncoder.ok ∧
        Holds (exec env (handleSet args) s).2.db.content (argStr args 1) (argStr args 2)) := by
  obtain ⟨o, hopt, hexpire⟩ := setOptions_of_noLifetime hlife args.length (le_refl 3)
    ⟨-1, false, false⟩
  have hneg : ¬ 0 < o.expireMs := by rw [hexpire]; decide
  rw [handleSet, element_bind (by omega), element_bind (by omega), hopt, pure_bind]
  dsimp only
  rw [exec_bind]
  have hsilent := silent_exists (argStr args 1) env s
  generalize exec env («exists» (argStr args 1)) s = r at hsilent ⊢
  split_ifs
  · exact .inl (by rw [← hsilent]; rfl)
  · exact .inl (by rw [← hsilent]; rfl)
  · refine .inr ⟨?_, holds_storeString_reply _ _ _ _⟩
    rw [exec_bind, ← hsilent]
    have hstore := silent_storeString (argStr args 1) (argStr args 2) env r.2
    rw [← hstore]
    rfl

theorem exec_handleGetset (h : 3 ≤ args.length) (env : ℕ → World) (s : Session) :
    (exec env (handleGetset args) s).2.output =
        s.output ++ RespEncoder.wrongType wrongTypeMessage ∨
      Holds (exec env (handleGetset args) s).2.db.content (argStr args 1) (argStr args 2) := by
  rw [handleGetset, element_bind (by omega), element_bind (by omega), exec_get_bind]
  cases (s.perform env (.get (argStr args 1))).1 with
  | none =>
      right
      rw [exec_bind]
      exact exec_storeString _ _ _
  | some old =>
      dsimp only
      split_ifs
      · exact .inl rfl
      · right
        rw [exec_bind]
        exact exec_storeString _ _ _

theorem exec_handleSetnx (h : 3 ≤ args.length) (env : ℕ → World) (s : Session) :
    (exec env (handleSetnx args) s).2.output = s.output ++ RespEncoder.integer 0 ∨
      Holds (exec env (handleSetnx args) s).2.db.content (argStr args 1) (argStr args 2) := by
  rw [handleSetnx, element_bind (by omega), element_bind (by omega), exec_bind]
  have hsilent := silent_exists (argStr args 1) env s
  generalize exec env («exists» (argStr args 1)) s = r at hsilent ⊢
  split_ifs
  · exact .inl (by rw [← hsilent]; rfl)
  · exact .inr (holds_storeString_reply _ _ _ _)

theorem msetRound_eq {i : ℕ} (hi : i + 1 < args.length) :
    msetRound args i = storeString (argStr args i) (argStr args (i + 1)) := by
  rw [msetRound, element_bind hi]
  unfold storeString
  congr 1
  funext clock
  rw [element_bind (by omega)]

theorem exec_msetRound {i : ℕ} (hi : i + 1 < args.length) (env : ℕ → World) (s : Session) :
    Holds (exec env (msetRound args i) s).2.db.content (argStr args i) (argStr args (i + 1)) := by
  rw [msetRound_eq hi]
  exact exec_storeString _ _ _

theorem exec_handleMset {j : ℕ} (hj : j ∈ List.range' 1 (args.length / 2) 2)
    (hlast : ∀ i ∈ List.range' 1 (args.length / 2) 2, j < i → argStr args i ≠ argStr args j)
    (env : ℕ → World) (s : Session) :
    (exec env (handleMset args) s).2.output =
        s.output ++ RespEncoder.error (ascii "wrong number of arguments for MSET") ∨
      Holds (exec env (handleMset args) s).2.db.content (argStr args j) (argStr args (j + 1)) := by
  unfold handleMset
  split_ifs with hodd
  · exact .inl rfl
  right
  rw [exec_bind]
  change Holds (exec env (forM (List.range' 1 (args.length / 2) 2) (msetRound args)) s).2.db.content
    _ _
  obtain ⟨m, hm, rfl⟩ := List.mem_range'.mp hj
  -- the rounds before the last write of the key, that round, and the rounds after it
  have hsplit : List.range' 1 (args.length / 2) 2 = List.range' 1 m 2 ++
      (1 + 2 * m) :: List.range' (1 + 2 * m + 2) (args.length / 2 - (m + 1)) 2 := by
    rw [← List.range'_succ, List.range'_append]
    congr 1
    omega
  rw [hsplit, List.forM_append, exec_bind, List.forM_cons, exec_bind]
  generalize (exec env (forM (List.range' 1 m 2) (msetRound args)) s).2 = s₁
  have hround : Holds (exec env (msetRound args (1 + 2 * m)) s₁).2.db.content
      (argStr args (1 + 2 * m)) (argStr args (1 + 2 * m + 1)) := exec_msetRound (by omega) env s₁
  have huses : Uses [.store, .clock]
      ((List.range' (1 + 2 * m + 2) (args.length / 2 - (m + 1)) 2).map (argStr args))
      (forM (List.range' (1 + 2 * m + 2) (args.length / 2 - (m + 1)) 2) (msetRound args)) := by
    refine Program.calls_forM fun i hi => ?_
    obtain ⟨n, hn, rfl⟩ := List.mem_range'.mp hi
    exact uses_msetRound (by simp) (by simp) (by omega) (List.mem_map_of_mem hi)
  have hother : argStr args (1 + 2 * m) ∉
      (List.range' (1 + 2 * m + 2) (args.length / 2 - (m + 1)) 2).map (argStr args) := by
    intro hmem
    obtain ⟨i, hi, heq⟩ := List.mem_map.mp hmem
    refine hlast i ?_ ?_ heq
    · rw [hsplit]
      exact List.mem_append_right _ (List.mem_cons_of_mem _ hi)
    · obtain ⟨n, hn, rfl⟩ := List.mem_range'.mp hi
      omega
  obtain ⟨ho, hd⟩ := exec_elsewhere huses (by decide) hother env
    (exec env (msetRound args (1 + 2 * m)) s₁).2
  unfold Holds
  rw [ho, hd]
  exact hround

/-- The reply tells that `v` was stored under `k`. For MSET `v` is the last value given for `k`. -/
inductive Stores (k v : Bytes) (args : List RespValue) (reply : Bytes) : String → Prop
  | set (hk : argStr args 1 = k) (hv : argStr args 2 = v) (hlife : NoLifetime args)
      (hreply : reply = RespEncoder.ok) : Stores k v args reply "SET"
  | getset (hk : argStr args 1 = k) (hv : argStr args 2 = v)
      (hreply : reply ≠ RespEncoder.wrongType wrongTypeMessage) : Stores k v args reply "GETSET"
  | setnx (hk : argStr args 1 = k) (hv : argStr args 2 = v)
      (hreply : reply = RespEncoder.integer 1) : Stores k v args reply "SETNX"
  | mset (j : ℕ) (hj : j ∈ List.range' 1 (args.length / 2) 2) (hk : argStr args j = k)
      (hv : argStr args (j + 1) = v)
      (hlast : ∀ i ∈ List.range' 1 (args.length / 2) 2, j < i → argStr args i ≠ k)
      (hreply : reply = RespEncoder.ok) : Stores k v args reply "MSET"

theorem holds_of_stores {name : String} (h : Requests name (argStr args 1) frame args)
    (hs : Stores k v args (replyStep env s frame).1 name) :
    Holds (replyStep env s frame).2.db.content k v := by
  cases hs with
  | set hk hv hlife hreply =>
      obtain ⟨ha, hout, hdb⟩ := h.exec (e := ⟨ascii "SET", handleSet, 3, -1, true⟩) rfl env s
      rw [← hdb, ← hk, ← hv]
      rcases exec_handleSet (le_length_of_admits ha rfl) hlife env s with hnil | ⟨-, hheld⟩
      · rw [hout, hreply] at hnil
        exact absurd (List.append_cancel_left hnil) (by decide)
      · exact hheld
  | getset hk hv hreply =>
      obtain ⟨ha, hout, hdb⟩ := h.exec (e := ⟨ascii "GETSET", handleGetset, 3, 3, true⟩) rfl env s
      rw [← hdb, ← hk, ← hv]
      rcases exec_handleGetset (le_length_of_admits ha rfl) env s with hwrong | hheld
      · rw [hout] at hwrong
        exact absurd (List.append_cancel_left hwrong) hreply
      · exact hheld
  | setnx hk hv hreply =>
      obtain ⟨ha, hout, hdb⟩ := h.exec (e := ⟨ascii "SETNX", handleSetnx, 3, 3, true⟩) rfl env s
      rw [← hdb, ← hk, ← hv]
      rcases exec_handleSetnx (le_length_of_admits ha rfl) env s with hzero | hheld
      · rw [hout, hreply] at hzero
        exact absurd (List.append_cancel_left hzero) (by decide)
      · exact hheld
  | mset j hj hk hv hlast hreply =>
      obtain ⟨-, hout, hdb⟩ := h.exec (e := ⟨ascii "MSET", handleMset, 3, -1, true⟩) rfl env s
      rw [← hdb, ← hk, ← hv]
      rcases exec_handleMset hj (hk ▸ hlast) env s with herr | hheld
      · rw [hout, hreply] at herr
        exact absurd (List.append_cancel_left herr) (by decide)
      · exact hheld

theorem integer_injective {m n : Int64} (h : RespEncoder.integer m = RespEncoder.integer n) :
    m = n := by
  unfold RespEncoder.integer RespEncoder.integerLine at h
  have hchars := List.append_cancel_right (List.append_cancel_left h)
  have hm := fromChars_toChars_self m
  rw [hchars, fromChars_toChars_self] at hm
  exact (Prod.mk.inj (Except.ok.inj hm)).1.symm

theorem integer_ofNat_injective {m n : ℕ} (hm : m ≤ maxSize) (hn : n ≤ maxSize)
    (h : RespEncoder.integer (Int64.ofNat m) = RespEncoder.integer (Int64.ofNat n)) : m = n := by
  have heq := congrArg Int64.toInt (integer_injective h)
  rw [(fromChars_toChars_ofNat hm).2, (fromChars_toChars_ofNat hn).2] at heq
  exact Int.ofNat_inj.mp heq

theorem bulkString_injective {u v : Bytes}
    (h : RespEncoder.bulkString u = RespEncoder.bulkString v) :
    u = v := by
  have hline : ∀ w : Bytes, RespParser.parseLine ((RespEncoder.bulkString w).drop 1) =
      .complete (toChars (Int64.ofNat w.length)) (w ++ crlf) := by
    intro w
    have hdrop : (RespEncoder.bulkString w).drop 1 =
        toChars (Int64.ofNat w.length) ++ crlf ++ (w ++ crlf) := by
      simp [RespEncoder.bulkString, RespEncoder.integerLine, ascii]
    rw [hdrop, RespParser.parseLine_append (crlf_not_infix_toChars _)]
  have hu := hline u
  rw [h, hline v] at hu
  exact (List.append_cancel_right (Framing.Verdict.complete.inj hu).2).symm

theorem bulkString_ne_nil (v : Bytes) : RespEncoder.bulkString v ≠ RespEncoder.nil := by
  intro h
  have hlen := congrArg List.length h
  have hpos : 0 < (toChars (Int64.ofNat v.length)).length :=
    List.length_pos_iff.mpr (toChars_ne_nil _)
  have hnil : RespEncoder.nil.length = 5 := rfl
  have hdollar : (ascii "$").length = 1 := rfl
  have hcrlf : crlf.length = 2 := rfl
  rw [RespEncoder.bulkString, RespEncoder.integerLine, List.length_append, List.length_append,
    List.length_append, List.length_append] at hlen
  omega

theorem replyStep_get (h : Requests "GET" k frame args) (env : ℕ → World) (s : Session) :
    (replyStep env s frame).1 =
      getReply (s.db.content.get k (env s.calls).nowMs (env s.calls).time).1 := by
  obtain ⟨ha, -⟩ := h.exec (e := ⟨ascii "GET", handleGet, 2, 2, false⟩) rfl env s
  rw [← h.key_eq, ← perform_get_fst]
  exact h.reply_eq rfl (exec_handleGet (le_length_of_admits ha rfl) env s).1

theorem getReply_eq_nil_iff {o : Option KevaObject} : getReply o = RespEncoder.nil ↔ o = none := by
  cases o with
  | none => exact iff_of_true rfl rfl
  | some obj =>
      refine iff_of_false ?_ (by simp)
      unfold getReply
      dsimp only
      split_ifs
      · intro h
        exact absurd (congrArg List.head? h) (by decide +kernel)
      · exact bulkString_ne_nil _

theorem replyStep_get_eq_nil_iff (h : Requests "GET" k frame args) (env : ℕ → World)
    (s : Session) : (replyStep env s frame).1 = RespEncoder.nil ↔
      s.db.content.shown (env s.calls).nowMs k = none := by
  rw [replyStep_get h, getReply_eq_nil_iff, ← Option.not_isSome_iff_eq_none,
    ← Option.not_isSome_iff_eq_none, Keyspace.get_isSome_iff, Keyspace.shown_isSome_iff]

theorem stored_of_get_reply {u : Bytes} (h : Requests "GET" k frame args)
    (hreply : (replyStep env s frame).1 = RespEncoder.bulkString u) :
    ∃ obj, (replyStep env s frame).2.db.content.objects k = some obj ∧ obj.type = .string ∧
      obj.getStringValue = u := by
  obtain ⟨ha, hout, hdb⟩ := h.exec (e := ⟨ascii "GET", handleGet, 2, 2, false⟩) rfl env s
  obtain ⟨hget, hdb'⟩ := exec_handleGet (le_length_of_admits ha rfl) env s
  rw [hout, h.key_eq] at hget
  have hfound := (List.append_cancel_left hget).symm.trans hreply
  have hcontent : (replyStep env s frame).2.db.content =
      (s.db.content.get k (env s.calls).nowMs (env s.calls).time).2 := by
    rw [← hdb, hdb', h.key_eq, content_perform]
    rfl
  rw [perform_get_fst] at hfound
  cases ho : (s.db.content.get k (env s.calls).nowMs (env s.calls).time).1 with
  | none =>
      rw [ho] at hfound
      exact absurd hfound.symm (bulkString_ne_nil u)
  | some obj =>
      rw [ho] at hfound
      unfold getReply at hfound
      dsimp only at hfound
      split_ifs at hfound with htype
      · have hhead := congrArg List.head? hfound
        exact absurd hhead (by simp [RespEncoder.wrongType, RespEncoder.bulkString, ascii])
      · refine ⟨obj, ?_, not_not.mp htype, bulkString_injective hfound⟩
        rw [hcontent]
        exact Keyspace.objects_of_get ho

theorem exec_handleAppend (h : 3 ≤ args.length) {env : ℕ → World} {s : Session} {obj : KevaObject}
    (hget : (s.perform env (.get (argStr args 1))).1 = some obj) (htype : obj.type = .string) :
    (exec env (handleAppend args) s).2.output = s.output ++ RespEncoder.integer
        (Int64.ofNat (obj.getStringValue ++ argStr args 2).length) ∧
      Holds (exec env (handleAppend args) s).2.db.content (argStr args 1)
        (obj.getStringValue ++ argStr args 2) := by
  rw [handleAppend, element_bind (by omega), element_bind (by omega), exec_get_bind, hget]
  dsimp only
  rw [if_neg (by rw [htype]; simp)]
  refine ⟨?_, holds_storeString_reply _ _ _ _⟩
  rw [exec_bind]
  change (exec env (storeString _ _) _).2.output ++ _ = _
  rw [silent_storeString, perform_output (by simp [Call.kind])]

theorem append_stored {u : Bytes} {obj : KevaObject} (ho : s.db.content.objects k = some obj)
    (hlive : s.db.content.expired (env s.calls).nowMs k = false) (htype : obj.type = .string)
    (hu : obj.getStringValue = u) (h : Requests "APPEND" k frame args) :
    (replyStep env s frame).1 =
        RespEncoder.integer (Int64.ofNat (u ++ argStr args 2).length) ∧
      Holds (replyStep env s frame).2.db.content k (u ++ argStr args 2) := by
  obtain ⟨ha, hout, hdb⟩ := h.exec (e := ⟨ascii "APPEND", handleAppend, 3, 3, true⟩) rfl env s
  have hget : (s.perform env (.get (argStr args 1))).1 =
      some (obj.touch (LruClock.current (env s.calls).time)) := by
    rw [perform_get_fst, h.key_eq, Keyspace.get_of_live ho hlive]
  obtain ⟨hreply, hheld⟩ := exec_handleAppend (le_length_of_admits ha rfl) hget
    ((KevaObject.type_touch _ _).trans htype)
  rw [KevaObject.getStringValue_touch, hu] at hreply hheld
  rw [hout] at hreply
  rw [hdb, h.key_eq] at hheld
  exact ⟨List.append_cancel_left hreply, hheld⟩

/-- GET and STRLEN answer with `v`, from every state that events about other keys lead to. -/
def ReadsBack (s : Session) (k v : Bytes) : Prop :=
  ∀ events : List ServerEvent, (∀ e ∈ events, e.Avoids k) → ∀ env frame args,
    (Requests "GET" k frame args →
      (replyStep env (s.handleAll events) frame).1 = RespEncoder.bulkString v) ∧
    (Requests "STRLEN" k frame args →
      (replyStep env (s.handleAll events) frame).1 = RespEncoder.integer (Int64.ofNat v.length))

/-- The frame of a command with bulk string arguments. -/
def commandFrame (words : List Bytes) : RespValue := .array (words.map .bulkString)

theorem requests_commandFrame (name : String) {rest : List Bytes}
    (h : ∃ entry, frameCommand (commandFrame (ascii name :: k :: rest)) =
      some (entry, (commandFrame (ascii name :: k :: rest)).elements) ∧ entry.name = ascii name) :
    Requests name k (commandFrame (ascii name :: k :: rest))
      (commandFrame (ascii name :: k :: rest)).elements :=
  ⟨h, rfl⟩

theorem requests_get (k : Bytes) :
    Requests "GET" k (.array [.bulkString (ascii "GET"), .bulkString k])
      [.bulkString (ascii "GET"), .bulkString k] :=
  ⟨⟨⟨ascii "GET", handleGet, 2, 2, false⟩, rfl, rfl⟩, rfl⟩

theorem readsBack_iff (h : Holds s.db.content k v) : ReadsBack s k v ↔ ¬ RedundantNumeral v := by
  obtain ⟨⟨clock, ho⟩, hd⟩ := h
  have htype := (KevaObject.canonical_createString v clock).type_eq
  constructor
  · intro hread
    have hget := (hread [] (by simp) (fun _ => World.still 0 0) _ _).1 (requests_get k)
    rw [show s.handleAll [] = s from rfl, get_stored ho hd htype (requests_get k)] at hget
    exact (getStringValue_createString_iff v clock).mp (bulkString_injective hget)
  · intro hv events hevents env frame args
    have hvalue := (getStringValue_createString_iff v clock).mpr hv
    obtain ⟨ho', hd'⟩ := handleAll_elsewhere hevents hd
    rw [ho] at ho'
    constructor
    · intro hget
      rw [get_stored ho' hd' htype hget, hvalue]
    · intro hstrlen
      rw [strlen_stored ho' hd' htype hstrlen, hvalue]

/-- What SET, GETSET, SETNX, MSET and APPEND have stored is read back exactly when it is no numeral
with a redundant zero. -/
theorem stored_strings_iff (env : ℕ → World) (s : Session) :
    (∀ name frame args k v, Requests name (argStr args 1) frame args →
      Stores k v args (replyStep env s frame).1 name →
      (ReadsBack (replyStep env s frame).2 k v ↔ ¬ RedundantNumeral v)) ∧
    (∀ env' frame args frame' args' k u, Requests "GET" k frame args →
      (replyStep env s frame).1 = RespEncoder.bulkString u →
      let s' := (replyStep env s frame).2
      s'.db.content.expired (env' s'.calls).nowMs k = false →
      Requests "APPEND" k frame' args' →
      (((replyStep env' s' frame').1 =
          RespEncoder.integer (Int64.ofNat (u.length + (argStr args' 2).length)) ∧
        ReadsBack (replyStep env' s' frame').2 k (u ++ argStr args' 2)) ↔
      ¬ RedundantNumeral (u ++ argStr args' 2))) := by
  refine ⟨fun name frame args k v h hs => readsBack_iff (holds_of_stores h hs), ?_⟩
  intro env' frame args frame' args' k u hget hreply s' hlive happend
  obtain ⟨obj, ho, htype, hu⟩ := stored_of_get_reply hget hreply
  obtain ⟨hlen, hheld⟩ := append_stored ho hlive htype hu happend
  rw [List.length_append] at hlen
  rw [← readsBack_iff hheld]
  exact ⟨And.right, fun hread => ⟨hlen, hread⟩⟩

/-- A fresh server on which the clock stands at ten milliseconds. -/
def freshSession : Session :=
  Session.initial (.exact fun _ => 0) (.exact fun _ => 0) (.init ⟨6379, 10, true⟩ 0)

theorem stored_strings_hello :
    let env := fun _ : ℕ => World.still 10 0
    let frame := RespValue.array
      [.bulkString (ascii "SET"), .bulkString (ascii "k"), .bulkString (ascii "hello")]
    ReadsBack (replyStep env freshSession frame).2 (ascii "k") (ascii "hello") ↔
      ¬ RedundantNumeral (ascii "hello") := by
  intro env frame
  have hreq : Requests "SET" (ascii "k") frame frame.elements :=
    ⟨⟨⟨ascii "SET", handleSet, 3, -1, true⟩, rfl, rfl⟩, rfl⟩
  have hlife : NoLifetime frame.elements := by
    intro i hi hlt
    have hlen : frame.elements.length = 3 := rfl
    omega
  exact (stored_strings_iff env freshSession).1 "SET" frame frame.elements (ascii "k")
    (ascii "hello") hreq (.set rfl rfl hlife rfl)

/-- `SET k 007` is acknowledged, and `GET k` replies with `7`. -/
theorem set_redundant_numeral :
    let env := fun _ : ℕ => World.still 10 0
    let v := ascii "007"
    let frame := RespValue.array [.bulkString (ascii "SET"), .bulkString (ascii "k"), .bulkString v]
    let getFrame := RespValue.array [.bulkString (ascii "GET"), .bulkString (ascii "k")]
    let s := (replyStep env freshSession frame).2
    (replyStep env freshSession frame).1 = RespEncoder.ok ∧
      (replyStep env s getFrame).1 = ascii "$1\r\n7\r\n" ∧
      (replyStep env s getFrame).1 ≠ RespEncoder.bulkString v := by
  intro env v frame getFrame s
  have hget : (replyStep env s getFrame).1 = ascii "$1\r\n7\r\n" := by decide +kernel
  refine ⟨by decide +kernel, hget, ?_⟩
  rw [hget]
  decide

end Keva
