import Keva.Command.Strings
import Keva.Lib.Int64Exact

/-!
# TTL, PTTL and PERSIST

The three commands answer by different routes: `pttl` reads both tables and does not look whether
the key has expired, `exists` deletes an expired key first, and PERSIST does not look whether there
was a deadline to remove. `TtlAgrees` is what they would answer if they agreed with GET.
-/

namespace Keva

open Session Handler

variable {env : ℕ → World} {s : Session} {k : Bytes} {args : List RespValue} {frame : RespValue}

theorem replyStep_of_pttl {name : String} {e : CommandEntry} {f : Int64 → Int64}
    (h : Requests name k frame args) (hfind : findCommand (ascii name) = some e)
    (hexec : Session.exec env (e.handler args) s =
      Session.exec env (reply (RespEncoder.integer (f (s.perform env (.pttl k)).1)))
        (s.perform env (.pttl k)).2) :
    (replyStep env s frame).1 =
        RespEncoder.integer (f (s.db.content.pttl k (env s.calls).nowMs)) ∧
      (replyStep env s frame).2.db.content = s.db.content := by
  have hfst : (s.perform env (.pttl k)).1 = s.db.content.pttl k (env s.calls).nowMs :=
    KevaDatabase.pttl_fst _ _ _
  constructor
  · apply h.reply_eq hfind
    rw [hexec, hfst]
    rfl
  · rw [h.content_eq hfind, hexec]
    exact content_perform s (.pttl k)

theorem replyStep_pttl (h : Requests "PTTL" k frame args) (env : ℕ → World) (s : Session) :
    (replyStep env s frame).1 = RespEncoder.integer (s.db.content.pttl k (env s.calls).nowMs) ∧
      (replyStep env s frame).2.db.content = s.db.content := by
  let e : CommandEntry := ⟨ascii "PTTL", handlePttl, 2, 2, false⟩
  obtain ⟨ha, -⟩ := h.exec (e := e) rfl env s
  have hlen : 2 ≤ args.length := le_length_of_admits ha rfl
  refine replyStep_of_pttl (e := e) (f := id) h rfl ?_
  change Session.exec env (handlePttl args) s = _
  rw [handlePttl, element_bind (by omega), h.key_eq]
  rfl

/-- What TTL makes of the milliseconds. -/
def ttlOf (pttlMs : Int64) : Int64 :=
  if pttlMs = -2 then -2 else if pttlMs = -1 then -1 else pttlMs / 1000

theorem replyStep_ttl (h : Requests "TTL" k frame args) (env : ℕ → World) (s : Session) :
    (replyStep env s frame).1 =
        RespEncoder.integer (ttlOf (s.db.content.pttl k (env s.calls).nowMs)) ∧
      (replyStep env s frame).2.db.content = s.db.content := by
  let e : CommandEntry := ⟨ascii "TTL", handleTtl, 2, 2, false⟩
  obtain ⟨ha, -⟩ := h.exec (e := e) rfl env s
  have hlen : 2 ≤ args.length := le_length_of_admits ha rfl
  refine replyStep_of_pttl (e := e) h rfl ?_
  change Session.exec env (handleTtl args) s = _
  rw [handleTtl, element_bind (by omega), h.key_eq]
  let ms : Int64 := (s.perform env (.pttl k)).1
  change Session.exec env
    (if ms = -2 then reply (RespEncoder.integer (-2))
      else if ms = -1 then reply (RespEncoder.integer (-1))
      else reply (RespEncoder.integer (ms / 1000))) (s.perform env (.pttl k)).2 =
    Session.exec env (reply (RespEncoder.integer (ttlOf ms))) (s.perform env (.pttl k)).2
  unfold ttlOf
  split_ifs <;> rfl

theorem replyStep_persist (h : Requests "PERSIST" k frame args) (env : ℕ → World) (s : Session) :
    let r := s.db.content.get k (env s.calls).nowMs (env s.calls).time
    (replyStep env s frame).1 = RespEncoder.integer (if r.1.isSome then 1 else 0) ∧
      (replyStep env s frame).2.db.content = if r.1.isSome then r.2.removeExpire k else r.2 := by
  intro r
  obtain ⟨ha, -⟩ := h.exec (e := ⟨ascii "PERSIST", handlePersist, 2, 2, true⟩) rfl env s
  have hlen : 2 ≤ args.length := le_length_of_admits ha rfl
  have hfst : (s.perform env (.get k)).1 = r.1 := perform_get_fst s k
  have hcontent : (s.perform env (.get k)).2.db.content = r.2 := content_perform s (.get k)
  have hexec : Session.exec env (handlePersist args) s =
      if r.1.isSome then
        Session.exec env (reply (RespEncoder.integer 1))
          ((s.perform env (.get k)).2.perform env (.removeExpire k)).2
      else Session.exec env (reply (RespEncoder.integer 0)) (s.perform env (.get k)).2 := by
    rw [handlePersist, element_bind (by omega), h.key_eq, ← hfst]
    change Session.exec env
      (if !(s.perform env (.get k)).1.isSome then reply (RespEncoder.integer 0)
        else do
          removeExpire k
          reply (RespEncoder.integer 1)) (s.perform env (.get k)).2 = _
    cases (s.perform env (.get k)).1 <;> rfl
  by_cases hsome : r.1.isSome = true
  · rw [if_pos hsome, if_pos hsome]
    rw [if_pos hsome] at hexec
    refine ⟨h.reply_eq rfl (by rw [hexec]; rfl), ?_⟩
    rw [h.content_eq rfl, hexec, ← hcontent]
    exact @content_perform env _ (.removeExpire k)
  · rw [if_neg hsome, if_neg hsome]
    rw [if_neg hsome] at hexec
    refine ⟨h.reply_eq rfl (by rw [hexec]; rfl), ?_⟩
    rw [h.content_eq rfl, hexec]
    exact hcontent

/-- A reply that tells how long a key still lives, in units of `unit` milliseconds, if the key shows
`shown` at time `t` and `got` is the reply of GET. -/
structure Tells (shown : Option (Bytes × Option MillisecondTimestamp)) (t : MillisecondTimestamp)
    (unit : ℤ) (got reply : Bytes) : Prop where
  missing : reply = RespEncoder.integer (-2) ↔ got = RespEncoder.nil
  persistent : reply = RespEncoder.integer (-1) ↔ ∃ v, shown = some (v, none)
  live : ∀ v e, shown = some (v, some e) → 0 < e.toInt - t.toInt ∧
    ∃ n : Int64, reply = RespEncoder.integer n ∧ n.toInt = (e.toInt - t.toInt) / unit

/-- PERSIST replies 1 and takes the deadline off if the key is shown with one; otherwise it replies
0, and what is shown stays. -/
structure Persists (K K' : Keyspace) (t : MillisecondTimestamp) (k : Bytes) (reply : Bytes) :
    Prop where
  live : ∀ v e, K.shown t k = some (v, some e) → reply = RespEncoder.integer 1 ∧
    K'.pttl k t = -1 ∧ K'.shown t k = some (v, none) ∧ ∀ j, j ≠ k → K'.shown t j = K.shown t j
  other : (∀ v e, K.shown t k ≠ some (v, some e)) →
    reply = RespEncoder.integer 0 ∧ ∀ j, K'.shown t j = K.shown t j

/-- The key is missing, or lives until a deadline that is not too far away for the subtraction. -/
def HasLifetime (K : Keyspace) (t : MillisecondTimestamp) (k : Bytes) : Prop :=
  K.objects k = none ∨
    ∃ e, K.deadlines k = some e ∧ t < e ∧ InI64 (e.toInt - t.toInt)

section

variable {K : Keyspace} {t : MillisecondTimestamp} {unit : ℤ} {got : Bytes}

theorem tells_missing (hgot : got = RespEncoder.nil) :
    Tells none t unit got (RespEncoder.integer (-2)) := by
  refine ⟨iff_of_true rfl hgot, iff_of_false (fun h => ?_) (by simp), fun v e h => by cases h⟩
  exact absurd (integer_injective h) (by decide)

theorem tells_live {v : Bytes} {e : MillisecondTimestamp} {n : Int64}
    (hgot : got ≠ RespEncoder.nil) (hpos : 0 < e.toInt - t.toInt) (hunit : 0 < unit)
    (hn : n.toInt = (e.toInt - t.toInt) / unit) :
    Tells (some (v, some e)) t unit got (RespEncoder.integer n) := by
  have hnonneg : 0 ≤ n.toInt := by
    rw [hn]
    exact Int.ediv_nonneg hpos.le hunit.le
  refine ⟨iff_of_false (fun h => ?_) hgot, iff_of_false (fun h => ?_) (by simp), ?_⟩
  · rw [integer_injective h] at hnonneg
    exact absurd hnonneg (by decide)
  · rw [integer_injective h] at hnonneg
    exact absurd hnonneg (by decide)
  · intro v' e' h
    cases h
    exact ⟨hpos, n, rfl, hn⟩

theorem pttl_of_live {obj : KevaObject} {e : MillisecondTimestamp} (ho : K.objects k = some obj)
    (hd : K.deadlines k = some e) (hlt : t < e) (hin : InI64 (e.toInt - t.toInt)) :
    (K.pttl k t).toInt = e.toInt - t.toInt := by
  have hsub := Int64.toInt_sub_eq_iff.mpr hin
  have hpos : 0 < e - t := by
    rw [Int64.lt_iff_toInt_lt] at hlt ⊢
    rw [hsub]
    have hzero : (0 : Int64).toInt = 0 := rfl
    omega
  unfold Keyspace.pttl
  rw [ho, hd]
  dsimp only
  rw [if_pos hpos, hsub]

theorem pttl_nonneg {obj : KevaObject} {e : MillisecondTimestamp} (ho : K.objects k = some obj)
    (hd : K.deadlines k = some e) : 0 ≤ (K.pttl k t).toInt := by
  unfold Keyspace.pttl
  rw [ho, hd]
  dsimp only
  split_ifs with hpos
  · rw [Int64.lt_iff_toInt_lt] at hpos
    exact hpos.le
  · exact le_rfl

theorem ttlOf_of_nonneg {n : Int64} (h : 0 ≤ n.toInt) : (ttlOf n).toInt = n.toInt / 1000 := by
  have hne : ∀ m : Int64, m.toInt < 0 → n ≠ m := by
    rintro m hm rfl
    omega
  unfold ttlOf
  rw [if_neg (hne _ (by decide)), if_neg (hne _ (by decide)),
    Int64.toInt_div_of_nonneg h (by decide)]
  rfl

theorem shown_removeExpire_get {obj : KevaObject} (ho : K.objects k = some obj)
    (he : K.expired t k = false) (secs : Int64) :
    ((K.get k t secs).2.removeExpire k).pttl k t = -1 ∧
      ((K.get k t secs).2.removeExpire k).shown t k = some (obj.getStringValue, none) ∧
      ∀ j, j ≠ k → ((K.get k t secs).2.removeExpire k).shown t j = K.shown t j := by
  have hobj : ((K.get k t secs).2.removeExpire k).objects k =
      some (obj.touch (LruClock.current secs)) := by
    rw [Keyspace.get_of_live ho he]
    exact Function.update_self _ _ _
  have hnone : ((K.get k t secs).2.removeExpire k).deadlines k = none :=
    Function.update_self _ _ _
  refine ⟨?_, ?_, ?_⟩
  · unfold Keyspace.pttl
    rw [hobj, hnone]
  · rw [Keyspace.shown_of_live hobj (Keyspace.expired_of_deadline_none t hnone), hnone,
      KevaObject.getStringValue_touch]
  · intro j hj
    have h : ((K.get k t secs).2.removeExpire k).shown t j = (K.get k t secs).2.shown t j :=
      Keyspace.shown_congr rfl (Function.update_of_ne hj _ _)
    rw [h, Keyspace.shown_get]

/-- What the four commands make of `K`, and the keyspace `K'` that PERSIST leaves. -/
structure Answers (K K' : Keyspace) (t : MillisecondTimestamp) (secs : Int64) (k : Bytes)
    (got pttl ttl persist : Bytes) : Prop where
  got : got = RespEncoder.nil ↔ K.shown t k = none
  pttl : pttl = RespEncoder.integer (K.pttl k t)
  ttl : ttl = RespEncoder.integer (ttlOf (K.pttl k t))
  persist : persist = RespEncoder.integer (if (K.get k t secs).1.isSome then 1 else 0)
  left : K' = if (K.get k t secs).1.isSome then (K.get k t secs).2.removeExpire k
    else (K.get k t secs).2

/-- The replies of PTTL, TTL and PERSIST at time `t` agree with GET. -/
structure TtlAgrees (K K' : Keyspace) (t : MillisecondTimestamp) (k : Bytes)
    (got pttl ttl persist : Bytes) : Prop where
  pttl : Tells (K.shown t k) t 1 got pttl
  ttl : Tells (K.shown t k) t 1000 got ttl
  persist : Persists K K' t k persist

variable {K' : Keyspace} {secs : Int64} {pttl ttl persist : Bytes}

theorem Answers.agrees_of_none (h : Answers K K' t secs k got pttl ttl persist)
    (ho : K.objects k = none) : TtlAgrees K K' t k got pttl ttl persist := by
  obtain ⟨hgot, hpttl, httl, hpersist, hleft⟩ := h
  have hshown := @Keyspace.shown_of_none K t k ho
  have hvalue : K.pttl k t = -2 := by
    unfold Keyspace.pttl
    rw [ho]
  rw [hvalue] at hpttl httl
  rw [Keyspace.get_of_none ho] at hpersist hleft
  refine ⟨?_, ?_, ?_⟩
  · rw [hshown, hpttl]
    exact tells_missing (hgot.mpr hshown)
  · rw [hshown, httl]
    exact tells_missing (hgot.mpr hshown)
  · refine ⟨fun v e hlive => ?_, fun _ => ⟨hpersist, fun j => ?_⟩⟩
    · rw [hshown] at hlive
      cases hlive
    · rw [hleft]
      rfl

theorem Answers.not_agrees_of_expired (h : Answers K K' t secs k got pttl ttl persist)
    {obj : KevaObject} {e : MillisecondTimestamp} (ho : K.objects k = some obj)
    (hd : K.deadlines k = some e) (he : K.expired t k = true) :
    ¬ TtlAgrees K K' t k got pttl ttl persist := by
  intro hagree
  have hnonneg : 0 ≤ (K.pttl k t).toInt := pttl_nonneg ho hd
  have hmissing := hagree.pttl.missing.mpr (h.got.mpr (Keyspace.shown_of_expired he))
  rw [h.pttl] at hmissing
  rw [integer_injective hmissing] at hnonneg
  exact absurd hnonneg (by decide)

theorem Answers.not_agrees_of_persistent (h : Answers K K' t secs k got pttl ttl persist)
    {obj : KevaObject} (ho : K.objects k = some obj) (hd : K.deadlines k = none) :
    ¬ TtlAgrees K K' t k got pttl ttl persist := by
  intro hagree
  have he : K.expired t k = false := Keyspace.expired_of_deadline_none t hd
  have hshown := Keyspace.shown_of_live ho he
  have hone : persist = RespEncoder.integer 1 := by
    rw [h.persist, Keyspace.get_of_live ho he]
    rfl
  have hzero : persist = RespEncoder.integer 0 := by
    apply (hagree.persist.other fun v e hlive => ?_).1
    rw [hshown, hd] at hlive
    cases hlive
  rw [hone] at hzero
  exact absurd (integer_injective hzero) (by decide)

theorem Answers.agrees_iff_of_live (h : Answers K K' t secs k got pttl ttl persist)
    {obj : KevaObject} {e : MillisecondTimestamp} (ho : K.objects k = some obj)
    (hd : K.deadlines k = some e) (hlt : t < e) :
    TtlAgrees K K' t k got pttl ttl persist ↔ InI64 (e.toInt - t.toInt) := by
  obtain ⟨hgot, hpttl, httl, hpersist, hleft⟩ := h
  have he : K.expired t k = false := (Keyspace.not_expired_iff hd).mpr hlt
  have hshown := Keyspace.shown_of_live ho he
  rw [hd] at hshown
  rw [Keyspace.get_of_live ho he] at hpersist
  constructor
  · intro hagree
    obtain ⟨-, n, -, hn⟩ := hagree.pttl.live _ _ hshown
    rw [Int.ediv_one] at hn
    exact hn ▸ n.inI64_toInt
  · intro hin
    have hvalue := pttl_of_live ho hd hlt hin
    have hpos : 0 < e.toInt - t.toInt := by
      have := Int64.lt_iff_toInt_lt.mp hlt
      omega
    have hsome : got ≠ RespEncoder.nil := by
      rw [Ne, hgot, hshown]
      exact Option.some_ne_none _
    refine ⟨?_, ?_, ?_⟩
    · rw [hshown, hpttl]
      exact tells_live hsome hpos one_pos (by rw [hvalue, Int.ediv_one])
    · rw [hshown, httl]
      refine tells_live hsome hpos (by decide) ?_
      rw [ttlOf_of_nonneg (by omega), hvalue]
    · obtain ⟨hnone, hself, helse⟩ := shown_removeExpire_get ho he secs
      have hleft' : K' = (K.get k t secs).2.removeExpire k := by
        rw [hleft, Keyspace.get_of_live ho he]
        rfl
      rw [hleft']
      refine ⟨fun v e' hlive => ⟨hpersist, hnone, ?_, helse⟩, fun h => absurd hshown (h _ _)⟩
      rw [hshown] at hlive
      cases hlive
      exact hself

/-- The commands agree with GET exactly on keys that are missing or live until a deadline: not on an
expired key that is still stored, nor on a key without deadline. -/
theorem Answers.agrees_iff (h : Answers K K' t secs k got pttl ttl persist) :
    TtlAgrees K K' t k got pttl ttl persist ↔ HasLifetime K t k := by
  cases ho : K.objects k with
  | none => exact iff_of_true (h.agrees_of_none ho) (.inl ho)
  | some obj =>
      have hlife : HasLifetime K t k ↔
          ∃ e, K.deadlines k = some e ∧ t < e ∧ InI64 (e.toInt - t.toInt) := by
        unfold HasLifetime
        rw [ho]
        simp
      rw [hlife]
      cases hd : K.deadlines k with
      | none =>
          refine iff_of_false (h.not_agrees_of_persistent ho hd) ?_
          rintro ⟨e, he, -⟩
          cases he
      | some e =>
          by_cases hlt : t < e
          · rw [h.agrees_iff_of_live ho hd hlt]
            simp [hlt]
          · have he : K.expired t k = true := by
              rw [Keyspace.expired_iff hd]
              exact Int64.not_lt.mp hlt
            refine iff_of_false (h.not_agrees_of_expired ho hd he) ?_
            rintro ⟨e', he', hlt', -⟩
            exact hlt (Option.some.inj he' ▸ hlt')

end

variable {t : MillisecondTimestamp} {getFrame pttlFrame ttlFrame persistFrame : RespValue}
  {getArgs pttlArgs ttlArgs persistArgs : List RespValue}

theorem ttlAgrees_iff (env : ℕ → World) (s : Session) (henv : ∀ n, (env n).nowMs = t)
    (hget : Requests "GET" k getFrame getArgs) (hpttl : Requests "PTTL" k pttlFrame pttlArgs)
    (httl : Requests "TTL" k ttlFrame ttlArgs)
    (hpersist : Requests "PERSIST" k persistFrame persistArgs) :
    TtlAgrees s.db.content (replyStep env s persistFrame).2.db.content t k
        (replyStep env s getFrame).1 (replyStep env s pttlFrame).1 (replyStep env s ttlFrame).1
        (replyStep env s persistFrame).1 ↔
      HasLifetime s.db.content t k := by
  have hgot := replyStep_get_eq_nil_iff hget env s
  have hp := (replyStep_pttl hpttl env s).1
  have ht := (replyStep_ttl httl env s).1
  have hper := replyStep_persist hpersist env s
  dsimp only at hper
  rw [henv] at hgot hp ht hper
  exact Answers.agrees_iff ⟨hgot, hp, ht, hper.1, hper.2⟩

theorem ttlAgrees_psetex :
    let env := fun _ : ℕ => World.still 10 0
    let k := ascii "k"
    let s := (replyStep env freshSession
      (commandFrame [ascii "PSETEX", k, ascii "5", ascii "v"])).2
    let persisted := replyStep env s (commandFrame [ascii "PERSIST", k])
    TtlAgrees s.db.content persisted.2.db.content 10 k
      (replyStep env s (commandFrame [ascii "GET", k])).1
      (replyStep env s (commandFrame [ascii "PTTL", k])).1
      (replyStep env s (commandFrame [ascii "TTL", k])).1 persisted.1 := by
  intro env k s persisted
  refine (ttlAgrees_iff env s (fun _ => rfl) (requests_commandFrame "GET" ⟨_, rfl, rfl⟩)
    (requests_commandFrame "PTTL" ⟨_, rfl, rfl⟩) (requests_commandFrame "TTL" ⟨_, rfl, rfl⟩)
    (requests_commandFrame "PERSIST" ⟨_, rfl, rfl⟩)).mpr ?_
  exact .inr ⟨15, by decide +kernel, by decide, by decide⟩

/-- PTTL and PERSIST on a key that was stored without a lifetime. -/
theorem persist_without_deadline :
    let env := fun _ : ℕ => World.still 10 0
    let k := ascii "k"
    let s := (replyStep env freshSession (commandFrame [ascii "SET", k, ascii "v"])).2
    (replyStep env s (commandFrame [ascii "PTTL", k])).1 = RespEncoder.integer (-1) ∧
      (replyStep env s (commandFrame [ascii "PERSIST", k])).1 = RespEncoder.integer 1 := by
  constructor <;> decide +kernel

end Keva
