import Keva.Lib.Glob
import Keva.Command.Strings

/-!
# KEYS

KEYS walks over both tables of `keys_`, passes over keys that have expired, and lists those that the
pattern matches. The walk visits every entry once, also while a rehash is going on.
-/

namespace Keva

open Session Handler

/-- What a byte of a pattern stands for. -/
def globToken (b : UInt8) : Glob.Token UInt8 :=
  if b = 42 then .any else if b = 63 then .one else .only b

/-- The strings that a pattern matches. -/
def globLanguage (pattern : Bytes) : Language UInt8 := Glob.language (pattern.map globToken)

theorem globMatch_iff (pattern str : Bytes) :
    globMatch pattern str = true ↔ str ∈ globLanguage pattern := by
  unfold globLanguage
  induction pattern generalizing str with
  | nil =>
      rw [globMatch, List.map_nil, Glob.mem_language_nil]
      exact List.isEmpty_iff
  | cons p pattern ih =>
      rw [List.map_cons]
      unfold globMatch
      by_cases hstar : p = 42
      · have htoken : globToken p = .any := if_pos hstar
        rw [if_pos hstar, htoken, Glob.mem_language_any, List.any_eq_true]
        simp only [List.mem_tails, ih]
      rw [if_neg hstar]
      by_cases hone : p = 63
      · have htoken : globToken p = .one := (if_neg hstar).trans (if_pos hone)
        rw [htoken]
        cases str with
        | nil => exact iff_of_false Bool.false_ne_true Glob.not_mem_language_one_nil
        | cons c str => simp [hone, ih, Glob.mem_language_one_cons]
      · have htoken : globToken p = .only p := (if_neg hstar).trans (if_neg hone)
        rw [htoken]
        cases str with
        | nil => exact iff_of_false Bool.false_ne_true (Glob.not_mem_language_only_nil p)
        | cons c str => simp [hone, ih, Glob.mem_language_only_cons]

variable {env : ℕ → World} {s : Session} {pattern : Bytes} {args : List RespValue}
  {frame : RespValue}

theorem replyStep_keys (h : Requests "KEYS" pattern frame args) (env : ℕ → World) (s : Session) :
    (replyStep env s frame).1 =
      keysReply (keysFound s.db (env s.calls).nowMs pattern) := by
  let e : CommandEntry := ⟨ascii "KEYS", handleKeys, 2, 2, false⟩
  obtain ⟨ha, -⟩ := h.exec (e := e) rfl env s
  have hexec := @exec_handleKeys args env (le_length_of_admits ha rfl) s
  rw [h.key_eq] at hexec
  exact h.reply_eq (e := e) rfl (congrArg Session.output hexec)

theorem nodup_keysFound (db : KevaDatabase) (t : MillisecondTimestamp) (pattern : Bytes) :
    (keysFound db t pattern).Nodup := (KevaDatabase.nodup_forEach db t).filter _

theorem mem_keysFound_iff (db : KevaDatabase) (t : MillisecondTimestamp) (pattern k : Bytes) :
    k ∈ keysFound db t pattern ↔ db.content.Live t k ∧ k ∈ globLanguage pattern := by
  rw [keysFound, List.mem_filter, globMatch_iff, List.mem_map, and_congr_left_iff]
  rintro -
  constructor
  · rintro ⟨⟨j, obj⟩, hmem, rfl⟩
    rw [KevaDatabase.mem_forEach_iff, Keyspace.peek] at hmem
    split_ifs at hmem with hexpired
    exact ⟨by rw [hmem]; rfl, Bool.eq_false_iff.mpr hexpired⟩
  · intro hlive
    obtain ⟨obj, ho⟩ := Option.isSome_iff_exists.mp hlive.stored
    refine ⟨(k, obj), ?_, rfl⟩
    rw [KevaDatabase.mem_forEach_iff, Keyspace.peek, if_neg (by simp [hlive.not_expired]), ho]

theorem keysReply_eq (found : List Bytes) :
    keysReply found = RespEncoder.arrayHeader (Int64.ofNat found.length) ++
      found.flatMap RespEncoder.bulkString := by
  rw [keysReply, RespValue.wire, RespValue.wireAll_eq, List.length_map, List.flatMap_map]
  rfl

/-- KEYS lists the keys that are stored, have not expired and match the pattern, each once, behind
their number. -/
theorem keys_lists_matching (env : ℕ → World) (s : Session)
    (h : Requests "KEYS" pattern frame args) :
    ∃ (found : List Bytes) (count : Int64),
      (replyStep env s frame).1 =
          RespEncoder.arrayHeader count ++ found.flatMap RespEncoder.bulkString ∧
        (found.length ≤ maxSize → count.toInt = found.length) ∧ found.Nodup ∧
        ∀ k, k ∈ found ↔ (s.db.content.objects k).isSome ∧
          (∀ e, s.db.content.deadlines k = some e → (env s.calls).nowMs < e) ∧
          k ∈ globLanguage pattern := by
  refine ⟨keysFound s.db (env s.calls).nowMs pattern, _,
    (replyStep_keys h env s).trans (keysReply_eq _), fun hlen => (fromChars_toChars_ofNat hlen).2,
    nodup_keysFound _ _ _, fun k => ?_⟩
  rw [mem_keysFound_iff, ← and_assoc, and_congr_left_iff]
  rintro -
  constructor
  · intro hlive
    refine ⟨hlive.stored, fun e he => ?_⟩
    rw [← Int64.not_le, ← Keyspace.expired_iff he, hlive.not_expired]
    exact Bool.false_ne_true
  · rintro ⟨hstored, hlater⟩
    refine ⟨hstored, Bool.eq_false_iff.mpr fun hexpired => ?_⟩
    cases hd : s.db.content.deadlines k with
    | none =>
        rw [Keyspace.expired_of_deadline_none _ hd] at hexpired
        cases hexpired
    | some e =>
        rw [Keyspace.expired_iff hd] at hexpired
        exact Int64.not_le.mpr (hlater e hd) hexpired

theorem keys_lists_one :
    let env := fun _ : ℕ => World.still 10 0
    let s := (freshSession.exec env
      (executeFrame (commandFrame [ascii "SET", ascii "key", ascii "v"]))).2
    let frame := commandFrame [ascii "KEYS", ascii "k?*"]
    ∃ (found : List Bytes) (count : Int64),
      (replyStep env s frame).1 =
          RespEncoder.arrayHeader count ++ found.flatMap RespEncoder.bulkString ∧
        found.Nodup ∧ ascii "key" ∈ found := by
  intro env s frame
  have hreq : Requests "KEYS" (ascii "k?*") frame frame.elements :=
    requests_commandFrame "KEYS" ⟨_, rfl, rfl⟩
  obtain ⟨found, count, hreply, -, hnodup, hmem⟩ := keys_lists_matching env s hreq
  refine ⟨found, count, hreply, hnodup, (hmem _).mpr ⟨by decide +kernel, fun e he => ?_, ?_⟩⟩
  · have hnone : s.db.content.deadlines (ascii "key") = none := by decide +kernel
    rw [hnone] at he
    cases he
  · exact (globMatch_iff _ _).mp (by decide +kernel)

end Keva
