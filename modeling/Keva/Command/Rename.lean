import Keva.Server.Reachable

/-!
# RENAME

RENAME copies the object of the key, deletes the key and stores the copy under the new name. The
value arrives whole. The deadline does not: `del` drops it with the key, and `set` leaves the new
name without one.
-/

namespace Keva

open Session Handler

/-- At time `t` the entry of `key`, value and deadline, has become the entry of `newkey`. -/
structure Keyspace.Moved (t : MillisecondTimestamp) (key newkey : Bytes) (K K' : Keyspace) :
    Prop where
  arrived : K'.shown t newkey = K.shown t key
  departed : newkey ≠ key → K'.objects key = none
  elsewhere : ∀ j, j ≠ key → j ≠ newkey → K'.shown t j = K.shown t j

/-- What RENAME is to do to a key that is there and to one that is not. -/
structure Renames (t : MillisecondTimestamp) (key newkey : Bytes) (K K' : Keyspace)
    (bytes : Bytes) : Prop where
  missing : ¬ K.Live t key →
    (∃ message, bytes = RespEncoder.error message) ∧ ∀ j, K'.shown t j = K.shown t j
  found : K.Live t key → bytes = RespEncoder.ok ∧ K.Moved t key newkey K'

namespace KevaObject

/-- The object that RENAME stores in place of `obj`. -/
def renamed (obj : KevaObject) (clock : UInt32) : KevaObject :=
  if obj.encoding = .int then createStringFromInt obj.integerValue clock
  else createString obj.stringView clock

theorem Canonical.getStringValue_renamed {obj : KevaObject} (h : obj.Canonical) (clock : UInt32) :
    (obj.renamed clock).getStringValue = obj.getStringValue := by
  unfold renamed
  split_ifs with hint
  · rw [getStringValue_createStringFromInt, getStringValue, if_pos hint]
  · have hview : obj.getStringValue = obj.stringView := by rw [getStringValue, if_neg hint]
    rw [← hview]
    exact h.getStringValue_createString clock

end KevaObject

variable {t : MillisecondTimestamp} {env : ℕ → World} {s : Session} {k newkey : Bytes}
  {args : List RespValue} {frame : RespValue}

theorem exec_handleRename_missing (h : 3 ≤ args.length)
    (hget : (s.perform env (.get (argStr args 1))).1 = none) :
    (exec env (handleRename args) s).2.output =
        s.output ++ RespEncoder.error (ascii "no such key") ∧
      (exec env (handleRename args) s).2.db.content =
        (s.perform env (.get (argStr args 1))).2.db.content := by
  rw [handleRename, element_bind (by omega), element_bind (by omega), exec_get_bind, hget]
  exact ⟨rfl, rfl⟩

theorem exec_handleRename_found (h : 3 ≤ args.length) {obj : KevaObject}
    (hget : (s.perform env (.get (argStr args 1))).1 = some obj) :
    ∃ clock, (exec env (handleRename args) s).2.output = s.output ++ RespEncoder.ok ∧
      (exec env (handleRename args) s).2.db.content =
        ((s.perform env (.get (argStr args 1))).2.db.content.erase (argStr args 1)).set
          (argStr args 2) (obj.renamed clock) := by
  rw [handleRename, element_bind (by omega), element_bind (by omega), exec_get_bind, hget]
  refine ⟨LruClock.current (env (s.calls + 1)).time, rfl, ?_⟩
  change ((((s.perform env (.get (argStr args 1))).2.db.del (argStr args 1)).2).set
    (argStr args 2) _).content = _
  rw [KevaDatabase.content_set, KevaDatabase.content_del]
  rfl

theorem replyStep_rename (hs : s.db.content.Canonical) (henv : ∀ n, (env n).nowMs = t)
    (h : Requests "RENAME" k frame args) {v : Bytes} {e : Option MillisecondTimestamp}
    (hshown : s.db.content.shown t k = some (v, e)) :
    let K' := (replyStep env s frame).2.db.content
    (replyStep env s frame).1 = RespEncoder.ok ∧
      K'.shown t (argStr args 2) = some (v, none) ∧
      (argStr args 2 ≠ k → K'.objects k = none) ∧
      ∀ j, j ≠ k → j ≠ argStr args 2 → K'.shown t j = s.db.content.shown t j := by
  intro K'
  obtain ⟨ha, -⟩ := h.exec (e := ⟨ascii "RENAME", handleRename, 3, 3, true⟩) rfl env s
  have hlen : 3 ≤ args.length := le_length_of_admits ha rfl
  obtain ⟨obj, ho, hlive, rfl, rfl⟩ := Keyspace.shown_eq_some_iff.mp hshown
  have hget : (s.perform env (.get (argStr args 1))).1 =
      some (obj.touch (LruClock.current (env s.calls).time)) := by
    rw [perform_get_fst, h.key_eq, henv, Keyspace.get_of_live ho hlive]
  obtain ⟨clock, hout, hcontent⟩ := exec_handleRename_found hlen hget
  have hK' : K' = (((s.db.content.get k t (env s.calls).time).2).erase k).set (argStr args 2)
      ((obj.touch (LruClock.current (env s.calls).time)).renamed clock) := by
    change (replyStep env s frame).2.db.content = _
    rw [h.content_eq (e := ⟨ascii "RENAME", handleRename, 3, 3, true⟩) rfl]
    refine hcontent.trans ?_
    rw [content_perform, h.key_eq, ← henv s.calls]
    rfl
  refine ⟨h.reply_eq rfl hout, ?_, ?_, ?_⟩
  · have hcanonical := (hs k obj ho).touch (LruClock.current (env s.calls).time)
    have hbytes := hcanonical.getStringValue_renamed clock
    rw [hK', Keyspace.shown_set_self, hbytes, KevaObject.getStringValue_touch]
  · intro hne
    rw [hK']
    simp [Keyspace.set, Keyspace.erase, Function.update_of_ne hne.symm]
  · intro j hj hj'
    rw [hK', Keyspace.shown_set_of_ne hj', Keyspace.shown_erase_of_ne hj, Keyspace.shown_get]

theorem replyStep_rename_missing (henv : ∀ n, (env n).nowMs = t)
    (h : Requests "RENAME" k frame args) (hmissing : ¬ s.db.content.Live t k) :
    (replyStep env s frame).1 = RespEncoder.error (ascii "no such key") ∧
      ∀ j, (replyStep env s frame).2.db.content.shown t j = s.db.content.shown t j := by
  obtain ⟨ha, -⟩ := h.exec (e := ⟨ascii "RENAME", handleRename, 3, 3, true⟩) rfl env s
  have hget : (s.perform env (.get (argStr args 1))).1 = none := by
    rw [perform_get_fst, h.key_eq, henv]
    exact Option.not_isSome_iff_eq_none.mp (mt (Keyspace.get_isSome_iff _).mp hmissing)
  obtain ⟨hout, hcontent⟩ := exec_handleRename_missing (le_length_of_admits ha rfl) hget
  refine ⟨h.reply_eq rfl hout, fun j => ?_⟩
  rw [h.content_eq (e := ⟨ascii "RENAME", handleRename, 3, 3, true⟩) rfl]
  refine (congrArg (fun K => K.shown t j) hcontent).trans ?_
  rw [content_perform, ← henv s.calls]
  exact Keyspace.shown_get _ _ _

/-- RENAME moves the whole entry exactly when the key is not there or has no deadline. -/
theorem renames_iff {P Q : DictParams} (hs : KevaDatabase.Reachable P Q s.db)
    (henv : ∀ n, (env n).nowMs = t) (h : Requests "RENAME" k frame args) :
    Renames t k (argStr args 2) s.db.content (replyStep env s frame).2.db.content
        (replyStep env s frame).1 ↔
      (s.db.content.Live t k → s.db.content.deadlines k = none) := by
  constructor
  · intro hrenames hlive
    obtain ⟨⟨v, e⟩, hshown⟩ :=
      Option.isSome_iff_exists.mp (Keyspace.shown_isSome_iff.mpr hlive)
    obtain ⟨-, harrived, -⟩ := replyStep_rename hs.healthy.canonical henv h hshown
    have hmoved := (hrenames.found hlive).2.arrived
    rw [harrived, hshown] at hmoved
    obtain ⟨-, -, -, -, he⟩ := Keyspace.shown_eq_some_iff.mp hshown
    rw [he]
    exact (Prod.mk.inj (Option.some.inj hmoved)).2.symm
  · intro hnone
    constructor
    · intro hmissing
      obtain ⟨hreply, hshown⟩ := replyStep_rename_missing henv h hmissing
      exact ⟨⟨_, hreply⟩, hshown⟩
    · intro hlive
      obtain ⟨obj, ho⟩ := Option.isSome_iff_exists.mp hlive.stored
      have hshown := Keyspace.shown_of_live ho hlive.not_expired
      rw [hnone hlive] at hshown
      obtain ⟨hreply, harrived, hgone, helse⟩ :=
        replyStep_rename hs.healthy.canonical henv h hshown
      exact ⟨hreply, harrived.trans hshown.symm, hgone, helse⟩

/-- A key without deadline is renamed over a key that has one. -/
theorem renames_plain_key :
    let env := fun _ : ℕ => World.still 10 0
    let s := (freshSession.exec env
      (executeFrame (commandFrame [ascii "SET", ascii "k", ascii "v"]))).2
    let s' := (s.exec env
      (executeFrame (commandFrame [ascii "PSETEX", ascii "j", ascii "5", ascii "w"]))).2
    let frame := commandFrame [ascii "RENAME", ascii "k", ascii "j"]
    Renames 10 (ascii "k") (ascii "j") s'.db.content (replyStep env s' frame).2.db.content
      (replyStep env s' frame).1 := by
  intro env s s' frame
  have hreach : KevaDatabase.Reachable (.exact fun _ => 0) (.exact fun _ => 0) s'.db :=
    .command env _ s (.command env _ freshSession .empty)
  have hreq : Requests "RENAME" (ascii "k") frame frame.elements :=
    requests_commandFrame "RENAME" ⟨_, rfl, rfl⟩
  have henv : ∀ n, (env n).nowMs = 10 := fun _ => rfl
  exact (renames_iff hreach henv hreq).mpr fun _ => by decide +kernel

/-- A key that has five milliseconds left never expires under its new name. -/
theorem rename_drops_deadline :
    let env := fun _ : ℕ => World.still 10 0
    let s := (freshSession.exec env
      (executeFrame (commandFrame [ascii "PSETEX", ascii "k", ascii "5", ascii "v"]))).2
    let renamed := replyStep env s (commandFrame [ascii "RENAME", ascii "k", ascii "j"])
    s.db.content.shown 10 (ascii "k") = some (ascii "v", some 15) ∧
      renamed.1 = RespEncoder.ok ∧
      renamed.2.db.content.shown 10 (ascii "j") = some (ascii "v", none) ∧
      ¬ Renames 10 (ascii "k") (ascii "j") s.db.content renamed.2.db.content renamed.1 := by
  intro env s renamed
  have hbefore : s.db.content.shown 10 (ascii "k") = some (ascii "v", some 15) := by
    decide +kernel
  have hafter : renamed.2.db.content.shown 10 (ascii "j") = some (ascii "v", none) := by
    decide +kernel
  refine ⟨hbefore, by decide +kernel, hafter, fun hrenames => ?_⟩
  have hlive : s.db.content.Live 10 (ascii "k") := ⟨by decide +kernel, by decide +kernel⟩
  have hmoved := (hrenames.found hlive).2.arrived
  rw [hbefore, hafter] at hmoved
  exact absurd hmoved (by decide)

end Keva
