import Keva.Command.Orphans
import Keva.Command.Strings
import Keva.Persistence.Snapshot

/-!
# The databases that a server can reach

Commands, loads of any file, the expiry cycle and migration steps, in any order. In every database
that they reach the objects are canonical and only stored keys have deadlines.
-/

namespace Keva

open Session Handler

namespace KevaDatabase

/-- What can become of an empty database. Each step is taken with any clocks, any draws of the
generator, any file and any state of the rest of the session. -/
inductive Reachable (P Q : DictParams) : KevaDatabase → Prop
  | empty : Reachable P Q (.empty P Q)
  | command (env : ℕ → World) (frame : RespValue) (s : Session) (h : Reachable P Q s.db) :
      Reachable P Q (s.exec env (executeFrame frame)).2.db
  | rdbLoad (secs : ℕ → Int64) (file : RdbFile) {db : KevaDatabase} (h : Reachable P Q db) :
      Reachable P Q (db.rdbLoad secs file).2
  | activeExpireCycle (now : MillisecondTimestamp) (draw₁ draw₂ draw₃ : SampleDraw)
      {db : KevaDatabase} (h : Reachable P Q db) :
      Reachable P Q (db.activeExpireCycle now draw₁ draw₂ draw₃).2
  | rehashStep {db : KevaDatabase} (h : Reachable P Q db) : Reachable P Q db.rehashStep

end KevaDatabase

structure Keyspace.Healthy (K : Keyspace) : Prop where
  canonical : K.Canonical
  noOrphans : K.NoOrphans

theorem canonical_executeFrame (frame : RespValue) (env : ℕ → World) {s : Session}
    (hs : s.db.content.Canonical) : (s.exec env (executeFrame frame)).2.db.content.Canonical := by
  obtain ⟨kinds, keys, huses, -⟩ := uses_executeFrame frame
  exact exec_canonical huses env hs

theorem Keyspace.Healthy.reaped {K K' : Keyspace} {now : MillisecondTimestamp} (h : K.Healthy)
    (hr : Keyspace.Reaped now K K') : K'.Healthy := by
  constructor
  · intro k obj ho
    rcases hr k with ⟨hsame, -⟩ | ⟨-, hgone, -⟩
    · exact h.canonical k obj (hsame ▸ ho)
    · rw [hgone] at ho
      cases ho
  · intro k ho
    rcases hr k with ⟨hsame, hd⟩ | ⟨-, -, hd⟩
    · rw [hd]
      exact h.noOrphans k (hsame ▸ ho)
    · exact hd

namespace KevaDatabase

theorem healthy_loadRecord {db : KevaDatabase} (h : db.content.Healthy) (key value : Bytes)
    (expire secs : Int64) : (db.loadRecord key value expire secs).content.Healthy := by
  unfold loadRecord
  dsimp only
  have hset : (db.set key (KevaObject.createString value (LruClock.current secs))).content.Healthy ∧
      ((db.set key (KevaObject.createString value (LruClock.current secs))).content.objects
        key).isSome := by
    rw [content_set]
    refine ⟨⟨h.canonical.update_some (KevaObject.canonical_createString _ _) _,
      h.noOrphans.set key _⟩, ?_⟩
    unfold Keyspace.set
    dsimp only
    rw [Function.update_self]
    rfl
  split_ifs
  · rw [content_setExpire]
    exact ⟨hset.1.canonical, hset.1.noOrphans.setExpire hset.2 expire⟩
  · exact hset.1

theorem Reachable.healthy {P Q : DictParams} {db : KevaDatabase} (h : Reachable P Q db) :
    db.content.Healthy := by
  induction h with
  | empty =>
      rw [content_empty]
      exact ⟨Keyspace.all_empty, Keyspace.noOrphans_empty⟩
  | command env frame s h ih =>
      exact ⟨canonical_executeFrame frame env ih.canonical,
        noOrphans_executeFrame frame env ih.noOrphans⟩
  | rdbLoad secs file h ih =>
      exact rdbLoad_invariant (I := fun db => db.content.Healthy)
        (fun db key value expire t hdb => healthy_loadRecord hdb key value expire t) file ih
  | activeExpireCycle now draw₁ draw₂ draw₃ h ih =>
      exact ih.reaped (reaped_activeExpireCycle _ now draw₁ draw₂ draw₃)
  | rehashStep h ih =>
      rw [content_rehashStep]
      exact ih

end KevaDatabase

variable {env : ℕ → World} {s : Session} {k : Bytes} {args : List RespValue} {frame : RespValue}
  {name : String}

/-- The command stores `k` without asking for a deadline: a plain SET, GETSET, MSET, or SETNX of a
key that is not there. -/
inductive CreatesPlainly (env : ℕ → World) (s : Session) (k : Bytes) (args : List RespValue) :
    String → Prop
  | set (hlen : args.length = 3) (hk : argStr args 1 = k) : CreatesPlainly env s k args "SET"
  | getset (hk : argStr args 1 = k) : CreatesPlainly env s k args "GETSET"
  | mset (hodd : args.length % 2 = 1) (hk : k ∈ msetKeys args) : CreatesPlainly env s k args "MSET"
  | setnx (hk : argStr args 1 = k) (hnew : ¬ s.db.content.Live (env s.calls).nowMs k) :
      CreatesPlainly env s k args "SETNX"

theorem deadline_handleSet (h : args.length = 3) (env : ℕ → World) (s : Session) :
    (exec env (handleSet args) s).2.db.content.deadlines (argStr args 1) = none := by
  have hopt : setOptions args args.length 3 ⟨-1, false, false⟩ =
      pure (some ⟨-1, false, false⟩) := by
    rw [h, setOptions, if_neg (by omega)]
  rw [handleSet, element_bind (by omega), element_bind (by omega), hopt, pure_bind]
  dsimp only
  rw [exec_bind]
  exact (holds_storeString_reply _ _ _ _).2

theorem deadline_handleGetset (h : 3 ≤ args.length) (env : ℕ → World)
    (hs : s.db.content.Canonical) :
    (exec env (handleGetset args) s).2.db.content.deadlines (argStr args 1) = none := by
  rw [handleGetset, element_bind (by omega), element_bind (by omega), exec_get_bind,
    perform_get_fst]
  have hold := (Keyspace.All.get hs (fun _ clock h => h.touch clock) (argStr args 1)
    (env s.calls).nowMs (env s.calls).time).1
  cases ho : (s.db.content.get (argStr args 1) (env s.calls).nowMs (env s.calls).time).1 with
  | none =>
      rw [exec_bind]
      exact (exec_storeString _ _ _).2
  | some old =>
      dsimp only
      rw [if_neg (not_not_intro (hold old ho).type_eq), exec_bind]
      exact (exec_storeString _ _ _).2

theorem deadline_handleSetnx (h : 3 ≤ args.length) (env : ℕ → World)
    (hnew : ¬ s.db.content.Live (env s.calls).nowMs (argStr args 1)) :
    (exec env (handleSetnx args) s).2.db.content.deadlines (argStr args 1) = none := by
  have hfound : (exec env («exists» (argStr args 1)) s).1 = false := by
    change (s.perform env (.get (argStr args 1))).1.isSome = false
    rwa [perform_get_fst, ← Bool.not_eq_true, Keyspace.get_isSome_iff]
  rw [handleSetnx, element_bind (by omega), element_bind (by omega), exec_bind, hfound]
  exact (holds_storeString_reply _ _ _ _).2

/-- The keys of all rounds are left without a deadline: a later round stores another key or the
same one again. -/
theorem deadline_msetRounds {l : List ℕ} (hl : ∀ i ∈ l, i + 1 < args.length) (env : ℕ → World)
    (s : Session) : ∀ k ∈ l.map (argStr args),
      (exec env (forM l (msetRound args)) s).2.db.content.deadlines k = none := by
  induction l generalizing s with
  | nil => simp
  | cons i l ih =>
      intro k hk
      have hl' : ∀ j ∈ l, j + 1 < args.length := fun j hj => hl j (List.mem_cons_of_mem _ hj)
      rw [List.forM_cons, exec_bind]
      by_cases hlater : k ∈ l.map (argStr args)
      · exact ih hl' _ k hlater
      · rw [List.map_cons, List.mem_cons] at hk
        obtain rfl := hk.resolve_right hlater
        have huses : Uses [.store, .clock] (l.map (argStr args)) (forM l (msetRound args)) :=
          Program.calls_forM fun j hj =>
            uses_msetRound (by simp) (by simp) (hl' j hj) (List.mem_map_of_mem hj)
        rw [(exec_elsewhere huses (by decide) hlater env _).2]
        exact (exec_msetRound (hl i List.mem_cons_self) env s).2

theorem deadline_handleMset (hodd : args.length % 2 = 1) (env : ℕ → World) (s : Session) :
    ∀ k ∈ msetKeys args, (exec env (handleMset args) s).2.db.content.deadlines k = none := by
  intro k hk
  have hl : ∀ i ∈ List.range' 1 (args.length / 2) 2, i + 1 < args.length := by
    intro i hi
    obtain ⟨j, hj, rfl⟩ := List.mem_range'.mp hi
    omega
  unfold handleMset
  rw [if_neg (not_not_intro hodd), exec_bind]
  exact deadline_msetRounds hl env s k hk

theorem deadline_of_createsPlainly (hs : s.db.content.Canonical)
    (h : Requests name (argStr args 1) frame args) (hc : CreatesPlainly env s k args name) :
    (replyStep env s frame).2.db.content.deadlines k = none := by
  cases hc with
  | set hlen hk =>
      rw [h.content_eq (e := ⟨ascii "SET", handleSet, 3, -1, true⟩) rfl, ← hk]
      exact deadline_handleSet hlen env s
  | getset hk =>
      obtain ⟨ha, -⟩ := h.exec (e := ⟨ascii "GETSET", handleGetset, 3, 3, true⟩) rfl env s
      rw [h.content_eq (e := ⟨ascii "GETSET", handleGetset, 3, 3, true⟩) rfl, ← hk]
      exact deadline_handleGetset (le_length_of_admits ha rfl) env hs
  | mset hodd hk =>
      rw [h.content_eq (e := ⟨ascii "MSET", handleMset, 3, -1, true⟩) rfl]
      exact deadline_handleMset hodd env s k hk
  | setnx hk hnew =>
      obtain ⟨ha, -⟩ := h.exec (e := ⟨ascii "SETNX", handleSetnx, 3, 3, true⟩) rfl env s
      rw [h.content_eq (e := ⟨ascii "SETNX", handleSetnx, 3, 3, true⟩) rfl, ← hk]
      rw [← hk] at hnew
      exact deadline_handleSetnx (le_length_of_admits ha rfl) env hnew

/-- Every key of `expires_` is a key of `keys_`, so that a new key has no deadline. -/
theorem no_orphan_deadlines {P Q : DictParams} {db : KevaDatabase}
    (h : KevaDatabase.Reachable P Q db) :
    (∀ k, db.expires.exists k = true → db.keys.exists k = true) ∧
      ∀ env s name k args frame, s.db = db → Requests name (argStr args 1) frame args →
        CreatesPlainly env s k args name →
          (replyStep env s frame).2.db.content.deadlines k = none := by
  obtain ⟨hcanonical, hno⟩ := h.healthy
  constructor
  · intro k hk
    rw [Dict.exists_eq db.expires_sound] at hk
    rw [Dict.exists_eq db.keys_sound, Option.isSome_iff_ne_none]
    intro hnone
    have hd : db.expires.toMap k = none := hno k hnone
    rw [hd] at hk
    cases hk
  · rintro env s name k args frame rfl hreq hc
    exact deadline_of_createsPlainly hcanonical hreq hc

/-- A key that once had a deadline is deleted and set again. -/
theorem no_orphan_deadlines_set_again :
    let env := fun _ : ℕ => World.still 10 0
    let k := ascii "k"
    let s := (freshSession.exec env
      (executeFrame (commandFrame [ascii "PSETEX", k, ascii "5", ascii "v"]))).2
    let s' := (s.exec env (executeFrame (commandFrame [ascii "DEL", k]))).2
    let frame := commandFrame [ascii "SET", k, ascii "v"]
    (replyStep env s' frame).2.db.content.deadlines k = none := by
  intro env k s s' frame
  exact (no_orphan_deadlines (.command env _ s (.command env _ freshSession .empty))).2 env s' "SET"
    k frame.elements frame rfl (requests_commandFrame "SET" ⟨_, rfl, rfl⟩) (.set rfl rfl)

variable {t : MillisecondTimestamp}

theorem getReply_congr {o o' : Option KevaObject} (h : ∀ obj, o = some obj → obj.Canonical)
    (h' : ∀ obj, o' = some obj → obj.Canonical)
    (heq : o.map KevaObject.getStringValue = o'.map KevaObject.getStringValue) :
    getReply o = getReply o' := by
  cases o with
  | none =>
      cases o' with
      | none => rfl
      | some obj' => cases heq
  | some obj =>
      cases o' with
      | none => cases heq
      | some obj' =>
          unfold getReply
          dsimp only
          rw [if_neg (not_not_intro (h obj rfl).type_eq),
            if_neg (not_not_intro (h' obj' rfl).type_eq), Option.some.inj heq]

/-- A snapshot of a reachable database that is loaded into an empty one brings back every live key
with the bytes that GET replies and with its deadline, and no other key. -/
theorem snapshot_restores {P Q : DictParams} {db : KevaDatabase}
    (h : KevaDatabase.Reachable P Q db) (ht : 0 ≤ t.toInt)
    (hshort : ∀ k obj, db.content.objects k = some obj →
      k.length < 2 ^ 32 ∧ obj.getStringValue.length < 2 ^ 32)
    (P' Q' : DictParams) (dbId : UInt32) (secs : ℕ → Int64) :
    let r := (KevaDatabase.empty P' Q').rdbLoad secs
      (.whole (rdb.image dbId (db.saveRecords fun _ => t).1))
    r.1 = .ok () ∧ ∀ k, ((r.2.content.objects k).isSome ↔ db.content.Live t k) ∧
      (db.content.Live t k → r.2.content.deadlines k = db.content.deadlines k) ∧
      ∀ env s frame args, s.db = db → (∀ n, (env n).nowMs = t) → Requests "GET" k frame args →
        (replyStep env s frame).1 = getReply (r.2.content.objects k) := by
  obtain ⟨hok, hrestores⟩ :=
    KevaDatabase.restores_rdbLoad ht h.healthy.canonical hshort P' Q' dbId secs
  have hloaded : ((KevaDatabase.empty P' Q').rdbLoad secs
      (.whole (rdb.image dbId (db.saveRecords fun _ => t).1))).2.content.Canonical := by
    have hreach := KevaDatabase.Reachable.rdbLoad (P := P') (Q := Q') secs
      (.whole (rdb.image dbId (db.saveRecords fun _ => t).1)) .empty
    exact hreach.healthy.canonical
  generalize (KevaDatabase.empty P' Q').rdbLoad secs
    (.whole (rdb.image dbId (db.saveRecords fun _ => t).1)) = r at hok hrestores hloaded ⊢
  intro r
  refine ⟨hok, fun k => ⟨hrestores.keys k, fun hlive => ?_, ?_⟩⟩
  · obtain ⟨obj, ho⟩ := Option.isSome_iff_exists.mp hlive.stored
    rw [hrestores.deadlines, Keyspace.shown_of_live ho hlive.not_expired]
    rfl
  · rintro env s frame args rfl henv hreq
    rw [replyStep_get hreq, henv]
    have hget := Keyspace.All.get h.healthy.canonical (fun _ clock h => h.touch clock) k t
      (env s.calls).time
    apply getReply_congr hget.1 (fun obj ho => hloaded k obj ho)
    rw [Keyspace.getStringValue_get, hrestores.values]

theorem snapshot_restores_psetex :
    let P := DictParams.exact (fun _ => 0)
    let k := ascii "k"
    let env := fun _ : ℕ => World.still 10 0
    let db := (freshSession.exec env
      (executeFrame (commandFrame [ascii "PSETEX", k, ascii "5", ascii "v"]))).2.db
    let r := (KevaDatabase.empty P P).rdbLoad (fun _ => 0)
      (.whole (rdb.image 0 (db.saveRecords fun _ => 12).1))
    r.1 = .ok () ∧ r.2.content.deadlines k = some 15 := by
  intro P k env db r
  have hreach : KevaDatabase.Reachable P P db := .command env _ freshSession .empty
  have hall : db.keys.forEach.all fun p =>
      p.1.length < 2 ^ 32 && p.2.getStringValue.length < 2 ^ 32 := by decide +kernel
  have hlive : db.content.Live 12 k := ⟨by decide +kernel, by decide +kernel⟩
  have hdeadline : db.content.deadlines k = some 15 := by decide +kernel
  -- from here on the database is not to be computed again
  clear_value db
  have hshort : ∀ k obj, db.content.objects k = some obj →
      k.length < 2 ^ 32 ∧ obj.getStringValue.length < 2 ^ 32 := by
    intro k obj ho
    have hmem : (k, obj) ∈ db.keys.forEach := (Dict.mem_forEach_iff db.keys_sound).mpr ho
    have hshort := List.all_eq_true.mp hall (k, obj) hmem
    simpa using hshort
  have hclock : 0 ≤ (12 : MillisecondTimestamp).toInt := by decide
  have hrestored := snapshot_restores hreach hclock hshort P P 0 fun _ => 0
  exact ⟨hrestored.1, ((hrestored.2 k).2.1 hlive).trans hdeadline⟩

end Keva
