import Keva.Core.DictSample
import Keva.Server.Reachable

/-!
# The expiry cycle

The deadline table of a reachable database is regular, so that the samples of a round are distinct,
and every key in it is stored, so that each deletion of the round takes one key out of the database.
-/

namespace Keva

open Session

namespace KevaDatabase

/-- The sizes of the deadline table are powers of two. -/
def Regular (db : KevaDatabase) : Prop := db.expires.load.Regular

variable {db : KevaDatabase} {k : Bytes} {now : MillisecondTimestamp}

theorem regular_empty (P Q : DictParams) : (empty P Q).Regular := by
  change (Dict.empty Q).load.Regular
  rw [Dict.load_empty]
  exact Load.regular_initial

theorem Regular.expiresGet (h : db.Regular) (k : Bytes) : (db.expiresGet k).2.Regular :=
  Dict.regular_stepIfRehashing db.expires_sound h

theorem Regular.expiresSet (h : db.Regular) (k : Bytes) (ts : MillisecondTimestamp) :
    (db.expiresSet k ts).Regular := Dict.regular_set db.expires_sound h k ts

theorem Regular.expiresModify (h : db.Regular) (k : Bytes)
    (f : MillisecondTimestamp → MillisecondTimestamp) : (db.expiresModify k f).Regular := by
  change (db.expires.modifyValue k f).load.Regular
  rw [Dict.load_modifyValue]
  exact h

theorem Regular.deleteKey (h : db.Regular) (k : Bytes) : (db.deleteKey k).Regular :=
  Dict.regular_del db.expires_sound h k

theorem Regular.set (h : db.Regular) (k : Bytes) (obj : KevaObject) : (db.set k obj).Regular :=
  Dict.regular_del db.expires_sound h k

theorem Regular.get (h : db.Regular) (k : Bytes) (now : MillisecondTimestamp) (secs : Int64) :
    (db.get k now secs).2.Regular := by
  have hkeys : (db.keysGet k).2.Regular := h
  rw [KevaDatabase.get]
  generalize db.keysGet k = r at hkeys ⊢
  obtain ⟨o, db'⟩ := r
  cases o with
  | none => exact hkeys
  | some obj =>
      dsimp only
      split_ifs
      · exact hkeys.deleteKey k
      · exact hkeys

theorem Regular.peek (h : db.Regular) (k : Bytes) (now : MillisecondTimestamp) :
    (db.peek k now).2.Regular := by
  have hkeys : (db.keysGet k).2.Regular := h
  rw [KevaDatabase.peek]
  generalize db.keysGet k = r at hkeys ⊢
  obtain ⟨o, db'⟩ := r
  cases o with
  | none => exact hkeys
  | some obj =>
      dsimp only
      split_ifs
      · exact hkeys
      · exact hkeys

theorem Regular.setExpire (h : db.Regular) (k : Bytes) (e : MillisecondTimestamp) :
    (db.setExpire k e).Regular := by
  have hget := h.expiresGet k
  rw [KevaDatabase.setExpire]
  generalize db.expiresGet k = r at hget ⊢
  obtain ⟨o, db'⟩ := r
  cases o with
  | none => exact hget.expiresSet k e
  | some ts => exact hget.expiresModify k _

theorem Regular.removeExpire (h : db.Regular) (k : Bytes) : (db.removeExpire k).Regular :=
  Dict.regular_del db.expires_sound h k

theorem Regular.pttl (h : db.Regular) (k : Bytes) (now : MillisecondTimestamp) :
    (db.pttl k now).2.Regular := by
  have hget := h.expiresGet k
  rw [KevaDatabase.pttl]
  split_ifs
  · exact h
  · generalize db.expiresGet k = r at hget ⊢
    obtain ⟨o, db'⟩ := r
    cases o with
    | none => exact hget
    | some ts => exact hget

theorem regular_flush (db : KevaDatabase) : db.flush.Regular := by
  change db.expires.clear.load.Regular
  rw [Dict.load_clear]
  exact Load.regular_initial

theorem Regular.rehashStep (h : db.Regular) : db.rehashStep.Regular :=
  Dict.regular_rehashStep db.expires_sound h 100

theorem Regular.saveWalk (clock : ℕ → MillisecondTimestamp) (entries : List (Bytes × KevaObject))
    (n : ℕ) (h : db.Regular) : (KevaDatabase.saveWalk clock entries n db).2.Regular := by
  induction entries generalizing n db with
  | nil => exact h
  | cons e entries ih =>
      obtain ⟨key, obj⟩ := e
      rw [KevaDatabase.saveWalk]
      split_ifs
      · exact ih n h
      · dsimp only
        split_ifs
        · exact ih _ (h.pttl key _)
        · exact ih _ (h.pttl key _)

theorem Regular.loadRecord (h : db.Regular) (key value : Bytes) (pendingExpire secs : Int64) :
    (db.loadRecord key value pendingExpire secs).Regular := by
  rw [KevaDatabase.loadRecord]
  split_ifs
  · exact (h.set key _).setExpire key pendingExpire
  · exact h.set key _

theorem Regular.foldl_deleteKey (l : List Bytes) (h : db.Regular) :
    (l.foldl KevaDatabase.deleteKey db).Regular := by
  induction l generalizing db with
  | nil => exact h
  | cons k l ih => exact ih (h.deleteKey k)

theorem Regular.expireRounds (now : MillisecondTimestamp) (draws : List SampleDraw) (total : ℕ)
    (h : db.Regular) : (KevaDatabase.expireRounds now draws total db).2.Regular := by
  induction draws generalizing total db with
  | nil => exact h
  | cons draw draws ih =>
      rw [KevaDatabase.expireRounds]
      dsimp only
      split_ifs
      · exact h
      · exact h.foldl_deleteKey _
      · exact ih _ (h.foldl_deleteKey _)

theorem Regular.activeExpireCycle (h : db.Regular) (now : MillisecondTimestamp)
    (draw₁ draw₂ draw₃ : SampleDraw) :
    (db.activeExpireCycle now draw₁ draw₂ draw₃).2.Regular := by
  rw [KevaDatabase.activeExpireCycle]
  split_ifs
  · exact h
  · exact h.expireRounds now _ 0

end KevaDatabase

theorem Session.regular_perform {s : Session} (h : s.db.Regular) (env : ℕ → World) (op : Call) :
    (s.perform env op).2.db.Regular := by
  cases op with
  | get k => exact h.get k _ _
  | peek k => exact h.peek k _
  | set k obj => exact h.set k obj
  | del k => exact h.deleteKey k
  | setExpire k e => exact h.setExpire k e
  | removeExpire k => exact h.removeExpire k
  | pttl k => exact h.pttl k _
  | flush => exact s.db.regular_flush
  | rdbSaveSync =>
      change (s.rdbSaveSync (env s.calls)).2.db.Regular
      rw [Session.rdbSaveSync]
      cases (env s.calls).save with
      | ok => exact h.saveWalk _ _ 1
      | error visited message => exact h.saveWalk _ _ 1
  | rdbSaveBackground =>
      change (s.rdbSaveBackground (env s.calls)).2.db.Regular
      rw [Session.rdbSaveBackground]
      cases (env s.calls).fork with
      | error message => exact h
      | ok pid => exact h
  | _ => exact h

namespace KevaDatabase

theorem Reachable.regular {P Q : DictParams} {db : KevaDatabase} (h : Reachable P Q db) :
    db.Regular := by
  induction h with
  | empty => exact regular_empty P Q
  | command env frame s h ih =>
      exact Program.run_invariant (I := fun s : Session => s.db.Regular)
        (fun s op _ hs => regular_perform hs env op) (Program.calls_true _) ih
  | rdbLoad secs file h ih =>
      exact rdbLoad_invariant (I := Regular)
        (fun db key value expire t hdb => hdb.loadRecord key value expire t) file ih
  | activeExpireCycle now draw₁ draw₂ draw₃ h ih => exact ih.activeExpireCycle now draw₁ draw₂ draw₃
  | rehashStep h ih => exact ih.rehashStep

end KevaDatabase

theorem Dict.size_del {V : Type} {d : Dict V} (hd : d.Sound) {k : Bytes}
    (hk : (d.toMap k).isSome) : (d.del k).2.size + 1 = d.size := by
  obtain ⟨hs, -, heffect⟩ := Dict.del_spec hd k
  rcases heffect with ⟨e, -, -, hperm, -⟩ | ⟨hnone, -, -⟩
  · rw [Dict.size_eq hs, Dict.size_eq hd, hperm.length_eq, List.length_cons]
  · rw [hnone] at hk
    cases hk

namespace KevaDatabase

variable {db : KevaDatabase} {now : MillisecondTimestamp}

/-- The keys that a round collects: those of its sample whose deadline has passed. -/
def expiredKeys (now : MillisecondTimestamp) (draw : SampleDraw) (db : KevaDatabase) : List Bytes :=
  ((db.expires.randomSample constants.activeExpireSampleSize draw.coin draw.start).filter
    (fun e => e.value ≤ now)).map DictEntry.key

theorem expireRounds_cons (now : MillisecondTimestamp) (draw : SampleDraw)
    (draws : List SampleDraw) (total : ℕ) (db : KevaDatabase) :
    expireRounds now (draw :: draws) total db =
      let n := (db.expires.randomSample constants.activeExpireSampleSize draw.coin
        draw.start).length
      let expired := expiredKeys now draw db
      if n = 0 then (total, db)
      else if expired.length * 4 < n then (total + expired.length, expired.foldl deleteKey db)
      else expireRounds now draws (total + expired.length) (expired.foldl deleteKey db) := rfl

theorem nodup_expiredKeys (h : db.Regular) (now : MillisecondTimestamp) (draw : SampleDraw) :
    (expiredKeys now draw db).Nodup :=
  (Dict.nodup_randomSample db.expires_sound h _ _ _).sublist (List.filter_sublist.map _)

theorem stored_of_mem_expiredKeys (h : db.content.NoOrphans) (now : MillisecondTimestamp)
    (draw : SampleDraw) : ∀ k ∈ expiredKeys now draw db, (db.content.objects k).isSome := by
  intro k hk
  obtain ⟨e, he, rfl⟩ := List.mem_map.mp hk
  have hmem := Dict.mem_records_of_randomSample (List.mem_filter.mp he).1
  have hdeadline : db.content.deadlines e.key = some e.value :=
    (Dict.toMap_eq_some_iff db.expires_sound).mpr ⟨e, hmem, rfl, rfl⟩
  rw [Option.isSome_iff_ne_none]
  intro hnone
  rw [h e.key hnone] at hdeadline
  cases hdeadline

theorem dbsize_foldl_deleteKey {l : List Bytes} (hl : l.Nodup)
    (hk : ∀ k ∈ l, (db.content.objects k).isSome) :
    (l.foldl deleteKey db).dbsize + l.length = db.dbsize := by
  induction l generalizing db with
  | nil => rfl
  | cons k l ih =>
      obtain ⟨hkl, hl⟩ := List.nodup_cons.mp hl
      have hone : (db.deleteKey k).dbsize + 1 = db.dbsize :=
        Dict.size_del db.keys_sound (hk k List.mem_cons_self)
      have hstored : ∀ j ∈ l, ((db.deleteKey k).content.objects j).isSome := by
        intro j hj
        have hjk : j ≠ k := fun h => hkl (h ▸ hj)
        rw [content_deleteKey, Keyspace.erase]
        dsimp only
        rw [Function.update_of_ne hjk]
        exact hk j (List.mem_cons_of_mem k hj)
      have hrest := ih hl hstored
      rw [List.foldl_cons, List.length_cons]
      omega

theorem noOrphans_foldl_deleteKey (l : List Bytes) (h : db.content.NoOrphans) :
    (l.foldl deleteKey db).content.NoOrphans := by
  induction l generalizing db with
  | nil => exact h
  | cons k l ih =>
      apply ih
      rw [content_deleteKey]
      exact h.erase k

theorem dbsize_expireRounds (draws : List SampleDraw) (total : ℕ) (h : db.Regular)
    (hno : db.content.NoOrphans) :
    (expireRounds now draws total db).1 + (expireRounds now draws total db).2.dbsize =
      total + db.dbsize := by
  induction draws generalizing total db with
  | nil => rfl
  | cons draw draws ih =>
      have hround := dbsize_foldl_deleteKey (nodup_expiredKeys h now draw)
        (stored_of_mem_expiredKeys hno now draw)
      have hnext := ih (total + (expiredKeys now draw db).length)
        (h.foldl_deleteKey (expiredKeys now draw db))
        (noOrphans_foldl_deleteKey (expiredKeys now draw db) hno)
      rw [expireRounds_cons]
      dsimp only
      split_ifs
      · rfl
      · dsimp only
        omega
      · omega

theorem dbsize_activeExpireCycle (h : db.Regular) (hno : db.content.NoOrphans)
    (now : MillisecondTimestamp) (draw₁ draw₂ draw₃ : SampleDraw) :
    (db.activeExpireCycle now draw₁ draw₂ draw₃).1 +
      (db.activeExpireCycle now draw₁ draw₂ draw₃).2.dbsize = db.dbsize := by
  rw [activeExpireCycle]
  split_ifs
  · exact Nat.zero_add _
  · exact (dbsize_expireRounds _ 0 h hno).trans (Nat.zero_add _)

/-- The expiry cycle takes keys whose deadline has passed out of both tables, leaves every other
key as it is, and returns how many keys it has taken out. -/
theorem active_expire_reaps {P Q : DictParams} {db : KevaDatabase} (h : Reachable P Q db)
    (now : MillisecondTimestamp) (draw₁ draw₂ draw₃ : SampleDraw) :
    let r := db.activeExpireCycle now draw₁ draw₂ draw₃
    (∀ k, (r.2.keys.toMap k = db.keys.toMap k ∧ r.2.expires.toMap k = db.expires.toMap k) ∨
      (∃ e, db.expires.toMap k = some e ∧ e ≤ now) ∧
        r.2.keys.toMap k = none ∧ r.2.expires.toMap k = none) ∧
    (∀ k, (∀ e, db.expires.toMap k = some e → now < e) →
      r.2.keys.toMap k = db.keys.toMap k ∧ r.2.expires.toMap k = db.expires.toMap k) ∧
    r.1 + r.2.dbsize = db.dbsize := by
  intro r
  have hreaped : Keyspace.Reaped now db.content r.2.content :=
    reaped_activeExpireCycle db now draw₁ draw₂ draw₃
  have hpassed : ∀ k, db.content.expired now k = true →
      ∃ e, db.expires.toMap k = some e ∧ e ≤ now := by
    intro k hk
    cases hd : db.content.deadlines k with
    | none =>
        rw [Keyspace.expired_of_deadline_none now hd] at hk
        cases hk
    | some e => exact ⟨e, hd, (Keyspace.expired_iff hd).mp hk⟩
  refine ⟨fun k => ?_, fun k hk => ?_, ?_⟩
  · exact (hreaped k).imp_right fun hgone => ⟨hpassed k hgone.1, hgone.2⟩
  · apply hreaped.of_not_expired
    rw [Bool.eq_false_iff]
    intro hexpired
    obtain ⟨e, he, hle⟩ := hpassed k hexpired
    exact absurd (hk e he) (Int64.not_lt.mpr hle)
  · exact dbsize_activeExpireCycle h.regular h.healthy.noOrphans now draw₁ draw₂ draw₃

/-- The key of a PSETEX is taken out when its lifetime is over. -/
theorem active_expire_reaps_psetex :
    let P := DictParams.exact fun _ => 0
    let db := (freshSession.exec (fun _ : ℕ => World.still 10 0)
      (executeFrame (commandFrame [ascii "PSETEX", ascii "k", ascii "5", ascii "v"]))).2.db
    let r := db.activeExpireCycle 15 ⟨0, 0⟩ ⟨0, 0⟩ ⟨0, 0⟩
    Reachable P P db ∧ r.1 = 1 ∧ r.1 + r.2.dbsize = db.dbsize := by
  intro P db r
  have hreach : Reachable P P db := .command _ _ freshSession .empty
  exact ⟨hreach, by decide +kernel, (active_expire_reaps hreach 15 ⟨0, 0⟩ ⟨0, 0⟩ ⟨0, 0⟩).2.2⟩

end KevaDatabase

end Keva
