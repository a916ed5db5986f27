import Keva.Lib.Run
import Keva.Server.Reachable

/-!
# Snapshots of snapshots

A save during which the clock stands still wherever a deadline is recorded is punctual. Punctual
saves keep the deadlines through any number of snapshots, and no other save does.
-/

namespace Keva

namespace KevaDatabase

theorem saveRecords_of_punctual {db : KevaDatabase} {clock : SaveClock}
    (h : db.PunctualSave clock) :
    (db.saveRecords clock.reading).1 = (db.saveRecords fun _ => clock.reading 0).1 := by
  have hobjects : ∀ p ∈ db.keys.forEach, db.content.objects p.1 = some p.2 :=
    fun _ hp => (Dict.mem_forEach_iff db.keys_sound).mp hp
  have hstill := saveWalk_eq (Int64.le_iff_toInt_le.mp clock.nonneg) hobjects 1
  rw [saveRecords_eq, stampedRecords_of_punctual clock h]
  exact hstill.symm

/-- Keys and values have lengths that four bytes can tell. -/
def Short (db : KevaDatabase) : Prop :=
  ∀ k obj, db.content.objects k = some obj →
    k.length < 2 ^ 32 ∧ obj.getStringValue.length < 2 ^ 32

end KevaDatabase

/-- A save, and the start of a server that loads the snapshot. -/
structure SaveLoadCycle where
  clock : SaveClock
  keysParams : DictParams
  expiresParams : DictParams
  dbId : UInt32
  secs : ℕ → Int64

namespace KevaDatabase

def afterCycle (db : KevaDatabase) (cycle : SaveLoadCycle) : KevaDatabase :=
  ((KevaDatabase.empty cycle.keysParams cycle.expiresParams).rdbLoad cycle.secs
    (.whole (rdb.image cycle.dbId (db.saveRecords cycle.clock.reading).1))).2

/-- The keys of `K'` are keys of `K`, with the same deadlines. -/
def KeepsDeadlines (K K' : Keyspace) : Prop :=
  ∀ k, (K'.objects k).isSome → (K.objects k).isSome ∧ K'.deadlines k = K.deadlines k

theorem keepsDeadlines_afterCycle {db : KevaDatabase} {cycle : SaveLoadCycle}
    (hcanonical : db.content.Canonical) (hshort : db.Short) (h : db.PunctualSave cycle.clock) :
    KeepsDeadlines db.content (db.afterCycle cycle).content := by
  have hrestores := (restores_rdbLoad (Int64.le_iff_toInt_le.mp cycle.clock.nonneg) hcanonical
    hshort cycle.keysParams cycle.expiresParams cycle.dbId cycle.secs).2
  unfold afterCycle
  rw [saveRecords_of_punctual h]
  intro k hk
  have hlive := (hrestores.keys k).mp hk
  obtain ⟨obj, ho⟩ := Option.isSome_iff_exists.mp hlive.stored
  refine ⟨hlive.stored, ?_⟩
  rw [hrestores.deadlines, Keyspace.shown_of_live ho hlive.not_expired]
  rfl

theorem canonical_afterCycle (db : KevaDatabase) (cycle : SaveLoadCycle) :
    (db.afterCycle cycle).content.Canonical :=
  (Reachable.rdbLoad cycle.secs _ .empty).healthy.canonical

theorem keepsDeadlines_foldl {db : KevaDatabase} (hcanonical : db.content.Canonical)
    {cycles : List SaveLoadCycle}
    (h : Run.Along afterCycle (fun db cycle => db.Short ∧ db.PunctualSave cycle.clock) db cycles) :
    KeepsDeadlines db.content (cycles.foldl afterCycle db).content := by
  induction cycles generalizing db with
  | nil => exact fun k hk => ⟨hk, rfl⟩
  | cons cycle cycles ih =>
      obtain ⟨⟨hshort, hpunctual⟩, hrest⟩ := h
      intro k hk
      obtain ⟨hk', hdeadline'⟩ := ih (canonical_afterCycle db cycle) hrest k hk
      obtain ⟨hk, hdeadline⟩ := keepsDeadlines_afterCycle hcanonical hshort hpunctual k hk'
      exact ⟨hk, hdeadline'.trans hdeadline⟩

end KevaDatabase

/-- The records of a save have the deadlines of their keys if and only if, for each of these keys,
the clock stands still between its two readings and has not passed the deadline. Saves like that
keep the deadlines through any number of snapshots. -/
theorem snapshots_keep_deadlines_iff {P Q : DictParams} {db : KevaDatabase}
    (h : KevaDatabase.Reachable P Q db) (clock : SaveClock) :
    (db.SavesDeadlines clock ↔ db.PunctualSave clock) ∧
      ∀ cycles, Run.Along KevaDatabase.afterCycle
          (fun db cycle => db.Short ∧ db.PunctualSave cycle.clock) db cycles →
        KevaDatabase.KeepsDeadlines db.content
          (cycles.foldl KevaDatabase.afterCycle db).content :=
  ⟨KevaDatabase.savesDeadlines_iff db clock,
    fun _ => KevaDatabase.keepsDeadlines_foldl h.healthy.canonical⟩

theorem snapshots_keep_deadlines_still :
    let P := DictParams.exact fun _ => 0
    let env := fun _ : ℕ => World.still 10 0
    let db := (freshSession.exec env
      (executeFrame (commandFrame [ascii "PSETEX", ascii "k", ascii "5", ascii "v"]))).2.db
    let clock : SaveClock := ⟨fun _ => 10, by decide, fun _ => Int64.le_refl _⟩
    KevaDatabase.Reachable P P db ∧ db.SavesDeadlines clock := by
  intro P env db clock
  have hreach : KevaDatabase.Reachable P P db := .command env _ freshSession .empty
  have hdeadlines :
      KevaDatabase.visitedDeadlines db.content (clock.reading 0) db.keys.forEach = [15] := by
    decide +kernel
  refine ⟨hreach, (snapshots_keep_deadlines_iff hreach clock).1.mpr ?_⟩
  unfold KevaDatabase.PunctualSave
  rw [hdeadlines]
  intro i e hi
  obtain rfl : e = 15 := by
    cases i with
    | zero => cases hi; rfl
    | succ i => cases hi
  have hle : (10 : MillisecondTimestamp) ≤ 15 := by decide
  exact ⟨rfl, hle⟩

/-- The key of a deadline at 15 is recorded with 16 when the clock goes from 10 to 11. -/
theorem save_postpones_deadline :
    let P := DictParams.exact fun _ => 0
    let env := fun _ : ℕ => World.still 10 0
    let db := (freshSession.exec env
      (executeFrame (commandFrame [ascii "PSETEX", ascii "k", ascii "5", ascii "v"]))).2.db
    let clock : SaveClock := ⟨fun n => if n < 2 then 10 else 11, by decide, fun n => by
      split_ifs <;> first | decide | omega⟩
    KevaDatabase.Reachable P P db ∧ db.content.deadlines (ascii "k") = some 15 ∧
      (db.saveRecords clock.reading).1 = [⟨ascii "k", ascii "v", some 16⟩] ∧
      ¬ db.SavesDeadlines clock := by
  intro P env db clock
  have hdeadline : db.content.deadlines (ascii "k") = some 15 := by decide +kernel
  have hrecords : (db.saveRecords clock.reading).1 = [⟨ascii "k", ascii "v", some 16⟩] := by
    decide +kernel
  refine ⟨.command env _ freshSession .empty, hdeadline, hrecords, fun hsaves => ?_⟩
  have hrecord := hsaves ⟨ascii "k", ascii "v", some 16⟩ (by rw [hrecords]; exact .head _) 15
    hdeadline
  cases hrecord

end Keva
