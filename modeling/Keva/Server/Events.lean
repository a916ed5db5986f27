import Keva.Command.Footprint
import Keva.Core.Purge

/-!
# What happens to the server

The event loop handles one event at a time: a frame that a connection has received, a tick of the
cron, the exit of a BGSAVE child, the end of the loop. A child finishes its save on its own.
-/

namespace Keva

namespace Session

/-- `server_cron`. Its save point check only logs. -/
def serverCron (s : Session) (now : MillisecondTimestamp) (draw₁ draw₂ draw₃ : SampleDraw) :
    Session :=
  let (deleted, db) := s.db.activeExpireCycle now draw₁ draw₂ draw₃
  { s with
    db := db.rehashStep
    server := { s.server with stats := { s.server.stats with
      expiredKeys := s.server.stats.expiredKeys + UInt64.ofNat deleted } } }

/-- The child has written its image and renames it over the snapshot file. -/
def finishChild (s : Session) (clock : ℕ → MillisecondTimestamp) : Session :=
  match s.child with
  | some ⟨db, false⟩ =>
      { s with snapshot := some (db.saveRecords clock).1, child := some ⟨db, true⟩ }
  | _ => s

/-- `on_bgsave_child_exit` for a child that exited with status 0. `waitpid` with `WNOHANG` reaps
nothing as long as the child runs. -/
def onBgsaveChildExit (s : Session) (time : Int64) : Session :=
  match s.child with
  | some ⟨_, true⟩ =>
      { s with
        child := none
        server := { s.server with bgsaveChildPid := -1, lastSaveTime := time, dirtyKeys := 0 } }
  | _ => s

/-- The final save of `main`. -/
def shutdown (s : Session) (w : World) : Session :=
  if s.server.config.rdbEnabled ∧ 0 < s.server.dirtyKeys then (s.rdbSaveSync w).2 else s

end Session

inductive ServerEvent
  | request (env : ℕ → World) (frame : RespValue)
  | cron (now : MillisecondTimestamp) (draw₁ draw₂ draw₃ : SampleDraw)
  | rehash
  | childFinishes (clock : ℕ → MillisecondTimestamp)
  | childExit (time : Int64)

def Session.handle (s : Session) : ServerEvent → Session
  | .request env frame => (s.exec env (executeFrame frame)).2
  | .cron now draw₁ draw₂ draw₃ => s.serverCron now draw₁ draw₂ draw₃
  | .rehash => { s with db := s.db.rehashStep }
  | .childFinishes clock => s.finishChild clock
  | .childExit time => s.onBgsaveChildExit time

def Session.handleAll (s : Session) (events : List ServerEvent) : Session :=
  events.foldl Session.handle s

namespace Session

theorem reaped_serverCron (s : Session) (now : MillisecondTimestamp)
    (draw₁ draw₂ draw₃ : SampleDraw) :
    Keyspace.Reaped now s.db.content (s.serverCron now draw₁ draw₂ draw₃).db.content := by
  change Keyspace.Reaped now s.db.content
    (s.db.activeExpireCycle now draw₁ draw₂ draw₃).2.rehashStep.content
  rw [KevaDatabase.content_rehashStep]
  exact KevaDatabase.reaped_activeExpireCycle s.db now draw₁ draw₂ draw₃

@[simp] theorem finishChild_db (s : Session) (clock : ℕ → MillisecondTimestamp) :
    (s.finishChild clock).db = s.db := by
  unfold finishChild
  split <;> rfl

@[simp] theorem onBgsaveChildExit_db (s : Session) (time : Int64) :
    (s.onBgsaveChildExit time).db = s.db := by
  unfold onBgsaveChildExit
  split <;> rfl

end Session

/-- The event is about other keys than `k`. -/
def ServerEvent.Avoids (k : Bytes) : ServerEvent → Prop
  | .request _ frame => ∀ entry args, frameCommand frame = some (entry, args) →
      k ∉ keyArguments entry args ∧ entry.name ≠ ascii "FLUSHDB"
  | _ => True

theorem flush_of_mem_kinds {entry : CommandEntry} (he : entry ∈ commandTable)
    (h : .flush ∈ (footprint entry.name).kinds) : entry.name = ascii "FLUSHDB" := by
  have hall : ∀ e ∈ commandTable, .flush ∈ (footprint e.name).kinds →
      e.name = ascii "FLUSHDB" := by decide
  exact hall entry he h

theorem exec_executeFrame_elsewhere {k : Bytes} {env : ℕ → World} {frame : RespValue}
    (h : (ServerEvent.request env frame).Avoids k) (s : Session) :
    (s.exec env (executeFrame frame)).2.db.content.objects k = s.db.content.objects k ∧
      (s.exec env (executeFrame frame)).2.db.content.deadlines k = s.db.content.deadlines k := by
  cases hc : frameCommand frame with
  | none => exact exec_elsewhere (executeFrame_of_none hc) (by decide) (by simp) env s
  | some c =>
      obtain ⟨entry, args⟩ := c
      obtain ⟨heq, he, ha, -⟩ := executeFrame_of_some hc
      obtain ⟨hk, hname⟩ := h entry args hc
      have hflush : CallKind.flush ∉ .account :: (footprint entry.name).kinds := by
        intro hin
        rcases List.mem_cons.mp hin with hin | hin
        · cases hin
        · exact hname (flush_of_mem_kinds he hin)
      have huses : Uses (.account :: (footprint entry.name).kinds) (keyArguments entry args)
          (executeFrame frame) := heq ▸ uses_runCommand he ha
      exact exec_elsewhere huses hflush hk env s

theorem handle_elsewhere {k : Bytes} {e : ServerEvent} (h : e.Avoids k) {s : Session}
    (hd : s.db.content.deadlines k = none) :
    (s.handle e).db.content.objects k = s.db.content.objects k ∧
      (s.handle e).db.content.deadlines k = none := by
  cases e with
  | request env frame =>
      rw [← hd]
      exact exec_executeFrame_elsewhere h s
  | cron now draw₁ draw₂ draw₃ =>
      rw [← hd]
      exact (s.reaped_serverCron now draw₁ draw₂ draw₃).of_not_expired
        (Keyspace.expired_of_deadline_none now hd)
  | rehash =>
      change s.db.rehashStep.content.objects k = _ ∧ s.db.rehashStep.content.deadlines k = none
      rw [KevaDatabase.content_rehashStep]
      exact ⟨rfl, hd⟩
  | childFinishes clock =>
      change (s.finishChild clock).db.content.objects k = _ ∧
        (s.finishChild clock).db.content.deadlines k = none
      rw [Session.finishChild_db]
      exact ⟨rfl, hd⟩
  | childExit time =>
      change (s.onBgsaveChildExit time).db.content.objects k = _ ∧
        (s.onBgsaveChildExit time).db.content.deadlines k = none
      rw [Session.onBgsaveChildExit_db]
      exact ⟨rfl, hd⟩

theorem handleAll_elsewhere {k : Bytes} {events : List ServerEvent}
    (h : ∀ e ∈ events, e.Avoids k) {s : Session} (hd : s.db.content.deadlines k = none) :
    (s.handleAll events).db.content.objects k = s.db.content.objects k ∧
      (s.handleAll events).db.content.deadlines k = none := by
  induction events generalizing s with
  | nil => exact ⟨rfl, hd⟩
  | cons e events ih =>
      obtain ⟨ho, hd'⟩ := handle_elsewhere (h e List.mem_cons_self) hd
      obtain ⟨ho', hd''⟩ := ih (fun e' he' => h e' (List.mem_cons_of_mem e he')) hd'
      exact ⟨ho'.trans ho, hd''⟩

end Keva
