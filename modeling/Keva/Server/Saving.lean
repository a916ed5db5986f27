import Keva.Command.Isolation
import Keva.Lib.Run
import Keva.Persistence.Snapshot

/-!
# What the snapshot file holds at the end

`dirty_keys` counts the commands that may have written since the last save. SAVE resets it when the
file has been replaced; `on_bgsave_child_exit` resets it too, but the file then holds the keyspace
as it was at the fork. Only the latter can leave the counter at zero while the file is out of date.
-/

namespace Keva

open Session Handler

variable {T t : MillisecondTimestamp}

namespace Keyspace

variable {K K' : Keyspace} {k : Bytes}

theorem Reaped.shown_eq (h : Reaped t K K') (ht : t ≤ T) (k : Bytes) :
    K'.shown T k = K.shown T k := by
  rcases h k with ⟨ho, hd⟩ | ⟨he, ho, -⟩
  · exact shown_congr ho hd
  · rw [shown_of_none ho, shown_of_expired (expired_of_le ht he)]

theorem shown_eq_some_of_le (ht : t ≤ T) {v : Bytes} {e : Option MillisecondTimestamp} :
    K.shown T k = some (v, e) ↔ K.shown t k = some (v, e) ∧ ∀ x, e = some x → T < x := by
  have hfresh : K.expired T k = false ↔ ∀ x, K.deadlines k = some x → T < x := by
    cases hd : K.deadlines k with
    | none => simp [expired_of_deadline_none T hd]
    | some e => simp [not_expired_iff hd]
  rw [shown_eq_some_iff, shown_eq_some_iff]
  constructor
  · rintro ⟨obj, ho, he, hv, rfl⟩
    refine ⟨⟨obj, ho, ?_, hv, rfl⟩, hfresh.mp he⟩
    cases hearly : K.expired t k with
    | false => rfl
    | true =>
        rw [expired_of_le ht hearly] at he
        cases he
  · rintro ⟨⟨obj, ho, -, hv, rfl⟩, hx⟩
    exact ⟨obj, ho, hfresh.mpr hx, hv, rfl⟩

end Keyspace

/-- The records that have not expired at `T` are exactly what the keyspace shows at `T`. -/
def FileHolds (T : MillisecondTimestamp) (file : Option (List RdbRecord)) (K : Keyspace) : Prop :=
  ∀ r : RdbRecord, (r ∈ file.getD [] ∧ ∀ x, r.expire = some x → T < x) ↔
    K.shown T r.key = some (r.value, r.expire)

theorem FileHolds.congr {file : Option (List RdbRecord)} {K K' : Keyspace} (h : FileHolds T file K)
    (hK : ∀ k, K'.shown T k = K.shown T k) : FileHolds T file K' := by
  intro r
  rw [h r, hK]

/-- The clock stands still at a time from the epoch to `T`. -/
structure StillBy (T : MillisecondTimestamp) (clock : ℕ → MillisecondTimestamp) : Prop where
  still : ∀ n, clock n = clock 0
  nonneg : 0 ≤ (clock 0).toInt
  le : clock 0 ≤ T

theorem fileHolds_saveRecords {clock : ℕ → MillisecondTimestamp} (h : StillBy T clock)
    (db : KevaDatabase) : FileHolds T (some (db.saveRecords clock).1) db.content := by
  have hclock : clock = fun _ => clock 0 := funext h.still
  intro r
  rw [hclock, Option.getD_some, (KevaDatabase.saveRecords_spec h.nonneg db).2,
    Keyspace.shown_eq_some_of_le h.le]

variable {env : ℕ → World} {s s' : Session} {frame : RespValue} {α : Type}
  {kinds : List CallKind} {keys : List Bytes} {entry : CommandEntry} {args : List RespValue}

/-- The two sessions have the same file, the same child and the same counter. -/
structure SameSaving (s s' : Session) : Prop where
  snapshot : s'.snapshot = s.snapshot
  child : s'.child = s.child
  dirtyKeys : s'.server.dirtyKeys = s.server.dirtyKeys

theorem SameSaving.refl (s : Session) : SameSaving s s := ⟨rfl, rfl, rfl⟩

theorem SameSaving.trans {s'' : Session} (h : SameSaving s s') (h' : SameSaving s' s'') :
    SameSaving s s'' :=
  ⟨h'.snapshot.trans h.snapshot, h'.child.trans h.child, h'.dirtyKeys.trans h.dirtyKeys⟩

/-- The kinds of calls that change the file, the child or the counter. -/
def savingKinds : List CallKind := [.account, .save, .fork]

theorem sameSaving_perform {op : Call} (h : op.kind ∉ savingKinds) (env : ℕ → World) (s : Session) :
    SameSaving s (s.perform env op).2 := by
  cases op with
  | storeLastSaveTime secs | storeDirtyKeys n | fetchAddDirtyKeys | recordCommand | rdbSaveSync
  | rdbSaveBackground => exact absurd (by simp [Call.kind, savingKinds]) h
  | _ => exact ⟨rfl, rfl, rfl⟩

theorem sameSaving_exec {p : Handler α} (h : Uses kinds keys p)
    (hkinds : ∀ c ∈ kinds, c ∉ savingKinds) (env : ℕ → World) (s : Session) :
    SameSaving s (exec env p s).2 := by
  have hcalls : p.Calls (Call.Within kinds keys) := h
  refine Program.run_invariant (I := SameSaving s) (fun s' op hop hs' => ?_) hcalls (.refl s)
  exact hs'.trans (sameSaving_perform (hkinds _ hop.kind_mem) env s')

theorem exec_executeFrame_of_none (h : frameCommand frame = none) (env : ℕ → World) (s : Session) :
    SameSaving s (exec env (executeFrame frame) s).2 ∧
      (exec env (executeFrame frame) s).2.db = s.db := by
  obtain ⟨message, -, heq | heq⟩ := executeFrame_rejects h
  · rw [heq]
    exact ⟨⟨rfl, rfl, rfl⟩, rfl⟩
  · rw [heq]
    exact ⟨⟨rfl, rfl, rfl⟩, rfl⟩

theorem exec_runCommand_saving (entry : CommandEntry) (args : List RespValue) (env : ℕ → World)
    (s : Session) :
    let h := (exec env (entry.handler args) s).2
    let r := (exec env (runCommand entry args) s).2
    r.snapshot = h.snapshot ∧ r.child = h.child ∧ r.db = h.db ∧
      r.server.dirtyKeys = if entry.write then h.server.dirtyKeys + 1 else h.server.dirtyKeys := by
  rw [runCommand, exec_bind, exec_bind]
  cases entry.write with
  | true => exact ⟨rfl, rfl, rfl, rfl⟩
  | false => exact ⟨rfl, rfl, rfl, rfl⟩

/-- The kinds of calls of the commands that are not counted. -/
def quietKinds : List CallKind :=
  [.lookup, .inspect, .ttl, .scan, .size, .clock, .reply, .state, .context, .account, .save, .fork]

theorem Call.Within.shown_effect {op : Call} (hop : op.Within quietKinds keys) {w : World}
    (hw : w.nowMs ≤ T) (K : Keyspace) (k : Bytes) : (op.effect w K).shown T k = K.shown T k := by
  cases op with
  | get j => exact Keyspace.shown_get_of_le hw j w.time k
  | set j obj | del j | setExpire j e | removeExpire j | flush =>
      exact absurd hop.kind_mem (by simp [Call.kind, quietKinds])
  | _ => rfl

theorem shown_exec {p : Handler α} (h : Uses kinds keys p) (hkinds : kinds ⊆ quietKinds)
    (henv : ∀ n, (env n).nowMs ≤ T) (s : Session) (k : Bytes) :
    (exec env p s).2.db.content.shown T k = s.db.content.shown T k := by
  have hcalls : p.Calls (Call.Within quietKinds keys) := h.mono hkinds (List.Subset.refl _)
  refine Program.run_invariant
    (I := fun s' : Session => s'.db.content.shown T k = s.db.content.shown T k)
    (fun s' op hop hs' => ?_) hcalls rfl
  rw [content_perform, hop.shown_effect (henv s'.calls)]
  exact hs'

/-- The frame runs a command that is counted. -/
def Counts (frame : RespValue) : Prop :=
  ∃ entry args, frameCommand frame = some (entry, args) ∧ entry.write = true

theorem quiet_of_not_write {entry : CommandEntry} (he : entry ∈ commandTable)
    (hwrite : entry.write = false) : (footprint entry.name).kinds ⊆ quietKinds := by
  have hall : ∀ e ∈ commandTable, e.write = false → (footprint e.name).kinds ⊆ quietKinds := by
    decide
  exact hall entry he hwrite

theorem shown_of_not_counts (h : ¬ Counts frame) (henv : ∀ n, (env n).nowMs ≤ T) (s : Session)
    (k : Bytes) :
    (s.exec env (executeFrame frame)).2.db.content.shown T k = s.db.content.shown T k := by
  cases hc : frameCommand frame with
  | none => rw [(exec_executeFrame_of_none hc env s).2]
  | some c =>
      obtain ⟨entry, args⟩ := c
      obtain ⟨heq, he, ha, -⟩ := executeFrame_of_some hc
      have hwrite : entry.write = false := by
        rw [← Bool.not_eq_true]
        exact fun hw => h ⟨entry, args, hc, hw⟩
      rw [heq, (exec_runCommand_saving entry args env s).2.2.1]
      exact shown_exec (uses_handler he ha) (quiet_of_not_write he hwrite) henv s k

theorem findEntry {name : Bytes} {e : CommandEntry} (h : frameCommand frame = some (entry, args))
    (hname : entry.name = name) (hfind : findCommand name = some e) : entry = e := by
  have hentry := (findCommand_of_frameCommand h).1
  rw [hname, hfind] at hentry
  exact (Option.some.inj hentry).symm

theorem exec_handleSave (hw : (env s.calls).save = .ok) (args : List RespValue) :
    let r := (exec env (handleSave args) s).2
    r.snapshot = some (s.db.saveRecords (env s.calls).saveClock).1 ∧ r.child = s.child ∧
      r.server.dirtyKeys = 0 := by
  have hsave : s.perform env .rdbSaveSync = (.ok (), { s with
      db := (s.db.saveRecords (env s.calls).saveClock).2
      snapshot := some (s.db.saveRecords (env s.calls).saveClock).1
      calls := s.calls + 1 }) := by
    change ((s.rdbSaveSync (env s.calls)).1, { (s.rdbSaveSync (env s.calls)).2 with
      calls := s.calls + 1 }) = _
    unfold Session.rdbSaveSync
    rw [hw]
    rfl
  rw [handleSave, exec_rdbSaveSync_bind, hsave]
  exact ⟨rfl, rfl, rfl⟩

theorem exec_handleBgsave_saving (args : List RespValue) :
    let r := (exec env (handleBgsave args) s).2
    r.snapshot = s.snapshot ∧ (r.child = s.child ∨ r.child = some ⟨s.db, false⟩) ∧
      r.server.dirtyKeys = s.server.dirtyKeys := by
  rw [handleBgsave, exec_serverContext_bind]
  split_ifs
  · exact ⟨rfl, .inl rfl, rfl⟩
  · rw [exec_rdbSaveBackground_bind]
    set s₁ := (s.perform env .serverContext).2
    have hfork : let r := s₁.perform env .rdbSaveBackground
        r.2.snapshot = s₁.snapshot ∧ (r.2.child = s₁.child ∨ r.2.child = some ⟨s₁.db, false⟩) ∧
          r.2.server.dirtyKeys = s₁.server.dirtyKeys := by
      change let r := s₁.rdbSaveBackground (env s₁.calls)
        r.2.snapshot = s₁.snapshot ∧ (r.2.child = s₁.child ∨ r.2.child = some ⟨s₁.db, false⟩) ∧
          r.2.server.dirtyKeys = s₁.server.dirtyKeys
      unfold Session.rdbSaveBackground
      cases (env s₁.calls).fork with
      | ok pid => exact ⟨rfl, .inr rfl, rfl⟩
      | error message => exact ⟨rfl, .inl rfl, rfl⟩
    cases (s₁.perform env .rdbSaveBackground).1 with
    | ok u => exact hfork
    | error message => exact hfork

theorem savingKinds_of_ne (he : entry ∈ commandTable) (hsave : entry.name ≠ ascii "SAVE")
    (hbgsave : entry.name ≠ ascii "BGSAVE") :
    ∀ c ∈ (footprint entry.name).kinds, c ∉ savingKinds := by
  have hall : ∀ e ∈ commandTable, e.name ≠ ascii "SAVE" → e.name ≠ ascii "BGSAVE" →
      ∀ c ∈ (footprint e.name).kinds, c ∉ savingKinds := by decide
  exact hall entry he hsave hbgsave

/-- What the world answers up to `T`: every save succeeds, and no time passes while it is made. -/
structure World.Admitted (T : MillisecondTimestamp) (w : World) : Prop where
  now_le : w.nowMs ≤ T
  save_ok : w.save = .ok
  clock : StillBy T w.saveClock

/-- The events that are considered. No SAVE is issued while a child is running. -/
def Admitted (T : MillisecondTimestamp) (s : Session) : ServerEvent → Prop
  | .request env frame => (∀ n, (env n).Admitted T) ∧
      (frameName frame = some (ascii "SAVE") → ∀ copy, s.child ≠ some ⟨copy, false⟩)
  | .cron now _ _ _ => now ≤ T
  | .rehash => True
  | .childFinishes clock => StillBy T clock
  | .childExit _ => True

/-- The event is a command that is counted. -/
def ServerEvent.Writes : ServerEvent → Prop
  | .request _ frame => Counts frame
  | _ => False

/-- The counter does not wrap around. -/
def CountsOn (s : Session) (e : ServerEvent) : Prop := e.Writes → s.server.dirtyKeys + 1 ≠ 0

/-- When the exit of a child is processed, the file holds the keyspace. -/
def ExitsClean (T : MillisecondTimestamp) (s : Session) : ServerEvent → Prop
  | .childExit _ => ∀ copy, s.child = some ⟨copy, true⟩ → FileHolds T s.snapshot s.db.content
  | _ => True

/-- With nothing counted since the last save, the file holds the keyspace. -/
def Intact (T : MillisecondTimestamp) (s : Session) : Prop :=
  s.server.dirtyKeys = 0 → FileHolds T s.snapshot s.db.content

/-- The invariant: a running child may still replace the file, by a copy that is no worse. -/
structure Covered (T : MillisecondTimestamp) (s : Session) : Prop where
  intact : Intact T s
  copy : s.server.dirtyKeys = 0 → ∀ copy, s.child = some ⟨copy, false⟩ →
    ∀ k, copy.content.shown T k = s.db.content.shown T k

theorem Covered.of_same (h : Covered T s) (hsame : SameSaving s s')
    (hshown : ∀ k, s'.db.content.shown T k = s.db.content.shown T k) : Covered T s' := by
  constructor
  · intro hzero
    rw [hsame.dirtyKeys] at hzero
    rw [hsame.snapshot]
    exact (h.intact hzero).congr hshown
  · intro hzero copy hcopy k
    rw [hsame.dirtyKeys] at hzero
    rw [hsame.child] at hcopy
    rw [hshown k]
    exact h.copy hzero copy hcopy k

theorem covered_of_dirty (h : s.server.dirtyKeys ≠ 0) : Covered T s :=
  ⟨fun hzero => absurd hzero h, fun hzero => absurd hzero h⟩

theorem shown_runCommand (hc : frameCommand frame = some (entry, args))
    (hwrite : entry.write = false) (henv : ∀ n, (env n).nowMs ≤ T) (s : Session) (k : Bytes) :
    (s.exec env (executeFrame frame)).2.db.content.shown T k = s.db.content.shown T k := by
  apply shown_of_not_counts _ henv
  rintro ⟨entry', args', hc', hwrite'⟩
  rw [hc] at hc'
  obtain ⟨rfl, -⟩ := Prod.mk.inj (Option.some.inj hc')
  rw [hwrite] at hwrite'
  cases hwrite'

theorem covered_save (hc : frameCommand frame = some (entry, args))
    (hname : entry.name = ascii "SAVE") (henv : ∀ n, (env n).Admitted T)
    (hchild : ∀ copy, s.child ≠ some ⟨copy, false⟩) :
    Covered T (s.exec env (executeFrame frame)).2 := by
  obtain rfl := findEntry (e := ⟨ascii "SAVE", handleSave, 1, 1, false⟩) hc hname rfl
  have hshown := shown_runCommand hc rfl (fun n => (henv n).now_le) s
  obtain ⟨hsnapshot, hsame, -, -⟩ :=
    exec_runCommand_saving ⟨ascii "SAVE", handleSave, 1, 1, false⟩ args env s
  obtain ⟨hrecords, hsame', -⟩ := exec_handleSave (henv s.calls).save_ok args
  rw [(executeFrame_of_some hc).1] at hshown ⊢
  constructor
  · intro _
    rw [hsnapshot]
    dsimp only at hrecords ⊢
    rw [hrecords]
    exact (fileHolds_saveRecords (henv s.calls).clock s.db).congr hshown
  · intro _ copy hcopy
    exact absurd ((hsame.trans hsame').symm.trans hcopy) (hchild copy)

theorem covered_bgsave (hc : frameCommand frame = some (entry, args))
    (hname : entry.name = ascii "BGSAVE") (henv : ∀ n, (env n).Admitted T) (h : Covered T s) :
    Covered T (s.exec env (executeFrame frame)).2 := by
  obtain rfl := findEntry (e := ⟨ascii "BGSAVE", handleBgsave, 1, 1, false⟩) hc hname rfl
  have hshown := shown_runCommand hc rfl (fun n => (henv n).now_le) s
  obtain ⟨hsnapshot, hchild, -, hdirty⟩ :=
    exec_runCommand_saving ⟨ascii "BGSAVE", handleBgsave, 1, 1, false⟩ args env s
  obtain ⟨hsnapshot', hchild', hdirty'⟩ := @exec_handleBgsave_saving env s args
  rw [(executeFrame_of_some hc).1] at hshown ⊢
  have hzero : (exec env (runCommand ⟨ascii "BGSAVE", handleBgsave, 1, 1, false⟩ args)
      s).2.server.dirtyKeys = 0 → s.server.dirtyKeys = 0 := fun hz =>
    hdirty'.symm.trans (hdirty.symm.trans hz)
  constructor
  · intro hz
    rw [hsnapshot.trans hsnapshot']
    exact (h.intact (hzero hz)).congr hshown
  · intro hz copy hcopy k
    rw [hshown k]
    rcases hchild' with hsame | hforked
    · exact h.copy (hzero hz) copy (hsame.symm.trans (hchild.symm.trans hcopy)) k
    · have heq := Option.some.inj (hforked.symm.trans (hchild.symm.trans hcopy))
      rw [← (BgsaveChild.mk.inj heq).1]

theorem covered_request (henv : ∀ n, (env n).Admitted T)
    (hsave : frameName frame = some (ascii "SAVE") → ∀ copy, s.child ≠ some ⟨copy, false⟩)
    (hcount : Counts frame → s.server.dirtyKeys + 1 ≠ 0) (h : Covered T s) :
    Covered T (s.exec env (executeFrame frame)).2 := by
  have hnow : ∀ n, (env n).nowMs ≤ T := fun n => (henv n).now_le
  cases hc : frameCommand frame with
  | none =>
      obtain ⟨hsame, hdb⟩ := exec_executeFrame_of_none hc env s
      exact h.of_same hsame (fun k => by rw [hdb])
  | some c =>
      obtain ⟨entry, args⟩ := c
      obtain ⟨heq, he, ha, -⟩ := executeFrame_of_some hc
      by_cases hs : entry.name = ascii "SAVE"
      · apply covered_save hc hs henv
        apply hsave
        rw [frameName, hc, Option.map_some, hs]
      by_cases hb : entry.name = ascii "BGSAVE"
      · exact covered_bgsave hc hb henv h
      obtain ⟨hsnapshot, hchild, -, hdirty⟩ := exec_runCommand_saving entry args env s
      have hhandler := sameSaving_exec (uses_handler he ha) (savingKinds_of_ne he hs hb) env s
      cases hwrite : entry.write with
      | true =>
          apply covered_of_dirty
          rw [heq, hdirty, hwrite, if_pos rfl, hhandler.dirtyKeys]
          exact hcount ⟨entry, args, hc, hwrite⟩
      | false =>
          have hshown := shown_runCommand hc hwrite hnow s
          rw [heq] at hshown ⊢
          rw [hwrite, if_neg Bool.false_ne_true] at hdirty
          exact h.of_same ⟨hsnapshot.trans hhandler.snapshot, hchild.trans hhandler.child,
            hdirty.trans hhandler.dirtyKeys⟩ hshown

theorem covered_finishChild {clock : ℕ → MillisecondTimestamp} (hclock : StillBy T clock)
    (h : Covered T s) : Covered T (s.finishChild clock) := by
  cases hchild : s.child with
  | none =>
      have hsame : s.finishChild clock = s := by rw [finishChild, hchild]
      rwa [hsame]
  | some child =>
      obtain ⟨copy, finished⟩ := child
      cases finished with
      | true =>
          have hsame : s.finishChild clock = s := by rw [finishChild, hchild]
          rwa [hsame]
      | false =>
          have hdone : s.finishChild clock = { s with
              snapshot := some (copy.saveRecords clock).1, child := some ⟨copy, true⟩ } := by
            rw [finishChild, hchild]
          rw [hdone]
          constructor
          · intro hzero
            apply (fileHolds_saveRecords hclock copy).congr
            intro k
            exact (h.copy hzero copy hchild k).symm
          · intro _ copy' hcopy
            cases hcopy

/-- The only step that can go wrong. -/
theorem covered_onBgsaveChildExit (hexit : ∀ copy, s.child = some ⟨copy, true⟩ →
    FileHolds T s.snapshot s.db.content) (h : Covered T s) (time : Int64) :
    Covered T (s.onBgsaveChildExit time) := by
  cases hchild : s.child with
  | none =>
      have hsame : s.onBgsaveChildExit time = s := by rw [onBgsaveChildExit, hchild]
      rwa [hsame]
  | some child =>
      obtain ⟨copy, finished⟩ := child
      cases finished with
      | false =>
          have hsame : s.onBgsaveChildExit time = s := by rw [onBgsaveChildExit, hchild]
          rwa [hsame]
      | true =>
          unfold onBgsaveChildExit
          rw [hchild]
          constructor
          · intro _
            exact hexit copy hchild
          · intro _ copy' hcopy
            cases hcopy

theorem covered_handle {e : ServerEvent} (ha : Admitted T s e) (hcount : CountsOn s e)
    (hexit : ExitsClean T s e) (h : Covered T s) : Covered T (s.handle e) := by
  cases e with
  | request env frame => exact covered_request ha.1 ha.2 hcount h
  | cron now draw₁ draw₂ draw₃ =>
      have hreaped := s.reaped_serverCron now draw₁ draw₂ draw₃
      exact h.of_same ⟨rfl, rfl, rfl⟩ (fun k => hreaped.shown_eq ha k)
  | rehash =>
      have hsame : SameSaving s (s.handle .rehash) := ⟨rfl, rfl, rfl⟩
      apply h.of_same hsame
      intro k
      change s.db.rehashStep.content.shown T k = _
      rw [KevaDatabase.content_rehashStep]
  | childFinishes clock => exact covered_finishChild ha h
  | childExit time => exact covered_onBgsaveChildExit hexit h time

theorem shown_handle {e : ServerEvent} (ha : Admitted T s e) (hquiet : ¬ e.Writes) (k : Bytes) :
    (s.handle e).db.content.shown T k = s.db.content.shown T k := by
  cases e with
  | request env frame => exact shown_of_not_counts hquiet (fun n => (ha.1 n).now_le) s k
  | cron now draw₁ draw₂ draw₃ =>
      have hreaped := s.reaped_serverCron now draw₁ draw₂ draw₃
      exact hreaped.shown_eq ha k
  | rehash =>
      change s.db.rehashStep.content.shown T k = _
      rw [KevaDatabase.content_rehashStep]
  | childFinishes clock =>
      change (s.finishChild clock).db.content.shown T k = _
      rw [Session.finishChild_db]
  | childExit time =>
      change (s.onBgsaveChildExit time).db.content.shown T k = _
      rw [Session.onBgsaveChildExit_db]

theorem shown_handleAll {events : List ServerEvent}
    (ha : Run.Along Session.handle (Admitted T) s events)
    (hquiet : ∀ e ∈ events, ¬ e.Writes) (k : Bytes) :
    (s.handleAll events).db.content.shown T k = s.db.content.shown T k := by
  induction events generalizing s with
  | nil => rfl
  | cons e events ih =>
      have hfirst := shown_handle ha.1 (hquiet e List.mem_cons_self) k
      have hrest := ih ha.2 (fun e' he' => hquiet e' (List.mem_cons_of_mem e he'))
      exact hrest.trans hfirst

theorem handle_config (s : Session) (e : ServerEvent) :
    (s.handle e).server.config = s.server.config := by
  cases e with
  | request env frame =>
      obtain ⟨kinds, keys, huses, -⟩ := uses_executeFrame frame
      have hcalls : (executeFrame frame).Calls (Call.Within kinds keys) := huses
      refine Program.run_invariant
        (I := fun s' : Session => s'.server.config = s.server.config) (fun s' op hop hs' => ?_)
        hcalls rfl
      rw [← hs']
      cases op with
      | rdbSaveSync =>
          change (s'.rdbSaveSync (env s'.calls)).2.server.config = _
          unfold Session.rdbSaveSync
          cases (env s'.calls).save <;> rfl
      | rdbSaveBackground =>
          change (s'.rdbSaveBackground (env s'.calls)).2.server.config = _
          unfold Session.rdbSaveBackground
          cases (env s'.calls).fork <;> rfl
      | _ => rfl
  | cron now draw₁ draw₂ draw₃ => rfl
  | rehash => rfl
  | childFinishes clock =>
      change (s.finishChild clock).server.config = _
      unfold finishChild
      split <;> rfl
  | childExit time =>
      change (s.onBgsaveChildExit time).server.config = _
      unfold onBgsaveChildExit
      split <;> rfl

theorem handleAll_config (s : Session) (events : List ServerEvent) :
    (s.handleAll events).server.config = s.server.config := by
  induction events generalizing s with
  | nil => rfl
  | cons e events ih => exact (ih (s.handle e)).trans (handle_config s e)

theorem fileHolds_shutdown {w : World} (hw : w.Admitted T)
    (hrdb : s.server.config.rdbEnabled = true) (h : Intact T s) :
    FileHolds T (s.shutdown w).snapshot s.db.content ∧ (s.shutdown w).child = s.child := by
  unfold shutdown
  split_ifs with hdirty
  · unfold Session.rdbSaveSync
    rw [hw.save_ok]
    exact ⟨fileHolds_saveRecords hw.clock s.db, rfl⟩
  · have hzero : s.server.dirtyKeys = 0 := by
      have hle : ¬ 0 < s.server.dirtyKeys := fun hpos => hdirty ⟨hrdb, hpos⟩
      rw [UInt64.lt_iff_toNat_lt] at hle
      apply UInt64.toNat_inj.mp
      have hzero : (0 : UInt64).toNat = 0 := rfl
      omega
    exact ⟨h hzero, rfl⟩

theorem fileHolds_finishChild {clock : ℕ → MillisecondTimestamp} (hclock : StillBy T clock)
    {K : Keyspace} (h : FileHolds T s.snapshot K)
    (hcopy : ∀ copy, s.child = some ⟨copy, false⟩ →
      ∀ k, copy.content.shown T k = K.shown T k) :
    FileHolds T (s.finishChild clock).snapshot K := by
  unfold finishChild
  split
  · rename_i copy hchild
    apply (fileHolds_saveRecords hclock copy).congr
    intro k
    exact (hcopy copy hchild k).symm
  · exact h

/-- The server right after it has started: the file is what the keyspace was loaded from. -/
structure AtStartup (T : MillisecondTimestamp) (s : Session) : Prop where
  rdbEnabled : s.server.config.rdbEnabled = true
  dirtyKeys : s.server.dirtyKeys = 0
  child : s.child = none
  file : FileHolds T s.snapshot s.db.content

theorem AtStartup.covered (h : AtStartup T s) : Covered T s := by
  refine ⟨fun _ => h.file, fun _ copy hcopy => ?_⟩
  rw [h.child] at hcopy
  cases hcopy

theorem covered_handleAll {events : List ServerEvent} (h : Covered T s)
    (ha : Run.Along Session.handle (fun s e => Admitted T s e ∧ CountsOn s e) s events)
    (hexit : Run.Along Session.handle (ExitsClean T) s events) :
    Covered T (s.handleAll events) :=
  Run.foldl_invariant (fun _ _ hc hs => covered_handle hc.1.1 hc.1.2 hc.2 hs)
    (Run.along_and.mpr ⟨ha, hexit⟩) h

/-- An exit that is processed while the file is out of date leaves the counter at zero. -/
theorem exitsClean_of_intact {events : List ServerEvent}
    (h : ∀ pre post, events = pre ++ post → Intact T (s.handleAll pre)) :
    Run.Along Session.handle (ExitsClean T) s events := by
  induction events generalizing s with
  | nil => trivial
  | cons e events ih =>
      constructor
      · cases e with
        | childExit time =>
            intro copy hchild
            have hintact := h [.childExit time] events rfl
            have hexit : s.handleAll [.childExit time] = { s with
                child := none
                server := { s.server with
                  bgsaveChildPid := -1, lastSaveTime := time, dirtyKeys := 0 } } := by
              change s.onBgsaveChildExit time = _
              unfold onBgsaveChildExit
              rw [hchild]
            rw [hexit] at hintact
            exact hintact rfl
        | _ => trivial
      · apply ih
        rintro pre post rfl
        exact h (e :: pre) post rfl

/-- In every run, the file is up to date whenever nothing is counted if and only if it is whenever
the exit of a child is processed; and then no write is lost at the end of the server. -/
theorem writes_survive_iff {events : List ServerEvent} (hstart : AtStartup T s)
    (ha : Run.Along Session.handle (fun s e => Admitted T s e ∧ CountsOn s e) s events) :
    ((∀ pre post, events = pre ++ post → Intact T (s.handleAll pre)) ↔
      Run.Along Session.handle (ExitsClean T) s events) ∧
    (Run.Along Session.handle (ExitsClean T) s events →
      ∀ pre post, events = pre ++ post → (∀ e ∈ post, ¬ e.Writes) → ∀ w, World.Admitted T w →
        FileHolds T ((s.handleAll events).shutdown w).snapshot (s.handleAll pre).db.content ∧
          ∀ clock, StillBy T clock →
            (∀ copy, (s.handleAll events).child = some ⟨copy, false⟩ → ∀ k,
              copy.content.shown T k = (s.handleAll events).db.content.shown T k) →
            FileHolds T (((s.handleAll events).shutdown w).finishChild clock).snapshot
              (s.handleAll pre).db.content) := by
  refine ⟨⟨exitsClean_of_intact, ?_⟩, ?_⟩
  · rintro hexit pre post rfl
    rw [Run.along_append] at ha hexit
    exact (covered_handleAll hstart.covered ha.1 hexit.1).intact
  · rintro hexit pre post rfl hquiet w hw
    have hintact := (covered_handleAll hstart.covered ha hexit).intact
    have hrdb : (s.handleAll (pre ++ post)).server.config.rdbEnabled = true := by
      rw [handleAll_config]
      exact hstart.rdbEnabled
    obtain ⟨hfile, hchild⟩ := fileHolds_shutdown hw hrdb hintact
    have hpost := (Run.along_append.mp (Run.along_and.mp ha).1).2
    have hshown : ∀ k, (s.handleAll (pre ++ post)).db.content.shown T k =
        (s.handleAll pre).db.content.shown T k := by
      intro k
      rw [Session.handleAll, List.foldl_append]
      exact shown_handleAll hpost hquiet k
    refine ⟨hfile.congr fun k => (hshown k).symm, fun clock hclock hcopy => ?_⟩
    apply FileHolds.congr _ fun k => (hshown k).symm
    apply fileHolds_finishChild hclock hfile
    rwa [hchild]

theorem admitted_still : (World.still 10 0).Admitted 10 where
  now_le := by decide
  save_ok := rfl
  clock := ⟨fun _ => rfl, by decide, by decide⟩

theorem atStartup_freshSession : AtStartup 10 freshSession where
  rdbEnabled := rfl
  dirtyKeys := rfl
  child := rfl
  file := by
    intro r
    have hnone : freshSession.db.content.shown 10 r.key = none := by
      apply Keyspace.shown_of_none
      change (KevaDatabase.empty _ _).content.objects r.key = none
      rw [KevaDatabase.content_empty]
      rfl
    rw [hnone]
    constructor
    · rintro ⟨hr, -⟩
      cases hr
    · rintro ⟨⟩

/-- A key is set, a child writes it out, and its exit is processed: the server ends with nothing to
save, and the file holds the key. -/
theorem writes_survive_bgsave :
    let env := fun _ : ℕ => World.still 10 0
    let events := [.request env (commandFrame [ascii "SET", ascii "a", ascii "1"]),
      .request env (commandFrame [ascii "BGSAVE"]), .childFinishes fun _ => 10, .childExit 0]
    (freshSession.handleAll events).server.dirtyKeys = 0 ∧
      FileHolds 10 ((freshSession.handleAll events).shutdown (World.still 10 0)).snapshot
        (freshSession.handleAll events).db.content := by
  intro env events
  have hrun : Run.Along Session.handle (fun s e => Admitted 10 s e ∧ CountsOn s e) freshSession
      events :=
    ⟨⟨⟨fun _ => admitted_still, fun h => absurd h (by decide)⟩, fun _ => by decide⟩,
      ⟨⟨fun _ => admitted_still, fun h => absurd h (by decide)⟩, fun _ => by decide +kernel⟩,
      ⟨⟨fun _ => rfl, by decide, by decide⟩, fun h => h.elim⟩, ⟨trivial, fun h => h.elim⟩, trivial⟩
  -- the file is the copy that the child was given, which is still what the keyspace is
  have hclean : Run.Along Session.handle (ExitsClean 10) freshSession events := by
    refine ⟨trivial, trivial, trivial, fun _ _ => ?_, trivial⟩
    have hclock : StillBy 10 fun _ => 10 := ⟨fun _ => rfl, by decide, by decide⟩
    exact fileHolds_saveRecords hclock
      (freshSession.handleAll [.request env (commandFrame [ascii "SET", ascii "a", ascii "1"])]).db
  exact ⟨by decide +kernel, ((writes_survive_iff atStartup_freshSession hrun).2 hclean events []
    (List.append_nil _).symm (by simp) _ admitted_still).1⟩

/-- The second key is set while the child is running. Its exit resets the counter, the server saves
nothing at its end, and the file never gets the key. -/
theorem bgsave_loses_write :
    let env := fun _ : ℕ => World.still 10 0
    let events := [.request env (commandFrame [ascii "SET", ascii "a", ascii "1"]),
      .request env (commandFrame [ascii "BGSAVE"]),
      .request env (commandFrame [ascii "SET", ascii "b", ascii "2"]),
      .childFinishes fun _ => 10, .childExit 0]
    AtStartup 10 freshSession ∧
      Run.Along Session.handle (fun s e => Admitted 10 s e ∧ CountsOn s e) freshSession events ∧
      (freshSession.handleAll events).server.dirtyKeys = 0 ∧
      ¬ FileHolds 10 ((freshSession.handleAll events).shutdown (World.still 10 0)).snapshot
        (freshSession.handleAll events).db.content := by
  intro env events
  refine ⟨atStartup_freshSession, ?_, by decide +kernel, fun h => ?_⟩
  · exact ⟨⟨⟨fun _ => admitted_still, fun h => absurd h (by decide)⟩, fun _ => by decide⟩,
      ⟨⟨fun _ => admitted_still, fun h => absurd h (by decide)⟩, fun _ => by decide +kernel⟩,
      ⟨⟨fun _ => admitted_still, fun h => absurd h (by decide)⟩, fun _ => by decide +kernel⟩,
      ⟨⟨fun _ => rfl, by decide, by decide⟩, fun h => h.elim⟩,
      ⟨trivial, fun h => h.elim⟩, trivial⟩
  · have hshown := (h ⟨ascii "b", ascii "2", none⟩).mpr (by decide +kernel)
    exact absurd hshown.1 (by decide +kernel)

end Keva
