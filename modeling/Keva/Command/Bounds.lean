import Keva.Command.Dispatch

/-!
# No handler reads past the end

`InBounds` says that a handler makes no read past the end of the elements, whatever the database,
the clocks and the files answer. The table demands as many elements as each handler reads without
asking; what it reads beyond them it guards itself, as the option loop of SET and the rounds of MSET
do.
-/

namespace Keva

open Session

namespace Handler

variable {α : Type}

def InBounds (p : Handler α) : Prop := p.Calls (· ≠ .outOfBounds)

theorem inBounds_of_uses {kinds : List CallKind} {keys : List Bytes} {p : Handler α}
    (h : Uses kinds keys p) (hkinds : .bounds ∉ kinds) : p.InBounds := by
  apply Program.Calls.mono h
  rintro op hop rfl
  exact hkinds hop.kind_mem

theorem InBounds.outOfBounds_exec {p : Handler α} (h : p.InBounds) (env : ℕ → World) (s : Session) :
    (s.exec env p).2.outOfBounds = s.outOfBounds := by
  have hcalls : p.Calls (· ≠ .outOfBounds) := h
  refine Program.run_invariant (I := fun s' : Session => s'.outOfBounds = s.outOfBounds)
    (fun s' op hop hs' => ?_) hcalls rfl
  cases op with
  | outOfBounds => exact absurd rfl hop
  | rdbSaveSync =>
      change (s'.rdbSaveSync (env s'.calls)).2.outOfBounds = _
      unfold Session.rdbSaveSync
      cases (env s'.calls).save <;> exact hs'
  | rdbSaveBackground =>
      change (s'.rdbSaveBackground (env s'.calls)).2.outOfBounds = _
      unfold Session.rdbSaveBackground
      cases (env s'.calls).fork <;> exact hs'
  | _ => exact hs'

end Handler

open Handler

theorem bounds_notMem_footprint {entry : CommandEntry} (he : entry ∈ commandTable) :
    .bounds ∉ (footprint entry.name).kinds := by
  have hall : ∀ e ∈ commandTable, .bounds ∉ (footprint e.name).kinds := by decide
  exact hall entry he

theorem inBounds_handler {entry : CommandEntry} (he : entry ∈ commandTable) {args : List RespValue}
    (hmin : entry.arityMin ≤ args.length) : (entry.handler args).InBounds :=
  inBounds_of_uses (uses_handler_of_le he hmin) (bounds_notMem_footprint he)

/-- Every handler of the table keeps within the elements, for every number of them that the arity
of its command admits, be it counted as it is or cast to `int`. -/
theorem handler_inBounds_of_arity {entry : CommandEntry} (he : entry ∈ commandTable)
    {args : List RespValue}
    (ha : entry.admits args = true ∨
      entry.arityMin ≤ args.length ∧ (entry.arityMax = -1 ∨ args.length ≤ entry.arityMax)) :
    (entry.handler args).InBounds ∧
      ∀ env s, (exec env (entry.handler args) s).2.outOfBounds = s.outOfBounds := by
  have hmin : entry.arityMin ≤ args.length := by
    rcases ha with ha | ⟨hmin, -⟩
    · exact CommandEntry.le_length_of_admits ha
    · exact hmin
  have hbounds := inBounds_handler he hmin
  exact ⟨hbounds, hbounds.outOfBounds_exec⟩

/-- MSET with a key that lacks its value. -/
theorem handler_inBounds_of_arity_mset :
    (handleMset [.bulkString (ascii "MSET"), .bulkString (ascii "k"), .bulkString (ascii "v"),
      .bulkString (ascii "k")]).InBounds := by
  have hmem : (⟨ascii "MSET", handleMset, 3, -1, true⟩ : CommandEntry) ∈ commandTable :=
    .tail _ (.tail _ (.tail _ (.head _)))
  have h := @handler_inBounds_of_arity _ hmem [.bulkString (ascii "MSET"), .bulkString (ascii "k"),
    .bulkString (ascii "v"), .bulkString (ascii "k")] (.inr ⟨by decide, .inl rfl⟩)
  exact h.1

theorem inBounds_executeFrame (frame : RespValue) : (executeFrame frame).InBounds := by
  cases h : frameCommand frame with
  | none => exact inBounds_of_uses (executeFrame_of_none h) (by decide)
  | some c =>
      obtain ⟨heq, he, ha, -⟩ := executeFrame_of_some h
      rw [heq]
      apply inBounds_of_uses (uses_runCommand he ha)
      rw [List.mem_cons, not_or]
      exact ⟨by decide, bounds_notMem_footprint he⟩

/-- Whatever the client sends, no command reads past the end of its elements. -/
theorem outOfBounds_dispatch {env : ℕ → World} {c c' : Connection} {s s' : Session}
    (h : (dispatch env c s).2 = some (c', s')) : s'.outOfBounds = s.outOfBounds := by
  have hloop : ∀ fuel c s, (dispatchLoop env fuel c s).2 = some (c', s') →
      s'.outOfBounds = s.outOfBounds := by
    intro fuel
    induction fuel with
    | zero =>
        intro c s h
        cases h
        rfl
    | succ fuel ih =>
        intro c s h
        rw [dispatchLoop] at h
        split_ifs at h
        · cases h
          rfl
        · cases hparse : RespParser.parse c.readView with
          | incomplete =>
              rw [hparse] at h
              cases h
              rfl
          | error e =>
              rw [hparse] at h
              cases e with
              | protocolError =>
                  cases h
                  rfl
              | lengthError => cases h
          | complete frame rest =>
              rw [hparse] at h
              rw [ih _ _ h]
              exact (inBounds_executeFrame frame).outOfBounds_exec env _
  exact hloop _ c s h

end Keva
