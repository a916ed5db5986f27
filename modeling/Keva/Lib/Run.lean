import Mathlib.Logic.Basic
import Mathlib.Data.List.Basic

/-!
# Runs of a machine that answers operations

`run step s ops` feeds the operations `ops` to a machine in state `s`. A specification is a second,
abstract state with an effect for each operation and a relation that says which replies are allowed.
`run_refines` compares the two: a simulation of single steps gives a simulation of whole runs.
`Along` is for runs whose steps are restricted, each by the state that it is taken in.
-/

namespace Run

variable {S A O R : Type*}

/-- The replies to a sequence of operations, and the state it ends in. -/
def run (step : S → O → R × S) : S → List O → List R × S
  | s, [] => ([], s)
  | s, o :: ops =>
      let rest := run step (step s o).2 ops
      ((step s o).1 :: rest.1, rest.2)

@[simp] theorem run_cons (step : S → O → R × S) (s : S) (o : O) (ops : List O) :
    run step s (o :: ops) =
      ((step s o).1 :: (run step (step s o).2 ops).1, (run step (step s o).2 ops).2) := rfl

theorem run_invariant {step : S → O → R × S} {Inv : S → Prop}
    (hstep : ∀ s o, Inv s → Inv (step s o).2) (ops : List O) {s : S} (hs : Inv s) :
    Inv (run step s ops).2 := by
  induction ops generalizing s with
  | nil => exact hs
  | cons o ops ih => exact ih (hstep s o hs)

/-- From `a` on, the specification allows the replies `rs` to the operations `ops`. -/
def Allows (effect : A → O → A) (answers : A → O → R → Prop) : A → List O → List R → Prop
  | _, [], rs => rs = []
  | a, o :: ops, rs =>
      ∃ r rest, rs = r :: rest ∧ answers a o r ∧ Allows effect answers (effect a o) ops rest

/-- A relation kept by every step, under which replies are allowed, is kept by every run. -/
theorem run_refines {step : S → O → R × S} {effect : A → O → A} {answers : A → O → R → Prop}
    {Rel : S → A → Prop}
    (hstep : ∀ s a o, Rel s a → answers a o (step s o).1 ∧ Rel (step s o).2 (effect a o))
    (ops : List O) {s : S} {a : A} (h : Rel s a) :
    Allows effect answers a ops (run step s ops).1 ∧
      Rel (run step s ops).2 (ops.foldl effect a) := by
  induction ops generalizing s a with
  | nil => exact ⟨rfl, h⟩
  | cons o ops ih =>
      obtain ⟨hr, hrel⟩ := hstep s a o h
      obtain ⟨hall, hend⟩ := ih hrel
      exact ⟨⟨_, _, rfl, hr, hall⟩, hend⟩

/-- Every step of the run is allowed in the state before it. -/
def Along (step : S → O → S) (C : S → O → Prop) : S → List O → Prop
  | _, [] => True
  | s, o :: ops => C s o ∧ Along step C (step s o) ops

section

variable {step : S → O → S} {C C' : S → O → Prop}

instance decidableAlong [∀ s o, Decidable (C s o)] : ∀ s ops, Decidable (Along step C s ops)
  | _, [] => isTrue trivial
  | s, o :: ops =>
      have := decidableAlong (step s o) ops
      inferInstanceAs (Decidable (C s o ∧ Along step C (step s o) ops))

theorem along_and {s : S} {ops : List O} :
    Along step (fun s o => C s o ∧ C' s o) s ops ↔ Along step C s ops ∧ Along step C' s ops := by
  induction ops generalizing s with
  | nil => exact ⟨fun h => ⟨h, h⟩, And.left⟩
  | cons o ops ih => rw [Along, ih, Along, Along, and_and_and_comm]

theorem along_append {s : S} {ops ops' : List O} :
    Along step C s (ops ++ ops') ↔
      Along step C s ops ∧ Along step C (ops.foldl step s) ops' := by
  induction ops generalizing s with
  | nil => exact ⟨fun h => ⟨trivial, h⟩, And.right⟩
  | cons o ops ih => rw [List.cons_append, Along, ih, Along, List.foldl_cons, and_assoc]

/-- A run that leaves the restriction does so at a first step. -/
theorem exists_of_not_along {s : S} {ops : List O} (h : ¬ Along step C s ops) :
    ∃ before o after, ops = before ++ o :: after ∧ Along step C s before ∧
      ¬ C (before.foldl step s) o := by
  induction ops generalizing s with
  | nil => exact absurd trivial h
  | cons o ops ih =>
      by_cases ho : C s o
      · obtain ⟨before, o', after, rfl, hbefore, hleft⟩ := ih fun hrest => h ⟨ho, hrest⟩
        exact ⟨o :: before, o', after, rfl, ⟨ho, hbefore⟩, hleft⟩
      · exact ⟨[], o, ops, rfl, trivial, ho⟩

theorem foldl_invariant {Inv : S → Prop} (hstep : ∀ s o, C s o → Inv s → Inv (step s o))
    {ops : List O} {s : S} (h : Along step C s ops) (hs : Inv s) : Inv (ops.foldl step s) := by
  induction ops generalizing s with
  | nil => exact hs
  | cons o ops ih => exact ih h.2 (hstep s o h.1 hs)

end

/-- Every step of the run meets the condition in the state before it, up to the first that fails. -/
def Meets {E : Type*} (step : S → O → Except E S) (C : S → O → Prop) : S → List O → Prop
  | _, [] => True
  | s, o :: ops => C s o ∧ ∀ s', step s o = .ok s' → Meets step C s' ops

section

variable {E : Type*} {step : S → O → Except E S} {C : S → O → Prop}

theorem Meets.of_append {s : S} {ops ops' : List O} (h : Meets step C s (ops ++ ops')) :
    Meets step C s ops := by
  induction ops generalizing s with
  | nil => trivial
  | cons o ops ih => exact ⟨h.1, fun s' hs' => ih (h.2 s' hs')⟩

variable {effect : A → O → A} {Rel : S → A → Prop}

theorem rel_of_foldlM_ok
    (hok : ∀ s a o, Rel s a → C s o → ∃ s', step s o = .ok s' ∧ Rel s' (effect a o))
    (herror : ∀ s a o, Rel s a → ¬ C s o → ∃ e, step s o = .error e) {ops : List O} {s s' : S}
    {a : A} (h : Rel s a) (hrun : ops.foldlM step s = .ok s') : Rel s' (ops.foldl effect a) := by
  induction ops generalizing s a with
  | nil =>
      cases hrun
      exact h
  | cons o ops ih =>
      rw [List.foldlM_cons] at hrun
      by_cases ho : C s o
      · obtain ⟨s₁, hs₁, hrel⟩ := hok s a o h ho
        rw [hs₁] at hrun
        exact ih hrel hrun
      · obtain ⟨e, he⟩ := herror s a o h ho
        rw [he] at hrun
        cases hrun

/-- The runs that meet the condition throughout are those that do not fail. -/
theorem meets_iff_foldlM_ok
    (hok : ∀ s a o, Rel s a → C s o → ∃ s', step s o = .ok s' ∧ Rel s' (effect a o))
    (herror : ∀ s a o, Rel s a → ¬ C s o → ∃ e, step s o = .error e) (ops : List O) {s : S} {a : A}
    (h : Rel s a) : Meets step C s ops ↔ ∃ s', ops.foldlM step s = .ok s' := by
  induction ops generalizing s a with
  | nil => exact ⟨fun _ => ⟨s, rfl⟩, fun _ => trivial⟩
  | cons o ops ih =>
      rw [List.foldlM_cons]
      by_cases ho : C s o
      · obtain ⟨s₁, hs₁, hrel⟩ := hok s a o h ho
        rw [Meets, hs₁]
        refine ⟨fun hmeets => (ih hrel).mp (hmeets.2 s₁ rfl), fun hrun => ⟨ho, ?_⟩⟩
        rintro _ ⟨⟩
        exact (ih hrel).mpr hrun
      · obtain ⟨e, he⟩ := herror s a o h ho
        rw [he]
        exact ⟨fun hmeets => absurd hmeets.1 ho, fun ⟨_, hrun⟩ => (by cases hrun)⟩

end

end Run
