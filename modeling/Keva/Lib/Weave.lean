import Mathlib.Data.List.Forall2
import Mathlib.Order.Basic

/-!
# Two runs that share their visible operations

Two machines are given the same visible operations at the same times. Between them each takes
silent steps on its own account. A relation that survives the silent steps of either side, and under
which both sides answer a visible operation alike, survives the runs and relates the answers.
-/

namespace Weave

variable {τ S S' O R R' : Type*} [Preorder τ]

/-- The visible operations of a run with the replies to them. -/
def transcript (visible : O → Bool) (step : S → O → R × S) : S → List O → List (O × R)
  | _, [] => []
  | s, o :: ops =>
      if visible o then (o, (step s o).1) :: transcript visible step (step s o).2 ops
      else transcript visible step (step s o).2 ops

/-- From the time `t` to the time `u`, two lists with the same visible operations. `At` says when an
operation may take place. -/
inductive Woven (visible : O → Bool) (At : τ → O → Prop) : τ → List O → List O → τ → Prop
  | nil {t u : τ} (h : t ≤ u) : Woven visible At t [] [] u
  | left {t t' u : τ} {o : O} {ops ops' : List O} (ht : t ≤ t') (hat : At t' o)
      (ho : visible o = false) (h : Woven visible At t' ops ops' u) :
      Woven visible At t (o :: ops) ops' u
  | right {t t' u : τ} {o : O} {ops ops' : List O} (ht : t ≤ t') (hat : At t' o)
      (ho : visible o = false) (h : Woven visible At t' ops ops' u) :
      Woven visible At t ops (o :: ops') u
  | both {t t' u : τ} {o : O} {ops ops' : List O} (ht : t ≤ t') (hat : At t' o)
      (ho : visible o = true) (h : Woven visible At t' ops ops' u) :
      Woven visible At t (o :: ops) (o :: ops') u

/-- The operations take place in this order, from the time `t` to the time `u`. -/
inductive Timed (At : τ → O → Prop) : τ → List O → τ → Prop
  | nil {t u : τ} (h : t ≤ u) : Timed At t [] u
  | cons {t t' u : τ} {o : O} {ops : List O} (ht : t ≤ t') (hat : At t' o)
      (h : Timed At t' ops u) : Timed At t (o :: ops) u

section

variable {visible : O → Bool} {At : τ → O → Prop} {step : S → O → R × S} {step' : S' → O → R' × S'}
  {s : S} {s' : S'} {t u : τ} {ops ops' : List O}

theorem transcript_cons_of_visible {o : O} (h : visible o = true) :
    transcript visible step s (o :: ops) =
      (o, (step s o).1) :: transcript visible step (step s o).2 ops := if_pos h

theorem transcript_cons_of_silent {o : O} (h : visible o = false) :
    transcript visible step s (o :: ops) = transcript visible step (step s o).2 ops :=
  if_neg (Bool.eq_false_iff.mp h)

theorem Timed.le (h : Timed At t ops u) : t ≤ u := by
  induction h with
  | nil h => exact h
  | cons ht _ _ ih => exact ht.trans ih

theorem Timed.earlier {t' : τ} (ht : t' ≤ t) (h : Timed At t ops u) : Timed At t' ops u := by
  cases h with
  | nil h => exact .nil (ht.trans h)
  | cons ht' hat h => exact .cons (ht.trans ht') hat h

theorem Timed.append {t' : τ} (h : Timed At t ops t') (h' : Timed At t' ops' u) :
    Timed At t (ops ++ ops') u := by
  induction h with
  | nil ht => exact h'.earlier ht
  | cons ht hat _ ih => exact .cons ht hat (ih h')

theorem Timed.of_forall (h : ∀ o ∈ ops, At t o) : Timed At t ops t := by
  induction ops with
  | nil => exact .nil le_rfl
  | cons o ops ih =>
      exact .cons le_rfl (h o List.mem_cons_self) (ih fun o' ho' => h o' (.tail o ho'))

/-- What the replies to the visible operations have in common. -/
def Answered (Answers : O → R → R' → Prop) : List (O × R) → List (O × R') → Prop :=
  List.Forall₂ fun a b => a.1 = b.1 ∧ Answers a.1 a.2 b.2

theorem Woven.answered {Rel : τ → S → S' → Prop} {Answers : O → R → R' → Prop}
    (hlater : ∀ {t u s s'}, t ≤ u → Rel t s s' → Rel u s s')
    (hleft : ∀ {t s s' o}, At t o → visible o = false → Rel t s s' → Rel t (step s o).2 s')
    (hright : ∀ {t s s' o}, At t o → visible o = false → Rel t s s' → Rel t s (step' s' o).2)
    (hboth : ∀ {t s s' o}, At t o → visible o = true → Rel t s s' →
      Answers o (step s o).1 (step' s' o).1 ∧ Rel t (step s o).2 (step' s' o).2)
    (h : Woven visible At t ops ops' u) (hs : Rel t s s') :
    Answered Answers (transcript visible step s ops) (transcript visible step' s' ops') ∧
      Rel u (ops.foldl (fun s o => (step s o).2) s) (ops'.foldl (fun s o => (step' s o).2) s') := by
  induction h generalizing s s' with
  | nil h => exact ⟨.nil, hlater h hs⟩
  | left ht hat ho _ ih =>
      rw [transcript_cons_of_silent ho, List.foldl_cons]
      exact ih (hleft hat ho (hlater ht hs))
  | right ht hat ho _ ih =>
      rw [transcript_cons_of_silent ho, List.foldl_cons]
      exact ih (hright hat ho (hlater ht hs))
  | both ht hat ho _ ih =>
      rw [transcript_cons_of_visible ho, transcript_cons_of_visible ho, List.foldl_cons,
        List.foldl_cons]
      obtain ⟨hanswer, hrel⟩ := hboth hat ho (hlater ht hs)
      obtain ⟨hanswers, hend⟩ := ih hrel
      exact ⟨.cons ⟨rfl, hanswer⟩ hanswers, hend⟩

end

end Weave
