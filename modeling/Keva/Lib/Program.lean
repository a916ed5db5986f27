import Mathlib.Control.Lawful
import Mathlib.Logic.Basic

/-!
# Programs that call operations

A `Program` is a tree: it returns a value, or calls an operation and continues with the answer.
`run` interprets the calls over a state. What a program may call is a property of the tree
(`Calls`), so a fact about single operations becomes a fact about every program that keeps to
them: `run_invariant` for one run, `run_related` for two runs side by side.
-/

inductive Program (Op : Type) (Res : Op → Type) (α : Type) : Type
  | pure (a : α)
  | call (op : Op) (next : Res op → Program Op Res α)

namespace Program

variable {Op : Type} {Res : Op → Type} {α β S S' : Type}

protected def bind : Program Op Res α → (α → Program Op Res β) → Program Op Res β
  | .pure a, f => f a
  | .call op next, f => .call op (fun r => (next r).bind f)

instance : Monad (Program Op Res) where
  pure := .pure
  bind := .bind

/-- The call of one operation, whose answer is returned. -/
def perform (op : Op) : Program Op Res (Res op) := .call op .pure

@[simp] theorem pure_eq (a : α) : (Pure.pure a : Program Op Res α) = .pure a := rfl

@[simp] theorem pure_bind (a : α) (f : α → Program Op Res β) : (Program.pure a >>= f) = f a := rfl

@[simp] theorem call_bind (op : Op) (next : Res op → Program Op Res α)
    (f : α → Program Op Res β) : (Program.call op next >>= f) = .call op (fun r => next r >>= f) :=
  rfl

@[simp] theorem perform_bind (op : Op) (f : Res op → Program Op Res β) :
    (perform op >>= f) = .call op f := rfl

theorem bind_pure' (p : Program Op Res α) : (p >>= .pure) = p := by
  induction p with
  | pure a => rfl
  | call op next ih => exact congrArg (call op) (funext ih)

theorem bind_assoc' {γ : Type} (p : Program Op Res α) (f : α → Program Op Res β)
    (g : β → Program Op Res γ) : (p >>= f) >>= g = p >>= fun a => f a >>= g := by
  induction p with
  | pure a => rfl
  | call op next ih => exact congrArg (call op) (funext ih)

instance : LawfulMonad (Program Op Res) :=
  LawfulMonad.mk' (Program Op Res) bind_pure' (fun _ _ => rfl) bind_assoc'

def run (step : S → (op : Op) → Res op × S) : Program Op Res α → S → α × S
  | .pure a, s => (a, s)
  | .call op next, s => (next (step s op).1).run step (step s op).2

@[simp] theorem run_pure (step : S → (op : Op) → Res op × S) (a : α) (s : S) :
    (Program.pure a : Program Op Res α).run step s = (a, s) := rfl

@[simp] theorem run_call (step : S → (op : Op) → Res op × S) (op : Op)
    (next : Res op → Program Op Res α) (s : S) :
    (Program.call op next).run step s = (next (step s op).1).run step (step s op).2 := rfl

@[simp] theorem run_bind (step : S → (op : Op) → Res op × S) (p : Program Op Res α)
    (f : α → Program Op Res β) (s : S) :
    (p >>= f).run step s = (f (p.run step s).1).run step (p.run step s).2 := by
  induction p generalizing s with
  | pure a => rfl
  | call op next ih => exact ih _ _

/-- Every call that the program can make satisfies `P`. -/
def Calls (P : Op → Prop) : Program Op Res α → Prop
  | .pure _ => True
  | .call op next => P op ∧ ∀ r, (next r).Calls P

section

variable {P Q : Op → Prop}

@[simp] theorem calls_pure (a : α) : (Program.pure a : Program Op Res α).Calls P := trivial

@[simp] theorem calls_call {op : Op} {next : Res op → Program Op Res α} :
    (Program.call op next).Calls P ↔ P op ∧ ∀ r, (next r).Calls P := Iff.rfl

@[simp] theorem calls_perform {op : Op} : (perform op : Program Op Res (Res op)).Calls P ↔ P op :=
  ⟨And.left, fun h => ⟨h, fun _ => trivial⟩⟩

theorem calls_bind {p : Program Op Res α} {f : α → Program Op Res β} (hp : p.Calls P)
    (hf : ∀ a, (f a).Calls P) : (p >>= f).Calls P := by
  induction p with
  | pure a => exact hf a
  | call op next ih => exact ⟨hp.1, fun r => ih r (hp.2 r)⟩

theorem Calls.mono {p : Program Op Res α} (h : p.Calls P) (hPQ : ∀ op, P op → Q op) :
    p.Calls Q := by
  induction p with
  | pure a => trivial
  | call op next ih => exact ⟨hPQ op h.1, fun r => ih r (h.2 r)⟩

theorem calls_forM {ι : Type} {l : List ι} {f : ι → Program Op Res PUnit}
    (hf : ∀ i ∈ l, (f i).Calls P) : (forM l f).Calls P := by
  induction l with
  | nil => trivial
  | cons i l ih =>
      rw [List.forM_cons]
      exact calls_bind (hf i List.mem_cons_self)
        (fun _ => ih (fun j hj => hf j (List.mem_cons_of_mem _ hj)))

theorem calls_foldlM {ι : Type} {l : List ι} {f : α → ι → Program Op Res α}
    (hf : ∀ a, ∀ i ∈ l, (f a i).Calls P) (a : α) : (l.foldlM f a).Calls P := by
  induction l generalizing a with
  | nil => trivial
  | cons i l ih =>
      rw [List.foldlM_cons]
      exact calls_bind (hf a i List.mem_cons_self)
        (fun b => ih (fun c j hj => hf c j (List.mem_cons_of_mem _ hj)) b)

theorem calls_true (p : Program Op Res α) : p.Calls fun _ => True := by
  induction p with
  | pure a => trivial
  | call op next ih => exact ⟨trivial, ih⟩

/-- What every allowed call preserves, the run preserves. -/
theorem run_invariant {step : S → (op : Op) → Res op × S} {I : S → Prop}
    (hstep : ∀ s op, P op → I s → I (step s op).2) {p : Program Op Res α} (hp : p.Calls P) {s : S}
    (hs : I s) : I (p.run step s).2 := by
  induction p generalizing s with
  | pure a => exact hs
  | call op next ih => exact ih _ (hp.2 _) (hstep s op hp.1 hs)

/-- Two interpretations that answer every allowed call alike from related states, and stay
related, give the same result. -/
theorem run_related {step : S → (op : Op) → Res op × S} {step' : S' → (op : Op) → Res op × S'}
    {R : S → S' → Prop}
    (hstep : ∀ s s' op, P op → R s s' →
      (step s op).1 = (step' s' op).1 ∧ R (step s op).2 (step' s' op).2)
    {p : Program Op Res α} (hp : p.Calls P) {s : S} {s' : S'} (hs : R s s') :
    (p.run step s).1 = (p.run step' s').1 ∧ R (p.run step s).2 (p.run step' s').2 := by
  induction p generalizing s s' with
  | pure a => exact ⟨rfl, hs⟩
  | call op next ih =>
      obtain ⟨hr, hrel⟩ := hstep s s' op hp.1 hs
      have := ih (step s op).1 (hp.2 _) hrel
      rwa [run_call, run_call, ← hr]

end

/-- A run from a state in `I` ends with a result and a state in `J`. -/
def Triple (step : S → (op : Op) → Res op × S) (I : S → Prop) (p : Program Op Res α)
    (J : α → S → Prop) : Prop := ∀ s, I s → J (p.run step s).1 (p.run step s).2

section

variable {step : S → (op : Op) → Res op × S} {I I' : S → Prop} {J J' : α → S → Prop}
  {p : Program Op Res α}

theorem triple_pure {a : α} (h : ∀ s, I s → J a s) : Triple step I (.pure a) J := h

theorem triple_bind {f : α → Program Op Res β} {L : β → S → Prop} (hp : Triple step I p J)
    (hf : ∀ a, Triple step (J a) (f a) L) : Triple step I (p >>= f) L := by
  intro s hs
  rw [run_bind]
  exact hf _ _ (hp s hs)

theorem Triple.mono (h : Triple step I p J) (hI : ∀ s, I' s → I s) (hJ : ∀ a s, J a s → J' a s) :
    Triple step I' p J' := fun s hs => hJ _ _ (h s (hI s hs))

theorem triple_of_calls {P : Op → Prop} (hstep : ∀ s op, P op → I s → I (step s op).2)
    (hp : p.Calls P) : Triple step I p (fun _ => I) := fun _ hs => run_invariant hstep hp hs

end

end Program
