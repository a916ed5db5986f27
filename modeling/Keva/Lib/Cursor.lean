import Keva.Lib.Framing

/-!
# Parsers with a cursor

A `Parser` gives back the rest of its input. Code usually keeps the whole input and a cursor that
it moves forward, and may note something on its way. `Simulates` says that such code ends as a
parser does on the input behind the cursor, with the cursor inside the input, and notes what `L`
holds of. The rules follow the structure of the code.
-/

namespace Framing

variable {σ δ ε β α γ ρ : Type}

/-- A fixed input, where a state of the code points into it, and what has been noted. -/
structure CursorView (σ β ρ : Type) where
  input : List β
  pos : σ → ℕ
  notes : σ → List ρ

namespace CursorView

variable (V : CursorView σ β ρ)

/-- The state points into the input, at `s`. -/
structure At (c : σ) (s : List β) : Prop where
  pos_le : V.pos c ≤ V.input.length
  drop_eq : V.input.drop (V.pos c) = s

variable {V} {c c' : σ} {s rest : List β}

theorem At.length_eq (h : V.At c s) : s.length = V.input.length - V.pos c := by
  rw [← h.drop_eq, List.length_drop]

theorem At.length_le (h : V.At c s) (h' : V.At c' rest) (hle : V.pos c ≤ V.pos c') :
    rest.length ≤ s.length := by
  rw [h.length_eq, h'.length_eq]
  omega

theorem At.move {u : List β} (h : V.At c (u ++ rest)) (hpos : V.pos c' = V.pos c + u.length) :
    V.At c' rest := by
  have hlength := h.length_eq
  have hle := h.pos_le
  rw [List.length_append] at hlength
  refine ⟨by omega, ?_⟩
  rw [hpos, ← List.drop_drop, h.drop_eq, List.drop_left]

end CursorView

/-- The code has ended as the verdict says, with the cursor inside the input. -/
inductive Follows (V : CursorView σ β ρ) (stop : Option ε → δ) (c : σ) :
    Verdict ε β α → Except δ α × σ → Prop
  | complete {a : α} {rest : List β} {c' : σ} (hat : V.At c' rest) (hle : V.pos c ≤ V.pos c') :
      Follows V stop c (.complete a rest) (.ok a, c')
  | incomplete {c' : σ} (hle : V.pos c' ≤ V.input.length) :
      Follows V stop c .incomplete (.error (stop none), c')
  | error {e : ε} {c' : σ} (hle : V.pos c' ≤ V.input.length) :
      Follows V stop c (.error e) (.error (stop (some e)), c')

structure Simulates (V : CursorView σ β ρ) (stop : Option ε → δ) (c : σ)
    (m : ExceptT δ (StateM σ) α) (v : Verdict ε β α) (L : ρ → Prop) : Prop where
  follows : Follows V stop c v (m c)
  notes : ∀ r, r ∈ V.notes (m c).2 ↔ r ∈ V.notes c ∨ L r

/-- Nothing is noted. -/
def Nothing (_ : ρ) : Prop := False

namespace Simulates

variable {V : CursorView σ β ρ} {stop : Option ε → δ} {c : σ} {s : List β}

theorem bind_ok {m : ExceptT δ (StateM σ) α} {f : α → ExceptT δ (StateM σ) γ} {c' : σ} {a : α}
    (h : m c = (.ok a, c')) : (m >>= f) c = f a c' := by
  change (ExceptT.bindCont f (m c).1) (m c).2 = _
  rw [h]
  rfl

theorem bind_error {m : ExceptT δ (StateM σ) α} {f : α → ExceptT δ (StateM σ) γ} {c' : σ} {d : δ}
    (h : m c = (.error d, c')) : (m >>= f) c = (.error d, c') := by
  change (ExceptT.bindCont f (m c).1) (m c).2 = _
  rw [h]
  rfl

theorem congr {m : ExceptT δ (StateM σ) α} {v : Verdict ε β α} {L L' : ρ → Prop}
    (h : Simulates V stop c m v L) (hL : ∀ r, L r ↔ L' r) : Simulates V stop c m v L' :=
  ⟨h.follows, fun r => by rw [h.notes, hL]⟩

theorem pure (hat : V.At c s) (a : α) :
    Simulates V stop c (Pure.pure a) ((Pure.pure a : Parser ε β α) s) Nothing :=
  ⟨.complete hat le_rfl, fun _ => (or_iff_left id).symm⟩

theorem throw_incomplete (hle : V.pos c ≤ V.input.length) :
    Simulates V stop c (throw (stop none)) (.incomplete : Verdict ε β α) Nothing :=
  ⟨.incomplete hle, fun _ => (or_iff_left id).symm⟩

theorem throw_error (hle : V.pos c ≤ V.input.length) (e : ε) :
    Simulates V stop c (throw (stop (some e))) (.error e : Verdict ε β α) Nothing :=
  ⟨.error hle, fun _ => (or_iff_left id).symm⟩

theorem of_note {m k : ExceptT δ (StateM σ) α} {c' : σ} {v : Verdict ε β α} {N L : ρ → Prop}
    (hstep : m c = k c') (hle : V.pos c ≤ V.pos c')
    (hnotes : ∀ r, r ∈ V.notes c' ↔ r ∈ V.notes c ∨ N r) (h : Simulates V stop c' k v L) :
    Simulates V stop c m v (fun r => N r ∨ L r) := by
  obtain ⟨hfollows, hlog⟩ := h
  refine ⟨?_, fun r => by rw [hstep, hlog, hnotes, or_assoc]⟩
  rw [hstep]
  generalize k c' = result at hfollows
  cases hfollows with
  | complete hat' hle' => exact .complete hat' (hle.trans hle')
  | incomplete hle' => exact .incomplete hle'
  | error hle' => exact .error hle'

theorem of_step {m k : ExceptT δ (StateM σ) α} {c' : σ} {v : Verdict ε β α} {L : ρ → Prop}
    (hstep : m c = k c') (hle : V.pos c ≤ V.pos c') (hnotes : V.notes c' = V.notes c)
    (h : Simulates V stop c' k v L) : Simulates V stop c m v L :=
  (of_note hstep hle (fun r => by rw [hnotes]; exact (or_iff_left id).symm) h).congr
    fun _ => or_iff_right id

theorem bind {m : ExceptT δ (StateM σ) α} {f : α → ExceptT δ (StateM σ) γ} {p : Parser ε β α}
    {g : α → Parser ε β γ} {L : ρ → Prop} {M : α → List β → ρ → Prop}
    (hm : Simulates V stop c m (p s) L)
    (hf : ∀ a rest c', p s = .complete a rest → V.At c' rest → V.pos c ≤ V.pos c' →
      Simulates V stop c' (f a) (g a rest) (M a rest)) :
    Simulates V stop c (m >>= f) ((p >>= g) s)
      (fun r => L r ∨ ∃ a rest, p s = .complete a rest ∧ M a rest r) := by
  obtain ⟨hfollows, hnotes⟩ := hm
  cases hp : p s with
  | complete a rest =>
      rw [hp] at hfollows
      generalize hmc : m c = result at hfollows hnotes
      cases hfollows with
      | @complete _ _ c' hat hle =>
          obtain ⟨hfollows', hnotes'⟩ := hf a rest c' hp hat hle
          rw [Parser.bind_of_complete hp]
          refine ⟨?_, fun r => ?_⟩
          · rw [bind_ok hmc]
            generalize f a c' = last, g a rest = verdict at hfollows' ⊢
            cases hfollows' with
            | complete hat' hle' => exact .complete hat' (hle.trans hle')
            | incomplete hle' => exact .incomplete hle'
            | error hle' => exact .error hle'
          · rw [bind_ok hmc, hnotes', hnotes, or_assoc]
            refine or_congr_right (or_congr_right ⟨fun h => ⟨a, rest, rfl, h⟩, ?_⟩)
            rintro ⟨a', rest', heq, h⟩
            cases heq
            exact h
  | incomplete =>
      rw [hp] at hfollows
      generalize hmc : m c = result at hfollows hnotes
      cases hfollows with
      | incomplete hle =>
          rw [Parser.bind_of_incomplete hp]
          refine ⟨?_, fun r => ?_⟩
          · rw [bind_error hmc]
            exact .incomplete hle
          · rw [bind_error hmc, hnotes]
            simp
  | error e =>
      rw [hp] at hfollows
      generalize hmc : m c = result at hfollows hnotes
      cases hfollows with
      | error hle =>
          rw [Parser.bind_of_error hp]
          refine ⟨?_, fun r => ?_⟩
          · rw [bind_error hmc]
            exact .error hle
          · rw [bind_error hmc, hnotes]
            simp

end Simulates

/-- Runs the code `n` times and collects the values. -/
def collect (m : ExceptT δ (StateM σ) α) : ℕ → ExceptT δ (StateM σ) (List α)
  | 0 => pure []
  | n + 1 => do
      let a ← m
      let as ← collect m n
      pure (a :: as)

/-- What `n` runs note that each note what `L` holds of. -/
def NotedBy (p : Parser ε β α) (L : List β → ρ → Prop) : ℕ → List β → ρ → Prop
  | 0, _, _ => False
  | n + 1, s, r => L s r ∨ ∃ a rest, p s = .complete a rest ∧ NotedBy p L n rest r

theorem exists_of_notedBy {p : Parser ε β α} {L : List β → ρ → Prop} {R : List β → α → Prop}
    (hR : ∀ s a rest, p s = .complete a rest → ∃ u, s = u ++ rest ∧ R u a) {n : ℕ}
    {s : List β} {r : ρ} (h : NotedBy p L n s r) :
    ∃ (ps : List (List β × α)) (t : List β), ps.length < n ∧ s = ps.flatMap Prod.fst ++ t ∧
      (∀ q ∈ ps, R q.1 q.2) ∧ L t r := by
  induction n generalizing s with
  | zero => exact h.elim
  | succ n ih =>
      rcases h with h | ⟨a, rest, ha, h⟩
      · exact ⟨[], s, Nat.succ_pos n, rfl, by simp, h⟩
      · obtain ⟨u, rfl, hu⟩ := hR s a rest ha
        obtain ⟨ps, t, hlt, rfl, hps, ht⟩ := ih h
        refine ⟨(u, a) :: ps, t, Nat.succ_lt_succ hlt, ?_, ?_, ht⟩
        · rw [List.flatMap_cons, List.append_assoc]
        · exact List.forall_mem_cons.mpr ⟨hu, hps⟩

theorem notedBy_append {p : Parser ε β α} {L : List β → ρ → Prop} {ps : List (List β × α)}
    {n : ℕ} {t : List β} {r : ρ}
    (h : ∀ q ∈ ps, ∀ rest, p (q.1 ++ rest) = .complete q.2 rest) (hlt : ps.length < n)
    (ht : L t r) : NotedBy p L n (ps.flatMap Prod.fst ++ t) r := by
  induction ps generalizing n with
  | nil =>
      obtain ⟨n, rfl⟩ := Nat.exists_eq_succ_of_ne_zero (Nat.ne_of_gt hlt)
      exact .inl ht
  | cons q ps ih =>
      obtain ⟨n, rfl⟩ := Nat.exists_eq_succ_of_ne_zero (Nat.ne_zero_of_lt hlt)
      have hq := h q List.mem_cons_self (ps.flatMap Prod.fst ++ t)
      rw [List.flatMap_cons, List.append_assoc]
      exact .inr ⟨q.2, _, hq, ih (fun q' hq' => h q' (List.mem_cons_of_mem q hq'))
        (Nat.lt_of_succ_lt_succ hlt)⟩

theorem Simulates.collect {V : CursorView σ β ρ} {stop : Option ε → δ} {c : σ} {s : List β}
    {m : ExceptT δ (StateM σ) α} {p : Parser ε β α} {L : List β → ρ → Prop} {bound : ℕ}
    (hm : ∀ c s, V.At c s → s.length < bound → Simulates V stop c m (p s) (L s))
    (hat : V.At c s) (hs : s.length < bound) (n : ℕ) :
    Simulates V stop c (collect m n) (Parser.replicate p n s) (NotedBy p L n s) := by
  induction n generalizing c s with
  | zero => exact .pure hat []
  | succ n ih =>
      have hrun := Simulates.bind (hm c s hat hs) fun a rest c' _ hat' hle =>
        Simulates.bind (f := fun as => Pure.pure (a :: as))
          (g := fun as => (Pure.pure (a :: as) : Parser ε β (List α)))
          (M := fun _ _ => Nothing) (ih hat' ((hat.length_le hat' hle).trans_lt hs))
          fun as last c'' _ hat'' _ => .pure hat'' (a :: as)
      exact hrun.congr fun r => by simp [NotedBy, Nothing]

end Framing
