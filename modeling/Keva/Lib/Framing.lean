import Mathlib.Data.List.Basic
import Mathlib.Data.List.Infix

/-!
# Parsers of frames that arrive in pieces

A `Parser` looks at the input received so far. It returns a value and the rest of the input, or
asks for more input, or fails. It is `Stable` when a value or a failure stands whatever input
follows. `frames` applies a parser as long as it returns values. For a stable parser the frames of
a stream do not depend on how the stream was cut (`frames_append`).
-/

namespace Framing

inductive Verdict (ε β α : Type)
  | complete (value : α) (rest : List β)
  | incomplete
  | error (e : ε)
  deriving DecidableEq

def Parser (ε β α : Type) : Type := List β → Verdict ε β α

variable {ε β α γ : Type}

namespace Parser

protected def pure (a : α) : Parser ε β α := fun s => .complete a s

protected def bind (p : Parser ε β α) (f : α → Parser ε β γ) : Parser ε β γ := fun s =>
  match p s with
  | .complete a rest => f a rest
  | .incomplete => .incomplete
  | .error e => .error e

instance : Monad (Parser ε β) where
  pure := Parser.pure
  bind := Parser.bind

def fail (e : ε) : Parser ε β α := fun _ => .error e

/-- Asks for more input, whatever it sees. -/
def starve : Parser ε β α := fun _ => .incomplete

def next : Parser ε β β
  | [] => .incomplete
  | b :: rest => .complete b rest

def take (n : ℕ) : Parser ε β (List β) := fun s =>
  if s.length < n then .incomplete else .complete (s.take n) (s.drop n)

/-- The input up to the first occurrence of `a` followed by `b`, which is consumed too. -/
def line [DecidableEq β] (a b : β) : Parser ε β (List β)
  | x :: y :: rest =>
      if x = a ∧ y = b then .complete [] rest
      else
        match line a b (y :: rest) with
        | .complete l r => .complete (x :: l) r
        | .incomplete => .incomplete
        | .error e => .error e
  | _ => .incomplete

def replicate (p : Parser ε β α) : ℕ → Parser ε β (List α)
  | 0 => Pure.pure []
  | n + 1 => do
      let a ← p
      let as ← replicate p n
      Pure.pure (a :: as)

theorem bind_apply (p : Parser ε β α) (f : α → Parser ε β γ) (s : List β) :
    (p >>= f) s =
      match p s with
      | .complete a rest => f a rest
      | .incomplete => .incomplete
      | .error e => .error e := rfl

theorem bind_of_complete {p : Parser ε β α} {f : α → Parser ε β γ} {s rest : List β} {a : α}
    (h : p s = .complete a rest) : (p >>= f) s = f a rest := by
  rw [bind_apply, h]

theorem bind_of_incomplete {p : Parser ε β α} {f : α → Parser ε β γ} {s : List β}
    (h : p s = .incomplete) : (p >>= f) s = .incomplete := by
  rw [bind_apply, h]

theorem bind_of_error {p : Parser ε β α} {f : α → Parser ε β γ} {s : List β} {e : ε}
    (h : p s = .error e) : (p >>= f) s = .error e := by
  rw [bind_apply, h]

theorem bind_eq_complete {p : Parser ε β α} {f : α → Parser ε β γ} {s rest : List β} {c : γ}
    (h : (p >>= f) s = .complete c rest) :
    ∃ a mid, p s = .complete a mid ∧ f a mid = .complete c rest := by
  rw [bind_apply] at h
  cases hp : p s with
  | complete a mid => rw [hp] at h; exact ⟨a, mid, rfl, h⟩
  | incomplete => rw [hp] at h; cases h
  | error e => rw [hp] at h; cases h

/-- What the parser has decided on `s`, it decides on every extension of `s`. -/
structure StableAt (p : Parser ε β α) (s : List β) : Prop where
  complete : ∀ a rest, p s = .complete a rest → ∀ t, p (s ++ t) = .complete a (rest ++ t)
  error : ∀ e, p s = .error e → ∀ t, p (s ++ t) = .error e

def Stable (p : Parser ε β α) : Prop := ∀ s, p.StableAt s

theorem stable_pure (a : α) : (Pure.pure a : Parser ε β α).Stable := fun _ =>
  ⟨fun _ _ h _ => (by cases h; rfl), fun _ h => (by cases h)⟩

theorem stable_fail (e : ε) : (fail e : Parser ε β α).Stable := fun _ =>
  ⟨fun _ _ h => (by cases h), fun _ h _ => h⟩

theorem stable_starve : (starve : Parser ε β α).Stable := fun _ =>
  ⟨fun _ _ h => (by cases h), fun _ h => (by cases h)⟩

theorem stableAt_bind {p : Parser ε β α} {f : α → Parser ε β γ} {s : List β} (hp : p.StableAt s)
    (hf : ∀ a rest, p s = .complete a rest → (f a).StableAt rest) : (p >>= f).StableAt s := by
  cases hs : p s with
  | complete a rest =>
      have hext : ∀ t, (p >>= f) (s ++ t) = f a (rest ++ t) := fun t =>
        bind_of_complete (hp.complete a rest hs t)
      have hnow : (p >>= f) s = f a rest := bind_of_complete hs
      refine ⟨fun c r h t => ?_, fun e h t => ?_⟩
      · rw [hext]
        exact (hf a rest hs).complete c r (hnow ▸ h) t
      · rw [hext]
        exact (hf a rest hs).error e (hnow ▸ h) t
  | incomplete =>
      have hnow : (p >>= f) s = .incomplete := bind_of_incomplete hs
      refine ⟨fun c r h => ?_, fun e h => ?_⟩ <;> (rw [hnow] at h; cases h)
  | error e =>
      have hnow : (p >>= f) s = .error e := bind_of_error hs
      refine ⟨fun c r h => (by rw [hnow] at h; cases h), fun e' h t => ?_⟩
      rw [bind_of_error (hp.error e hs t), ← hnow, h]

theorem stable_bind {p : Parser ε β α} {f : α → Parser ε β γ} (hp : p.Stable)
    (hf : ∀ a, (f a).Stable) : (p >>= f).Stable := fun s =>
  stableAt_bind (hp s) (fun a rest _ => hf a rest)

theorem stable_next : (next : Parser ε β β).Stable := fun s =>
  ⟨fun _ _ h _ => (by cases s <;> cases h; rfl), fun _ h => (by cases s <;> cases h)⟩

theorem stable_take (n : ℕ) : (take n : Parser ε β (List β)).Stable := by
  refine fun s => ⟨fun a rest h t => ?_, fun e h => ?_⟩
  · rw [take] at h ⊢
    split_ifs at h with hn
    obtain ⟨rfl, rfl⟩ : s.take n = a ∧ s.drop n = rest := by simpa using h
    rw [if_neg (by rw [List.length_append]; omega), List.take_append_of_le_length (by omega),
      List.drop_append_of_le_length (by omega)]
  · rw [take] at h
    split_ifs at h

theorem line_cons_cons [DecidableEq β] {a b x y : β} (h : ¬(x = a ∧ y = b)) (s : List β) :
    (line a b : Parser ε β (List β)) (x :: y :: s) =
      (line a b >>= fun l => Pure.pure (x :: l) : Parser ε β (List β)) (y :: s) := by
  rw [line, if_neg h]
  cases hs : (line a b : Parser ε β (List β)) (y :: s) with
  | complete l rest => rw [bind_of_complete hs]; rfl
  | incomplete => rw [bind_of_incomplete hs]
  | error e => rw [bind_of_error hs]

theorem stable_line [DecidableEq β] (a b : β) : (line a b : Parser ε β (List β)).Stable := by
  intro s
  induction s with
  | nil => exact ⟨fun l rest h => (by cases h), fun e h => (by cases h)⟩
  | cons x s ih =>
      cases s with
      | nil => exact ⟨fun l rest h => (by cases h), fun e h => (by cases h)⟩
      | cons y s =>
          by_cases hxy : x = a ∧ y = b
          · refine ⟨fun l rest h t => ?_, fun e h => ?_⟩ <;> rw [line, if_pos hxy] at h <;> cases h
            rw [List.cons_append, List.cons_append, line, if_pos hxy]
          · have htail := stableAt_bind (f := fun l => Pure.pure (x :: l)) ih
              (fun l rest _ => stable_pure (x :: l) rest)
            refine ⟨fun l rest h t => ?_, fun e h t => ?_⟩
            all_goals
              rw [line_cons_cons hxy] at h
              rw [List.cons_append, List.cons_append, line_cons_cons hxy, ← List.cons_append]
            · exact htail.complete l rest h t
            · exact htail.error e h t

theorem stable_replicate {p : Parser ε β α} (hp : p.Stable) (n : ℕ) : (replicate p n).Stable := by
  induction n with
  | zero => exact stable_pure []
  | succ n ih =>
      exact stable_bind hp (fun a => stable_bind ih (fun as => stable_pure (a :: as)))

/-- A value is read from a prefix of the input. -/
def Reads (p : Parser ε β α) : Prop :=
  ∀ s a rest, p s = .complete a rest → ∃ u, s = u ++ rest

/-- A value is read from a nonempty prefix of the input. -/
def Advances (p : Parser ε β α) : Prop :=
  ∀ s a rest, p s = .complete a rest → ∃ u, u ≠ [] ∧ s = u ++ rest

theorem Advances.reads {p : Parser ε β α} (h : p.Advances) : p.Reads := fun s a rest hs => by
  obtain ⟨u, -, hu⟩ := h s a rest hs
  exact ⟨u, hu⟩

theorem Advances.length_lt {p : Parser ε β α} (h : p.Advances) {s rest : List β} {a : α}
    (hs : p s = .complete a rest) : rest.length < s.length := by
  obtain ⟨u, hu, rfl⟩ := h s a rest hs
  rw [List.length_append]
  have := List.length_pos_iff.mpr hu
  omega

theorem reads_pure (a : α) : (Pure.pure a : Parser ε β α).Reads := fun s a' rest h => by
  cases h
  exact ⟨[], rfl⟩

theorem reads_fail (e : ε) : (fail e : Parser ε β α).Reads := fun s a rest h => by cases h

theorem reads_bind {p : Parser ε β α} {f : α → Parser ε β γ} (hp : p.Reads)
    (hf : ∀ a, (f a).Reads) : (p >>= f).Reads := fun s c rest h => by
  obtain ⟨a, mid, h1, h2⟩ := bind_eq_complete h
  obtain ⟨u, rfl⟩ := hp s a mid h1
  obtain ⟨v, rfl⟩ := hf a mid c rest h2
  exact ⟨u ++ v, (List.append_assoc u v rest).symm⟩

theorem advances_bind {p : Parser ε β α} {f : α → Parser ε β γ} (hp : p.Advances)
    (hf : ∀ a, (f a).Reads) : (p >>= f).Advances := fun s c rest h => by
  obtain ⟨a, mid, h1, h2⟩ := bind_eq_complete h
  obtain ⟨u, hu, rfl⟩ := hp s a mid h1
  obtain ⟨v, rfl⟩ := hf a mid c rest h2
  exact ⟨u ++ v, by simp [hu], (List.append_assoc u v rest).symm⟩

theorem advances_next : (next : Parser ε β β).Advances := fun s a rest h => by
  cases s <;> cases h
  exact ⟨[a], by simp, rfl⟩

theorem reads_take (n : ℕ) : (take n : Parser ε β (List β)).Reads := fun s a rest h => by
  rw [take] at h
  split_ifs at h
  cases h
  exact ⟨s.take n, (List.take_append_drop n s).symm⟩

theorem reads_line [DecidableEq β] (a b : β) : (line a b : Parser ε β (List β)).Reads := by
  intro s
  induction s with
  | nil => intro l rest h; cases h
  | cons x s ih =>
      intro l rest h
      cases s with
      | nil => cases h
      | cons y s =>
          by_cases hxy : x = a ∧ y = b
          · rw [line, if_pos hxy] at h
            cases h
            exact ⟨[x, y], rfl⟩
          · rw [line_cons_cons hxy] at h
            obtain ⟨l', mid, h1, h2⟩ := bind_eq_complete h
            obtain ⟨u, hu⟩ := ih l' mid h1
            cases h2
            exact ⟨x :: u, by rw [hu]; rfl⟩

theorem reads_replicate {p : Parser ε β α} (hp : p.Reads) (n : ℕ) : (replicate p n).Reads := by
  induction n with
  | zero => exact reads_pure []
  | succ n ih => exact reads_bind hp (fun a => reads_bind ih (fun as => reads_pure (a :: as)))

/-- A parser fit for input that arrives in pieces. -/
structure Incremental (p : Parser ε β α) : Prop where
  stable : p.Stable
  reads : p.Reads

theorem incremental_pure (a : α) : (Pure.pure a : Parser ε β α).Incremental :=
  ⟨stable_pure a, reads_pure a⟩

theorem incremental_fail (e : ε) : (fail e : Parser ε β α).Incremental :=
  ⟨stable_fail e, reads_fail e⟩

theorem incremental_starve : (starve : Parser ε β α).Incremental :=
  ⟨stable_starve, fun s a rest h => (by cases h)⟩

theorem incremental_bind {p : Parser ε β α} {f : α → Parser ε β γ} (hp : p.Incremental)
    (hf : ∀ a, (f a).Incremental) : (p >>= f).Incremental :=
  ⟨stable_bind hp.stable (fun a => (hf a).stable), reads_bind hp.reads (fun a => (hf a).reads)⟩

theorem incremental_next : (next : Parser ε β β).Incremental :=
  ⟨stable_next, advances_next.reads⟩

theorem incremental_take (n : ℕ) : (take n : Parser ε β (List β)).Incremental :=
  ⟨stable_take n, reads_take n⟩

theorem incremental_line [DecidableEq β] (a b : β) :
    (line a b : Parser ε β (List β)).Incremental :=
  ⟨stable_line a b, reads_line a b⟩

theorem incremental_replicate {p : Parser ε β α} (hp : p.Incremental) (n : ℕ) :
    (replicate p n).Incremental :=
  ⟨stable_replicate hp.stable n, reads_replicate hp.reads n⟩

theorem bind_congr_left {p q : Parser ε β α} {f : α → Parser ε β γ} {s : List β}
    (h : p s = q s) : (p >>= f) s = (q >>= f) s := by
  rw [bind_apply, bind_apply, h]

theorem bind_congr_right {p : Parser ε β α} {f g : α → Parser ε β γ} {s : List β}
    (h : ∀ a rest, p s = .complete a rest → f a rest = g a rest) : (p >>= f) s = (p >>= g) s := by
  cases hs : p s with
  | complete a rest => rw [bind_of_complete hs, bind_of_complete hs, h a rest hs]
  | incomplete => rw [bind_of_incomplete hs, bind_of_incomplete hs]
  | error e => rw [bind_of_error hs, bind_of_error hs]

theorem replicate_congr {p q : Parser ε β α} (hp : p.Reads) {n : ℕ}
    (h : ∀ s, s.length ≤ n → p s = q s) (count : ℕ) {s : List β} (hs : s.length ≤ n) :
    replicate p count s = replicate q count s := by
  induction count generalizing s with
  | zero => rfl
  | succ count ih =>
      rw [replicate, replicate, bind_congr_left (h s hs).symm]
      refine bind_congr_right fun a rest ha => bind_congr_left (ih ?_)
      obtain ⟨u, rfl⟩ := hp s a rest ha
      rw [List.length_append] at hs
      omega

theorem take_append {n : ℕ} {u : List β} (hu : u.length = n) (rest : List β) :
    (take n : Parser ε β (List β)) (u ++ rest) = .complete u rest := by
  rw [take, if_neg (by rw [List.length_append]; omega), ← hu, List.take_left, List.drop_left]

theorem line_append [DecidableEq β] {a b : β} (hab : a ≠ b) {l : List β} (hl : ¬ [a, b] <:+: l)
    (rest : List β) :
    (line a b : Parser ε β (List β)) (l ++ a :: b :: rest) = .complete l rest := by
  induction l with
  | nil => rw [List.nil_append, line, if_pos ⟨rfl, rfl⟩]
  | cons x l ih =>
      have htail : ¬ [a, b] <:+: l := fun h => hl (h.trans (List.suffix_cons x l).isInfix)
      have hx : ∀ y s, l ++ a :: b :: rest = y :: s → ¬(x = a ∧ y = b) := by
        rintro y s hs ⟨rfl, rfl⟩
        cases l with
        | nil =>
            rw [List.nil_append] at hs
            exact hab (List.cons.inj hs).1
        | cons z l =>
            obtain rfl : z = y := (List.cons.inj hs).1
            exact hl ⟨[], l, rfl⟩
      obtain ⟨y, s, hs⟩ : ∃ y s, l ++ a :: b :: rest = y :: s := by
        cases l with
        | nil => exact ⟨a, b :: rest, rfl⟩
        | cons z l => exact ⟨z, l ++ a :: b :: rest, rfl⟩
      rw [List.cons_append, hs, line_cons_cons (hx y s hs), ← hs, bind_of_complete (ih htail)]
      rfl

theorem bind_eq_error {p : Parser ε β α} {f : α → Parser ε β γ} {s : List β} {e : ε}
    (h : (p >>= f) s = .error e) :
    p s = .error e ∨ ∃ a mid, p s = .complete a mid ∧ f a mid = .error e := by
  rw [bind_apply] at h
  cases hp : p s with
  | complete a mid => rw [hp] at h; exact .inr ⟨a, mid, rfl, h⟩
  | incomplete => rw [hp] at h; cases h
  | error e' => rw [hp] at h; cases h; exact .inl rfl

theorem take_eq_complete {n : ℕ} {s u rest : List β}
    (h : (take n : Parser ε β (List β)) s = .complete u rest) : u.length = n ∧ s = u ++ rest := by
  rw [take] at h
  split_ifs at h with hn
  obtain ⟨rfl, rfl⟩ : s.take n = u ∧ s.drop n = rest := by simpa using h
  exact ⟨List.length_take_of_le (by omega), (List.take_append_drop n s).symm⟩

theorem take_ne_error (n : ℕ) (s : List β) (e : ε) :
    (take n : Parser ε β (List β)) s ≠ .error e := by
  intro h
  rw [take] at h
  split_ifs at h

theorem line_eq_complete [DecidableEq β] {a b : β} {s l rest : List β}
    (h : (line a b : Parser ε β (List β)) s = .complete l rest) :
    s = l ++ a :: b :: rest ∧ ¬ [a, b] <:+: l := by
  induction s generalizing l with
  | nil => cases h
  | cons x s ih =>
      cases s with
      | nil => cases h
      | cons y s =>
          by_cases hxy : x = a ∧ y = b
          · obtain ⟨rfl, rfl⟩ := hxy
            rw [line, if_pos ⟨rfl, rfl⟩] at h
            cases h
            exact ⟨rfl, by simp⟩
          · rw [line_cons_cons hxy] at h
            obtain ⟨l', mid, h1, h2⟩ := bind_eq_complete h
            cases h2
            obtain ⟨hs, hl'⟩ := ih h1
            refine ⟨by rw [hs]; rfl, fun hin => ?_⟩
            rcases List.infix_cons_iff.mp hin with hpre | hin
            · obtain ⟨rfl, t, rfl⟩ := List.cons_prefix_cons.mp hpre
              exact hxy ⟨rfl, (List.cons.inj hs).1⟩
            · exact hl' hin

theorem line_ne_error [DecidableEq β] (a b : β) (s : List β) (e : ε) :
    (line a b : Parser ε β (List β)) s ≠ .error e := by
  intro h
  induction s with
  | nil => cases h
  | cons x s ih =>
      cases s with
      | nil => cases h
      | cons y s =>
          by_cases hxy : x = a ∧ y = b
          · rw [line, if_pos hxy] at h
            cases h
          · rw [line_cons_cons hxy] at h
            rcases bind_eq_error h with h | ⟨l, mid, -, h⟩
            · exact ih h
            · cases h

theorem replicate_eq_complete {p : Parser ε β α} {R : List β → α → Prop}
    (hR : ∀ s a rest, p s = .complete a rest → ∃ u, s = u ++ rest ∧ R u a) {n : ℕ}
    {s rest : List β} {as : List α} (h : replicate p n s = .complete as rest) :
    ∃ ps : List (List β × α), ps.length = n ∧ ps.map Prod.snd = as ∧
      s = ps.flatMap Prod.fst ++ rest ∧ ∀ q ∈ ps, R q.1 q.2 := by
  induction n generalizing s as with
  | zero =>
      cases h
      exact ⟨[], rfl, rfl, rfl, by simp⟩
  | succ n ih =>
      obtain ⟨a, mid, ha, h⟩ := bind_eq_complete h
      obtain ⟨as, last, has, h⟩ := bind_eq_complete h
      cases h
      obtain ⟨u, rfl, hu⟩ := hR s a mid ha
      obtain ⟨ps, hlen, hmap, hmid, hps⟩ := ih has
      refine ⟨(u, a) :: ps, by rw [List.length_cons, hlen], by rw [List.map_cons, hmap], ?_, ?_⟩
      · rw [hmid, List.flatMap_cons, List.append_assoc]
      · exact List.forall_mem_cons.mpr ⟨hu, hps⟩

theorem replicate_eq_error {p : Parser ε β α} {R : List β → α → Prop}
    (hR : ∀ s a rest, p s = .complete a rest → ∃ u, s = u ++ rest ∧ R u a) {n : ℕ}
    {s : List β} {e : ε} (h : replicate p n s = .error e) :
    ∃ (ps : List (List β × α)) (t : List β), ps.length < n ∧ s = ps.flatMap Prod.fst ++ t ∧
      (∀ q ∈ ps, R q.1 q.2) ∧ p t = .error e := by
  induction n generalizing s with
  | zero => cases h
  | succ n ih =>
      rcases bind_eq_error h with h | ⟨a, mid, ha, h⟩
      · exact ⟨[], s, Nat.succ_pos n, rfl, by simp, h⟩
      · rcases bind_eq_error h with has | ⟨as, last, -, h⟩
        · obtain ⟨u, rfl, hu⟩ := hR s a mid ha
          obtain ⟨ps, t, hlen, rfl, hps, ht⟩ := ih has
          refine ⟨(u, a) :: ps, t, Nat.succ_lt_succ hlen, ?_, ?_, ht⟩
          · rw [List.flatMap_cons, List.append_assoc]
          · exact List.forall_mem_cons.mpr ⟨hu, hps⟩
        · cases h

theorem replicate_append {p : Parser ε β α} {ps : List (List β × α)}
    (h : ∀ q ∈ ps, ∀ rest, p (q.1 ++ rest) = .complete q.2 rest) (rest : List β) :
    replicate p ps.length (ps.flatMap Prod.fst ++ rest) = .complete (ps.map Prod.snd) rest := by
  induction ps with
  | nil => rfl
  | cons q ps ih =>
      rw [List.length_cons, replicate, List.flatMap_cons, List.append_assoc,
        bind_of_complete (h q List.mem_cons_self _),
        bind_of_complete (ih (fun q' hq' => h q' (List.mem_cons_of_mem q hq')))]
      rfl

theorem replicate_append_of_error {p : Parser ε β α} {ps : List (List β × α)} {n : ℕ}
    (h : ∀ q ∈ ps, ∀ rest, p (q.1 ++ rest) = .complete q.2 rest) (hlt : ps.length < n)
    {t : List β} {e : ε} (ht : p t = .error e) :
    replicate p n (ps.flatMap Prod.fst ++ t) = .error e := by
  induction ps generalizing n with
  | nil =>
      obtain ⟨n, rfl⟩ := Nat.exists_eq_succ_of_ne_zero (Nat.ne_of_gt hlt)
      exact bind_of_error ht
  | cons q ps ih =>
      obtain ⟨n, rfl⟩ := Nat.exists_eq_succ_of_ne_zero (Nat.ne_zero_of_lt hlt)
      rw [replicate, List.flatMap_cons, List.append_assoc,
        bind_of_complete (h q List.mem_cons_self _)]
      exact bind_of_error (ih (fun q' hq' => h q' (List.mem_cons_of_mem q hq'))
        (Nat.lt_of_succ_lt_succ hlt))

end Parser

/-- What is left when no more frames can be read: input to be completed, or input that failed. -/
inductive Tail (ε β : Type)
  | waiting (rest : List β)
  | failed (e : ε) (rest : List β)
  deriving DecidableEq

def Tail.rest : Tail ε β → List β
  | waiting rest => rest
  | failed _ rest => rest

def framesFrom (p : Parser ε β α) : ℕ → List β → List α × Tail ε β
  | 0, s => ([], .waiting s)
  | fuel + 1, s =>
      match p s with
      | .complete a rest => (a :: (framesFrom p fuel rest).1, (framesFrom p fuel rest).2)
      | .incomplete => ([], .waiting s)
      | .error e => ([], .failed e s)

/-- Every frame has at least one byte, so the length of the input is fuel enough. -/
def frames (p : Parser ε β α) (s : List β) : List α × Tail ε β := framesFrom p (s.length + 1) s

variable {p : Parser ε β α}

theorem framesFrom_congr (hadv : p.Advances) {m n : ℕ} {s : List β} (hm : s.length < m)
    (hn : s.length < n) : framesFrom p m s = framesFrom p n s := by
  induction m generalizing n s with
  | zero => omega
  | succ m ih =>
      cases n with
      | zero => omega
      | succ n =>
          rw [framesFrom, framesFrom]
          cases hs : p s with
          | complete a rest =>
              have := hadv.length_lt hs
              simp only [ih (s := rest) (n := n) (by omega) (by omega)]
          | incomplete => rfl
          | error e => rfl

theorem frames_of_complete (hadv : p.Advances) {s rest : List β} {a : α}
    (hs : p s = .complete a rest) :
    frames p s = (a :: (frames p rest).1, (frames p rest).2) := by
  have := hadv.length_lt hs
  rw [frames, framesFrom, hs, frames,
    framesFrom_congr hadv (show rest.length < rest.length + 1 by omega) this]

theorem frames_of_incomplete {s : List β} (hs : p s = .incomplete) :
    frames p s = ([], .waiting s) := by
  rw [frames, framesFrom, hs]

theorem frames_of_error {s : List β} {e : ε} (hs : p s = .error e) :
    frames p s = ([], .failed e s) := by
  rw [frames, framesFrom, hs]

/-- Induction along the frames of an input. -/
theorem frames_induction (hadv : p.Advances) {motive : List β → Prop}
    (complete : ∀ s a rest, p s = .complete a rest → motive rest → motive s)
    (incomplete : ∀ s, p s = .incomplete → motive s)
    (error : ∀ s e, p s = .error e → motive s) (s : List β) : motive s := by
  induction hn : s.length using Nat.strong_induction_on generalizing s with
  | _ n ih =>
      cases hs : p s with
      | complete a rest =>
          exact complete s a rest hs (ih rest.length (hn ▸ hadv.length_lt hs) rest rfl)
      | incomplete => exact incomplete s hs
      | error e => exact error s e hs

theorem frames_append (hst : p.Stable) (hadv : p.Advances) (s t : List β) :
    frames p (s ++ t) =
      match (frames p s).2 with
      | .waiting rest => ((frames p s).1 ++ (frames p (rest ++ t)).1, (frames p (rest ++ t)).2)
      | .failed e rest => ((frames p s).1, .failed e (rest ++ t)) := by
  induction s using frames_induction hadv with
  | complete s a rest hs ih =>
      rw [frames_of_complete hadv hs, frames_of_complete hadv ((hst s).complete a rest hs t), ih]
      cases (frames p rest).2 <;> rfl
  | incomplete s hs => rw [frames_of_incomplete hs]; rfl
  | error s e hs => rw [frames_of_error hs, frames_of_error ((hst s).error e hs t)]

theorem frames_rest (hadv : p.Advances) (s : List β) :
    frames p (frames p s).2.rest = ([], (frames p s).2) := by
  induction s using frames_induction hadv with
  | complete s a rest hs ih => rw [frames_of_complete hadv hs]; exact ih
  | incomplete s hs => rw [frames_of_incomplete hs]; exact frames_of_incomplete hs
  | error s e hs => rw [frames_of_error hs]; exact frames_of_error hs

/-- Where no more frames can be read, the parser fails. -/
theorem error_of_failed (hadv : p.Advances) {s rest : List β} {e : ε}
    (h : (frames p s).2 = .failed e rest) : p rest = .error e := by
  induction s using frames_induction hadv with
  | complete s a rest' hs ih =>
      rw [frames_of_complete hadv hs] at h
      exact ih h
  | incomplete s hs =>
      rw [frames_of_incomplete hs] at h
      cases h
  | error s e' hs =>
      rw [frames_of_error hs] at h
      cases h
      exact hs

theorem frames_append_rest (hst : p.Stable) (hadv : p.Advances) (s t : List β) :
    frames p (s ++ t) = ((frames p s).1 ++ (frames p ((frames p s).2.rest ++ t)).1,
      (frames p ((frames p s).2.rest ++ t)).2) := by
  induction s using frames_induction hadv with
  | complete s a rest hs ih =>
      rw [frames_of_complete hadv hs, frames_of_complete hadv ((hst s).complete a rest hs t), ih]
      rfl
  | incomplete s hs => rw [frames_of_incomplete hs]; rfl
  | error s e hs => rw [frames_of_error hs]; rfl

theorem frames_waiting_of_append (hst : p.Stable) (hadv : p.Advances) {s t rest : List β}
    (h : (frames p (s ++ t)).2 = .waiting rest) : ∃ rest', (frames p s).2 = .waiting rest' := by
  rw [frames_append hst hadv] at h
  cases hs : (frames p s).2 with
  | waiting rest' => exact ⟨rest', rfl⟩
  | failed e rest' =>
      rw [hs] at h
      cases h

theorem frames_flatMap (hadv : p.Advances) (hnil : p [] = .incomplete) {enc : α → List β}
    {as : List α} (h : ∀ a ∈ as, ∀ rest, p (enc a ++ rest) = .complete a rest) :
    frames p (as.flatMap enc) = (as, .waiting []) := by
  induction as with
  | nil => exact frames_of_incomplete hnil
  | cons a as ih =>
      rw [List.flatMap_cons, frames_of_complete hadv (h a List.mem_cons_self _),
        ih (fun b hb => h b (List.mem_cons_of_mem a hb))]

end Framing
