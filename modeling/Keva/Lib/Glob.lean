import Mathlib.Computability.Language

/-!
# Glob patterns

A pattern is a list of tokens, and its language the product of theirs: everything for `any`, the
strings of length one for `one`, a single string for `only a`. Membership is decided token by token;
`any` asks for a suffix that the rest of the pattern matches.
-/

namespace Glob

inductive Token (α : Type*)
  | any
  | one
  | only (a : α)

variable {α : Type*}

def Token.language : Token α → Language α
  | any => ⊤
  | one => {s | s.length = 1}
  | only a => {[a]}

def language (ts : List (Token α)) : Language α := (ts.map Token.language).prod

variable {ts : List (Token α)} {s : List α}

theorem mem_language_nil : s ∈ language ([] : List (Token α)) ↔ s = [] := Language.mem_one s

theorem mem_language_cons {t : Token α} :
    s ∈ language (t :: ts) ↔ ∃ u ∈ t.language, ∃ v ∈ language ts, u ++ v = s := by
  unfold language
  rw [List.map_cons, List.prod_cons, Language.mem_mul]

theorem mem_language_any : s ∈ language (.any :: ts) ↔ ∃ v, v <:+ s ∧ v ∈ language ts := by
  rw [mem_language_cons]
  constructor
  · rintro ⟨u, -, v, hv, rfl⟩
    exact ⟨v, List.suffix_append u v, hv⟩
  · rintro ⟨v, ⟨u, rfl⟩, hv⟩
    exact ⟨u, trivial, v, hv, rfl⟩

theorem not_mem_language_one_nil : [] ∉ language (.one :: ts) := by
  rw [mem_language_cons]
  rintro ⟨u, hu, v, -, huv⟩
  have hlen : u.length = 1 := hu
  rw [(List.append_eq_nil_iff.mp huv).1] at hlen
  cases hlen

theorem mem_language_one_cons {b : α} : b :: s ∈ language (.one :: ts) ↔ s ∈ language ts := by
  rw [mem_language_cons]
  constructor
  · rintro ⟨u, hu, v, hv, huv⟩
    obtain ⟨a, rfl⟩ := List.length_eq_one_iff.mp hu
    rwa [← (List.cons.inj huv).2]
  · intro hs
    exact ⟨[b], rfl, s, hs, rfl⟩

theorem not_mem_language_only_nil (a : α) : [] ∉ language (.only a :: ts) := by
  rw [mem_language_cons]
  rintro ⟨u, hu, v, -, huv⟩
  have hsingle : u = [a] := hu
  rw [hsingle] at huv
  cases huv

theorem mem_language_only_cons {a b : α} :
    b :: s ∈ language (.only a :: ts) ↔ a = b ∧ s ∈ language ts := by
  rw [mem_language_cons]
  constructor
  · rintro ⟨u, hu, v, hv, huv⟩
    have hsingle : u = [a] := hu
    rw [hsingle] at huv
    obtain ⟨hab, rfl⟩ := List.cons.inj huv
    exact ⟨hab, hv⟩
  · rintro ⟨rfl, hs⟩
    exact ⟨[a], rfl, s, hs, rfl⟩

end Glob
