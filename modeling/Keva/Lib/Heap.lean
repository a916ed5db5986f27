import Keva.Lib.VectorOps
import Mathlib.Logic.Function.Basic

/-!
# A heap and its owners

A block is a list of cells; a cell that has not been written has no value. Reads and writes succeed
inside allocated blocks only, and only written cells can be read. `Exchange` frames work on a single
block, which may be freed, allocated or replaced. Under `Owned` every block has exactly one owner,
and such work by one owner leaves the blocks of the others alone.
-/

structure Heap (α : Type) where
  blocks : ℕ → Option (List (Option α))
  next : ℕ
  fresh : ∀ p, next ≤ p → blocks p = none

namespace Heap

open VectorOps

variable {α : Type}

def empty : Heap α := ⟨fun _ => none, 0, fun _ _ => rfl⟩

def put (h : Heap α) (p : ℕ) (block : Option (List (Option α))) : Heap α where
  blocks := Function.update h.blocks p block
  next := max h.next (p + 1)
  fresh q hq := by
    rw [Function.update_of_ne (by omega)]
    exact h.fresh q (by omega)

/-- A new block of `n` cells and its address. -/
def alloc (h : Heap α) (n : ℕ) : ℕ × Heap α :=
  (h.next, h.put h.next (some (List.replicate n none)))

def free (h : Heap α) (p : ℕ) : Option (Heap α) := (h.blocks p).map fun _ => h.put p none

def write (h : Heap α) (p i : ℕ) (xs : List α) : Option (Heap α) :=
  match h.blocks p with
  | none => none
  | some block =>
      if i + xs.length ≤ block.length then
        some (h.put p (some (overwrite block i (xs.map some))))
      else none

def read (h : Heap α) (p n : ℕ) : Option (List α) :=
  match h.blocks p with
  | none => none
  | some block => if n ≤ block.length then (block.take n).mapM id else none

variable {h h' h'' : Heap α} {p : ℕ} {xs : List α}

@[simp] theorem blocks_put (block : Option (List (Option α))) :
    (h.put p block).blocks p = block := Function.update_self ..

theorem blocks_put_of_ne {q : ℕ} (hq : q ≠ p) (block : Option (List (Option α))) :
    (h.put p block).blocks q = h.blocks q := Function.update_of_ne hq ..

theorem write_eq {front back : List (Option α)} (hp : h.blocks p = some (front ++ back))
    (hle : xs.length ≤ back.length) :
    h.write p front.length xs =
      some (h.put p (some (front ++ xs.map some ++ back.drop xs.length))) := by
  have hroom : front.length + xs.length ≤ (front ++ back).length := by
    rw [List.length_append]
    omega
  rw [write, hp]
  dsimp only
  rw [if_pos hroom, overwrite_append, List.length_map]

theorem write_eq_none {block : List (Option α)} {i : ℕ} (hp : h.blocks p = some block)
    (hlt : block.length < i + xs.length) : h.write p i xs = none := by
  rw [write, hp]
  exact if_neg (by omega)

theorem read_eq {back : List (Option α)} (hp : h.blocks p = some (xs.map some ++ back)) :
    h.read p xs.length = some xs := by
  have hle : xs.length ≤ (xs.map some ++ back).length := by
    rw [List.length_append, List.length_map]
    omega
  have htake : (xs.map some ++ back).take xs.length = xs.map some :=
    List.take_left' (List.length_map some)
  rw [read, hp]
  dsimp only
  rw [if_pos hle, htake, List.mapM_map]
  exact (List.mapM_pure).trans (congrArg some (List.map_id xs))

theorem lt_next {block : List (Option α)} (hp : h.blocks p = some block) : p < h.next := by
  by_contra hge
  rw [h.fresh p (by omega)] at hp
  cases hp

theorem next_write {i : ℕ} (hrun : h.write p i xs = some h') : h'.next = h.next := by
  unfold write at hrun
  cases hp : h.blocks p with
  | none =>
      rw [hp] at hrun
      cases hrun
  | some block =>
      rw [hp] at hrun
      dsimp only at hrun
      split_ifs at hrun
      cases hrun
      exact Nat.max_eq_left (lt_next hp)

theorem next_free (hrun : h.free p = some h') : h'.next = h.next := by
  obtain ⟨block, hp, rfl⟩ := Option.map_eq_some_iff.mp hrun
  exact Nat.max_eq_left (lt_next hp)

/-- From `h` to `h'` the block at `old` has been worked on, or has given way to the one at `new`. -/
structure Exchange (h : Heap α) (old : Option ℕ) (h' : Heap α) (new : Option ℕ) : Prop where
  other : ∀ p, old ≠ some p → new ≠ some p → h'.blocks p = h.blocks p
  fresh : ∀ p, new = some p → old = some p ∨ h.blocks p = none
  freed : ∀ p, old = some p → new = some p ∨ h'.blocks p = none

theorem Exchange.refl (h : Heap α) (old : Option ℕ) : h.Exchange old h old :=
  ⟨fun _ _ _ => rfl, fun _ => .inl, fun _ => .inl⟩

theorem Exchange.trans {old mid new : Option ℕ} (he : h.Exchange old h' mid)
    (he' : h'.Exchange mid h'' new) : h.Exchange old h'' new := by
  constructor
  · intro p hold hnew
    by_cases hmid : mid = some p
    · have hbefore := (he.fresh p hmid).resolve_left hold
      have hafter := (he'.freed p hmid).resolve_left hnew
      rw [hbefore, hafter]
    · rw [he'.other p hmid hnew, he.other p hold hmid]
  · intro p hnew
    by_cases hmid : mid = some p
    · exact he.fresh p hmid
    · have hmiddle := (he'.fresh p hnew).resolve_left hmid
      by_cases hold : old = some p
      · exact .inl hold
      · exact .inr (by rw [← he.other p hold hmid, hmiddle])
  · intro p hold
    by_cases hmid : mid = some p
    · exact he'.freed p hmid
    · have hmiddle := (he.freed p hold).resolve_left hmid
      by_cases hnew : new = some p
      · exact .inl hnew
      · exact .inr (by rw [he'.other p hmid hnew, hmiddle])

theorem exchange_put (h : Heap α) (p : ℕ) (block : List (Option α)) :
    h.Exchange (some p) (h.put p (some block)) (some p) := by
  refine ⟨fun q hq _ => blocks_put_of_ne ?_ _, fun _ => .inl, fun _ => .inl⟩
  rintro rfl
  exact hq rfl

theorem exchange_alloc (h : Heap α) (n : ℕ) :
    h.Exchange none (h.alloc n).2 (some (h.alloc n).1) := by
  refine ⟨fun q _ hq => blocks_put_of_ne ?_ _, ?_, nofun⟩
  · rintro rfl
    exact hq rfl
  · rintro q hq
    cases hq
    exact .inr (h.fresh _ (Nat.le_refl _))

theorem exchange_free (h : Heap α) (p : ℕ) : h.Exchange (some p) (h.put p none) none := by
  refine ⟨fun q hq _ => blocks_put_of_ne ?_ _, nofun, ?_⟩
  · rintro rfl
    exact hq rfl
  · rintro q hq
    cases hq
    exact .inr (blocks_put _)

theorem Exchange.replace {old : Option ℕ} (he : h.Exchange none h' (some p))
    (he' : h'.Exchange old h'' none) : h.Exchange old h'' (some p) := by
  constructor
  · intro q hold hnew
    rw [he'.other q hold nofun, he.other q nofun hnew]
  · intro q hnew
    exact .inr ((he.fresh q hnew).resolve_left nofun)
  · intro q hold
    exact .inr ((he'.freed q hold).resolve_left nofun)

/-- The owners hold the addresses of all blocks, each block has one owner and none holds a dead
address. -/
structure Owned {ι : Type} (h : Heap α) (ptr : ι → Option ℕ) : Prop where
  live : ∀ n p, ptr n = some p → h.blocks p ≠ none
  inj : ∀ n m p, ptr n = some p → ptr m = some p → n = m
  noLeak : ∀ p, h.blocks p ≠ none → ∃ n, ptr n = some p

section

variable {ι : Type} {ptr : ι → Option ℕ} {n m : ι} {new : Option ℕ}

theorem owned_empty : (empty : Heap α).Owned fun _ : ι => none :=
  ⟨nofun, nofun, fun _ h => absurd rfl h⟩

theorem Owned.blocks_eq (ho : h.Owned ptr) (he : h.Exchange (ptr n) h' new) (hm : m ≠ n)
    (hp : ptr m = some p) : new ≠ some p ∧ h'.blocks p = h.blocks p := by
  have hold : ptr n ≠ some p := fun hn => hm (ho.inj m n p hp hn)
  have hnew : new ≠ some p := by
    intro hnew
    rcases he.fresh p hnew with hsame | hdead
    · exact hold hsame
    · exact ho.live m p hp hdead
  exact ⟨hnew, he.other p hold hnew⟩

variable [DecidableEq ι]

theorem Owned.exchange (ho : h.Owned ptr) (he : h.Exchange (ptr n) h' new)
    (hlive : ∀ p, new = some p → h'.blocks p ≠ none) :
    h'.Owned (Function.update ptr n new) := by
  constructor
  · intro m p hp
    by_cases hm : m = n
    · subst hm
      rw [Function.update_self] at hp
      exact hlive p hp
    · rw [Function.update_of_ne hm] at hp
      rw [(ho.blocks_eq he hm hp).2]
      exact ho.live m p hp
  · intro m m' p hp hp'
    by_cases hm : m = n
    · subst hm
      by_cases hm' : m' = m
      · exact hm'.symm
      · rw [Function.update_self] at hp
        rw [Function.update_of_ne hm'] at hp'
        exact absurd hp (ho.blocks_eq he hm' hp').1
    · rw [Function.update_of_ne hm] at hp
      by_cases hm' : m' = n
      · subst hm'
        rw [Function.update_self] at hp'
        exact absurd hp' (ho.blocks_eq he hm hp).1
      · rw [Function.update_of_ne hm'] at hp'
        exact ho.inj m m' p hp hp'
  · intro p hp
    by_cases hnew : new = some p
    · exact ⟨n, by rw [Function.update_self, hnew]⟩
    · have hold : ptr n ≠ some p := fun hold => hp ((he.freed p hold).resolve_left hnew)
      rw [he.other p hold hnew] at hp
      obtain ⟨m, hm⟩ := ho.noLeak p hp
      have hne : m ≠ n := by
        rintro rfl
        exact hold hm
      exact ⟨m, by rw [Function.update_of_ne hne, hm]⟩

theorem Owned.transfer (ho : h.Owned ptr) (hn : ptr n = none) (hne : n ≠ m) :
    h.Owned (Function.update (Function.update ptr m none) n (ptr m)) := by
  -- the block that `k` holds afterwards was held by `back k` before
  have hback : ∀ k p, Function.update (Function.update ptr m none) n (ptr m) k = some p →
      ptr (if k = n then m else k) = some p ∧ (k ≠ n → k ≠ m) := by
    intro k p hk
    by_cases hkn : k = n
    · subst hkn
      rw [Function.update_self] at hk
      rw [if_pos rfl]
      exact ⟨hk, fun h => absurd rfl h⟩
    · rw [Function.update_of_ne hkn] at hk
      rw [if_neg hkn]
      by_cases hkm : k = m
      · rw [hkm, Function.update_self] at hk
        cases hk
      · rw [Function.update_of_ne hkm] at hk
        exact ⟨hk, fun _ => hkm⟩
  constructor
  · intro k p hk
    exact ho.live _ p (hback k p hk).1
  · intro k k' p hk hk'
    obtain ⟨hk, hkm⟩ := hback k p hk
    obtain ⟨hk', hkm'⟩ := hback k' p hk'
    have heq := ho.inj _ _ p hk hk'
    split_ifs at heq with h₁ h₂ h₂
    · rw [h₁, h₂]
    · exact absurd heq.symm (hkm' h₂)
    · exact absurd heq (hkm h₁)
    · exact heq
  · intro p hp
    obtain ⟨k, hk⟩ := ho.noLeak p hp
    by_cases hkm : k = m
    · exact ⟨n, by rw [Function.update_self, ← hkm, hk]⟩
    · have hkn : k ≠ n := by
        rintro rfl
        rw [hn] at hk
        cases hk
      exact ⟨k, by rw [Function.update_of_ne hkn, Function.update_of_ne hkm, hk]⟩

end

end Heap
