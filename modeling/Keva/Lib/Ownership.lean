import Mathlib.Data.List.Nodup
import Mathlib.Data.List.Perm.Basic
import Mathlib.Logic.Function.Basic

/-!
# Resources with one owner each

A `Table` knows which resources are open, and whether one was ever closed that was not. The
resources that are open are those of strangers and those that are held; `Owned` says so, and that
nothing is held twice. Opening a new resource and closing a held one keep it. Who holds a resource
does not matter, so handing it over from one holder to another is a permutation.
-/

namespace Ownership

open Function (update)

structure Table (ρ : Type*) where
  isOpen : ρ → Bool
  misclosed : Bool

namespace Table

variable {ρ : Type*} {strangers : ρ → Bool} {t : Table ρ} {r : ρ} {held held' : List ρ}

/-- Each open resource is a stranger's, or it is held, and by one holder only. -/
structure Owned (strangers : ρ → Bool) (held : List ρ) (t : Table ρ) : Prop where
  nodup : held.Nodup
  isOpen : ∀ r, t.isOpen r = true ↔ strangers r = true ∨ r ∈ held
  apart : ∀ r ∈ held, strangers r = false
  sound : t.misclosed = false

theorem Owned.of_strangers (strangers : ρ → Bool) : Owned strangers [] ⟨strangers, false⟩ where
  nodup := .nil
  isOpen r := by simp
  apart r hr := by cases hr
  sound := rfl

theorem Owned.perm (h : Owned strangers held t) (hperm : held.Perm held') :
    Owned strangers held' t where
  nodup := hperm.nodup_iff.mp h.nodup
  isOpen r := by rw [h.isOpen, hperm.mem_iff]
  apart r hr := h.apart r (hperm.mem_iff.mpr hr)
  sound := h.sound

theorem Owned.isOpen_eq (h : Owned strangers [] t) : t.isOpen = strangers := by
  funext r
  rw [Bool.eq_iff_iff, h.isOpen]
  simp

variable [DecidableEq ρ]

def opened (t : Table ρ) (r : ρ) : Table ρ := { t with isOpen := update t.isOpen r true }

def close (t : Table ρ) (r : ρ) : Table ρ :=
  if t.isOpen r then { t with isOpen := update t.isOpen r false } else { t with misclosed := true }

theorem Owned.opened (h : Owned strangers held t) (hr : t.isOpen r = false) :
    Owned strangers (r :: held) (t.opened r) := by
  have hfresh : ¬ (strangers r = true ∨ r ∈ held) := by
    rw [← h.isOpen, hr]
    exact Bool.false_ne_true
  rw [not_or] at hfresh
  refine ⟨List.nodup_cons.mpr ⟨hfresh.2, h.nodup⟩, fun r' => ?_, fun r' hr' => ?_, h.sound⟩
  · by_cases hne : r' = r
    · simp [Table.opened, hne]
    · simp [Table.opened, hne, h.isOpen]
  · rcases List.mem_cons.mp hr' with rfl | hr'
    · exact Bool.eq_false_iff.mpr hfresh.1
    · exact h.apart r' hr'

theorem Owned.close (h : Owned strangers (r :: held) t) : Owned strangers held (t.close r) := by
  obtain ⟨hnotin, hnodup⟩ := List.nodup_cons.mp h.nodup
  have hopen : t.isOpen r = true := (h.isOpen r).mpr (.inr List.mem_cons_self)
  have hclose : t.close r = { t with isOpen := update t.isOpen r false } := if_pos hopen
  rw [hclose]
  refine ⟨hnodup, fun r' => ?_, fun r' hr' => h.apart r' (.tail r hr'), h.sound⟩
  by_cases hne : r' = r
  · have hapart := h.apart r List.mem_cons_self
    simp [hne, hnotin, hapart]
  · simp [hne, h.isOpen]

end Table

end Ownership
