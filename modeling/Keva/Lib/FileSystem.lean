import Mathlib.Logic.Function.Basic
import Mathlib.Data.List.Basic

/-!
# Names, inodes and contents

A file system in which names point to inodes and a process that has opened a file keeps the inode,
whatever becomes of the name. Opening with truncation, writing at an offset of one's own and
renaming are the steps of a program that replaces a file by a new one.
-/

structure FileSystem (Name α : Type) where
  names : Name → Option ℕ
  data : ℕ → List α
  next : ℕ
  fresh : ∀ name i, names name = some i → i < next

namespace FileSystem

variable {Name α : Type}

theorem fresh_none (name : Name) (i : ℕ) (h : (fun _ : Name => none) name = some i) : i < 0 :=
  nomatch h

variable [DecidableEq Name]

def read (fs : FileSystem Name α) (name : Name) : Option (List α) := (fs.names name).map fs.data

/-- The name exists afterwards and its file is empty. -/
def openTruncate (fs : FileSystem Name α) (name : Name) : ℕ × FileSystem Name α :=
  match fs.names name with
  | some i => (i, { fs with data := Function.update fs.data i [] })
  | none => (fs.next, {
      names := Function.update fs.names name (some fs.next)
      data := Function.update fs.data fs.next []
      next := fs.next + 1
      fresh := by
        intro m i h
        by_cases hm : m = name
        · rw [hm, Function.update_self] at h
          have := Option.some.inj h
          omega
        · rw [Function.update_of_ne hm] at h
          have := fs.fresh m i h
          omega })

/-- A gap before the offset is filled. -/
def writeAt [Inhabited α] (content : List α) (offset : ℕ) (bytes : List α) : List α :=
  content.take offset ++ List.replicate (offset - content.length) default ++ bytes ++
    content.drop (offset + bytes.length)

def write [Inhabited α] (fs : FileSystem Name α) (i offset : ℕ) (bytes : List α) :
    FileSystem Name α :=
  { fs with data := Function.update fs.data i (writeAt (fs.data i) offset bytes) }

/-- Nothing happens when both names point to the same inode. -/
def rename (fs : FileSystem Name α) (old new : Name) : Option (FileSystem Name α) :=
  match h : fs.names old with
  | none => none
  | some i =>
      if fs.names new = some i then some fs
      else some {
        names := Function.update (Function.update fs.names old none) new (some i)
        data := fs.data
        next := fs.next
        fresh := by
          intro m j hj
          by_cases hm : m = new
          · rw [hm, Function.update_self] at hj
            exact Option.some.inj hj ▸ fs.fresh old i h
          · rw [Function.update_of_ne hm] at hj
            by_cases hm' : m = old
            · rw [hm', Function.update_self] at hj
              cases hj
            · rw [Function.update_of_ne hm'] at hj
              exact fs.fresh m j hj }

/-- The two names are not links to one file. -/
def Separate (fs : FileSystem Name α) (a b : Name) : Prop :=
  ∀ i, fs.names a = some i → fs.names b ≠ some i

variable {fs : FileSystem Name α} {a b : Name} {i : ℕ}

theorem openTruncate_names (fs : FileSystem Name α) (a : Name) :
    (fs.openTruncate a).2.names a = some (fs.openTruncate a).1 := by
  unfold openTruncate
  cases h : fs.names a with
  | none => exact Function.update_self ..
  | some i => exact h

theorem openTruncate_names_of_ne (fs : FileSystem Name α) (hab : b ≠ a) :
    (fs.openTruncate a).2.names b = fs.names b := by
  unfold openTruncate
  cases fs.names a with
  | none => exact Function.update_of_ne hab ..
  | some i => rfl

theorem openTruncate_data (fs : FileSystem Name α) (a : Name) :
    (fs.openTruncate a).2.data = Function.update fs.data (fs.openTruncate a).1 [] := by
  unfold openTruncate
  cases fs.names a <;> rfl

theorem openTruncate_ne (hab : fs.Separate a b) (h : fs.names b = some i) :
    i ≠ (fs.openTruncate a).1 := by
  unfold openTruncate
  cases ha : fs.names a with
  | none => exact Nat.ne_of_lt (fs.fresh b i h)
  | some j =>
      rintro rfl
      exact hab _ ha h

theorem read_openTruncate (hne : b ≠ a) (hab : fs.Separate a b) :
    (fs.openTruncate a).2.read b = fs.read b := by
  unfold read
  rw [openTruncate_names_of_ne fs hne, openTruncate_data]
  cases h : fs.names b with
  | none => rfl
  | some i => exact congrArg some (Function.update_of_ne (openTruncate_ne hab h) ..)

theorem separate_openTruncate (hne : b ≠ a) (hab : fs.Separate a b) :
    (fs.openTruncate a).2.Separate a b := by
  intro i ha hb
  rw [openTruncate_names] at ha
  rw [openTruncate_names_of_ne fs hne] at hb
  exact openTruncate_ne hab hb (Option.some.inj ha).symm

section

variable [Inhabited α]

theorem writeAt_length (content bytes : List α) :
    writeAt content content.length bytes = content ++ bytes := by
  unfold writeAt
  rw [List.take_length, Nat.sub_self, List.drop_of_length_le (Nat.le_add_right _ _)]
  simp

omit [DecidableEq Name] in
theorem read_write_of_ne (hb : fs.names b ≠ some i) (offset : ℕ) (bytes : List α) :
    (fs.write i offset bytes).read b = fs.read b := by
  unfold read write
  cases h : fs.names b with
  | none => rfl
  | some j =>
      have hj : j ≠ i := fun heq => hb (heq ▸ h)
      exact congrArg some (Function.update_of_ne hj ..)

end

theorem rename_eq (hne : a ≠ b) (hab : fs.Separate a b) (ha : fs.names a = some i) :
    ∃ fs', fs.rename a b = some fs' ∧ fs'.names a = none ∧ fs'.read b = some (fs.data i) := by
  unfold rename
  split
  · rename_i h
    rw [ha] at h
    cases h
  · rename_i j h
    rw [ha] at h
    obtain rfl := Option.some.inj h
    rw [if_neg (hab i ha)]
    refine ⟨_, rfl, ?_, ?_⟩
    · dsimp only
      rw [Function.update_of_ne hne, Function.update_self]
    · unfold read
      dsimp only
      rw [Function.update_self]
      rfl

end FileSystem
