import Mathlib.Data.List.Basic

/-!
# Operations on a vector in place

A vector is the list of its elements. `resize` fills what it adds, `overwrite` writes into the
elements that are there, and `moveDown` copies elements to the front although source and target may
overlap. Growing, writing behind the old end and trimming is appending; moving down and trimming is
dropping.
-/

namespace VectorOps

variable {α : Type} (fill : α)

def resize (v : List α) (n : ℕ) : List α := v.take n ++ List.replicate (n - v.length) fill

def overwrite (v : List α) (i : ℕ) (xs : List α) : List α :=
  v.take i ++ xs ++ v.drop (i + xs.length)

def moveDown (v : List α) (i n : ℕ) : List α := overwrite v 0 ((v.drop i).take n)

variable {fill} {v xs : List α} {i : ℕ}

theorem length_resize (v : List α) (n : ℕ) : (resize fill v n).length = n := by
  rw [resize, List.length_append, List.length_take, List.length_replicate]
  omega

theorem resize_grow (k : ℕ) : resize fill v (v.length + k) = v ++ List.replicate k fill := by
  rw [resize, List.take_of_length_le (Nat.le_add_right _ _), Nat.add_sub_cancel_left]

theorem resize_append_left (w : List α) : resize fill (v ++ w) v.length = v := by
  rw [resize, List.take_left, List.length_append, Nat.sub_add_eq, Nat.sub_self, Nat.zero_sub]
  exact List.append_nil v

theorem overwrite_append (w : List α) :
    overwrite (v ++ w) v.length xs = v ++ xs ++ w.drop xs.length := by
  rw [overwrite, List.take_left, List.drop_length_add_append]

theorem resize_overwrite_resize (k : ℕ) :
    resize fill (overwrite (resize fill v (v.length + k)) v.length xs) (v.length + xs.length) =
      v ++ xs := by
  rw [resize_grow, overwrite_append, ← List.length_append, resize_append_left]

theorem resize_resize (k : ℕ) : resize fill (resize fill v (v.length + k)) v.length = v := by
  rw [resize_grow, resize_append_left]

theorem resize_moveDown :
    resize fill (moveDown v i (v.length - i)) (v.length - i) = v.drop i := by
  have hlength : (v.drop i).length = v.length - i := List.length_drop
  have hall : (v.drop i).take (v.length - i) = v.drop i := by rw [← hlength, List.take_length]
  rw [moveDown, hall, overwrite, List.take_zero, List.nil_append, ← hlength, resize_append_left]

end VectorOps
