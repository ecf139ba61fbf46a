import Mathlib.Data.List.Basic
import Mathlib.Data.Nat.ModEq
import Mathlib.Logic.Function.Basic
import Mathlib.Tactic.Common

/-!
# Circular buffers

A buffer of `size` cells is read at `tail` and written at `front`; both
indices run around it.  One cell is left unused, so that equal indices mean an
empty buffer.

* `ringContents` is the sequence a buffer stands for, oldest first;
* `ringContents_push` and `ringContents_pop` are the two operations on it;
* `ringCount_eq_zero_iff` and `ringCount_succ_eq_iff` are the two tests.
-/

namespace Simos.Library

variable {α : Type*} {size front tail : Nat}

def ringCount (size front tail : Nat) : Nat :=
  (front + size - tail) % size

def ringCells (size : Nat) (buff : Nat → α) (tail count : Nat) : List α :=
  (List.range count).map fun offset => buff ((tail + offset) % size)

/-- The stored sequence, oldest first. -/
def ringContents (size : Nat) (buff : Nat → α) (front tail : Nat) : List α :=
  ringCells size buff tail (ringCount size front tail)

/-! ## Indices -/

theorem ringNext_lt (inside : front < size) : (front + 1) % size < size :=
  Nat.mod_lt _ (by omega)

theorem ringNext_eq (inside : front < size) :
    (front + 1) % size = if front + 1 = size then 0 else front + 1 := by
  by_cases last : front + 1 = size
  · rw [if_pos last, last, Nat.mod_self]
  · rw [if_neg last]
    exact Nat.mod_eq_of_lt (by omega)

theorem ringCount_eq (frontInside : front < size) (tailInside : tail < size) :
    ringCount size front tail =
      if tail ≤ front then front - tail else front + size - tail := by
  unfold ringCount
  by_cases ordered : tail ≤ front
  · rw [if_pos ordered, show front + size - tail = front - tail + size by omega,
      Nat.add_mod_right]
    exact Nat.mod_eq_of_lt (by omega)
  · rw [if_neg ordered]
    exact Nat.mod_eq_of_lt (by omega)

theorem ringCount_lt (frontInside : front < size) (tailInside : tail < size) :
    ringCount size front tail < size := by
  rw [ringCount_eq frontInside tailInside]
  split <;> omega

/-- Equal indices are those of the empty buffer. -/
theorem ringCount_eq_zero_iff (frontInside : front < size)
    (tailInside : tail < size) :
    ringCount size front tail = 0 ↔ front = tail := by
  rw [ringCount_eq frontInside tailInside]
  split <;> omega

/-- The write index stands right before the read index when only the unused
cell is left. -/
theorem ringCount_succ_eq_iff (frontInside : front < size)
    (tailInside : tail < size) :
    ringCount size front tail + 1 = size ↔ (front + 1) % size = tail := by
  rw [ringCount_eq frontInside tailInside, ringNext_eq frontInside]
  split <;> split <;> omega

theorem ringCount_push (frontInside : front < size) (tailInside : tail < size)
    (notFull : (front + 1) % size ≠ tail) :
    ringCount size ((front + 1) % size) tail =
      ringCount size front tail + 1 := by
  rw [ringCount_eq (ringNext_lt frontInside) tailInside,
    ringCount_eq frontInside tailInside]
  rw [ringNext_eq frontInside] at notFull ⊢
  by_cases last : front + 1 = size
  · simp only [if_pos last] at notFull ⊢
    split <;> split <;> omega
  · simp only [if_neg last] at notFull ⊢
    split <;> split <;> omega

theorem ringCount_pop (frontInside : front < size) (tailInside : tail < size)
    (notEmpty : front ≠ tail) :
    ringCount size front tail =
      ringCount size front ((tail + 1) % size) + 1 := by
  rw [ringCount_eq frontInside (ringNext_lt tailInside),
    ringCount_eq frontInside tailInside, ringNext_eq tailInside]
  split <;> split <;> split <;> omega

theorem ringFront_eq (frontInside : front < size) (tailInside : tail < size) :
    (tail + ringCount size front tail) % size = front := by
  rw [ringCount_eq frontInside tailInside]
  by_cases ordered : tail ≤ front
  · rw [if_pos ordered, show tail + (front - tail) = front by omega]
    exact Nat.mod_eq_of_lt frontInside
  · rw [if_neg ordered,
      show tail + (front + size - tail) = front + size by omega,
      Nat.add_mod_right]
    exact Nat.mod_eq_of_lt frontInside

theorem ringCell_ne {left right : Nat} (leftInside : left < size)
    (rightInside : right < size) (different : left ≠ right) :
    (tail + left) % size ≠ (tail + right) % size := by
  intro same
  have congruent : left ≡ right [MOD size] :=
    Nat.ModEq.add_left_cancel' tail same
  exact different (congruent.eq_of_lt_of_lt leftInside rightInside)

/-! ## Contents -/

@[simp]
theorem ringContents_length (buff : Nat → α) :
    (ringContents size buff front tail).length =
      ringCount size front tail := by
  simp [ringContents, ringCells]

/-- A cell written behind the stored ones does not change them. -/
theorem ringCells_update {buff : Nat → α} {count offset : Nat} (value : α)
    (inside : offset < size) (behind : count ≤ offset) :
    ringCells size (Function.update buff ((tail + offset) % size) value) tail
      count = ringCells size buff tail count := by
  refine List.map_congr_left ?_
  intro earlier member
  have bound : earlier < count := List.mem_range.mp member
  exact Function.update_of_ne
    (ringCell_ne (by omega) inside (by omega)) _ _

/-- A value written to a buffer that is not full is the newest one. -/
theorem ringContents_push {buff : Nat → α} {value : α}
    (frontInside : front < size) (tailInside : tail < size)
    (notFull : (front + 1) % size ≠ tail) :
    ringContents size (Function.update buff front value)
        ((front + 1) % size) tail =
      ringContents size buff front tail ++ [value] := by
  have place := ringFront_eq frontInside tailInside
  have bound := ringCount_lt frontInside tailInside
  unfold ringContents
  rw [ringCount_push frontInside tailInside notFull]
  generalize ringCount size front tail = count at place bound
  subst place
  rw [← ringCells_update value bound (Nat.le_refl count)]
  simp [ringCells, List.range_succ]

/-- The value read from a buffer that is not empty is the oldest one. -/
theorem ringContents_pop {buff : Nat → α} (frontInside : front < size)
    (tailInside : tail < size) (notEmpty : front ≠ tail) :
    ringContents size buff front tail =
      buff tail :: ringContents size buff front ((tail + 1) % size) := by
  unfold ringContents
  rw [ringCount_pop frontInside tailInside notEmpty]
  unfold ringCells
  rw [List.range_succ_eq_map, List.map_cons, List.map_map, Nat.add_zero,
    Nat.mod_eq_of_lt tailInside]
  congr 1
  refine List.map_congr_left ?_
  intro offset _
  simp only [Function.comp_apply, Nat.mod_add_mod]
  congr 2
  omega

end Simos.Library
