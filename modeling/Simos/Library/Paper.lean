import Mathlib.Data.Finset.Card
import Mathlib.Tactic.Common

/-!
# A scrolling text screen as a window on a paper

Text is written on a paper without an end, with `columns` cells in a row; the
screen is the window of `rows` rows from `top` on, and moves down when the
position leaves it.  The paper keeps what has scrolled away, so that one can
say which cells have been filled.

* `Paper` with `print`, `newRow` and `erase`;
* `Paper.Wf` says that the position is in the window;
* `print_card` says that every glyph gets a cell of its own.
-/

namespace Simos.Library

/-- The row at the top of the window, the position, the cells, and those that
are filled. -/
structure Paper (Cell : Type) where
  top : Nat
  pos : Nat
  cell : Nat → Cell
  filled : Finset Nat

namespace Paper

variable {Cell : Type} (columns rows : Nat)

def cursor (paper : Paper Cell) : Nat :=
  paper.pos - columns * paper.top

def goto (paper : Paper Cell) (pos : Nat) : Paper Cell :=
  { paper with
    pos
    top := if pos < columns * (paper.top + rows) then paper.top
      else paper.top + 1 }

def print (paper : Paper Cell) (glyph : Cell) : Paper Cell :=
  goto columns rows
    { paper with
      cell := Function.update paper.cell paper.pos glyph
      filled := insert paper.pos paper.filled }
    (paper.pos + 1)

def newRow (paper : Paper Cell) : Paper Cell :=
  goto columns rows paper ((paper.pos / columns + 1) * columns)

/-- The last cell is erased; at the top of the window there is none. -/
def erase (paper : Paper Cell) (space : Cell) : Option (Paper Cell) :=
  if columns * paper.top < paper.pos then
    some { paper with
      pos := paper.pos - 1
      cell := Function.update paper.cell (paper.pos - 1) space
      filled := paper.filled.erase (paper.pos - 1) }
  else none

/-- The position is in the window, the filled cells are before it, and the
cells below the window are blank. -/
structure Wf (blank : Cell) (paper : Paper Cell) : Prop where
  low : columns * paper.top ≤ paper.pos
  high : paper.pos < columns * (paper.top + rows)
  filled_lt : ∀ pos ∈ paper.filled, pos < paper.pos
  beyond : ∀ pos, columns * (paper.top + rows) ≤ pos → paper.cell pos = blank

section Operations

variable {columns rows} {blank : Cell} {paper : Paper Cell}

theorem wf_goto (someColumn : 0 < columns) (someRow : 0 < rows) {pos : Nat}
    (low : columns * paper.top ≤ pos)
    (near : pos ≤ columns * (paper.top + rows))
    (filled_lt : ∀ tested ∈ paper.filled, tested < pos)
    (beyond : ∀ tested, columns * (paper.top + rows) ≤ tested →
      paper.cell tested = blank) :
    (paper.goto columns rows pos).Wf columns rows blank := by
  have next : columns * (paper.top + rows + 1) =
      columns * (paper.top + rows) + columns := Nat.mul_succ ..
  have window : columns * (paper.top + 1) ≤ columns * (paper.top + rows) :=
    Nat.mul_le_mul_left _ (by omega)
  have sameRow : columns * (paper.top + 1 + rows) =
      columns * (paper.top + rows + 1) := by
    rw [Nat.add_right_comm]
  by_cases inside : pos < columns * (paper.top + rows)
  · simp only [Paper.goto, if_pos inside]
    exact ⟨low, inside, filled_lt, beyond⟩
  · simp only [Paper.goto, if_neg inside]
    refine ⟨by simp only; omega, by simp only; omega, filled_lt, ?_⟩
    intro tested below
    exact beyond tested (by simp only at below; omega)

theorem Wf.print (wf : paper.Wf columns rows blank) (someColumn : 0 < columns)
    (someRow : 0 < rows) (glyph : Cell) :
    (paper.print columns rows glyph).Wf columns rows blank := by
  have low := wf.low
  have high := wf.high
  apply wf_goto someColumn someRow
  · simp only
    omega
  · exact high
  · intro tested member
    rcases Finset.mem_insert.mp member with here | earlier
    · omega
    · have before := wf.filled_lt tested earlier
      omega
  · intro tested below
    simp only at below
    simp only [Function.update_of_ne (show tested ≠ paper.pos by omega)]
    exact wf.beyond tested below

theorem Wf.newRow (wf : paper.Wf columns rows blank)
    (someColumn : 0 < columns) (someRow : 0 < rows) :
    (paper.newRow columns rows).Wf columns rows blank := by
  have low := wf.low
  have inWindow : paper.pos / columns < paper.top + rows :=
    Nat.div_lt_of_lt_mul wf.high
  have forward : paper.pos < (paper.pos / columns + 1) * columns :=
    Nat.lt_mul_of_div_lt (Nat.lt_succ_self _) someColumn
  apply wf_goto someColumn someRow
  · omega
  · rw [Nat.mul_comm]
    exact Nat.mul_le_mul_left _ inWindow
  · intro tested member
    exact (wf.filled_lt tested member).trans forward
  · exact wf.beyond

theorem Wf.erase (wf : paper.Wf columns rows blank) {space : Cell}
    {erased : Paper Cell} (erases : paper.erase columns space = some erased) :
    erased.Wf columns rows blank := by
  have high := wf.high
  simp only [Paper.erase, Option.ite_none_right_eq_some,
    Option.some.injEq] at erases
  obtain ⟨some, rfl⟩ := erases
  constructor
  case low =>
    simp only
    omega
  case high =>
    simp only
    omega
  case filled_lt =>
    intro tested member
    obtain ⟨different, member⟩ := Finset.mem_erase.mp member
    have before := wf.filled_lt tested member
    simp only
    omega
  case beyond =>
    intro tested below
    simp only at below
    simp only [Function.update_of_ne (show tested ≠ paper.pos - 1 by omega)]
    exact wf.beyond tested below

theorem Wf.print_card (wf : paper.Wf columns rows blank) (glyph : Cell) :
    (paper.print columns rows glyph).filled.card = paper.filled.card + 1 := by
  apply Finset.card_insert_of_notMem
  intro member
  exact absurd (wf.filled_lt paper.pos member) (Nat.lt_irrefl _)

end Operations

end Paper

end Simos.Library
