import Mathlib.Data.Nat.ModEq
import Mathlib.Logic.Function.Basic

/-!
# Bits packed into the cells of an array

Bit `i` of an array of `width`-bit cells is bit `i % width` of cell
`i / width`.  The module gives the read and write of one bit and the two
facts an array needs: a write is seen at its own index and at no other one.
-/

namespace Simos.Library

variable {width : Nat}

def getBit (cells : Nat → BitVec width) (index : Nat) : Bool :=
  (cells (index / width)).getLsbD (index % width)

/-- The cell with one bit set or cleared through a one-bit mask. -/
def writeMask (cell : BitVec width) (position : Nat) (value : Bool) :
    BitVec width :=
  if value then
    cell ||| (BitVec.ofNat width 1) <<< position
  else
    cell &&& ~~~((BitVec.ofNat width 1) <<< position)

def setBit (cells : Nat → BitVec width) (index : Nat) (value : Bool) :
    Nat → BitVec width :=
  Function.update cells (index / width)
    (writeMask (cells (index / width)) (index % width) value)

private theorem getLsbD_mask {position : Nat} (inside : position < width)
    (tested : Nat) :
    ((BitVec.ofNat width 1) <<< position).getLsbD tested = decide (tested = position) := by
  by_cases same : tested = position
  · subst tested
    simp [inside]
  · by_cases low : tested < position
    · simp [same, low]
    · have apart : tested - position ≠ 0 := by omega
      simp [same, apart]

theorem and_mask_ne_zero_iff {position : Nat} (cell : BitVec width)
    (inside : position < width) :
    cell &&& (BitVec.ofNat width 1) <<< position ≠ BitVec.ofNat width 0 ↔
      cell.getLsbD position = true := by
  constructor
  · intro nonzero
    by_contra clear
    apply nonzero
    apply BitVec.eq_of_getLsbD_eq
    intro tested _
    rw [BitVec.getLsbD_and, getLsbD_mask inside]
    by_cases same : tested = position
    · subst tested
      simpa using clear
    · simp [same]
  · intro present equal
    have read := congrArg (fun cell => cell.getLsbD position) equal
    simp only [BitVec.getLsbD_and, getLsbD_mask inside, present] at read
    simp at read

theorem getLsbD_writeMask {position : Nat} (cell : BitVec width)
    (inside : position < width) (value : Bool) (tested : Nat)
    (bound : tested < width) :
    (writeMask cell position value).getLsbD tested =
      if tested = position then value else cell.getLsbD tested := by
  cases value with
  | true =>
      by_cases same : tested = position
      · simp [writeMask, getLsbD_mask inside, same]
      · simp [writeMask, getLsbD_mask inside, same]
  | false =>
      by_cases same : tested = position
      · simp only [writeMask, Bool.false_eq_true, if_false,
          BitVec.getLsbD_and, BitVec.getLsbD_not, getLsbD_mask inside, same]
        simp
      · simp only [writeMask, Bool.false_eq_true, if_false,
          BitVec.getLsbD_and, BitVec.getLsbD_not, getLsbD_mask inside, same]
        simp [bound]

theorem getBit_setBit (cells : Nat → BitVec width) (positive : 0 < width)
    (written tested : Nat) (value : Bool) :
    getBit (setBit cells written value) tested =
      if tested = written then value else getBit cells tested := by
  have inside : written % width < width := Nat.mod_lt written positive
  have bound : tested % width < width := Nat.mod_lt tested positive
  unfold getBit setBit
  by_cases sameCell : tested / width = written / width
  · rw [sameCell, Function.update_self, getLsbD_writeMask _ inside value _ bound]
    have sameBit : tested % width = written % width ↔ tested = written := by
      constructor
      · intro equal
        rw [← Nat.div_add_mod tested width, ← Nat.div_add_mod written width,
          sameCell, equal]
      · intro equal
        rw [equal]
    simp only [sameBit]
  · have different : tested ≠ written := by
      intro equal
      exact sameCell (by rw [equal])
    rw [Function.update_of_ne sameCell, if_neg different]

end Simos.Library
