import Mathlib.Data.Nat.ModEq
import Mathlib.Tactic.Common

/-!
# Byte memory with 32-bit words

A memory gives a byte to every address.  Words are stored little endian.
The frame lemmas say that a store or a fill is seen inside its range only;
`loadWord_congr` moves a word between memories that agree on its four bytes.
-/

namespace Simos.Library

@[ext]
structure ByteMemory where
  byte : Nat → BitVec 8

namespace ByteMemory

def storeByte (memory : ByteMemory) (address : Nat) (value : BitVec 8) :
    ByteMemory where
  byte tested := if tested = address then value else memory.byte tested

/-- The memory with `count` bytes from `start` on set to `value`. -/
def fill (memory : ByteMemory) (start : Nat) (value : BitVec 8) (count : Nat) :
    ByteMemory where
  byte tested :=
    if start ≤ tested ∧ tested < start + count then value
    else memory.byte tested

def loadWord (memory : ByteMemory) (address : Nat) : Nat :=
  (memory.byte address).toNat + 256 * (memory.byte (address + 1)).toNat +
    65536 * (memory.byte (address + 2)).toNat +
    16777216 * (memory.byte (address + 3)).toNat

def storeWord (memory : ByteMemory) (address value : Nat) : ByteMemory where
  byte tested :=
    if tested = address then BitVec.ofNat 8 value
    else if tested = address + 1 then BitVec.ofNat 8 (value / 256)
    else if tested = address + 2 then BitVec.ofNat 8 (value / 65536)
    else if tested = address + 3 then BitVec.ofNat 8 (value / 16777216)
    else memory.byte tested

variable (memory : ByteMemory)

theorem byte_storeByte (address tested : Nat) (value : BitVec 8) :
    (memory.storeByte address value).byte tested =
      if tested = address then value else memory.byte tested :=
  rfl

theorem byte_fill (start count tested : Nat) (value : BitVec 8) :
    (memory.fill start value count).byte tested =
      if start ≤ tested ∧ tested < start + count then value
      else memory.byte tested :=
  rfl

theorem byte_storeWord_of_outside {address tested : Nat} (value : Nat)
    (outside : tested < address ∨ address + 4 ≤ tested) :
    (memory.storeWord address value).byte tested = memory.byte tested := by
  simp only [storeWord]
  rw [if_neg (by omega), if_neg (by omega), if_neg (by omega),
    if_neg (by omega)]

variable {memory}

/-- A word is determined by its four bytes. -/
theorem loadWord_congr {other : ByteMemory} {address : Nat}
    (agree : ∀ offset, offset < 4 →
      other.byte (address + offset) = memory.byte (address + offset)) :
    other.loadWord address = memory.loadWord address := by
  have first := agree 0 (by omega)
  have second := agree 1 (by omega)
  have third := agree 2 (by omega)
  have fourth := agree 3 (by omega)
  simp only [Nat.add_zero] at first
  unfold loadWord
  rw [first, second, third, fourth]

theorem loadWord_lt (memory : ByteMemory) (address : Nat) :
    memory.loadWord address < 4294967296 := by
  have first := (memory.byte address).isLt
  have second := (memory.byte (address + 1)).isLt
  have third := (memory.byte (address + 2)).isLt
  have fourth := (memory.byte (address + 3)).isLt
  unfold loadWord
  omega

@[simp]
theorem loadWord_storeWord_self (memory : ByteMemory) (address : Nat)
    {value : Nat} (bound : value < 4294967296) :
    (memory.storeWord address value).loadWord address = value := by
  simp only [loadWord, storeWord]
  simp only [Nat.add_right_cancel_iff, if_true, Nat.left_eq_add,
    Nat.add_eq_left]
  simp
  omega

theorem loadWord_storeWord_of_disjoint (memory : ByteMemory)
    {address tested : Nat} (value : Nat)
    (disjoint : tested + 4 ≤ address ∨ address + 4 ≤ tested) :
    (memory.storeWord address value).loadWord tested =
      memory.loadWord tested :=
  loadWord_congr fun offset small =>
    memory.byte_storeWord_of_outside value (by omega)

theorem loadWord_fill_of_disjoint (memory : ByteMemory)
    {start count tested : Nat} (value : BitVec 8)
    (disjoint : tested + 4 ≤ start ∨ start + count ≤ tested) :
    (memory.fill start value count).loadWord tested =
      memory.loadWord tested := by
  apply loadWord_congr
  intro offset small
  rw [byte_fill, if_neg (by omega)]

theorem loadWord_storeByte_of_outside (memory : ByteMemory)
    {address tested : Nat} (value : BitVec 8)
    (outside : address < tested ∨ tested + 4 ≤ address) :
    (memory.storeByte address value).loadWord tested =
      memory.loadWord tested := by
  apply loadWord_congr
  intro offset small
  rw [byte_storeByte, if_neg (by omega)]

theorem loadWord_fill_zero (memory : ByteMemory) {start count tested : Nat}
    (inside : start ≤ tested ∧ tested + 4 ≤ start + count) :
    (memory.fill start 0 count).loadWord tested = 0 := by
  have byteZero : ∀ offset, offset < 4 →
      (memory.fill start 0 count).byte (tested + offset) = 0 := by
    intro offset small
    rw [byte_fill, if_pos (by omega)]
  have first := byteZero 0 (by omega)
  rw [Nat.add_zero] at first
  unfold loadWord
  rw [first, byteZero 1 (by omega), byteZero 2 (by omega),
    byteZero 3 (by omega)]
  rfl

/-- `count` words stored one after the other from `base` on. -/
def storeWords (memory : ByteMemory) (base : Nat) (value : Nat → Nat) :
    Nat → ByteMemory
  | 0 => memory
  | count + 1 =>
      (memory.storeWords base value count).storeWord (base + 4 * count)
        (value count)

theorem loadWord_storeWords_of_disjoint (memory : ByteMemory)
    {base count tested : Nat} (value : Nat → Nat)
    (disjoint : tested + 4 ≤ base ∨ base + 4 * count ≤ tested) :
    (memory.storeWords base value count).loadWord tested =
      memory.loadWord tested := by
  induction count with
  | zero =>
      rfl
  | succ count inductionHypothesis =>
      rw [storeWords, loadWord_storeWord_of_disjoint _ _ (by omega)]
      exact inductionHypothesis (by omega)

theorem loadWord_storeWords (memory : ByteMemory) {base count index : Nat}
    (value : Nat → Nat) (inside : index < count)
    (bound : value index < 4294967296) :
    (memory.storeWords base value count).loadWord (base + 4 * index) =
      value index := by
  induction count with
  | zero =>
      exact absurd inside (Nat.not_lt_zero index)
  | succ count inductionHypothesis =>
      rw [storeWords]
      by_cases last : index = count
      · rw [last] at bound ⊢
        exact loadWord_storeWord_self _ _ bound
      · rw [loadWord_storeWord_of_disjoint _ _ (by omega)]
        exact inductionHypothesis (by omega)

end ByteMemory

end Simos.Library
