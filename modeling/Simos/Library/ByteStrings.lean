import Simos.Library.ByteMemory

/-!
# Strings of bytes in memory

`Holds` says which bytes stand at an address, and `CString` that a string with
its terminating zero does.  `storeBytes` writes bytes one after the other;
what a later write covers does not depend on an earlier one.
-/

namespace Simos.Library

namespace ByteMemory

/-- The bytes stand in memory from an address on. -/
def Holds (memory : ByteMemory) : Nat → List (BitVec 8) → Prop
  | _, [] => True
  | address, value :: rest =>
      memory.byte address = value ∧ memory.Holds (address + 1) rest

def storeBytes (memory : ByteMemory) (address : Nat) :
    List (BitVec 8) → ByteMemory
  | [] => memory
  | value :: rest =>
      (memory.storeByte address value).storeBytes (address + 1) rest

/-- A string that ends with the first zero byte, inside the address space. -/
structure CString (memory : ByteMemory) (address : Nat)
    (text : List (BitVec 8)) : Prop where
  holds : memory.Holds address (text ++ [0])
  nonzero : 0 ∉ text
  inSpace : address + text.length < 4294967296

variable {memory : ByteMemory} {address : Nat} {text : List (BitVec 8)}

theorem Holds.byte_eq (holds : memory.Holds address text) {index : Nat}
    (inside : index < text.length) :
    memory.byte (address + index) = text[index] := by
  induction text generalizing address index with
  | nil =>
      exact absurd inside (Nat.not_lt_zero index)
  | cons value rest inductionHypothesis =>
      cases index with
      | zero =>
          exact holds.1
      | succ index =>
          have later := inductionHypothesis holds.2
            (Nat.lt_of_succ_lt_succ inside)
          rw [Nat.add_assoc, Nat.add_comm 1 index] at later
          exact later

theorem Holds.congr {other : ByteMemory} (holds : memory.Holds address text)
    (agree : ∀ index, index < text.length →
      other.byte (address + index) = memory.byte (address + index)) :
    other.Holds address text := by
  induction text generalizing address with
  | nil =>
      exact True.intro
  | cons value rest inductionHypothesis =>
      constructor
      · rw [← holds.1]
        exact agree 0 (Nat.succ_pos _)
      · apply inductionHypothesis holds.2
        intro index inside
        have later := agree (index + 1) (Nat.succ_lt_succ inside)
        rw [Nat.add_comm index 1, ← Nat.add_assoc] at later
        exact later

theorem holds_append {first second : List (BitVec 8)} :
    memory.Holds address (first ++ second) ↔
      memory.Holds address first ∧
        memory.Holds (address + first.length) second := by
  induction first generalizing address with
  | nil =>
      simp [Holds]
  | cons value rest inductionHypothesis =>
      rw [List.cons_append, Holds, Holds, inductionHypothesis, and_assoc,
        List.length_cons, Nat.add_assoc, Nat.add_comm 1]

theorem byte_storeBytes_of_outside {tested : Nat}
    (outside : tested < address ∨ address + text.length ≤ tested) :
    (memory.storeBytes address text).byte tested = memory.byte tested := by
  induction text generalizing memory address with
  | nil =>
      rfl
  | cons value rest inductionHypothesis =>
      rw [List.length_cons] at outside
      rw [storeBytes, inductionHypothesis (by omega), byte_storeByte,
        if_neg (by omega)]

theorem holds_storeBytes (memory : ByteMemory) (address : Nat)
    (text : List (BitVec 8)) :
    (memory.storeBytes address text).Holds address text := by
  induction text generalizing memory address with
  | nil =>
      exact True.intro
  | cons value rest inductionHypothesis =>
      refine ⟨?_, inductionHypothesis _ _⟩
      rw [storeBytes, byte_storeBytes_of_outside (by omega), byte_storeByte,
        if_pos rfl]

theorem storeBytes_append (memory : ByteMemory) (address : Nat)
    (first second : List (BitVec 8)) :
    memory.storeBytes address (first ++ second) =
      (memory.storeBytes address first).storeBytes (address + first.length)
        second := by
  induction first generalizing memory address with
  | nil =>
      rfl
  | cons value rest inductionHypothesis =>
      rw [List.cons_append, storeBytes, storeBytes, inductionHypothesis,
        List.length_cons, Nat.add_assoc, Nat.add_comm 1]

/-- A write covers an earlier one at the same place that is not longer. -/
theorem storeBytes_covers (memory : ByteMemory) (address : Nat)
    {earlier later : List (BitVec 8)}
    (covers : earlier.length ≤ later.length) :
    (memory.storeBytes address earlier).storeBytes address later =
      memory.storeBytes address later := by
  ext1
  funext tested
  by_cases outside : tested < address ∨ address + later.length ≤ tested
  · rw [byte_storeBytes_of_outside outside,
      byte_storeBytes_of_outside outside,
      byte_storeBytes_of_outside (by omega)]
  · obtain ⟨index, rfl⟩ : ∃ index, tested = address + index :=
      ⟨tested - address, by omega⟩
    have inside : index < later.length := by omega
    rw [(holds_storeBytes _ address later).byte_eq inside,
      (holds_storeBytes _ address later).byte_eq inside]

theorem CString.congr {other : ByteMemory}
    (string : memory.CString address text)
    (agree : ∀ index, index ≤ text.length →
      other.byte (address + index) = memory.byte (address + index)) :
    other.CString address text where
  holds := by
    apply string.holds.congr
    intro index inside
    rw [List.length_append, List.length_singleton] at inside
    exact agree index (Nat.le_of_lt_succ inside)
  nonzero := string.nonzero
  inSpace := string.inSpace

theorem CString.terminator (string : memory.CString address text) :
    memory.byte (address + text.length) = 0 :=
  (holds_append.mp string.holds).2.1

theorem CString.tail {value : BitVec 8}
    (string : memory.CString address (value :: text)) :
    memory.CString (address + 1) text where
  holds := string.holds.2
  nonzero := fun member =>
    string.nonzero (List.mem_cons_of_mem value member)
  inSpace := by
    have inSpace := string.inSpace
    rw [List.length_cons] at inSpace
    omega

theorem CString.head {value : BitVec 8}
    (string : memory.CString address (value :: text)) :
    memory.byte address = value :=
  string.holds.1

end ByteMemory

end Simos.Library
