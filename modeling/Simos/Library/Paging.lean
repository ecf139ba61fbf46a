import Simos.Library.ByteMemory

/-!
# Two-level paging of a 32-bit processor

An entry is a 32-bit word: bit 0 says that it is present, bits 1 and 2 that
the page may be written and used by programs, and the bits from 12 on give the
frame.  A walk takes the directory entry of an address and then the entry of
the page table that it points at; pages of 4 MiB are switched off.
-/

namespace Simos.Library

structure PageMapping where
  frame : Nat
  writable : Bool
  user : Bool
  deriving DecidableEq, Repr

/-- The word of an entry whose three low bits are set. -/
def fullEntry (frame : Nat) : Nat :=
  4096 * frame + 7

/-- Such an entry, with or without the marks that the processor sets in it: bit
5 when it is used, and bit 6 when its page is written. -/
def MarkedEntry (entry frame : Nat) : Prop :=
  ∃ marks, marks < 4 ∧ entry = fullEntry frame + 32 * marks

def walk (memory : ByteMemory) (directory address : Nat) :
    Option PageMapping :=
  let pde := memory.loadWord (directory + 4 * (address / 4194304))
  if pde % 2 = 0 then
    none
  else
    let pte := memory.loadWord
      (pde / 4096 * 4096 + 4 * (address / 4096 % 1024))
    if pte % 2 = 0 then
      none
    else
      some
        { frame := pte / 4096
          writable := pde / 2 % 2 = 1 ∧ pte / 2 % 2 = 1
          user := pde / 4 % 2 = 1 ∧ pte / 4 % 2 = 1 }

def translateAddr (memory : ByteMemory) (directory address : Nat) : Option Nat :=
  (walk memory directory address).map fun mapping =>
    4096 * mapping.frame + address % 4096

variable {memory : ByteMemory} {directory address frame table : Nat}

theorem walk_of_absent_table
    (absent : memory.loadWord (directory + 4 * (address / 4194304)) = 0) :
    walk memory directory address = none := by
  simp [walk, absent]

namespace MarkedEntry

variable {entry : Nat}

theorem full (frame : Nat) : MarkedEntry (fullEntry frame) frame :=
  ⟨0, by decide, rfl⟩

theorem frame_eq (marked : MarkedEntry entry frame) :
    entry / 4096 = frame := by
  obtain ⟨marks, few, rfl⟩ := marked
  unfold fullEntry
  omega

theorem frame_mul (marked : MarkedEntry entry frame) :
    entry / 4096 * 4096 = 4096 * frame := by
  rw [marked.frame_eq, Nat.mul_comm]

theorem bits (marked : MarkedEntry entry frame) :
    entry % 2 = 1 ∧ entry / 2 % 2 = 1 ∧ entry / 4 % 2 = 1 := by
  obtain ⟨marks, few, rfl⟩ := marked
  unfold fullEntry
  omega

theorem or (marked : MarkedEntry entry frame) {marks : Nat} (few : marks < 4) :
    MarkedEntry (entry ||| 32 * marks) frame := by
  obtain ⟨before, fewBefore, rfl⟩ := marked
  have low : ∀ bits, bits < 4096 →
      4096 * frame ||| bits = 4096 * frame + bits := by
    intro bits small
    exact (@Nat.two_pow_add_eq_or_of_lt 12 bits small frame).symm
  have both : ∀ first, first < 4 → ∀ second, second < 4 →
      (7 + 32 * first) ||| 32 * second = 7 + 32 * (first ||| second) := by
    decide
  have small : before ||| marks < 4 := Nat.or_lt_two_pow (n := 2) fewBefore few
  refine ⟨before ||| marks, small, ?_⟩
  rw [fullEntry, Nat.add_assoc, ← low _ (by omega), Nat.or_assoc,
    both before fewBefore marks few, low _ (by omega), Nat.add_assoc]

end MarkedEntry

theorem walk_of_table
    (entry : memory.loadWord (directory + 4 * (address / 4194304)) =
      fullEntry table) :
    walk memory directory address =
      let pte := memory.loadWord
        (4096 * table + 4 * (address / 4096 % 1024))
      if pte % 2 = 0 then
        none
      else
        some ⟨pte / 4096, decide (pte / 2 % 2 = 1),
          decide (pte / 4 % 2 = 1)⟩ := by
  have present : fullEntry table % 2 ≠ 0 := by
    unfold fullEntry
    omega
  have frameOf : fullEntry table / 4096 * 4096 = 4096 * table := by
    unfold fullEntry
    omega
  have writable : fullEntry table / 2 % 2 = 1 := by
    unfold fullEntry
    omega
  have user : fullEntry table / 4 % 2 = 1 := by
    unfold fullEntry
    omega
  simp only [walk, entry, if_neg present, frameOf, writable, user, true_and]

theorem walk_of_marked
    (entry : MarkedEntry
      (memory.loadWord (directory + 4 * (address / 4194304))) table)
    (page : MarkedEntry
      (memory.loadWord (4096 * table + 4 * (address / 4096 % 1024))) frame) :
    walk memory directory address = some ⟨frame, true, true⟩ := by
  have present := entry.bits
  have found := page.bits
  have frameOf := entry.frame_mul
  simp only [walk, present.1, frameOf, found.1, page.frame_eq, present.2,
    found.2, one_ne_zero, if_false, decide_true, and_self]

theorem walk_of_full
    (entry : memory.loadWord (directory + 4 * (address / 4194304)) =
      fullEntry table)
    (page : memory.loadWord (4096 * table + 4 * (address / 4096 % 1024)) =
      fullEntry frame) :
    walk memory directory address = some ⟨frame, true, true⟩ := by
  apply walk_of_marked
  · rw [entry]
    exact .full table
  · rw [page]
    exact .full frame

theorem walk_eq_none_iff
    (entry : memory.loadWord (directory + 4 * (address / 4194304)) =
      fullEntry table) :
    walk memory directory address = none ↔
      memory.loadWord (4096 * table + 4 * (address / 4096 % 1024)) % 2 =
        0 := by
  rw [walk_of_table entry]
  by_cases absent :
      memory.loadWord (4096 * table + 4 * (address / 4096 % 1024)) % 2 = 0
  · simp [absent]
  · simp [absent]

end Simos.Library
