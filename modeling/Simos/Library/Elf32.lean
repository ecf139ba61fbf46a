import Mathlib.Data.List.Induction
import Simos.Library.ByteMemory

/-!
# Executable files in the ELF format with 32-bit words

A file is its bytes by their offsets.  The header tells where the program
headers stand, how long one is and how many there are; each of them names a
range of the file and the address it is for.

* `loadSegments` is a memory image with segments laid over it, one after the
  other;
* `loadSegments_of_not_covered` and `loadSegments_of_agree` read it back.
-/

namespace Simos.Library.Elf32

def half (file : Nat → BitVec 8) (offset : Nat) : Nat :=
  (file offset).toNat + 256 * (file (offset + 1)).toNat

def word (file : Nat → BitVec 8) (offset : Nat) : Nat :=
  (file offset).toNat + 256 * (file (offset + 1)).toNat +
    65536 * (file (offset + 2)).toNat + 16777216 * (file (offset + 3)).toNat

def phoff (file : Nat → BitVec 8) : Nat :=
  word file 28

def phentsize (file : Nat → BitVec 8) : Nat :=
  half file 42

def phnum (file : Nat → BitVec 8) : Nat :=
  half file 44

structure ProgramHeader where
  type : Nat
  offset : Nat
  vaddr : Nat
  filesz : Nat
  deriving DecidableEq, Repr

def headerOffset (file : Nat → BitVec 8) (index : Nat) : Nat :=
  phoff file + index * phentsize file

def programHeader (file : Nat → BitVec 8) (index : Nat) : ProgramHeader where
  type := word file (headerOffset file index)
  offset := word file (headerOffset file index + 4)
  vaddr := word file (headerOffset file index + 8)
  filesz := word file (headerOffset file index + 16)

def ProgramHeader.Covers (segment : ProgramHeader) (address : Nat) : Prop :=
  segment.vaddr ≤ address ∧ address < segment.vaddr + segment.filesz

instance (segment : ProgramHeader) (address : Nat) :
    Decidable (segment.Covers address) :=
  inferInstanceAs (Decidable (_ ∧ _))

theorem ProgramHeader.covers_iff (segment : ProgramHeader) (address : Nat) :
    segment.Covers address ↔
      segment.vaddr ≤ address ∧ address < segment.vaddr + segment.filesz :=
  Iff.rfl

/-- An image with a segment laid over it. -/
def loadSegment (file : Nat → BitVec 8) (image : Nat → BitVec 8)
    (segment : ProgramHeader) : Nat → BitVec 8 :=
  fun address =>
    if segment.Covers address then
      file (segment.offset + (address - segment.vaddr))
    else
      image address

/-- An image with segments laid over it, one after the other. -/
def loadSegments (file : Nat → BitVec 8) (image : Nat → BitVec 8)
    (segments : List ProgramHeader) : Nat → BitVec 8 :=
  segments.foldl (loadSegment file) image

section Load

variable {file image : Nat → BitVec 8} {segments : List ProgramHeader}
  {segment : ProgramHeader} {address : Nat}

theorem loadSegments_append (later : List ProgramHeader) :
    loadSegments file image (segments ++ later) =
      loadSegments file (loadSegments file image segments) later :=
  List.foldl_append

/-- An address outside of all segments keeps its byte. -/
theorem loadSegments_of_not_covered
    (outside : ∀ segment ∈ segments, ¬ segment.Covers address) :
    loadSegments file image segments address = image address := by
  induction segments generalizing image with
  | nil => rfl
  | cons segment segments inductionHypothesis =>
      have own := outside segment List.mem_cons_self
      have rest := @inductionHypothesis (loadSegment file image segment)
        fun other member => outside other (List.mem_cons_of_mem segment member)
      rw [loadSegments, List.foldl_cons]
      exact rest.trans (if_neg own)

/-- Segments that cover the same address have the same byte for it. -/
def Agree (file : Nat → BitVec 8) (segments : List ProgramHeader) : Prop :=
  ∀ first ∈ segments, ∀ second ∈ segments, ∀ address,
    first.Covers address → second.Covers address →
    file (first.offset + (address - first.vaddr)) =
      file (second.offset + (address - second.vaddr))

/-- Each of several segments that agree is there as a whole. -/
theorem loadSegments_of_agree (agree : Agree file segments)
    (member : segment ∈ segments) (covers : segment.Covers address) :
    loadSegments file image segments address =
      file (segment.offset + (address - segment.vaddr)) := by
  induction segments using List.reverseRecOn with
  | nil => exact absurd member List.not_mem_nil
  | append_singleton segments last inductionHypothesis =>
      rw [loadSegments_append]
      show loadSegment file (loadSegments file image segments) last address = _
      have final : last ∈ segments ++ [last] :=
        List.mem_append_right segments (List.mem_singleton_self last)
      by_cases covered : last.Covers address
      · rw [loadSegment, if_pos covered]
        exact agree last final segment member address covered covers
      · have before : segment ∈ segments := by
          rcases List.mem_append.mp member with before | equal
          · exact before
          · rw [List.mem_singleton.mp equal] at covers
            exact absurd covers covered
        have agree' : Agree file segments := fun first first' second second' =>
          agree first (List.mem_append_left [last] first') second
            (List.mem_append_left [last] second')
        rw [loadSegment, if_neg covered]
        exact inductionHypothesis agree' before

end Load

end Simos.Library.Elf32
