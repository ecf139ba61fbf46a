import Simos.Library.Ia32Stack

/-!
# The descriptor tables of a 32-bit x86 processor

Gates and segments are described by eight bytes each, in tables whose places
the processor knows.  A vector leads through its gate to a code segment and, on
the way to a more privileged level, through the task state segment to a stack.

* `gateAt` and `segmentAt` read a descriptor;
* `SystemTables.fetchGate` is the way of an interrupt: `none` is for the ones
  that the processor refuses with an exception;
* `SystemTables.interrupt` enters the gate that is found.
-/

namespace Simos.Library.Ia32

structure GateDescriptor where
  offset : Nat
  selector : Nat
  access : Nat
  deriving DecidableEq, Repr

structure SegmentDescriptor where
  base : Nat
  limit : Nat
  access : Nat
  flags : Nat
  deriving DecidableEq, Repr

def dpl (access : Nat) : Nat :=
  access / 32 % 4

/-- The descriptor is for something that is there. -/
def Present (access : Nat) : Prop :=
  access / 128 % 2 = 1

instance (access : Nat) : Decidable (Present access) :=
  inferInstanceAs (Decidable (_ = _))

def gateAt (memory : ByteMemory) (address : Nat) : GateDescriptor :=
  let low := memory.loadWord address
  let high := memory.loadWord (address + 4)
  { offset := low % 65536 + 65536 * (high / 65536)
    selector := low / 65536
    access := high / 256 % 256 }

def segmentAt (memory : ByteMemory) (address : Nat) : SegmentDescriptor :=
  let low := memory.loadWord address
  let high := memory.loadWord (address + 4)
  { base := low / 65536 + 65536 * (high % 256) + 16777216 * (high / 16777216)
    limit := low % 65536 + 65536 * (high / 65536 % 16)
    access := high / 256 % 256
    flags := high / 1048576 % 16 }

/-- The segment as it was assembled, or with the mark that the processor sets
in the access byte when it loads the segment. -/
def SegmentDescriptor.Matches (segment assembled : SegmentDescriptor) :
    Prop :=
  segment = assembled ∨
    segment = { assembled with access := assembled.access ||| 1 }

/-- A byte of a table of segments is the same, but for that mark. -/
def SameButAccessed (offset : Nat) (value value' : BitVec 8) : Prop :=
  value' = value ∨ (offset % 8 = 5 ∧ value' = value ||| 1)

/-- What the processor knows of the tables; `task` is the segment that the
task register was loaded with. -/
structure SystemTables where
  gdtBase : Nat
  gdtLimit : Nat
  idtBase : Nat
  idtLimit : Nat
  task : SegmentDescriptor
  deriving DecidableEq, Repr

theorem SameButAccessed.of_add (descriptor : Nat) {offset : Nat}
    {value value' : BitVec 8}
    (same : SameButAccessed (8 * descriptor + offset) value value') :
    SameButAccessed offset value value' := by
  rcases same with same | ⟨access, marked⟩
  · exact Or.inl same
  · exact Or.inr ⟨by omega, marked⟩

private theorem SegmentDescriptor.Matches.accessed
    {segment assembled : SegmentDescriptor}
    (matched : segment.Matches assembled) :
    SegmentDescriptor.Matches { segment with access := segment.access ||| 1 }
      assembled := by
  rcases matched with rfl | rfl
  · exact Or.inr rfl
  · rw [Nat.or_assoc]
    exact Or.inr rfl

section Bytes

variable {memory memory' : ByteMemory} {address : Nat}

private theorem descriptor_words
    (agree : ∀ offset, offset < 8 →
      memory'.byte (address + offset) = memory.byte (address + offset)) :
    memory'.loadWord address = memory.loadWord address ∧
      memory'.loadWord (address + 4) = memory.loadWord (address + 4) := by
  constructor
  · apply ByteMemory.loadWord_congr
    intro offset small
    exact agree offset (by omega)
  · apply ByteMemory.loadWord_congr
    intro offset small
    rw [Nat.add_assoc]
    exact agree (4 + offset) (by omega)

theorem gateAt_congr
    (agree : ∀ offset, offset < 8 →
      memory'.byte (address + offset) = memory.byte (address + offset)) :
    gateAt memory' address = gateAt memory address := by
  have words := descriptor_words agree
  rw [gateAt, gateAt, words.1, words.2]

theorem segmentAt_congr
    (agree : ∀ offset, offset < 8 →
      memory'.byte (address + offset) = memory.byte (address + offset)) :
    segmentAt memory' address = segmentAt memory address := by
  have words := descriptor_words agree
  rw [segmentAt, segmentAt, words.1, words.2]

theorem segmentAt_eq (memory : ByteMemory) (address : Nat) :
    segmentAt memory address =
      { base := memory.loadWord address / 65536 +
          65536 * (memory.byte (address + 4)).toNat +
          16777216 * (memory.byte (address + 7)).toNat
        limit := memory.loadWord address % 65536 +
          65536 * ((memory.byte (address + 6)).toNat % 16)
        access := (memory.byte (address + 5)).toNat
        flags := (memory.byte (address + 6)).toNat / 16 } := by
  have word : memory.loadWord (address + 4) =
      (memory.byte (address + 4)).toNat +
        256 * (memory.byte (address + 5)).toNat +
        65536 * (memory.byte (address + 6)).toNat +
        16777216 * (memory.byte (address + 7)).toNat :=
    rfl
  have fourth := (memory.byte (address + 4)).isLt
  have fifth := (memory.byte (address + 5)).isLt
  have sixth := (memory.byte (address + 6)).isLt
  have seventh := (memory.byte (address + 7)).isLt
  simp only [segmentAt, word, SegmentDescriptor.mk.injEq]
  refine ⟨?_, ?_, ?_, ?_⟩ <;> omega

private theorem segmentAt_accessed
    (agree : ∀ offset, offset < 8 → offset ≠ 5 →
      memory'.byte (address + offset) = memory.byte (address + offset))
    (marked : memory'.byte (address + 5) = memory.byte (address + 5) ||| 1) :
    segmentAt memory' address =
      { segmentAt memory address with
        access := (segmentAt memory address).access ||| 1 } := by
  have low : memory'.loadWord address = memory.loadWord address :=
    ByteMemory.loadWord_congr fun offset small =>
      agree offset (by omega) (by omega)
  have access : (memory'.byte (address + 5)).toNat =
      (memory.byte (address + 5)).toNat ||| 1 := by
    rw [marked, BitVec.toNat_or]
    rfl
  rw [segmentAt_eq, segmentAt_eq, low, access,
    agree 4 (by decide) (by decide), agree 6 (by decide) (by decide),
    agree 7 (by decide) (by decide)]

theorem SegmentDescriptor.Matches.of_bytes {assembled : SegmentDescriptor}
    (matched : (segmentAt memory address).Matches assembled)
    (agree : ∀ offset, offset < 8 →
      SameButAccessed offset (memory.byte (address + offset))
        (memory'.byte (address + offset))) :
    (segmentAt memory' address).Matches assembled := by
  have others : ∀ offset, offset < 8 → offset ≠ 5 →
      memory'.byte (address + offset) = memory.byte (address + offset) := by
    intro offset small other
    rcases agree offset small with same | ⟨here, -⟩
    · exact same
    · omega
  rcases agree 5 (by decide) with same | ⟨-, marked⟩
  · have kept : segmentAt memory' address = segmentAt memory address := by
      apply segmentAt_congr
      intro offset small
      by_cases here : offset = 5
      · rw [here]
        exact same
      · exact others offset small here
    rw [kept]
    exact matched
  · rw [segmentAt_accessed others marked]
    exact matched.accessed

private theorem toNat_or_one (value : BitVec 8) :
    (value ||| 1).toNat = value.toNat ∨
      (value ||| 1).toNat = value.toNat + 1 := by
  revert value
  decide

/-- The word with the access byte keeps its value, or gains the mark. -/
theorem loadWord_sameButAccessed
    (agree : ∀ offset, offset < 4 →
      SameButAccessed (4 + offset) (memory.byte (address + offset))
        (memory'.byte (address + offset))) :
    memory'.loadWord address = memory.loadWord address ∨
      memory'.loadWord address = memory.loadWord address + 256 := by
  have others : ∀ offset, offset < 4 → offset ≠ 1 →
      memory'.byte (address + offset) = memory.byte (address + offset) := by
    intro offset small other
    rcases agree offset small with same | ⟨here, -⟩
    · exact same
    · omega
  have first := others 0 (by decide) (by decide)
  have third := others 2 (by decide) (by decide)
  have fourth := others 3 (by decide) (by decide)
  have word : memory'.loadWord address =
      (memory.byte (address + 0)).toNat +
        256 * (memory'.byte (address + 1)).toNat +
        65536 * (memory.byte (address + 2)).toNat +
        16777216 * (memory.byte (address + 3)).toNat := by
    rw [← first, ← third, ← fourth]
    rfl
  have old : memory.loadWord address =
      (memory.byte (address + 0)).toNat +
        256 * (memory.byte (address + 1)).toNat +
        65536 * (memory.byte (address + 2)).toNat +
        16777216 * (memory.byte (address + 3)).toNat :=
    rfl
  rw [word, old]
  rcases agree 1 (by decide) with same | ⟨-, marked⟩
  · rw [same]
    exact Or.inl rfl
  · rw [marked]
    rcases toNat_or_one (memory.byte (address + 1)) with set | clear
    · rw [set]
      exact Or.inl rfl
    · rw [clear]
      apply Or.inr
      omega

end Bytes

namespace SystemTables

def segment (t : SystemTables) (memory : ByteMemory) (selector : Nat) :
    Option SegmentDescriptor :=
  if 4 ≤ selector ∧ selector / 4 % 2 = 0 ∧
      8 * (selector / 8) + 7 ≤ t.gdtLimit then
    some (segmentAt memory (t.gdtBase + 8 * (selector / 8)))
  else
    none

def innerStack (t : SystemTables) (memory : ByteMemory) :
    Option (Nat × Nat) := do
  let ss0 := memory.loadWord (t.task.base + 8) % 65536
  let esp0 := memory.loadWord (t.task.base + 4)
  let stack ← t.segment memory ss0
  if ss0 % 4 = 0 ∧ Present stack.access ∧ dpl stack.access = 0 ∧
      stack.access % 32 / 2 = 9 then
    some (ss0, esp0)
  else
    none

/-- A code segment of privilege level 0 that is not conforming. -/
def KernelCode (segment : SegmentDescriptor) : Prop :=
  Present segment.access ∧ dpl segment.access = 0 ∧
    segment.access % 32 / 4 = 6

instance (segment : SegmentDescriptor) : Decidable (KernelCode segment) :=
  inferInstanceAs (Decidable (_ ∧ _))

/-- The gate that an interrupt leads to, from privilege level `cpl`; only an
`int` instruction asks for the privilege level of the gate.  Gates of other
kinds than the 32-bit interrupt gate, and such for code of another level than
0, are not followed here. -/
def fetchGate (t : SystemTables) (memory : ByteMemory) (vector cpl : Nat)
    (software : Bool) : Option Gate :=
  let gate := gateAt memory (t.idtBase + 8 * vector)
  if 8 * vector + 7 ≤ t.idtLimit ∧ gate.access % 32 = 0xe ∧
      (software = true → cpl ≤ dpl gate.access) ∧
      Present gate.access then
    (t.segment memory gate.selector).bind fun code =>
      if KernelCode code ∧ gate.selector % 4 = 0 then
        if cpl = 0 then
          some ⟨BitVec.ofNat 16 gate.selector, BitVec.ofNat 32 gate.offset,
            0, 0⟩
        else
          (t.innerStack memory).map fun stack =>
            ⟨BitVec.ofNat 16 gate.selector, BitVec.ofNat 32 gate.offset,
              BitVec.ofNat 16 stack.1, BitVec.ofNat 32 stack.2⟩
      else
        none
  else
    none

/-- The processor enters the gate of a vector. -/
def interrupt (t : SystemTables) (vector : Nat) (software : Bool)
    (m : Machine) : Option Machine :=
  (t.fetchGate m.memory vector (rpl m.cpu.cs).toNat software).map
    (deliver · m)

end SystemTables

/-- The descriptors that interrupts from both levels need: the code segment and
the stack segment of level 0. -/
structure KernelSegments (t : SystemTables) (memory : ByteMemory)
    (code stack : Nat) : Prop where
  runs : ∃ segment, t.segment memory code = some segment ∧
    SystemTables.KernelCode segment
  codeLevel : code % 4 = 0
  writes : ∃ segment, t.segment memory stack = some segment ∧
    Present segment.access ∧ dpl segment.access = 0 ∧
      segment.access % 32 / 2 = 9
  stackLevel : stack % 4 = 0
  stackWord : memory.loadWord (t.task.base + 8) % 65536 = stack

namespace SystemTables

variable {t : SystemTables} {memory : ByteMemory} {code stack vector : Nat}
  {software : Bool}

/-- A vector behind the end of the table is refused, and so is an `int` from a
level that the gate does not allow. -/
theorem interrupt_eq_none {m : Machine}
    (refused : t.idtLimit < 8 * vector + 7 ∨
      (software = true ∧
        dpl (gateAt m.memory (t.idtBase + 8 * vector)).access <
          (rpl m.cpu.cs).toNat)) :
    t.interrupt vector software m = none := by
  have fails : ¬ (8 * vector + 7 ≤ t.idtLimit ∧
      (gateAt m.memory (t.idtBase + 8 * vector)).access % 32 = 0xe ∧
      (software = true → (rpl m.cpu.cs).toNat ≤
        dpl (gateAt m.memory (t.idtBase + 8 * vector)).access) ∧
      Present (gateAt m.memory (t.idtBase + 8 * vector)).access) := by
    rintro ⟨inside, -, allowed, -⟩
    rcases refused with outside | ⟨asked, below⟩
    · omega
    · have level := allowed asked
      omega
  rw [interrupt, fetchGate, if_neg fails, Option.map_none]

end SystemTables

end Simos.Library.Ia32
