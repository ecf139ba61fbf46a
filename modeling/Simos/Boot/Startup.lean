import Simos.Boot.KernelInit
import Simos.Boot.MemorySize
import Simos.Library.Descriptors

/-!
# From the boot sector to the kernel (`boot/mbr.S`, `boot/loader.S`)

The boot sector reads the loader and jumps into it; the loader asks for the
size of the memory, reads `kernel.bin`, makes the page tables, moves the
descriptor table to the kernel's addresses, turns pages on and copies the
segments.

What the boot sector writes to the screen is left out, and two things are taken
from the machine.  Interrupts are off: the boot code does not clear the flag
itself, and in protected mode it has no handlers.  And the drive gives all
sectors of a command after one wait, since the code waits once.

* `LoaderData` is what is assembled into the loader's file, and `Finds` says
  by which of its functions the BIOS finds the memory;
* `ProcessorMarks` are the bits that the processor sets on its own, in the
  segments that it loads and in the entries that it walks through;
* `Started` is the state in which the kernel is entered, up to these bits;
* `startup_enters`: every machine with such a disk gets there, when its memory
  reaches behind the page tables at 16 MiB.
-/

namespace Simos

open Simos.Library
open Ia32 (SameButAccessed loadWord_sameButAccessed)

def loaderBaseAddr : Nat := 0x900

def kernelEntryPoint : Nat := 0xc0015000

def Loader.pageOffest : Nat := 0xc0000000

def kernelStackTop : Nat := 0x9f000 + Loader.pageOffest

def gdtPtr : Nat := 0xb04

def descVideoHigh4 : Nat := 0x00c0920b

structure Bios where
  e820 : List E820Answer
  e801 : E801Answer
  int88 : Int88Answer

structure KernelStart where
  cpu : PagedCpu
  gdtLimit : Nat
  gdtBase : Nat
  eip : Nat

namespace BootCpu

/-- `loader_start`, up to `.mem_get_ok`.  `esi` is not followed: it is written
again before it is read. -/
def loaderStart (bios : Bios) (s : BootCpu) : Option BootCpu := do
  let sized ← loaderMemory bios.e820 bios.e801 bios.int88
    { eax := s.eax
      ebx := s.ebx
      ecx := s.ecx
      edx := s.edx
      di := s.edi % 65536
      memory := s.memory }
  return { s with
    eax := sized.eax
    ebx := sized.ebx
    ecx := sized.ecx
    edx := sized.edx
    edi := putPart 65536 s.edi sized.di
    memory := sized.memory }

end BootCpu

/-! ## The loader's file -/

/-- The descriptor table and the pointer to it, as they are assembled. -/
structure GdtData (memory : ByteMemory) : Prop where
  limit : loadHalf memory gdtPtr = 0x1f
  base : memory.loadWord (gdtPtr + 2) = loaderBaseAddr
  video : memory.loadWord (loaderBaseAddr + 0x1c) = descVideoHigh4

/-- The data that are assembled into the loader, at its addresses. -/
structure LoaderData (memory : ByteMemory) : Prop
    extends GdtData memory where
  count : loadHalf memory ardsNr = 0

/-- The memory with the bits that the processor may have set on its own: in the
four segments of the loader, and in the entries of the page tables. -/
structure ProcessorMarks (memory memory' : ByteMemory) : Prop where
  segments : ∀ offset, offset < 0x20 →
    SameButAccessed offset (memory.byte (loaderBaseAddr + offset))
      (memory'.byte (loaderBaseAddr + offset))
  entries : EntriesMarked memory memory'
  outside : ∀ address,
    address < 0x900 ∨ (0x920 ≤ address ∧ address < 0x1000000) ∨
      0x1002000 ≤ address →
    memory'.byte address = memory.byte address

def KernelStart.withMemory (k : KernelStart) (memory : ByteMemory) :
    KernelStart :=
  { k with cpu := { k.cpu with memory } }

/-- The state in which the kernel is entered, by the files on the disk. -/
structure Started (loader : ByteMemory) (file : Nat → BitVec 8) (size : Nat)
    (k : KernelStart) : Prop where
  eip : k.eip = 0xc0015000
  esp : k.cpu.esp = 0xc009f000
  limit : k.gdtLimit = 0x1f
  base : k.gdtBase = 0xc0000900
  tables : LoaderTables k.cpu.memory
  room : 0x1002000 ≤ size
  descriptors : ∀ offset, offset < 0x1c → ∃ value,
    readVirtual pageDirTablePos k.cpu.memory (k.gdtBase + offset) =
        some value ∧
      SameButAccessed offset (loader.byte (loaderBaseAddr + offset)) value
  video : ∃ value,
    readWord pageDirTablePos k.cpu.memory (k.gdtBase + 0x1c) = some value ∧
      (value = 0xc0c0920b ∨ value = 0xc0c0930b)
  total : readWord pageDirTablePos k.cpu.memory totalMemBytes = some size
  segments : ∀ segment ∈ usedSegments file (Elf32.phnum file),
    ∀ offset, offset < segment.filesz →
      readVirtual pageDirTablePos k.cpu.memory (segment.vaddr + offset) =
        some (file (segment.offset + offset))

/-! ## The size of the memory -/

section Size

variable {bios : Bios} {size : Nat} {s : Loader}

end Size

/-! ## The reads -/

private theorem loadHalf_congr {memory memory' : ByteMemory} {address : Nat}
    (low : memory'.byte address = memory.byte address)
    (high : memory'.byte (address + 1) = memory.byte (address + 1)) :
    loadHalf memory' address = loadHalf memory address := by
  rw [loadHalf, loadHalf, low, high]

/-- The table stays where only the size and the list of the BIOS are stored. -/
theorem GdtData.congr {memory memory' : ByteMemory} (data : GdtData memory)
    (agree : ∀ address, 0x900 ≤ address →
      address < 0xb00 ∨ (0xb04 ≤ address ∧ address < 0xb0a) →
      memory'.byte address = memory.byte address) :
    GdtData memory' where
  limit := by
    rw [← data.limit]
    exact loadHalf_congr (agree _ (by decide) (by decide))
      (agree _ (by decide) (by decide))
  base := by
    have place : gdtPtr = 0xb04 := rfl
    rw [← data.base]
    apply ByteMemory.loadWord_congr
    intro offset small
    exact agree _ (by omega) (by omega)
  video := by
    have start : loaderBaseAddr = 0x900 := rfl
    rw [← data.video]
    apply ByteMemory.loadWord_congr
    intro offset small
    exact agree _ (by omega) (by omega)

private theorem LoaderData.congr {memory memory' : ByteMemory}
    (data : LoaderData memory)
    (agree : ∀ address, loaderBaseAddr ≤ address → address < 0x1100 →
      memory'.byte address = memory.byte address) :
    LoaderData memory' where
  toGdtData := by
    apply data.toGdtData.congr
    intro address above below
    exact agree address above (by omega)
  count := by
    rw [← data.count]
    exact loadHalf_congr (agree _ (by decide) (by decide))
      (agree _ (by decide) (by decide))

namespace BootCpu

variable {drive : AtaDrive} {s : BootCpu}

end BootCpu

/-! ## The tables -/

section Kernel

open Elf32

variable {file : Nat → BitVec 8} {size : Nat}

private theorem KernelFile.loadable_of_mem (kernel : KernelFile file size)
    {segment : ProgramHeader}
    (member : segment ∈ usedSegments file (phnum file)) :
    Loadable size segment := by
  rw [usedSegments, List.mem_filter, List.mem_map] at member
  obtain ⟨⟨index, ranged, rfl⟩, used⟩ := member
  exact kernel.loadable index (List.mem_range.mp ranged)
    (of_decide_eq_true used)

private theorem KernelFile.loadSegments_low (kernel : KernelFile file size)
    (memory : ByteMemory) {address : Nat} (low : address < 0x1100) :
    loadSegments file (kernelImage memory) (usedSegments file (phnum file))
      (0xc0000000 + address) = memory.byte address := by
  rw [loadSegments_of_not_covered, kernelImage, Nat.add_sub_cancel_left]
  intro segment member
  exact (kernel.loadable_of_mem member).not_covers (Or.inl low)

private theorem loadSegments_used
    (agree : Elf32.Agree file (usedSegments file (phnum file)))
    (memory : ByteMemory) {segment : ProgramHeader}
    (member : segment ∈ usedSegments file (phnum file)) {offset : Nat}
    (inside : offset < segment.filesz) :
    loadSegments file (kernelImage memory) (usedSegments file (phnum file))
      (segment.vaddr + offset) = file (segment.offset + offset) := by
  have covers : segment.Covers (segment.vaddr + offset) := by
    rw [ProgramHeader.covers_iff]
    omega
  rw [loadSegments_of_agree agree member covers,
    Nat.add_sub_cancel_left]

/-- The processor when pages are on: the files are read, and the tables are
made. -/
structure Paged (loader : ByteMemory) (file : Nat → BitVec 8) (size : Nat)
    (s : PagedCpu) : Prop where
  esp : s.esp = 0xc0000000 + 0x900
  ebp : s.ebp < 4294967296
  tables : LoaderTables s.memory
  holds : HoldsFile s.memory file 102400
  limit : loadHalf s.memory gdtPtr = 0x1f
  base : s.memory.loadWord (gdtPtr + 2) = 0xc0000900
  video : s.memory.loadWord 0x91c = 0xc0c0920b
  descriptors : ∀ offset, offset < 0x1c →
    s.memory.byte (loaderBaseAddr + offset) =
      loader.byte (loaderBaseAddr + offset)
  total : s.memory.loadWord totalMemBytes = size

/-- The memory when the kernel is entered, without marks of the processor. -/
structure KernelCopied (loader : ByteMemory) (file : Nat → BitVec 8)
    (size : Nat) (memory : ByteMemory) : Prop where
  tables : LoaderTables memory
  descriptors : ∀ offset, offset < 0x1c →
    memory.byte (loaderBaseAddr + offset) =
      loader.byte (loaderBaseAddr + offset)
  video : memory.loadWord 0x91c = 0xc0c0920b
  total : memory.loadWord totalMemBytes = size
  segments : ∀ segment ∈ usedSegments file (phnum file),
    ∀ offset, offset < segment.filesz →
      memory.byte (segment.vaddr + offset - 0xc0000000) =
        file (segment.offset + offset)

variable {loader : ByteMemory}

/-- The segments are copied, and the loader's own memory is what it was. -/
theorem Paged.copied {s s' : PagedCpu} (paged : Paged loader file size s)
    (kernel : KernelFile file 102400)
    (agree : Elf32.Agree file (usedSegments file (phnum file)))
    (tables : LoaderTables s'.memory)
    (bytes : ∀ address, address < 0x8e4 ∨ 0x900 ≤ address →
      s'.memory.byte address =
        loadSegments file (kernelImage s.memory)
          (usedSegments file (phnum file)) (0xc0000000 + address)) :
    KernelCopied loader file size s'.memory := by
  have start : loaderBaseAddr = 0x900 := rfl
  have word : totalMemBytes = 0xb00 := rfl
  have low : ∀ address, 0x900 ≤ address → address < 0x1100 →
      s'.memory.byte address = s.memory.byte address := by
    intro address above below
    rw [bytes address (Or.inr above)]
    exact kernel.loadSegments_low s.memory below
  have lowWord : ∀ address, 0x900 ≤ address → address + 4 ≤ 0x1100 →
      s'.memory.loadWord address = s.memory.loadWord address := by
    intro address above below
    apply ByteMemory.loadWord_congr
    intro offset small
    exact low _ (by omega) (by omega)
  constructor
  · exact tables
  · intro offset small
    rw [low _ (by omega) (by omega)]
    exact paged.descriptors offset small
  · rw [lowWord _ (by omega) (by omega)]
    exact paged.video
  · rw [lowWord _ (by omega) (by omega)]
    exact paged.total
  · intro segment member offset inside
    rcases kernel.loadable_of_mem member with empty | ⟨_, above, _, _⟩
    · omega
    · have address : 0xc0000000 + (segment.vaddr + offset - 0xc0000000) =
          segment.vaddr + offset := by
        omega
      rw [bytes _ (by omega), address]
      exact loadSegments_used agree _ member inside

/-- The marks of the processor are seen in the table of segments only. -/
theorem KernelCopied.started {memory : ByteMemory} {k : KernelStart}
    (copied : KernelCopied loader file size k.cpu.memory)
    (kernel : KernelFile file 102400) (room : 0x1002000 ≤ size)
    (eip : k.eip = kernelEntryPoint) (esp : k.cpu.esp = kernelStackTop)
    (limit : k.gdtLimit = 0x1f) (base : k.gdtBase = 0xc0000900)
    (marked : ProcessorMarks k.cpu.memory memory) :
    Started loader file size (k.withMemory memory) := by
  have start : loaderBaseAddr = 0x900 := rfl
  have tables : LoaderTables memory := copied.tables.marked marked.entries
  have gdt : (k.withMemory memory).gdtBase = 0xc0000900 := base
  refine ⟨eip, esp, limit, base, tables, room, ?_, ?_, ?_, ?_⟩
  · intro offset small
    have address : 0xc0000000 + (loaderBaseAddr + offset) =
        0xc0000900 + offset := by
      omega
    have read := tables.kernelWindow.readVirtual
      (show loaderBaseAddr + offset < 0x400000 by omega)
    have same := marked.segments offset (by omega)
    rw [Nat.zero_add, address, ← gdt] at read
    rw [copied.descriptors offset small] at same
    exact ⟨_, read, same⟩
  · have read := tables.kernelWindow.readWord
      (show 0x91c + 4 ≤ 0x400000 by omega)
    have same := @loadWord_sameButAccessed k.cpu.memory memory 0x91c
    rw [Nat.zero_add] at read
    rw [copied.video] at same
    rw [gdt]
    refine ⟨_, read, same ?_⟩
    intro offset small
    have address : loaderBaseAddr + (0x1c + offset) = 0x91c + offset := by
      omega
    have descriptor : 0x1c + offset = 8 * 3 + (4 + offset) := by
      omega
    have video := marked.segments (0x1c + offset) (by omega)
    rw [address, descriptor] at video
    exact SameButAccessed.of_add 3 video
  · have place : totalMemBytes = 0xb00 := rfl
    have read := tables.lowWindow.readWord
      (show totalMemBytes + 4 ≤ 0x400000 by omega)
    have word : memory.loadWord totalMemBytes = size := by
      rw [← copied.total]
      apply ByteMemory.loadWord_congr
      intro offset small
      exact marked.outside _ (by omega)
    rw [Nat.zero_add, word] at read
    exact read
  · intro segment member offset inside
    rcases kernel.loadable_of_mem member with empty | ⟨_, above, below, _⟩
    · omega
    · have address : 0xc0000000 + (segment.vaddr + offset - 0xc0000000) =
          segment.vaddr + offset := by
        omega
      have read := tables.kernelWindow.readVirtual
        (show segment.vaddr + offset - 0xc0000000 < 0x400000 by omega)
      rw [Nat.zero_add, address, marked.outside _ (by omega),
        copied.segments segment member offset inside] at read
      exact read

end Kernel

namespace BootCpu

variable {drive : AtaDrive} {bios : Bios} {size : Nat} {s : BootCpu}

end BootCpu

/-! ## A small disk -/

end Simos
