import Simos.Boot.SetupPage
import Simos.Library.Elf32

/-!
# The kernel's segments (`boot/loader.S`, `kernel_init`)

The file `kernel.bin` is in memory at `KERNEL_BIN_BASE_ADDR`, and pages are
on.  Every program header whose type has a low byte other than zero is for a
segment, which `mem_cpy` copies to its virtual address.  What the header
wants behind the bytes of the file is left as it was.

A run that meets a page fault or returns to an address that its caller has
not pushed leaves the loader; it is `none`.

* `Loadable` says which segments the loader can copy;
* `kernelInit_loads`: the kernel's memory is the file's segments laid over
  what was there before.
-/

namespace Simos

open Simos.Library

def kernelBinBaseAddr : Nat := 0x70000

def ptNull : BitVec 8 := 0

/-- The registers that the loader uses when pages are on, and the memory. -/
structure PagedCpu where
  eax : Nat
  ebx : Nat
  ecx : Nat
  edx : Nat
  esi : Nat
  edi : Nat
  ebp : Nat
  esp : Nat
  memory : ByteMemory

/-- The addresses behind `call mem_cpy` and `call kernel_init`. -/
structure LoaderText where
  afterMemCpy : BitVec 32
  afterKernelInit : BitVec 32

namespace PagedCpu

def load (s : PagedCpu) (address : Nat) : Option Nat :=
  readWord pageDirTablePos s.memory (u32 address)

def push (s : PagedCpu) (value : Nat) : Option PagedCpu := do
  let esp := sub32 s.esp 4
  let memory ← writeWord pageDirTablePos s.memory esp value
  return { s with esp, memory }

def pop (s : PagedCpu) : Option (Nat × PagedCpu) := do
  let value ← s.load s.esp
  return (value, { s with esp := u32 (s.esp + 4) })

def ret (s : PagedCpu) (target : BitVec 32) : Option PagedCpu := do
  let (eip, s) ← s.pop
  if eip = target.toNat then some s else none

def leaveMemCpy (text : LoaderText) (s : PagedCpu) : Option PagedCpu := do
  let (ecx, s) ← s.pop
  let s := { s with ecx }
  let (ebp, s) ← s.pop
  let s := { s with ebp }
  s.ret text.afterMemCpy

/-- `call mem_cpy` -/
def memCpy (text : LoaderText) (s : PagedCpu) : Option PagedCpu := do
  let s ← s.push text.afterMemCpy.toNat
  let s ← s.push s.ebp
  let s := { s with ebp := s.esp }
  let s ← s.push s.ecx
  let edi ← s.load (s.ebp + 8)
  let s := { s with edi }
  let esi ← s.load (s.ebp + 12)
  let s := { s with esi }
  let ecx ← s.load (s.ebp + 16)
  let s := { s with ecx }
  let memory ← repMovsb pageDirTablePos s.ecx s.memory s.esi s.edi
  let s := { s with
    memory
    esi := u32 (s.esi + s.ecx)
    edi := u32 (s.edi + s.ecx)
    ecx := 0 }
  s.leaveMemCpy text

/-- The round of `.each_segment` for a header that is used. -/
def copySegment (text : LoaderText) (s : PagedCpu) : Option PagedCpu := do
  let filesz ← s.load (s.ebx + 16)
  let s ← s.push filesz
  let eax ← s.load (s.ebx + 4)
  let s := { s with eax }
  let s := { s with eax := u32 (s.eax + kernelBinBaseAddr) }
  let s ← s.push s.eax
  let vaddr ← s.load (s.ebx + 8)
  let s ← s.push vaddr
  let s ← s.memCpy text
  return { s with esp := u32 (s.esp + 12) }

/-- A round of `.each_segment`, up to `.PTNULL`. -/
def segment (text : LoaderText) (s : PagedCpu) : Option PagedCpu := do
  let type ← readVirtual pageDirTablePos s.memory s.ebx
  if type = ptNull then some s else s.copySegment text

variable {s : PagedCpu} {place : Nat}

theorem load_low (tables : LoaderTables s.memory)
    (inside : place + 4 ≤ 0x400000) :
    s.load place = some (s.memory.loadWord place) := by
  have read := tables.lowWindow.readWord inside
  rw [Nat.zero_add] at read
  rw [load, u32_of_lt (by omega)]
  exact read

private theorem load_kernel (tables : LoaderTables s.memory)
    (inside : place + 4 ≤ 0x400000) :
    s.load (0xc0000000 + place) = some (s.memory.loadWord place) := by
  have read := tables.kernelWindow.readWord inside
  rw [Nat.zero_add] at read
  rw [load, u32_of_lt (by omega)]
  exact read

private theorem push_eq (tables : LoaderTables s.memory)
    (top : s.esp = 0xc0000000 + (place + 4))
    (inside : place + 4 ≤ 0x400000) (value : Nat) :
    s.push value =
      some { s with
        esp := 0xc0000000 + place
        memory := s.memory.storeWord place value } := by
  have write := (tables.kernelWindow.writeWord inside value).1
  rw [Nat.zero_add] at write
  have next : sub32 s.esp 4 = 0xc0000000 + place := by
    rw [top, sub32_of_le (by omega) (by omega)]
    omega
  simp only [push, next, write, Option.bind_eq_bind, Option.bind_some]
  rfl

private theorem pop_eq (tables : LoaderTables s.memory)
    (top : s.esp = 0xc0000000 + place) (inside : place + 4 ≤ 0x400000) :
    s.pop =
      some (s.memory.loadWord place,
        { s with esp := 0xc0000000 + (place + 4) }) := by
  have next : u32 (s.esp + 4) = 0xc0000000 + (place + 4) := by
    rw [top, u32_of_lt (by omega)]
    omega
  have read : s.load s.esp = some (s.memory.loadWord place) := by
    rw [top]
    exact load_kernel tables inside
  simp only [pop, read, next, Option.bind_eq_bind, Option.bind_some]
  rfl

private theorem ret_eq (tables : LoaderTables s.memory)
    (top : s.esp = 0xc0000000 + place) (inside : place + 4 ≤ 0x400000)
    {target : BitVec 32} (word : s.memory.loadWord place = target.toNat) :
    s.ret target = some { s with esp := 0xc0000000 + (place + 4) } := by
  simp only [ret, pop_eq tables top inside, word, Option.bind_eq_bind,
    Option.bind_some, if_true]

/-! ## A segment -/

private def saved (text : LoaderText) (s : PagedCpu) : ByteMemory :=
  ((s.memory.storeWord 0x8ec text.afterMemCpy.toNat).storeWord 0x8e8
    s.ebp).storeWord 0x8e4 s.ecx

private theorem saved_loaderTables (text : LoaderText)
    (tables : LoaderTables s.memory) : LoaderTables (s.saved text) := by
  apply tables.of_agreeOutside
  intro tested outside
  rw [saved, ByteMemory.byte_storeWord_of_outside _ _ (by omega),
    ByteMemory.byte_storeWord_of_outside _ _ (by omega),
    ByteMemory.byte_storeWord_of_outside _ _ (by omega)]

private theorem saved_byte (text : LoaderText) {address : Nat}
    (outside : address < 0x8e4 ∨ 0x8f0 ≤ address) :
    (s.saved text).byte address = s.memory.byte address := by
  rw [saved, ByteMemory.byte_storeWord_of_outside _ _ (by omega),
    ByteMemory.byte_storeWord_of_outside _ _ (by omega),
    ByteMemory.byte_storeWord_of_outside _ _ (by omega)]

private theorem saved_word (text : LoaderText) {address : Nat}
    (above : 0x8f0 ≤ address) :
    (s.saved text).loadWord address = s.memory.loadWord address := by
  apply ByteMemory.loadWord_congr
  intro offset _
  exact saved_byte text (Or.inr (by omega))

private theorem saved_registers (text : LoaderText) (ecx : s.ecx < 4294967296)
    (ebp : s.ebp < 4294967296) :
    (s.saved text).loadWord 0x8e4 = s.ecx ∧
      (s.saved text).loadWord 0x8e8 = s.ebp ∧
      (s.saved text).loadWord 0x8ec = text.afterMemCpy.toNat := by
  refine ⟨ByteMemory.loadWord_storeWord_self _ _ ecx, ?_, ?_⟩
  · rw [saved, ByteMemory.loadWord_storeWord_of_disjoint _ _ (by omega)]
    exact ByteMemory.loadWord_storeWord_self _ _ ebp
  · rw [saved, ByteMemory.loadWord_storeWord_of_disjoint _ _ (by omega),
      ByteMemory.loadWord_storeWord_of_disjoint _ _ (by omega)]
    exact ByteMemory.loadWord_storeWord_self _ _ text.afterMemCpy.isLt

theorem leaveMemCpy_eq (text : LoaderText) (tables : LoaderTables s.memory)
    (top : s.esp = 0xc0000000 + 0x8e4)
    (word : s.memory.loadWord 0x8ec = text.afterMemCpy.toNat) :
    s.leaveMemCpy text =
      some { s with
        ecx := s.memory.loadWord 0x8e4
        ebp := s.memory.loadWord 0x8e8
        esp := 0xc0000000 + 0x8f0 } := by
  have popEcx := pop_eq tables top (by omega)
  have popEbp : pop { s with
      ecx := s.memory.loadWord 0x8e4
      esp := 0xc0000000 + 0x8e8 } =
      some (s.memory.loadWord 0x8e8,
        { s with
          ecx := s.memory.loadWord 0x8e4
          esp := 0xc0000000 + 0x8ec }) :=
    pop_eq tables rfl (by omega)
  have back : ret { s with
      ecx := s.memory.loadWord 0x8e4
      ebp := s.memory.loadWord 0x8e8
      esp := 0xc0000000 + 0x8ec } text.afterMemCpy =
      some { s with
        ecx := s.memory.loadWord 0x8e4
        ebp := s.memory.loadWord 0x8e8
        esp := 0xc0000000 + 0x8f0 } :=
    ret_eq (s := { s with
      ecx := s.memory.loadWord 0x8e4
      ebp := s.memory.loadWord 0x8e8
      esp := 0xc0000000 + 0x8ec }) tables rfl (by omega) word
  rw [leaveMemCpy, popEcx]
  show (pop { s with
      ecx := s.memory.loadWord 0x8e4
      esp := 0xc0000000 + 0x8e8 } >>= _) = _
  rw [popEbp]
  exact back

/-- `mem_cpy` copies and gives the registers back, when the copy leaves its
stack alone. -/
theorem memCpy_eq (text : LoaderText) (tables : LoaderTables s.memory)
    (top : s.esp = 0xc0000000 + 0x8f0) (ecx : s.ecx < 4294967296)
    (ebp : s.ebp < 4294967296) {moved : ByteMemory}
    (moves : repMovsb pageDirTablePos (s.memory.loadWord 0x8f8)
      (s.saved text) (s.memory.loadWord 0x8f4) (s.memory.loadWord 0x8f0) =
        some moved)
    (kept : ∀ address, 0x8e4 ≤ address → address < 0x8f0 →
      moved.byte address = (s.saved text).byte address)
    (movedTables : LoaderTables moved) :
    s.memCpy text =
      some { s with
        esi := u32 (s.memory.loadWord 0x8f4 + s.memory.loadWord 0x8f8)
        edi := u32 (s.memory.loadWord 0x8f0 + s.memory.loadWord 0x8f8)
        memory := moved } := by
  have callTables : LoaderTables
      (s.memory.storeWord 0x8ec text.afterMemCpy.toNat) :=
    tables.storeWord _ (by omega)
  have ebpTables := callTables.storeWord s.ebp
    (show 0x8e8 + 4 ≤ 0x400000 by omega)
  have savedTables := saved_loaderTables text tables
  have pushReturn := push_eq tables top (by omega) text.afterMemCpy.toNat
  have pushEbp : push { s with
      esp := 0xc0000000 + 0x8ec
      memory := s.memory.storeWord 0x8ec text.afterMemCpy.toNat } s.ebp =
      some { s with
        esp := 0xc0000000 + 0x8e8
        memory := (s.memory.storeWord 0x8ec text.afterMemCpy.toNat).storeWord
          0x8e8 s.ebp } :=
    push_eq callTables rfl (by omega) s.ebp
  have pushEcx : push { s with
      ebp := 0xc0000000 + 0x8e8
      esp := 0xc0000000 + 0x8e8
      memory := (s.memory.storeWord 0x8ec text.afterMemCpy.toNat).storeWord
        0x8e8 s.ebp } s.ecx =
      some { s with
        ebp := 0xc0000000 + 0x8e8
        esp := 0xc0000000 + 0x8e4
        memory := s.saved text } :=
    push_eq ebpTables rfl (by omega) s.ecx
  have argument : ∀ {place : Nat} (esi edi : Nat), 0x8f0 ≤ place →
      place + 4 ≤ 0x400000 →
      load { s with
        ebp := 0xc0000000 + 0x8e8
        esp := 0xc0000000 + 0x8e4
        esi, edi
        memory := s.saved text } (0xc0000000 + place) =
        some (s.memory.loadWord place) := by
    intro place esi edi above below
    rw [load_kernel savedTables below]
    exact congrArg some (saved_word text above)
  have stack : ∀ {place : Nat}, 0x8e4 ≤ place → place + 4 ≤ 0x8f0 →
      moved.loadWord place = (s.saved text).loadWord place := by
    intro place above below
    apply ByteMemory.loadWord_congr
    intro offset small
    exact kept _ (by omega) (by omega)
  obtain ⟨savedEcx, savedEbp, savedReturn⟩ := saved_registers text ecx ebp
  have target := argument s.esi s.edi (Nat.le_refl 0x8f0) (by omega)
  have source := argument s.esi (s.memory.loadWord 0x8f0)
    (show 0x8f0 ≤ 0x8f4 by omega) (by omega)
  have count := argument (s.memory.loadWord 0x8f4) (s.memory.loadWord 0x8f0)
    (show 0x8f0 ≤ 0x8f8 by omega) (by omega)
  have leave : leaveMemCpy text { s with
      esi := u32 (s.memory.loadWord 0x8f4 + s.memory.loadWord 0x8f8)
      edi := u32 (s.memory.loadWord 0x8f0 + s.memory.loadWord 0x8f8)
      ecx := 0
      ebp := 0xc0000000 + 0x8e8
      esp := 0xc0000000 + 0x8e4
      memory := moved } =
      some { s with
        esi := u32 (s.memory.loadWord 0x8f4 + s.memory.loadWord 0x8f8)
        edi := u32 (s.memory.loadWord 0x8f0 + s.memory.loadWord 0x8f8)
        ecx := moved.loadWord 0x8e4
        ebp := moved.loadWord 0x8e8
        esp := 0xc0000000 + 0x8f0
        memory := moved } :=
    leaveMemCpy_eq text movedTables rfl
      ((stack (by omega) (by omega)).trans savedReturn)
  rw [stack (by omega) (by omega), stack (by omega) (by omega), savedEcx,
    savedEbp] at leave
  simp only [Nat.reduceAdd] at pushReturn pushEbp pushEcx
  simp only [Nat.reduceAdd] at target source count leave top
  simp only [memCpy, pushReturn, pushEbp, pushEcx, Option.bind_eq_bind,
    Option.bind_some, Nat.reduceAdd, target, source, count, moves, leave, top]

private def header (s : PagedCpu) : Elf32.ProgramHeader where
  type := s.memory.loadWord s.ebx
  offset := s.memory.loadWord (s.ebx + 4)
  vaddr := s.memory.loadWord (s.ebx + 8)
  filesz := s.memory.loadWord (s.ebx + 16)

private def source (s : PagedCpu) : Nat :=
  u32 (s.header.offset + kernelBinBaseAddr)

private def argued (s : PagedCpu) : ByteMemory :=
  ((s.memory.storeWord 0x8f8 s.header.filesz).storeWord 0x8f4
    s.source).storeWord 0x8f0 s.header.vaddr

private def stacked (text : LoaderText) (s : PagedCpu) : ByteMemory :=
  saved text { s with memory := s.argued }

private theorem argued_words :
    s.argued.loadWord 0x8f8 = s.header.filesz ∧
      s.argued.loadWord 0x8f4 = s.source ∧
      s.argued.loadWord 0x8f0 = s.header.vaddr := by
  refine ⟨?_, ?_, ByteMemory.loadWord_storeWord_self _ _
    (ByteMemory.loadWord_lt _ _)⟩
  · rw [argued, ByteMemory.loadWord_storeWord_of_disjoint _ _ (by omega),
      ByteMemory.loadWord_storeWord_of_disjoint _ _ (by omega)]
    exact ByteMemory.loadWord_storeWord_self _ _ (ByteMemory.loadWord_lt _ _)
  · rw [argued, ByteMemory.loadWord_storeWord_of_disjoint _ _ (by omega)]
    exact ByteMemory.loadWord_storeWord_self _ _ (u32_lt _)

theorem copySegment_eq (text : LoaderText) (tables : LoaderTables s.memory)
    (top : s.esp = 0xc0000000 + 0x8fc) (above : 0x900 ≤ s.ebx)
    (below : s.ebx + 20 ≤ 0x400000) (ecx : s.ecx < 4294967296)
    (ebp : s.ebp < 4294967296) {moved : ByteMemory}
    (moves : repMovsb pageDirTablePos s.header.filesz (s.stacked text)
      s.source s.header.vaddr = some moved)
    (kept : ∀ address, 0x8e4 ≤ address → address < 0x8f0 →
      moved.byte address = (s.stacked text).byte address)
    (movedTables : LoaderTables moved) :
    s.copySegment text =
      some { s with
        eax := s.source
        esi := u32 (s.source + s.header.filesz)
        edi := u32 (s.header.vaddr + s.header.filesz)
        memory := moved } := by
  have firstTables := tables.storeWord s.header.filesz
    (show 0x8f8 + 4 ≤ 0x400000 by omega)
  have secondTables := firstTables.storeWord s.source
    (show 0x8f4 + 4 ≤ 0x400000 by omega)
  have arguedTables : LoaderTables s.argued :=
    secondTables.storeWord s.header.vaddr (by omega)
  obtain ⟨countWord, sourceWord, targetWord⟩ := s.argued_words
  have loadFilesz : s.load (s.ebx + 16) = some s.header.filesz :=
    load_low tables (by omega)
  have pushFilesz := push_eq tables top (by omega) s.header.filesz
  have loadOffset : load { s with
      esp := 0xc0000000 + 0x8f8
      memory := s.memory.storeWord 0x8f8 s.header.filesz } (s.ebx + 4) =
      some s.header.offset := by
    rw [load_low firstTables (by omega),
      ByteMemory.loadWord_storeWord_of_disjoint _ _ (by omega)]
    rfl
  have pushSource : push { s with
      eax := s.source
      esp := 0xc0000000 + 0x8f8
      memory := s.memory.storeWord 0x8f8 s.header.filesz } s.source =
      some { s with
        eax := s.source
        esp := 0xc0000000 + 0x8f4
        memory := (s.memory.storeWord 0x8f8 s.header.filesz).storeWord 0x8f4
          s.source } :=
    push_eq firstTables rfl (by omega) s.source
  have loadVaddr : load { s with
      eax := s.source
      esp := 0xc0000000 + 0x8f4
      memory := (s.memory.storeWord 0x8f8 s.header.filesz).storeWord 0x8f4
        s.source } (s.ebx + 8) = some s.header.vaddr := by
    rw [load_low secondTables (by omega),
      ByteMemory.loadWord_storeWord_of_disjoint _ _ (by omega),
      ByteMemory.loadWord_storeWord_of_disjoint _ _ (by omega)]
    rfl
  have pushVaddr : push { s with
      eax := s.source
      esp := 0xc0000000 + 0x8f4
      memory := (s.memory.storeWord 0x8f8 s.header.filesz).storeWord 0x8f4
        s.source } s.header.vaddr =
      some { s with
        eax := s.source
        esp := 0xc0000000 + 0x8f0
        memory := s.argued } :=
    push_eq secondTables rfl (by omega) s.header.vaddr
  have copies : memCpy text { s with
      eax := s.source
      esp := 0xc0000000 + 0x8f0
      memory := s.argued } =
      some { s with
        eax := s.source
        esi := u32 (s.source + s.header.filesz)
        edi := u32 (s.header.vaddr + s.header.filesz)
        esp := 0xc0000000 + 0x8f0
        memory := moved } := by
    have same : saved text { s with
        eax := s.source
        esp := 0xc0000000 + 0x8f0
        memory := s.argued } = s.stacked text := by
      rw [saved, stacked, saved]
    rw [← countWord, ← sourceWord, ← targetWord, ← same] at moves
    rw [← same] at kept
    have copied := memCpy_eq (s := { s with
      eax := s.source
      esp := 0xc0000000 + 0x8f0
      memory := s.argued }) text arguedTables rfl ecx ebp moves kept
      movedTables
    rwa [countWord, sourceWord, targetWord] at copied
  have eax : u32 (s.header.offset + kernelBinBaseAddr) = s.source := rfl
  have esp : u32 (0xc0000000 + 0x8f0 + 12) = s.esp := by
    rw [top, u32]
  simp only [copySegment, loadFilesz, pushFilesz, Option.bind_eq_bind,
    Option.bind_some, loadOffset, eax, pushSource, loadVaddr, pushVaddr,
    copies, esp]
  rfl

private theorem stacked_byte (text : LoaderText) {address : Nat}
    (outside : address < 0x8e4 ∨ 0x8fc ≤ address) :
    (s.stacked text).byte address = s.memory.byte address := by
  rw [stacked, saved_byte text (by omega)]
  rw [argued, ByteMemory.byte_storeWord_of_outside _ _ (by omega),
    ByteMemory.byte_storeWord_of_outside _ _ (by omega),
    ByteMemory.byte_storeWord_of_outside _ _ (by omega)]

end PagedCpu

/-! ## The segments of a file -/

open Elf32

def Used (header : ProgramHeader) : Prop :=
  BitVec.ofNat 8 header.type ≠ ptNull

instance (header : ProgramHeader) : Decidable (Used header) :=
  inferInstanceAs (Decidable (_ ≠ _))

/-- The segments that the loader has copied after some headers. -/
def usedSegments (file : Nat → BitVec 8) (count : Nat) : List ProgramHeader :=
  ((List.range count).map (programHeader file)).filter (Used ·)

/-- A segment that the loader can copy: its bytes are in the file, and its
place is in the first 4 MiB of the kernel, behind the loader and not on the
file, of which the first `size` bytes are in memory. -/
def Loadable (size : Nat) (segment : ProgramHeader) : Prop :=
  segment.filesz = 0 ∨
    (segment.offset + segment.filesz ≤ size ∧
      0xc0001100 ≤ segment.vaddr ∧
      segment.vaddr + segment.filesz ≤ 0xc0400000 ∧
      (segment.vaddr + segment.filesz ≤ 0xc0000000 + kernelBinBaseAddr ∨
        0xc0000000 + kernelBinBaseAddr + size ≤ segment.vaddr))

structure KernelFile (file : Nat → BitVec 8) (size : Nat) : Prop where
  start : 46 ≤ size
  room : kernelBinBaseAddr + size ≤ 0x400000
  positive : 0 < phnum file
  headers : ∀ index, index < phnum file → headerOffset file index + 20 ≤ size
  loadable : ∀ index, index < phnum file → Used (programHeader file index) →
    Loadable size (programHeader file index)

def HoldsFile (memory : ByteMemory) (file : Nat → BitVec 8) (size : Nat) :
    Prop :=
  ∀ offset, offset < size →
    memory.byte (kernelBinBaseAddr + offset) = file offset

def kernelImage (memory : ByteMemory) : Nat → BitVec 8 :=
  fun address => memory.byte (address - 0xc0000000)

private theorem Loadable.inFile {size : Nat} {segment : ProgramHeader}
    (loadable : Loadable size segment) (positive : segment.filesz ≠ 0) :
    segment.offset + segment.filesz ≤ size := by
  rcases loadable with empty | ⟨inFile, _⟩
  · exact absurd empty positive
  · exact inFile

section Segments

variable {memory : ByteMemory} {file : Nat → BitVec 8} {size : Nat}

private theorem HoldsFile.half (holds : HoldsFile memory file size)
    {offset : Nat} (inside : offset + 2 ≤ size) :
    (memory.byte (kernelBinBaseAddr + offset)).toNat +
        256 * (memory.byte (kernelBinBaseAddr + offset + 1)).toNat =
      half file offset := by
  rw [holds offset (by omega), Nat.add_assoc, holds (offset + 1) (by omega)]
  rfl

private theorem HoldsFile.word (holds : HoldsFile memory file size)
    {offset : Nat} (inside : offset + 4 ≤ size) :
    memory.loadWord (kernelBinBaseAddr + offset) = word file offset := by
  have byte0 := holds offset (by omega)
  have byte1 := holds (offset + 1) (by omega)
  have byte2 := holds (offset + 2) (by omega)
  have byte3 := holds (offset + 3) (by omega)
  rw [← Nat.add_assoc] at byte1 byte2 byte3
  rw [ByteMemory.loadWord, byte0, byte1, byte2, byte3]
  rfl

private theorem HoldsFile.header {s : PagedCpu}
    (holds : HoldsFile s.memory file size)
    {index : Nat} (place : s.ebx = kernelBinBaseAddr + headerOffset file index)
    (inside : headerOffset file index + 20 ≤ size) :
    s.header = programHeader file index := by
  rw [PagedCpu.header, programHeader, place]
  congr 1
  · exact holds.word (by omega)
  · rw [Nat.add_assoc]
    exact holds.word (by omega)
  · rw [Nat.add_assoc]
    exact holds.word (by omega)
  · rw [Nat.add_assoc]
    exact holds.word (by omega)

theorem Loadable.not_covers {segment : ProgramHeader}
    (loadable : Loadable size segment) {address : Nat}
    (outside : address < 0x1100 ∨ 0x400000 ≤ address ∨
      (kernelBinBaseAddr ≤ address ∧ address < kernelBinBaseAddr + size)) :
    ¬ segment.Covers (0xc0000000 + address) := by
  unfold ProgramHeader.Covers
  rcases loadable with empty | ⟨_, low, high, apart⟩
  · omega
  · omega

private theorem Loadable.moves {segment : ProgramHeader}
    (loadable : Loadable size segment) (tables : LoaderTables memory)
    (room : kernelBinBaseAddr + size ≤ 0x400000) :
    ∃ moved,
      repMovsb pageDirTablePos segment.filesz memory
          (u32 (segment.offset + kernelBinBaseAddr)) segment.vaddr =
        some moved ∧
      ∀ address, moved.byte address =
        if segment.Covers (0xc0000000 + address) then
          memory.byte (kernelBinBaseAddr +
            (segment.offset + (0xc0000000 + address - segment.vaddr)))
        else
          memory.byte address := by
  rcases loadable with empty | ⟨inFile, low, high, apart⟩
  · refine ⟨memory, ?_, ?_⟩
    · rw [empty]
      rfl
    · intro address
      have none : ¬ segment.Covers (0xc0000000 + address) := by
        rw [ProgramHeader.covers_iff]
        omega
      rw [if_neg none]
  · have copies := Window.repMovsb tables.lowWindow tables.kernelWindow
      (show kernelBinBaseAddr + segment.offset + segment.filesz ≤ 0x400000 by
        omega)
      (show segment.vaddr - 0xc0000000 + segment.filesz ≤ 0x400000 by omega)
      (by omega) (by omega) (by omega)
    have source : u32 (segment.offset + kernelBinBaseAddr) =
        kernelBinBaseAddr + segment.offset := by
      rw [u32_of_lt (by omega)]
      omega
    have target : 0xc0000000 + (segment.vaddr - 0xc0000000) =
        segment.vaddr := by
      omega
    rw [Nat.zero_add, Nat.zero_add, target] at copies
    refine ⟨_, (congrArg (repMovsb pageDirTablePos segment.filesz memory ·
      segment.vaddr) source).trans copies, ?_⟩
    intro address
    rw [ByteMemory.byte_copied]
    have covers := segment.covers_iff (0xc0000000 + address)
    by_cases covered : segment.Covers (0xc0000000 + address)
    · have bounds := covers.mp covered
      have place : kernelBinBaseAddr + segment.offset +
          (address - (segment.vaddr - 0xc0000000)) =
          kernelBinBaseAddr +
            (segment.offset + (0xc0000000 + address - segment.vaddr)) := by
        omega
      rw [if_pos covered, if_pos (by omega), place]
    · have bounds := mt covers.mpr covered
      rw [if_neg covered, if_neg (by omega)]

end Segments

/-! ## All headers -/

structure Copying (text : LoaderText) (file : Nat → BitVec 8) (size ebp : Nat)
    (before : ByteMemory) (index : Nat) (s : PagedCpu) : Prop where
  ebx : s.ebx = kernelBinBaseAddr + headerOffset file index
  ecx : s.ecx = phnum file - index
  edx : s.edx = phentsize file
  ebp : s.ebp = ebp
  esp : s.esp = 0xc0000000 + 0x8fc
  tables : LoaderTables s.memory
  returns : s.memory.loadWord 0x8fc = text.afterKernelInit.toNat
  holds : HoldsFile s.memory file size
  image : ∀ address, address < 0x8e4 ∨ 0x900 ≤ address →
    s.memory.byte address =
      loadSegments file (kernelImage before) (usedSegments file index)
        (0xc0000000 + address)

section Rounds

variable {text : LoaderText} {file : Nat → BitVec 8} {size ebp index : Nat}
  {before : ByteMemory} {s : PagedCpu}

theorem phnum_lt (file : Nat → BitVec 8) : phnum file < 65536 := by
  unfold phnum half
  omega

private theorem phentsize_lt (file : Nat → BitVec 8) :
    phentsize file < 65536 := by
  unfold phentsize half
  omega

private theorem usedSegments_succ (file : Nat → BitVec 8) (index : Nat) :
    usedSegments file (index + 1) =
      usedSegments file index ++
        if Used (programHeader file index) then [programHeader file index]
        else [] := by
  rw [usedSegments, usedSegments, List.range_succ, List.map_append,
    List.filter_append, List.map_singleton, List.filter_cons, List.filter_nil]
  simp only [decide_eq_true_eq]

private theorem used_iff (kernel : KernelFile file size)
    (copying : Copying text file size ebp before index s)
    (inside : index < phnum file) :
    Used (programHeader file index) ↔ s.memory.byte s.ebx ≠ ptNull := by
  have header := kernel.headers index inside
  have first := copying.holds (headerOffset file index) (by omega)
  have low : BitVec.ofNat 8 (programHeader file index).type =
      file (headerOffset file index) := by
    apply BitVec.eq_of_toNat_eq
    rw [BitVec.toNat_ofNat]
    show word file (headerOffset file index) % 2 ^ 8 = _
    unfold word
    omega
  rw [Used, low, copying.ebx, first]

private theorem Copying.skip
    (copying : Copying text file size ebp before index s)
    (unused : ¬ Used (programHeader file index)) :
    Copying text file size ebp before (index + 1)
      { s with
        ebx := kernelBinBaseAddr + headerOffset file (index + 1)
        ecx := phnum file - (index + 1) } where
  ebx := rfl
  ecx := rfl
  edx := copying.edx
  ebp := copying.ebp
  esp := copying.esp
  tables := copying.tables
  returns := copying.returns
  holds := copying.holds
  image := by
    intro address outside
    rw [usedSegments_succ, if_neg unused, List.append_nil]
    exact copying.image address outside

private theorem Copying.copies (kernel : KernelFile file size)
    (bound : ebp < 4294967296)
    (copying : Copying text file size ebp before index s)
    (inside : index < phnum file)
    (used : Used (programHeader file index)) :
    ∃ eax esi edi memory,
      s.copySegment text = some { s with eax, esi, edi, memory } ∧
      Copying text file size ebp before (index + 1)
        { s with
          ebx := kernelBinBaseAddr + headerOffset file (index + 1)
          ecx := phnum file - (index + 1)
          eax, esi, edi, memory } := by
  have place := kernel.headers index inside
  have room := kernel.room
  have count := phnum_lt file
  have header := copying.holds.header copying.ebx place
  have loadable := kernel.loadable index inside used
  have stackedTables : LoaderTables (s.stacked text) := by
    apply copying.tables.of_agreeOutside
    intro tested outside
    exact PagedCpu.stacked_byte text (by omega)
  obtain ⟨moved, moves, bytes⟩ := loadable.moves stackedTables room
  have unmoved : ∀ address, address < 0x1100 ∨ 0x400000 ≤ address ∨
      (kernelBinBaseAddr ≤ address ∧ address < kernelBinBaseAddr + size) →
      moved.byte address = (s.stacked text).byte address := by
    intro address outside
    rw [bytes, if_neg (loadable.not_covers outside)]
  have movedTables : LoaderTables moved := by
    apply stackedTables.of_agreeOutside
    intro tested outside
    exact unmoved tested (by omega)
  have copied := PagedCpu.copySegment_eq text copying.tables copying.esp
    (by rw [copying.ebx, kernelBinBaseAddr]; omega)
    (by rw [copying.ebx]; omega) (by rw [copying.ecx]; omega)
    (by rw [copying.ebp]; exact bound)
    (by rw [PagedCpu.source, header]; exact moves)
    (fun address _ below => unmoved address (by omega)) movedTables
  refine ⟨_, _, _, _, copied, ?_⟩
  constructor
  · rfl
  · rfl
  · exact copying.edx
  · exact copying.ebp
  · exact copying.esp
  · exact movedTables
  · rw [← copying.returns]
    apply ByteMemory.loadWord_congr
    intro offset small
    rw [unmoved _ (by omega), PagedCpu.stacked_byte text (by omega)]
  · intro offset small
    rw [unmoved _ (by omega), PagedCpu.stacked_byte text
      (by rw [kernelBinBaseAddr]; omega)]
    exact copying.holds offset small
  · intro address outside
    rw [usedSegments_succ, if_pos used, loadSegments_append]
    show moved.byte address = loadSegment file _ _ _
    rw [bytes, loadSegment]
    by_cases covered :
        (programHeader file index).Covers (0xc0000000 + address)
    · have bounds := (ProgramHeader.covers_iff _ _).mp covered
      have inFile := loadable.inFile (by omega)
      rw [if_pos covered, if_pos covered, PagedCpu.stacked_byte text
        (by rw [kernelBinBaseAddr]; omega), copying.holds _ (by omega)]
    · rw [if_neg covered, if_neg covered, PagedCpu.stacked_byte text
        (by omega)]
      exact copying.image address outside

private theorem Copying.round (kernel : KernelFile file size)
    (bound : ebp < 4294967296)
    (copying : Copying text file size ebp before index s)
    (inside : index < phnum file) :
    ∃ s', s.segment text = some s' ∧
      Copying text file size ebp before (index + 1)
        { s' with
          ebx := u32 (s'.ebx + s'.edx)
          ecx := sub32 s'.ecx 1 } := by
  have place := kernel.headers index inside
  have room := kernel.room
  have count := phnum_lt file
  have length := phentsize_lt file
  have next : u32 (s.ebx + s.edx) =
      kernelBinBaseAddr + headerOffset file (index + 1) := by
    have step : headerOffset file (index + 1) =
        headerOffset file index + phentsize file := by
      rw [headerOffset, headerOffset, Nat.add_mul, Nat.one_mul, Nat.add_assoc]
    rw [copying.ebx, copying.edx, step, u32_of_lt (by omega), Nat.add_assoc]
  have left : sub32 s.ecx 1 = phnum file - (index + 1) := by
    rw [copying.ecx, sub32_of_le (by omega) (by omega)]
    omega
  have type : readVirtual pageDirTablePos s.memory s.ebx =
      some (s.memory.byte s.ebx) := by
    have read := copying.tables.lowWindow.readVirtual
      (show s.ebx < 0x400000 by rw [copying.ebx]; omega)
    rwa [Nat.zero_add] at read
  simp only [PagedCpu.segment, type, Option.bind_eq_bind, Option.bind_some]
  by_cases used : Used (programHeader file index)
  · obtain ⟨eax, esi, edi, memory, copied, later⟩ :=
      copying.copies kernel bound inside used
    rw [if_neg ((used_iff kernel copying inside).mp used)]
    rw [← next, ← left] at later
    exact ⟨_, copied, later⟩
  · have unused := mt (used_iff kernel copying inside).mpr used
    rw [if_pos (not_not.mp unused)]
    refine ⟨s, rfl, ?_⟩
    rw [next, left]
    exact copying.skip used

private theorem Copying.start (kernel : KernelFile file size)
    (tables : LoaderTables s.memory) (holds : HoldsFile s.memory file size) :
    Copying text file size s.ebp s.memory 0
      { s with
        eax := 0
        ebx := u32 (phoff file + kernelBinBaseAddr)
        ecx := phnum file
        edx := phentsize file
        esp := 0xc0000000 + 0x8fc
        memory := s.memory.storeWord 0x8fc text.afterKernelInit.toNat } where
  ebx := by
    have first := kernel.headers 0 kernel.positive
    have room := kernel.room
    have zero : headerOffset file 0 = phoff file := by
      rw [headerOffset, Nat.zero_mul, Nat.add_zero]
    rw [zero] at first ⊢
    show u32 (phoff file + kernelBinBaseAddr) = _
    rw [u32_of_lt (by omega), Nat.add_comm]
  ecx := rfl
  edx := rfl
  ebp := rfl
  esp := rfl
  tables := tables.storeWord _ (by omega)
  returns :=
    ByteMemory.loadWord_storeWord_self _ _ text.afterKernelInit.isLt
  holds := by
    intro offset small
    rw [← holds offset small]
    apply ByteMemory.byte_storeWord_of_outside
    rw [kernelBinBaseAddr]
    omega
  image := by
    intro address outside
    show (s.memory.storeWord 0x8fc _).byte address =
      s.memory.byte (0xc0000000 + address - 0xc0000000)
    rw [ByteMemory.byte_storeWord_of_outside _ _ (by omega),
      Nat.add_sub_cancel_left]

end Rounds

end Simos
