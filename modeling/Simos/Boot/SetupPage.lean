import Simos.Kernel.Call
import Simos.Library.VirtualMemory

/-!
# The page tables of the loader (`boot/loader.S`, `setup_page`)

The directory stands at 16 MiB and the tables behind it.  Only the directory
is cleared: the 254 tables for the rest of the kernel's gigabyte hold what was
in the memory before.

* `SetupWords` collects the words that are stored;
* `setupPage_walk` is the walk of every address under these tables;
* `LoaderTables` is what is left of this for the first 4 MiB, which all stores
  below 16 MiB leave alone.
-/

namespace Simos

open Simos.Library

def pageDirTablePos : Nat := 0x1000000

/-- `PG_US_U | PG_RW_W | PG_P` -/
def pgMark : Nat := 0b100 ||| 0b10 ||| 0b1

/-- `.clear_page_dir`, by the rounds that are left in `ecx`. -/
def clearPageDir : Nat → Nat → ByteMemory → ByteMemory
  | 0, _, memory => memory
  | ecx + 1, esi, memory =>
      clearPageDir ecx (esi + 1) (memory.storeByte (pageDirTablePos + esi) 0)

/-- The loops `.create_pte` and `.create_kernel_pde`: entries for frames that
follow each other, by the rounds that are left in `ecx`. -/
def createEntries (ebx : Nat) : Nat → Nat → Nat → ByteMemory → ByteMemory
  | 0, _, _, memory => memory
  | ecx + 1, esi, entry, memory =>
      createEntries ebx ecx (esi + 1) (u32 (entry + 4096))
        (memory.storeWord (ebx + esi * 4) entry)

def createPte (ebx : Nat) (memory : ByteMemory) : ByteMemory :=
  createEntries ebx 1024 0 pgMark memory

def createKernelPde (memory : ByteMemory) : ByteMemory :=
  createEntries pageDirTablePos 254 769 ((pageDirTablePos + 0x2000) ||| pgMark)
    memory

def setupPage (memory : ByteMemory) : ByteMemory :=
  let memory := clearPageDir 4096 0 memory
  let eax := pageDirTablePos + 0x1000
  let ebx := eax
  let eax := eax ||| pgMark
  let memory := memory.storeWord (pageDirTablePos + 0x0) eax
  let memory := memory.storeWord (pageDirTablePos + 0xc00) eax
  let eax := eax - 0x1000
  let memory := memory.storeWord (pageDirTablePos + 4092) eax
  let memory := createPte ebx memory
  createKernelPde memory

/-! ## The words that are stored -/

section Loops

variable {memory : ByteMemory}

private theorem clearPageDir_eq :
    ∀ {ecx esi : Nat} {memory : ByteMemory},
      clearPageDir ecx esi memory =
        memory.fill (pageDirTablePos + esi) 0 ecx := by
  intro ecx
  induction ecx with
  | zero =>
      intro esi memory
      apply ByteMemory.ext
      funext address
      rw [clearPageDir, ByteMemory.byte_fill, if_neg (by omega)]
  | succ ecx inductionHypothesis =>
      intro esi memory
      apply ByteMemory.ext
      funext address
      rw [clearPageDir, inductionHypothesis, ByteMemory.byte_fill,
        ByteMemory.byte_fill, ByteMemory.byte_storeByte]
      by_cases first : address = pageDirTablePos + esi
      · rw [if_neg (by omega), if_pos first, if_pos (by omega)]
      · by_cases inside : pageDirTablePos + (esi + 1) ≤ address ∧
            address < pageDirTablePos + (esi + 1) + ecx
        · rw [if_pos inside, if_pos (by omega)]
        · rw [if_neg inside, if_neg first, if_neg (by omega)]

private theorem createEntries_outside {ebx tested : Nat} :
    ∀ {ecx esi entry : Nat} {memory : ByteMemory},
      tested < ebx + esi * 4 ∨ ebx + (esi + ecx) * 4 ≤ tested →
      (createEntries ebx ecx esi entry memory).byte tested =
        memory.byte tested := by
  intro ecx
  induction ecx with
  | zero =>
      intro esi entry memory _
      rfl
  | succ ecx inductionHypothesis =>
      intro esi entry memory outside
      rw [createEntries, inductionHypothesis (by omega),
        ByteMemory.byte_storeWord_of_outside _ _ (by omega)]

private theorem createEntries_outside_word {ebx tested ecx esi entry : Nat}
    (outside : tested + 4 ≤ ebx + esi * 4 ∨ ebx + (esi + ecx) * 4 ≤ tested) :
    (createEntries ebx ecx esi entry memory).loadWord tested =
      memory.loadWord tested := by
  apply ByteMemory.loadWord_congr
  intro offset small
  exact createEntries_outside (by omega)

private theorem createEntries_word {ebx frame : Nat} :
    ∀ {ecx esi index : Nat} {memory : ByteMemory}, index < ecx →
      fullEntry (frame + ecx) < 4294967296 →
      (createEntries ebx ecx esi (fullEntry frame) memory).loadWord
          (ebx + (esi + index) * 4) =
        fullEntry (frame + index) := by
  intro ecx
  induction ecx generalizing frame with
  | zero =>
      intro esi index memory inside _
      omega
  | succ ecx inductionHypothesis =>
      intro esi index memory inside bound
      have next : u32 (fullEntry frame + 4096) = fullEntry (frame + 1) := by
        unfold fullEntry at bound ⊢
        rw [u32_of_lt (by omega)]
        omega
      rw [createEntries, next]
      cases index with
      | zero =>
          rw [createEntries_outside_word (by omega)]
          apply ByteMemory.loadWord_storeWord_self
          unfold fullEntry at bound ⊢
          omega
      | succ index =>
          have later := @inductionHypothesis (frame + 1) (esi + 1) index
            (memory.storeWord (ebx + esi * 4) (fullEntry frame)) (by omega)
            (by rwa [Nat.add_assoc, Nat.add_comm 1])
          rwa [Nat.add_assoc esi, Nat.add_comm 1, Nat.add_assoc frame,
            Nat.add_comm 1] at later

end Loops

/-- The entries of the first 4 MiB, at both of their places.  With pages on,
the processor marks the ones that it uses. -/
structure LoaderTables (memory : ByteMemory) : Prop where
  first : MarkedEntry (memory.loadWord pageDirTablePos) 0x1001
  kernel : MarkedEntry (memory.loadWord (pageDirTablePos + 4 * 768)) 0x1001
  page : ∀ index, index < 1024 →
    MarkedEntry (memory.loadWord (0x1001000 + 4 * index)) index

/-- The entries of the directory and of the first table gain marks of the
processor. -/
def EntriesMarked (memory memory' : ByteMemory) : Prop :=
  ∀ index, index < 2048 → ∃ marks, marks < 4 ∧
    memory'.loadWord (pageDirTablePos + 4 * index) =
      memory.loadWord (pageDirTablePos + 4 * index) ||| 32 * marks

structure SetupWords (before after : ByteMemory) : Prop where
  first : after.loadWord pageDirTablePos = fullEntry 0x1001
  kernel : after.loadWord (pageDirTablePos + 4 * 768) = fullEntry 0x1001
  page : ∀ index, index < 1024 →
    after.loadWord (0x1001000 + 4 * index) = fullEntry index
  absent : ∀ index, 1 ≤ index → index < 768 →
    after.loadWord (pageDirTablePos + 4 * index) = 0
  tables : ∀ index, index < 254 →
    after.loadWord (pageDirTablePos + 4 * (769 + index)) =
      fullEntry (0x1002 + index)
  self : after.loadWord (pageDirTablePos + 4 * 1023) = fullEntry 0x1000
  outside : ∀ address, address < pageDirTablePos ∨ 0x1002000 ≤ address →
    after.byte address = before.byte address

private def setupDirectory (memory : ByteMemory) : ByteMemory :=
  (((memory.fill pageDirTablePos 0 4096).storeWord pageDirTablePos
    (fullEntry 0x1001)).storeWord (pageDirTablePos + 0xc00)
    (fullEntry 0x1001)).storeWord (pageDirTablePos + 4092) (fullEntry 0x1000)

private theorem setupPage_eq (memory : ByteMemory) :
    setupPage memory =
      createEntries pageDirTablePos 254 769 (fullEntry 0x1002)
        (createEntries 0x1001000 1024 0 (fullEntry 0)
          (setupDirectory memory)) := by
  rw [setupPage, clearPageDir_eq]
  rfl

theorem setupPage_words (memory : ByteMemory) :
    SetupWords memory (setupPage memory) := by
  have slot : ∀ index, index < 769 ∨ index = 1023 →
      (setupPage memory).loadWord (pageDirTablePos + 4 * index) =
        (setupDirectory memory).loadWord (pageDirTablePos + 4 * index) := by
    intro index other
    rw [setupPage_eq, createEntries_outside_word (by omega),
      createEntries_outside_word (Or.inl (by unfold pageDirTablePos; omega))]
  have small : ∀ frame, frame < 0x2000 → fullEntry frame < 4294967296 := by
    intro frame bound
    unfold fullEntry
    omega
  refine ⟨?_, ?_, ?_, ?_, ?_, ?_, ?_⟩
  · have unmoved := slot 0 (by omega)
    rw [Nat.mul_zero, Nat.add_zero] at unmoved
    rw [unmoved, setupDirectory,
      ByteMemory.loadWord_storeWord_of_disjoint _ _ (by omega),
      ByteMemory.loadWord_storeWord_of_disjoint _ _ (by omega),
      ByteMemory.loadWord_storeWord_self _ _ (small _ (by omega))]
  · rw [slot 768 (by omega), setupDirectory,
      ByteMemory.loadWord_storeWord_of_disjoint _ _ (by omega)]
    exact ByteMemory.loadWord_storeWord_self _ _ (small _ (by omega))
  · intro index inside
    have stored := @createEntries_word 0x1001000 0 1024 0 index
      (setupDirectory memory) inside (small _ (by omega))
    rw [Nat.zero_add, Nat.mul_comm] at stored
    rw [setupPage_eq, createEntries_outside_word
      (Or.inr (by unfold pageDirTablePos; omega)), stored]
  · intro index positive below
    rw [slot index (by omega), setupDirectory,
      ByteMemory.loadWord_storeWord_of_disjoint _ _ (by omega),
      ByteMemory.loadWord_storeWord_of_disjoint _ _ (by omega),
      ByteMemory.loadWord_storeWord_of_disjoint _ _ (by omega),
      ByteMemory.loadWord_fill_zero _ (by omega)]
  · intro index inside
    have stored := @createEntries_word pageDirTablePos 0x1002 254 769 index
      (createEntries 0x1001000 1024 0 (fullEntry 0) (setupDirectory memory))
      inside (small _ (by omega))
    rwa [← setupPage_eq, Nat.mul_comm] at stored
  · rw [slot 1023 (by omega), setupDirectory]
    exact ByteMemory.loadWord_storeWord_self _ _ (small _ (by omega))
  · intro address outside
    have apart : address < 0x1000000 ∨ 0x1002000 ≤ address := outside
    rw [setupPage_eq,
      createEntries_outside (by unfold pageDirTablePos; omega),
      createEntries_outside (by omega), setupDirectory,
      ByteMemory.byte_storeWord_of_outside _ _
        (by unfold pageDirTablePos; omega),
      ByteMemory.byte_storeWord_of_outside _ _
        (by unfold pageDirTablePos; omega),
      ByteMemory.byte_storeWord_of_outside _ _
        (by unfold pageDirTablePos; omega),
      ByteMemory.byte_fill, if_neg (by unfold pageDirTablePos; omega)]

/-! ## The first 4 MiB -/

namespace LoaderTables

variable {memory memory' : ByteMemory} {address : Nat}

private theorem of_words (tables : LoaderTables memory)
    (agree : ∀ word, pageDirTablePos ≤ word →
      memory'.loadWord word = memory.loadWord word) :
    LoaderTables memory' := by
  constructor
  · rw [agree _ (Nat.le_refl _)]
    exact tables.first
  · rw [agree _ (Nat.le_add_right _ _)]
    exact tables.kernel
  · intro index inside
    have behind : pageDirTablePos ≤ 0x1001000 + 4 * index :=
      Nat.le_trans (by decide : pageDirTablePos ≤ 0x1001000)
        (Nat.le_add_right _ _)
    rw [agree _ behind]
    exact tables.page index inside

theorem marked (tables : LoaderTables memory)
    (gained : EntriesMarked memory memory') : LoaderTables memory' := by
  constructor
  · obtain ⟨marks, few, found⟩ := gained 0 (by decide)
    rw [Nat.mul_zero, Nat.add_zero] at found
    rw [found]
    exact tables.first.or few
  · obtain ⟨marks, few, found⟩ := gained 768 (by decide)
    rw [found]
    exact tables.kernel.or few
  · intro index inside
    have place : pageDirTablePos + 4 * (1024 + index) =
        0x1001000 + 4 * index := by
      rw [pageDirTablePos]
      omega
    obtain ⟨marks, few, found⟩ := gained (1024 + index) (by omega)
    rw [place] at found
    rw [found]
    exact (tables.page index inside).or few

theorem congr (tables : LoaderTables memory)
    (agree : ∀ tested, pageDirTablePos ≤ tested →
      memory'.byte tested = memory.byte tested) :
    LoaderTables memory' := by
  apply tables.of_words
  intro word behind
  apply ByteMemory.loadWord_congr
  intro offset _
  exact agree _ (Nat.le_trans behind (Nat.le_add_right _ _))

theorem walk_page (tables : LoaderTables memory)
    (slot : address / 4194304 = 0 ∨ address / 4194304 = 768) :
    walk memory pageDirTablePos address =
      some ⟨address / 4096 % 1024, true, true⟩ := by
  have entry : MarkedEntry
      (memory.loadWord (pageDirTablePos + 4 * (address / 4194304)))
      0x1001 := by
    rcases slot with first | kernel
    · rw [first]
      exact tables.first
    · rw [kernel]
      exact tables.kernel
  exact walk_of_marked entry (tables.page _ (by omega))

theorem translate_low (tables : LoaderTables memory)
    (low : address < 0x400000) :
    translateAddr memory pageDirTablePos address = some address := by
  rw [translateAddr, tables.walk_page (Or.inl (by omega)), Option.map_some]
  congr 1
  show 4096 * (address / 4096 % 1024) + address % 4096 = address
  omega

theorem translate_kernel (tables : LoaderTables memory)
    (low : address < 0x400000) :
    translateAddr memory pageDirTablePos (0xc0000000 + address) =
      some address := by
  rw [translateAddr, tables.walk_page (Or.inr (by omega)), Option.map_some]
  congr 1
  show 4096 * ((0xc0000000 + address) / 4096 % 1024) +
    (0xc0000000 + address) % 4096 = address
  omega

theorem of_agreeOutside (tables : LoaderTables memory)
    (agree : AgreeOutside memory memory' 0 0x400000) :
    LoaderTables memory' := by
  have below : 0x400000 ≤ pageDirTablePos := by decide
  apply tables.congr
  intro tested behind
  exact agree tested (Or.inr (Nat.le_trans below behind))

theorem storeWord (tables : LoaderTables memory) (value : Nat)
    (inside : address + 4 ≤ 0x400000) :
    LoaderTables (memory.storeWord address value) := by
  apply tables.of_agreeOutside
  intro tested outside
  exact ByteMemory.byte_storeWord_of_outside _ _ (by omega)

theorem lowWindow (tables : LoaderTables memory) :
    Window pageDirTablePos 0 0 0x400000 memory := by
  intro later agree offset low
  rw [Nat.zero_add]
  exact (tables.of_agreeOutside agree).translate_low low

theorem kernelWindow (tables : LoaderTables memory) :
    Window pageDirTablePos 0xc0000000 0 0x400000 memory := by
  intro later agree offset low
  rw [Nat.zero_add]
  exact (tables.of_agreeOutside agree).translate_kernel low

end LoaderTables

/-! ## The walk of an address -/

/-- The page that an entry of a table is for, behind a full entry of the
directory. -/
def entryPage (entry : Nat) : Option PageMapping :=
  if entry % 2 = 0 then
    none
  else
    some
      ⟨entry / 4096, decide (entry / 2 % 2 = 1), decide (entry / 4 % 2 = 1)⟩

/-- What an address is mapped to after `setup_page`, by the memory before: the
first 4 MiB twice, then the tables that are not cleared, and in the last
4 MiB the tables themselves. -/
def loaderWalk (before : ByteMemory) (address : Nat) : Option PageMapping :=
  if address < 0x400000 then
    some ⟨address / 4096, true, true⟩
  else if address < 0xc0000000 then
    none
  else if address < 0xc0400000 then
    some ⟨(address - 0xc0000000) / 4096, true, true⟩
  else if address < 0xffc00000 then
    entryPage
      (before.loadWord (0x1002000 + 4 * ((address - 0xc0400000) / 4096)))
  else
    let index := address / 4096 % 1024
    if index = 0 ∨ index = 768 then
      some ⟨0x1001, true, true⟩
    else if index < 768 then
      none
    else if index < 1023 then
      some ⟨0x1002 + (index - 769), true, true⟩
    else
      some ⟨0x1000, true, true⟩

section Walks

variable {before after : ByteMemory} {address : Nat}

private theorem entryPage_fullEntry (frame : Nat) :
    entryPage (fullEntry frame) = some ⟨frame, true, true⟩ := by
  have present : fullEntry frame % 2 ≠ 0 := by
    unfold fullEntry
    omega
  have frameOf : fullEntry frame / 4096 = frame := by
    unfold fullEntry
    omega
  have writable : fullEntry frame / 2 % 2 = 1 := by
    unfold fullEntry
    omega
  have user : fullEntry frame / 4 % 2 = 1 := by
    unfold fullEntry
    omega
  simp only [entryPage, if_neg present, frameOf, writable, user, decide_true]

theorem walk_eq_entryPage {directory table : Nat}
    (entry : after.loadWord (directory + 4 * (address / 4194304)) =
      fullEntry table) :
    walk after directory address =
      entryPage (after.loadWord
        (4096 * table + 4 * (address / 4096 % 1024))) :=
  walk_of_table entry

namespace SetupWords

theorem toLoaderTables (words : SetupWords before after) :
    LoaderTables after where
  first := by
    rw [words.first]
    exact .full _
  kernel := by
    rw [words.kernel]
    exact .full _
  page index inside := by
    rw [words.page index inside]
    exact .full index

private theorem walk_found (words : SetupWords before after)
    (above : 0xc0400000 ≤ address) (below : address < 0xffc00000) :
    walk after pageDirTablePos address =
      entryPage (before.loadWord
        (0x1002000 + 4 * ((address - 0xc0400000) / 4096))) := by
  have slot : address / 4194304 = 769 + (address / 4194304 - 769) := by
    omega
  have entry := words.tables (address / 4194304 - 769) (by omega)
  rw [← slot] at entry
  have place : 4096 * (0x1002 + (address / 4194304 - 769)) +
      4 * (address / 4096 % 1024) =
      0x1002000 + 4 * ((address - 0xc0400000) / 4096) := by
    omega
  have kept : ∀ word, 0x1002000 ≤ word →
      after.loadWord word = before.loadWord word := by
    intro word behind
    apply ByteMemory.loadWord_congr
    intro offset _
    exact words.outside _ (Or.inr (by omega))
  rw [walk_eq_entryPage entry, place, kept _ (Nat.le_add_right _ _)]

private theorem walk_self (words : SetupWords before after)
    (slot : address / 4194304 = 1023) :
    walk after pageDirTablePos address =
      entryPage (after.loadWord
        (pageDirTablePos + 4 * (address / 4096 % 1024))) := by
  have entry : after.loadWord (pageDirTablePos + 4 * (address / 4194304)) =
      fullEntry 0x1000 := by
    rw [slot]
    exact words.self
  exact walk_eq_entryPage entry

private theorem walk_eq (words : SetupWords before after)
    (inSpace : address < 0x100000000) :
    walk after pageDirTablePos address = loaderWalk before address := by
  rw [loaderWalk]
  by_cases low : address < 0x400000
  · have index : address / 4096 % 1024 = address / 4096 := by omega
    rw [if_pos low, words.toLoaderTables.walk_page (Or.inl (by omega)), index]
  by_cases user : address < 0xc0000000
  · rw [if_neg low, if_pos user]
    apply walk_of_absent_table
    exact words.absent _ (by omega) (by omega)
  by_cases window : address < 0xc0400000
  · have index : address / 4096 % 1024 = (address - 0xc0000000) / 4096 := by
      omega
    rw [if_neg low, if_neg user, if_pos window,
      words.toLoaderTables.walk_page (Or.inr (by omega)), index]
  by_cases found : address < 0xffc00000
  · rw [if_neg low, if_neg user, if_neg window, if_pos found]
    exact words.walk_found (by omega) found
  rw [if_neg low, if_neg user, if_neg window, if_neg found,
    words.walk_self (by omega)]
  have small : address / 4096 % 1024 < 1024 := by omega
  generalize address / 4096 % 1024 = index at small
  by_cases first : index = 0 ∨ index = 768
  · simp only [if_pos first]
    rcases first with zero | kernel
    · rw [zero, Nat.mul_zero, Nat.add_zero, words.first, entryPage_fullEntry]
    · rw [kernel, words.kernel, entryPage_fullEntry]
  by_cases none : index < 768
  · simp only [if_neg first, if_pos none]
    rw [words.absent index (by omega) none]
    rfl
  by_cases table : index < 1023
  · have slot : index = 769 + (index - 769) := by omega
    have entry := words.tables (index - 769) (by omega)
    rw [← slot] at entry
    simp only [if_neg first, if_neg none, if_pos table]
    rw [entry, entryPage_fullEntry]
  · have last : index = 1023 := by omega
    simp only [if_neg first, if_neg none, if_neg table]
    rw [last, words.self, entryPage_fullEntry]

end SetupWords

end Walks

/-- Where every address of the machine leads under the tables of the loader,
and which bytes of the memory these tables take. -/
theorem setupPage_walk (before : ByteMemory) :
    (∀ address, address < 0x100000000 →
      walk (setupPage before) pageDirTablePos address =
        loaderWalk before address) ∧
      ∀ address, address < pageDirTablePos ∨ 0x1002000 ≤ address →
        (setupPage before).byte address = before.byte address :=
  ⟨fun _ inSpace => (setupPage_words before).walk_eq inSpace,
    (setupPage_words before).outside⟩

end Simos
