import Simos.Library.Paging
import Simos.Mm.Pools

/-!
# The kernel's page tables (`mm/memory.c`, `page_table_init`)

The function runs under the temporary tables of the loader, which map the
first 4 MiB to themselves: the addresses it stores to are physical ones.

* `pageTableInit_slot`, `pageTableInit_full` and `pageTableInit_partial` are
  the words of the directory and of the tables afterwards;
* `pageTableInit_rest` is what the unused words of the last table hold.
-/

namespace Simos

open Simos.Library

def pageDirTable : Nat := 0x100000

def onePageDirSize : Nat := 0x400000

/-- `PG_P_ENABLE | PG_RW_W | PG_US_U` -/
def kernelPageMark : Nat := 7

def totalKernelPages (totalMem : Nat) : Nat :=
  let kernelMemSize :=
    if totalMem ≥ kernelThreshold then kernelMaxSize else u32 (totalMem / 2)
  kernelMemSize / pageSize

def pageDirNum (kernelPages : Nat) : Nat :=
  u32 (kernelPages * pageSize) / onePageDirSize

def lastPageTableNum (kernelPages : Nat) : Nat :=
  if u32 (kernelPages * pageSize) % onePageDirSize = 0 then
    0
  else
    sub32 (u32 (kernelPages * pageSize))
      (u32 (onePageDirSize * pageDirNum kernelPages)) / pageSize

/-- The entries of one page table, for the memory from `memoryAddr` on. -/
def fillPageTable (memory : ByteMemory) (table memoryAddr count : Nat) :
    ByteMemory :=
  memory.storeWords table
    (fun j => u32 (memoryAddr + j * pageSize + kernelPageMark)) count

/-- The loop of `page_table_init` over the full page tables, with the value
that it leaves in `memory_addr`. -/
def pageTables (memory : ByteMemory) (pageTableBase : Nat) :
    Nat → ByteMemory × Nat
  | 0 => (memory, 0)
  | i + 1 =>
      let (memory, _) := pageTables memory pageTableBase i
      let memoryAddr := u32 (i * onePageDirSize)
      (fillPageTable memory (pageTableBase + i <<< 12) memoryAddr 1024,
        memoryAddr)

/-- The last page table and its directory entry, when it is not a full one. -/
def lastPageTable (memory : ByteMemory) (pageTableBase memoryAddr : Nat)
    (kernelPages : Nat) : ByteMemory :=
  if lastPageTableNum kernelPages ≠ 0 then
    let memoryAddr := u32 (memoryAddr + onePageDirSize)
    let table := pageTableBase + (pageDirNum kernelPages + 1) * 0x1000
    let memory :=
      fillPageTable memory table memoryAddr (lastPageTableNum kernelPages)
    memory.storeWord (pageDirTable + 4 * (768 + pageDirNum kernelPages))
      (u32 (table + kernelPageMark))
  else
    memory

def pageTableInit (memory : ByteMemory) (kernelPages : Nat) : ByteMemory :=
  let pageDirAddr := pageDirTable
  let memory := memory.fill pageDirTable 0 (1024 * 1024)
  let pageTableBase := pageDirAddr + 0x1000
  let memory := memory.storeWords (pageDirAddr + 4 * 768)
    (fun i => u32 (pageTableBase + i <<< 12 + kernelPageMark))
    (pageDirNum kernelPages)
  let (memory, memoryAddr) :=
    pageTables memory pageTableBase (pageDirNum kernelPages)
  let memory := lastPageTable memory pageTableBase memoryAddr kernelPages
  memory.storeWord (pageDirAddr + 4 * 1023) (u32 (pageDirAddr + kernelPageMark))

/-! ## The words that are stored -/

section Words

variable {kernelPages : Nat} (memory : ByteMemory)

theorem pageDirNum_eq (bound : kernelPages ≤ 262144) :
    pageDirNum kernelPages = kernelPages / 1024 := by
  unfold pageDirNum pageSize onePageDirSize
  rw [u32_of_lt (by omega)]
  omega

theorem lastPageTableNum_eq (bound : kernelPages ≤ 262144) :
    lastPageTableNum kernelPages = kernelPages % 1024 := by
  unfold lastPageTableNum
  rw [pageDirNum_eq bound]
  unfold pageSize onePageDirSize
  rw [u32_of_lt (by omega), u32_of_lt (by omega)]
  split
  · omega
  · rw [sub32_of_le (by omega) (by omega)]
    omega

theorem fillPageTable_word {table memoryAddr count index : Nat}
    (inside : index < count)
    (bound : memoryAddr + index * pageSize + kernelPageMark < 4294967296) :
    (fillPageTable memory table memoryAddr count).loadWord
        (table + 4 * index) =
      memoryAddr + index * pageSize + kernelPageMark := by
  have small : u32 (memoryAddr + index * pageSize + kernelPageMark) =
      memoryAddr + index * pageSize + kernelPageMark := u32_of_lt bound
  exact (ByteMemory.loadWord_storeWords memory
    (fun j => u32 (memoryAddr + j * pageSize + kernelPageMark)) inside
    (u32_lt _)).trans small

private theorem fillPageTable_outside {table memoryAddr count tested : Nat}
    (disjoint : tested + 4 ≤ table ∨ table + 4 * count ≤ tested) :
    (fillPageTable memory table memoryAddr count).loadWord tested =
      memory.loadWord tested :=
  ByteMemory.loadWord_storeWords_of_disjoint memory _ disjoint

private theorem pageTables_outside {base count tested : Nat}
    (disjoint : tested + 4 ≤ base ∨ base + 4096 * count ≤ tested) :
    (pageTables memory base count).1.loadWord tested =
      memory.loadWord tested := by
  induction count with
  | zero =>
      rfl
  | succ count inductionHypothesis =>
      simp only [pageTables, Nat.shiftLeft_eq]
      rw [fillPageTable_outside _ (by omega)]
      exact inductionHypothesis (by omega)

private theorem pageTables_word {base count table index : Nat}
    (tableInside : table < count) (inside : index < 1024)
    (bound : count ≤ 256) :
    (pageTables memory base count).1.loadWord
        (base + 4096 * table + 4 * index) =
      fullEntry (1024 * table + index) := by
  induction count with
  | zero =>
      exact absurd tableInside (Nat.not_lt_zero table)
  | succ count inductionHypothesis =>
      simp only [pageTables, Nat.shiftLeft_eq]
      by_cases last : table = count
      · subst last
        rw [show base + 4096 * table = base + table * 2 ^ 12 by omega,
          fillPageTable_word _ inside]
        · unfold fullEntry onePageDirSize pageSize kernelPageMark
          rw [u32_of_lt (by omega)]
          omega
        · unfold onePageDirSize pageSize kernelPageMark
          rw [u32_of_lt (by omega)]
          omega
      · rw [fillPageTable_outside _ (by omega)]
        exact inductionHypothesis (by omega) (by omega)

private theorem pageTables_memoryAddr (base : Nat) {count : Nat}
    (bound : count ≤ 256) :
    (pageTables memory base count).2 = (count - 1) * onePageDirSize := by
  cases count with
  | zero =>
      rfl
  | succ count =>
      simp only [pageTables, Nat.add_sub_cancel]
      unfold onePageDirSize
      exact u32_of_lt (by omega)

theorem lastPageTable_outside {memoryAddr tested : Nat}
    (bound : kernelPages ≤ 262144)
    (slot : tested + 4 ≤ pageDirTable + 4 * (768 + kernelPages / 1024) ∨
      pageDirTable + 4 * (768 + kernelPages / 1024) + 4 ≤ tested ∨
      kernelPages % 1024 = 0)
    (disjoint : tested + 4 ≤ 0x102000 + 4096 * (kernelPages / 1024) ∨
      0x102000 + 4096 * (kernelPages / 1024) + 4 * (kernelPages % 1024) ≤
        tested) :
    (lastPageTable memory 0x101000 memoryAddr kernelPages).loadWord tested =
      memory.loadWord tested := by
  unfold lastPageTable
  rw [lastPageTableNum_eq bound, pageDirNum_eq bound]
  by_cases full : kernelPages % 1024 = 0
  · simp [full]
  · simp only [ne_eq, full, not_false_eq_true, if_true]
    rw [ByteMemory.loadWord_storeWord_of_disjoint _ _ (by omega),
      fillPageTable_outside _ (by omega)]

private theorem lastPageTable_slot {memoryAddr : Nat}
    (bound : kernelPages ≤ 262144) (short : kernelPages % 1024 ≠ 0) :
    (lastPageTable memory 0x101000 memoryAddr kernelPages).loadWord
        (pageDirTable + 4 * (768 + kernelPages / 1024)) =
      fullEntry (0x102 + kernelPages / 1024) := by
  unfold lastPageTable
  rw [lastPageTableNum_eq bound, pageDirNum_eq bound]
  simp only [ne_eq, short, not_false_eq_true, if_true]
  rw [ByteMemory.loadWord_storeWord_self _ _ (u32_lt _)]
  unfold kernelPageMark fullEntry
  rw [u32_of_lt (by omega)]
  omega

private theorem lastPageTable_word {memoryAddr index : Nat}
    (bound : kernelPages ≤ 262144) (inside : index < kernelPages % 1024)
    (small : memoryAddr ≤ 0x40000000) :
    (lastPageTable memory 0x101000 memoryAddr kernelPages).loadWord
        (0x102000 + 4096 * (kernelPages / 1024) + 4 * index) =
      memoryAddr + onePageDirSize + index * pageSize + kernelPageMark := by
  have short : kernelPages % 1024 ≠ 0 := by
    omega
  unfold lastPageTable
  rw [lastPageTableNum_eq bound, pageDirNum_eq bound]
  simp only [ne_eq, short, not_false_eq_true, if_true]
  unfold pageDirTable
  rw [ByteMemory.loadWord_storeWord_of_disjoint _ _ (by omega),
    show 0x102000 + 4096 * (kernelPages / 1024) + 4 * index =
      0x101000 + (kernelPages / 1024 + 1) * 0x1000 + 4 * index by omega,
    fillPageTable_word _ inside]
  · unfold onePageDirSize
    rw [u32_of_lt (by omega)]
  · unfold onePageDirSize pageSize kernelPageMark
    rw [u32_of_lt (by omega)]
    omega

end Words

/-! ## The words of the finished tables -/

section Finished

variable {kernelPages : Nat} (memory : ByteMemory)

private def clearedDirectory (memory : ByteMemory) (kernelPages : Nat) :
    ByteMemory :=
  (memory.fill pageDirTable 0 (1024 * 1024)).storeWords
    (pageDirTable + 4 * 768)
    (fun i => u32 (pageDirTable + 0x1000 + i <<< 12 + kernelPageMark))
    (pageDirNum kernelPages)

def fullTables (memory : ByteMemory) (kernelPages : Nat) : ByteMemory :=
  (pageTables (clearedDirectory memory kernelPages) 0x101000
    (pageDirNum kernelPages)).1

theorem pageTableInit_eq (bound : kernelPages ≤ 262144) :
    pageTableInit memory kernelPages =
      (lastPageTable (fullTables memory kernelPages) 0x101000
        ((kernelPages / 1024 - 1) * onePageDirSize) kernelPages).storeWord
        (pageDirTable + 4 * 1023) (fullEntry 0x100) := by
  have memoryAddr := pageTables_memoryAddr
    (clearedDirectory memory kernelPages) 0x101000
    (show kernelPages / 1024 ≤ 256 by omega)
  rw [← memoryAddr, ← pageDirNum_eq bound]
  rfl

private theorem clearedDirectory_slot {index : Nat}
    (bound : kernelPages ≤ 262144) (inside : index < kernelPages / 1024) :
    (clearedDirectory memory kernelPages).loadWord
        (pageDirTable + 4 * (768 + index)) =
      fullEntry (0x101 + index) := by
  unfold clearedDirectory
  rw [pageDirNum_eq bound,
    show pageDirTable + 4 * (768 + index) =
      pageDirTable + 4 * 768 + 4 * index by omega]
  refine (ByteMemory.loadWord_storeWords _
    (fun i => u32 (pageDirTable + 0x1000 + i <<< 12 + kernelPageMark)) inside
    (u32_lt _)).trans ?_
  unfold fullEntry pageDirTable kernelPageMark
  rw [Nat.shiftLeft_eq, u32_of_lt (by omega)]
  omega

private theorem clearedDirectory_zero {tested : Nat}
    (bound : kernelPages ≤ 262144)
    (cleared : pageDirTable ≤ tested ∧ tested + 4 ≤ 0x200000)
    (disjoint : tested + 4 ≤ pageDirTable + 4 * 768 ∨
      pageDirTable + 4 * (768 + kernelPages / 1024) ≤ tested) :
    (clearedDirectory memory kernelPages).loadWord tested = 0 := by
  unfold clearedDirectory
  unfold pageDirTable at *
  rw [pageDirNum_eq bound,
    ByteMemory.loadWord_storeWords_of_disjoint _ _ (by omega)]
  exact ByteMemory.loadWord_fill_zero memory (by omega)

private theorem clearedDirectory_outside {tested : Nat}
    (bound : kernelPages ≤ 262144) (outside : 0x200000 ≤ tested) :
    (clearedDirectory memory kernelPages).loadWord tested =
      memory.loadWord tested := by
  unfold clearedDirectory pageDirTable
  rw [pageDirNum_eq bound,
    ByteMemory.loadWord_storeWords_of_disjoint _ _ (by omega)]
  exact ByteMemory.loadWord_fill_of_disjoint memory _ (by omega)

theorem pageTableInit_self (bound : kernelPages ≤ 262144) :
    (pageTableInit memory kernelPages).loadWord (pageDirTable + 4 * 1023) =
      fullEntry 0x100 := by
  rw [pageTableInit_eq memory bound]
  exact ByteMemory.loadWord_storeWord_self _ _ (by decide)

/-- The directory entries that are not for the last table or for the directory
itself are those of the cleared directory. -/
theorem pageTableInit_entry {index : Nat} (bound : kernelPages ≤ 262144)
    (inside : index < 1023)
    (other : index ≠ 768 + kernelPages / 1024 ∨ kernelPages % 1024 = 0) :
    (pageTableInit memory kernelPages).loadWord (pageDirTable + 4 * index) =
      (clearedDirectory memory kernelPages).loadWord
        (pageDirTable + 4 * index) := by
  rw [pageTableInit_eq memory bound,
    ByteMemory.loadWord_storeWord_of_disjoint _ _ (by omega),
    lastPageTable_outside _ bound (by omega) (by unfold pageDirTable; omega),
    fullTables, pageDirNum_eq bound,
    pageTables_outside _ (by unfold pageDirTable; omega)]

theorem pageTableInit_slot {index : Nat} (bound : kernelPages ≤ 262144)
    (inside : index < kernelPages / 1024) (notLast : index < 255) :
    (pageTableInit memory kernelPages).loadWord
        (pageDirTable + 4 * (768 + index)) =
      fullEntry (0x101 + index) := by
  rw [pageTableInit_entry memory bound (by omega) (by omega)]
  exact clearedDirectory_slot memory bound inside

theorem pageTableInit_lastSlot (bound : kernelPages ≤ 262144)
    (short : kernelPages % 1024 ≠ 0) (notLast : kernelPages / 1024 < 255) :
    (pageTableInit memory kernelPages).loadWord
        (pageDirTable + 4 * (768 + kernelPages / 1024)) =
      fullEntry (0x102 + kernelPages / 1024) := by
  rw [pageTableInit_eq memory bound,
    ByteMemory.loadWord_storeWord_of_disjoint _ _ (by omega)]
  exact lastPageTable_slot _ bound short

theorem pageTableInit_absent {index : Nat} (bound : kernelPages ≤ 262144)
    (inside : index < 1023)
    (unused : index < 768 ∨ 768 + kernelPages / 1024 < index ∨
      (index = 768 + kernelPages / 1024 ∧ kernelPages % 1024 = 0)) :
    (pageTableInit memory kernelPages).loadWord (pageDirTable + 4 * index) =
      0 := by
  rw [pageTableInit_entry memory bound inside (by omega)]
  exact clearedDirectory_zero memory bound (by unfold pageDirTable; omega)
    (by omega)

theorem pageTableInit_full {table index : Nat} (bound : kernelPages ≤ 262144)
    (tableInside : table < kernelPages / 1024) (inside : index < 1024) :
    (pageTableInit memory kernelPages).loadWord
        (4096 * (0x101 + table) + 4 * index) =
      fullEntry (1024 * table + index) := by
  rw [pageTableInit_eq memory bound,
    ByteMemory.loadWord_storeWord_of_disjoint _ _
      (by unfold pageDirTable; omega),
    lastPageTable_outside _ bound (by unfold pageDirTable; omega) (by omega),
    fullTables, pageDirNum_eq bound,
    show 4096 * (0x101 + table) + 4 * index =
      0x101000 + 4096 * table + 4 * index by omega]
  exact pageTables_word _ tableInside inside (by omega)

/-- The words of the last page table.  When there is no full one before it,
`memory_addr` has not been set and is moved on by 4 MiB all the same. -/
theorem pageTableInit_partial {index : Nat} (bound : kernelPages ≤ 262144)
    (inside : index < kernelPages % 1024) :
    (pageTableInit memory kernelPages).loadWord
        (4096 * (0x102 + kernelPages / 1024) + 4 * index) =
      fullEntry (1024 * (kernelPages / 1024 - 1) + 1024 + index) := by
  rw [pageTableInit_eq memory bound,
    ByteMemory.loadWord_storeWord_of_disjoint _ _
      (by unfold pageDirTable; omega),
    show 4096 * (0x102 + kernelPages / 1024) + 4 * index =
      0x102000 + 4096 * (kernelPages / 1024) + 4 * index by omega,
    lastPageTable_word _ bound inside (by unfold onePageDirSize; omega)]
  unfold fullEntry onePageDirSize pageSize kernelPageMark
  omega

/-- The words of the last page table that are not set: zero inside the
cleared megabyte, and otherwise what they were. -/
theorem pageTableInit_rest {index : Nat} (bound : kernelPages ≤ 262144)
    (behind : kernelPages % 1024 ≤ index) (inside : index < 1024) :
    (pageTableInit memory kernelPages).loadWord
        (4096 * (0x102 + kernelPages / 1024) + 4 * index) =
      if kernelPages / 1024 < 254 then
        0
      else
        memory.loadWord
          (4096 * (0x102 + kernelPages / 1024) + 4 * index) := by
  rw [pageTableInit_eq memory bound,
    ByteMemory.loadWord_storeWord_of_disjoint _ _
      (by unfold pageDirTable; omega),
    lastPageTable_outside _ bound (by unfold pageDirTable; omega) (by omega),
    fullTables, pageDirNum_eq bound, pageTables_outside _ (by omega)]
  split
  · exact clearedDirectory_zero memory bound (by unfold pageDirTable; omega)
      (by unfold pageDirTable; omega)
  · exact clearedDirectory_outside memory bound (by omega)

end Finished

end Simos
