import Simos.Boot.SetupPage
import Simos.Library.VirtualMemory
import Simos.Mm.KernelMap

/-!
# From the loader's tables to those of the kernel (`page_table_init`)

`page_table_init` stores its tables at physical addresses, which the tables of
the loader map to themselves, and then loads `cr3`.  The code that does this,
its stack and its data are in the first 4 MiB above `0xc0000000`.  The marks
that the processor sets in the loader's entries meanwhile are not followed:
`LoaderTables` holds with them and without, and no store here is into them.

* `pageTableInit_storesIn`: the function stores constants between 1 MiB and
  the end of its last table;
* `pageTableInit_switch` is its run under the loader's tables, and what the
  load of `cr3` changes.
-/

namespace Simos

open Simos.Library

section Stores

variable {kernelPages : Nat}

private theorem fillPageTable_storesIn {base size table count : Nat}
    (memoryAddr : Nat)
    (inside : base ≤ table ∧ table + 4 * count ≤ base + size) :
    StoresIn base size fun memory =>
      fillPageTable memory table memoryAddr count :=
  StoresIn.storeWords _ inside

private theorem pageTables_storesIn {base size pageTableBase count : Nat}
    (inside : base ≤ pageTableBase ∧
      pageTableBase + 4096 * count ≤ base + size) :
    StoresIn base size fun memory =>
      (pageTables memory pageTableBase count).1 := by
  induction count with
  | zero => exact StoresIn.refl base size
  | succ count inductionHypothesis =>
      have shift : pageTableBase + count <<< 12 =
          pageTableBase + 4096 * count := by
        rw [Nat.shiftLeft_eq, Nat.mul_comm]
      have later := (inductionHypothesis (by omega)).comp
        (fillPageTable_storesIn (u32 (count * onePageDirSize))
          (show base ≤ pageTableBase + count <<< 12 ∧
            pageTableBase + count <<< 12 + 4 * 1024 ≤ base + size by omega))
      exact later

private theorem lastPageTable_storesIn {memoryAddr : Nat}
    (bound : kernelPages ≤ 262144) :
    StoresIn pageDirTable 0x102000 fun memory =>
      lastPageTable memory 0x101000 memoryAddr kernelPages := by
  have number := lastPageTableNum_eq bound
  have tables := pageDirNum_eq bound
  have low : pageDirTable = 0x100000 := rfl
  unfold lastPageTable
  rw [number, tables]
  by_cases full : kernelPages % 1024 = 0
  · simp only [full, ne_eq, not_true_eq_false, if_false]
    exact StoresIn.refl _ _
  · have fills := fillPageTable_storesIn (u32 (memoryAddr + onePageDirSize))
      (show pageDirTable ≤ 0x101000 + (kernelPages / 1024 + 1) * 0x1000 ∧
        0x101000 + (kernelPages / 1024 + 1) * 0x1000 +
          4 * (kernelPages % 1024) ≤ pageDirTable + 0x102000 by omega)
    have slot := StoresIn.storeWord
      (u32 (0x101000 + (kernelPages / 1024 + 1) * 0x1000 + kernelPageMark))
      (show pageDirTable ≤ pageDirTable + 4 * (768 + kernelPages / 1024) ∧
        pageDirTable + 4 * (768 + kernelPages / 1024) + 4 ≤
          pageDirTable + 0x102000 by omega)
    simp only [ne_eq, full, not_false_eq_true, if_true]
    exact fills.comp slot

/-- All that `page_table_init` does to the memory is to store constants from
1 MiB on. -/
theorem pageTableInit_storesIn (bound : kernelPages ≤ 262144) :
    StoresIn pageDirTable 0x102000 fun memory =>
      pageTableInit memory kernelPages := by
  have tables := pageDirNum_eq bound
  have base : pageDirTable + 0x1000 = 0x101000 := rfl
  have low : pageDirTable = 0x100000 := rfl
  have clears : StoresIn pageDirTable 0x102000 fun memory =>
      memory.fill pageDirTable 0 (1024 * 1024) :=
    StoresIn.fill 0 (by omega)
  have slots := clears.comp (StoresIn.storeWords
    (fun i => u32 (pageDirTable + 0x1000 + i <<< 12 + kernelPageMark))
    (show pageDirTable ≤ pageDirTable + 4 * 768 ∧
      pageDirTable + 4 * 768 + 4 * pageDirNum kernelPages ≤
        pageDirTable + 0x102000 by omega))
  have full := slots.comp (pageTables_storesIn
    (show pageDirTable ≤ 0x101000 ∧
      0x101000 + 4096 * pageDirNum kernelPages ≤ pageDirTable + 0x102000 by
        omega))
  have last := full.comp (@lastPageTable_storesIn kernelPages
    ((kernelPages / 1024 - 1) * onePageDirSize) bound)
  have done := last.comp (StoresIn.storeWord (fullEntry 0x100)
    (show pageDirTable ≤ pageDirTable + 4 * 1023 ∧
      pageDirTable + 4 * 1023 + 4 ≤ pageDirTable + 0x102000 by omega))
  have same : (fun memory => pageTableInit memory kernelPages) = _ :=
    funext fun memory => pageTableInit_eq memory bound
  rw [same]
  exact done

end Stores

/-! ## The load of `cr3` -/

section Switch

variable {memory : ByteMemory} {kernelPages address : Nat}

/-- The loader's tables are still there when `page_table_init` is done. -/
theorem LoaderTables.pageTableInit (tables : LoaderTables memory)
    (bound : kernelPages ≤ 262144) :
    LoaderTables (pageTableInit memory kernelPages) := by
  apply tables.of_agreeOutside
  intro tested outside
  apply (pageTableInit_storesIn bound).agreeOutside memory
  have low : pageDirTable = 0x100000 := rfl
  omega

/-- With a full page table the kernel's 4 MiB stay where they were. -/
theorem switch_window (bound : kernelPages ≤ 262144)
    (full : 1024 ≤ kernelPages) (low : address < 0x400000) :
    translateAddr (pageTableInit memory kernelPages) pageDirTable
        (0xc0000000 + address) =
      some address := by
  rw [translateAddr, walk_full memory bound (by omega) (by omega) (by omega),
    Option.map_some]
  congr 1
  show 4096 * ((0xc0000000 + address - 0xc0000000) / 4096) +
    (0xc0000000 + address) % 4096 = address
  omega

private theorem switch_moved (positive : 1 ≤ kernelPages)
    (few : kernelPages < 1024) :
    translateAddr (pageTableInit memory kernelPages) pageDirTable
        0xc0000000 =
      some 0x400000 := by
  have none : kernelPages / 1024 = 0 := Nat.div_eq_of_lt few
  rw [translateAddr, walk_lastTable memory (by omega) (by omega) (by omega)
    (by omega) (by omega), none]
  rfl

end Switch

/-- `page_table_init` under the loader's tables makes the stores that it makes
in physical memory.  Loading `cr3` then leaves the first 4 MiB of the kernel
at their addresses exactly when there is a full page table, and takes their
copy at address 0 away. -/
theorem pageTableInit_switch {memory : ByteMemory} {kernelPages : Nat}
    (tables : LoaderTables memory) (positive : 1 ≤ kernelPages)
    (bound : kernelPages ≤ 262144) :
    (∃ stores : List (Nat × BitVec 8),
      (∀ before, pageTableInit before kernelPages =
        storeAll pageDirTable before stores) ∧
      writeAll pageDirTablePos pageDirTable memory stores =
        some (pageTableInit memory kernelPages)) ∧
    ((∀ address, address < 0x400000 →
        translateAddr (pageTableInit memory kernelPages) pageDirTable
            (0xc0000000 + address) =
          translateAddr (pageTableInit memory kernelPages) pageDirTablePos
            (0xc0000000 + address)) ↔
      1024 ≤ kernelPages) ∧
    ∀ address, address < 0x400000 →
      translateAddr (pageTableInit memory kernelPages) pageDirTablePos
          address = some address ∧
        translateAddr (pageTableInit memory kernelPages) pageDirTable
          address = none := by
  have after := tables.pageTableInit bound
  refine ⟨?_, ?_, ?_⟩
  · obtain ⟨stores, plain, paged⟩ := (pageTableInit_storesIn bound).writeAll
    refine ⟨stores, plain, paged memory ?_⟩
    have window := tables.lowWindow.sub
      (show pageDirTable + 0x102000 ≤ 0x400000 by decide)
    rwa [Nat.zero_add] at window
  · constructor
    · intro same
      by_contra few
      have first := same 0 (by decide)
      rw [after.translate_kernel (by decide), Nat.add_zero,
        switch_moved positive (by omega), Option.some.injEq] at first
      omega
    · intro full address low
      rw [switch_window bound full low, after.translate_kernel low]
  · intro address low
    refine ⟨after.translate_low low, ?_⟩
    rw [translateAddr, walk_absent memory bound (by omega)
      (Or.inl (by omega)), Option.map_none]

/-- The statement for 16 MiB of kernel memory behind `setup_page`. -/
theorem pageTableInit_switch_sixteen :
    (∃ stores : List (Nat × BitVec 8),
      (∀ before, pageTableInit before 4096 =
        storeAll pageDirTable before stores) ∧
      writeAll pageDirTablePos pageDirTable (setupPage ⟨fun _ => 0⟩) stores =
        some (pageTableInit (setupPage ⟨fun _ => 0⟩) 4096)) ∧
    ((∀ address, address < 0x400000 →
        translateAddr (pageTableInit (setupPage ⟨fun _ => 0⟩) 4096)
            pageDirTable (0xc0000000 + address) =
          translateAddr (pageTableInit (setupPage ⟨fun _ => 0⟩) 4096)
            pageDirTablePos (0xc0000000 + address)) ↔
      1024 ≤ 4096) ∧
    ∀ address, address < 0x400000 →
      translateAddr (pageTableInit (setupPage ⟨fun _ => 0⟩) 4096)
          pageDirTablePos address = some address ∧
        translateAddr (pageTableInit (setupPage ⟨fun _ => 0⟩) 4096)
          pageDirTable address = none :=
  pageTableInit_switch (setupPage_words ⟨fun _ => 0⟩).toLoaderTables (by decide)
    (by decide)

end Simos
