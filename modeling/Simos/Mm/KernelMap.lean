import Simos.Mm.PageSpec
import Simos.Mm.PageTable

/-!
# The map of the kernel

* `pageTableInit_linear_iff`: for which numbers of pages, and after which
  contents of the frame at 2 MiB, the tables are the linear map;
* `kernelPool_mapped_iff`: for which memory sizes every page of the kernel
  pool is mapped to its own frame.
-/

namespace Simos

open Simos.Library

/-- The linear map of the first `kernelPages` frames, with the directory in
its own last slot. -/
structure LinearKernelMap (memory : ByteMemory) (kernelPages : Nat) :
    Prop where
  kernel : ∀ address, 0xc0000000 ≤ address → address < 0xffc00000 →
    walk memory pageDirTable address =
      if (address - 0xc0000000) / 4096 < kernelPages then
        some ⟨(address - 0xc0000000) / 4096, true, true⟩
      else
        none
  user : ∀ address, address < 0xc0000000 →
    walk memory pageDirTable address = none
  self : memory.loadWord (pageDirTable + 4 * 1023) =
    fullEntry (pageDirTable / 4096)

/-- The last page table lies in the frame behind the cleared megabyte when
there are 254 full tables; its unused entries are then to be absent. -/
def TailAbsent (memory : ByteMemory) (kernelPages : Nat) : Prop :=
  254 * 1024 < kernelPages → kernelPages < 255 * 1024 →
    ∀ index, kernelPages % 1024 ≤ index → index < 1024 →
      memory.loadWord (0x200000 + 4 * index) % 2 = 0

section Walks

variable {kernelPages address : Nat} (memory : ByteMemory)

theorem walk_full (bound : kernelPages ≤ 262144)
    (kernel : 0xc0000000 ≤ address) (below : address < 0xffc00000)
    (inside : (address - 0xc0000000) / 4194304 < kernelPages / 1024) :
    walk (pageTableInit memory kernelPages) pageDirTable address =
      some ⟨(address - 0xc0000000) / 4096, true, true⟩ := by
  have slot := pageTableInit_slot memory bound inside (by omega)
  have word := pageTableInit_full memory bound inside
    (show address / 4096 % 1024 < 1024 by omega)
  rw [show 768 + (address - 0xc0000000) / 4194304 = address / 4194304 by omega]
    at slot
  rw [walk_of_full slot word]
  simp only [Option.some.injEq, PageMapping.mk.injEq, and_true]
  omega

theorem walk_lastTable (bound : kernelPages ≤ 262144)
    (kernel : 0xc0000000 ≤ address) (below : address < 0xffc00000)
    (last : (address - 0xc0000000) / 4194304 = kernelPages / 1024)
    (inside : address / 4096 % 1024 < kernelPages % 1024) :
    walk (pageTableInit memory kernelPages) pageDirTable address =
      some ⟨1024 * (kernelPages / 1024 - 1) + 1024 + address / 4096 % 1024,
        true, true⟩ := by
  have slot := pageTableInit_lastSlot memory bound
    (show kernelPages % 1024 ≠ 0 by omega) (by omega)
  have word := pageTableInit_partial memory bound inside
  rw [show 768 + kernelPages / 1024 = address / 4194304 by omega] at slot
  exact walk_of_full slot word

private theorem walk_rest (bound : kernelPages ≤ 262144)
    (kernel : 0xc0000000 ≤ address) (below : address < 0xffc00000)
    (last : (address - 0xc0000000) / 4194304 = kernelPages / 1024)
    (short : kernelPages % 1024 ≠ 0)
    (behind : kernelPages % 1024 ≤ address / 4096 % 1024) :
    walk (pageTableInit memory kernelPages) pageDirTable address = none ↔
      (kernelPages / 1024 = 254 →
        memory.loadWord (0x200000 + 4 * (address / 4096 % 1024)) % 2 = 0) := by
  have slot := pageTableInit_lastSlot memory bound short (by omega)
  have word := pageTableInit_rest memory bound behind
    (show address / 4096 % 1024 < 1024 by omega)
  rw [show 768 + kernelPages / 1024 = address / 4194304 by omega] at slot
  rw [walk_eq_none_iff slot, word]
  by_cases cleared : kernelPages / 1024 < 254
  · have notLast : kernelPages / 1024 ≠ 254 := by
      omega
    simp [cleared, notLast]
  · have isLast : kernelPages / 1024 = 254 := by
      omega
    simp [isLast]

theorem walk_absent (bound : kernelPages ≤ 262144)
    (below : address < 0xffc00000)
    (unused : address < 0xc0000000 ∨
      kernelPages / 1024 < (address - 0xc0000000) / 4194304 ∨
      ((address - 0xc0000000) / 4194304 = kernelPages / 1024 ∧
        kernelPages % 1024 = 0)) :
    walk (pageTableInit memory kernelPages) pageDirTable address = none :=
  walk_of_absent_table
    (pageTableInit_absent memory bound (by omega) (by omega))

end Walks

/-- `page_table_init` builds the linear map exactly when there is a full page
table to take `memory_addr` from and no unused entry behind the cleared
megabyte is left present. -/
theorem pageTableInit_linear_iff {kernelPages : Nat} (memory : ByteMemory)
    (positive : 1 ≤ kernelPages) (bound : kernelPages ≤ 262144) :
    LinearKernelMap (pageTableInit memory kernelPages) kernelPages ↔
      1024 ≤ kernelPages ∧ TailAbsent memory kernelPages := by
  constructor
  · intro linear
    constructor
    · by_contra few
      have first := linear.kernel 0xc0000000 (by omega) (by omega)
      rw [walk_lastTable memory bound (by omega) (by omega) (by omega)
        (by omega), if_pos (by omega), Option.some.injEq,
        PageMapping.mk.injEq] at first
      omega
    · intro above below index behind inside
      have unmapped := linear.kernel
        (0xc0000000 + 254 * 4194304 + 4096 * index) (by omega) (by omega)
      rw [if_neg (by omega)] at unmapped
      have absent := (walk_rest memory bound (by omega) (by omega) (by omega)
        (by omega) (by omega)).mp unmapped (by omega)
      rwa [show (0xc0000000 + 254 * 4194304 + 4096 * index) / 4096 % 1024 =
        index by omega] at absent
  · rintro ⟨many, tail⟩
    refine ⟨?_, ?_, ?_⟩
    · intro address kernel below
      rcases Nat.lt_trichotomy ((address - 0xc0000000) / 4194304)
        (kernelPages / 1024) with full | last | behind
      · rw [walk_full memory bound kernel below full, if_pos (by omega)]
      · by_cases short : kernelPages % 1024 = 0
        · rw [if_neg (by omega)]
          exact walk_absent memory bound below (Or.inr (Or.inr ⟨last, short⟩))
        · by_cases inside : address / 4096 % 1024 < kernelPages % 1024
          · rw [walk_lastTable memory bound kernel below last inside,
              if_pos (by omega), Option.some.injEq, PageMapping.mk.injEq]
            exact ⟨by omega, rfl, rfl⟩
          · rw [if_neg (by omega),
              walk_rest memory bound kernel below last short (by omega)]
            intro isLast
            exact tail (by omega) (by omega) _ (by omega) (by omega)
      · rw [if_neg (by omega)]
        exact walk_absent memory bound below (Or.inr (Or.inl behind))
    · intro address user
      exact walk_absent memory bound (by omega) (Or.inl user)
    · exact pageTableInit_self memory bound

/-- The statement at 16 MiB of kernel memory. -/
theorem pageTableInit_linear_sixteen :
    LinearKernelMap (pageTableInit ⟨fun _ => 255⟩ 4096) 4096 :=
  (pageTableInit_linear_iff ⟨fun _ => 255⟩ (by decide) (by decide)).mpr
    ⟨by decide, fun above => absurd above (by decide)⟩

/-- With a single page the first page of the kernel is mapped to the frame at
4 MiB. -/
theorem pageTableInit_one_not_linear :
    ¬ LinearKernelMap (pageTableInit ⟨fun _ => 0⟩ 1) 1 := by
  intro linear
  have first := linear.kernel 0xc0000000 (by decide) (by decide)
  rw [walk_lastTable _ (by decide) (by decide) (by decide) (by decide)
    (by decide)] at first
  exact absurd first (by decide)

/-! ## The kernel pool -/

/-- Every page that the kernel pool can hand out is mapped to its own frame,
and no such frame holds the directory or a page table. -/
def KernelPoolMapped (s : MmState) (memory : ByteMemory) : Prop :=
  ∀ page, page < s.kernelPages →
    translateAddr memory pageDirTable (s.kernelVmPool.vmStart + 4096 * page) =
        some (s.kernelPool.phyAddrStart + 4096 * page) ∧
      pageDirTable + 4096 * 257 ≤ s.kernelPool.phyAddrStart + 4096 * page

private theorem totalKernelPages_eq {totalMem : Nat}
    (below : totalMem < 0x100000000) :
    totalKernelPages totalMem =
      if totalMem ≥ 0x80000000 then 262144 else totalMem / 2 / 4096 := by
  unfold totalKernelPages kernelThreshold kernelMaxSize pageSize u32
  simp only
  split <;> omega

private theorem translate_pool {kernelPages page : Nat} (memory : ByteMemory)
    (bound : kernelPages ≤ 262144) (inside : 4096 + page < kernelPages)
    (below : page < 257024) :
    translateAddr (pageTableInit memory kernelPages) pageDirTable
        (0xc1000000 + 4096 * page) =
      some (0x1000000 + 4096 * page) := by
  unfold translateAddr
  by_cases full : 4096 / 1024 + page / 1024 < kernelPages / 1024
  · rw [walk_full memory bound (by omega) (by omega) (by omega)]
    simp only [Option.map_some, Option.some.injEq]
    omega
  · rw [walk_lastTable memory bound (by omega) (by omega) (by omega) (by omega)]
    simp only [Option.map_some, Option.some.injEq]
    omega

/-- The first page of the self-map leads to the first entry of the directory,
which is absent. -/
theorem translate_selfMap {kernelPages : Nat} (memory : ByteMemory)
    (bound : kernelPages ≤ 262144) :
    translateAddr (pageTableInit memory kernelPages) pageDirTable 0xffc00000 =
      none := by
  have entry := pageTableInit_self memory bound
  have absent := pageTableInit_absent memory bound
    (show 0 < 1023 by decide) (Or.inl (by decide))
  have unmapped : walk (pageTableInit memory kernelPages) pageDirTable
      0xffc00000 = none :=
    (walk_eq_none_iff entry).mpr (congrArg (· % 2) absent)
  simp [translateAddr, unmapped]

/-- After `mem_init` the kernel pool is mapped exactly when it ends below the
4 MiB at the top, which the tables map to themselves. -/
theorem kernelPool_mapped_iff {totalMem : Nat} (prior : MmState)
    (memory : ByteMemory) (large : 0x2000000 ≤ totalMem)
    (below : totalMem < 0x100000000) :
    ∃ s, memPoolInit prior totalMem = .ok s ∧
      (KernelPoolMapped s (pageTableInit memory (totalKernelPages totalMem)) ↔
        totalMem < 0x7f810000) := by
  obtain ⟨s, booted⟩ := memPoolInit_returns prior totalMem
  have layout := (memPoolInit_layout large booted).1
  have pages := memPoolInit_kernelPages large booted
  have mapped := totalKernelPages_eq below
  have vmStart : s.kernelVmPool.vmStart = 0xc1000000 := layout.vmStart
  have phyStart : s.kernelPool.phyAddrStart = 0x1000000 := layout.phyStart
  have bound : totalKernelPages totalMem ≤ 262144 := by
    rw [mapped]
    split <;> omega
  refine ⟨s, booted, ?_⟩
  constructor
  · intro allMapped
    by_contra tooLarge
    have last : 257024 < s.kernelPages := by
      rw [pages]
      split <;> omega
    have selfMap := (allMapped 257024 last).1
    rw [vmStart, translate_selfMap memory bound] at selfMap
    exact absurd selfMap (by simp)
  · intro small page inside
    rw [if_neg (by omega)] at pages mapped
    rw [vmStart, phyStart]
    constructor
    · exact translate_pool memory bound (by omega) (by omega)
    · unfold pageDirTable
      omega

/-- The statement at 34 MiB of memory, for a kernel that was just loaded. -/
theorem kernelPool_mapped_smallest :
    ∃ s, memPoolInit coldMm 0x2200000 = .ok s ∧
      (KernelPoolMapped s
          (pageTableInit ⟨fun _ => 0⟩ (totalKernelPages 0x2200000)) ↔
        0x2200000 < 0x7f810000) :=
  kernelPool_mapped_iff coldMm ⟨fun _ => 0⟩ (by decide) (by decide)

/-- With 2 GiB of memory the pool has a page at `0xffc00000`, and the walk for
it meets an absent entry. -/
theorem kernelPool_unmapped :
    ∃ s, memPoolInit coldMm 0x80000000 = .ok s ∧
      257024 < s.kernelVmPool.vmBitmap.bitCount ∧
      translateAddr (pageTableInit ⟨fun _ => 0⟩ (totalKernelPages 0x80000000))
          pageDirTable (s.kernelVmPool.vmStart + 4096 * 257024) =
        none := by
  obtain ⟨s, booted⟩ := memPoolInit_returns coldMm 0x80000000
  have layout := (memPoolInit_layout (by decide) booted).1
  have pages := memPoolInit_kernelPages (by decide) booted
  have vmStart : s.kernelVmPool.vmStart = 0xc1000000 := layout.vmStart
  refine ⟨s, booted, ?_, ?_⟩
  · rw [if_pos (by decide)] at pages
    unfold MmState.kernelPages at pages
    omega
  · rw [vmStart]
    exact translate_selfMap ⟨fun _ => 0⟩ (by decide)

end Simos
