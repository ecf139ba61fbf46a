import Simos.Kernel.BitmapSearch
import Simos.Mm.Pools

/-!
# What the kernel page functions compute

`PoolsCounted` is what `mem_pool_init` makes of the pages that it counts, and
`KernelPoolLayout` collects the constants that it leaves and no page function
changes.  Under it `page_alloc` and `page_free` of the kernel pool are given in
closed form: which bits of the two bitmaps they write.
-/

namespace Simos

open Simos.Library

namespace MmState

def kernelPages (s : MmState) : Nat :=
  s.kernelVmPool.vmBitmap.bitCount

/-- Bit `page` of the kernel's virtual bitmap. -/
def vmBit (s : MmState) (page : Nat) : Bool :=
  s.kernelVmPool.vmBitmap.bits page

/-- Bit `page` of the kernel's physical bitmap. -/
def poolBit (s : MmState) (page : Nat) : Bool :=
  s.kernelPool.poolBitmap.bits page

def withKernelBitmaps (s : MmState) (vmBitmap poolBitmap : Bitmap) : MmState :=
  { s with
    kernelVmPool := { s.kernelVmPool with vmBitmap }
    kernelPool := { s.kernelPool with poolBitmap } }

def withLock (s : MmState) (lock : Lock (List Nat)) : MmState :=
  { s with kernelPool := { s.kernelPool with lock } }

def withMemory (s : MmState) (memory : ByteMemory) : MmState :=
  { s with memory }

end MmState

def pageAddr (page : Nat) : Nat :=
  kernelHeapBase + pageSize * page

theorem pageAddr_eq (page : Nat) : pageAddr page = 0xc1000000 + 4096 * page :=
  rfl

/-! The arithmetic on page addresses stands in lemmas of its own, where no
wrapped subtraction is left for the kernel to unfold. -/

private theorem sub32_pageAddr_pageOffest {page offset : Nat}
    (inside : page < 258048) (inPage : offset < pageSize) :
    sub32 (pageAddr page + offset) pageOffest =
      0x1000000 + 4096 * page + offset := by
  unfold pageSize at inPage
  rw [pageAddr_eq, pageOffest, sub32_of_le (by omega) (by omega)]
  omega

private theorem sub32_pageAddr_kernelHeapBase {page offset : Nat}
    (inside : page < 258048) (inPage : offset < pageSize) :
    sub32 (pageAddr page + offset) kernelHeapBase / pageSize = page := by
  unfold pageSize at *
  rw [pageAddr_eq, kernelHeapBase, sub32_of_le (by omega) (by omega)]
  omega

private theorem toU32_pageAddr {page : Nat} (inside : page < 258048) :
    toU32 ((kernelHeapBase : Nat) + ((page : Nat) : Int) * pageSize) =
      pageAddr page := by
  rw [pageAddr_eq, kernelHeapBase, pageSize, toU32]
  omega

private theorem sub32_physical {page offset : Nat} (inside : page < 258048)
    (inPage : offset < pageSize) :
    sub32 (0x1000000 + 4096 * page + offset) (kernelHeapBase - pageOffest) /
      pageSize = page := by
  have base : kernelHeapBase - pageOffest = 0x1000000 := by rfl
  unfold pageSize at *
  rw [base, sub32_of_le (by omega) (by omega)]
  omega

theorem pageAddr_ne_zero (page : Nat) : pageAddr page ≠ 0 := by
  rw [pageAddr_eq]
  omega

/-- The constants of the kernel pool after `mem_pool_init`. -/
structure KernelPoolLayout (s : MmState) : Prop where
  vmStart : s.kernelVmPool.vmStart = kernelHeapBase
  phyStart : s.kernelPool.phyAddrStart = kernelHeapBase - pageOffest
  vmPointer : s.kernelVmPool.vmBitmap.bitmap ≠ 0
  poolPointer : s.kernelPool.poolBitmap.bitmap ≠ 0
  sameCount : s.kernelPool.poolBitmap.bitCount = s.kernelPages
  bytesLen : s.kernelPages = 8 * s.kernelVmPool.vmBitmap.bitmapBytesLen
  pagesBound : s.kernelPages ≤ 258048
  userAbove :
    kernelHeapBase - pageOffest + pageSize * s.kernelPages ≤
      s.userPool.phyAddrStart

namespace KernelPoolLayout

variable {s : MmState}

/-- The layout does not depend on the bits, the memory or the locks. -/
theorem of_withKernelBitmaps (layout : KernelPoolLayout s)
    {vmBitmap poolBitmap : Bitmap}
    (vmLen : vmBitmap.bitmapBytesLen =
      s.kernelVmPool.vmBitmap.bitmapBytesLen)
    (vmPointer : vmBitmap.bitmap = s.kernelVmPool.vmBitmap.bitmap)
    (poolLen : poolBitmap.bitmapBytesLen =
      s.kernelPool.poolBitmap.bitmapBytesLen)
    (poolPointer : poolBitmap.bitmap = s.kernelPool.poolBitmap.bitmap) :
    KernelPoolLayout (s.withKernelBitmaps vmBitmap poolBitmap) where
  vmStart := layout.vmStart
  phyStart := layout.phyStart
  vmPointer := by
    simpa [MmState.withKernelBitmaps, vmPointer] using layout.vmPointer
  poolPointer := by
    simpa [MmState.withKernelBitmaps, poolPointer] using layout.poolPointer
  sameCount := by
    simpa [MmState.withKernelBitmaps, MmState.kernelPages, Bitmap.bitCount,
      vmLen, poolLen] using layout.sameCount
  bytesLen := by
    simpa [MmState.withKernelBitmaps, MmState.kernelPages, Bitmap.bitCount,
      vmLen] using layout.bytesLen
  pagesBound := by
    simpa [MmState.withKernelBitmaps, MmState.kernelPages, Bitmap.bitCount,
      vmLen] using layout.pagesBound
  userAbove := by
    simpa [MmState.withKernelBitmaps, MmState.kernelPages, Bitmap.bitCount,
      vmLen] using layout.userAbove

theorem withLock (layout : KernelPoolLayout s) (lock : Lock (List Nat)) :
    KernelPoolLayout (s.withLock lock) :=
  ⟨layout.vmStart, layout.phyStart, layout.vmPointer, layout.poolPointer,
    layout.sameCount, layout.bytesLen, layout.pagesBound, layout.userAbove⟩

theorem withMemory (layout : KernelPoolLayout s) (memory : ByteMemory) :
    KernelPoolLayout (s.withMemory memory) :=
  ⟨layout.vmStart, layout.phyStart, layout.vmPointer, layout.poolPointer,
    layout.sameCount, layout.bytesLen, layout.pagesBound, layout.userAbove⟩

end KernelPoolLayout

/-- The pools that `mem_pool_init` makes out of the pages it counts. -/
structure PoolsCounted (s : MmState) (kernelPages userPages : Nat) : Prop where
  kernelStart : s.kernelPool.phyAddrStart = 0x1000000
  kernelSize : s.kernelPool.poolSize = u32 (kernelPages * 4096)
  userStart : s.userPool.phyAddrStart = u32 (kernelPages * 4096 + 0x1000000)
  userSize : s.userPool.poolSize = u32 (userPages * 4096)
  kernelBitmap : s.kernelPool.poolBitmap.bitmap = 0xc007e000
  kernelBytes : s.kernelPool.poolBitmap.bitmapBytesLen = kernelPages / 8
  userBitmap : s.userPool.poolBitmap.bitmap = 0xc007e000 + kernelPages / 8
  userBytes : s.userPool.poolBitmap.bitmapBytesLen = userPages / 8
  vmBitmap : s.kernelVmPool.vmBitmap.bitmap = 0xc0075000
  vmBytes : s.kernelVmPool.vmBitmap.bitmapBytesLen = kernelPages / 8

def kernelMemSize (totalMem : Nat) : Nat :=
  if totalMem ≥ 0x80000000 then 0x3f000000
  else toU32 ((totalMem / 2 : Nat) - 0x1000000)

def userMemSize (totalMem : Nat) : Nat :=
  toU32 (totalMem - kernelMemSize totalMem - 0x1000000)

theorem memPoolInit_counted {prior s : MmState} {totalMem : Nat}
    (booted : memPoolInit prior totalMem = .ok s) :
    PoolsCounted s (kernelMemSize totalMem / 4096)
      (userMemSize totalMem / 4096) := by
  simp only [memPoolInit, Call.bind_eq_ok_iff, Call.pure_eq_ok,
    Except.ok.injEq] at booted
  obtain ⟨kernelBitmap, kernelZero, userBitmap, userZero, vmBitmap, vmZero,
    rfl⟩ := booted
  obtain ⟨_, kernelPointer, kernelLen, _⟩ := bitmapZero_ok kernelZero
  obtain ⟨_, userPointer, userLen, _⟩ := bitmapZero_ok userZero
  obtain ⟨_, vmPointer, vmLen, _⟩ := bitmapZero_ok vmZero
  exact
    { kernelStart := rfl
      kernelSize := rfl
      userStart := rfl
      userSize := rfl
      kernelBitmap := kernelPointer
      kernelBytes := kernelLen
      userBitmap := userPointer
      userBytes := userLen
      vmBitmap := vmPointer
      vmBytes := vmLen }

/-- From 32 MB on the subtraction of the first 16 MB does not wrap. -/
theorem kernelMemSize_eq {totalMem : Nat} (large : 0x2000000 ≤ totalMem) :
    kernelMemSize totalMem =
      if totalMem ≥ 0x80000000 then 0x3f000000
      else totalMem / 2 - 0x1000000 := by
  unfold kernelMemSize toU32
  split <;> omega

theorem kernelMemSize_le {totalMem : Nat} (large : 0x2000000 ≤ totalMem) :
    kernelMemSize totalMem ≤ 0x3f000000 := by
  rw [kernelMemSize_eq large]
  split <;> omega

private theorem memPoolInit_clear {prior s : MmState} {totalMem : Nat}
    (booted : memPoolInit prior totalMem = .ok s) :
    s.kernelVmPool.vmStart = kernelHeapBase ∧
      (∀ page, page < 8 * (kernelMemSize totalMem / 4096 / 8) →
        s.vmBit page = false) ∧
      (∀ page, page < 8 * (kernelMemSize totalMem / 4096 / 8) →
        s.poolBit page = false) := by
  simp only [memPoolInit, Call.bind_eq_ok_iff, Call.pure_eq_ok,
    Except.ok.injEq] at booted
  obtain ⟨kernelBitmap, kernelZero, userBitmap, _, vmBitmap, vmZero, rfl⟩ :=
    booted
  obtain ⟨_, _, _, kernelClear⟩ := bitmapZero_ok kernelZero
  obtain ⟨_, _, _, vmClear⟩ := bitmapZero_ok vmZero
  exact ⟨rfl, vmClear, kernelClear⟩

/-- The bits of the kernel's bitmaps are the pages of its pool, but for the
last few. -/
theorem memPoolInit_bitCount {prior s : MmState} {totalMem : Nat}
    (large : 0x2000000 ≤ totalMem)
    (booted : memPoolInit prior totalMem = .ok s) :
    s.kernelPages = 8 * (kernelMemSize totalMem / 4096 / 8) ∧
      s.kernelPool.poolBitmap.bitCount =
        8 * (kernelMemSize totalMem / 4096 / 8) := by
  have counted := memPoolInit_counted booted
  have bound := kernelMemSize_le large
  have narrow : u32 (kernelMemSize totalMem / 4096 / 8 * 8) =
      8 * (kernelMemSize totalMem / 4096 / 8) := by
    rw [u32_of_lt (by omega), Nat.mul_comm]
  rw [MmState.kernelPages, Bitmap.bitCount, Bitmap.bitCount, counted.vmBytes,
    counted.kernelBytes]
  exact ⟨narrow, narrow⟩

/-- `mem_pool_init` returns, with the layout in place and all kernel bits
clear. -/
theorem memPoolInit_layout {prior s : MmState} {totalMem : Nat}
    (large : 0x2000000 ≤ totalMem)
    (booted : memPoolInit prior totalMem = .ok s) :
    KernelPoolLayout s ∧
      (∀ page, page < s.kernelPages → s.vmBit page = false) ∧
      (∀ page, page < s.kernelPages → s.poolBit page = false) := by
  have counted := memPoolInit_counted booted
  obtain ⟨vmStart, vmClear, poolClear⟩ := memPoolInit_clear booted
  obtain ⟨vmCount, poolCount⟩ := memPoolInit_bitCount large booted
  have bound := kernelMemSize_le large
  refine ⟨?_, ?_, ?_⟩
  · constructor
    case vmStart =>
      exact vmStart
    case phyStart =>
      exact counted.kernelStart
    case vmPointer =>
      rw [counted.vmBitmap]
      decide
    case poolPointer =>
      rw [counted.kernelBitmap]
      decide
    case sameCount =>
      exact poolCount.trans vmCount.symm
    case bytesLen =>
      rw [vmCount, counted.vmBytes]
    case pagesBound =>
      rw [vmCount]
      omega
    case userAbove =>
      have base : kernelHeapBase - pageOffest = 0x1000000 := by rfl
      rw [vmCount, counted.userStart, base, pageSize, u32_of_lt (by omega)]
      omega
  · rw [vmCount]
    exact vmClear
  · rw [vmCount]
    exact poolClear

/-- `mem_pool_init` frees the locks, bounds the kernel pool by its part of the
address space, and leaves the rest of the state alone. -/
theorem memPoolInit_rest {prior s : MmState} {totalMem : Nat}
    (large : 0x2000000 ≤ totalMem)
    (booted : memPoolInit prior totalMem = .ok s) :
    s.kernelPool.poolSize ≤ 0x3f000000 ∧ s.kernelPool.lock = lockInit ∧
      s.curTask = prior.curTask ∧
      s.kernelBlockDescArray = prior.kernelBlockDescArray ∧
      s.memory = prior.memory := by
  have size := (memPoolInit_counted booted).kernelSize
  have bound := kernelMemSize_le large
  simp only [memPoolInit, Call.bind_eq_ok_iff, Call.pure_eq_ok,
    Except.ok.injEq] at booted
  obtain ⟨_, _, _, _, _, _, rfl⟩ := booted
  refine ⟨?_, rfl, rfl, rfl, rfl⟩
  rw [size, u32_of_lt (by omega)]
  omega

/-- `mem_pool_init` fails no assertion and touches no unmapped page. -/
theorem memPoolInit_returns (prior : MmState) (totalMem : Nat) :
    ∃ s, memPoolInit prior totalMem = .ok s := by
  have pointers : memBitmapBase ≠ 0 ∧ kernelVmBitmapBase ≠ 0 := by decide
  apply Call.returns_bind
  · exact bitmapZero_returns pointers.1
  intro kernelBitmap
  apply Call.returns_bind
  · exact bitmapZero_returns (Nat.ne_of_gt (Nat.add_pos_left (by decide) _))
  intro userBitmap
  apply Call.returns_bind
  · exact bitmapZero_returns pointers.2
  intro vmBitmap
  exact ⟨_, rfl⟩

/-- The number of pages that `mem_pool_init` gives the kernel pool. -/
theorem memPoolInit_kernelPages {prior s : MmState} {totalMem : Nat}
    (large : 0x2000000 ≤ totalMem)
    (booted : memPoolInit prior totalMem = .ok s) :
    s.kernelPages =
      if totalMem ≥ 0x80000000 then
        258048
      else
        8 * ((totalMem / 2 - 0x1000000) / 4096 / 8) := by
  rw [(memPoolInit_bitCount large booted).1, kernelMemSize_eq large]
  split
  · rfl
  · rfl

theorem foldlM_setBits {bitmap : Bitmap} {start : Nat} :
    ∀ count : Nat, bitmap.bitmap ≠ 0 → start + count ≤ bitmap.bitCount →
      (List.range count).foldlM
          (fun bitmap (i : Nat) =>
            bitmapSetBit bitmap (toU32 ((start : Int) + i)) .bitSet) bitmap =
        (.ok (bitmap.writeRange start count true) : Call Bitmap)
  | 0, _, _ => rfl
  | count + 1, pointer, room => by
      have small := bitmap.bitCount_lt
      have index : toU32 ((start : Int) + (count : Nat)) = start + count := by
        unfold toU32
        omega
      rw [List.range_succ, List.foldlM_append,
        foldlM_setBits count pointer (by omega), Bitmap.writeRange_succ]
      simp only [Call.ok_bind, List.foldlM_cons, List.foldlM_nil, index,
        bind_pure]
      rw [bitmapSetBit_eq_ok_iff]
      refine ⟨by simpa using pointer, ?_, rfl⟩
      rw [Bitmap.bitCount_writeRange]
      omega

/-- `page_alloc(PF_KERNEL, n)` follows `bitmap_apply` on the virtual bitmap.
The virtual bitmap gets the whole range, the physical one its first bit. -/
theorem pageAlloc_kernel {s : MmState} (layout : KernelPoolLayout s)
    {pgCnt : Nat} (positive : 1 ≤ pgCnt) (bound : pgCnt < 4294967296) :
    pageAlloc s .pfKernel pgCnt =
      (bitmapApply s.kernelVmPool.vmBitmap pgCnt >>= fun result =>
        if result = -1 then .ok (0, s)
        else .ok (pageAddr result.toNat,
          s.withKernelBitmaps
            (s.kernelVmPool.vmBitmap.writeRange result.toNat pgCnt true)
            (s.kernelPool.poolBitmap.write result.toNat true))) := by
  have pages := layout.pagesBound
  have same := layout.sameCount
  unfold MmState.kernelPages at pages same
  cases applied : bitmapApply s.kernelVmPool.vmBitmap pgCnt with
  | error stop =>
      simp [pageAlloc, vaddrAlloc, applied]
  | ok result =>
      rcases bitmapApply_isApplied positive bound applied with
        failed | ⟨index, equal, room, _⟩
      · subst result
        simp [pageAlloc, vaddrAlloc, applied, toI32]
      · subst result
        have notFailed : ((index : Nat) : Int) ≠ -1 := by omega
        have narrow : toI32 (index : Nat) = (index : Nat) := by
          unfold toI32
          omega
        have address :
            toU32 ((s.kernelVmPool.vmStart : Nat) +
                ((index : Nat) : Int) * pageSize) =
              pageAddr index := by
          rw [layout.vmStart]
          exact toU32_pageAddr (by omega)
        have physical :
            sub32 (sub32 (pageAddr index) pageOffest)
                s.kernelPool.phyAddrStart / pageSize = index := by
          have inside : index < 258048 := by omega
          have first : 0 < pageSize := by decide
          have lowered := sub32_pageAddr_pageOffest inside first
          rw [Nat.add_zero] at lowered
          rw [layout.phyStart, lowered]
          exact sub32_physical inside first
        have poolWritten :
            bitmapSetBits s.kernelPool.poolBitmap index pgCnt .bitSet =
              .ok (s.kernelPool.poolBitmap.write index true) :=
          (bitmapSetBits_eq_ok_iff positive (by omega)).mpr
            ⟨layout.poolPointer, by omega, rfl⟩
        simp only [pageAlloc, vaddrAlloc, applied, Call.ok_bind, narrow,
          if_neg notFailed, foldlM_setBits pgCnt layout.vmPointer room,
          Call.pure_eq_ok, address, if_neg (pageAddr_ne_zero index), physical, poolWritten,
          Int.toNat_natCast]
        rfl

/-- What an allocation of kernel pages does to the bitmaps: nothing when it
returns `NULL`, else the range that it returns was clear and is now taken. -/
def PagesTaken (s : MmState) (pgCnt vaddr : Nat) (s' : MmState) : Prop :=
  (vaddr = 0 ∧ s' = s) ∨
    ∃ page, s.kernelVmPool.vmBitmap.ClearRun page pgCnt ∧
      vaddr = pageAddr page ∧
      s' = s.withKernelBitmaps
        (s.kernelVmPool.vmBitmap.writeRange page pgCnt true)
        (s.kernelPool.poolBitmap.write page true)

theorem pageAlloc_pagesTaken {s s' : MmState} (layout : KernelPoolLayout s)
    {pgCnt vaddr : Nat} (positive : 1 ≤ pgCnt) (bound : pgCnt < 4294967296)
    (returned : pageAlloc s .pfKernel pgCnt = .ok (vaddr, s')) :
    PagesTaken s pgCnt vaddr s' := by
  rw [pageAlloc_kernel layout positive bound, Call.bind_eq_ok_iff] at returned
  obtain ⟨result, applied, returned⟩ := returned
  rcases bitmapApply_isApplied positive bound applied with
    failed | ⟨page, equal, clear⟩
  · rw [if_pos failed, Except.ok.injEq, Prod.mk.injEq] at returned
    exact Or.inl ⟨returned.1.symm, returned.2.symm⟩
  · rw [if_neg (by omega), Except.ok.injEq, Prod.mk.injEq] at returned
    rw [equal, Int.toNat_natCast] at returned
    exact Or.inr ⟨page, clear, returned.1.symm, returned.2.symm⟩

/-- `page_alloc` returns `NULL` when the search of the virtual bitmap fails. -/
theorem pageAlloc_null_iff {s s' : MmState} (layout : KernelPoolLayout s)
    {pgCnt vaddr : Nat} (positive : 1 ≤ pgCnt) (bound : pgCnt < 4294967296)
    (returned : pageAlloc s .pfKernel pgCnt = .ok (vaddr, s')) :
    vaddr = 0 ↔ bitmapApply s.kernelVmPool.vmBitmap pgCnt = .ok (-1) := by
  rw [pageAlloc_kernel layout positive bound, Call.bind_eq_ok_iff] at returned
  obtain ⟨result, applied, returned⟩ := returned
  rw [applied, Except.ok.injEq]
  by_cases failed : result = -1
  · rw [if_pos failed, Except.ok.injEq, Prod.mk.injEq] at returned
    simp [failed, returned.1.symm]
  · rw [if_neg failed, Except.ok.injEq, Prod.mk.injEq] at returned
    simp [failed, returned.1.symm, pageAddr_ne_zero]

/-- `get_kernel_pages` is `page_alloc` between changes of the lock and of the
memory. -/
theorem getKernelPages_eq_ok {s s' : MmState} {pages vaddr : Nat}
    (returned : getKernelPages s pages = .ok (vaddr, s')) :
    ∃ held taken memory freed,
      pageAlloc (s.withLock held) .pfKernel pages = .ok (vaddr, taken) ∧
        s' = (taken.withMemory memory).withLock freed := by
  simp only [getKernelPages, Call.bind_eq_ok_iff, Call.pure_eq_ok,
    Except.ok.injEq, Prod.mk.injEq] at returned
  obtain ⟨held, _, ⟨vaddr', taken⟩, allocated, memory, _, freed, _, rfl, rfl⟩ :=
    returned
  exact ⟨held, taken, memory, freed, allocated, rfl⟩

/-- A page that `get_kernel_pages(1)` returns was free, and only its bit is
new. -/
theorem getKernelPages_one_fresh {s s' : MmState} {vaddr : Nat}
    (layout : KernelPoolLayout s)
    (returned : getKernelPages s 1 = .ok (vaddr, s')) (nonNull : vaddr ≠ 0) :
    KernelPoolLayout s' ∧ s'.kernelPages = s.kernelPages ∧
      ∃ page, page < s.kernelPages ∧ vaddr = pageAddr page ∧
        s.vmBit page = false ∧
        ∀ other, s'.vmBit other =
          if other = page then true else s.vmBit other := by
  obtain ⟨held, taken, memory, freed, allocated, rfl⟩ :=
    getKernelPages_eq_ok returned
  rcases pageAlloc_pagesTaken (layout.withLock held) (by decide) (by decide)
      allocated with ⟨null, _⟩ | ⟨page, clear, rfl, rfl⟩
  · exact absurd null nonNull
  refine ⟨?_, ?_, page, ?_, rfl, ?_, ?_⟩
  · apply KernelPoolLayout.withLock
    apply KernelPoolLayout.withMemory
    exact (layout.withLock held).of_withKernelBitmaps (by simp) (by simp) rfl
      rfl
  · exact Bitmap.bitCount_writeRange ..
  · exact clear.1
  · exact clear.2 page (Nat.le_refl _) (Nat.lt_succ_self _)
  · intro other
    have written := Bitmap.bits_writeRange s.kernelVmPool.vmBitmap true page 1
      other
    have same : (page ≤ other ∧ other < page + 1) = (other = page) := by
      rw [eq_iff_iff]
      omega
    simp only [same] at written
    exact written

private theorem pageFreeLoop_kernel :
    ∀ (count page offset : Nat) {s : MmState}, KernelPoolLayout s →
      offset < pageSize → page + count ≤ s.kernelPages →
      pageFreeLoop count (0x1000000 + 4096 * page + offset) s =
        .ok (s.withKernelBitmaps s.kernelVmPool.vmBitmap
          ((List.range' page count).foldl
            (fun bitmap page => bitmap.write page false)
            s.kernelPool.poolBitmap))
  | 0, _, _, s, _, _, _ => rfl
  | count + 1, page, offset, s, layout, inPage, room => by
      have pages := layout.pagesBound
      have small : offset < 4096 := inPage
      have notUser : ¬ (0x1000000 + 4096 * page + offset ≥
          s.userPool.phyAddrStart) := by
        have above := layout.userAbove
        have base : kernelHeapBase - pageOffest = 0x1000000 := by rfl
        unfold pageSize at above
        omega
      have index :
          sub32 (0x1000000 + 4096 * page + offset) s.kernelPool.phyAddrStart /
            pageSize = page := by
        rw [layout.phyStart]
        exact sub32_physical (by omega) inPage
      have written :
          bitmapSetBit s.kernelPool.poolBitmap page .bitClear =
            .ok (s.kernelPool.poolBitmap.write page false) :=
        bitmapSetBit_eq_ok_iff.mpr
          ⟨layout.poolPointer, by rw [layout.sameCount]; omega, rfl⟩
      have next :
          u32 (0x1000000 + 4096 * page + offset + pageSize) =
            0x1000000 + 4096 * (page + 1) + offset := by
        unfold pageSize
        rw [u32_of_lt (by omega)]
        omega
      have layout' : KernelPoolLayout (s.withKernelBitmaps
          s.kernelVmPool.vmBitmap
          (s.kernelPool.poolBitmap.write page false)) :=
        layout.of_withKernelBitmaps rfl rfl rfl rfl
      have rest := pageFreeLoop_kernel count (page + 1) offset layout' inPage
        (by
          show page + 1 + count ≤ s.kernelPages
          omega)
      rw [pageFreeLoop, phyFree, if_neg notUser]
      simp only [index, written, Call.ok_bind, Call.pure_eq_ok, next]
      exact rest

/-- `page_free(PF_KERNEL, p, n)` for a pointer into the first page of its
range.  The physical bitmap loses the whole range, the virtual one its first
bit. -/
theorem pageFree_kernel {s : MmState} (layout : KernelPoolLayout s)
    {page offset pgCnt : Nat} (positive : 1 ≤ pgCnt)
    (inPage : offset < pageSize) (room : page + pgCnt ≤ s.kernelPages) :
    pageFree s .pfKernel (pageAddr page + offset) pgCnt =
      .ok (s.withKernelBitmaps
        (s.kernelVmPool.vmBitmap.write page false)
        (s.kernelPool.poolBitmap.writeRange page pgCnt false)) := by
  have pages := layout.pagesBound
  have small : page < 258048 := by omega
  have physical := sub32_pageAddr_pageOffest small inPage
  have index :
      sub32 (pageAddr page + offset) s.kernelVmPool.vmStart / pageSize =
        page := by
    rw [layout.vmStart]
    exact sub32_pageAddr_kernelHeapBase (by omega) inPage
  have written :
      bitmapSetBits s.kernelVmPool.vmBitmap page pgCnt .bitClear =
        .ok (s.kernelVmPool.vmBitmap.write page false) :=
    (bitmapSetBits_eq_ok_iff positive (by omega)).mpr
      ⟨layout.vmPointer, by
        unfold MmState.kernelPages at room
        omega, rfl⟩
  have range :
      (List.range' page pgCnt).foldl
          (fun bitmap page => bitmap.write page false)
          s.kernelPool.poolBitmap =
        s.kernelPool.poolBitmap.writeRange page pgCnt false := by
    rw [List.range'_eq_map_range, List.foldl_map]
    rfl
  have freed := pageFreeLoop_kernel pgCnt page offset layout inPage room
  rw [range] at freed
  unfold pageFree
  rw [Call.assert_of positive]
  simp only [Call.ok_bind, physical, freed, vaddrFree,
    MmState.withKernelBitmaps, index, written, Call.pure_eq_ok]

end Simos
