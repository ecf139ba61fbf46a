import Simos.Kernel.Bitmap
import Simos.Library.ByteMemory
import Simos.Thread.Sync

/-!
# Page pools (`mm/memory.c`, page level)

The state holds the pools, the fields of the current task that memory
management reads, the address of `kernel_block_desc_array` and the memory
behind the kernel's virtual addresses.  The bitmaps carry their own bytes.

The page directory maps the kernel pool linearly up to `0xffc00000`; its last
entry points at the directory itself, so that the addresses from there on
lead to page tables or nowhere.  A `memset` that reaches them faults or wipes
the tables of the running kernel, and does not come back.
-/

namespace Simos

open Simos.Library

def pageOffest : Nat := 0xc0000000

def pageSize : Nat := 4096

def pageMask : Nat := 0xfffff000

def memBitmapBase : Nat := 0xc007e000

def kernelVmBitmapBase : Nat := 0xc0075000

def kernelHeapBase : Nat := 0xc1000000

def kernelThreshold : Nat := 0x80000000

def kernelMaxSize : Nat := 0x40000000

/-- The first address behind the last entry of the page directory. -/
def selfMapBase : Nat := 0xffc00000

inductive PoolFlags where
  | pfKernel
  | pfUser
  deriving DecidableEq, Repr

structure PhysicalMemPool where
  poolBitmap : Bitmap
  phyAddrStart : Nat
  poolSize : Nat
  lock : Lock (List Nat)

structure VirtualMemPool where
  vmBitmap : Bitmap
  vmStart : Nat

/-- The current task: its PCB address and the fields of `struct task_struct`
that memory management reads. -/
structure MmTask where
  pcb : Nat
  pdeAddr : Nat
  userprogVaddr : VirtualMemPool
  userBlockDescArray : Nat

/-- The data of `mm/memory.c`. -/
structure MmState where
  kernelPool : PhysicalMemPool
  userPool : PhysicalMemPool
  kernelVmPool : VirtualMemPool
  curTask : MmTask
  kernelBlockDescArray : Nat
  memory : ByteMemory

/-- The `int32_t` that a 64-bit value is cut to. -/
def toI32 (value : Int) : Int :=
  (value + 2147483648) % 4294967296 - 2147483648

def memset (memory : ByteMemory) (dst ch count : Nat) : Call ByteMemory := do
  Call.assert (dst ≠ 0)
  if count ≠ 0 ∧ dst + count > selfMapBase then
    .error .pageFault
  else
    return memory.fill dst (BitVec.ofNat 8 ch) count

def memPoolInit (s : MmState) (totalMem : Nat) : Call MmState := do
  let reserved := kernelHeapBase - 0xc0000000
  let kernelMemSize : Nat :=
    if totalMem ≥ kernelThreshold then
      kernelMaxSize - reserved
    else
      toU32 ((totalMem / 2 : Nat) - reserved : Int)
  let userMemSize : Nat := toU32 (totalMem - kernelMemSize - reserved : Int)
  let kernelPages := kernelMemSize / pageSize
  let userPages := userMemSize / pageSize
  let kernelBitmap ← bitmapZero
    { s.kernelPool.poolBitmap with
      bitmap := memBitmapBase, bitmapBytesLen := kernelPages / 8 }
  let userBitmap ← bitmapZero
    { s.userPool.poolBitmap with
      bitmap := memBitmapBase + kernelPages / 8
      bitmapBytesLen := userPages / 8 }
  let vmBitmap ← bitmapZero
    { s.kernelVmPool.vmBitmap with
      bitmapBytesLen := kernelPages / 8, bitmap := kernelVmBitmapBase }
  return { s with
    kernelPool :=
      { poolBitmap := kernelBitmap
        phyAddrStart := reserved
        poolSize := u32 (kernelPages * pageSize)
        lock := lockInit }
    userPool :=
      { poolBitmap := userBitmap
        phyAddrStart := u32 (kernelPages * pageSize + reserved)
        poolSize := u32 (userPages * pageSize)
        lock := lockInit }
    kernelVmPool := { vmBitmap := vmBitmap, vmStart := kernelHeapBase } }

/-- `vaddr_alloc` returns `NULL` as zero. -/
def vaddrAlloc (s : MmState) (pf : PoolFlags) (pgCnt : Nat) :
    Call (Nat × MmState) :=
  match pf with
  | .pfKernel => do
      let bitIdxStart := toI32 (← bitmapApply s.kernelVmPool.vmBitmap pgCnt)
      if bitIdxStart = -1 then
        return (0, s)
      else
        let vmBitmap ← (List.range pgCnt).foldlM
          (fun bitmap (i : Nat) =>
            bitmapSetBit bitmap (toU32 (bitIdxStart + i)) .bitSet)
          s.kernelVmPool.vmBitmap
        let s := { s with kernelVmPool := { s.kernelVmPool with vmBitmap } }
        return (toU32 (s.kernelVmPool.vmStart + bitIdxStart * pageSize), s)
  | .pfUser => do
      let pool := s.curTask.userprogVaddr
      let bitIdxStart := toI32 (← bitmapApply pool.vmBitmap pgCnt)
      if bitIdxStart = -1 then
        return (0, s)
      else
        let vmBitmap ← bitmapSetBits pool.vmBitmap (toU32 bitIdxStart) pgCnt
          .bitSet
        let s := { s with
          curTask := { s.curTask with userprogVaddr := { pool with vmBitmap } } }
        let vaddrStart := toU32 (pool.vmStart + bitIdxStart * pageSize)
        Call.assert (vaddrStart < 0xc0000000 - pageSize)
        return (vaddrStart, s)

def phyAlloc (phyPool : PhysicalMemPool) : Call (Nat × PhysicalMemPool) := do
  let bitIdx := toI32 (← bitmapApply phyPool.poolBitmap 1)
  if bitIdx = -1 then
    return (0, phyPool)
  else
    let poolBitmap ← bitmapSetBit phyPool.poolBitmap (toU32 bitIdx) .bitSet
    return (toU32 (bitIdx * pageSize + phyPool.phyAddrStart),
      { phyPool with poolBitmap })

def pageAllocUserLoop (vmAddr : Nat) : Nat → MmState → Call (Nat × MmState)
  | 0, s => return (vmAddr, s)
  | pgCnt + 1, s => do
      let (phyAddr, userPool) ← phyAlloc s.userPool
      let s := { s with userPool }
      if phyAddr = 0 then
        return (0, s)
      else
        pageAllocUserLoop vmAddr pgCnt s

def pageAlloc (s : MmState) (pf : PoolFlags) (pgCnt : Nat) :
    Call (Nat × MmState) :=
  match pf with
  | .pfKernel => do
      let (vmAddr, s) ← vaddrAlloc s .pfKernel pgCnt
      if vmAddr = 0 then
        return (0, s)
      else
        let phyAddr := sub32 vmAddr pageOffest
        let bitIdx := sub32 phyAddr s.kernelPool.phyAddrStart / pageSize
        let poolBitmap ← bitmapSetBits s.kernelPool.poolBitmap bitIdx pgCnt
          .bitSet
        return (vmAddr,
          { s with kernelPool := { s.kernelPool with poolBitmap } })
  | .pfUser => do
      let (vmAddr, s) ← vaddrAlloc s .pfUser pgCnt
      if vmAddr = 0 then
        return (0, s)
      else
        pageAllocUserLoop vmAddr pgCnt s

def phyFree (s : MmState) (phyAddr : Nat) : Call MmState :=
  if phyAddr ≥ s.userPool.phyAddrStart then do
    let bitIdx := sub32 phyAddr s.userPool.phyAddrStart / pageSize
    let poolBitmap ← bitmapSetBit s.userPool.poolBitmap bitIdx .bitClear
    return { s with userPool := { s.userPool with poolBitmap } }
  else do
    let bitIdx := sub32 phyAddr s.kernelPool.phyAddrStart / pageSize
    let poolBitmap ← bitmapSetBit s.kernelPool.poolBitmap bitIdx .bitClear
    return { s with kernelPool := { s.kernelPool with poolBitmap } }

def vaddrFree (s : MmState) (pf : PoolFlags) (vaddr pgCnt : Nat) :
    Call MmState :=
  match pf with
  | .pfKernel => do
      let bitIdx := sub32 vaddr s.kernelVmPool.vmStart / pageSize
      let vmBitmap ← bitmapSetBits s.kernelVmPool.vmBitmap bitIdx pgCnt
        .bitClear
      return { s with kernelVmPool := { s.kernelVmPool with vmBitmap } }
  | .pfUser => do
      let pool := s.curTask.userprogVaddr
      let bitIdx := sub32 vaddr pool.vmStart / pageSize
      let vmBitmap ← bitmapSetBits pool.vmBitmap bitIdx pgCnt .bitClear
      return { s with
        curTask := { s.curTask with userprogVaddr := { pool with vmBitmap } } }

def pageFreeLoop : Nat → Nat → MmState → Call MmState
  | 0, _, s => return s
  | pages + 1, phyAddr, s => do
      let s ← phyFree s phyAddr
      pageFreeLoop pages (u32 (phyAddr + pageSize)) s

/-- `page_free`; for a user block the virtual address itself is taken as the
physical one. -/
def pageFree (s : MmState) (pf : PoolFlags) (vaddr pgCnt : Nat) :
    Call MmState := do
  Call.assert (pgCnt ≥ 1)
  match pf with
  | .pfKernel =>
      let s ← pageFreeLoop pgCnt (sub32 vaddr pageOffest) s
      vaddrFree s .pfKernel vaddr pgCnt
  | .pfUser =>
      let s ← pageFreeLoop pgCnt vaddr s
      vaddrFree s .pfUser vaddr pgCnt

def getKernelPages (s : MmState) (pages : Nat) : Call (Nat × MmState) := do
  let lock ← lockAcquireAlone s.kernelPool.lock s.curTask.pcb
  let s := { s with kernelPool := { s.kernelPool with lock } }
  let (vaddr, s) ← pageAlloc s .pfKernel pages
  let memory ←
    (if vaddr ≠ 0 then memset s.memory vaddr 0 (u32 (pages * pageSize))
      else .ok s.memory : Call ByteMemory)
  let s := { s with memory }
  let lock ← lockReleaseAlone s.kernelPool.lock s.curTask.pcb
  return (vaddr, { s with kernelPool := { s.kernelPool with lock } })

/-- The data segment at boot, all zero, with the kernel's main thread as the
current task. -/
def coldMm : MmState where
  kernelPool := ⟨⟨0, 0, fun _ => 0⟩, 0, 0, ⟨0, ⟨0, []⟩, 0⟩⟩
  userPool := ⟨⟨0, 0, fun _ => 0⟩, 0, 0, ⟨0, ⟨0, []⟩, 0⟩⟩
  kernelVmPool := ⟨⟨0, 0, fun _ => 0⟩, 0⟩
  curTask := ⟨0xc009e000, 0, ⟨⟨0, 0, fun _ => 0⟩, 0⟩, 0⟩
  kernelBlockDescArray := 0xc0010000
  memory := ⟨fun _ => 0⟩

end Simos
