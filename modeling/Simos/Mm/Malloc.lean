import Simos.Kernel.List
import Simos.Mm.Pools

/-!
# The small-block heap (`mm/memory.c`, `sys_malloc` and `sys_free`)

Arena headers, block descriptors and the links of free blocks live in the
byte memory, at the offsets the compiler gives the fields.  A list node is the
address of its `prev` word, and its `next` word follows.

`mem_init` is modelled without `page_table_init`, since no function here reads
the page tables.
-/

namespace Simos

open Simos.Library

/-- `struct kernel_list` in memory: `prev` at offset 0, `next` at offset 4. -/
instance : LinkHeap ByteMemory Nat where
  next memory node := memory.loadWord (node + 4)
  prev memory node := memory.loadWord node
  setNext memory node value := memory.storeWord (node + 4) value
  setPrev memory node value := memory.storeWord node value

def memDescCnt : Nat := 7

/-- `sizeof(struct arena)` -/
def arenaSize : Nat := 8

/-- `sizeof(struct mem_block_desc)` -/
def memBlockDescSize : Nat := 16

def arenaDesc (memory : ByteMemory) (arena : Nat) : Nat :=
  memory.loadWord arena

def arenaCnt (memory : ByteMemory) (arena : Nat) : Nat :=
  memory.loadWord (arena + 4)

def descBlockSize (memory : ByteMemory) (desc : Nat) : Nat :=
  memory.loadWord desc

def descBlocksEachArena (memory : ByteMemory) (desc : Nat) : Nat :=
  memory.loadWord (desc + 4)

def descFreeList (desc : Nat) : Nat :=
  desc + 8

/-- `&block_desc[desc_idx]` -/
def descAddr (blockDesc descIdx : Nat) : Nat :=
  blockDesc + memBlockDescSize * descIdx

def memBlockDescInitLoop (blockDescArray : Nat) :
    Nat → Nat → Nat → ByteMemory → ByteMemory
  | 0, _, _, memory => memory
  | rounds + 1, descIdx, blockSize, memory =>
      let desc := descAddr blockDescArray descIdx
      let memory := memory.storeWord desc blockSize
      let memory := memory.storeWord (desc + 4)
        ((pageSize - arenaSize) / blockSize)
      let memory := listInit memory (descFreeList desc)
      memBlockDescInitLoop blockDescArray rounds (descIdx + 1)
        (blockSize * 2 % 65536) memory

def memBlockDescInit (memory : ByteMemory) (blockDescArray : Nat) :
    ByteMemory :=
  memBlockDescInitLoop blockDescArray memDescCnt 0 16 memory

/-- `mem_init` on a machine with `totalMem` bytes of memory. -/
def memInit (s : MmState) (totalMem : Nat) : Call MmState := do
  let s ← memPoolInit s totalMem
  return { s with memory := memBlockDescInit s.memory s.kernelBlockDescArray }

def arena2Block (memory : ByteMemory) (arena idx : Nat) : Nat :=
  u32 (arena + arenaSize + idx * descBlockSize memory (arenaDesc memory arena))

def block2Arena (block : Nat) : Nat :=
  block &&& pageMask

def MmState.pool (s : MmState) : PoolFlags → PhysicalMemPool
  | .pfKernel => s.kernelPool
  | .pfUser => s.userPool

def MmState.withPoolLock (s : MmState) (pf : PoolFlags)
    (lock : Lock (List Nat)) : MmState :=
  match pf with
  | .pfKernel => { s with kernelPool := { s.kernelPool with lock } }
  | .pfUser => { s with userPool := { s.userPool with lock } }

/-- `lock_acquire(&mem_pool->lock)` -/
def acquirePool (s : MmState) (pf : PoolFlags) : Call MmState := do
  let lock ← lockAcquireAlone (s.pool pf).lock s.curTask.pcb
  return s.withPoolLock pf lock

/-- `lock_release(&mem_pool->lock)` -/
def releasePool (s : MmState) (pf : PoolFlags) : Call MmState := do
  let lock ← lockReleaseAlone (s.pool pf).lock s.curTask.pcb
  return s.withPoolLock pf lock

/-- The branch of `sys_malloc` for whole pages. -/
def mallocPages (s : MmState) (pf : PoolFlags) (size : Nat) :
    Call (Nat × MmState) := do
  let pageCnt := u32 (size + arenaSize + pageSize - 1) / pageSize
  let (arena, s) ← pageAlloc s pf pageCnt
  if arena = 0 then
    return (0, s)
  else
    let memory ← memset s.memory arena 0 (u32 (pageCnt * pageSize))
    let memory := memory.storeWord arena 0
    let memory := memory.storeWord (arena + 4) pageCnt
    return (arena + arenaSize, { s with memory })

/-- The loop of `sys_malloc` that looks for the descriptor; `rounds` of the
`MEM_DESC_CNT` descriptors are left. -/
def findDescLoop (memory : ByteMemory) (blockDesc size : Nat) :
    Nat → Nat → Nat
  | 0, descIdx => descIdx
  | rounds + 1, descIdx =>
      if size ≤ descBlockSize memory (descAddr blockDesc descIdx) then
        descIdx
      else
        findDescLoop memory blockDesc size rounds (descIdx + 1)

/-- The loop of `sys_malloc` that splits a new arena into blocks. -/
def splitArenaLoop (desc arena : Nat) : Nat → Nat → ByteMemory → Call ByteMemory
  | 0, _, _ => .error .diverges
  | fuel + 1, blockIdx, memory =>
      if blockIdx < descBlocksEachArena memory desc then do
        let block := arena2Block memory arena blockIdx
        let freeList := descFreeList (arenaDesc memory arena)
        let found ← listFindItem memory freeList block
        Call.assert (found = false)
        splitArenaLoop desc arena fuel (blockIdx + 1)
          (listAddPrev memory freeList block)
      else
        .ok memory

/-- The part of `sys_malloc` that makes a new arena for a descriptor.  The
flag says that there was a page for it. -/
def refillFreeList (s : MmState) (pf : PoolFlags) (desc : Nat) :
    Call (Bool × MmState) := do
  let (arena, s) ← pageAlloc s pf 1
  if arena = 0 then
    return (false, s)
  else
    let memory ← memset s.memory arena 0 pageSize
    let memory := memory.storeWord arena desc
    let memory := memory.storeWord (arena + 4) (descBlocksEachArena memory desc)
    let memory ← splitArenaLoop desc arena addressCount 0 memory
    return (true, { s with memory })

/-- The part of `sys_malloc` that takes the first block of a free list. -/
def popBlock (s : MmState) (desc : Nat) : Call (Nat × MmState) := do
  let (block, memory) := listPop s.memory (descFreeList desc)
  let memory ← memset memory block 0 (descBlockSize memory desc)
  let arena := block2Arena block
  let memory := memory.storeWord (arena + 4) (sub32 (arenaCnt memory arena) 1)
  return (block, { s with memory })

/-- The branch of `sys_malloc` for blocks of an arena. -/
def mallocBlock (s : MmState) (pf : PoolFlags) (blockDesc size : Nat) :
    Call (Nat × MmState) := do
  let descIdx := findDescLoop s.memory blockDesc size memDescCnt 0
  let desc := descAddr blockDesc descIdx
  let empty ← listEmpty s.memory (descFreeList desc)
  let (room, s) ←
    (if empty then refillFreeList s pf desc else .ok (true, s) :
      Call (Bool × MmState))
  if room then
    popBlock s desc
  else
    return (0, s)

def MmTask.poolFlags (task : MmTask) : PoolFlags :=
  if task.pdeAddr = 0 then .pfKernel else .pfUser

/-- `sys_malloc` returns `NULL` as zero. -/
def sysMalloc (s : MmState) (size : Nat) : Call (Nat × MmState) := do
  let pf := s.curTask.poolFlags
  let blockDesc :=
    if s.curTask.pdeAddr = 0 then s.kernelBlockDescArray
    else s.curTask.userBlockDescArray
  if size > (s.pool pf).poolSize ∨ size = 0 then
    return (0, s)
  else
    let s ← acquirePool s pf
    let (ptr, s) ←
      (if size > 1024 then mallocPages s pf size
        else mallocBlock s pf blockDesc size : Call (Nat × MmState))
    let s ← releasePool s pf
    return (ptr, s)

/-- The loop of `sys_free` that takes the blocks of an arena off their list. -/
def reclaimLoop (arena : Nat) : Nat → Nat → ByteMemory → Call ByteMemory
  | 0, _, _ => .error .diverges
  | fuel + 1, blockIdx, memory =>
      if blockIdx < arenaCnt memory arena then
        reclaimLoop arena fuel (blockIdx + 1)
          (listDelSafe memory (arena2Block memory arena blockIdx))
      else
        .ok memory

/-- The branch of `sys_free` for a block of an arena. -/
def freeBlock (s : MmState) (pf : PoolFlags) (ptr arena : Nat) :
    Call MmState := do
  let memory := s.memory
  let desc := arenaDesc memory arena
  let memory := listAddPrev memory (descFreeList desc) ptr
  let memory := memory.storeWord (arena + 4) (u32 (arenaCnt memory arena + 1))
  if arenaCnt memory arena =
      descBlocksEachArena memory (arenaDesc memory arena) then
    let memory ← reclaimLoop arena addressCount 0 memory
    pageFree { s with memory } pf ptr 1
  else
    return { s with memory }

def sysFree (s : MmState) (ptr : Nat) : Call MmState := do
  Call.assert (ptr ≠ 0)
  let pf := s.curTask.poolFlags
  Call.assert (s.curTask.pdeAddr = 0 → ptr ≥ kernelHeapBase)
  let s ← acquirePool s pf
  let arena := block2Arena ptr
  let s ←
    (if arenaDesc s.memory arena = 0 then
      pageFree s pf ptr (arenaCnt s.memory arena)
    else
      freeBlock s pf ptr arena : Call MmState)
  releasePool s pf

end Simos
