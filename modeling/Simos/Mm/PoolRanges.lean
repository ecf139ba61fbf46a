import Simos.Mm.PageSpec

/-!
# Where the pools and their bitmaps lie (`mm/memory.c`, `mem_pool_init`)

The kernel pool gets half of the memory below 2 GB and 1 GB above, less the
first 16 MB of the machine.  `memPoolInit_partition_iff` says for which memory
sizes the two pools divide the rest of the memory, with their bitmaps in the
places kept free for them.
-/

namespace Simos

/-- The range of `length` bytes from `start` on lies in `[low, high)`. -/
def Within (start length low high : Nat) : Prop :=
  low ≤ start ∧ start + length ≤ high

def RangesApart (start length start' length' : Nat) : Prop :=
  start + length ≤ start' ∨ start' + length' ≤ start

/-- Every bit of the bitmap of a pool stands for a page of the pool. -/
def PhysicalMemPool.BitsInside (pool : PhysicalMemPool) : Prop :=
  ∀ index, index < 8 * pool.poolBitmap.bitmapBytesLen →
    Within (pool.phyAddrStart + pageSize * index) pageSize pool.phyAddrStart
      (pool.phyAddrStart + pool.poolSize)

/-- The pools divide the memory from 16 MB on, and the three bitmaps lie apart
from each other in the pages below the PCB of the main thread. -/
structure PoolsPartition (s : MmState) (totalMem : Nat) : Prop where
  kernelInside : Within s.kernelPool.phyAddrStart s.kernelPool.poolSize
    0x1000000 totalMem
  userInside : Within s.userPool.phyAddrStart s.userPool.poolSize
    0x1000000 totalMem
  poolsApart : RangesApart s.kernelPool.phyAddrStart s.kernelPool.poolSize
    s.userPool.phyAddrStart s.userPool.poolSize
  kernelBits : s.kernelPool.BitsInside
  userBits : s.userPool.BitsInside
  sameBits : s.kernelVmPool.vmBitmap.bitCount = s.kernelPool.poolBitmap.bitCount
  vmBitmap : Within s.kernelVmPool.vmBitmap.bitmap
    s.kernelVmPool.vmBitmap.bitmapBytesLen 0xc0075000 0xc007e000
  kernelBitmap : Within s.kernelPool.poolBitmap.bitmap
    s.kernelPool.poolBitmap.bitmapBytesLen 0xc007e000 0xc009e000
  userBitmap : Within s.userPool.poolBitmap.bitmap
    s.userPool.poolBitmap.bitmapBytesLen 0xc007e000 0xc009e000
  bitmapsApart : RangesApart s.kernelPool.poolBitmap.bitmap
    s.kernelPool.poolBitmap.bitmapBytesLen s.userPool.poolBitmap.bitmap
    s.userPool.poolBitmap.bitmapBytesLen

namespace PoolsCounted

variable {s : MmState} {kernelPages userPages : Nat}

/-- Pools whose pages fit into the memory and into the bitmaps. -/
theorem partition (counted : PoolsCounted s kernelPages userPages)
    {totalMem : Nat} (bound : totalMem < 4294967296)
    (fits : 0x1000000 + (kernelPages + userPages) * 4096 ≤ totalMem)
    (kernelFits : kernelPages ≤ 258048) :
    PoolsPartition s totalMem := by
  have kernelSize : s.kernelPool.poolSize = kernelPages * 4096 := by
    rw [counted.kernelSize, u32_of_lt (by omega)]
  have userStart : s.userPool.phyAddrStart =
      kernelPages * 4096 + 0x1000000 := by
    rw [counted.userStart, u32_of_lt (by omega)]
  have userSize : s.userPool.poolSize = userPages * 4096 := by
    rw [counted.userSize, u32_of_lt (by omega)]
  constructor
  case kernelInside =>
    rw [counted.kernelStart, kernelSize, Within]
    omega
  case userInside =>
    rw [userStart, userSize, Within]
    omega
  case poolsApart =>
    rw [counted.kernelStart, kernelSize, userStart, RangesApart]
    omega
  case kernelBits =>
    intro index inside
    rw [counted.kernelBytes] at inside
    rw [kernelSize, Within, pageSize]
    omega
  case userBits =>
    intro index inside
    rw [counted.userBytes] at inside
    rw [userSize, Within, pageSize]
    omega
  case sameBits =>
    rw [Bitmap.bitCount, Bitmap.bitCount, counted.vmBytes, counted.kernelBytes]
  case vmBitmap =>
    rw [counted.vmBitmap, counted.vmBytes, Within]
    omega
  case kernelBitmap =>
    rw [counted.kernelBitmap, counted.kernelBytes, Within]
    omega
  case userBitmap =>
    rw [counted.userBitmap, counted.userBytes, Within]
    omega
  case bitmapsApart =>
    rw [counted.kernelBitmap, counted.kernelBytes, counted.userBitmap,
      RangesApart]
    omega

end PoolsCounted

/-- The pools divide the memory exactly when there are at least 32 MB of it:
with less, the subtraction of the first 16 MB wraps. -/
theorem memPoolInit_partition_iff (prior : MmState) {totalMem : Nat}
    (bound : totalMem < 4294967296) :
    ∃ s, memPoolInit prior totalMem = .ok s ∧
      (PoolsPartition s totalMem ↔ 0x2000000 ≤ totalMem) := by
  obtain ⟨s, booted⟩ := memPoolInit_returns prior totalMem
  have counted := memPoolInit_counted booted
  refine ⟨s, booted, ?_⟩
  constructor
  · intro partition
    by_contra small
    have inside := partition.kernelInside.2
    rw [counted.kernelStart, counted.kernelSize, u32, kernelMemSize,
      if_neg (by omega), toU32] at inside
    omega
  · intro large
    apply counted.partition bound
    · unfold userMemSize kernelMemSize toU32
      split <;> omega
    · have size := kernelMemSize_le large
      omega

theorem memPoolInit_partition_iff_cold :
    ∃ s, memPoolInit coldMm 0x2200000 = .ok s ∧
      (PoolsPartition s 0x2200000 ↔ 0x2000000 ≤ 0x2200000) :=
  memPoolInit_partition_iff coldMm (by decide)

/-- On a machine with 16 MB the kernel pool is said to have almost 4 GB. -/
theorem memPoolInit_small_not_partition :
    ∃ s, memPoolInit coldMm 0x1000000 = .ok s ∧
      s.kernelPool.poolSize = 0xff800000 ∧ ¬ PoolsPartition s 0x1000000 := by
  obtain ⟨s, booted⟩ := memPoolInit_returns coldMm 0x1000000
  have counted := memPoolInit_counted booted
  have size : s.kernelPool.poolSize = 0xff800000 := by
    rw [counted.kernelSize]
    decide
  refine ⟨s, booted, size, fun partition => ?_⟩
  have inside := partition.kernelInside.2
  rw [counted.kernelStart, size] at inside
  exact absurd inside (by decide)

end Simos
