import Mathlib.Data.Nat.Count
import Simos.Kernel.BitmapReturns
import Simos.Mm.UserPages

/-!
# A page allocation that fails (`mm/memory.c`, `page_alloc`)

`page_alloc(PF_USER, n)` reserves the virtual pages before it takes the frames,
and takes these one by one; when a frame is missing it returns `NULL` and gives
nothing back.

* `RunsOut` tells from the bits of a pool that `n` frames cannot be taken;
* `pageAllocUserLoop_null_iff`: the page loop returns `NULL` exactly then;
* `pageAlloc_null_keeps_iff`: the states in which a call that returns `NULL` has
  changed no pool.
-/

namespace Simos

open Simos.Library

namespace Bitmap

variable (bitmap : Bitmap)

def clearBelow (index : Nat) : Nat :=
  Nat.count (fun bit => bitmap.bits bit = false) index

private theorem clearBelow_succ (index : Nat) :
    bitmap.clearBelow (index + 1) =
      bitmap.clearBelow index + if bitmap.bits index = false then 1 else 0 :=
  Nat.count_succ _ index

variable {bitmap}

theorem clearBelow_of_set {index : Nat}
    (allSet : ∀ bit, bit < index → bitmap.bits bit = true) :
    bitmap.clearBelow index = 0 := by
  apply Nat.count_iff_forall_not.mpr
  intro bit below
  rw [allSet bit below]
  exact Bool.noConfusion

private theorem clearBelow_write {bit : Nat} (clear : bitmap.bits bit = false)
    (index : Nat) :
    (bitmap.write bit true).clearBelow index + (if bit < index then 1 else 0) =
      bitmap.clearBelow index := by
  induction index with
  | zero => rfl
  | succ index inductionHypothesis =>
      rw [clearBelow_succ, clearBelow_succ, bits_write]
      by_cases same : index = bit
      · subst same
        rw [if_neg (Nat.lt_irrefl index)] at inductionHypothesis
        rw [if_pos rfl, if_pos (Nat.lt_succ_self index), if_pos clear,
          if_neg Bool.noConfusion]
        omega
      · have order : bit < index + 1 ↔ bit < index := by
          omega
        rw [if_neg same]
        simp only [order]
        omega

end Bitmap

namespace PhysicalMemPool

def frameAddr (pool : PhysicalMemPool) (frame : Nat) : Nat :=
  u32 (pool.phyAddrStart + 4096 * frame)

private def take (pool : PhysicalMemPool) (frame : Nat) : PhysicalMemPool :=
  { pool with poolBitmap := pool.poolBitmap.write frame true }

/-- Fewer than `pages` frames can be taken before `phy_alloc` returns `NULL`:
one of the first free ones is at address zero, or the pool is full before.  A
free last frame is never handed out, it stops the machine. -/
def RunsOut (pool : PhysicalMemPool) (pages : Nat) : Prop :=
  (∃ frame, frame + 1 < pool.poolBitmap.bitCount ∧
      pool.poolBitmap.bits frame = false ∧ pool.frameAddr frame = 0 ∧
      pool.poolBitmap.clearBelow frame < pages) ∨
    (0 < pool.poolBitmap.bitCount ∧
      pool.poolBitmap.bits (pool.poolBitmap.bitCount - 1) = true ∧
      pool.poolBitmap.clearBelow pool.poolBitmap.bitCount < pages)

end PhysicalMemPool

section Frames

variable {pool : PhysicalMemPool}

theorem phyAlloc_full (pointer : pool.poolBitmap.bitmap ≠ 0)
    (nonempty : 0 < pool.poolBitmap.bitCount)
    (full : ∀ frame, frame < pool.poolBitmap.bitCount →
      pool.poolBitmap.bits frame = true) :
    phyAlloc pool = .ok (0, pool) := by
  rw [phyAlloc, bitmapApply_full pointer nonempty full]
  rfl

theorem phyAlloc_first (pointer : pool.poolBitmap.bitmap ≠ 0) {frame : Nat}
    (isFirst : pool.poolBitmap.FirstRun 1 frame) :
    phyAlloc pool =
      if frame + 1 < pool.poolBitmap.bitCount then
        .ok (pool.frameAddr frame, pool.take frame)
      else
        .error .assertFailed := by
  have bound := pool.poolBitmap.bitCount_lt
  have room := isFirst.run.1
  rw [phyAlloc, bitmapApply_of_first pointer (by decide) (by decide) isFirst,
    appliedTo]
  by_cases inside : frame + 1 < pool.poolBitmap.bitCount
  · have found : toI32 frame ≠ -1 := by
      unfold toI32
      omega
    have written : bitmapSetBit pool.poolBitmap frame .bitSet =
        .ok (pool.poolBitmap.write frame true) :=
      bitmapSetBit_eq_ok_iff.mpr ⟨pointer, by omega, rfl⟩
    have address : toU32 (toI32 frame * (pageSize : Nat) + pool.phyAddrStart) =
        pool.frameAddr frame := by
      rw [Int.add_comm]
      exact toU32_userAddr pool.phyAddrStart frame
    have position : toU32 (toI32 frame) = frame := toU32_toI32 (by omega)
    rw [if_pos inside, if_pos inside]
    simp only [Call.ok_bind, if_neg found, position, written, Call.pure_eq_ok,
      address]
    rfl
  · rw [if_neg inside, if_neg inside, if_pos rfl, Call.error_bind]

private theorem firstFrame_or_full (bitmap : Bitmap) :
    (∃ frame, bitmap.FirstRun 1 frame) ∨
      ∀ frame, frame < bitmap.bitCount → bitmap.bits frame = true := by
  by_cases full : ∀ frame, frame < bitmap.bitCount → bitmap.bits frame = true
  · exact Or.inr full
  · left
    push Not at full
    obtain ⟨frame, inside, clear⟩ := full
    have run : bitmap.ClearRun frame 1 := by
      refine ⟨by omega, fun tested lower upper => ?_⟩
      have same : tested = frame := by
        omega
      rw [same]
      simpa using clear
    obtain ⟨first, isFirst, -⟩ := run.exists_first
    exact ⟨first, isFirst⟩

theorem Bitmap.FirstRun.set_before {bitmap : Bitmap} {frame : Nat}
    (isFirst : bitmap.FirstRun 1 frame) {tested : Nat}
    (before : tested < frame) : bitmap.bits tested = true := by
  have room := isFirst.run.1
  cases here : bitmap.bits tested with
  | true => rfl
  | false =>
      refine absurd ⟨by omega, fun other lower upper => ?_⟩
        (isFirst.first tested before)
      have same : other = tested := by
        omega
      rw [same]
      exact here

/-- Taking the first free frame, which has an address, leaves one frame less to
take. -/
theorem runsOut_take_iff {frame pages : Nat}
    (isFirst : pool.poolBitmap.FirstRun 1 frame)
    (inside : frame + 1 < pool.poolBitmap.bitCount)
    (address : pool.frameAddr frame ≠ 0) :
    (pool.take frame).RunsOut pages ↔ pool.RunsOut (pages + 1) := by
  have clear := isFirst.clear (Nat.le_refl 1)
  have counted := Bitmap.clearBelow_write clear
  unfold PhysicalMemPool.RunsOut PhysicalMemPool.take
  simp only [Bitmap.bitCount_write]
  apply or_congr
  · apply exists_congr
    intro other
    by_cases same : other = frame
    · subst same
      rw [Bitmap.bits_write_self]
      constructor
      · rintro ⟨-, set, -⟩
        cases set
      · rintro ⟨-, -, zero, -⟩
        exact absurd zero address
    · rw [Bitmap.bits_write_of_ne _ _ _ same]
      apply and_congr_right
      intro _
      apply and_congr_right
      intro otherClear
      apply and_congr_right
      intro _
      have behind : frame < other := by
        by_contra before
        have set : pool.poolBitmap.bits other = true :=
          isFirst.set_before (by omega)
        rw [otherClear] at set
        exact Bool.noConfusion set
      have less := counted other
      rw [if_pos behind] at less
      omega
  · have different : pool.poolBitmap.bitCount - 1 ≠ frame := by
      omega
    have less := counted pool.poolBitmap.bitCount
    rw [if_pos (by omega)] at less
    rw [Bitmap.bits_write_of_ne _ _ _ different]
    apply and_congr_right
    intro _
    apply and_congr_right
    intro _
    omega

/-- The page loop returns `NULL` exactly when the frames run out. -/
theorem pageAllocUserLoop_null_iff {vmAddr : Nat} (address : vmAddr ≠ 0) :
    ∀ {pages : Nat} {s : MmState}, s.userPool.poolBitmap.bitmap ≠ 0 →
      ((∃ s', pageAllocUserLoop vmAddr pages s = .ok (0, s')) ↔
        s.userPool.RunsOut pages)
  | 0, s, pointer => by
      constructor
      · rintro ⟨s', returned⟩
        simp only [pageAllocUserLoop, Call.pure_eq_ok, Except.ok.injEq,
          Prod.mk.injEq] at returned
        exact absurd returned.1 address
      · rintro (⟨frame, -, -, -, few⟩ | ⟨-, -, few⟩)
        · exact absurd few (Nat.not_lt_zero _)
        · exact absurd few (Nat.not_lt_zero _)
  | pages + 1, s, pointer => by
      rw [pageAllocUserLoop]
      rcases firstFrame_or_full s.userPool.poolBitmap with
        ⟨frame, isFirst⟩ | full
      · have clear := isFirst.clear (Nat.le_refl 1)
        have noneBefore : s.userPool.poolBitmap.clearBelow frame = 0 :=
          Bitmap.clearBelow_of_set fun bit before => isFirst.set_before before
        rw [phyAlloc_first pointer isFirst]
        by_cases inside : frame + 1 < s.userPool.poolBitmap.bitCount
        · rw [if_pos inside, Call.ok_bind]
          by_cases zero : s.userPool.frameAddr frame = 0
          · simp only [if_pos zero]
            constructor
            · intro _
              exact Or.inl ⟨frame, inside, clear, zero, by omega⟩
            · intro _
              exact ⟨_, rfl⟩
          · simp only [if_neg zero]
            rw [@pageAllocUserLoop_null_iff _ address pages
              { s with userPool := s.userPool.take frame } pointer]
            exact runsOut_take_iff isFirst inside zero
        · -- only the last frame is free
          have room := isFirst.run.1
          rw [if_neg inside, Call.error_bind]
          constructor
          · rintro ⟨s', returned⟩
            cases returned
          · rintro (⟨other, before, otherClear, -, -⟩ | ⟨-, lastSet, -⟩)
            · have set : s.userPool.poolBitmap.bits other = true :=
                isFirst.set_before (by omega)
              rw [otherClear] at set
              exact Bool.noConfusion set
            · have last : s.userPool.poolBitmap.bitCount - 1 = frame := by
                omega
              rw [last, clear] at lastSet
              exact Bool.noConfusion lastSet
      · rcases Nat.eq_zero_or_pos s.userPool.poolBitmap.bitCount with
          empty | nonempty
        · have stops : phyAlloc s.userPool = .error .assertFailed := by
            rw [phyAlloc, bitmapApply_empty pointer empty]
            rfl
          rw [stops, Call.error_bind]
          constructor
          · rintro ⟨s', returned⟩
            cases returned
          · rintro (⟨frame, inside, -⟩ | ⟨inside, -⟩)
            · omega
            · omega
        · rw [phyAlloc_full pointer nonempty full, Call.ok_bind]
          constructor
          · intro _
            refine Or.inr ⟨nonempty, full _ (by omega), ?_⟩
            rw [Bitmap.clearBelow_of_set full]
            exact Nat.succ_pos pages
          · intro _
            exact ⟨_, rfl⟩

end Frames

/-! ## The whole call -/

/-- `vaddr_alloc` reserves `pages` pages from `vaddr` on: the first run of the
bitmap ends before its last bit. -/
def VirtualMemPool.Reserves (pool : VirtualMemPool) (pages vaddr : Nat) : Prop :=
  ∃ first, pool.vmBitmap.FirstRun pages first ∧
    first + pages < pool.vmBitmap.bitCount ∧
    vaddr = u32 (pool.vmStart + 4096 * first)

/-- The pools that a call may change are the same. -/
structure SamePools (s s' : MmState) : Prop where
  kernelVmPool : s'.kernelVmPool = s.kernelVmPool
  kernelPool : s'.kernelPool = s.kernelPool
  userPool : s'.userPool = s.userPool
  userprogVaddr : s'.curTask.userprogVaddr = s.curTask.userprogVaddr

/-- The bitmaps have a place in memory. -/
structure PoolPointers (s : MmState) : Prop where
  kernelVm : s.kernelVmPool.vmBitmap.bitmap ≠ 0
  kernel : s.kernelPool.poolBitmap.bitmap ≠ 0
  user : s.userPool.poolBitmap.bitmap ≠ 0
  userprog : s.curTask.userprogVaddr.vmBitmap.bitmap ≠ 0

/-- The states in which a failing call changes nothing: no range at address zero
is reserved, and when a user range is reserved, the frames do not run out. -/
def MmState.FailsCleanly (s : MmState) : PoolFlags → Nat → Prop
  | .pfKernel, pages => ¬ s.kernelVmPool.Reserves pages 0
  | .pfUser, pages => ∀ vaddr, s.curTask.userprogVaddr.Reserves pages vaddr →
      vaddr < 0xbffff000 → vaddr ≠ 0 ∧ ¬ s.userPool.RunsOut pages

section Call

variable {s : MmState} {pages : Nat}

def MmState.vmPool (s : MmState) : PoolFlags → VirtualMemPool
  | .pfKernel => s.kernelVmPool
  | .pfUser => s.curTask.userprogVaddr

theorem Bitmap.ne_of_bits {bitmap other : Bitmap} {bit : Nat}
    (clear : bitmap.bits bit = false) (set : other.bits bit = true) :
    other ≠ bitmap := by
  rintro rfl
  rw [clear] at set
  exact Bool.noConfusion set

/-- Without a range to reserve `vaddr_alloc` returns `NULL`, if at all. -/
theorem vaddrAlloc_missed (positive : 1 ≤ pages) (bound : pages < 4294967296)
    {pf : PoolFlags} (missed : ∀ vaddr, ¬ (s.vmPool pf).Reserves pages vaddr)
    {vaddr : Nat} {s' : MmState}
    (returned : vaddrAlloc s pf pages = .ok (vaddr, s')) :
    vaddr = 0 ∧ s' = s := by
  have noIndex : ∀ result, bitmapApply (s.vmPool pf).vmBitmap pages =
      .ok result → toI32 result = -1 := by
    intro result searched
    by_contra found
    have notMissed : result ≠ -1 := by
      rintro rfl
      exact found (by decide)
    obtain ⟨first, -, isFirst, inside⟩ :=
      bitmapApply_eq_ok positive bound searched notMissed
    exact missed _ ⟨first, isFirst, inside, rfl⟩
  cases pf with
  | pfKernel =>
      simp only [vaddrAlloc, Call.bind_eq_ok_iff] at returned
      obtain ⟨result, searched, returned⟩ := returned
      simp only [if_pos (noIndex result searched), Call.pure_eq_ok,
        Except.ok.injEq, Prod.mk.injEq] at returned
      exact ⟨returned.1.symm, returned.2.symm⟩
  | pfUser =>
      simp only [vaddrAlloc, Call.bind_eq_ok_iff] at returned
      obtain ⟨result, searched, returned⟩ := returned
      simp only [if_pos (noIndex result searched), Call.pure_eq_ok,
        Except.ok.injEq, Prod.mk.injEq] at returned
      exact ⟨returned.1.symm, returned.2.symm⟩

section Reserved

variable {first : Nat} (positive : 1 ≤ pages) (bound : pages < 4294967296)

/-- The index of a reserved range is no failure of `vaddr_alloc`. -/
theorem toI32_reserved {bitmap : Bitmap}
    (inside : first + pages < bitmap.bitCount) : toI32 first ≠ -1 := by
  have countBound := bitmap.bitCount_lt
  unfold toI32
  omega

include positive bound

theorem vaddrAlloc_kernel (pointer : s.kernelVmPool.vmBitmap.bitmap ≠ 0)
    (isFirst : s.kernelVmPool.vmBitmap.FirstRun pages first)
    (inside : first + pages < s.kernelVmPool.vmBitmap.bitCount) :
    vaddrAlloc s .pfKernel pages =
      .ok (u32 (s.kernelVmPool.vmStart + 4096 * first),
        { s with kernelVmPool :=
          { s.kernelVmPool with
            vmBitmap :=
              s.kernelVmPool.vmBitmap.writeRange first pages true } }) := by
  have countBound := s.kernelVmPool.vmBitmap.bitCount_lt
  have index : ∀ i : Nat,
      toU32 (toI32 first + i) = toU32 (first + i : Int) := by
    intro i
    unfold toU32 toI32
    omega
  have written := @foldlM_setBits s.kernelVmPool.vmBitmap first pages pointer
    (by omega)
  rw [vaddrAlloc, bitmapApply_of_first pointer positive bound isFirst,
    appliedTo, if_pos inside]
  simp only [Call.ok_bind, if_neg (toI32_reserved inside), index, written,
    Call.pure_eq_ok]
  rw [pageSize, toU32_userAddr]

theorem vaddrAlloc_user
    (pointer : s.curTask.userprogVaddr.vmBitmap.bitmap ≠ 0)
    (isFirst : s.curTask.userprogVaddr.vmBitmap.FirstRun pages first)
    (inside : first + pages < s.curTask.userprogVaddr.vmBitmap.bitCount) :
    vaddrAlloc s .pfUser pages =
      if u32 (s.curTask.userprogVaddr.vmStart + 4096 * first) < 0xbffff000 then
        .ok (u32 (s.curTask.userprogVaddr.vmStart + 4096 * first),
          { s with curTask :=
            { s.curTask with userprogVaddr :=
              { s.curTask.userprogVaddr with
                vmBitmap :=
                  s.curTask.userprogVaddr.vmBitmap.write first true } } })
      else
        .error .assertFailed := by
  have countBound := s.curTask.userprogVaddr.vmBitmap.bitCount_lt
  have index : toU32 (toI32 first) = first := toU32_toI32 (by omega)
  have written :
      bitmapSetBits s.curTask.userprogVaddr.vmBitmap first pages .bitSet =
        .ok (s.curTask.userprogVaddr.vmBitmap.write first true) :=
    (bitmapSetBits_eq_ok_iff positive (by omega)).mpr
      ⟨pointer, by omega, rfl⟩
  have limit : 0xc0000000 - pageSize = 0xbffff000 := by
    decide
  rw [vaddrAlloc, bitmapApply_of_first pointer positive bound isFirst,
    appliedTo, if_pos inside]
  simp only [Call.ok_bind, if_neg (toI32_reserved inside), index, written,
    Call.pure_eq_ok, limit]
  rw [pageSize, toU32_userAddr]
  split
  · rename_i below
    rw [Call.assert_of below, Call.ok_bind]
  · rename_i above
    rw [Call.assert_of_not above, Call.error_bind]

end Reserved

private theorem pageAllocUserLoop_curTask {vmAddr result : Nat} :
    ∀ {count : Nat} {s s' : MmState},
      pageAllocUserLoop vmAddr count s = .ok (result, s') →
      s'.curTask = s.curTask
  | 0, s, s', returned => by
      simp only [pageAllocUserLoop, Call.pure_eq_ok, Except.ok.injEq,
        Prod.mk.injEq] at returned
      rw [← returned.2]
  | count + 1, s, s', returned => by
      simp only [pageAllocUserLoop, Call.bind_eq_ok_iff, Prod.exists]
        at returned
      obtain ⟨phyAddr, userPool, -, returned⟩ := returned
      by_cases full : phyAddr = 0
      · simp only [if_pos full, Call.pure_eq_ok, Except.ok.injEq,
          Prod.mk.injEq] at returned
        rw [← returned.2]
      · rw [if_neg full] at returned
        have kept := pageAllocUserLoop_curTask returned
        exact kept

theorem pageAlloc_missed_keeps {pf : PoolFlags} {s' : MmState}
    (positive : 1 ≤ pages) (bound : pages < 4294967296)
    (missed : ∀ vaddr, ¬ (s.vmPool pf).Reserves pages vaddr)
    (returned : pageAlloc s pf pages = .ok (0, s')) : SamePools s s' := by
  cases pf with
  | pfKernel | pfUser =>
      simp only [pageAlloc, Call.bind_eq_ok_iff, Prod.exists] at returned
      obtain ⟨vaddr, middle, taken, returned⟩ := returned
      obtain ⟨rfl, rfl⟩ := vaddrAlloc_missed positive bound missed taken
      simp only [if_true, Call.pure_eq_ok, Except.ok.injEq, Prod.mk.injEq,
        true_and] at returned
      rw [← returned]
      exact ⟨rfl, rfl, rfl, rfl⟩

private theorem pageAlloc_kernel_keeps_iff (pointers : PoolPointers s)
    (positive : 1 ≤ pages) (bound : pages < 4294967296) :
    (∀ s', pageAlloc s .pfKernel pages = .ok (0, s') → SamePools s s') ↔
      s.FailsCleanly .pfKernel pages := by
  constructor
  · rintro keeps ⟨first, isFirst, inside, address⟩
    have reserved :=
      vaddrAlloc_kernel positive bound pointers.kernelVm isFirst inside
    rw [← address] at reserved
    have same := keeps _ (by
      rw [pageAlloc, reserved, Call.ok_bind]
      rfl)
    refine Bitmap.ne_of_bits (isFirst.clear positive) ?_
      (congrArg VirtualMemPool.vmBitmap same.kernelVmPool)
    rw [Bitmap.bits_writeRange, if_pos (by omega)]
  · intro clean s' returned
    by_cases reserves : ∃ vaddr, (s.vmPool .pfKernel).Reserves pages vaddr
    · obtain ⟨-, first, isFirst, inside, -⟩ := reserves
      simp only [pageAlloc, Call.bind_eq_ok_iff, Prod.exists] at returned
      obtain ⟨vaddr, middle, taken, returned⟩ := returned
      rw [vaddrAlloc_kernel positive bound pointers.kernelVm isFirst inside,
        Except.ok.injEq, Prod.mk.injEq] at taken
      have address : vaddr ≠ 0 := by
        rintro rfl
        exact clean ⟨first, isFirst, inside, taken.1.symm⟩
      simp only [if_neg address, Call.bind_eq_ok_iff, Call.pure_eq_ok,
        Except.ok.injEq, Prod.mk.injEq] at returned
      obtain ⟨-, -, null, -⟩ := returned
      exact absurd null address
    · push Not at reserves
      exact pageAlloc_missed_keeps positive bound reserves returned

private theorem pageAlloc_user_keeps_iff (pointers : PoolPointers s)
    (positive : 1 ≤ pages) (bound : pages < 4294967296) :
    (∀ s', pageAlloc s .pfUser pages = .ok (0, s') → SamePools s s') ↔
      s.FailsCleanly .pfUser pages := by
  constructor
  · rintro keeps vaddr ⟨first, isFirst, inside, position⟩ below
    have reserved :=
      vaddrAlloc_user positive bound pointers.userprog isFirst inside
    rw [← position, if_pos below] at reserved
    -- a call that returns `NULL` after the reservation has changed a bitmap
    have changed : ∀ s', pageAlloc s .pfUser pages = .ok (0, s') →
        s'.curTask.userprogVaddr.vmBitmap ≠
          s.curTask.userprogVaddr.vmBitmap.write first true := by
      intro s' returned written
      refine Bitmap.ne_of_bits (isFirst.clear positive)
        (Bitmap.bits_write_self ..) (written.symm.trans ?_)
      exact congrArg VirtualMemPool.vmBitmap (keeps s' returned).userprogVaddr
    have address : vaddr ≠ 0 := by
      rintro rfl
      refine changed _ (by
        rw [pageAlloc, reserved, Call.ok_bind]
        rfl) rfl
    refine ⟨address, fun runsOut => ?_⟩
    obtain ⟨s', returned⟩ :=
      (@pageAllocUserLoop_null_iff _ address pages
        { s with curTask :=
          { s.curTask with userprogVaddr :=
            { s.curTask.userprogVaddr with
              vmBitmap :=
                s.curTask.userprogVaddr.vmBitmap.write first true } } }
        pointers.user).mpr runsOut
    refine changed s' ?_ ?_
    · rw [pageAlloc, reserved, Call.ok_bind]
      simp only [if_neg address]
      exact returned
    · rw [pageAllocUserLoop_curTask returned]
  · intro clean s' returned
    by_cases reserves : ∃ vaddr, (s.vmPool .pfUser).Reserves pages vaddr
    · obtain ⟨-, first, isFirst, inside, -⟩ := reserves
      simp only [pageAlloc, Call.bind_eq_ok_iff, Prod.exists] at returned
      obtain ⟨vaddr, middle, taken, returned⟩ := returned
      rw [vaddrAlloc_user positive bound pointers.userprog isFirst inside]
        at taken
      split at taken
      · rename_i below
        obtain ⟨address, enough⟩ := clean _ ⟨first, isFirst, inside, rfl⟩ below
        rw [Except.ok.injEq, Prod.mk.injEq] at taken
        obtain ⟨rfl, rfl⟩ := taken
        rw [if_neg address] at returned
        have ranOut := (pageAllocUserLoop_null_iff address
          (by exact pointers.user)).mp ⟨s', returned⟩
        exact absurd ranOut enough
      · cases taken
    · push Not at reserves
      exact pageAlloc_missed_keeps positive bound reserves returned

end Call

/-- A call that returns `NULL` has changed no pool, exactly in the states of
`FailsCleanly`. -/
theorem pageAlloc_null_keeps_iff {s : MmState} {pf : PoolFlags} {pages : Nat}
    (pointers : PoolPointers s) (positive : 1 ≤ pages)
    (bound : pages < 4294967296) :
    (∀ s', pageAlloc s pf pages = .ok (0, s') → SamePools s s') ↔
      s.FailsCleanly pf pages := by
  cases pf with
  | pfKernel => exact pageAlloc_kernel_keeps_iff pointers positive bound
  | pfUser => exact pageAlloc_user_keeps_iff pointers positive bound

/-- The pools of the kernel never fail otherwise. -/
theorem KernelPoolLayout.failsCleanly {s : MmState}
    (layout : KernelPoolLayout s) (pages : Nat) :
    s.FailsCleanly .pfKernel pages := by
  rintro ⟨first, -, inside, address⟩
  have bound := layout.pagesBound
  have start := layout.vmStart
  unfold MmState.kernelPages at bound
  unfold kernelHeapBase at start
  rw [start] at address
  unfold u32 at address
  omega

/-- A process with free pages, of whose user pool one frame is free. -/
def shortProcess : MmState :=
  { coldMm with
    kernelPool := ⟨⟨1, 0xc007e000, fun _ => 0⟩, 0x1000000, 0x8000, lockInit⟩
    userPool := ⟨⟨1, 0xc007e001, fun _ => 0xfb⟩, 0x1008000, 0x8000, lockInit⟩
    kernelVmPool := ⟨⟨1, 0xc0075000, fun _ => 0⟩, kernelHeapBase⟩
    curTask := ⟨0xc1000000, 0xc1001000,
      ⟨⟨1, 0xc1002000, fun _ => 0⟩, 0x8048000⟩, 0xc1000054⟩ }

/-- The statement for three pages of that process. -/
theorem pageAlloc_null_keeps_iff_short :
    (∀ s', pageAlloc shortProcess .pfUser 3 = .ok (0, s') →
        SamePools shortProcess s') ↔
      shortProcess.FailsCleanly .pfUser 3 :=
  pageAlloc_null_keeps_iff
    ⟨by decide, by decide, by decide, by decide⟩ (by decide) (by decide)

/-- The call for three pages fails and keeps the first virtual page and the
frame. -/
theorem pageAlloc_null_leaks :
    ∃ s', pageAlloc shortProcess .pfUser 3 = .ok (0, s') ∧
      shortProcess.curTask.userprogVaddr.vmBitmap.bits 0 = false ∧
      s'.curTask.userprogVaddr.vmBitmap.bits 0 = true ∧
      shortProcess.userPool.poolBitmap.bits 2 = false ∧
      s'.userPool.poolBitmap.bits 2 = true := by
  have computed : (do
      let result ← pageAlloc shortProcess .pfUser 3
      return (result.1, result.2.curTask.userprogVaddr.vmBitmap.bits 0,
        result.2.userPool.poolBitmap.bits 2) : Call (Nat × Bool × Bool)) =
      .ok (0, true, true) := by
    decide +kernel
  simp only [Call.bind_eq_ok_iff, Call.pure_eq_ok, Except.ok.injEq,
    Prod.mk.injEq, Prod.exists] at computed
  obtain ⟨vaddr, s', returned, rfl, virtual, frame⟩ := computed
  exact ⟨s', returned, by decide, virtual, by decide, frame⟩

end Simos
