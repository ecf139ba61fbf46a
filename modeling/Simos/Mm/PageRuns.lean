import Simos.Library.Runs
import Simos.Mm.PageSpec

/-!
# Runs of the kernel page allocator

A run starts in the state that `mem_pool_init` leaves and calls `page_alloc`,
`get_kernel_pages` and `page_free` in any order; `page_free` is called for a
live block and with that block's own page count.

* `pageRun_blocks_safe` is the safety of the blocks handed out;
* `pageRun_accounts_exact_iff` says which runs keep the two bitmaps exact.
-/

namespace Simos

open Simos.Library

/-- A block of pages that was handed out and not yet given back. -/
structure PageBlock where
  vaddr : Nat
  pages : Nat
  deriving DecidableEq

/-- The page with this index has its address inside the block. -/
def PageBlock.Covers (block : PageBlock) (page : Nat) : Prop :=
  block.vaddr ≤ pageAddr page ∧
    pageAddr page < block.vaddr + pageSize * block.pages

/-- The allocator together with the blocks its clients hold. -/
structure PageUse where
  mm : MmState
  live : List PageBlock

inductive PageEvent where
  | pageAlloc (pages vaddr : Nat)
  | getKernelPages (pages vaddr : Nat)
  | pageFree (block : PageBlock)

/-- The blocks held after an allocation. -/
def grant (live : List PageBlock) (vaddr pages : Nat) : List PageBlock :=
  if vaddr = 0 then live else ⟨vaddr, pages⟩ :: live

inductive PageStep : PageUse → PageEvent → PageUse → Prop
  | pageAlloc {s : PageUse} {mm : MmState} {pages vaddr : Nat} :
      1 ≤ pages → pages < 4294967296 →
      Simos.pageAlloc s.mm .pfKernel pages = .ok (vaddr, mm) →
      PageStep s (.pageAlloc pages vaddr) ⟨mm, grant s.live vaddr pages⟩
  | getKernelPages {s : PageUse} {mm : MmState} {pages vaddr : Nat} :
      1 ≤ pages → pages < 4294967296 →
      Simos.getKernelPages s.mm pages = .ok (vaddr, mm) →
      PageStep s (.getKernelPages pages vaddr) ⟨mm, grant s.live vaddr pages⟩
  | pageFree {s : PageUse} {mm : MmState} {block : PageBlock} :
      block ∈ s.live →
      Simos.pageFree s.mm .pfKernel block.vaddr block.pages = .ok mm →
      PageStep s (.pageFree block) ⟨mm, s.live.erase block⟩

/-- An allocation asks for one page, or the search of the virtual bitmap finds
no room for it. -/
def OnePageAtMost (s : PageUse) : PageEvent → Prop
  | .pageAlloc pages _ | .getKernelPages pages _ =>
      pages = 1 ∨ bitmapApply s.mm.kernelVmPool.vmBitmap pages = .ok (-1)
  | .pageFree _ => True

namespace PageUse

def Owned (live : List PageBlock) (page : Nat) : Prop :=
  ∃ block ∈ live, block.Covers page

/-- No page is in both blocks. -/
def Apart (left right : PageBlock) : Prop :=
  ∀ page, ¬ (left.Covers page ∧ right.Covers page)

/-- The block stands on page `first` and inside the pool. -/
structure Placed (mm : MmState) (block : PageBlock) (first : Nat) : Prop where
  vaddr : block.vaddr = pageAddr first
  positive : 1 ≤ block.pages
  inside : first + block.pages ≤ mm.kernelPages

/-- Live blocks lie in the pool and apart from each other, their pages are
marked as taken in the virtual bitmap, and the physical bitmap marks their
first pages. -/
structure BlocksSafe (s : PageUse) : Prop where
  layout : KernelPoolLayout s.mm
  placed : ∀ block ∈ s.live, ∃ first, Placed s.mm block first
  apart : s.live.Pairwise Apart
  marked : ∀ page, Owned s.live page → s.mm.vmBit page = true
  heads : ∀ page, page < s.mm.kernelPages →
    (s.mm.poolBit page = true ↔ ∃ block ∈ s.live, block.vaddr = pageAddr page)

/-- Both bitmaps say for each page of the pool whether it is owned. -/
def AccountsExact (s : PageUse) : Prop :=
  ∀ page, page < s.mm.kernelPages →
    (s.mm.vmBit page = true ↔ Owned s.live page) ∧
      s.mm.poolBit page = s.mm.vmBit page

private theorem Placed.covers_iff {mm : MmState} {block : PageBlock}
    {first : Nat} (placed : Placed mm block first) (page : Nat) :
    block.Covers page ↔ first ≤ page ∧ page < first + block.pages := by
  unfold PageBlock.Covers
  rw [placed.vaddr, pageAddr_eq, pageAddr_eq]
  unfold pageSize
  omega

theorem Placed.covers_of_vaddr {mm : MmState} {block : PageBlock}
    {first page : Nat} (placed : Placed mm block first)
    (head : block.vaddr = pageAddr page) : block.Covers page := by
  have positive := placed.positive
  unfold PageBlock.Covers
  rw [head]
  unfold pageSize
  omega

private theorem Apart.symm {left right : PageBlock} (apart : Apart left right) :
    Apart right left :=
  fun page both => apart page both.symm

@[simp]
theorem owned_cons {block : PageBlock} {live : List PageBlock} {page : Nat} :
    Owned (block :: live) page ↔ block.Covers page ∨ Owned live page := by
  simp [Owned]

theorem owned_iff_erase {live : List PageBlock} {block : PageBlock}
    (member : block ∈ live) {page : Nat} :
    Owned live page ↔ block.Covers page ∨ Owned (live.erase block) page := by
  rw [← owned_cons]
  unfold Owned
  constructor
  · rintro ⟨other, inLive, covers⟩
    exact ⟨other, (List.perm_cons_erase member).mem_iff.mp inLive, covers⟩
  · rintro ⟨other, inLive, covers⟩
    exact ⟨other, (List.perm_cons_erase member).mem_iff.mpr inLive, covers⟩

theorem apart_erase {live : List PageBlock} {block : PageBlock}
    (apart : live.Pairwise Apart) (member : block ∈ live) :
    (∀ other ∈ live.erase block, Apart block other) ∧
      (live.erase block).Pairwise Apart := by
  have sorted :=
    ((List.perm_cons_erase member).pairwise_iff Apart.symm).mp apart
  exact List.pairwise_cons.mp sorted

namespace BlocksSafe

theorem congr {mm mm' : MmState} {live : List PageBlock}
    (safe : BlocksSafe ⟨mm, live⟩) (layout : KernelPoolLayout mm')
    (sameBitmap : mm'.kernelVmPool.vmBitmap = mm.kernelVmPool.vmBitmap)
    (samePool : mm'.kernelPool.poolBitmap = mm.kernelPool.poolBitmap) :
    BlocksSafe ⟨mm', live⟩ where
  layout := layout
  placed := by
    intro block member
    obtain ⟨first, placed⟩ := safe.placed block member
    refine ⟨first, placed.vaddr, placed.positive, ?_⟩
    simpa [MmState.kernelPages, sameBitmap] using placed.inside
  apart := safe.apart
  marked := by
    intro page owned
    simpa [MmState.vmBit, sameBitmap] using safe.marked page owned
  heads := by
    intro page inside
    simp only [MmState.kernelPages, sameBitmap] at inside
    simpa [MmState.poolBit, samePool] using safe.heads page inside

private theorem pagesTaken {mm mm' : MmState} {live : List PageBlock}
    (safe : BlocksSafe ⟨mm, live⟩) {pages vaddr : Nat} (positive : 1 ≤ pages)
    (taken : PagesTaken mm pages vaddr mm') :
    BlocksSafe ⟨mm', grant live vaddr pages⟩ := by
  rcases taken with ⟨null, rfl⟩ | ⟨first, clear, rfl, rfl⟩
  · simpa [grant, null] using safe
  rw [grant, if_neg (pageAddr_ne_zero first)]
  have placedNew : ∀ mm' : MmState, mm'.kernelPages = mm.kernelPages →
      Placed mm' ⟨pageAddr first, pages⟩ first := by
    intro mm' same
    exact ⟨rfl, positive, by rw [same]; exact clear.1⟩
  have sameCount : ∀ poolBitmap, (mm.withKernelBitmaps
      (mm.kernelVmPool.vmBitmap.writeRange first pages true)
        poolBitmap).kernelPages = mm.kernelPages := by
    intro poolBitmap
    simp [MmState.kernelPages, MmState.withKernelBitmaps]
  constructor
  case layout =>
    exact safe.layout.of_withKernelBitmaps (by simp) (by simp) rfl rfl
  case placed =>
    intro block member
    rcases List.mem_cons.mp member with rfl | old
    · exact ⟨first, placedNew _ (sameCount _)⟩
    · obtain ⟨start, placed⟩ := safe.placed block old
      exact ⟨start, placed.vaddr, placed.positive,
        by rw [sameCount]; exact placed.inside⟩
  case apart =>
    refine List.pairwise_cons.mpr ⟨?_, safe.apart⟩
    intro other member page both
    have inRange := ((placedNew mm rfl).covers_iff page).mp both.1
    have free := clear.2 page inRange.1 inRange.2
    have set := safe.marked page ⟨other, member, both.2⟩
    unfold MmState.vmBit at set
    rw [free] at set
    exact Bool.false_ne_true set
  case marked =>
    intro page owned
    simp only [MmState.vmBit, MmState.withKernelBitmaps]
    rw [Bitmap.bits_writeRange]
    split
    · rfl
    · rename_i outside
      rcases owned_cons.mp owned with new | old
      · exact absurd (((placedNew mm rfl).covers_iff page).mp new) outside
      · exact safe.marked page old
  case heads =>
    intro page inside
    rw [sameCount] at inside
    simp only [MmState.poolBit, MmState.withKernelBitmaps]
    rw [Bitmap.bits_write]
    have old := safe.heads page inside
    simp only [MmState.poolBit] at old
    split
    · rename_i here
      subst page
      simp
    · rename_i different
      have notHead : pageAddr first ≠ pageAddr page := by
        rw [pageAddr_eq, pageAddr_eq]
        omega
      simp [old, notHead]

private theorem pageFree {mm mm' : MmState} {live : List PageBlock}
    {block : PageBlock} (safe : BlocksSafe ⟨mm, live⟩) (member : block ∈ live)
    (freed : Simos.pageFree mm .pfKernel block.vaddr block.pages = .ok mm') :
    BlocksSafe ⟨mm', live.erase block⟩ := by
  obtain ⟨first, placed⟩ := safe.placed block member
  rw [placed.vaddr, ← Nat.add_zero (pageAddr first),
    pageFree_kernel safe.layout placed.positive (by decide) placed.inside,
    Except.ok.injEq] at freed
  subst mm'
  obtain ⟨apartBlock, apartRest⟩ := apart_erase safe.apart member
  constructor
  case layout =>
    exact safe.layout.of_withKernelBitmaps rfl rfl (by simp) (by simp)
  case placed =>
    intro other inRest
    obtain ⟨start, placed'⟩ := safe.placed other (List.mem_of_mem_erase inRest)
    exact ⟨start, placed'.vaddr, placed'.positive, placed'.inside⟩
  case apart =>
    exact apartRest
  case marked =>
    intro page owned
    have different : page ≠ first := by
      rintro rfl
      obtain ⟨other, inRest, covers⟩ := owned
      have positive := placed.positive
      exact apartBlock other inRest page
        ⟨(placed.covers_iff page).mpr (by omega), covers⟩
    simp only [MmState.vmBit, MmState.withKernelBitmaps]
    rw [Bitmap.bits_write_of_ne _ _ _ different]
    exact safe.marked page ((owned_iff_erase member).mpr (Or.inr owned))
  case heads =>
    intro page inside
    simp only [MmState.poolBit, MmState.withKernelBitmaps]
    rw [Bitmap.bits_writeRange]
    have coversHead : ∀ other ∈ live, other.vaddr = pageAddr page →
        other.Covers page := by
      intro other inLive equal
      obtain ⟨start, placed'⟩ := safe.placed other inLive
      exact placed'.covers_of_vaddr equal
    split
    · rename_i inRange
      simp only [Bool.false_eq_true, false_iff]
      rintro ⟨other, inRest, equal⟩
      exact apartBlock other inRest page
        ⟨(placed.covers_iff page).mpr inRange,
          coversHead other (List.mem_of_mem_erase inRest) equal⟩
    · rename_i outside
      have old := safe.heads page inside
      simp only [MmState.poolBit] at old
      rw [old]
      constructor
      · rintro ⟨other, inLive, equal⟩
        rcases List.mem_cons.mp
            ((List.perm_cons_erase member).mem_iff.mp inLive) with rfl | inRest
        · exact absurd ((placed.covers_iff page).mp
            (coversHead other member equal)) outside
        · exact ⟨other, inRest, equal⟩
      · rintro ⟨other, inRest, equal⟩
        exact ⟨other, List.mem_of_mem_erase inRest, equal⟩

theorem step {s s' : PageUse} {event : PageEvent} (safe : BlocksSafe s)
    (taken : PageStep s event s') : BlocksSafe s' := by
  cases taken with
  | pageAlloc positive bound returned =>
      exact safe.pagesTaken positive
        (pageAlloc_pagesTaken safe.layout positive bound returned)
  | getKernelPages positive bound returned =>
      obtain ⟨held, taken, memory, freed, allocated, rfl⟩ :=
        getKernelPages_eq_ok returned
      have locked := safe.congr (safe.layout.withLock held) rfl rfl
      have granted := locked.pagesTaken positive
        (pageAlloc_pagesTaken locked.layout positive bound allocated)
      exact granted.congr
        ((granted.layout.withMemory memory).withLock freed) rfl rfl
  | pageFree member returned =>
      exact safe.pageFree member returned

end BlocksSafe

/-- A safe allocator is exact when no live block has a second page and no
page is marked without need. -/
theorem accountsExact_iff {s : PageUse} (safe : BlocksSafe s) :
    AccountsExact s ↔
      (∀ block ∈ s.live, block.pages = 1) ∧
        ∀ page, page < s.mm.kernelPages → s.mm.vmBit page = true →
          Owned s.live page := by
  constructor
  · intro exactly
    refine ⟨?_, fun page inside => (exactly page inside).1.mp⟩
    intro block member
    obtain ⟨first, placed⟩ := safe.placed block member
    have positive := placed.positive
    have room := placed.inside
    by_contra several
    -- the second page of the block heads no block
    have covers : block.Covers (first + 1) :=
      (placed.covers_iff _).mpr (by omega)
    have marked := safe.marked _ ⟨block, member, covers⟩
    rw [← (exactly (first + 1) (by omega)).2,
      safe.heads (first + 1) (by omega)] at marked
    obtain ⟨other, inLive, equal⟩ := marked
    obtain ⟨start, placed'⟩ := safe.placed other inLive
    have coversToo := placed'.covers_of_vaddr equal
    by_cases same : other = block
    · subst other
      have bothHeads := placed.vaddr.symm.trans equal
      rw [pageAddr_eq, pageAddr_eq] at bothHeads
      omega
    · exact (apart_erase safe.apart member).1 other
        ((List.mem_erase_of_ne same).mpr inLive) _ ⟨covers, coversToo⟩
  · rintro ⟨single, needed⟩ page inside
    have marked : s.mm.vmBit page = true ↔ Owned s.live page :=
      ⟨needed page inside, safe.marked page⟩
    refine ⟨marked, ?_⟩
    rw [Bool.eq_iff_iff, marked, safe.heads page inside]
    constructor
    · rintro ⟨block, member, equal⟩
      obtain ⟨first, placed⟩ := safe.placed block member
      exact ⟨block, member, placed.covers_of_vaddr equal⟩
    · rintro ⟨block, member, covers⟩
      obtain ⟨first, placed⟩ := safe.placed block member
      have range := (placed.covers_iff page).mp covers
      have one := single block member
      refine ⟨block, member, ?_⟩
      rw [placed.vaddr, show first = page by omega]

/-- `page_alloc` keeps exact accounts exact just when it takes one page or
finds no room. -/
theorem accountsExact_pageAlloc_iff {mm mm' : MmState} {live : List PageBlock}
    (safe : BlocksSafe ⟨mm, live⟩) (exactly : AccountsExact ⟨mm, live⟩)
    {pages vaddr : Nat} (positive : 1 ≤ pages) (bound : pages < 4294967296)
    (returned : Simos.pageAlloc mm .pfKernel pages = .ok (vaddr, mm')) :
    AccountsExact ⟨mm', grant live vaddr pages⟩ ↔
      pages = 1 ∨ bitmapApply mm.kernelVmPool.vmBitmap pages = .ok (-1) := by
  have taken := pageAlloc_pagesTaken safe.layout positive bound returned
  rw [← pageAlloc_null_iff safe.layout positive bound returned]
  have safe' := safe.pagesTaken positive taken
  rw [accountsExact_iff safe']
  rw [accountsExact_iff safe] at exactly
  obtain ⟨single, needed⟩ := exactly
  rcases taken with ⟨null, rfl⟩ | ⟨first, clear, rfl, rfl⟩
  · simp only [grant, null, if_true, or_true, iff_true]
    exact ⟨single, needed⟩
  · have notNull := pageAddr_ne_zero first
    have covers : ∀ page, first ≤ page → page < first + pages →
        (PageBlock.mk (pageAddr first) pages).Covers page := by
      intro page lower upper
      have placed : Placed mm ⟨pageAddr first, pages⟩ first :=
        ⟨rfl, positive, clear.1⟩
      exact (placed.covers_iff page).mpr ⟨lower, upper⟩
    rw [grant, if_neg notNull]
    simp only [notNull, or_false]
    constructor
    · intro both
      exact both.1 _ List.mem_cons_self
    · intro one
      refine ⟨?_, ?_⟩
      · intro block member
        rcases List.mem_cons.mp member with rfl | old
        · exact one
        · exact single block old
      · intro page inside set
        simp only [MmState.kernelPages, MmState.withKernelBitmaps,
          Bitmap.bitCount_writeRange] at inside
        simp only [MmState.vmBit, MmState.withKernelBitmaps] at set
        rw [Bitmap.bits_writeRange] at set
        rw [owned_cons]
        by_cases inRange : first ≤ page ∧ page < first + pages
        · exact Or.inl (covers page inRange.1 inRange.2)
        · rw [if_neg inRange] at set
          exact Or.inr (needed page inside set)

private theorem accountsExact_pageFree {mm mm' : MmState}
    {live : List PageBlock} {block : PageBlock} (safe : BlocksSafe ⟨mm, live⟩)
    (exactly : AccountsExact ⟨mm, live⟩) (member : block ∈ live)
    (freed : Simos.pageFree mm .pfKernel block.vaddr block.pages = .ok mm') :
    AccountsExact ⟨mm', live.erase block⟩ := by
  have safe' := safe.pageFree member freed
  rw [accountsExact_iff safe']
  rw [accountsExact_iff safe] at exactly
  obtain ⟨single, needed⟩ := exactly
  obtain ⟨first, placed⟩ := safe.placed block member
  rw [placed.vaddr, ← Nat.add_zero (pageAddr first),
    pageFree_kernel safe.layout placed.positive (by decide) placed.inside,
    Except.ok.injEq] at freed
  subst mm'
  refine ⟨fun other inRest => single other (List.mem_of_mem_erase inRest), ?_⟩
  intro page inside set
  simp only [MmState.vmBit, MmState.withKernelBitmaps] at set
  rw [Bitmap.bits_write] at set
  by_cases here : page = first
  · rw [if_pos here] at set
    exact absurd set Bool.false_ne_true
  · rw [if_neg here] at set
    rcases (owned_iff_erase member).mp (needed page inside set) with
      covers | owned
    · have range := (placed.covers_iff page).mp covers
      have one := single block member
      omega
    · exact owned

/-- From a safe and exact state, the calls that keep the accounts exact are
those that take one page at most. -/
theorem accountsExact_step_iff {s s' : PageUse} {event : PageEvent}
    (safe : BlocksSafe s) (exactly : AccountsExact s)
    (taken : PageStep s event s') :
    AccountsExact s' ↔ OnePageAtMost s event := by
  cases taken with
  | pageAlloc positive bound returned =>
      exact accountsExact_pageAlloc_iff safe exactly positive bound returned
  | getKernelPages positive bound returned =>
      obtain ⟨held, taken, memory, freed, allocated, rfl⟩ :=
        getKernelPages_eq_ok returned
      have counted := accountsExact_pageAlloc_iff
        (safe.congr (safe.layout.withLock held) rfl rfl) exactly positive bound
        allocated
      exact counted
  | pageFree member returned =>
      simp only [OnePageAtMost, iff_true]
      exact accountsExact_pageFree safe exactly member returned

theorem blocksSafe_start {mm : MmState} (layout : KernelPoolLayout mm)
    (poolClear : ∀ page, page < mm.kernelPages → mm.poolBit page = false) :
    BlocksSafe ⟨mm, []⟩ where
  layout := layout
  placed := by simp
  apart := List.Pairwise.nil
  marked := by simp [Owned]
  heads := by
    intro page inside
    simp [poolClear page inside]

end PageUse

open PageUse

/-- In every state of a run, each live block lies inside the kernel virtual
pool on whole pages, no two live blocks share a page, and the virtual bitmap
marks every page of every live block. -/
theorem pageRun_blocks_safe {prior mm : MmState} {totalMem : Nat}
    {trace : List (PageEvent × PageUse)} {last : PageUse}
    (large : 0x2000000 ≤ totalMem)
    (booted : memPoolInit prior totalMem = .ok mm)
    (run : Run PageStep ⟨mm, []⟩ trace last) :
    (∀ block ∈ last.live,
      block.vaddr % pageSize = 0 ∧
        last.mm.kernelVmPool.vmStart ≤ block.vaddr ∧
        block.vaddr + pageSize * block.pages ≤
          last.mm.kernelVmPool.vmStart +
            8 * last.mm.kernelVmPool.vmBitmap.bitmapBytesLen * pageSize) ∧
      last.live.Pairwise Apart ∧
      ∀ block ∈ last.live, ∀ page, block.Covers page →
        last.mm.vmBit page = true := by
  obtain ⟨layout, -, poolClear⟩ := memPoolInit_layout large booted
  have safe := run.invariant (blocksSafe_start layout poolClear)
    fun _ _ _ safe taken => safe.step taken
  refine ⟨?_, safe.apart,
    fun block member page covers => safe.marked page ⟨block, member, covers⟩⟩
  intro block member
  obtain ⟨first, placed⟩ := safe.placed block member
  have room := placed.inside
  rw [safe.layout.bytesLen] at room
  rw [placed.vaddr, safe.layout.vmStart, pageAddr_eq]
  unfold pageSize kernelHeapBase
  omega

private theorem twoPages_run :
    ∃ mm last, memPoolInit coldMm 0x2200000 = .ok mm ∧
      Run PageStep ⟨mm, []⟩ [(.pageAlloc 2 (pageAddr 0), last)] last ∧
      last.live = [⟨pageAddr 0, 2⟩] := by
  have found : ∃ mm, memPoolInit coldMm 0x2200000 = .ok mm ∧
      bitmapApply mm.kernelVmPool.vmBitmap 2 = .ok 0 :=
    ⟨_, rfl, by decide +kernel⟩
  obtain ⟨mm, booted, applied⟩ := found
  have layout := (memPoolInit_layout (by decide) booted).1
  have allocated := pageAlloc_kernel layout (show 1 ≤ 2 by decide)
    (show 2 < 4294967296 by decide)
  rw [applied, Call.ok_bind, if_neg (by decide)] at allocated
  have run := Run.next Run.start
    (PageStep.pageAlloc (s := ⟨mm, []⟩) (by decide) (by decide) allocated)
  exact ⟨mm, _, booted, run, rfl⟩

/-- On 34 MB, two blocks are taken, and the page of the first one is used
again. -/
private theorem pageAlloc_reuse :
    (do
      let mm ← memPoolInit coldMm 0x2200000
      let (first, mm) ← pageAlloc mm .pfKernel 2
      let (second, mm) ← pageAlloc mm .pfKernel 1
      let mm ← pageFree mm .pfKernel 0xc1000000 2
      let (third, _) ← pageAlloc mm .pfKernel 1
      return [first, second, third] : Call (List Nat)) =
        .ok [0xc1000000, 0xc1002000, 0xc1000000] := by
  decide +kernel

/-- The safety statement for two live blocks, one on a page that was given
back. -/
theorem pageRun_blocks_safe_reused :
    ∃ mm trace last, memPoolInit coldMm 0x2200000 = .ok mm ∧
      Run PageStep ⟨mm, []⟩ trace last ∧
      trace.map Prod.fst =
        [.pageAlloc 2 0xc1000000, .pageAlloc 1 0xc1002000,
          .pageFree ⟨0xc1000000, 2⟩, .pageAlloc 1 0xc1000000] ∧
      last.live = [⟨0xc1000000, 1⟩, ⟨0xc1002000, 1⟩] ∧
      last.live.Pairwise Apart ∧
      last.mm.vmBit 0 = true ∧ last.mm.vmBit 2 = true := by
  have computed := pageAlloc_reuse
  simp only [Call.bind_eq_ok_iff, Call.pure_eq_ok, Except.ok.injEq,
    List.cons.injEq, and_true] at computed
  obtain ⟨mm, booted, ⟨_, mm₁⟩, first, ⟨_, mm₂⟩, second, mm₃, freed,
    ⟨_, mm₄⟩, third, rfl, rfl, rfl⟩ := computed
  have run := Run.start.next
    (@PageStep.pageAlloc ⟨mm, []⟩ _ _ _ (by decide) (by decide) first)
  have run := run.next (PageStep.pageAlloc (by decide) (by decide) second)
  have run := run.next (@PageStep.pageFree _ mm₃ ⟨0xc1000000, 2⟩
    (by simp [grant]) freed)
  have run := run.next (@PageStep.pageAlloc ⟨mm₃, [⟨0xc1002000, 1⟩]⟩ _ 1 _
    (by decide) (by decide) third)
  obtain ⟨-, apart, marked⟩ := pageRun_blocks_safe (by decide) booted run
  have covers : ∀ {page : Nat} {vaddr : Nat}, pageAddr page = vaddr →
      PageBlock.Covers ⟨vaddr, 1⟩ page := by
    intro page vaddr same
    rw [← same]
    exact ⟨Nat.le_refl _,
      Nat.lt_add_of_pos_right (show 0 < pageSize * 1 by decide)⟩
  exact ⟨mm, _, _, booted, run, rfl, rfl, apart,
    marked ⟨0xc1000000, 1⟩ (by simp [grant]) 0 (covers rfl),
    marked ⟨0xc1002000, 1⟩ (by simp [grant]) 2 (covers rfl)⟩

/-- The runs in which both bitmaps agree with the live blocks in every state
are those in which no call takes more than one page. -/
theorem pageRun_accounts_exact_iff {prior mm : MmState} {totalMem : Nat}
    {trace : List (PageEvent × PageUse)} {last : PageUse}
    (large : 0x2000000 ≤ totalMem)
    (booted : memPoolInit prior totalMem = .ok mm)
    (run : Run PageStep ⟨mm, []⟩ trace last) :
    (AccountsExact ⟨mm, []⟩ ∧
        ∀ event state, (event, state) ∈ trace → state.AccountsExact) ↔
      Run (Guarded PageStep OnePageAtMost) ⟨mm, []⟩ trace last := by
  obtain ⟨layout, vmClear, poolClear⟩ := memPoolInit_layout large booted
  have safeStart := blocksSafe_start layout poolClear
  have exactStart : AccountsExact ⟨mm, []⟩ :=
    (accountsExact_iff safeStart).mpr ⟨by simp, by simp +contextual [vmClear]⟩
  rw [run.forall_iff_guarded safeStart exactStart
    (fun _ _ _ safe taken => safe.step taken)
    (fun _ _ _ safe exactly taken =>
      accountsExact_step_iff safe exactly taken)]
  exact and_iff_right exactStart

/-- The exactness statement at the run that takes two pages of 34 MB, which is
not guarded. -/
theorem pageRun_accounts_exact_iff_twoPages :
    ∃ mm last, memPoolInit coldMm 0x2200000 = .ok mm ∧
      ((AccountsExact ⟨mm, []⟩ ∧
          ∀ event state,
            (event, state) ∈ [(PageEvent.pageAlloc 2 (pageAddr 0), last)] →
              state.AccountsExact) ↔
        Run (Guarded PageStep OnePageAtMost) ⟨mm, []⟩
          [(.pageAlloc 2 (pageAddr 0), last)] last) := by
  obtain ⟨mm, last, booted, run, -⟩ := twoPages_run
  exact ⟨mm, last, booted, pageRun_accounts_exact_iff (by decide) booted run⟩

/-- After `page_alloc(PF_KERNEL, 2)` on 34 MB the second page of the block is
marked in one bitmap and free in the other. -/
theorem pageAlloc_two_not_exact :
    ∃ mm last, memPoolInit coldMm 0x2200000 = .ok mm ∧
      Run PageStep ⟨mm, []⟩ [(.pageAlloc 2 (pageAddr 0), last)] last ∧
      last.mm.vmBit 1 ≠ last.mm.poolBit 1 ∧ ¬ last.AccountsExact := by
  obtain ⟨mm, last, booted, run, live⟩ := twoPages_run
  obtain ⟨layout, -, poolClear⟩ := memPoolInit_layout (by decide) booted
  have safe := run.invariant (blocksSafe_start layout poolClear)
    fun _ _ _ safe taken => safe.step taken
  have notExact : ¬ last.AccountsExact := by
    rw [accountsExact_iff safe, live]
    simp
  refine ⟨mm, last, booted, run, ?_, notExact⟩
  have marked : last.mm.vmBit 1 = true :=
    safe.marked 1 ⟨⟨pageAddr 0, 2⟩, by simp [live], by
      simp only [PageBlock.Covers, pageAddr_eq, pageSize]
      omega⟩
  have notHead : ¬ last.mm.poolBit 1 = true := by
    obtain ⟨first, placed⟩ := safe.placed ⟨pageAddr 0, 2⟩ (by simp [live])
    have room := placed.inside
    rw [safe.heads 1 (by simp only at room; omega), live]
    simp [pageAddr_eq]
  intro same
  exact notHead (same ▸ marked)

end Simos
