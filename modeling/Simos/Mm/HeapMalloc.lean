import Simos.Mm.HeapLoops

/-!
# What `sys_malloc` does to the heap

One theorem for each part of the function: whole pages, a new arena, the first
block of a free list.  Each says which change of the ghost state the part
makes, and what it leaves in the page bitmaps and in the memory returned.
-/

namespace Simos

open Simos.Library LinkHeap

/-- Some arena block of each small arena is not free. -/
def Busy (g : HeapGhost) : Prop :=
  ∀ page cls, g.kind page = .small cls →
    ∃ index, index < classBlocks cls ∧ slotAddr page cls index ∉ g.free cls

/-- The heap between calls of a kernel thread. -/
structure HeapOk (g : HeapGhost) (live : List Region) (s : MmState) : Prop where
  shape : HeapShape g live s
  busy : Busy g
  unlocked : s.kernelPool.lock = lockInit

/-- The run of pages that an allocation took out of both bitmaps. -/
def PagesMarked (s s' : MmState) (page count : Nat) : Prop :=
  s.kernelVmPool.vmBitmap.ClearRun page count ∧
    s'.kernelVmPool.vmBitmap =
      s.kernelVmPool.vmBitmap.writeRange page count true ∧
    s'.kernelPool.poolBitmap = s.kernelPool.poolBitmap.write page true

def SameBitmaps (s s' : MmState) : Prop :=
  s'.kernelVmPool.vmBitmap = s.kernelVmPool.vmBitmap ∧
    s'.kernelPool.poolBitmap = s.kernelPool.poolBitmap

private def MmState.marked (s : MmState) (page count : Nat) : MmState :=
  s.withKernelBitmaps (s.kernelVmPool.vmBitmap.writeRange page count true)
    (s.kernelPool.poolBitmap.write page true)

def MmState.unmarked (s : MmState) (page count : Nat) : MmState :=
  s.withKernelBitmaps (s.kernelVmPool.vmBitmap.write page false)
    (s.kernelPool.poolBitmap.writeRange page count false)

namespace HeapLayout

variable {s : MmState}

theorem withMemory (layout : HeapLayout s) (memory : ByteMemory) :
    HeapLayout (s.withMemory memory) :=
  ⟨layout.pool.withMemory memory, layout.poolSize, layout.kernelThread,
    layout.task, layout.descArray⟩

private theorem withLock (layout : HeapLayout s) (lock : Lock (List Nat)) :
    HeapLayout (s.withLock lock) :=
  ⟨layout.pool.withLock lock, layout.poolSize, layout.kernelThread,
    layout.task, layout.descArray⟩

private theorem marked (layout : HeapLayout s) (page count : Nat) :
    HeapLayout (s.marked page count) :=
  ⟨layout.pool.of_withKernelBitmaps (by simp) (by simp) rfl rfl,
    layout.poolSize, layout.kernelThread, layout.task, layout.descArray⟩

theorem unmarked (layout : HeapLayout s) (page count : Nat) :
    HeapLayout (s.unmarked page count) :=
  ⟨layout.pool.of_withKernelBitmaps rfl rfl (by simp) (by simp),
    layout.poolSize, layout.kernelThread, layout.task, layout.descArray⟩

end HeapLayout

namespace PagesShape

variable {g g' : HeapGhost} {s : MmState}

theorem unused_of_clear (pages : PagesShape g s) {page count : Nat}
    (clear : s.kernelVmPool.vmBitmap.ClearRun page count) :
    ∀ other, page ≤ other → other < page + count →
      g.kind other = .unused := by
  intro other lower upper
  by_contra used
  have set := (pages.used other used).2
  unfold MmState.vmBit at set
  rw [clear.2 other lower upper] at set
  exact Bool.false_ne_true set

theorem taken (pages : PagesShape g s) {page count : Nat}
    (clear : s.kernelVmPool.vmBitmap.ClearRun page count)
    (inside : ∀ other, page ≤ other → other < page + count →
      ((g'.kind other).IsHead ↔ other = page))
    (outside : ∀ other, ¬ (page ≤ other ∧ other < page + count) →
      g'.kind other = g.kind other) (positive : 1 ≤ count) :
    PagesShape g' (s.marked page count) where
  used := by
    intro other used
    simp only [MmState.kernelPages, MmState.vmBit, MmState.marked,
      MmState.withKernelBitmaps,
      Bitmap.bitCount_writeRange, Bitmap.bits_writeRange]
    by_cases here : page ≤ other ∧ other < page + count
    · have room := clear.1
      rw [if_pos here]
      exact ⟨by omega, rfl⟩
    · rw [if_neg here]
      rw [outside other here] at used
      exact pages.used other used
  heads := by
    intro other low
    simp only [MmState.kernelPages, MmState.marked, MmState.withKernelBitmaps,
      Bitmap.bitCount_writeRange] at low
    simp only [MmState.poolBit, MmState.marked, MmState.withKernelBitmaps,
      Bitmap.bits_write]
    have old := pages.heads other low
    unfold MmState.poolBit at old
    by_cases here : page ≤ other ∧ other < page + count
    · rw [inside other here.1 here.2]
      split
      · simp_all
      · rename_i notPage
        have notHead : ¬ (g.kind other).IsHead := by
          rw [pages.unused_of_clear clear other here.1 here.2]
          exact id
        simp only [notPage, iff_false]
        exact fun set => notHead (old.mp set)
    · rw [if_neg (by omega), outside other here]
      exact old

theorem freed (pages : PagesShape g s) {page count : Nat} (positive : 1 ≤ count)
    (inside : ∀ other, page ≤ other → other < page + count →
      g'.kind other = .unused)
    (outside : ∀ other, ¬ (page ≤ other ∧ other < page + count) →
      g'.kind other = g.kind other) :
    PagesShape g' (s.unmarked page count) where
  used := by
    intro other used
    have notHere : ¬ (page ≤ other ∧ other < page + count) := fun here =>
      used (inside other here.1 here.2)
    rw [outside other notHere] at used
    simp only [MmState.kernelPages, MmState.vmBit, MmState.unmarked,
      MmState.withKernelBitmaps, Bitmap.bitCount_write, Bitmap.bits_write]
    rw [if_neg (by omega)]
    exact pages.used other used
  heads := by
    intro other low
    simp only [MmState.poolBit, MmState.unmarked, MmState.withKernelBitmaps,
      Bitmap.bits_writeRange]
    by_cases here : page ≤ other ∧ other < page + count
    · rw [if_pos here, inside other here.1 here.2]
      simp [PageKind.IsHead]
    · rw [if_neg here, outside other here]
      exact pages.heads other low

end PagesShape

/-- The number of pages that hold a request and its arena header. -/
def requestPages (size : Nat) : Nat :=
  (size + 4103) / 4096

/-! ## Whole pages -/

private def headed (memory : ByteMemory) (page count desc cnt : Nat) :
    ByteMemory :=
  ((memory.fill (pageAddr page) 0 (4096 * count)).storeWord (pageAddr page)
    desc).storeWord (pageAddr page + 4) cnt

private theorem headed_sameCell {memory : ByteMemory}
    {page count desc cnt address : Nat} (positive : 1 ≤ count)
    (outside : address + 8 ≤ pageAddr page ∨
      pageAddr page + pageSize * count ≤ address) :
    SameCell memory (headed memory page count desc cnt) address := by
  unfold pageSize at outside
  exact ((SameCell.fill (by omega)).trans (SameCell.storeWord (by omega))).trans
    (SameCell.storeWord (by omega))

private theorem headed_desc {memory : ByteMemory} {page count desc cnt : Nat}
    (bound : desc < 4294967296) :
    arenaDesc (headed memory page count desc cnt) (pageAddr page) = desc := by
  unfold arenaDesc headed
  rw [ByteMemory.loadWord_storeWord_of_disjoint _ _ (by omega)]
  exact ByteMemory.loadWord_storeWord_self _ _ bound

private theorem headed_cnt {memory : ByteMemory} {page count desc cnt : Nat}
    (bound : cnt < 4294967296) :
    arenaCnt (headed memory page count desc cnt) (pageAddr page) = cnt :=
  ByteMemory.loadWord_storeWord_self _ _ bound

private theorem headed_zero {memory : ByteMemory}
    {page count desc cnt address : Nat} (lower : pageAddr page + 8 ≤ address)
    (upper : address < pageAddr page + 4096 * count) :
    (headed memory page count desc cnt).byte address = 0 := by
  unfold headed
  rw [ByteMemory.byte_storeWord_of_outside _ _ (by omega),
    ByteMemory.byte_storeWord_of_outside _ _ (by omega), ByteMemory.byte_fill,
    if_pos (by omega)]

private theorem memory_largeAdded {g : HeapGhost} {live : List Region}
    {descArray page count : Nat} {memory : ByteMemory}
    (shape : MemoryShape g descArray memory) (blocks : BlocksShape g live)
    (placed : DescArrayPlaced descArray) (positive : 1 ≤ count)
    (bound : count < 4294967296)
    (unused : ∀ other, page ≤ other → other < page + count →
      g.kind other = .unused) :
    MemoryShape (g.withLarge page count) descArray
      (headed memory page count 0 count) := by
  have sameFree : (g.withLarge page count).free = g.free := rfl
  apply shape.keep blocks placed
    (fun other => page ≤ other ∧ other < page + count) sameFree
  · intro other notHere
    simp only [HeapGhost.withLarge]
    rw [if_neg (by omega), if_neg (by omega)]
  · intro address isMeta _
    exact headed_sameCell positive
      (blocks.meta_outside_unused placed unused isMeta)
  · rintro other ⟨lower, upper⟩
    by_cases same : other = page
    · subst same
      simp only [HeaderShape, HeapGhost.withLarge, if_true]
      exact ⟨headed_desc (by decide), headed_cnt bound⟩
    · simp only [HeaderShape, HeapGhost.withLarge, if_neg same]
      rw [if_pos (by omega)]
      trivial

private theorem mallocPages_ok {g : HeapGhost} {live : List Region}
    {s s' : MmState}
    {size ptr : Nat} (shape : HeapShape g live s) (large : 1024 < size)
    (fits : size ≤ s.kernelPool.poolSize)
    (returned : mallocPages s .pfKernel size = .ok (ptr, s')) :
    (ptr = 0 ∧ s' = s ∧
        bitmapApply s.kernelVmPool.vmBitmap (requestPages size) = .ok (-1)) ∨
      ∃ page,
        PagesMarked s s' page (requestPages size) ∧
          bitmapApply s.kernelVmPool.vmBitmap (requestPages size) ≠ .ok (-1) ∧
          s'.kernelPool.lock = s.kernelPool.lock ∧
          HeapShape (g.withLarge page (requestPages size)) (⟨ptr, size⟩ :: live)
            s' ∧
          ptr ≠ 0 ∧
          ∀ address, ptr ≤ address → address < ptr + size →
            s'.memory.byte address = 0 := by
  have poolBound := shape.layout.poolSize
  have countEq : u32 (size + arenaSize + pageSize - 1) / pageSize =
      requestPages size := by
    unfold requestPages arenaSize pageSize
    rw [u32_of_lt (by omega), show size + 8 + 4096 - 1 = size + 4103 by omega]
  have positive : 1 ≤ requestPages size := by
    unfold requestPages
    omega
  have bound : requestPages size < 258050 := by
    unfold requestPages
    omega
  simp only [mallocPages, countEq, Call.bind_eq_ok_iff] at returned
  obtain ⟨⟨arena, taken⟩, allocated, returned⟩ := returned
  have none_iff := pageAlloc_null_iff shape.layout.pool positive (by omega)
    allocated
  rcases pageAlloc_pagesTaken shape.layout.pool positive (by omega) allocated
    with ⟨null, rfl⟩ | ⟨page, clear, vaddr, rfl⟩
  · simp only [null, if_true, Call.pure_eq_ok, Except.ok.injEq,
      Prod.mk.injEq] at returned
    exact Or.inl ⟨returned.1.symm, returned.2.symm, none_iff.mp null⟩
  right
  subst vaddr
  simp only [if_neg (pageAddr_ne_zero page), Call.bind_eq_ok_iff, memset,
    Call.assert_eq_ok_iff, Call.pure_eq_ok, Except.ok.injEq, Prod.mk.injEq]
    at returned
  obtain ⟨cleared, ⟨_, _, filled⟩, rfl, rfl⟩ := returned
  have bytes : u32 (requestPages size * pageSize) = 4096 * requestPages size := by
    unfold pageSize
    rw [u32_of_lt (by omega)]
    omega
  rw [bytes] at filled
  split at filled
  · cases filled
  rename_i reachable
  obtain rfl := Except.ok.inj filled
  have below : page + requestPages size ≤ 257024 := by
    rw [pageAddr_eq] at reachable
    unfold selfMapBase at reachable
    omega
  have unused := shape.pages.unused_of_clear clear
  have room : size + arenaSize ≤ pageSize * requestPages size := by
    unfold requestPages arenaSize pageSize
    omega
  have kindOutside : ∀ other, ¬ (page ≤ other ∧ other < page + requestPages size) →
      (g.withLarge page (requestPages size)).kind other = g.kind other := by
    intro other notHere
    simp only [HeapGhost.withLarge]
    rw [if_neg (by omega), if_neg (by omega)]
  have kindInside : ∀ other, page ≤ other → other < page + requestPages size →
      (((g.withLarge page (requestPages size)).kind other).IsHead ↔
        other = page) := by
    intro other lower upper
    by_cases same : other = page
    · simp [HeapGhost.withLarge, same, PageKind.IsHead]
    · simp only [HeapGhost.withLarge, if_neg same]
      rw [if_pos (by omega)]
      simp [PageKind.IsHead, same]
  have pages := shape.pages.taken clear kindInside kindOutside positive
  have shape' : HeapShape (g.withLarge page (requestPages size))
      (⟨pageAddr page + arenaSize, size⟩ :: live)
      ((s.marked page (requestPages size)).withMemory
        (headed s.memory page (requestPages size) 0 (requestPages size))) :=
    ⟨(shape.layout.marked page _).withMemory _,
      shape.blocks.largeAdded positive below unused large room,
      ⟨pages.used, pages.heads⟩,
      memory_largeAdded shape.memory shape.blocks shape.layout.descArray
        positive (by omega) unused⟩
  refine ⟨page, ⟨clear, rfl, rfl⟩,
    fun failed => pageAddr_ne_zero page (none_iff.mpr failed), rfl, shape',
    ?_, ?_⟩
  · have positive' := pageAddr_ne_zero page
    omega
  · intro address lower upper
    unfold arenaSize at lower upper room
    unfold pageSize at room
    exact headed_zero lower (by omega)

/-! ## A new arena -/

private theorem freeCount_slots {page cls : Nat} :
    (slots page cls).countP (fun block => decide (OnPage page block)) =
      classBlocks cls := by
  rw [List.countP_eq_length.mpr]
  · simp [slots]
  · intro block member
    exact decide_eq_true (onPage_of_mem_slots member)

private theorem memory_smallAdded {g : HeapGhost} {live : List Region}
    {descArray page cls : Nat} {memory memory' : ByteMemory}
    (shape : MemoryShape g descArray memory) (blocks : BlocksShape g live)
    (placed : DescArrayPlaced descArray) (inside : cls < memDescCnt)
    (low : page < 257024) (unused : g.kind page = .unused)
    (empty : g.free cls = [])
    (ring : Ring memory' (descFreeList (descAddr descArray cls))
      (slots page cls))
    (kept : ∀ address, IsCell descArray address →
      address ≠ descFreeList (descAddr descArray cls) →
      address ∉ slots page cls →
      SameCell (headed memory page 1 (descAddr descArray cls)
        (classBlocks cls)) memory' address) :
    MemoryShape (g.withSmall page cls) descArray memory' := by
  have below := placed.below inside
  have unusedRange : ∀ other, page ≤ other → other < page + 1 →
      g.kind other = .unused := by
    intro other lower upper
    rw [show other = page by omega]
    exact unused
  have newFree : (g.withSmall page cls).free cls = slots page cls := by
    simp [HeapGhost.withSmall]
  refine shape.change blocks placed inside (fun other => other = page) ?_ ?_ ?_
    ?_ ?_ ?_
  · intro other different
    simp only [HeapGhost.withSmall, if_neg different]
  · intro other notPage
    simp only [HeapGhost.withSmall, if_neg notPage]
  · rw [newFree]
    exact ring
  · intro address isMeta notRing _
    rw [empty, List.mem_singleton] at notRing
    have outside := blocks.meta_outside_unused placed unusedRange isMeta
    refine (headed_sameCell (Nat.le_refl 1) outside).trans
      (kept address (blocks.isCell_of_isMeta isMeta) notRing ?_)
    intro member
    have onPage := onPage_of_mem_slots member
    unfold OnPage at onPage
    unfold pageSize at onPage outside
    omega
  · rintro other rfl
    have header := kept (pageAddr other) (isCell_pageAddr low)
      (by rw [descFreeList_eq, ← descAddr_eq, pageAddr_eq]; omega)
      (by
        intro member
        obtain ⟨index, small, equal⟩ := mem_slots.mp member
        exact slotAddr_ne_pageAddr small equal.symm)
    have many := classBlocks_lt cls
    simp only [HeaderShape, HeapGhost.withSmall, if_true]
    refine ⟨header.1.trans (headed_desc (by omega)), ?_⟩
    refine (header.2.trans (headed_cnt (by omega))).trans ?_
    simp only [HeapGhost.freeCount, if_true]
    exact freeCount_slots.symm
  · intro other notPage _
    unfold HeapGhost.freeCount
    rw [newFree, empty, List.countP_nil, List.countP_eq_zero]
    intro block member onPage
    exact notPage
      (OnPage.unique (of_decide_eq_true onPage) (onPage_of_mem_slots member))

private theorem refillFreeList_ok {g : HeapGhost} {live : List Region}
    {s s' : MmState} {cls : Nat} {room : Bool} (shape : HeapShape g live s)
    (inside : cls < memDescCnt) (empty : g.free cls = [])
    (returned : refillFreeList s .pfKernel
      (descAddr s.kernelBlockDescArray cls) = .ok (room, s')) :
    (room = false ∧ s' = s) ∨
      room = true ∧ ∃ page, g.kind page = .unused ∧ PagesMarked s s' page 1 ∧
        s'.kernelPool.lock = s.kernelPool.lock ∧
        s'.kernelBlockDescArray = s.kernelBlockDescArray ∧
        HeapShape (g.withSmall page cls) live s' := by
  have placed := shape.layout.descArray
  have below := placed.below inside
  simp only [refillFreeList, Call.bind_eq_ok_iff] at returned
  obtain ⟨⟨arena, taken⟩, allocated, returned⟩ := returned
  rcases pageAlloc_pagesTaken shape.layout.pool (by decide) (by decide) allocated
    with ⟨null, rfl⟩ | ⟨page, clear, vaddr, rfl⟩
  · simp only [null, if_true, Call.pure_eq_ok, Except.ok.injEq,
      Prod.mk.injEq] at returned
    exact Or.inl ⟨returned.1.symm, returned.2.symm⟩
  right
  subst vaddr
  simp only [if_neg (pageAddr_ne_zero page), Call.bind_eq_ok_iff, memset,
    Call.assert_eq_ok_iff, Call.pure_eq_ok, Except.ok.injEq, Prod.mk.injEq]
    at returned
  obtain ⟨cleared, ⟨_, _, filled⟩, split, looped, rfl, rfl⟩ := returned
  split at filled
  · cases filled
  rename_i reachable
  obtain rfl := Except.ok.inj filled
  have low : page < 257024 := by
    rw [pageAddr_eq] at reachable
    unfold selfMapBase pageSize at reachable
    omega
  have unusedRange := shape.pages.unused_of_clear clear
  have unused := unusedRange page (Nat.le_refl _) (by omega)
  have outsidePage : ∀ address, address + 8 ≤ pageAddr page →
      SameCell s.memory (headed s.memory page 1
        (descAddr s.kernelBlockDescArray cls) (classBlocks cls)) address :=
    fun address lower => headed_sameCell (Nat.le_refl 1) (Or.inl lower)
  have descKept := outsidePage (descAddr s.kernelBlockDescArray cls)
    (by rw [pageAddr_eq]; omega)
  have headKept := outsidePage
    (descFreeList (descAddr s.kernelBlockDescArray cls))
    (by rw [descFreeList_eq, ← descAddr_eq, pageAddr_eq]; omega)
  have each : descBlocksEachArena
      ((s.memory.fill (pageAddr page) 0 pageSize).storeWord (pageAddr page)
        (descAddr s.kernelBlockDescArray cls))
      (descAddr s.kernelBlockDescArray cls) = classBlocks cls := by
    rw [← shape.memory.blocksEach cls inside]
    unfold descBlocksEachArena
    rw [ByteMemory.loadWord_storeWord_of_disjoint _ _
        (by rw [pageAddr_eq]; omega),
      ByteMemory.loadWord_fill_of_disjoint _ _ (by rw [pageAddr_eq]; omega)]
  have emptyRing := (shape.memory.ring cls inside)
  rw [empty] at emptyRing
  have start := emptyRing.congr
    (fun node member => by
      obtain rfl := List.mem_singleton.mp member
      exact headKept.2)
    (fun node member => by
      obtain rfl := List.mem_singleton.mp member
      exact headKept.1)
  have many := classBlocks_lt cls
  obtain ⟨memory', looped', ring, kept⟩ :=
    splitArenaLoop_ok placed inside low (classBlocks cls) addressCount 0
      (headed s.memory page 1 (descAddr s.kernelBlockDescArray cls)
        (classBlocks cls))
      (Nat.zero_add _) (by unfold addressCount; omega)
      (headed_desc (by omega))
      (descKept.1.trans (shape.memory.blockSize cls inside))
      (descKept.2.trans (shape.memory.blocksEach cls inside)) start
  have sameLoop : splitArenaLoop (descAddr s.kernelBlockDescArray cls)
      (pageAddr page) addressCount 0
      (headed s.memory page 1 (descAddr s.kernelBlockDescArray cls)
        (classBlocks cls)) = .ok split := by
    rw [← looped]
    unfold headed
    rw [← each]
    rfl
  obtain rfl := Except.ok.inj (looped'.symm.trans sameLoop)
  have kindOutside : ∀ other, ¬ (page ≤ other ∧ other < page + 1) →
      (g.withSmall page cls).kind other = g.kind other := by
    intro other notHere
    simp only [HeapGhost.withSmall]
    rw [if_neg (by omega)]
  have kindInside : ∀ other, page ≤ other → other < page + 1 →
      (((g.withSmall page cls).kind other).IsHead ↔ other = page) := by
    intro other lower upper
    have same : other = page := by omega
    simp [HeapGhost.withSmall, same, PageKind.IsHead]
  have pages := shape.pages.taken clear kindInside kindOutside (Nat.le_refl 1)
  have shape' : HeapShape (g.withSmall page cls) live
      ((s.marked page 1).withMemory memory') :=
    ⟨(shape.layout.marked page 1).withMemory _,
      shape.blocks.smallAdded inside low unused empty,
      ⟨pages.used, pages.heads⟩,
      memory_smallAdded shape.memory shape.blocks placed inside low unused
        empty ring kept⟩
  exact ⟨rfl, page, unused, ⟨clear, rfl, rfl⟩, rfl, rfl, shape'⟩

/-! ## Counting the free blocks of an arena -/

section Counting

variable {g : HeapGhost} {live : List Region} {page cls : Nat}

private theorem filter_subset_slots (blocks : BlocksShape g live)
    (kind : g.kind page = .small cls) :
    (g.free cls).filter (fun block => decide (OnPage page block)) ⊆
      slots page cls := by
  intro block member
  obtain ⟨inFree, onPage⟩ := List.mem_filter.mp member
  obtain ⟨other, index, _, small, equal⟩ :=
    blocks.freeSlots cls (blocks.classes page cls kind) block inFree
  have same : other = page := OnPage.unique
    (equal ▸ slotAddr_onPage other small) (of_decide_eq_true onPage)
  exact mem_slots.mpr ⟨index, small, same ▸ equal⟩

theorem freeCount_le (blocks : BlocksShape g live)
    (kind : g.kind page = .small cls) (nodup : (g.free cls).Nodup) :
    g.freeCount cls page ≤ classBlocks cls := by
  have contained := List.subperm_of_subset (nodup.filter _)
    (filter_subset_slots blocks kind)
  have lengths := contained.length_le
  unfold HeapGhost.freeCount
  rw [List.countP_eq_length_filter]
  simpa [slots] using lengths

/-- The count is full when every block of the arena is free. -/
theorem freeCount_eq_iff (blocks : BlocksShape g live)
    (kind : g.kind page = .small cls) (nodup : (g.free cls).Nodup) :
    g.freeCount cls page = classBlocks cls ↔
      ∀ index, index < classBlocks cls →
        slotAddr page cls index ∈ g.free cls := by
  have contained := List.subperm_of_subset (nodup.filter _)
    (filter_subset_slots blocks kind)
  unfold HeapGhost.freeCount
  rw [List.countP_eq_length_filter]
  constructor
  · intro full index small
    have permuted := contained.perm_of_length_le (by simp [slots, full])
    have member := permuted.mem_iff.mpr (mem_slots.mpr ⟨index, small, rfl⟩)
    exact (List.mem_filter.mp member).1
  · intro allFree
    have subset : slots page cls ⊆
        (g.free cls).filter (fun block => decide (OnPage page block)) := by
      intro block member
      obtain ⟨index, small, rfl⟩ := mem_slots.mp member
      exact List.mem_filter.mpr ⟨allFree index small,
        decide_eq_true (slotAddr_onPage page small)⟩
    have permuted := contained.antisymm
      (List.subperm_of_subset (nodup_slots page cls) subset)
    simpa [slots] using permuted.length_eq

end Counting

theorem freeCount_lt {g : HeapGhost} {live : List Region} {descArray : Nat}
    {memory : ByteMemory} (shape : MemoryShape g descArray memory)
    (blocks : BlocksShape g live) {page cls : Nat}
    (kind : g.kind page = .small cls) : g.freeCount cls page < 256 := by
  have inside := blocks.classes page cls kind
  have nodup := (List.nodup_cons.mp (shape.ring cls inside).nodup).2
  exact Nat.lt_of_le_of_lt (freeCount_le blocks kind nodup) (classBlocks_lt cls)

theorem freeCount_of_perm {more less : HeapGhost} {cls page block : Nat}
    (perm : (more.free cls).Perm (block :: less.free cls))
    (onPage : OnPage page block) (other : Nat) :
    more.freeCount cls other =
      less.freeCount cls other + if other = page then 1 else 0 := by
  rw [HeapGhost.freeCount, HeapGhost.freeCount, perm.countP_eq,
    List.countP_cons]
  by_cases same : other = page
  · rw [if_pos same, if_pos (decide_eq_true (same ▸ onPage))]
  · rw [if_neg same, if_neg]
    intro onOther
    exact same (OnPage.unique (of_decide_eq_true onOther) onPage)

/-! ## The first free block -/

/-- The free list of a class is changed, and the count in the header of one of
its arenas is written. -/
theorem MemoryShape.recounted {g : HeapGhost} {live : List Region}
    {descArray cls page : Nat} {free : List Nat} {memory linked : ByteMemory}
    (shape : MemoryShape g descArray memory) (blocks : BlocksShape g live)
    (placed : DescArrayPlaced descArray) (kind : g.kind page = .small cls)
    (ring : Ring linked (descFreeList (descAddr descArray cls)) free)
    (cells : ∀ address,
      address ∈ descFreeList (descAddr descArray cls) :: free →
      IsCell descArray address ∧ address ≠ pageAddr page)
    (kept : ∀ address, IsMeta g descArray address →
      address ∉ descFreeList (descAddr descArray cls) :: g.free cls →
      SameCell memory linked address)
    (header :
      arenaDesc linked (pageAddr page) = arenaDesc memory (pageAddr page))
    (few : (g.withFree cls free).freeCount cls page < 4294967296)
    (counts : ∀ other, other ≠ page →
      (g.withFree cls free).freeCount cls other = g.freeCount cls other) :
    MemoryShape (g.withFree cls free) descArray
      (linked.storeWord (pageAddr page + 4)
        ((g.withFree cls free).freeCount cls page)) := by
  have inside := blocks.classes page cls kind
  have low : page < 257024 := blocks.below page (by simp [kind])
  have stored : ∀ address, IsCell descArray address →
      address ≠ pageAddr page →
      SameCell linked
        (linked.storeWord (pageAddr page + 4)
          ((g.withFree cls free).freeCount cls page)) address := by
    intro address cell notHere
    have apart := IsCell.apart placed cell (isCell_pageAddr low) notHere
    exact SameCell.storeWord (by omega)
  have newFree : (g.withFree cls free).free cls = free := by
    simp [HeapGhost.withFree]
  refine shape.change blocks placed inside (fun other => other = page) ?_
    (fun _ _ => rfl) ?_ ?_ ?_ ?_
  · intro other different
    simp only [HeapGhost.withFree, if_neg different]
  · rw [newFree]
    have same := fun node inRing =>
      stored node (cells node inRing).1 (cells node inRing).2
    exact ring.congr (fun node inRing => (same node inRing).2)
      (fun node inRing => (same node inRing).1)
  · intro address isMeta outside notHere
    exact (kept address isMeta outside).trans
      (stored address (blocks.isCell_of_isMeta isMeta) (notHere page rfl))
  · rintro other rfl
    have old := shape.header other
    simp only [HeaderShape, kind] at old
    simp only [HeaderShape, HeapGhost.withFree, kind]
    refine ⟨?_, ByteMemory.loadWord_storeWord_self _ _ few⟩
    unfold arenaDesc
    rw [ByteMemory.loadWord_storeWord_of_disjoint _ _ (by omega)]
    exact header.trans old.1
  · intro other notPage _
    exact counts other notPage

/-- The memory after the first block of a list is taken and cleared, and the
count of its arena is written. -/
private def poppedMemory (memory : ByteMemory)
    (head block size page cnt : Nat) :
    ByteMemory :=
  ((listPop memory head).2.fill block 0 size).storeWord (pageAddr page + 4) cnt

private theorem memory_popped {g : HeapGhost} {live : List Region}
    {descArray cls page index block : Nat} {rest : List Nat}
    {memory : ByteMemory} (shape : MemoryShape g descArray memory)
    (blocks : BlocksShape g live) (placed : DescArrayPlaced descArray)
    (inside : cls < memDescCnt) (free : g.free cls = block :: rest)
    (kind : g.kind page = .small cls) (small : index < classBlocks cls)
    (start : block = slotAddr page cls index) :
    MemoryShape (g.withFree cls rest) descArray
      (poppedMemory memory (descFreeList (descAddr descArray cls)) block
        (classSize cls) page ((g.withFree cls rest).freeCount cls page)) ∧
      descBlockSize (listPop memory (descFreeList (descAddr descArray cls))).2
        (descAddr descArray cls) = classSize cls ∧
      arenaCnt ((listPop memory (descFreeList (descAddr descArray cls))).2.fill
        block 0 (classSize cls)) (pageAddr page) =
          (g.withFree cls rest).freeCount cls page + 1 := by
  have laws := cells_lawful placed
  have valued := cells_valued placed
  have low : page < 257024 := blocks.below page (by simp [kind])
  have member : block ∈ g.free cls := by simp [free]
  have ring := shape.ring cls inside
  rw [free] at ring
  have isCell : ∀ address,
      address ∈ descFreeList (descAddr descArray cls) :: block :: rest →
      IsCell descArray address := by
    rw [← free]
    exact blocks.isCell_ring inside
  have notHeader : ∀ address,
      address ∈ descFreeList (descAddr descArray cls) :: block :: rest →
      address ≠ pageAddr page := by
    intro address inRing
    rw [← free] at inRing
    exact blocks.ring_ne_pageAddr placed inside inRing page
  have inOld : ∀ address,
      address ∈ descFreeList (descAddr descArray cls) :: rest →
      address ∈ descFreeList (descAddr descArray cls) :: block :: rest := by
    intro address inRing
    simp only [List.mem_cons] at inRing ⊢
    tauto
  have onPage : OnPage page block := start ▸ slotAddr_onPage page small
  have nodup := (List.nodup_cons.mp (List.nodup_cons.mp ring.nodup).2).1
  have below := placed.below inside
  obtain ⟨_, popped⟩ := listPop_ring laws valued ring isCell
  have frame : ∀ address, IsCell descArray address →
      address ∉ descFreeList (descAddr descArray cls) :: block :: rest →
      SameCell memory (listPop memory (descFreeList (descAddr descArray cls))).2
        address := by
    intro address cell outside
    have kept := listPop_frame laws valued ring isCell cell outside
    exact ⟨kept.2, kept.1⟩
  have cleared : ∀ address, IsMeta g descArray address → address ≠ block →
      SameCell (listPop memory (descFreeList (descAddr descArray cls))).2
        ((listPop memory (descFreeList (descAddr descArray cls))).2.fill block 0
          (classSize cls)) address := by
    intro address isMeta notBlock
    exact SameCell.fill (blocks.meta_apart_unit placed
      (blocks.unit_of_free inside member) isMeta notBlock)
  have ringKept : ∀ address,
      address ∈ descFreeList (descAddr descArray cls) :: rest →
      SameCell (listPop memory (descFreeList (descAddr descArray cls))).2
        ((listPop memory (descFreeList (descAddr descArray cls))).2.fill block 0
          (classSize cls)) address := by
    intro address inRing
    apply cleared address
    · rcases List.mem_cons.mp inRing with rfl | inRest
      · exact isMeta_descFreeList g descArray inside
      · exact isMeta_free inside (free ▸ List.mem_cons_of_mem _ inRest)
          descArray
    · rintro rfl
      rcases List.mem_cons.mp inRing with equal | inRest
      · have above := blocks.free_ge inside member
        rw [descFreeList_eq, ← descAddr_eq] at equal
        omega
      · exact nodup inRest
  have newFree : (g.withFree cls rest).free cls = rest := by
    simp [HeapGhost.withFree]
  have counted := fun other =>
    @freeCount_of_perm g (g.withFree cls rest) cls page block
      (by rw [newFree, free]) onPage other
  have here := counted page
  rw [if_pos rfl] at here
  have few := freeCount_lt shape blocks kind
  have head : (g.kind page).IsHead := by
    rw [kind]
    trivial
  have unit := blocks.unit_apart_header (blocks.unit_of_free inside member) head
  have filled : SameCell memory
      ((listPop memory (descFreeList (descAddr descArray cls))).2.fill block 0
        (classSize cls)) (pageAddr page) :=
    (frame _ (isCell_pageAddr low) fun inRing => notHeader _ inRing rfl).trans
      (SameCell.fill (by omega))
  have descKept := frame _ (isCell_descAddr inside) (by
    intro inRing
    rcases List.mem_cons.mp inRing with equal | inFree
    · rw [descFreeList_eq, descAddr_eq] at equal
      omega
    · have above := blocks.free_ge inside (free ▸ inFree)
      omega)
  have header := shape.header page
  simp only [HeaderShape, kind] at header
  refine ⟨?_, descKept.1.trans (shape.blockSize cls inside),
    (filled.2.trans header.2).trans here⟩
  apply shape.recounted blocks placed kind
  · exact popped.congr (fun node inRing => (ringKept node inRing).2)
      (fun node inRing => (ringKept node inRing).1)
  · intro address inRing
    exact ⟨isCell address (inOld address inRing),
      notHeader address (inOld address inRing)⟩
  · intro address isMeta outside
    rw [free] at outside
    refine (frame address (blocks.isCell_of_isMeta isMeta) outside).trans
      (cleared address isMeta ?_)
    rintro rfl
    exact outside (by simp)
  · exact filled.1
  · omega
  · intro other notPage
    rw [counted other, if_neg notPage, Nat.add_zero]

private theorem popBlock_ok {g : HeapGhost} {live : List Region}
    {s s' : MmState}
    {cls block size ptr : Nat} {rest : List Nat} (shape : HeapShape g live s)
    (isClass : IsClassOf cls size) (positive : 0 < size)
    (free : g.free cls = block :: rest)
    (returned : popBlock s (descAddr s.kernelBlockDescArray cls) =
      .ok (ptr, s')) :
    ptr = block ∧
      SameBitmaps s s' ∧ s'.kernelPool.lock = s.kernelPool.lock ∧
      HeapShape (g.withFree cls rest) (⟨block, size⟩ :: live) s' ∧
      ∀ address, block ≤ address → address < block + size →
        s'.memory.byte address = 0 := by
  have inside := isClass.1
  have placed := shape.layout.descArray
  have blocks := shape.blocks
  have member : block ∈ g.free cls := by simp [free]
  obtain ⟨page, index, kind, small, start⟩ :=
    blocks.freeSlots cls inside block member
  have low : page < 257024 := blocks.below page (by simp [kind])
  have onPage : OnPage page block := start ▸ slotAddr_onPage page small
  have ring := shape.memory.ring cls inside
  rw [free] at ring
  have nodup := (List.nodup_cons.mp ring.nodup).2
  obtain ⟨memory', blockSize, cnt⟩ := memory_popped shape.memory blocks placed
    inside free kind small start
  simp only [popBlock, memset, Call.bind_eq_ok_iff, Call.assert_eq_ok_iff,
    Call.pure_eq_ok, Except.ok.injEq, Prod.mk.injEq] at returned
  obtain ⟨cleared, ⟨_, _, filled⟩, rfl, rfl⟩ := returned
  have first : (listPop s.memory
      (descFreeList (descAddr s.kernelBlockDescArray cls))).1 = block :=
    ring.next_head_cons
  rw [first, blockSize] at filled
  split at filled
  · cases filled
  obtain rfl := Except.ok.inj filled
  have arena : block2Arena block = pageAddr page :=
    block2Arena_of_onPage (by omega) onPage
  have bound := ByteMemory.loadWord_lt
    ((listPop s.memory
      (descFreeList (descAddr s.kernelBlockDescArray cls))).2.fill block 0
        (classSize cls)) (pageAddr page + 4)
  have left : sub32 ((g.withFree cls rest).freeCount cls page + 1) 1 =
      (g.withFree cls rest).freeCount cls page := by
    rw [← cnt]
    unfold arenaCnt
    rw [sub32_of_le (by unfold arenaCnt at cnt; omega) bound]
    unfold arenaCnt at cnt
    omega
  have head : (g.kind page).IsHead := by
    rw [kind]
    trivial
  have unit := blocks.unit_apart_header (blocks.unit_of_free inside member) head
  have fits := isClass.2.1
  rw [first, arena, show (BitVec.ofNat 8 0) = 0 from rfl, cnt, left]
  refine ⟨rfl, ⟨rfl, rfl⟩, rfl, ⟨shape.layout.withMemory _,
    blocks.popped isClass positive free nodup, ⟨shape.pages.used,
    shape.pages.heads⟩, memory'⟩, ?_⟩
  intro address lower upper
  rw [ByteMemory.byte_storeWord_of_outside _ _ (by omega),
    ByteMemory.byte_fill, if_pos (by omega)]

/-! ## The branches put together -/

/-- What a call of `sys_malloc` that returns a region has done. -/
structure Granted (live : List Region) (s : MmState) (size ptr : Nat)
    (s' : MmState) : Prop where
  heap : ∃ g, HeapShape g (⟨ptr, size⟩ :: live) s' ∧ Busy g
  lock : s'.kernelPool.lock = s.kernelPool.lock
  nonNull : ptr ≠ 0
  zero : ∀ address, ptr ≤ address → address < ptr + size →
    s'.memory.byte address = 0
  bitmaps : (size ≤ 1024 ∧ SameBitmaps s s') ∨
    ∃ page, PagesMarked s s' page (requestPages size) ∧
      (1024 < size →
        bitmapApply s.kernelVmPool.vmBitmap (requestPages size) ≠ .ok (-1))

theorem findDescLoop_isClassOf {memory : ByteMemory} {descArray size : Nat}
    (sizes : ∀ cls, cls < memDescCnt →
      descBlockSize memory (descAddr descArray cls) = classSize cls)
    (small : size ≤ 1024) :
    ∀ rounds descIdx, descIdx + rounds = memDescCnt →
      (∀ smaller, smaller < descIdx → classSize smaller < size) →
      IsClassOf (findDescLoop memory descArray size rounds descIdx) size
  | 0, descIdx, all, passed => by
      have last := passed 6 (by unfold memDescCnt at all; omega)
      have largest : classSize 6 = 1024 := by decide
      omega
  | rounds + 1, descIdx, all, passed => by
      have inside : descIdx < memDescCnt := by omega
      rw [findDescLoop, sizes descIdx inside]
      by_cases fits : size ≤ classSize descIdx
      · rw [if_pos fits]
        exact ⟨inside, fits, passed⟩
      · rw [if_neg fits]
        apply findDescLoop_isClassOf sizes small rounds (descIdx + 1) (by omega)
        intro smaller less
        by_cases same : smaller = descIdx
        · rw [same]
          omega
        · exact passed smaller (by omega)

private theorem Busy.popped {g : HeapGhost} {live : List Region}
    {cls block : Nat}
    {rest : List Nat} (blocks : BlocksShape g live) (inside : cls < memDescCnt)
    (free : g.free cls = block :: rest) (nodup : (block :: rest).Nodup)
    (others : ∀ page other, g.kind page = .small other →
      ¬ OnPage page block → ∃ index, index < classBlocks other ∧
        slotAddr page other index ∉ g.free other) :
    Busy (g.withFree cls rest) := by
  intro page other kind
  have free_subset : ∀ address, address ∈ (g.withFree cls rest).free other →
      address ∈ g.free other := by
    intro address member
    simp only [HeapGhost.withFree] at member
    split at member
    · rename_i same
      rw [same, free]
      exact List.mem_cons_of_mem _ member
    · exact member
  by_cases here : OnPage page block
  · obtain ⟨page', index, kind', small, start⟩ :=
      blocks.freeSlots cls inside block (by simp [free])
    have samePage : page' = page :=
      OnPage.unique (start ▸ slotAddr_onPage page' small) here
    subst samePage
    obtain rfl := PageKind.small.inj (kind.symm.trans kind')
    refine ⟨index, small, ?_⟩
    simp only [HeapGhost.withFree, if_true]
    rw [← start]
    exact (List.nodup_cons.mp nodup).1
  · obtain ⟨index, small, taken⟩ := others page other kind here
    exact ⟨index, small, fun member => taken (free_subset _ member)⟩

private theorem Busy.largeAdded {g : HeapGhost} (busy : Busy g)
    (page count : Nat) :
    Busy (g.withLarge page count) := by
  intro other cls kind
  simp only [HeapGhost.withLarge] at kind
  split at kind
  · cases kind
  · split at kind
    · cases kind
    · exact busy other cls kind

private theorem mallocBlock_ok {g : HeapGhost} {live : List Region}
    {s s' : MmState}
    {size ptr : Nat} (shape : HeapShape g live s) (busy : Busy g)
    (positive : 0 < size) (small : size ≤ 1024)
    (returned : mallocBlock s .pfKernel s.kernelBlockDescArray size =
      .ok (ptr, s')) :
    (ptr = 0 ∧ s' = s) ∨ Granted live s size ptr s' := by
  have isClass := findDescLoop_isClassOf shape.memory.blockSize small memDescCnt
    0 (by omega) (fun _ less => absurd less (Nat.not_lt_zero _))
  simp only [mallocBlock, Call.bind_eq_ok_iff] at returned
  generalize findDescLoop s.memory s.kernelBlockDescArray size memDescCnt 0 = cls
    at isClass returned
  have inside := isClass.1
  have onePage : requestPages size = 1 := by
    unfold requestPages
    omega
  have ring := shape.memory.ring cls inside
  have nodup := (List.nodup_cons.mp ring.nodup).2
  have short := length_lt_addressCount shape.layout.descArray nodup
    (fun address member =>
      shape.blocks.isCell_of_isMeta (isMeta_free inside member _))
  rw [listEmpty_ring ring short] at returned
  obtain ⟨empty, emptyEq, ⟨room, taken⟩, refilled, returned⟩ := returned
  obtain rfl := Except.ok.inj emptyEq
  cases free : g.free cls with
  | cons block rest =>
      simp only [free, List.isEmpty_cons, Bool.false_eq_true, if_false,
        Except.ok.injEq, Prod.mk.injEq] at refilled
      obtain ⟨rfl, rfl⟩ := refilled
      simp only [if_true] at returned
      obtain ⟨rfl, bitmaps, lock, shape', zero⟩ :=
        popBlock_ok shape isClass positive free returned
      rw [free] at nodup
      have above := shape.blocks.free_ge inside (free ▸ List.mem_cons_self)
      exact Or.inr
        { heap := ⟨_, shape', Busy.popped shape.blocks inside free nodup
            fun page other kind _ => busy page other kind⟩
          lock := lock
          nonNull := by omega
          zero := zero
          bitmaps := Or.inl ⟨small, bitmaps⟩ }
  | nil =>
      simp only [free, List.isEmpty_nil, if_true] at refilled
      rcases refillFreeList_ok shape inside free refilled with
        ⟨rfl, rfl⟩ | ⟨rfl, page, unused, marked, lock, descArray, shape'⟩
      · simp only [Bool.false_eq_true, if_false, Call.pure_eq_ok,
          Except.ok.injEq, Prod.mk.injEq] at returned
        exact Or.inl ⟨returned.1.symm, returned.2.symm⟩
      · simp only [if_true] at returned
        rw [← descArray] at returned
        obtain ⟨block, rest, split⟩ :
            ∃ block rest, slots page cls = block :: rest := by
          have many := classBlocks_pos inside
          cases list : slots page cls with
          | nil =>
              have counted := congrArg List.length list
              simp only [slots, List.length_map, List.length_range,
                List.length_nil] at counted
              omega
          | cons block rest =>
              exact ⟨block, rest, rfl⟩
        have newFree : (g.withSmall page cls).free cls = block :: rest := by
          simp only [HeapGhost.withSmall, if_true]
          exact split
        have newNodup : (block :: rest).Nodup := split ▸ nodup_slots page cls
        have onPage : OnPage page block :=
          onPage_of_mem_slots (split ▸ List.mem_cons_self)
        obtain ⟨rfl, bitmaps, lock', shape'', zero⟩ :=
          popBlock_ok shape' isClass positive newFree returned
        have above := shape'.blocks.free_ge inside
          (newFree ▸ List.mem_cons_self)
        have others : ∀ page' other,
            (g.withSmall page cls).kind page' = .small other →
            ¬ OnPage page' ptr →
            ∃ index, index < classBlocks other ∧
              slotAddr page' other index ∉ (g.withSmall page cls).free other := by
          intro page' other kind notHere
          have different : page' ≠ page := by
            rintro rfl
            exact notHere onPage
          simp only [HeapGhost.withSmall, if_neg different] at kind
          obtain ⟨index, inArena, taken'⟩ := busy page' other kind
          refine ⟨index, inArena, ?_⟩
          simp only [HeapGhost.withSmall]
          split
          · rename_i same
            subst same
            intro member
            exact different (OnPage.unique (slotAddr_onPage page' inArena)
              (onPage_of_mem_slots member))
          · exact taken'
        refine Or.inr
          { heap := ⟨_, shape'', Busy.popped shape'.blocks inside newFree
              newNodup others⟩
            lock := lock'.trans lock
            nonNull := by omega
            zero := zero
            bitmaps := Or.inr ⟨page, ?_, fun large => absurd large (by omega)⟩ }
        rw [onePage]
        exact ⟨marked.1, bitmaps.1.trans marked.2.1, bitmaps.2.trans marked.2.2⟩

/-! ## The whole function -/

theorem HeapShape.withLock {g : HeapGhost} {live : List Region} {s : MmState}
    (shape : HeapShape g live s) (lock : Lock (List Nat)) :
    HeapShape g live (s.withLock lock) :=
  ⟨shape.layout.withLock lock, shape.blocks,
    ⟨shape.pages.used, shape.pages.heads⟩, shape.memory⟩

def heldBy (pcb : Nat) : Lock (List Nat) :=
  ⟨pcb, ⟨0, []⟩, 1⟩

theorem acquirePool_eq {s : MmState} (task : s.curTask.pcb ≠ 0)
    (unlocked : s.kernelPool.lock = lockInit) :
    acquirePool s .pfKernel = .ok (s.withLock (heldBy s.curTask.pcb)) := by
  have acquired : lockAcquireAlone (s.pool .pfKernel).lock s.curTask.pcb =
      .ok (heldBy s.curTask.pcb) := by
    show lockAcquireAlone s.kernelPool.lock s.curTask.pcb = _
    rw [unlocked]
    exact lockAcquireAlone_lockInit task
  unfold acquirePool
  rw [acquired]
  rfl

theorem releasePool_held {s : MmState}
    (held : s.kernelPool.lock = heldBy s.curTask.pcb) :
    releasePool s .pfKernel = .ok (s.withLock lockInit) := by
  have released : lockReleaseAlone (s.pool .pfKernel).lock s.curTask.pcb =
      .ok lockInit := by
    show lockReleaseAlone s.kernelPool.lock s.curTask.pcb = _
    rw [held]
    exact lockReleaseAlone_taken
  unfold releasePool
  rw [released]
  rfl

private theorem releasePool_eq {s s' : MmState} {pcb : Nat}
    (held : s.kernelPool.lock = heldBy pcb)
    (released : releasePool s .pfKernel = .ok s') :
    s' = s.withLock lockInit := by
  simp only [releasePool, Call.bind_eq_ok_iff, Call.pure_eq_ok,
    Except.ok.injEq] at released
  obtain ⟨lock, released, rfl⟩ := released
  have holder : (s.pool .pfKernel).lock = heldBy pcb := held
  rw [holder] at released
  have same : pcb = s.curTask.pcb := by
    simp only [lockReleaseAlone, lockRelease, Call.bind_eq_ok_iff,
      Call.assert_eq_ok_iff] at released
    obtain ⟨_, ⟨_, holds, _⟩, _⟩ := released
    exact holds
  rw [same, heldBy, lockReleaseAlone_taken, Except.ok.injEq] at released
  rw [← released]
  rfl

/-- `sys_malloc` returns `NULL` and changes nothing, or grants a region. -/
theorem sysMalloc_ok {g : HeapGhost} {live : List Region} {s s' : MmState}
    {size ptr : Nat} (ok : HeapOk g live s)
    (returned : sysMalloc s size = .ok (ptr, s')) :
    (ptr = 0 ∧ s' = s ∧ (1024 < size →
        s.kernelPool.poolSize < size ∨
          bitmapApply s.kernelVmPool.vmBitmap (requestPages size) =
            .ok (-1))) ∨
      0 < size ∧ size ≤ s.kernelPool.poolSize ∧
        Granted live s size ptr s' := by
  have layout := ok.shape.layout
  have kernel : s.curTask.poolFlags = .pfKernel := by
    simp [MmTask.poolFlags, layout.kernelThread]
  have shape := ok.shape.withLock (heldBy s.curTask.pcb)
  simp only [sysMalloc, kernel, layout.kernelThread, if_true] at returned
  by_cases refused : size > s.kernelPool.poolSize ∨ size = 0
  · have refused' : size > (s.pool .pfKernel).poolSize ∨ size = 0 := refused
    simp only [refused', if_true, Call.pure_eq_ok, Except.ok.injEq,
      Prod.mk.injEq] at returned
    exact Or.inl ⟨returned.1.symm, returned.2.symm, fun large =>
      Or.inl (by omega)⟩
  have accepted : ¬ (size > (s.pool .pfKernel).poolSize ∨ size = 0) := refused
  simp only [accepted, if_false, acquirePool_eq layout.task ok.unlocked,
    Call.ok_bind, Call.bind_eq_ok_iff, Call.pure_eq_ok, Except.ok.injEq,
    Prod.mk.injEq] at returned
  obtain ⟨⟨ptr', taken⟩, called, s'', released, rfl, rfl⟩ := returned
  have unchanged : (s.withLock (heldBy s.curTask.pcb)).withLock lockInit = s := by
    rw [← ok.unlocked]
    rfl
  by_cases large : size > 1024
  · rw [if_pos large] at called
    rcases mallocPages_ok shape large (by
        show size ≤ s.kernelPool.poolSize
        omega) called with
      ⟨null, rfl, failed⟩ |
      ⟨page, marked, found, lock, shape', nonNull, zero⟩
    · obtain rfl := releasePool_eq rfl released
      exact Or.inl ⟨null, unchanged, fun _ => Or.inr failed⟩
    · obtain rfl := releasePool_eq lock released
      refine Or.inr ⟨by omega, by omega, ?_⟩
      exact
        { heap := ⟨_, shape'.withLock lockInit, ok.busy.largeAdded _ _⟩
          lock := ok.unlocked.symm
          nonNull := nonNull
          zero := zero
          bitmaps := Or.inr ⟨page, marked, fun _ => found⟩ }
  · rw [if_neg large] at called
    rcases mallocBlock_ok shape ok.busy (by omega) (by omega) called with
      ⟨null, rfl⟩ | granted
    · obtain rfl := releasePool_eq rfl released
      exact Or.inl ⟨null, unchanged, fun large' => absurd large' large⟩
    · obtain rfl := releasePool_eq granted.lock released
      obtain ⟨g', shape', busy'⟩ := granted.heap
      refine Or.inr ⟨by omega, by omega, ?_⟩
      exact
        { heap := ⟨g', shape'.withLock lockInit, busy'⟩
          lock := ok.unlocked.symm
          nonNull := granted.nonNull
          zero := granted.zero
          bitmaps := granted.bitmaps }

end Simos
