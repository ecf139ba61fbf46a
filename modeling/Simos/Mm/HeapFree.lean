import Simos.Mm.HeapMalloc

/-!
# What `sys_free` does to the heap

A block goes back to its free list; when that makes all blocks of the arena
free, the arena is taken apart.  A large arena is given back at once.
-/

namespace Simos

open Simos.Library LinkHeap

/-! ## A block goes back to its list -/

/-- The memory after a block is put on its list and the count of its arena is
written. -/
private def pushedMemory (memory : ByteMemory) (head block page cnt : Nat) :
    ByteMemory :=
  (listAddPrev memory head block).storeWord (pageAddr page + 4) cnt

private theorem memory_pushed {g : HeapGhost} {live : List Region}
    {descArray page cls index : Nat} {region : Region} {memory : ByteMemory}
    (shape : MemoryShape g descArray memory) (blocks : BlocksShape g live)
    (placed : DescArrayPlaced descArray) (member : region ∈ live)
    (site : SmallAt g region page cls index) :
    MemoryShape (g.withFree cls (g.free cls ++ [region.start])) descArray
      (pushedMemory memory (descFreeList (descAddr descArray cls)) region.start
        page ((g.withFree cls (g.free cls ++ [region.start])).freeCount cls
          page)) ∧
      arenaCnt (listAddPrev memory (descFreeList (descAddr descArray cls))
        region.start) (pageAddr page) + 1 =
          (g.withFree cls (g.free cls ++ [region.start])).freeCount cls page := by
  have inside := site.class_of.1
  have laws := cells_lawful placed
  have valued := cells_valued placed
  have low : page < 257024 := blocks.below page (by simp [site.kind])
  have below := placed.below inside
  have ring := shape.ring cls inside
  have above : 0xc1000000 + 8 ≤ region.start := by
    rw [site.start, slotAddr_eq]
    omega
  have isCell : ∀ address,
      address ∈ descFreeList (descAddr descArray cls) :: g.free cls →
      IsCell descArray address := blocks.isCell_ring inside
  have newCell : IsCell descArray region.start := by
    rw [site.start]
    exact isCell_slotAddr low site.inside
  have fresh : region.start ∉
      descFreeList (descAddr descArray cls) :: g.free cls := by
    intro inRing
    rcases List.mem_cons.mp inRing with equal | inFree
    · rw [descFreeList_eq, ← descAddr_eq] at equal
      omega
    · exact site.taken inFree
  have linked := listAddPrev_ring laws valued ring isCell newCell fresh
  have frame : ∀ address, IsCell descArray address →
      address ∉ descFreeList (descAddr descArray cls) :: g.free cls →
      address ≠ region.start →
      SameCell memory (listAddPrev memory
        (descFreeList (descAddr descArray cls)) region.start) address := by
    intro address cell outside different
    have kept := listAddPrev_frame laws valued ring isCell newCell fresh cell
      outside different
    exact ⟨kept.2, kept.1⟩
  -- the new ring is the old one with the block behind it
  have inOld : ∀ address,
      address ∈ descFreeList (descAddr descArray cls) ::
        (g.free cls ++ [region.start]) →
      address ∈ descFreeList (descAddr descArray cls) :: g.free cls ∨
        address = region.start := by
    intro address inRing
    simpa only [← List.cons_append, List.mem_append, List.mem_singleton]
      using inRing
  have newFree : (g.withFree cls (g.free cls ++ [region.start])).free cls =
      g.free cls ++ [region.start] := by
    simp [HeapGhost.withFree]
  have counted := fun other =>
    @freeCount_of_perm (g.withFree cls (g.free cls ++ [region.start])) g cls
      page region.start
      (by
        rw [newFree]
        exact List.perm_append_singleton region.start (g.free cls))
      site.onPage other
  have here := counted page
  rw [if_pos rfl] at here
  have few := freeCount_lt shape blocks site.kind
  have header := shape.header page
  simp only [HeaderShape, site.kind] at header
  have headerKept := frame _ (isCell_pageAddr low)
    (fun inRing => blocks.ring_ne_pageAddr placed inside inRing page rfl)
    (by
      rw [site.start]
      exact (slotAddr_ne_pageAddr site.inside).symm)
  have cntKept : arenaCnt (listAddPrev memory
      (descFreeList (descAddr descArray cls)) region.start) (pageAddr page) =
        g.freeCount cls page :=
    headerKept.2.trans header.2
  refine ⟨?_, by rw [cntKept, here]⟩
  apply shape.recounted blocks placed site.kind linked
  · intro address inRing
    rcases inOld address inRing with old | rfl
    · exact ⟨isCell address old,
        blocks.ring_ne_pageAddr placed inside old page⟩
    · refine ⟨newCell, ?_⟩
      rw [site.start]
      exact slotAddr_ne_pageAddr site.inside
  · intro address isMeta notRing
    apply frame address (blocks.isCell_of_isMeta isMeta) notRing
    rintro rfl
    obtain ⟨length, unit, _, notFree⟩ := blocks.unit_of_region member
    exact blocks.not_isMeta_of_unit placed unit notFree isMeta
  · exact headerKept.1
  · omega
  · intro other notPage
    rw [counted other, if_neg notPage, Nat.add_zero]

/-! ## An arena is taken apart -/

private theorem memory_reclaimed {g : HeapGhost} {live : List Region}
    {descArray page cls : Nat} {memory memory' : ByteMemory} {left : List Nat}
    (shape : MemoryShape g descArray memory) (blocks : BlocksShape g live)
    (placed : DescArrayPlaced descArray) (kind : g.kind page = .small cls)
    (ring : Ring memory' (descFreeList (descAddr descArray cls)) left)
    (left_iff : ∀ block, block ∈ left ↔
      block ∈ g.free cls ∧ block ∉ slots page cls)
    (kept : ∀ address, IsCell descArray address →
      address ≠ descFreeList (descAddr descArray cls) →
      address ∉ g.free cls → SameCell memory memory' address) :
    MemoryShape ((g.withFree cls left).withoutPages page 1) descArray
      memory' := by
  have inside := blocks.classes page cls kind
  have newFree : ((g.withFree cls left).withoutPages page 1).free cls =
      left := by
    simp [HeapGhost.withoutPages, HeapGhost.withFree]
  have nodup := (List.nodup_cons.mp (shape.ring cls inside).nodup).2
  have leftNodup := (List.nodup_cons.mp ring.nodup).2
  refine shape.change blocks placed inside (fun other => other = page) ?_ ?_ ?_
    ?_ ?_ ?_
  · intro other different
    simp only [HeapGhost.withoutPages, HeapGhost.withFree, if_neg different]
  · intro other notPage
    simp only [HeapGhost.withoutPages, HeapGhost.withFree]
    rw [if_neg (by omega)]
  · rw [newFree]
    exact ring
  · intro address isMeta notRing _
    rw [List.mem_cons, not_or] at notRing
    exact kept address (blocks.isCell_of_isMeta isMeta) notRing.1 notRing.2
  · rintro other rfl
    simp only [HeaderShape, HeapGhost.withoutPages]
    rw [if_pos (by omega)]
    trivial
  · intro other notPage _
    unfold HeapGhost.freeCount
    rw [newFree, List.countP_eq_length_filter, List.countP_eq_length_filter]
    apply List.Perm.length_eq
    rw [List.perm_ext_iff_of_nodup (leftNodup.filter _) (nodup.filter _)]
    intro block
    rw [List.mem_filter, List.mem_filter, left_iff]
    constructor
    · rintro ⟨⟨inFree, _⟩, onPage⟩
      exact ⟨inFree, onPage⟩
    · rintro ⟨inFree, onPage⟩
      refine ⟨⟨inFree, fun slot => ?_⟩, onPage⟩
      exact notPage (OnPage.unique (of_decide_eq_true onPage)
        (onPage_of_mem_slots slot))

/-- What a call of `sys_free` has done to the bitmaps: nothing, or the pages
of one arena are given back. -/
def PagesReturned (s s' : MmState) (page count : Nat) : Prop :=
  1 ≤ count ∧
    s'.kernelVmPool.vmBitmap = s.kernelVmPool.vmBitmap.write page false ∧
    s'.kernelPool.poolBitmap =
      s.kernelPool.poolBitmap.writeRange page count false

/-- The heap after a region was given back, with the effect on the bitmaps. -/
structure Freed (g : HeapGhost) (live : List Region) (s s' : MmState)
    (g' : HeapGhost) : Prop where
  shape : HeapShape g' live s'
  busy : Busy g'
  lock : s'.kernelPool.lock = s.kernelPool.lock
  bitmaps : (SameBitmaps s s' ∧ g'.kind = g.kind) ∨
    ∃ page count, (g.kind page).IsHead ∧ PagesReturned s s' page count ∧
      (∀ later, page < later → later < page + count →
        g.kind later = .body) ∧
      ∀ other, ¬ (page ≤ other ∧ other < page + count) →
        g'.kind other = g.kind other

private theorem reclaim_ok {g : HeapGhost} {live : List Region}
    {s : MmState} {page cls offset : Nat}
    (shape : HeapShape g live s) (kind : g.kind page = .small cls)
    (full : g.freeCount cls page = classBlocks cls)
    (othersBusy : ∀ other other', g.kind other = .small other' →
      other ≠ page → ∃ index, index < classBlocks other' ∧
        slotAddr other other' index ∉ g.free other')
    (inPage : offset < pageSize) :
    ∃ memory s' left,
      reclaimLoop (pageAddr page) addressCount 0 s.memory = .ok memory ∧
        pageFree (s.withMemory memory) .pfKernel (pageAddr page + offset) 1 =
          .ok s' ∧
        s'.curTask = s.curTask ∧
        Freed g live s s' ((g.withFree cls left).withoutPages page 1) := by
  have placed := shape.layout.descArray
  have blocks := shape.blocks
  have inside := blocks.classes page cls kind
  have low : page < 257024 := blocks.below page (by simp [kind])
  have ring := shape.memory.ring cls inside
  have nodup := (List.nodup_cons.mp ring.nodup).2
  have allFree := (freeCount_eq_iff blocks kind nodup).mp full
  have header := shape.memory.header page
  simp only [HeaderShape, kind] at header
  have many := classBlocks_lt cls
  obtain ⟨memory', left, looped, ring', left_iff, kept⟩ :=
    reclaimLoop_ok placed inside low (classBlocks cls) addressCount 0 s.memory
      (g.free cls) (Nat.zero_add _) (by unfold addressCount; omega) header.1
      (shape.memory.blockSize cls inside) (header.2.trans full) ring
      (fun address member =>
        ⟨blocks.isCell_of_isMeta (isMeta_free inside member _),
          blocks.free_ge inside member,
          blocks.free_ne_pageAddr inside member page⟩)
      (fun later _ small => allFree later small)
  have left_slots : ∀ block, block ∈ left ↔
      block ∈ g.free cls ∧ block ∉ slots page cls := by
    intro block
    rw [left_iff]
    constructor
    · rintro ⟨inFree, notSlot⟩
      refine ⟨inFree, fun slot => ?_⟩
      obtain ⟨index, small, equal⟩ := mem_slots.mp slot
      exact notSlot index (Nat.zero_le _) small equal
    · rintro ⟨inFree, notSlot⟩
      exact ⟨inFree, fun index _ small equal =>
        notSlot (mem_slots.mpr ⟨index, small, equal⟩)⟩
  have room : page + 1 ≤ s.kernelPages :=
    (shape.pages.used page (by simp [kind])).1
  have layout' := shape.layout.withMemory memory'
  have returned := pageFree_kernel layout'.pool (Nat.le_refl 1) inPage room
  have kindInside : ∀ other, page ≤ other → other < page + 1 →
      ((g.withFree cls left).withoutPages page 1).kind other = .unused := by
    intro other lower upper
    simp only [HeapGhost.withoutPages]
    rw [if_pos ⟨lower, upper⟩]
  have kindOutside : ∀ other, ¬ (page ≤ other ∧ other < page + 1) →
      ((g.withFree cls left).withoutPages page 1).kind other =
        g.kind other := by
    intro other notHere
    simp only [HeapGhost.withoutPages, HeapGhost.withFree, if_neg notHere]
  have pages := shape.pages.freed (Nat.le_refl 1) kindInside kindOutside
  refine ⟨memory', _, left, looped, returned, rfl,
    ⟨(shape.layout.unmarked page 1).withMemory memory',
    blocks.reclaimed kind allFree left_slots, ⟨pages.used, pages.heads⟩,
    memory_reclaimed shape.memory blocks placed kind ring' left_slots kept⟩,
    ?_, rfl, ?_⟩
  · intro other other' kind'
    have notPage : other ≠ page := by
      rintro rfl
      rw [kindInside other (Nat.le_refl _) (by omega)] at kind'
      cases kind'
    rw [kindOutside other (by omega)] at kind'
    obtain ⟨index, small, taken⟩ := othersBusy other other' kind' notPage
    refine ⟨index, small, fun member => taken ?_⟩
    simp only [HeapGhost.withoutPages, HeapGhost.withFree] at member
    split at member
    · rename_i same
      rw [same]
      exact ((left_slots _).mp (same ▸ member)).1
    · exact member
  · refine Or.inr ⟨page, 1, by rw [kind]; trivial,
      ⟨Nat.le_refl 1, rfl, rfl⟩, fun later lower upper => by omega,
      kindOutside⟩

/-! ## The whole function -/

private theorem busy_pushed {g : HeapGhost} {region : Region}
    {page cls index : Nat} (busy : Busy g)
    (site : SmallAt g region page cls index) {other cls' : Nat}
    (kind : g.kind other = .small cls') (notPage : other ≠ page) :
    ∃ index, index < classBlocks cls' ∧ slotAddr other cls' index ∉
      (g.withFree cls (g.free cls ++ [region.start])).free cls' := by
  obtain ⟨index', small, taken⟩ := busy other cls' kind
  refine ⟨index', small, fun member => ?_⟩
  simp only [HeapGhost.withFree] at member
  split at member
  · rename_i same
    subst same
    rcases List.mem_append.mp member with old | new
    · exact taken old
    · have onPage := site.onPage
      rw [← List.mem_singleton.mp new] at onPage
      exact notPage (OnPage.unique (slotAddr_onPage other small) onPage)
  · exact taken member

private theorem freeBlock_ok {g : HeapGhost} {live : List Region}
    {s : MmState} {region : Region} {page cls index : Nat}
    (shape : HeapShape g live s) (busy : Busy g) (member : region ∈ live)
    (site : SmallAt g region page cls index) :
    ∃ s' g', freeBlock s .pfKernel region.start (pageAddr page) = .ok s' ∧
      s'.curTask = s.curTask ∧ Freed g (live.erase region) s s' g' := by
  have placed := shape.layout.descArray
  have inside := site.class_of.1
  have header := shape.memory.header page
  simp only [HeaderShape, site.kind] at header
  obtain ⟨memory, counted⟩ :=
    memory_pushed shape.memory shape.blocks placed member site
  have blocks := shape.blocks.pushed member site
  have shape' : HeapShape
      (g.withFree cls (g.free cls ++ [region.start])) (live.erase region)
      (s.withMemory (pushedMemory s.memory
        (descFreeList (descAddr s.kernelBlockDescArray cls)) region.start page
        ((g.withFree cls (g.free cls ++ [region.start])).freeCount cls
          page))) :=
    ⟨shape.layout.withMemory _, blocks,
      ⟨shape.pages.used, shape.pages.heads⟩, memory⟩
  have few := freeCount_lt memory blocks site.kind
  have kind : (g.withFree cls (g.free cls ++ [region.start])).kind page =
      .small cls := site.kind
  have header' := memory.header page
  simp only [HeaderShape, kind] at header'
  have nodup := (List.nodup_cons.mp (memory.ring cls inside).nodup).2
  have written : ((listAddPrev s.memory (descFreeList
      (arenaDesc s.memory (pageAddr page))) region.start).storeWord
        (pageAddr page + 4) (u32 (arenaCnt (listAddPrev s.memory (descFreeList
          (arenaDesc s.memory (pageAddr page))) region.start)
            (pageAddr page) + 1))) =
      pushedMemory s.memory
        (descFreeList (descAddr s.kernelBlockDescArray cls)) region.start page
        ((g.withFree cls (g.free cls ++ [region.start])).freeCount cls
          page) := by
    rw [header.1, counted, u32_of_lt (by omega)]
    rfl
  unfold freeBlock
  simp only [written]
  rw [header'.1, header'.2, memory.blocksEach cls inside]
  by_cases full : (g.withFree cls (g.free cls ++ [region.start])).freeCount cls
      page = classBlocks cls
  · have onPage := site.onPage
    obtain ⟨offset, start⟩ := Nat.exists_eq_add_of_le onPage.1
    have inPage : offset < pageSize := by
      have upper := onPage.2
      omega
    obtain ⟨memory', s', left, looped, returned, task, freed⟩ :=
      reclaim_ok shape' kind full
        (fun other cls' kind' notPage => busy_pushed busy site kind' notPage)
        inPage
    refine ⟨s', _, ?_, task, freed.shape, freed.busy, freed.lock,
      freed.bitmaps⟩
    rw [if_pos full]
    rw [← start] at returned
    exact Call.bind_eq_ok_iff.mpr ⟨memory', looped, returned⟩
  · refine ⟨_, _, if_neg full, rfl, shape', ?_, rfl,
      Or.inl ⟨⟨rfl, rfl⟩, rfl⟩⟩
    intro other cls' kind'
    by_cases here : other = page
    · subst here
      obtain rfl := PageKind.small.inj (kind.symm.trans kind')
      rw [freeCount_eq_iff blocks kind nodup] at full
      push Not at full
      exact full
    · exact busy_pushed busy site kind' here

private theorem freeLarge_ok {g : HeapGhost} {live : List Region}
    {s : MmState} {region : Region} {page count : Nat}
    (shape : HeapShape g live s) (busy : Busy g) (member : region ∈ live)
    (site : LargeAt g region page count) :
    ∃ s', pageFree s .pfKernel region.start count = .ok s' ∧
      s'.curTask = s.curTask ∧
      Freed g (live.erase region) s s' (g.withoutPages page count) := by
  have blocks := shape.blocks
  obtain ⟨positive, bodies⟩ := blocks.tails page count site.kind
  have room : page + count ≤ s.kernelPages := by
    by_cases single : count = 1
    · have low := (shape.pages.used page (by simp [site.kind])).1
      omega
    · have body := bodies (page + count - 1) (by omega) (by omega)
      have low := (shape.pages.used (page + count - 1) (by simp [body])).1
      omega
  have returned := @pageFree_kernel s shape.layout.pool page arenaSize count
    positive (by decide) room
  rw [← site.start] at returned
  have kindInside : ∀ other, page ≤ other → other < page + count →
      (g.withoutPages page count).kind other = .unused := by
    intro other lower upper
    simp only [HeapGhost.withoutPages]
    rw [if_pos ⟨lower, upper⟩]
  have kindOutside : ∀ other, ¬ (page ≤ other ∧ other < page + count) →
      (g.withoutPages page count).kind other = g.kind other := by
    intro other notHere
    simp only [HeapGhost.withoutPages, if_neg notHere]
  have pages := shape.pages.freed positive kindInside kindOutside
  have memory : MemoryShape (g.withoutPages page count) s.kernelBlockDescArray
      s.memory := by
    have sameFree : (g.withoutPages page count).free = g.free := rfl
    apply shape.memory.keep blocks shape.layout.descArray
      (fun other => page ≤ other ∧ other < page + count) sameFree kindOutside
      (fun address _ _ => SameCell.refl s.memory address)
    rintro other ⟨lower, upper⟩
    unfold HeaderShape
    rw [kindInside other lower upper]
    trivial
  refine ⟨_, returned, rfl,
    ⟨shape.layout.unmarked page count, blocks.largeRemoved member site,
    pages, memory⟩, ?_, rfl, Or.inr ⟨page, count, by rw [site.kind]; trivial,
      ⟨positive, rfl, rfl⟩, bodies, kindOutside⟩⟩
  intro other cls kind
  simp only [HeapGhost.withoutPages] at kind
  split at kind
  · cases kind
  · exact busy other cls kind

private theorem sysFree_eq {s freed : MmState} {ptr : Nat}
    (layout : HeapLayout s) (unlocked : s.kernelPool.lock = lockInit)
    (inHeap : kernelHeapBase ≤ ptr)
    (called :
      (if arenaDesc s.memory (block2Arena ptr) = 0 then
        pageFree (s.withLock (heldBy s.curTask.pcb)) .pfKernel ptr
          (arenaCnt s.memory (block2Arena ptr))
      else
        freeBlock (s.withLock (heldBy s.curTask.pcb)) .pfKernel ptr
          (block2Arena ptr)) = .ok freed)
    (task : freed.curTask = s.curTask)
    (lock : freed.kernelPool.lock = heldBy s.curTask.pcb) :
    sysFree s ptr = .ok (freed.withLock lockInit) := by
  have kernel : s.curTask.poolFlags = .pfKernel := by
    simp [MmTask.poolFlags, layout.kernelThread]
  have notNull : ptr ≠ 0 := by
    unfold kernelHeapBase at inHeap
    omega
  rw [← task] at lock
  rw [sysFree, Call.assert_of notNull, Call.ok_bind, kernel,
    Call.assert_of fun _ => inHeap, Call.ok_bind,
    acquirePool_eq layout.task unlocked, Call.ok_bind]
  exact Call.bind_eq_ok_iff.mpr ⟨freed, called, releasePool_held lock⟩

/-- `sys_free` of a live region returns, and gives the region back. -/
theorem sysFree_returns {g : HeapGhost} {live : List Region} {s : MmState}
    {region : Region} (ok : HeapOk g live s) (member : region ∈ live) :
    ∃ s' g', sysFree s region.start = .ok s' ∧
      Freed g (live.erase region) s s' g' ∧
      s'.kernelPool.lock = lockInit := by
  have layout := ok.shape.layout
  have shape := ok.shape.withLock (heldBy s.curTask.pcb)
  have given : ∀ {freed : MmState} {g' : HeapGhost},
      Freed g (live.erase region) (s.withLock (heldBy s.curTask.pcb)) freed
        g' →
      Freed g (live.erase region) s (freed.withLock lockInit) g' :=
    fun result => ⟨result.shape.withLock lockInit, result.busy,
      ok.unlocked.symm, result.bitmaps⟩
  have inPool : ∀ {page : Nat}, OnPage page region.start →
      kernelHeapBase ≤ region.start := by
    intro page onPage
    have lower := onPage.1
    unfold pageAddr at lower
    omega
  rcases (ok.shape.blocks.regions region member).2 with
    ⟨page, cls, index, site⟩ | ⟨page, count, site⟩
  · have low := ok.shape.blocks.below page (by simp [site.kind])
    have header := ok.shape.memory.header page
    simp only [HeaderShape, site.kind] at header
    have desc := (layout.descArray.below site.class_of.1).1
    obtain ⟨freed, g', called, task, result⟩ :=
      freeBlock_ok shape ok.busy member site
    have block : ¬ arenaDesc s.memory (pageAddr page) = 0 := by
      rw [header.1]
      omega
    refine ⟨_, g', sysFree_eq layout ok.unlocked (inPool site.onPage) ?_ task
      result.lock, given result, rfl⟩
    rw [block2Arena_of_onPage (by omega) site.onPage, if_neg block]
    exact called
  · have low := ok.shape.blocks.below page (by simp [site.kind])
    have header := ok.shape.memory.header page
    simp only [HeaderShape, site.kind] at header
    obtain ⟨freed, called, task, result⟩ :=
      freeLarge_ok shape ok.busy member site
    refine ⟨_, _, sysFree_eq layout ok.unlocked (inPool site.onPage) ?_ task
      result.lock, given result, rfl⟩
    rw [block2Arena_of_onPage (by omega) site.onPage, if_pos header.1,
      header.2]
    exact called

theorem sysFree_ok {g : HeapGhost} {live : List Region} {s s' : MmState}
    {region : Region} (ok : HeapOk g live s) (member : region ∈ live)
    (returned : sysFree s region.start = .ok s') :
    ∃ g', Freed g (live.erase region) s s' g' ∧
      s'.kernelPool.lock = lockInit := by
  obtain ⟨result, g', same, freed⟩ := sysFree_returns ok member
  rw [returned, Except.ok.injEq] at same
  rw [same]
  exact ⟨g', freed⟩

end Simos
