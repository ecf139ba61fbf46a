import Simos.Library.Runs
import Simos.Mm.HeapFree

/-!
# Runs of the heap of a kernel thread

After `mem_init` a kernel thread calls `sys_malloc` and `sys_free` in any
order and writes into its live regions between the calls.

* `sysMalloc_private` is what a call that returns a region guarantees;
* `heap_restored_iff` says which balanced runs restore the bitmaps;
* `heap_accounts` describes the free lists and the headers in every state.
-/

namespace Simos

open Simos.Library

/-- The heap and the regions that its client holds. -/
structure HeapUse where
  mm : MmState
  live : List Region

/-- The calls with their results, and the stores of the client. -/
inductive HeapEvent where
  | sysMalloc (size ptr : Nat)
  | sysFree (region : Region)
  | write (address : Nat) (value : BitVec 8)

/-- One returning call, or one byte written inside a live region. -/
inductive HeapStep : HeapUse → HeapEvent → HeapUse → Prop
  | sysMalloc {s : HeapUse} {mm : MmState} {size ptr : Nat} :
      size < 4294967296 →
      Simos.sysMalloc s.mm size = .ok (ptr, mm) →
      HeapStep s (.sysMalloc size ptr)
        ⟨mm, if ptr = 0 then s.live else ⟨ptr, size⟩ :: s.live⟩
  | sysFree {s : HeapUse} {mm : MmState} {region : Region} :
      region ∈ s.live →
      Simos.sysFree s.mm region.start = .ok mm →
      HeapStep s (.sysFree region) ⟨mm, s.live.erase region⟩
  | write {s : HeapUse} {region : Region} {address : Nat} {value : BitVec 8} :
      region ∈ s.live →
      region.start ≤ address → address < region.start + region.size →
      HeapStep s (.write address value)
        ⟨s.mm.withMemory (s.mm.memory.storeByte address value), s.live⟩

/-- A kernel thread is running when `mem_init` is called. -/
structure KernelBoot (prior : MmState) : Prop where
  kernelThread : prior.curTask.pdeAddr = 0
  task : prior.curTask.pcb ≠ 0
  descArray : DescArrayPlaced prior.kernelBlockDescArray

def HeapInvariant (s : HeapUse) : Prop :=
  ∃ g, HeapOk g s.live s.mm

private def HeapGhost.empty : HeapGhost where
  kind _ := .unused
  free _ := []

private theorem memInit_heapOk {prior mm : MmState} {totalMem : Nat}
    (boot : KernelBoot prior) (large : 0x2000000 ≤ totalMem)
    (booted : memInit prior totalMem = .ok mm) :
    HeapOk HeapGhost.empty [] mm ∧
      (∀ page, page < mm.kernelPages → mm.vmBit page = false) ∧
      ∀ page, page < mm.kernelPages → mm.poolBit page = false := by
  simp only [memInit, Call.bind_eq_ok_iff, Call.pure_eq_ok, Except.ok.injEq]
    at booted
  obtain ⟨s, pools, rfl⟩ := booted
  obtain ⟨layout, vmClear, poolClear⟩ := memPoolInit_layout large pools
  obtain ⟨poolSize, unlocked, task, array, _⟩ := memPoolInit_rest large pools
  have placed : DescArrayPlaced s.kernelBlockDescArray := array ▸ boot.descArray
  have ready := fun {cls : Nat} (inside : cls < memDescCnt) =>
    memBlockDescInit_ready placed s.memory inside
  refine ⟨⟨⟨?_, ?_, ?_, ?_⟩, ?_, unlocked⟩, vmClear, poolClear⟩
  · exact ⟨layout.withMemory _, poolSize, task ▸ boot.kernelThread,
      task ▸ boot.task, placed⟩
  · constructor <;> simp [HeapGhost.empty]
  · constructor
    · simp [HeapGhost.empty]
    · intro page inside
      have clear := poolClear page inside
      simp only [HeapGhost.empty, PageKind.IsHead, iff_false]
      intro set
      exact Bool.false_ne_true (clear.symm.trans set)
  · exact ⟨fun cls inside => (ready inside).blockSize,
      fun cls inside => (ready inside).blocksEach,
      fun cls inside => (ready inside).ring, fun page => trivial⟩
  · intro page cls kind
    cases kind

/-- A byte written inside a live region is not seen by the heap. -/
theorem HeapOk.write {g : HeapGhost} {live : List Region} {s : MmState}
    (ok : HeapOk g live s) {region : Region} (member : region ∈ live)
    {address : Nat} (lower : region.start ≤ address)
    (upper : address < region.start + region.size) (value : BitVec 8) :
    HeapOk g live (s.withMemory (s.memory.storeByte address value)) := by
  have blocks := ok.shape.blocks
  have placed := ok.shape.layout.descArray
  obtain ⟨length, unit, fits, notFree⟩ := blocks.unit_of_region member
  have memory : MemoryShape g s.kernelBlockDescArray
      (s.memory.storeByte address value) := by
    apply ok.shape.memory.keep blocks placed (fun _ => False) rfl
      (fun _ _ => rfl)
    · intro cell isMeta _
      have different : cell ≠ region.start := by
        rintro rfl
        exact blocks.not_isMeta_of_unit placed unit notFree isMeta
      have outside := blocks.meta_apart_unit placed unit isMeta different
      exact SameCell.storeByte (by omega)
    · exact fun _ impossible => impossible.elim
  exact ⟨⟨ok.shape.layout.withMemory _, blocks,
    ⟨ok.shape.pages.used, ok.shape.pages.heads⟩, memory⟩, ok.busy, ok.unlocked⟩

/-- Every step keeps the heap in order. -/
theorem HeapInvariant.step {s s' : HeapUse} {event : HeapEvent}
    (inv : HeapInvariant s) (taken : HeapStep s event s') :
    HeapInvariant s' := by
  obtain ⟨g, ok⟩ := inv
  cases taken with
  | sysMalloc _ returned =>
      rcases sysMalloc_ok ok returned with
        ⟨rfl, rfl, _⟩ | ⟨_, _, granted⟩
      · exact ⟨g, ok⟩
      · obtain ⟨g', shape, busy⟩ := granted.heap
        simp only [HeapInvariant, if_neg granted.nonNull]
        exact ⟨g', shape, busy, granted.lock.trans ok.unlocked⟩
  | sysFree member returned =>
      obtain ⟨g', freed, unlocked⟩ := sysFree_ok ok member returned
      exact ⟨g', freed.shape, freed.busy, unlocked⟩
  | write member lower upper =>
      exact ⟨g, ok.write member lower upper _⟩

theorem HeapInvariant.sysFree_returns {s : HeapUse} (inv : HeapInvariant s)
    {region : Region} (member : region ∈ s.live) :
    ∃ next, HeapStep s (.sysFree region) next := by
  obtain ⟨g, ok⟩ := inv
  obtain ⟨mm, _, returned, _⟩ := Simos.sysFree_returns ok member
  exact ⟨_, .sysFree member returned⟩

private theorem heapRun_invariant {prior mm : MmState} {totalMem : Nat}
    {trace : List (HeapEvent × HeapUse)} {last : HeapUse}
    (boot : KernelBoot prior) (large : 0x2000000 ≤ totalMem)
    (booted : memInit prior totalMem = .ok mm)
    (run : Run HeapStep ⟨mm, []⟩ trace last) : HeapInvariant last :=
  run.invariant ⟨_, (memInit_heapOk boot large booted).1⟩
    fun _ _ _ inv taken => inv.step taken

/-! ## What a granted region is -/

/-- The number of pages of an arena, as its header gives it. -/
def arenaPages (memory : ByteMemory) (arena : Nat) : Nat :=
  if arenaDesc memory arena = 0 then arenaCnt memory arena else 1

/-- The arena of a live region starts at this address. -/
def ArenaInUse (s : HeapUse) (arena : Nat) : Prop :=
  ∃ region ∈ s.live, block2Arena region.start = arena

def OnFreeList (s : HeapUse) (cls block : Nat) : Prop :=
  ∃ members,
    Ring s.mm.memory (descFreeList (descAddr s.mm.kernelBlockDescArray cls))
      members ∧ block ∈ members

section Regions

variable {s : HeapUse} {g : HeapGhost}

private theorem HeapOk.onFreeList_iff (ok : HeapOk g s.live s.mm)
    {cls block : Nat} (inside : cls < memDescCnt) :
    OnFreeList s cls block ↔ block ∈ g.free cls := by
  have ring := ok.shape.memory.ring cls inside
  constructor
  · rintro ⟨members, ring', member⟩
    rw [ring.members_unique ring']
    exact member
  · exact fun member => ⟨g.free cls, ring, member⟩

private theorem HeapOk.arena_of_region (ok : HeapOk g s.live s.mm)
    {region : Region} (member : region ∈ s.live) :
    ∃ page, (g.kind page).IsHead ∧ OnPage page region.start ∧
      block2Arena region.start = pageAddr page := by
  obtain ⟨page, onPage, head⟩ := ok.shape.blocks.region_page member
  have low : page < 257024 := by
    apply ok.shape.blocks.below
    rintro unused
    rw [unused] at head
    exact head
  exact ⟨page, head, onPage, block2Arena_of_onPage (by omega) onPage⟩

/-- A region lies in the pages of its arena, behind the header. -/
theorem HeapOk.region_inside (ok : HeapOk g s.live s.mm) {region : Region}
    (member : region ∈ s.live) :
    ∃ page, block2Arena region.start = pageAddr page ∧
      pageAddr page + arenaSize ≤ region.start ∧
      region.start + region.size ≤ pageAddr page +
        pageSize * arenaPages s.mm.memory (pageAddr page) ∧
      ∀ other, page ≤ other →
        other < page + arenaPages s.mm.memory (pageAddr page) →
        other < s.mm.kernelPages ∧ s.mm.vmBit other = true := by
  have placed := ok.shape.layout.descArray
  rcases (ok.shape.blocks.regions region member).2 with
    ⟨page, cls, index, site⟩ | ⟨page, count, site⟩
  · have low := ok.shape.blocks.below page (by simp [site.kind])
    have header := ok.shape.memory.header page
    simp only [HeaderShape, site.kind] at header
    have desc := (placed.below site.class_of.1).1
    have one : arenaPages s.mm.memory (pageAddr page) = 1 := by
      unfold arenaPages
      rw [header.1, if_neg (by omega)]
    have ends := slotAddr_end page site.inside
    have fits := site.class_of.2.1
    have start := site.start
    refine ⟨page, block2Arena_of_onPage (by omega) site.onPage, ?_, ?_, ?_⟩
    · rw [start]
      unfold slotAddr
      omega
    · rw [one, start]
      unfold pageSize
      omega
    · rw [one]
      intro other lower upper
      rw [show other = page by omega]
      exact ok.shape.pages.used page (by simp [site.kind])
  · have low := ok.shape.blocks.below page (by simp [site.kind])
    have header := ok.shape.memory.header page
    simp only [HeaderShape, site.kind] at header
    have pages : arenaPages s.mm.memory (pageAddr page) = count := by
      unfold arenaPages
      rw [header.1, if_pos rfl]
      exact header.2
    obtain ⟨positive, bodies⟩ := ok.shape.blocks.tails page count site.kind
    have room := site.room
    refine ⟨page, block2Arena_of_onPage (by omega) site.onPage, ?_, ?_, ?_⟩
    · rw [site.start]
    · rw [pages, site.start]
      omega
    · rw [pages]
      intro other lower upper
      apply ok.shape.pages.used other
      by_cases same : other = page
      · simp [same, site.kind]
      · simp [bodies other (by omega) upper]

theorem HeapOk.regions_apart (ok : HeapOk g s.live s.mm) {left right : Region}
    (leftMember : left ∈ s.live) (rightMember : right ∈ s.live)
    (different : left.start ≠ right.start) :
    left.start + left.size ≤ right.start ∨
      right.start + right.size ≤ left.start := by
  obtain ⟨_, unit, fits, _⟩ := ok.shape.blocks.unit_of_region leftMember
  obtain ⟨_, unit', fits', _⟩ := ok.shape.blocks.unit_of_region rightMember
  have apart := ok.shape.blocks.units_apart unit unit' different
  omega

/-- A region is disjoint from the headers of the arenas in use. -/
theorem HeapOk.region_apart_header (ok : HeapOk g s.live s.mm)
    {region : Region} (member : region ∈ s.live) {arena : Nat}
    (inUse : ArenaInUse s arena) :
    arena + arenaSize ≤ region.start ∨ region.start + region.size ≤ arena := by
  obtain ⟨other, otherMember, rfl⟩ := inUse
  obtain ⟨page, head, _, arenaEq⟩ := ok.arena_of_region otherMember
  obtain ⟨_, unit, fits, _⟩ := ok.shape.blocks.unit_of_region member
  have apart := ok.shape.blocks.unit_apart_header unit head
  rw [arenaEq]
  unfold arenaSize
  omega

private theorem HeapOk.region_apart_free (ok : HeapOk g s.live s.mm)
    {region : Region} (member : region ∈ s.live) {cls block : Nat}
    (inside : cls < memDescCnt) (free : OnFreeList s cls block) :
    block + classSize cls ≤ region.start ∨
      region.start + region.size ≤ block := by
  rw [ok.onFreeList_iff inside] at free
  obtain ⟨_, unit, fits, notFree⟩ := ok.shape.blocks.unit_of_region member
  have different : block ≠ region.start := by
    rintro rfl
    exact notFree cls inside free
  have apart := ok.shape.blocks.units_apart
    (ok.shape.blocks.unit_of_free inside free) unit different
  omega

end Regions

/-- A region that `sys_malloc` returns lies in the pages of its arena, behind
the header, is zero, and is disjoint from the other live regions, from the
headers of all arenas in use and from all free blocks. -/
theorem sysMalloc_private {prior mm : MmState} {totalMem size ptr : Nat}
    {trace : List (HeapEvent × HeapUse)} {current next : HeapUse}
    (boot : KernelBoot prior) (large : 0x2000000 ≤ totalMem)
    (booted : memInit prior totalMem = .ok mm)
    (run : Run HeapStep ⟨mm, []⟩ trace current)
    (call : HeapStep current (.sysMalloc size ptr) next) (nonNull : ptr ≠ 0) :
    (∃ page, block2Arena ptr = pageAddr page ∧
        pageAddr page + arenaSize ≤ ptr ∧
        ptr + size ≤ pageAddr page +
          pageSize * arenaPages next.mm.memory (pageAddr page) ∧
        ∀ other, page ≤ other →
          other < page + arenaPages next.mm.memory (pageAddr page) →
          other < next.mm.kernelPages ∧ next.mm.vmBit other = true) ∧
      (∀ address, ptr ≤ address → address < ptr + size →
        next.mm.memory.byte address = 0) ∧
      (∀ region ∈ current.live, region.start + region.size ≤ ptr ∨
        ptr + size ≤ region.start) ∧
      (∀ arena, ArenaInUse next arena →
        arena + arenaSize ≤ ptr ∨ ptr + size ≤ arena) ∧
      ∀ cls, cls < memDescCnt → ∀ block, OnFreeList next cls block →
        block + classSize cls ≤ ptr ∨ ptr + size ≤ block := by
  obtain ⟨g, ok⟩ := heapRun_invariant boot large booted run
  cases call with
  | sysMalloc _ returned =>
      rcases sysMalloc_ok ok returned with ⟨null, _⟩ | ⟨_, _, granted⟩
      · exact absurd null nonNull
      obtain ⟨g', shape, busy⟩ := granted.heap
      simp only [if_neg nonNull]
      have ok' : HeapOk g' (⟨ptr, size⟩ :: current.live) _ :=
        ⟨shape, busy, granted.lock.trans ok.unlocked⟩
      have member : (⟨ptr, size⟩ : Region) ∈ ⟨ptr, size⟩ :: current.live :=
        List.mem_cons_self
      refine ⟨ok'.region_inside (s := ⟨_, _⟩) member, granted.zero, ?_, ?_, ?_⟩
      · intro region old
        have starts := (List.nodup_cons.mp shape.blocks.starts).1
        apply ok'.regions_apart (s := ⟨_, _⟩) (List.mem_cons_of_mem _ old) member
        rintro same
        exact starts (List.mem_map.mpr ⟨region, old, same⟩)
      · intro arena inUse
        exact ok'.region_apart_header member inUse
      · intro cls inside block free
        exact ok'.region_apart_free member inside free

private theorem coldMm_kernelBoot : KernelBoot coldMm :=
  ⟨rfl, by decide, by decide, by decide⟩

private theorem HeapStep.granted {s : HeapUse} {mm : MmState} {size ptr : Nat}
    (bound : size < 4294967296) (nonNull : ptr ≠ 0)
    (returned : Simos.sysMalloc s.mm size = .ok (ptr, mm)) :
    HeapStep s (.sysMalloc size ptr) ⟨mm, ⟨ptr, size⟩ :: s.live⟩ := by
  have taken := HeapStep.sysMalloc bound returned
  rw [if_neg nonNull] at taken
  exact taken

/-- On 34 MB, three regions share an arena; the first one is written, given
back and asked for again. -/
private theorem sysMalloc_reuse :
    (do
      let mm ← memInit coldMm 0x2200000
      let (first, mm) ← sysMalloc mm 1000
      let (second, mm) ← sysMalloc mm 900
      let (third, mm) ← sysMalloc mm 1000
      let mm ← sysFree
        (mm.withMemory (mm.memory.storeByte 0xc1000010 0x41)) 0xc1000008
      let (fourth, _) ← sysMalloc mm 800
      return [first, second, third, fourth] : Call (List Nat)) =
        .ok [0xc1000008, 0xc1000408, 0xc1000808, 0xc1000008] := by
  decide +kernel

/-- The guarantee for a block that is used a second time, beside two live
regions of its arena. -/
theorem sysMalloc_private_reused :
    ∃ mm trace s next, memInit coldMm 0x2200000 = .ok mm ∧
      Run HeapStep ⟨mm, []⟩ trace s ∧
      trace.map Prod.fst =
        [.sysMalloc 1000 0xc1000008, .sysMalloc 900 0xc1000408,
          .sysMalloc 1000 0xc1000808, .write 0xc1000010 0x41,
          .sysFree ⟨0xc1000008, 1000⟩] ∧
      s.live = [⟨0xc1000808, 1000⟩, ⟨0xc1000408, 900⟩] ∧
      HeapStep s (.sysMalloc 800 0xc1000008) next ∧
      (∀ address, 0xc1000008 ≤ address → address < 0xc1000008 + 800 →
        next.mm.memory.byte address = 0) ∧
      ∀ region ∈ s.live, region.start + region.size ≤ 0xc1000008 ∨
        0xc1000008 + 800 ≤ region.start := by
  have computed := sysMalloc_reuse
  simp only [Call.bind_eq_ok_iff, Call.pure_eq_ok, Except.ok.injEq,
    List.cons.injEq, and_true] at computed
  obtain ⟨mm, booted, ⟨_, mm₁⟩, first, ⟨_, mm₂⟩, second, ⟨_, mm₃⟩, third,
    mm₄, freed, ⟨_, mm₅⟩, fourth, rfl, rfl, rfl, rfl⟩ := computed
  have run := Run.start.next
    (@HeapStep.granted ⟨mm, []⟩ _ _ _ (by decide) (by decide) first)
  have run := run.next (HeapStep.granted (by decide) (by decide) second)
  have run := run.next (HeapStep.granted (by decide) (by decide) third)
  have run := run.next (@HeapStep.write _ ⟨0xc1000008, 1000⟩ 0xc1000010 0x41
    (by simp) (by decide) (by decide))
  have run := run.next (@HeapStep.sysFree _ _ ⟨0xc1000008, 1000⟩
    (by simp) freed)
  have call := @HeapStep.granted
    ⟨mm₄, [⟨0xc1000808, 1000⟩, ⟨0xc1000408, 900⟩]⟩ _ 800 0xc1000008
    (by decide) (by decide) fourth
  have whole := sysMalloc_private coldMm_kernelBoot (by decide) booted run
    call (by decide)
  exact ⟨mm, _, _, _, booted, run, rfl, rfl, call, whole.2.1, whole.2.2.1⟩

/-! ## Balanced runs -/

/-- Both bitmaps agree on every page of the pool. -/
def Lockstep (s : HeapUse) : Prop :=
  ∀ page, page < s.mm.kernelPages → s.mm.vmBit page = s.mm.poolBit page

/-- A request fits into one page with its header, or there is no room for
it: it is larger than the pool, or the search of the virtual bitmap fails. -/
def FitsOnePage (s : HeapUse) : HeapEvent → Prop
  | .sysMalloc size _ =>
      size + arenaSize ≤ pageSize ∨ s.mm.kernelPool.poolSize < size ∨
        bitmapApply s.mm.kernelVmPool.vmBitmap (requestPages size) = .ok (-1)
  | .sysFree _ => True
  | .write _ _ => True

private theorem lockstep_marked_iff {g : HeapGhost} {s s' : MmState}
    {live live' : List Region} {page count : Nat} (pages : PagesShape g s)
    (marked : PagesMarked s s' page count) (positive : 1 ≤ count) :
    Lockstep ⟨s', live'⟩ ↔ Lockstep ⟨s, live⟩ ∧ count = 1 := by
  obtain ⟨clear, vm, pool⟩ := marked
  have room := clear.1
  have kept : s'.kernelPages = s.kernelPages := by
    unfold MmState.kernelPages
    rw [vm, Bitmap.bitCount_writeRange]
  have freePool : ∀ other, page ≤ other → other < page + count →
      s.poolBit other = false := by
    intro other lower upper
    have notHead : ¬ (g.kind other).IsHead := by
      rw [pages.unused_of_clear clear other lower upper]
      exact id
    have inside : other < s.kernelPages := by
      unfold MmState.kernelPages
      omega
    rw [← pages.heads other inside] at notHead
    simpa using notHead
  have vmBit : ∀ other, s'.vmBit other =
      if page ≤ other ∧ other < page + count then true else s.vmBit other := by
    intro other
    unfold MmState.vmBit
    rw [vm, Bitmap.bits_writeRange]
  have poolBit : ∀ other, s'.poolBit other =
      if other = page then true else s.poolBit other := by
    intro other
    unfold MmState.poolBit
    rw [pool, Bitmap.bits_write]
  constructor
  · intro after
    refine ⟨?_, ?_⟩
    · intro other inside
      have here := after other (by rw [kept]; exact inside)
      simp only [vmBit, poolBit] at here
      by_cases inRange : page ≤ other ∧ other < page + count
      · rw [freePool other inRange.1 inRange.2]
        exact clear.2 other inRange.1 inRange.2
      · rw [if_neg inRange, if_neg (by omega)] at here
        exact here
    · by_contra several
      have second := after (page + 1) (by
        rw [kept]
        unfold MmState.kernelPages
        omega)
      simp only [vmBit, poolBit] at second
      rw [if_pos (by omega), if_neg (by omega),
        freePool (page + 1) (by omega) (by omega)] at second
      exact Bool.false_ne_true second.symm
  · rintro ⟨before, rfl⟩ other inside
    rw [kept] at inside
    simp only [vmBit, poolBit]
    by_cases here : other = page
    · rw [if_pos (by omega), if_pos here]
    · rw [if_neg (by omega), if_neg here]
      exact before other inside

private theorem lockstep_returned_iff {g : HeapGhost} {s s' : MmState}
    {live live' : List Region} {page count : Nat} (pages : PagesShape g s)
    (head : (g.kind page).IsHead) (returned : PagesReturned s s' page count)
    (bodies : ∀ later, page < later → later < page + count →
      g.kind later = .body) :
    Lockstep ⟨s', live'⟩ ↔ Lockstep ⟨s, live⟩ := by
  obtain ⟨positive, vm, pool⟩ := returned
  have kept : s'.kernelPages = s.kernelPages := by
    unfold MmState.kernelPages
    rw [vm, Bitmap.bitCount_write]
  have vmBit : ∀ other, s'.vmBit other =
      if other = page then false else s.vmBit other := by
    intro other
    unfold MmState.vmBit
    rw [vm, Bitmap.bits_write]
  have poolBit : ∀ other, s'.poolBit other =
      if page ≤ other ∧ other < page + count then false
      else s.poolBit other := by
    intro other
    unfold MmState.poolBit
    rw [pool, Bitmap.bits_writeRange]
  -- a later page of the arena is out of step before and after
  have bodyBits : ∀ later, page < later → later < page + count →
      s.vmBit later = true ∧ s.poolBit later = false := by
    intro later lower upper
    have body := bodies later lower upper
    have used := pages.used later (by simp [body])
    refine ⟨used.2, ?_⟩
    have notHead : ¬ (g.kind later).IsHead := by
      rw [body]
      exact id
    rw [← pages.heads later used.1] at notHead
    simpa using notHead
  constructor
  · intro after other inside
    have here := after other (by rw [kept]; exact inside)
    simp only [vmBit, poolBit] at here
    by_cases first : other = page
    · have used := pages.used page (by
        rintro unused
        rw [unused] at head
        exact head)
      show s.vmBit other = s.poolBit other
      rw [first, used.2, (pages.heads page used.1).mpr head]
    · rw [if_neg first] at here
      by_cases inRange : page ≤ other ∧ other < page + count
      · rw [if_pos inRange, (bodyBits other (by omega) inRange.2).1] at here
        exact absurd here.symm Bool.false_ne_true
      · rw [if_neg inRange] at here
        exact here
  · intro before other inside
    rw [kept] at inside
    have here := before other inside
    simp only [vmBit, poolBit]
    by_cases first : other = page
    · rw [if_pos first, if_pos (by omega)]
    · rw [if_neg first]
      by_cases inRange : page ≤ other ∧ other < page + count
      · have bits := bodyBits other (by omega) inRange.2
        simp only [bits.1, bits.2] at here
        exact absurd here.symm Bool.false_ne_true
      · rw [if_neg inRange]
        exact here

private theorem requestPages_eq_one_iff {size : Nat} (positive : 0 < size) :
    requestPages size = 1 ↔ size + arenaSize ≤ pageSize := by
  unfold requestPages arenaSize pageSize
  omega

/-- The bitmaps stay in step under the calls that fit one page, and once they
are out of step they stay so. -/
theorem lockstep_step_iff {s s' : HeapUse} {event : HeapEvent}
    (inv : HeapInvariant s) (taken : HeapStep s event s') :
    Lockstep s' ↔ Lockstep s ∧ FitsOnePage s event := by
  obtain ⟨g, ok⟩ := inv
  cases taken with
  | @sysMalloc mm size ptr _ returned =>
      rcases sysMalloc_ok ok returned with
        ⟨rfl, rfl, refused⟩ | ⟨positive, fits, granted⟩
      · have noRoom : FitsOnePage s (.sysMalloc size 0) := by
          by_cases small : size ≤ 1024
          · refine Or.inl ?_
            unfold arenaSize pageSize
            omega
          · exact Or.inr (refused (by omega))
        exact (and_iff_left noRoom).symm
      · have fits_iff : FitsOnePage s (.sysMalloc size ptr) ↔
            size + arenaSize ≤ pageSize ∨
              bitmapApply s.mm.kernelVmPool.vmBitmap (requestPages size) =
                .ok (-1) := by
          simp only [FitsOnePage]
          constructor
          · rintro (one | larger | none)
            · exact Or.inl one
            · omega
            · exact Or.inr none
          · rintro (one | none)
            · exact Or.inl one
            · exact Or.inr (Or.inr none)
        rw [fits_iff]
        rcases granted.bitmaps with ⟨small, vm, pool⟩ | ⟨page, marked, found⟩
        · have one : size + arenaSize ≤ pageSize := by
            unfold arenaSize pageSize
            omega
          have same : Lockstep ⟨mm, if ptr = 0 then s.live
              else ⟨ptr, size⟩ :: s.live⟩ ↔ Lockstep s := by
            simp only [Lockstep, MmState.kernelPages, MmState.vmBit,
              MmState.poolBit, vm, pool]
          rw [same]
          exact (and_iff_left (Or.inl one)).symm
        · rw [lockstep_marked_iff ok.shape.pages marked
              (by unfold requestPages; omega),
            requestPages_eq_one_iff positive]
          constructor
          · exact fun both => ⟨both.1, Or.inl both.2⟩
          · rintro ⟨before, one | none⟩
            · exact ⟨before, one⟩
            · refine ⟨before, ?_⟩
              by_contra several
              exact found (by unfold arenaSize pageSize at several; omega) none
  | sysFree member returned =>
      obtain ⟨g', freed, _⟩ := sysFree_ok ok member returned
      simp only [FitsOnePage, and_true]
      rcases freed.bitmaps with
        ⟨⟨vm, pool⟩, _⟩ | ⟨page, count, head, returned', bodies, _⟩
      · simp only [Lockstep, MmState.kernelPages, MmState.vmBit,
          MmState.poolBit, vm, pool]
      · exact lockstep_returned_iff ok.shape.pages head returned' bodies
  | write member lower upper =>
      simp only [FitsOnePage, and_true]
      exact Iff.rfl

theorem HeapOk.empty {g : HeapGhost} {s : MmState} (ok : HeapOk g [] s) :
    (∀ page, ¬ (g.kind page).IsHead) ∧
      ∀ cls, cls < memDescCnt → g.free cls = [] := by
  have noSmall : ∀ page cls, g.kind page ≠ .small cls := by
    intro page cls kind
    obtain ⟨index, small, notFree⟩ := ok.busy page cls kind
    rcases ok.shape.blocks.covered page cls kind index small with
      free | ⟨_, member, _⟩
    · exact notFree free
    · simp at member
  refine ⟨?_, ?_⟩
  · intro page head
    cases kind : g.kind page with
    | unused => simp [kind, PageKind.IsHead] at head
    | body => simp [kind, PageKind.IsHead] at head
    | small cls => exact noSmall page cls kind
    | large count =>
        obtain ⟨_, member, _⟩ := ok.shape.blocks.owned page count kind
        simp at member
  · intro cls inside
    rw [List.eq_nil_iff_forall_not_mem]
    intro block member
    obtain ⟨page, _, kind, _⟩ := ok.shape.blocks.freeSlots cls inside block member
    exact noSmall page cls kind

private theorem kernelPages_step {s s' : HeapUse} {event : HeapEvent}
    (inv : HeapInvariant s) (taken : HeapStep s event s') :
    s'.mm.kernelPages = s.mm.kernelPages := by
  obtain ⟨g, ok⟩ := inv
  unfold MmState.kernelPages
  cases taken with
  | sysMalloc _ returned =>
      rcases sysMalloc_ok ok returned with ⟨_, rfl, _⟩ | ⟨_, _, granted⟩
      · rfl
      · rcases granted.bitmaps with ⟨_, vm, _⟩ | ⟨page, ⟨_, vm, _⟩, _⟩
        · rw [vm]
        · rw [vm, Bitmap.bitCount_writeRange]
  | sysFree member returned =>
      obtain ⟨g', freed, _⟩ := sysFree_ok ok member returned
      rcases freed.bitmaps with ⟨⟨vm, _⟩, _⟩ | ⟨_, _, _, ⟨_, vm, _⟩, _⟩
      · rw [vm]
      · rw [vm, Bitmap.bitCount_write]
  | write _ _ _ =>
      rfl

/-- A heap in order whose pool has the given number of pages. -/
def HeapOfSize (pages : Nat) (s : HeapUse) : Prop :=
  HeapInvariant s ∧ s.mm.kernelPages = pages

private theorem HeapOfSize.step {pages : Nat} {s s' : HeapUse}
    {event : HeapEvent}
    (inv : HeapOfSize pages s) (taken : HeapStep s event s') :
    HeapOfSize pages s' :=
  ⟨inv.1.step taken, (kernelPages_step inv.1 taken).trans inv.2⟩

/-- The bitmaps are those of the state `mm`, and the free lists are empty. -/
def Restored (mm : MmState) (s : HeapUse) : Prop :=
  (∀ page, page < mm.kernelPages →
      s.mm.vmBit page = mm.vmBit page ∧ s.mm.poolBit page = mm.poolBit page) ∧
    ∀ cls, cls < memDescCnt →
      Ring s.mm.memory (descFreeList (descAddr s.mm.kernelBlockDescArray cls))
        []

/-- The balanced runs that restore both bitmaps and empty all free lists are
those in which no request takes more than one page. -/
theorem heap_restored_iff {prior mm : MmState} {totalMem : Nat}
    {trace : List (HeapEvent × HeapUse)} {last : HeapUse}
    (boot : KernelBoot prior) (large : 0x2000000 ≤ totalMem)
    (booted : memInit prior totalMem = .ok mm)
    (run : Run HeapStep ⟨mm, []⟩ trace last) (balanced : last.live = []) :
    Restored mm last ↔ Run (Guarded HeapStep FitsOnePage) ⟨mm, []⟩ trace last := by
  obtain ⟨start, vmClear, poolClear⟩ := memInit_heapOk boot large booted
  have lockstepStart : Lockstep ⟨mm, []⟩ := fun page inside =>
    (vmClear page inside).trans (poolClear page inside).symm
  rw [← run.last_iff_guarded ⟨_, start⟩ lockstepStart
    (fun _ _ _ inv taken => HeapInvariant.step inv taken)
    (fun _ _ _ inv taken => lockstep_step_iff inv taken)]
  have base : HeapOfSize mm.kernelPages ⟨mm, []⟩ := ⟨⟨_, start⟩, rfl⟩
  have kept : HeapOfSize mm.kernelPages last :=
    run.invariant base fun _ _ _ inv taken => inv.step taken
  obtain ⟨⟨g, ok⟩, pages⟩ := kept
  rw [balanced] at ok
  obtain ⟨noHead, noFree⟩ := ok.empty
  have lastPool : ∀ page, page < mm.kernelPages →
      last.mm.poolBit page = false := by
    intro page inside
    have heads := ok.shape.pages.heads page (pages ▸ inside)
    simpa [noHead page] using heads
  constructor
  · rintro ⟨same, _⟩ page inside
    rw [pages] at inside
    rw [(same page inside).1, vmClear page inside, lastPool page inside]
  · intro lockstep
    refine ⟨?_, ?_⟩
    · intro page inside
      rw [vmClear page inside, poolClear page inside,
        lockstep page (pages ▸ inside)]
      exact ⟨lastPool page inside, lastPool page inside⟩
    · intro cls inside
      have ring := ok.shape.memory.ring cls inside
      rw [noFree cls inside] at ring
      exact ring

private theorem fiveThousand_run :
    ∃ mm first last, memInit coldMm 0x2200000 = .ok mm ∧
      mm.vmBit 1 = false ∧ 1 < mm.kernelPages ∧ last.mm.vmBit 1 = true ∧
      last.live = [] ∧
      Run HeapStep ⟨mm, []⟩ [(.sysMalloc 5000 0xc1000008, first),
        (.sysFree ⟨0xc1000008, 5000⟩, last)] last := by
  have computed : (do
      let mm ← memInit coldMm 0x2200000
      let (ptr, taken) ← sysMalloc mm 5000
      let freed ← sysFree taken 0xc1000008
      return (ptr, mm.vmBit 1, decide (1 < mm.kernelPages), freed.vmBit 1) :
        Call (Nat × Bool × Bool × Bool)) =
      .ok (0xc1000008, false, true, true) := by
    decide +kernel
  simp only [Call.bind_eq_ok_iff, Call.pure_eq_ok, Except.ok.injEq,
    Prod.mk.injEq, decide_eq_true_eq] at computed
  obtain ⟨mm, booted, ⟨ptr, taken⟩, malloced, freed, returned, rfl, clear, low,
    leaked⟩ := computed
  have first := HeapStep.sysMalloc (s := ⟨mm, []⟩) (by decide) malloced
  rw [if_neg (by decide)] at first
  have second : HeapStep ⟨taken, [⟨0xc1000008, 5000⟩]⟩
      (.sysFree ⟨0xc1000008, 5000⟩) ⟨freed, _⟩ :=
    HeapStep.sysFree (by simp) returned
  exact ⟨mm, _, ⟨freed, _⟩, booted, clear, low, leaked, by simp,
    Run.next (Run.next Run.start first) second⟩

/-- The equivalence at the run that takes 5000 bytes and gives them back. -/
theorem heap_restored_iff_fiveThousand :
    ∃ mm trace last, memInit coldMm 0x2200000 = .ok mm ∧
      Run HeapStep ⟨mm, []⟩ trace last ∧
      (Restored mm last ↔
        Run (Guarded HeapStep FitsOnePage) ⟨mm, []⟩ trace last) := by
  obtain ⟨mm, first, last, booted, _, _, _, balanced, run⟩ := fiveThousand_run
  exact ⟨mm, _, last, booted, run,
    heap_restored_iff coldMm_kernelBoot (by decide) booted run balanced⟩

/-- On 34 MB, `sys_malloc(5000)` followed by `sys_free` leaves bit 1 of the
virtual bitmap set. -/
theorem sysMalloc_fiveThousand_leaks :
    ∃ mm first last, memInit coldMm 0x2200000 = .ok mm ∧
      Run HeapStep ⟨mm, []⟩ [(.sysMalloc 5000 0xc1000008, first),
        (.sysFree ⟨0xc1000008, 5000⟩, last)] last ∧
      last.live = [] ∧ mm.vmBit 1 = false ∧ last.mm.vmBit 1 = true ∧
      ¬ Restored mm last := by
  obtain ⟨mm, first, last, booted, clear, low, leaked, balanced, run⟩ :=
    fiveThousand_run
  refine ⟨mm, first, last, booted, run, balanced, clear, leaked, ?_⟩
  rintro ⟨same, _⟩
  have bit := (same 1 low).1
  rw [leaked, clear] at bit
  exact Bool.false_ne_true bit.symm

/-! ## The accounts of the arenas -/

/-- A small arena of the class stands on the page: a live region of that class
is in it. -/
def SmallArena (live : List Region) (page cls : Nat) : Prop :=
  ∃ region ∈ live, IsClassOf cls region.size ∧ OnPage page region.start

/-- A block of a small arena of the class that no live region starts with. -/
def FreeBlock (live : List Region) (cls block : Nat) : Prop :=
  ∃ page index, SmallArena live page cls ∧ index < classBlocks cls ∧
    block = slotAddr page cls index ∧ ∀ region ∈ live, region.start ≠ block

private theorem IsClassOf.unique {cls cls' size : Nat}
    (first : IsClassOf cls size)
    (second : IsClassOf cls' size) : cls = cls' := by
  rcases Nat.lt_trichotomy cls cls' with less | same | greater
  · have tooSmall := second.2.2 cls less
    have fits := first.2.1
    omega
  · exact same
  · have tooSmall := first.2.2 cls' greater
    have fits := second.2.1
    omega

/-- The small arenas of the ghost state are those with a live region. -/
theorem HeapOk.smallArena_iff {g : HeapGhost} {live : List Region} {s : MmState}
    (ok : HeapOk g live s) {page cls : Nat} :
    SmallArena live page cls ↔ g.kind page = .small cls := by
  have blocks := ok.shape.blocks
  constructor
  · rintro ⟨region, member, isClass, onPage⟩
    rcases (blocks.regions region member).2 with
      ⟨page', cls', index, site⟩ | ⟨page', count, site⟩
    · rw [OnPage.unique onPage site.onPage,
        IsClassOf.unique isClass site.class_of]
      exact site.kind
    · have fits := isClass.2.1
      have small := classSize_le isClass.1
      have large := site.large
      omega
  · intro kind
    obtain ⟨index, small, notFree⟩ := ok.busy page cls kind
    rcases blocks.covered page cls kind index small with
      free | ⟨region, member, start⟩
    · exact absurd free notFree
    · have onPage : OnPage page region.start :=
        start ▸ slotAddr_onPage page small
      refine ⟨region, member, ?_, onPage⟩
      rcases (blocks.regions region member).2 with
        ⟨page', cls', index', site⟩ | ⟨page', count, site⟩
      · have samePage := OnPage.unique site.onPage onPage
        subst samePage
        obtain rfl := PageKind.small.inj (site.kind.symm.trans kind)
        exact site.class_of
      · have samePage := OnPage.unique site.onPage onPage
        subst samePage
        have different := site.kind.symm.trans kind
        cases different

theorem HeapOk.mem_free_iff {g : HeapGhost} {live : List Region} {s : MmState}
    (ok : HeapOk g live s) {cls block : Nat} (inside : cls < memDescCnt) :
    block ∈ g.free cls ↔ FreeBlock live cls block := by
  have blocks := ok.shape.blocks
  constructor
  · intro member
    obtain ⟨page, index, kind, small, equal⟩ :=
      blocks.freeSlots cls inside block member
    refine ⟨page, index, ok.smallArena_iff.mpr kind, small, equal, ?_⟩
    rintro region inLive rfl
    obtain ⟨_, _, _, notFree⟩ := blocks.unit_of_region inLive
    exact notFree cls inside member
  · rintro ⟨page, index, arena, small, rfl, notLive⟩
    rcases blocks.covered page cls (ok.smallArena_iff.mp arena) index small with
      free | ⟨region, member, start⟩
    · exact free
    · exact absurd start (notLive region member)

/-- The page of a small arena is given back by the call that leaves no live
region on it. -/
theorem sysFree_returns_page_iff {s s' : HeapUse} {region : Region}
    {page cls : Nat} (inv : HeapInvariant s)
    (taken : HeapStep s (.sysFree region) s')
    (isClass : IsClassOf cls region.size) (onPage : OnPage page region.start) :
    s'.mm.vmBit page = false ∧ s'.mm.poolBit page = false ↔
      ∀ other ∈ s'.live, ¬ OnPage page other.start := by
  have inv' := inv.step taken
  obtain ⟨g, ok⟩ := inv
  have pages := kernelPages_step ⟨g, ok⟩ taken
  cases taken with
  | @sysFree mm _ member returned =>
      obtain ⟨g', freed, unlocked⟩ := sysFree_ok ok member returned
      have ok' : HeapOk g' (s.live.erase region) mm :=
        ⟨freed.shape, freed.busy, unlocked⟩
      have kind : g.kind page = .small cls :=
        ok.smallArena_iff.mp ⟨region, member, isClass, onPage⟩
      have inside : page < mm.kernelPages := by
        have used := (ok.shape.pages.used page (by simp [kind])).1
        simp only at pages
        omega
      constructor
      · rintro ⟨clear, _⟩ other otherMember onOther
        obtain ⟨page', onPage', head⟩ := ok'.shape.blocks.region_page otherMember
        rw [OnPage.unique onPage' onOther] at head
        have used := (ok'.shape.pages.used page (by
          rintro unused
          rw [unused] at head
          exact head)).2
        simp only [clear, Bool.false_eq_true] at used
      · intro nobody
        have notSmall : g'.kind page ≠ .small cls := by
          intro small
          obtain ⟨other, otherMember, _, onOther⟩ :=
            ok'.smallArena_iff.mpr small
          exact nobody other otherMember onOther
        rcases freed.bitmaps with
          ⟨_, sameKind⟩ | ⟨page', count, head, ⟨positive, vm, pool⟩, bodies,
            outside⟩
        · exact absurd (sameKind ▸ kind) notSmall
        · have samePage : page' = page := by
            by_contra different
            apply notSmall
            rw [outside page, kind]
            rintro ⟨lower, upper⟩
            have body := bodies page (by omega) upper
            rw [kind] at body
            cases body
          subst samePage
          unfold MmState.vmBit MmState.poolBit
          simp only [vm, pool]
          rw [Bitmap.bits_write_self, Bitmap.bits_writeRange,
            if_pos (by omega)]
          exact ⟨rfl, rfl⟩

/-- In every state the free lists are rings of exactly the free blocks, each
header counts the free blocks of its arena, less than all of them, `sys_free`
of a live region returns, and the page of an arena is given back at the call
that leaves no live region on it, after which none of its blocks is on a free
list. -/
theorem heap_accounts {prior mm : MmState} {totalMem : Nat}
    {trace : List (HeapEvent × HeapUse)} {last : HeapUse}
    (boot : KernelBoot prior) (large : 0x2000000 ≤ totalMem)
    (booted : memInit prior totalMem = .ok mm)
    (run : Run HeapStep ⟨mm, []⟩ trace last) :
    (∀ cls, cls < memDescCnt → ∃ members,
      Ring last.mm.memory
          (descFreeList (descAddr last.mm.kernelBlockDescArray cls)) members ∧
        (∀ block, block ∈ members ↔ FreeBlock last.live cls block) ∧
        ∀ page, SmallArena last.live page cls →
          arenaDesc last.mm.memory (pageAddr page) =
              descAddr last.mm.kernelBlockDescArray cls ∧
            arenaCnt last.mm.memory (pageAddr page) =
              members.countP (fun block => decide (OnPage page block)) ∧
            arenaCnt last.mm.memory (pageAddr page) <
              descBlocksEachArena last.mm.memory
                (descAddr last.mm.kernelBlockDescArray cls) ∧
            last.mm.vmBit page = true) ∧
      (∀ region ∈ last.live, ∃ next,
        HeapStep last (.sysFree region) next) ∧
      ∀ region next, HeapStep last (.sysFree region) next →
        ∀ page cls, IsClassOf cls region.size → OnPage page region.start →
          (next.mm.vmBit page = false ∧ next.mm.poolBit page = false ↔
            ∀ other ∈ next.live, ¬ OnPage page other.start) ∧
          (next.mm.vmBit page = false → ∀ cls', cls' < memDescCnt →
            ∀ block, OnFreeList next cls' block → ¬ OnPage page block) := by
  have inv := heapRun_invariant boot large booted run
  refine ⟨?_, fun region member => inv.sysFree_returns member, ?_⟩
  · obtain ⟨g, ok⟩ := inv
    intro cls inside
    have ring := ok.shape.memory.ring cls inside
    have nodup := (List.nodup_cons.mp ring.nodup).2
    refine ⟨g.free cls, ring, fun block => ok.mem_free_iff inside, ?_⟩
    intro page arena
    have kind := ok.smallArena_iff.mp arena
    have header := ok.shape.memory.header page
    simp only [HeaderShape, kind] at header
    refine ⟨header.1, header.2, ?_,
      (ok.shape.pages.used page (by simp [kind])).2⟩
    rw [header.2, ok.shape.memory.blocksEach cls inside]
    have most := freeCount_le ok.shape.blocks kind nodup
    obtain ⟨index, small, notFree⟩ := ok.busy page cls kind
    have notAll : g.freeCount cls page ≠ classBlocks cls := fun full =>
      notFree ((freeCount_eq_iff ok.shape.blocks kind nodup).mp full index small)
    omega
  · intro region next taken page cls isClass onPage
    refine ⟨sysFree_returns_page_iff inv taken isClass onPage, ?_⟩
    intro clear cls' inside block free onBlock
    obtain ⟨g', ok'⟩ := inv.step taken
    obtain ⟨page', index, arena, small, rfl, _⟩ :=
      (ok'.mem_free_iff inside).mp ((ok'.onFreeList_iff inside).mp free)
    have same := OnPage.unique (slotAddr_onPage page' small) onBlock
    subst same
    have used := (ok'.shape.pages.used page' (by
      simp [ok'.smallArena_iff.mp arena])).2
    rw [clear] at used
    exact Bool.false_ne_true used

/-- On 34 MB, two regions share an arena. -/
private theorem sysMalloc_both :
    (do
      let mm ← memInit coldMm 0x2200000
      let (first, mm) ← sysMalloc mm 1000
      let (second, _) ← sysMalloc mm 900
      return [first, second] : Call (List Nat)) =
        .ok [0xc1000008, 0xc1000408] := by
  decide +kernel

/-- The accounts of an arena whose two regions are given back: its page stays
with the first call and goes with the second one. -/
theorem heap_accounts_emptied :
    ∃ mm trace s₁ s₂ s₃, memInit coldMm 0x2200000 = .ok mm ∧
      Run HeapStep ⟨mm, []⟩ trace s₁ ∧
      s₁.live = [⟨0xc1000408, 900⟩, ⟨0xc1000008, 1000⟩] ∧
      HeapStep s₁ (.sysFree ⟨0xc1000008, 1000⟩) s₂ ∧
      s₂.mm.vmBit 0 = true ∧
      HeapStep s₂ (.sysFree ⟨0xc1000408, 900⟩) s₃ ∧
      s₃.mm.vmBit 0 = false ∧ s₃.mm.poolBit 0 = false ∧
      ∀ block, OnFreeList s₃ 6 block → ¬ OnPage 0 block := by
  have computed := sysMalloc_both
  simp only [Call.bind_eq_ok_iff, Call.pure_eq_ok, Except.ok.injEq,
    List.cons.injEq, and_true] at computed
  obtain ⟨mm, booted, ⟨_, mm₁⟩, first, ⟨_, mm₂⟩, second, rfl, rfl⟩ := computed
  have run₁ := (Run.start.next
    (@HeapStep.granted ⟨mm, []⟩ _ _ _ (by decide) (by decide) first)).next
      (HeapStep.granted (by decide) (by decide) second)
  obtain ⟨s₂, freed⟩ := (heap_accounts coldMm_kernelBoot (by decide) booted
    run₁).2.1 ⟨0xc1000008, 1000⟩ (by simp)
  have live : s₂.live = [⟨0xc1000408, 900⟩] := by
    cases freed with
    | sysFree _ _ => rfl
  have run₂ := run₁.next freed
  have class₆ : IsClassOf 6 900 := ⟨by decide, by decide, by decide⟩
  have onPage : OnPage 0 0xc1000408 := by decide
  have accounts := heap_accounts coldMm_kernelBoot (by decide) booted run₂
  obtain ⟨_, _, _, arena⟩ := accounts.1 6 (by decide)
  have marked := (arena 0
    ⟨⟨0xc1000408, 900⟩, by simp [live], class₆, onPage⟩).2.2.2
  obtain ⟨s₃, emptied⟩ := accounts.2.1 ⟨0xc1000408, 900⟩ (by simp [live])
  have none : s₃.live = [] := by
    cases emptied with
    | sysFree _ _ => simp [live]
  obtain ⟨given, off⟩ := accounts.2.2 _ s₃ emptied 0 6 class₆ onPage
  have clear := given.mpr (by simp [none])
  exact ⟨mm, _, _, s₂, s₃, booted, run₁, rfl, freed, marked, emptied, clear.1,
    clear.2, off clear.1 6 (by decide)⟩

end Simos
