import Simos.Mm.HeapCells

/-!
# The shape of the heap

`HeapGhost` says what each page is used for and lists the free blocks of each
descriptor.  Three predicates tie it to the regions held by clients, to the
page bitmaps and to the memory; `HeapShape` is their conjunction.
-/

namespace Simos

open Simos.Library LinkHeap

/-- The use of a page: the first page of an arena, a later page of a large
one, or none. -/
inductive PageKind where
  | unused
  | small (cls : Nat)
  | large (count : Nat)
  | body
  deriving DecidableEq

def PageKind.IsHead : PageKind → Prop
  | small _ => True
  | large _ => True
  | unused => False
  | body => False

/-- A region that `sys_malloc` returned, with the size asked for. -/
structure Region where
  start : Nat
  size : Nat
  deriving DecidableEq

/-- The uses of the pages and the free blocks of each class. -/
structure HeapGhost where
  kind : Nat → PageKind
  free : Nat → List Nat

def HeapGhost.freeCount (g : HeapGhost) (cls page : Nat) : Nat :=
  (g.free cls).countP (fun block => decide (OnPage page block))

/-- The class is the first one whose blocks hold `size` bytes. -/
def IsClassOf (cls size : Nat) : Prop :=
  cls < memDescCnt ∧ size ≤ classSize cls ∧
    ∀ smaller, smaller < cls → classSize smaller < size

structure SmallAt (g : HeapGhost) (region : Region) (page cls index : Nat) :
    Prop where
  kind : g.kind page = .small cls
  inside : index < classBlocks cls
  start : region.start = slotAddr page cls index
  class_of : IsClassOf cls region.size
  taken : region.start ∉ g.free cls

structure LargeAt (g : HeapGhost) (region : Region) (page count : Nat) :
    Prop where
  kind : g.kind page = .large count
  start : region.start = pageAddr page + arenaSize
  room : region.size + arenaSize ≤ pageSize * count
  large : 1024 < region.size

/-- Arenas, free blocks and the regions of the clients fit together. -/
structure BlocksShape (g : HeapGhost) (live : List Region) : Prop where
  classes : ∀ page cls, g.kind page = .small cls → cls < memDescCnt
  below : ∀ page, g.kind page ≠ .unused → page < 257024
  tails : ∀ page count, g.kind page = .large count →
    1 ≤ count ∧
      ∀ later, page < later → later < page + count → g.kind later = .body
  freeSlots : ∀ cls, cls < memDescCnt → ∀ block, block ∈ g.free cls →
    ∃ page index, g.kind page = .small cls ∧ index < classBlocks cls ∧
      block = slotAddr page cls index
  regions : ∀ region, region ∈ live →
    0 < region.size ∧
      ((∃ page cls index, SmallAt g region page cls index) ∨
        ∃ page count, LargeAt g region page count)
  starts : (live.map Region.start).Nodup
  covered : ∀ page cls, g.kind page = .small cls →
    ∀ index, index < classBlocks cls →
      slotAddr page cls index ∈ g.free cls ∨
        ∃ region ∈ live, region.start = slotAddr page cls index
  owned : ∀ page count, g.kind page = .large count →
    ∃ region ∈ live, region.start = pageAddr page + arenaSize

def HeaderShape (g : HeapGhost) (descArray : Nat) (memory : ByteMemory)
    (page : Nat) : Prop :=
  match g.kind page with
  | .small cls =>
      arenaDesc memory (pageAddr page) = descAddr descArray cls ∧
        arenaCnt memory (pageAddr page) = g.freeCount cls page
  | .large count =>
      arenaDesc memory (pageAddr page) = 0 ∧
        arenaCnt memory (pageAddr page) = count
  | .unused => True
  | .body => True

/-- The words that the heap keeps in memory. -/
structure MemoryShape (g : HeapGhost) (descArray : Nat) (memory : ByteMemory) :
    Prop where
  blockSize : ∀ cls, cls < memDescCnt →
    descBlockSize memory (descAddr descArray cls) = classSize cls
  blocksEach : ∀ cls, cls < memDescCnt →
    descBlocksEachArena memory (descAddr descArray cls) = classBlocks cls
  ring : ∀ cls, cls < memDescCnt →
    Ring memory (descFreeList (descAddr descArray cls)) (g.free cls)
  header : ∀ page, HeaderShape g descArray memory page

/-- The bitmaps mark the pages in use; the physical one marks the first page
of each arena. -/
structure PagesShape (g : HeapGhost) (s : MmState) : Prop where
  used : ∀ page, g.kind page ≠ .unused →
    page < s.kernelPages ∧ s.vmBit page = true
  heads : ∀ page, page < s.kernelPages →
    (s.poolBit page = true ↔ (g.kind page).IsHead)

/-- What no call changes. -/
structure HeapLayout (s : MmState) : Prop where
  pool : KernelPoolLayout s
  poolSize : s.kernelPool.poolSize ≤ 0x3f000000
  kernelThread : s.curTask.pdeAddr = 0
  task : s.curTask.pcb ≠ 0
  descArray : DescArrayPlaced s.kernelBlockDescArray

/-- The heap of a kernel thread that holds the regions `live`. -/
structure HeapShape (g : HeapGhost) (live : List Region) (s : MmState) :
    Prop where
  layout : HeapLayout s
  blocks : BlocksShape g live
  pages : PagesShape g s
  memory : MemoryShape g s.kernelBlockDescArray s.memory

/-- The cells that the heap keeps words in: descriptors, headers of arenas and
free blocks. -/
def IsMeta (g : HeapGhost) (descArray address : Nat) : Prop :=
  (∃ index, index < 2 * memDescCnt ∧ address = descArray + 8 * index) ∨
    (∃ page, (g.kind page).IsHead ∧ address = pageAddr page) ∨
    ∃ cls, cls < memDescCnt ∧ address ∈ g.free cls

/-! ## Addresses of descriptors and headers -/

theorem descAddr_eq (descArray cls : Nat) :
    descAddr descArray cls = descArray + 16 * cls :=
  rfl

theorem descFreeList_eq (descArray cls : Nat) :
    descFreeList (descAddr descArray cls) = descArray + 16 * cls + 8 :=
  rfl

private theorem isMeta_descAddr (g : HeapGhost) (descArray : Nat) {cls : Nat}
    (inside : cls < memDescCnt) : IsMeta g descArray (descAddr descArray cls) :=
  Or.inl ⟨2 * cls, by omega, by rw [descAddr_eq]; omega⟩

theorem isMeta_descFreeList (g : HeapGhost) (descArray : Nat) {cls : Nat}
    (inside : cls < memDescCnt) :
    IsMeta g descArray (descFreeList (descAddr descArray cls)) :=
  Or.inl ⟨2 * cls + 1, by omega, by rw [descFreeList_eq]; omega⟩

private theorem isMeta_header {g : HeapGhost} {page : Nat}
    (head : (g.kind page).IsHead) (descArray : Nat) :
    IsMeta g descArray (pageAddr page) :=
  Or.inr (Or.inl ⟨page, head, rfl⟩)

theorem isMeta_free {g : HeapGhost} {cls block : Nat}
    (inside : cls < memDescCnt) (member : block ∈ g.free cls)
    (descArray : Nat) : IsMeta g descArray block :=
  Or.inr (Or.inr ⟨cls, inside, member⟩)

theorem DescArrayPlaced.below {descArray : Nat}
    (placed : DescArrayPlaced descArray) {cls : Nat}
    (inside : cls < memDescCnt) :
    0 < descAddr descArray cls ∧ descAddr descArray cls + 16 ≤ 0xc1000000 := by
  unfold DescArrayPlaced memDescCnt memBlockDescSize at placed
  unfold memDescCnt at inside
  rw [descAddr_eq]
  unfold pageOffest kernelHeapBase at placed
  omega

theorem slotAddr_ne_pageAddr {page page' cls index : Nat}
    (inside : index < classBlocks cls) :
    slotAddr page cls index ≠ pageAddr page' := by
  intro equal
  have onPage := slotAddr_onPage page inside
  have onPage' : OnPage page' (pageAddr page') :=
    ⟨Nat.le_refl _, Nat.lt_add_of_pos_right (by decide)⟩
  have same := OnPage.unique onPage (equal ▸ onPage')
  subst same
  rw [slotAddr_eq, pageAddr_eq] at equal
  omega

namespace BlocksShape

variable {g : HeapGhost} {live : List Region}

theorem free_ge (blocks : BlocksShape g live) {cls block : Nat}
    (inside : cls < memDescCnt) (member : block ∈ g.free cls) :
    0xc1000000 ≤ block := by
  obtain ⟨page, index, _, _, rfl⟩ := blocks.freeSlots cls inside block member
  rw [slotAddr_eq]
  omega

theorem free_ne_pageAddr (blocks : BlocksShape g live) {cls block : Nat}
    (inside : cls < memDescCnt) (member : block ∈ g.free cls) (page : Nat) :
    block ≠ pageAddr page := by
  obtain ⟨page', index, _, small, rfl⟩ :=
    blocks.freeSlots cls inside block member
  exact slotAddr_ne_pageAddr small

private theorem free_class_unique (blocks : BlocksShape g live)
    {cls cls' block : Nat}
    (inside : cls < memDescCnt) (inside' : cls' < memDescCnt)
    (member : block ∈ g.free cls) (member' : block ∈ g.free cls') :
    cls = cls' := by
  obtain ⟨page, index, kind, small, equal⟩ :=
    blocks.freeSlots cls inside block member
  obtain ⟨page', index', kind', small', equal'⟩ :=
    blocks.freeSlots cls' inside' block member'
  have same := OnPage.unique (slotAddr_onPage page small)
    (equal.symm.trans equal' ▸ slotAddr_onPage page' small')
  subst same
  rw [kind] at kind'
  exact PageKind.small.inj kind'

theorem isCell_of_isMeta (blocks : BlocksShape g live) {descArray address : Nat}
    (isMeta : IsMeta g descArray address) : IsCell descArray address := by
  unfold IsCell
  rcases isMeta with desc | ⟨page, head, rfl⟩ | ⟨cls, inside, member⟩
  · exact Or.inl desc
  · have low : page < 257024 := by
      apply blocks.below page
      intro unused
      rw [unused] at head
      exact head
    right
    rw [pageAddr_eq]
    unfold kernelHeapBase selfMapBase
    omega
  · obtain ⟨page, index, kind, small, rfl⟩ :=
      blocks.freeSlots cls inside address member
    have low : page < 257024 := blocks.below page (by simp [kind])
    have aligned := slotAddr_mod page cls index
    have ends := slotAddr_end page small
    have large := classSize_ge cls
    rw [pageAddr_eq] at ends
    right
    refine ⟨?_, aligned, ?_⟩
    · rw [slotAddr_eq]
      unfold kernelHeapBase
      omega
    · unfold selfMapBase
      omega

end BlocksShape

/-- A change to one class and to some pages keeps the words of the rest. -/
theorem MemoryShape.change {g g' : HeapGhost} {live : List Region}
    {descArray : Nat} {memory memory' : ByteMemory}
    (shape : MemoryShape g descArray memory) (blocks : BlocksShape g live)
    (placed : DescArrayPlaced descArray) {cls : Nat} (inside : cls < memDescCnt)
    (changed : Nat → Prop)
    (sameFree : ∀ other, other ≠ cls → g'.free other = g.free other)
    (sameKind : ∀ page, ¬ changed page → g'.kind page = g.kind page)
    (ring : Ring memory' (descFreeList (descAddr descArray cls)) (g'.free cls))
    (kept : ∀ address, IsMeta g descArray address →
      address ∉ descFreeList (descAddr descArray cls) :: g.free cls →
      (∀ page, changed page → address ≠ pageAddr page) →
      SameCell memory memory' address)
    (headers : ∀ page, changed page → HeaderShape g' descArray memory' page)
    (counts : ∀ page, ¬ changed page → g.kind page = .small cls →
      g'.freeCount cls page = g.freeCount cls page) :
    MemoryShape g' descArray memory' := by
  have descBelow := fun {other : Nat} (low : other < memDescCnt) =>
    placed.below low
  have notFree : ∀ address, address < 0xc1000000 → address ∉ g.free cls :=
    fun address low member =>
      absurd (blocks.free_ge inside member) (by omega)
  have descKept : ∀ other, other < memDescCnt →
      SameCell memory memory' (descAddr descArray other) := by
    intro other low
    have below := descBelow low
    apply kept _ (isMeta_descAddr g descArray low)
    · intro member
      rcases List.mem_cons.mp member with equal | free
      · rw [descAddr_eq, descFreeList_eq] at equal
        omega
      · exact notFree _ (by omega) free
    · intro page _
      rw [pageAddr_eq]
      omega
  constructor
  case blockSize =>
    intro other low
    exact (descKept other low).1.trans (shape.blockSize other low)
  case blocksEach =>
    intro other low
    exact (descKept other low).2.trans (shape.blocksEach other low)
  case ring =>
    intro other low
    by_cases same : other = cls
    · subst same
      exact ring
    · rw [sameFree other same]
      have nodes : ∀ address,
          address ∈ descFreeList (descAddr descArray other) :: g.free other →
          SameCell memory memory' address := by
        intro address member
        rcases List.mem_cons.mp member with rfl | free
        · have below := descBelow low
          apply kept _ (isMeta_descFreeList g descArray low)
          · intro member
            rcases List.mem_cons.mp member with equal | free
            · rw [descFreeList_eq, descFreeList_eq] at equal
              omega
            · rw [descFreeList_eq, ← descAddr_eq] at free
              exact notFree _ (by omega) free
          · intro page _
            rw [pageAddr_eq, descFreeList_eq, ← descAddr_eq]
            omega
        · apply kept _ (isMeta_free low free descArray)
          · intro member
            rcases List.mem_cons.mp member with equal | free'
            · have below := descBelow inside
              have above := blocks.free_ge low free
              rw [equal, descFreeList_eq, ← descAddr_eq] at above
              omega
            · exact same (blocks.free_class_unique low inside free free')
          · intro page _
            exact blocks.free_ne_pageAddr low free page
      exact (shape.ring other low).congr (fun node member => (nodes node member).2)
        (fun node member => (nodes node member).1)
  case header =>
    intro page
    by_cases here : changed page
    · exact headers page here
    have header := shape.header page
    have headKept : (g.kind page).IsHead →
        SameCell memory memory' (pageAddr page) := by
      intro head
      apply kept _ (isMeta_header head descArray)
      · intro member
        rcases List.mem_cons.mp member with equal | free
        · have below := descBelow inside
          rw [pageAddr_eq, descFreeList_eq, ← descAddr_eq] at equal
          omega
        · exact blocks.free_ne_pageAddr inside free page rfl
      · intro other atOther equal
        rw [pageAddr_eq, pageAddr_eq] at equal
        have same : other = page := by omega
        exact here (same ▸ atOther)
    unfold HeaderShape at header ⊢
    rw [sameKind page here]
    cases kind : g.kind page with
    | unused => trivial
    | body => trivial
    | small other =>
        rw [kind] at header
        have same := headKept (by rw [kind]; trivial)
        refine ⟨same.1.trans header.1, (same.2.trans header.2).trans ?_⟩
        by_cases sameClass : other = cls
        · subst sameClass
          exact (counts page here kind).symm
        · unfold HeapGhost.freeCount
          rw [sameFree other sameClass]
    | large count =>
        rw [kind] at header
        have same := headKept (by rw [kind]; trivial)
        exact ⟨same.1.trans header.1, same.2.trans header.2⟩

/-! ## Units of allocation

A unit is a block of a small arena, free or not, or the room of a large arena.
Units are apart from each other and from the headers. -/

/-- The bytes from `start` on are one unit of the heap. -/
def IsUnit (g : HeapGhost) (start length : Nat) : Prop :=
  (∃ page cls index, g.kind page = .small cls ∧ index < classBlocks cls ∧
      start = slotAddr page cls index ∧ length = classSize cls) ∨
    ∃ page count, g.kind page = .large count ∧
      start = pageAddr page + arenaSize ∧
      length = pageSize * count - arenaSize

namespace BlocksShape

variable {g : HeapGhost} {live : List Region}

private theorem head_outside (blocks : BlocksShape g live)
    {page count : Nat} (other : Nat) (kind : g.kind page = .large count)
    (head : (g.kind other).IsHead) (different : other ≠ page) :
    other < page ∨ page + count ≤ other := by
  by_contra inside
  have body := (blocks.tails page count kind).2 other (by omega) (by omega)
  rw [body] at head
  exact head

theorem unit_apart_header (blocks : BlocksShape g live)
    {start length page : Nat} (isUnit : IsUnit g start length)
    (head : (g.kind page).IsHead) :
    pageAddr page + 8 ≤ start ∨ start + length ≤ pageAddr page := by
  rcases isUnit with ⟨other, cls, index, kind, small, rfl, rfl⟩ |
      ⟨other, count, kind, rfl, rfl⟩
  · have ends := slotAddr_end other small
    have low := slotAddr_eq other cls index
    rw [pageAddr_eq] at ends ⊢
    omega
  · have positive := (blocks.tails other count kind).1
    unfold arenaSize pageSize
    rw [pageAddr_eq, pageAddr_eq]
    by_cases same : page = other
    · omega
    · have outside := blocks.head_outside page kind head same
      omega

theorem units_apart (blocks : BlocksShape g live) {left right : Nat}
    {leftLength rightLength : Nat} (leftUnit : IsUnit g left leftLength)
    (rightUnit : IsUnit g right rightLength) (different : left ≠ right) :
    left + leftLength ≤ right ∨ right + rightLength ≤ left := by
  rcases leftUnit with ⟨page, cls, index, kind, small, rfl, rfl⟩ |
      ⟨page, count, kind, rfl, rfl⟩
  · have ends := slotAddr_end page small
    have low := slotAddr_eq page cls index
    rcases rightUnit with ⟨page', cls', index', kind', small', rfl, rfl⟩ |
        ⟨page', count', kind', rfl, rfl⟩
    · have ends' := slotAddr_end page' small'
      have low' := slotAddr_eq page' cls' index'
      by_cases samePage : page = page'
      · subst samePage
        rw [kind] at kind'
        obtain rfl := PageKind.small.inj kind'
        rcases Nat.lt_trichotomy index index' with less | same | greater
        · exact Or.inl (slotAddr_apart _ _ less)
        · exact absurd (by rw [same]) different
        · exact Or.inr (slotAddr_apart _ _ greater)
      · rw [pageAddr_eq] at ends ends'
        omega
    · have outside := blocks.head_outside page kind'
        (by rw [kind]; trivial) (by rintro rfl; rw [kind] at kind'; cases kind')
      have positive := (blocks.tails page' count' kind').1
      unfold arenaSize pageSize
      rw [pageAddr_eq] at ends ⊢
      omega
  · have positive := (blocks.tails page count kind).1
    rcases rightUnit with ⟨page', cls', index', kind', small', rfl, rfl⟩ |
        ⟨page', count', kind', rfl, rfl⟩
    · have ends' := slotAddr_end page' small'
      have low' := slotAddr_eq page' cls' index'
      have outside := blocks.head_outside page' kind
        (by rw [kind']; trivial)
        (by rintro rfl; rw [kind] at kind'; cases kind')
      unfold arenaSize pageSize
      rw [pageAddr_eq] at ends' ⊢
      omega
    · have positive' := (blocks.tails page' count' kind').1
      by_cases samePage : page' = page
      · subst samePage
        exact absurd rfl different
      · have outside := blocks.head_outside page' kind
          (by rw [kind']; trivial) samePage
        have outside' := blocks.head_outside page kind'
          (by rw [kind]; trivial) (Ne.symm samePage)
        unfold arenaSize pageSize
        rw [pageAddr_eq, pageAddr_eq]
        omega

theorem unit_of_free (blocks : BlocksShape g live) {cls block : Nat}
    (inside : cls < memDescCnt) (member : block ∈ g.free cls) :
    IsUnit g block (classSize cls) := by
  obtain ⟨page, index, kind, small, equal⟩ :=
    blocks.freeSlots cls inside block member
  exact Or.inl ⟨page, cls, index, kind, small, equal, rfl⟩

theorem unit_bounds (blocks : BlocksShape g live) {start length : Nat}
    (isUnit : IsUnit g start length) :
    0xc1000008 ≤ start ∧ start + length ≤ selfMapBase ∧ 8 ≤ length := by
  unfold selfMapBase
  rcases isUnit with ⟨page, cls, index, kind, small, rfl, rfl⟩ |
      ⟨page, count, kind, rfl, rfl⟩
  · have ends := slotAddr_end page small
    have low := slotAddr_eq page cls index
    have large := classSize_ge cls
    have below := blocks.below page (by simp [kind])
    rw [pageAddr_eq] at ends
    omega
  · obtain ⟨positive, tails⟩ := blocks.tails page count kind
    have lastBelow : page + count - 1 < 257024 := by
      by_cases single : count = 1
      · subst single
        exact blocks.below page (by simp [kind])
      · apply blocks.below
        rw [tails (page + count - 1) (by omega) (by omega)]
        simp
    unfold arenaSize pageSize
    rw [pageAddr_eq]
    omega

/-- The cells of the heap stay out of a unit, but for the one at its start. -/
theorem meta_apart_unit (blocks : BlocksShape g live) {descArray : Nat}
    (placed : DescArrayPlaced descArray) {start length address : Nat}
    (isUnit : IsUnit g start length) (isMeta : IsMeta g descArray address)
    (different : address ≠ start) :
    address + 8 ≤ start ∨ start + length ≤ address := by
  have bounds := blocks.unit_bounds isUnit
  rcases isMeta with ⟨index, inside, rfl⟩ | ⟨page, head, rfl⟩ |
      ⟨cls, inside, member⟩
  · unfold DescArrayPlaced memDescCnt memBlockDescSize kernelHeapBase at placed
    unfold memDescCnt at inside
    omega
  · exact blocks.unit_apart_header isUnit head
  · have freeUnit := blocks.unit_of_free inside member
    have apart := blocks.units_apart freeUnit isUnit different
    have long := (blocks.unit_bounds freeUnit).2.2
    omega

theorem not_isMeta_of_unit (blocks : BlocksShape g live) {descArray : Nat}
    (placed : DescArrayPlaced descArray) {start length : Nat}
    (isUnit : IsUnit g start length)
    (notFree : ∀ cls, cls < memDescCnt → start ∉ g.free cls) :
    ¬ IsMeta g descArray start := by
  have bounds := blocks.unit_bounds isUnit
  rintro (⟨index, inside, equal⟩ | ⟨page, head, equal⟩ | ⟨cls, inside, member⟩)
  · unfold DescArrayPlaced memDescCnt memBlockDescSize kernelHeapBase at placed
    unfold memDescCnt at inside
    omega
  · have apart := blocks.unit_apart_header isUnit head
    omega
  · exact notFree cls inside member

theorem meta_outside_unused (blocks : BlocksShape g live) {descArray : Nat}
    (placed : DescArrayPlaced descArray) {page count address : Nat}
    (unused : ∀ other, page ≤ other → other < page + count →
      g.kind other = .unused)
    (isMeta : IsMeta g descArray address) :
    address + 8 ≤ pageAddr page ∨
      pageAddr page + pageSize * count ≤ address := by
  unfold pageSize
  rw [pageAddr_eq]
  have usedOutside : ∀ other, g.kind other ≠ .unused →
      other < page ∨ page + count ≤ other := by
    intro other used
    by_contra inside
    exact used (unused other (by omega) (by omega))
  rcases isMeta with ⟨index, inside, rfl⟩ | ⟨other, head, rfl⟩ |
      ⟨cls, inside, member⟩
  · unfold DescArrayPlaced memDescCnt memBlockDescSize kernelHeapBase at placed
    unfold memDescCnt at inside
    omega
  · have outside := usedOutside other (by rintro same; rw [same] at head; exact head)
    rw [pageAddr_eq]
    omega
  · obtain ⟨other, index, kind, small, rfl⟩ :=
      blocks.freeSlots cls inside address member
    have outside := usedOutside other (by simp [kind])
    have ends := slotAddr_end other small
    have large := classSize_ge cls
    have low := slotAddr_eq other cls index
    rw [pageAddr_eq] at ends
    omega

/-- The region lies inside a unit that starts with it and is not free. -/
theorem unit_of_region (blocks : BlocksShape g live) {region : Region}
    (member : region ∈ live) :
    ∃ length, IsUnit g region.start length ∧ region.size ≤ length ∧
      ∀ cls, cls < memDescCnt → region.start ∉ g.free cls := by
  rcases (blocks.regions region member).2 with
    ⟨page, cls, index, site⟩ | ⟨page, count, site⟩
  · refine ⟨classSize cls,
      Or.inl ⟨page, cls, index, site.kind, site.inside, site.start, rfl⟩,
      site.class_of.2.1, ?_⟩
    intro other inside free
    obtain ⟨page', index', kind', small', equal⟩ :=
      blocks.freeSlots other inside _ free
    have onPage := slotAddr_onPage page site.inside
    rw [← site.start, equal] at onPage
    have same := OnPage.unique (slotAddr_onPage page' small') onPage
    subst same
    rw [site.kind] at kind'
    obtain rfl := PageKind.small.inj kind'
    exact site.taken free
  · have room := site.room
    refine ⟨pageSize * count - arenaSize,
      Or.inr ⟨page, count, site.kind, site.start, rfl⟩, by omega, ?_⟩
    intro other inside free
    obtain ⟨page', index', kind', small', equal⟩ :=
      blocks.freeSlots other inside _ free
    have onPage := slotAddr_onPage page' small'
    have onPage' : OnPage page region.start := by
      rw [site.start]
      unfold OnPage arenaSize pageSize
      omega
    have same := OnPage.unique onPage (equal ▸ onPage')
    subst same
    rw [site.kind] at kind'
    cases kind'

end BlocksShape

/-- A change of pages that leaves the free lists alone keeps the words of the
rest. -/
theorem MemoryShape.keep {g g' : HeapGhost} {live : List Region}
    {descArray : Nat} {memory memory' : ByteMemory}
    (shape : MemoryShape g descArray memory) (blocks : BlocksShape g live)
    (placed : DescArrayPlaced descArray) (changed : Nat → Prop)
    (sameFree : g'.free = g.free)
    (sameKind : ∀ page, ¬ changed page → g'.kind page = g.kind page)
    (kept : ∀ address, IsMeta g descArray address →
      (∀ page, changed page → address ≠ pageAddr page) →
      SameCell memory memory' address)
    (headers : ∀ page, changed page → HeaderShape g' descArray memory' page) :
    MemoryShape g' descArray memory' := by
  have first : 0 < memDescCnt := by decide
  have onRing : ∀ address,
      address ∈ descFreeList (descAddr descArray 0) :: g.free 0 →
      SameCell memory memory' address := by
    intro address member
    rcases List.mem_cons.mp member with rfl | free
    · apply kept _ (isMeta_descFreeList g descArray first)
      intro page _
      have below := placed.below first
      rw [pageAddr_eq, descFreeList_eq, ← descAddr_eq]
      omega
    · apply kept _ (isMeta_free first free descArray)
      intro page _
      exact blocks.free_ne_pageAddr first free page
  have ring : Ring memory' (descFreeList (descAddr descArray 0)) (g'.free 0) := by
    rw [sameFree]
    exact (shape.ring 0 first).congr
      (fun node member => (onRing node member).2)
      (fun node member => (onRing node member).1)
  refine shape.change blocks placed first changed
    (fun other _ => by rw [sameFree]) sameKind ring
    (fun address isMeta _ => kept address isMeta) headers ?_
  intro page _ _
  unfold HeapGhost.freeCount
  rw [sameFree]

end Simos
