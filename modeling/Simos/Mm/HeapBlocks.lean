import Simos.Mm.HeapShape
import Mathlib.Data.List.Nodup

/-!
# Changes of the blocks of the heap

Each step of `sys_malloc` and `sys_free` is a change of `HeapGhost` and of the
list of live regions.  The theorems say that the changes keep `BlocksShape`;
the bitmaps and the memory are not mentioned.
-/

namespace Simos

def slots (page cls : Nat) : List Nat :=
  (List.range (classBlocks cls)).map (slotAddr page cls)

theorem mem_slots {page cls block : Nat} :
    block ∈ slots page cls ↔
      ∃ index, index < classBlocks cls ∧ block = slotAddr page cls index := by
  simp [slots, eq_comm]

theorem nodup_slots (page cls : Nat) : (slots page cls).Nodup :=
  List.nodup_range.map fun _ _ equal => slotAddr_injective equal

theorem onPage_of_mem_slots {page cls block : Nat}
    (member : block ∈ slots page cls) : OnPage page block := by
  obtain ⟨index, inside, rfl⟩ := mem_slots.mp member
  exact slotAddr_onPage page inside

namespace HeapGhost

def withLarge (g : HeapGhost) (page count : Nat) : HeapGhost where
  kind other :=
    if other = page then .large count
    else if page < other ∧ other < page + count then .body
    else g.kind other
  free := g.free

/-- A new small arena, all of whose blocks are free. -/
def withSmall (g : HeapGhost) (page cls : Nat) : HeapGhost where
  kind other := if other = page then .small cls else g.kind other
  free other := if other = cls then slots page cls else g.free other

def withFree (g : HeapGhost) (cls : Nat) (blocks : List Nat) : HeapGhost where
  kind := g.kind
  free other := if other = cls then blocks else g.free other

def withoutPages (g : HeapGhost) (page count : Nat) : HeapGhost where
  kind other :=
    if page ≤ other ∧ other < page + count then .unused else g.kind other
  free := g.free

end HeapGhost

/-- A region stays at its place when its page and the free list do. -/
theorem SmallAt.transfer {g g' : HeapGhost} {region : Region}
    {page cls index : Nat} (site : SmallAt g region page cls index)
    (kind : g'.kind page = g.kind page)
    (taken : region.start ∉ g'.free cls) :
    SmallAt g' region page cls index :=
  ⟨kind.trans site.kind, site.inside, site.start, site.class_of, taken⟩

private theorem LargeAt.transfer {g g' : HeapGhost} {region : Region}
    {page count : Nat} (site : LargeAt g region page count)
    (kind : g'.kind page = g.kind page) : LargeAt g' region page count :=
  ⟨kind.trans site.kind, site.start, site.room, site.large⟩

theorem SmallAt.onPage {g : HeapGhost} {region : Region}
    {page cls index : Nat} (site : SmallAt g region page cls index) :
    OnPage page region.start :=
  site.start ▸ slotAddr_onPage page site.inside

private theorem onPage_large (page : Nat) :
    OnPage page (pageAddr page + arenaSize) := by
  unfold OnPage arenaSize pageSize
  omega

theorem LargeAt.onPage {g : HeapGhost} {region : Region} {page count : Nat}
    (site : LargeAt g region page count) : OnPage page region.start :=
  site.start ▸ onPage_large page

namespace BlocksShape

variable {g : HeapGhost} {live : List Region}

theorem region_page (blocks : BlocksShape g live) {region : Region}
    (member : region ∈ live) :
    ∃ page, OnPage page region.start ∧ (g.kind page).IsHead := by
  rcases (blocks.regions region member).2 with
    ⟨page, cls, index, site⟩ | ⟨page, count, site⟩
  · exact ⟨page, site.onPage, by rw [site.kind]; trivial⟩
  · exact ⟨page, site.onPage, by rw [site.kind]; trivial⟩

theorem no_region_on (blocks : BlocksShape g live) {page : Nat}
    (notHead : ¬ (g.kind page).IsHead) {region : Region}
    (member : region ∈ live) : ¬ OnPage page region.start := by
  intro onPage
  obtain ⟨other, onOther, head⟩ := blocks.region_page member
  exact notHead (OnPage.unique onOther onPage ▸ head)

private theorem region_unique (blocks : BlocksShape g live)
    {left right : Region}
    (leftMember : left ∈ live) (rightMember : right ∈ live)
    (same : left.start = right.start) : left = right :=
  List.inj_on_of_nodup_map blocks.starts leftMember rightMember same

private theorem start_ne_of_mem_erase (blocks : BlocksShape g live)
    {region other : Region} (member : region ∈ live)
    (rest : other ∈ live.erase region) : other.start ≠ region.start := by
  have nodup : live.Nodup := blocks.starts.of_map
  intro same
  have equal := blocks.region_unique (List.mem_of_mem_erase rest) member same
  exact nodup.not_mem_erase (equal ▸ rest)

private theorem starts_erase (blocks : BlocksShape g live) (region : Region) :
    ((live.erase region).map Region.start).Nodup :=
  blocks.starts.sublist (List.erase_sublist.map Region.start)

theorem largeAdded (blocks : BlocksShape g live) {page count size : Nat}
    (positive : 1 ≤ count) (below : page + count ≤ 257024)
    (unused : ∀ other, page ≤ other → other < page + count →
      g.kind other = .unused)
    (large : 1024 < size) (room : size + arenaSize ≤ pageSize * count) :
    BlocksShape (g.withLarge page count)
      (⟨pageAddr page + arenaSize, size⟩ :: live) := by
  have here := unused page (Nat.le_refl _) (by omega)
  have sameKind : ∀ other, g.kind other ≠ .unused →
      (g.withLarge page count).kind other = g.kind other := by
    intro other used
    have outside : ¬ (page ≤ other ∧ other < page + count) := by
      rintro ⟨lower, upper⟩
      exact used (unused other lower upper)
    simp only [HeapGhost.withLarge]
    rw [if_neg (by omega), if_neg (by omega)]
  have fromOld : ∀ other kind, (g.withLarge page count).kind other = kind →
      other ≠ page → kind ≠ .body → g.kind other = kind := by
    intro other kind equal notPage notBody
    simp only [HeapGhost.withLarge, if_neg notPage] at equal
    split at equal
    · exact absurd equal.symm notBody
    · exact equal
  constructor
  case classes =>
    intro other cls kind
    by_cases same : other = page
    · simp [HeapGhost.withLarge, same] at kind
    · exact blocks.classes other cls (fromOld other _ kind same (by simp))
  case below =>
    intro other used
    by_cases inside : page ≤ other ∧ other < page + count
    · omega
    · apply blocks.below other
      intro old
      simp only [HeapGhost.withLarge] at used
      rw [if_neg (by omega), if_neg (by omega)] at used
      exact used old
  case tails =>
    intro other count' kind
    by_cases same : other = page
    · subst same
      simp only [HeapGhost.withLarge, if_true, PageKind.large.injEq] at kind
      subst kind
      refine ⟨positive, fun later lower upper => ?_⟩
      simp only [HeapGhost.withLarge]
      rw [if_neg (by omega), if_pos ⟨lower, upper⟩]
    · have old := blocks.tails other count' (fromOld other _ kind same (by simp))
      refine ⟨old.1, fun later lower upper => ?_⟩
      have body := old.2 later lower upper
      rw [sameKind later (by simp [body]), body]
  case freeSlots =>
    intro cls inside block member
    obtain ⟨other, index, kind, small, equal⟩ :=
      blocks.freeSlots cls inside block member
    exact ⟨other, index, (sameKind other (by simp [kind])).trans kind, small,
      equal⟩
  case regions =>
    intro region member
    rcases List.mem_cons.mp member with rfl | old
    · refine ⟨Nat.lt_trans (by decide) large, Or.inr ⟨page, count, ?_⟩⟩
      exact ⟨by simp [HeapGhost.withLarge], rfl, room, large⟩
    · obtain ⟨sized, places⟩ := blocks.regions region old
      refine ⟨sized, ?_⟩
      rcases places with ⟨other, cls, index, site⟩ | ⟨other, count', site⟩
      · exact Or.inl ⟨other, cls, index,
          site.transfer (sameKind other (by simp [site.kind])) site.taken⟩
      · exact Or.inr ⟨other, count',
          site.transfer (sameKind other (by simp [site.kind]))⟩
  case starts =>
    refine List.nodup_cons.mpr ⟨?_, blocks.starts⟩
    intro member
    obtain ⟨region, old, equal⟩ := List.mem_map.mp member
    have notHead : ¬ (g.kind page).IsHead := by simp [here, PageKind.IsHead]
    apply blocks.no_region_on notHead old
    rw [equal]
    exact onPage_large page
  case covered =>
    intro other cls kind index small
    have notPage : other ≠ page := by
      rintro rfl
      simp [HeapGhost.withLarge] at kind
    rcases blocks.covered other cls (fromOld other _ kind notPage (by simp))
        index small with free | ⟨region, old, equal⟩
    · exact Or.inl free
    · exact Or.inr ⟨region, List.mem_cons_of_mem _ old, equal⟩
  case owned =>
    intro other count' kind
    by_cases same : other = page
    · exact ⟨_, List.mem_cons_self, by rw [same]⟩
    · obtain ⟨region, old, equal⟩ :=
        blocks.owned other count' (fromOld other _ kind same (by simp))
      exact ⟨region, List.mem_cons_of_mem _ old, equal⟩

theorem smallAdded (blocks : BlocksShape g live) {page cls : Nat}
    (inside : cls < memDescCnt) (below : page < 257024)
    (unused : g.kind page = .unused) (empty : g.free cls = []) :
    BlocksShape (g.withSmall page cls) live := by
  have sameKind : ∀ other, g.kind other ≠ .unused →
      (g.withSmall page cls).kind other = g.kind other := by
    intro other used
    have notPage : other ≠ page := by
      rintro rfl
      exact used unused
    simp [HeapGhost.withSmall, notPage]
  have fromOld : ∀ other, other ≠ page →
      (g.withSmall page cls).kind other = g.kind other := by
    intro other notPage
    simp [HeapGhost.withSmall, notPage]
  have notHere : ∀ region ∈ live, region.start ∉ slots page cls := by
    intro region member slot
    exact blocks.no_region_on (by simp [unused, PageKind.IsHead]) member
      (onPage_of_mem_slots slot)
  constructor
  case classes =>
    intro other cls' kind
    by_cases same : other = page
    · simp only [HeapGhost.withSmall, if_pos same, PageKind.small.injEq] at kind
      rw [← kind]
      exact inside
    · rw [fromOld other same] at kind
      exact blocks.classes other cls' kind
  case below =>
    intro other used
    by_cases same : other = page
    · omega
    · rw [fromOld other same] at used
      exact blocks.below other used
  case tails =>
    intro other count kind
    have notPage : other ≠ page := by
      rintro rfl
      simp [HeapGhost.withSmall] at kind
    rw [fromOld other notPage] at kind
    have old := blocks.tails other count kind
    refine ⟨old.1, fun later lower upper => ?_⟩
    have body := old.2 later lower upper
    rw [sameKind later (by simp [body]), body]
  case freeSlots =>
    intro cls' inside' block member
    by_cases same : cls' = cls
    · subst same
      simp only [HeapGhost.withSmall, if_true] at member
      obtain ⟨index, small, equal⟩ := mem_slots.mp member
      exact ⟨page, index, by simp [HeapGhost.withSmall], small, equal⟩
    · simp only [HeapGhost.withSmall, if_neg same] at member
      obtain ⟨other, index, kind, small, equal⟩ :=
        blocks.freeSlots cls' inside' block member
      exact ⟨other, index, (sameKind other (by simp [kind])).trans kind, small,
        equal⟩
  case regions =>
    intro region member
    obtain ⟨sized, places⟩ := blocks.regions region member
    refine ⟨sized, ?_⟩
    rcases places with ⟨other, cls', index, site⟩ | ⟨other, count, site⟩
    · refine Or.inl ⟨other, cls', index,
        site.transfer (sameKind other (by simp [site.kind])) ?_⟩
      simp only [HeapGhost.withSmall]
      split
      · exact notHere region member
      · exact site.taken
    · exact Or.inr ⟨other, count,
        site.transfer (sameKind other (by simp [site.kind]))⟩
  case starts =>
    exact blocks.starts
  case covered =>
    intro other cls' kind index small
    by_cases same : other = page
    · subst same
      simp only [HeapGhost.withSmall, if_true, PageKind.small.injEq] at kind
      subst kind
      left
      simp only [HeapGhost.withSmall, if_true]
      exact mem_slots.mpr ⟨index, small, rfl⟩
    · rw [fromOld other same] at kind
      rcases blocks.covered other cls' kind index small with free | region
      · left
        simp only [HeapGhost.withSmall]
        split
        · rename_i sameClass
          rw [sameClass, empty] at free
          simp at free
        · exact free
      · exact Or.inr region
  case owned =>
    intro other count kind
    have notPage : other ≠ page := by
      rintro rfl
      simp [HeapGhost.withSmall] at kind
    rw [fromOld other notPage] at kind
    exact blocks.owned other count kind

theorem popped (blocks : BlocksShape g live) {cls block size : Nat}
    {rest : List Nat} (isClass : IsClassOf cls size) (positive : 0 < size)
    (free : g.free cls = block :: rest) (nodup : (block :: rest).Nodup) :
    BlocksShape (g.withFree cls rest) (⟨block, size⟩ :: live) := by
  have member : block ∈ g.free cls := by simp [free]
  have smaller : ∀ other cell, cell ∈ (g.withFree cls rest).free other →
      cell ∈ g.free other := by
    intro other cell inRest
    simp only [HeapGhost.withFree] at inRest
    split at inRest
    · rename_i same
      rw [same, free]
      exact List.mem_cons_of_mem _ inRest
    · exact inRest
  obtain ⟨page, index, kind, small, equal⟩ :=
    blocks.freeSlots cls isClass.1 block member
  constructor
  case classes =>
    exact blocks.classes
  case below =>
    exact blocks.below
  case tails =>
    exact blocks.tails
  case freeSlots =>
    intro other inside cell inFree
    exact blocks.freeSlots other inside cell (smaller other cell inFree)
  case regions =>
    intro region inLive
    rcases List.mem_cons.mp inLive with rfl | old
    · refine ⟨positive, Or.inl ⟨page, cls, index, kind, small, equal, isClass, ?_⟩⟩
      simp only [HeapGhost.withFree, if_true]
      exact (List.nodup_cons.mp nodup).1
    · obtain ⟨sized, places⟩ := blocks.regions region old
      refine ⟨sized, ?_⟩
      rcases places with ⟨other, cls', index', site⟩ | ⟨other, count, site⟩
      · exact Or.inl ⟨other, cls', index', site.transfer rfl
          fun inFree => site.taken (smaller cls' _ inFree)⟩
      · exact Or.inr ⟨other, count, site.transfer rfl⟩
  case starts =>
    refine List.nodup_cons.mpr ⟨?_, blocks.starts⟩
    intro inStarts
    obtain ⟨region, old, same⟩ := List.mem_map.mp inStarts
    obtain ⟨length, _, _, notFree⟩ := blocks.unit_of_region old
    apply notFree cls isClass.1
    rw [same]
    exact member
  case covered =>
    intro other cls' kind' index' small'
    rcases blocks.covered other cls' kind' index' small' with
      inFree | ⟨region, old, same⟩
    · by_cases sameClass : cls' = cls
      · subst sameClass
        rw [free] at inFree
        rcases List.mem_cons.mp inFree with first | inRest
        · exact Or.inr ⟨_, List.mem_cons_self, first.symm⟩
        · left
          simp only [HeapGhost.withFree, if_true]
          exact inRest
      · left
        simp only [HeapGhost.withFree, if_neg sameClass]
        exact inFree
    · exact Or.inr ⟨region, List.mem_cons_of_mem _ old, same⟩
  case owned =>
    intro other count kind'
    obtain ⟨region, old, same⟩ := blocks.owned other count kind'
    exact ⟨region, List.mem_cons_of_mem _ old, same⟩

theorem pushed (blocks : BlocksShape g live) {region : Region}
    {page cls index : Nat} (member : region ∈ live)
    (site : SmallAt g region page cls index) :
    BlocksShape (g.withFree cls (g.free cls ++ [region.start]))
      (live.erase region) := by
  have free_iff : ∀ other cell,
      cell ∈ (g.withFree cls (g.free cls ++ [region.start])).free other ↔
        cell ∈ g.free other ∨ (other = cls ∧ cell = region.start) := by
    intro other cell
    simp only [HeapGhost.withFree]
    split
    · rename_i same
      subst same
      simp
    · rename_i different
      simp [different]
  constructor
  case classes =>
    exact blocks.classes
  case below =>
    exact blocks.below
  case tails =>
    exact blocks.tails
  case freeSlots =>
    intro other inside cell inFree
    rcases (free_iff other cell).mp inFree with old | ⟨rfl, rfl⟩
    · exact blocks.freeSlots other inside cell old
    · exact ⟨page, index, site.kind, site.inside, site.start⟩
  case regions =>
    intro other rest
    have notStart := blocks.start_ne_of_mem_erase member rest
    obtain ⟨sized, places⟩ := blocks.regions other (List.mem_of_mem_erase rest)
    refine ⟨sized, ?_⟩
    rcases places with ⟨page', cls', index', site'⟩ | ⟨page', count, site'⟩
    · refine Or.inl ⟨page', cls', index', site'.transfer rfl fun inFree => ?_⟩
      rcases (free_iff cls' _).mp inFree with old | ⟨_, same⟩
      · exact site'.taken old
      · exact notStart same
    · exact Or.inr ⟨page', count, site'.transfer rfl⟩
  case starts =>
    exact blocks.starts_erase region
  case covered =>
    intro page' cls' kind' index' small'
    rcases blocks.covered page' cls' kind' index' small' with
      old | ⟨other, inLive, same⟩
    · exact Or.inl ((free_iff cls' _).mpr (Or.inl old))
    · by_cases given : other = region
      · subst given
        have onPage := site.onPage
        rw [same] at onPage
        have samePage := OnPage.unique (slotAddr_onPage page' small') onPage
        subst samePage
        have sameKind := kind'.symm.trans site.kind
        obtain rfl := PageKind.small.inj sameKind
        exact Or.inl ((free_iff cls' _).mpr (Or.inr ⟨rfl, same.symm⟩))
      · exact Or.inr ⟨other, (List.mem_erase_of_ne given).mpr inLive, same⟩
  case owned =>
    intro page' count kind'
    obtain ⟨other, inLive, same⟩ := blocks.owned page' count kind'
    have given : other ≠ region := by
      rintro rfl
      have onPage := site.onPage
      rw [same] at onPage
      have samePage := OnPage.unique (onPage_large page') onPage
      subst samePage
      have sameKind := kind'.symm.trans site.kind
      cases sameKind
    exact ⟨other, (List.mem_erase_of_ne given).mpr inLive, same⟩

theorem reclaimed (blocks : BlocksShape g live) {page cls : Nat}
    {left : List Nat} (kind : g.kind page = .small cls)
    (allFree : ∀ index, index < classBlocks cls →
      slotAddr page cls index ∈ g.free cls)
    (left_iff : ∀ block, block ∈ left ↔
      block ∈ g.free cls ∧ block ∉ slots page cls) :
    BlocksShape ((g.withFree cls left).withoutPages page 1) live := by
  have sameKind : ∀ other, other ≠ page →
      ((g.withFree cls left).withoutPages page 1).kind other =
        g.kind other := by
    intro other notPage
    simp only [HeapGhost.withoutPages, HeapGhost.withFree]
    rw [if_neg (by omega)]
  have gone : ((g.withFree cls left).withoutPages page 1).kind page =
      .unused := by
    simp [HeapGhost.withoutPages]
  have free_iff : ∀ other block,
      block ∈ ((g.withFree cls left).withoutPages page 1).free other ↔
        block ∈ g.free other ∧ (other = cls → block ∉ slots page cls) := by
    intro other block
    simp only [HeapGhost.withoutPages, HeapGhost.withFree]
    split
    · rename_i same
      subst same
      simp [left_iff]
    · rename_i different
      simp [different]
  have sameSlot : ∀ other index, index < classBlocks cls → other ≠ page →
      slotAddr other cls index ∉ slots page cls := by
    intro other index small notPage slot
    exact notPage
      (OnPage.unique (slotAddr_onPage other small) (onPage_of_mem_slots slot))
  constructor
  case classes =>
    intro other cls' kind'
    by_cases same : other = page
    · rw [same, gone] at kind'
      cases kind'
    · rw [sameKind other same] at kind'
      exact blocks.classes other cls' kind'
  case below =>
    intro other used
    by_cases same : other = page
    · exact absurd (same ▸ gone) used
    · rw [sameKind other same] at used
      exact blocks.below other used
  case tails =>
    intro other count kind'
    have notPage : other ≠ page := by
      rintro rfl
      rw [gone] at kind'
      cases kind'
    rw [sameKind other notPage] at kind'
    have old := blocks.tails other count kind'
    refine ⟨old.1, fun later lower upper => ?_⟩
    have body := old.2 later lower upper
    have notLater : later ≠ page := by
      rintro rfl
      rw [kind] at body
      cases body
    rw [sameKind later notLater, body]
  case freeSlots =>
    intro cls' inside block member
    obtain ⟨inFree, notSlot⟩ := (free_iff cls' block).mp member
    obtain ⟨other, index, kind', small, equal⟩ :=
      blocks.freeSlots cls' inside block inFree
    have notPage : other ≠ page := by
      rintro rfl
      have sameClass := PageKind.small.inj (kind'.symm.trans kind)
      subst sameClass
      exact notSlot rfl (mem_slots.mpr ⟨index, small, equal⟩)
    exact ⟨other, index, (sameKind other notPage).trans kind', small, equal⟩
  case regions =>
    intro region member
    obtain ⟨sized, places⟩ := blocks.regions region member
    refine ⟨sized, ?_⟩
    rcases places with ⟨other, cls', index, site⟩ | ⟨other, count, site⟩
    · have notPage : other ≠ page := by
        rintro rfl
        have sameClass := PageKind.small.inj (site.kind.symm.trans kind)
        subst sameClass
        apply site.taken
        rw [site.start]
        exact allFree index site.inside
      exact Or.inl ⟨other, cls', index, site.transfer (sameKind other notPage)
        fun inFree => site.taken ((free_iff cls' _).mp inFree).1⟩
    · have notPage : other ≠ page := by
        rintro rfl
        have different := site.kind.symm.trans kind
        cases different
      exact Or.inr ⟨other, count, site.transfer (sameKind other notPage)⟩
  case starts =>
    exact blocks.starts
  case covered =>
    intro other cls' kind' index small
    have notPage : other ≠ page := by
      rintro rfl
      rw [gone] at kind'
      cases kind'
    rw [sameKind other notPage] at kind'
    rcases blocks.covered other cls' kind' index small with inFree | region
    · refine Or.inl ((free_iff cls' _).mpr ⟨inFree, ?_⟩)
      rintro rfl
      exact sameSlot other index small notPage
    · exact Or.inr region
  case owned =>
    intro other count kind'
    have notPage : other ≠ page := by
      rintro rfl
      rw [gone] at kind'
      cases kind'
    rw [sameKind other notPage] at kind'
    exact blocks.owned other count kind'

theorem largeRemoved (blocks : BlocksShape g live) {region : Region}
    {page count : Nat} (member : region ∈ live)
    (site : LargeAt g region page count) :
    BlocksShape (g.withoutPages page count) (live.erase region) := by
  obtain ⟨positive, bodies⟩ := blocks.tails page count site.kind
  have outside : ∀ other, (g.kind other).IsHead → other ≠ page →
      ¬ (page ≤ other ∧ other < page + count) := by
    rintro other head notPage ⟨lower, upper⟩
    have body := bodies other (by omega) upper
    rw [body] at head
    exact head
  have keptKind : ∀ other, ¬ (page ≤ other ∧ other < page + count) →
      (g.withoutPages page count).kind other = g.kind other := by
    intro other notHere
    simp only [HeapGhost.withoutPages, if_neg notHere]
  have fromNew : ∀ other, (g.withoutPages page count).kind other ≠ .unused →
      ¬ (page ≤ other ∧ other < page + count) := by
    intro other used here
    simp [HeapGhost.withoutPages, here] at used
  have notGiven : ∀ other, other ∈ live → ¬ OnPage page other.start →
      other ∈ live.erase region := by
    intro other inLive notHere
    apply (List.mem_erase_of_ne _).mpr inLive
    rintro rfl
    exact notHere site.onPage
  constructor
  case classes =>
    intro other cls kind
    rw [keptKind other (fromNew other (by simp [kind]))] at kind
    exact blocks.classes other cls kind
  case below =>
    intro other used
    rw [keptKind other (fromNew other used)] at used
    exact blocks.below other used
  case tails =>
    intro other count' kind
    have notHere := fromNew other (by simp [kind])
    rw [keptKind other notHere] at kind
    have old := blocks.tails other count' kind
    refine ⟨old.1, fun later lower upper => ?_⟩
    have body := old.2 later lower upper
    rw [keptKind later ?_, body]
    rintro ⟨lower', upper'⟩
    -- the later page would put one of the two arenas inside the other
    have apart : page < other ∨ other + count' ≤ page := by
      by_contra crossing
      have inner : other < page ∨ other = page := by omega
      rcases inner with before | same
      · have bodyToo := old.2 page before (by omega)
        rw [site.kind] at bodyToo
        cases bodyToo
      · exact notHere ⟨by omega, by omega⟩
    omega
  case freeSlots =>
    intro cls inside block inFree
    obtain ⟨other, index, kind, small, equal⟩ :=
      blocks.freeSlots cls inside block inFree
    have notPage : other ≠ page := by
      rintro rfl
      have different := kind.symm.trans site.kind
      cases different
    have kept := keptKind other (outside other (by rw [kind]; trivial) notPage)
    exact ⟨other, index, kept.trans kind, small, equal⟩
  case regions =>
    intro other rest
    have notStart := blocks.start_ne_of_mem_erase member rest
    obtain ⟨sized, places⟩ := blocks.regions other (List.mem_of_mem_erase rest)
    refine ⟨sized, ?_⟩
    rcases places with ⟨page', cls, index, site'⟩ | ⟨page', count', site'⟩
    · have notPage : page' ≠ page := by
        rintro rfl
        have different := site'.kind.symm.trans site.kind
        cases different
      exact Or.inl ⟨page', cls, index, site'.transfer
        (keptKind page' (outside page' (by rw [site'.kind]; trivial) notPage))
        site'.taken⟩
    · have notPage : page' ≠ page := by
        rintro rfl
        exact notStart (site'.start.trans site.start.symm)
      exact Or.inr ⟨page', count', site'.transfer
        (keptKind page' (outside page' (by rw [site'.kind]; trivial) notPage))⟩
  case starts =>
    exact blocks.starts_erase region
  case covered =>
    intro other cls kind index small
    have notHere := fromNew other (by simp [kind])
    rw [keptKind other notHere] at kind
    rcases blocks.covered other cls kind index small with
      inFree | ⟨region', inLive, same⟩
    · exact Or.inl inFree
    · refine Or.inr ⟨region', notGiven region' inLive ?_, same⟩
      intro onPage
      rw [same] at onPage
      have samePage := OnPage.unique (slotAddr_onPage other small) onPage
      exact notHere (by omega)
  case owned =>
    intro other count' kind
    have notHere := fromNew other (by simp [kind])
    rw [keptKind other notHere] at kind
    obtain ⟨region', inLive, same⟩ := blocks.owned other count' kind
    refine ⟨region', notGiven region' inLive ?_, same⟩
    intro onPage
    rw [same] at onPage
    have samePage := OnPage.unique (onPage_large other) onPage
    exact notHere (by omega)

end BlocksShape

end Simos
