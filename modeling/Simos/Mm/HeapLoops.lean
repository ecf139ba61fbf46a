import Simos.Mm.HeapBlocks
import Mathlib.Data.Finset.Card
import Mathlib.Data.Finset.Range

/-!
# The loops of the heap

`mem_block_desc_init` makes seven empty rings, the loop of `sys_malloc` links
the blocks of a new arena in order, and the loop of `sys_free` unlinks all
blocks of an arena from a list that may hold others.
-/

namespace Simos

open Simos.Library LinkHeap

variable {descArray : Nat}

theorem cells_valued (placed : DescArrayPlaced descArray) :
    ∀ address, IsCell descArray address → address < 4294967296 := by
  intro address cell
  have low := cell.lt placed
  unfold selfMapBase at low
  omega

theorem isCell_descAddr {cls : Nat} (inside : cls < memDescCnt) :
    IsCell descArray (descAddr descArray cls) :=
  Or.inl ⟨2 * cls, by omega, by rw [descAddr_eq]; omega⟩

private theorem isCell_descFreeList {cls : Nat} (inside : cls < memDescCnt) :
    IsCell descArray (descFreeList (descAddr descArray cls)) :=
  Or.inl ⟨2 * cls + 1, by omega, by rw [descFreeList_eq]; omega⟩

theorem isCell_pageAddr {page : Nat} (low : page < 257024) :
    IsCell descArray (pageAddr page) := by
  right
  rw [pageAddr_eq]
  unfold kernelHeapBase selfMapBase
  omega

theorem isCell_slotAddr {page cls index : Nat} (low : page < 257024)
    (small : index < classBlocks cls) :
    IsCell descArray (slotAddr page cls index) := by
  have aligned := slotAddr_mod page cls index
  have ends := slotAddr_end page small
  have large := classSize_ge cls
  have start := slotAddr_eq page cls index
  rw [pageAddr_eq] at ends
  right
  unfold kernelHeapBase selfMapBase
  omega

theorem BlocksShape.isCell_ring {g : HeapGhost} {live : List Region}
    (blocks : BlocksShape g live) {cls : Nat} (inside : cls < memDescCnt)
    (address : Nat)
    (inRing : address ∈ descFreeList (descAddr descArray cls) :: g.free cls) :
    IsCell descArray address := by
  rcases List.mem_cons.mp inRing with rfl | inFree
  · exact isCell_descFreeList inside
  · exact blocks.isCell_of_isMeta (isMeta_free inside inFree descArray)

theorem BlocksShape.ring_ne_pageAddr {g : HeapGhost} {live : List Region}
    (blocks : BlocksShape g live) (placed : DescArrayPlaced descArray)
    {cls : Nat} (inside : cls < memDescCnt) {address : Nat}
    (inRing : address ∈ descFreeList (descAddr descArray cls) :: g.free cls)
    (page : Nat) : address ≠ pageAddr page := by
  have below := placed.below inside
  rcases List.mem_cons.mp inRing with rfl | inFree
  · rw [descFreeList_eq, ← descAddr_eq, pageAddr_eq]
    omega
  · exact blocks.free_ne_pageAddr inside inFree page

theorem length_lt_addressCount (placed : DescArrayPlaced descArray)
    {members : List Nat} (nodup : members.Nodup)
    (cells : ∀ address, address ∈ members → IsCell descArray address) :
    members.length < addressCount := by
  have subset : members.toFinset ⊆ Finset.range selfMapBase := by
    intro address member
    rw [List.mem_toFinset] at member
    exact Finset.mem_range.mpr ((cells address member).lt placed)
  have counted := Finset.card_le_card subset
  rw [List.toFinset_card_of_nodup nodup, Finset.card_range] at counted
  unfold selfMapBase at counted
  unfold addressCount
  omega

/-! ## Descriptors -/

/-- The descriptor of a class is set up and its ring is empty. -/
structure DescReady (descArray : Nat) (memory : ByteMemory) (cls : Nat) :
    Prop where
  blockSize : descBlockSize memory (descAddr descArray cls) = classSize cls
  blocksEach :
    descBlocksEachArena memory (descAddr descArray cls) = classBlocks cls
  ring : Ring memory (descFreeList (descAddr descArray cls)) []

private theorem DescReady.congr {memory memory' : ByteMemory} {cls : Nat}
    (ready : DescReady descArray memory cls)
    (first : SameCell memory memory' (descAddr descArray cls))
    (second : SameCell memory memory' (descFreeList (descAddr descArray cls))) :
    DescReady descArray memory' cls where
  blockSize := first.1.trans ready.blockSize
  blocksEach := first.2.trans ready.blocksEach
  ring := by
    apply ready.ring.congr
    · intro node member
      obtain rfl := List.mem_singleton.mp member
      exact second.2
    · intro node member
      obtain rfl := List.mem_singleton.mp member
      exact second.1

private theorem SameCell.listInit {memory : ByteMemory} {list address : Nat}
    (apart : address + 8 ≤ list ∨ list + 8 ≤ address) :
    SameCell memory (listInit memory list) address :=
  (SameCell.storeWord (by omega)).trans (SameCell.storeWord (by omega))

private def storeDesc (descArray cls : Nat) (memory : ByteMemory) :
    ByteMemory :=
  listInit
    ((memory.storeWord (descAddr descArray cls) (classSize cls)).storeWord
      (descAddr descArray cls + 4) (classBlocks cls))
    (descFreeList (descAddr descArray cls))

theorem classSize_le {cls : Nat} (inside : cls < memDescCnt) :
    classSize cls ≤ 1024 := by
  have power : 2 ^ cls ≤ 2 ^ 6 :=
    Nat.pow_le_pow_right (by decide) (by unfold memDescCnt at inside; omega)
  unfold classSize
  omega

private theorem storeDesc_ready (placed : DescArrayPlaced descArray)
    (memory : ByteMemory) {cls : Nat} (inside : cls < memDescCnt) :
    DescReady descArray (storeDesc descArray cls memory) cls := by
  have sizeBound := classSize_le inside
  have blocksBound := classBlocks_lt cls
  have kept : SameCell
      ((memory.storeWord (descAddr descArray cls) (classSize cls)).storeWord
        (descAddr descArray cls + 4) (classBlocks cls))
      (storeDesc descArray cls memory) (descAddr descArray cls) :=
    SameCell.listInit (by rw [descFreeList_eq, descAddr_eq]; omega)
  constructor
  case ring =>
    have cell := @isCell_descFreeList descArray cls inside
    exact listInit_ring (cells_lawful placed) _ cell
      (cells_valued placed _ cell)
  case blockSize =>
    refine kept.1.trans ?_
    rw [ByteMemory.loadWord_storeWord_of_disjoint _ _ (by omega)]
    exact ByteMemory.loadWord_storeWord_self _ _ (by omega)
  case blocksEach =>
    exact kept.2.trans (ByteMemory.loadWord_storeWord_self _ _ (by omega))

private theorem storeDesc_below (memory : ByteMemory) {cls address : Nat}
    (below : address + 8 ≤ descAddr descArray cls) :
    SameCell memory (storeDesc descArray cls memory) address :=
  ((SameCell.storeWord (by omega)).trans (SameCell.storeWord (by omega))).trans
    (SameCell.listInit (by unfold descFreeList; omega))

private theorem memBlockDescInitLoop_ready
    (placed : DescArrayPlaced descArray) :
    ∀ (rounds descIdx : Nat) (memory : ByteMemory),
      descIdx + rounds = memDescCnt →
      (∀ cls, cls < descIdx → DescReady descArray memory cls) →
      ∀ cls, cls < memDescCnt →
        DescReady descArray
          (memBlockDescInitLoop descArray rounds descIdx (classSize descIdx)
            memory) cls
  | 0, descIdx, memory, all, ready => by
      intro cls inside
      exact ready cls (by omega)
  | rounds + 1, descIdx, memory, all, ready => by
      have here : descIdx < memDescCnt := by omega
      have twice : classSize descIdx * 2 % 65536 = classSize (descIdx + 1) := by
        have small := classSize_le here
        rw [Nat.mod_eq_of_lt (by omega)]
        unfold classSize
        rw [Nat.pow_succ, Nat.mul_assoc]
      rw [memBlockDescInitLoop, twice]
      apply memBlockDescInitLoop_ready placed rounds (descIdx + 1)
        (storeDesc descArray descIdx memory) (by omega)
      intro cls upTo
      by_cases same : cls = descIdx
      · rw [same]
        exact storeDesc_ready placed memory here
      · apply (ready cls (by omega)).congr
        · apply storeDesc_below
          rw [descAddr_eq, descAddr_eq]
          omega
        · apply storeDesc_below
          rw [descFreeList_eq, descAddr_eq]
          omega

theorem memBlockDescInit_ready (placed : DescArrayPlaced descArray)
    (memory : ByteMemory) {cls : Nat} (inside : cls < memDescCnt) :
    DescReady descArray (memBlockDescInit memory descArray) cls :=
  memBlockDescInitLoop_ready placed memDescCnt 0 memory (by omega)
    (fun _ less => absurd less (Nat.not_lt_zero _)) cls inside

/-! ## Splitting a new arena -/

private theorem arena2Block_eq {memory : ByteMemory} {page cls index : Nat}
    (low : page < 257024) (small : index < classBlocks cls)
    (desc : arenaDesc memory (pageAddr page) = descAddr descArray cls)
    (size : descBlockSize memory (descAddr descArray cls) = classSize cls) :
    arena2Block memory (pageAddr page) index = slotAddr page cls index := by
  have ends := slotAddr_end page small
  rw [pageAddr_eq] at ends
  unfold arena2Block
  rw [desc, size]
  apply u32_of_lt
  show slotAddr page cls index < 4294967296
  have large := classSize_ge cls
  omega

private theorem split_cells {page cls index : Nat} (inside : cls < memDescCnt)
    (low : page < 257024) (upTo : index ≤ classBlocks cls) :
    ∀ address,
      address ∈ descFreeList (descAddr descArray cls) ::
        (List.range index).map (slotAddr page cls) →
      IsCell descArray address := by
  intro address member
  rcases List.mem_cons.mp member with rfl | linked
  · exact isCell_descFreeList inside
  · obtain ⟨earlier, less, rfl⟩ := List.mem_map.mp linked
    exact isCell_slotAddr low (by have := List.mem_range.mp less; omega)

theorem splitArenaLoop_ok (placed : DescArrayPlaced descArray)
    {page cls : Nat} (inside : cls < memDescCnt) (low : page < 257024) :
    ∀ (rest fuel index : Nat) (memory : ByteMemory),
      index + rest = classBlocks cls → rest < fuel →
      arenaDesc memory (pageAddr page) = descAddr descArray cls →
      descBlockSize memory (descAddr descArray cls) = classSize cls →
      descBlocksEachArena memory (descAddr descArray cls) = classBlocks cls →
      Ring memory (descFreeList (descAddr descArray cls))
        ((List.range index).map (slotAddr page cls)) →
      ∃ memory',
        splitArenaLoop (descAddr descArray cls) (pageAddr page) fuel index
            memory = .ok memory' ∧
          Ring memory' (descFreeList (descAddr descArray cls))
            (slots page cls) ∧
          ∀ address, IsCell descArray address →
            address ≠ descFreeList (descAddr descArray cls) →
            address ∉ slots page cls → SameCell memory memory' address
  | _, 0, _, _, _, enough, _, _, _, _ => by
      omega
  | 0, fuel + 1, index, memory, all, enough, desc, size, each, ring => by
      have done : ¬ index < descBlocksEachArena memory (descAddr descArray cls) := by
        rw [each]
        omega
      refine ⟨memory, by rw [splitArenaLoop, if_neg done], ?_,
        fun address _ _ _ => SameCell.refl memory address⟩
      have allIndices : index = classBlocks cls := by omega
      rw [allIndices] at ring
      exact ring
  | rest + 1, fuel + 1, index, memory, all, enough, desc, size, each, ring => by
      have laws := cells_lawful placed
      have valued := cells_valued placed
      have small : index < classBlocks cls := by omega
      have more : index < descBlocksEachArena memory (descAddr descArray cls) := by
        rw [each]
        exact small
      have cells : ∀ address,
          address ∈ descFreeList (descAddr descArray cls) ::
            (List.range index).map (slotAddr page cls) →
          IsCell descArray address :=
        split_cells inside low (Nat.le_of_lt small)
      have slotCell : IsCell descArray (slotAddr page cls index) :=
        isCell_slotAddr low small
      have below := placed.below inside
      have fresh : slotAddr page cls index ∉
          descFreeList (descAddr descArray cls) ::
            (List.range index).map (slotAddr page cls) := by
        intro member
        rcases List.mem_cons.mp member with equal | linked
        · rw [slotAddr_eq, descFreeList_eq, ← descAddr_eq] at equal
          omega
        · obtain ⟨earlier, less, equal⟩ := List.mem_map.mp linked
          have same := slotAddr_injective equal
          have before := List.mem_range.mp less
          omega
      have short := length_lt_addressCount placed
        (List.nodup_cons.mp ring.nodup).2
        (fun address member => cells address (List.mem_cons_of_mem _ member))
      have linked := listAddPrev_ring laws valued ring cells slotCell fresh
      have frame : ∀ address, IsCell descArray address →
          address ≠ descFreeList (descAddr descArray cls) →
          address ∉ slots page cls →
          SameCell memory (listAddPrev memory
            (descFreeList (descAddr descArray cls)) (slotAddr page cls index))
            address := by
        intro address cell notHead notSlot
        have kept := listAddPrev_frame laws valued ring cells slotCell fresh cell
          (by
            intro member
            rcases List.mem_cons.mp member with equal | earlier
            · exact notHead equal
            · obtain ⟨other, less, equal⟩ := List.mem_map.mp earlier
              have before := List.mem_range.mp less
              exact notSlot (mem_slots.mpr ⟨other, by omega, equal.symm⟩))
          (by
            rintro rfl
            exact notSlot (mem_slots.mpr ⟨index, small, rfl⟩))
        exact ⟨kept.2, kept.1⟩
      have offSlots : ∀ address, address < 0xc1000000 →
          address ∉ slots page cls := by
        intro address lower member
        obtain ⟨other, _, rfl⟩ := mem_slots.mp member
        rw [slotAddr_eq] at lower
        omega
      have descKept := frame _ (isCell_descAddr inside)
        (by rw [descFreeList_eq, descAddr_eq]; omega)
        (offSlots _ (by omega))
      have headerKept := frame _ (isCell_pageAddr low)
        (by rw [descFreeList_eq, ← descAddr_eq, pageAddr_eq]; omega)
        (by
          intro member
          obtain ⟨other, inArena, equal⟩ := mem_slots.mp member
          exact slotAddr_ne_pageAddr inArena equal.symm)
      have linked' : Ring (listAddPrev memory
          (descFreeList (descAddr descArray cls)) (slotAddr page cls index))
          (descFreeList (descAddr descArray cls))
          ((List.range (index + 1)).map (slotAddr page cls)) := by
        rw [List.range_succ, List.map_append]
        exact linked
      obtain ⟨memory', returned, ring', kept'⟩ :=
        splitArenaLoop_ok placed inside low rest fuel (index + 1) _ (by omega)
          (by omega) (headerKept.1.trans desc) (descKept.1.trans size)
          (descKept.2.trans each) linked'
      refine ⟨memory', ?_, ring', fun address cell notHead notSlot =>
        (frame address cell notHead notSlot).trans
          (kept' address cell notHead notSlot)⟩
      have absent := listFindItem_of_notMem ring fresh short
      rw [splitArenaLoop, if_pos more, arena2Block_eq low small desc size, desc]
      simp only [absent, Call.ok_bind, Call.assert_of]
      exact returned

/-! ## Reclaiming an arena -/

private theorem mem_remove_iff {before after : List Nat} {node other : Nat}
    (nodup : (before ++ node :: after).Nodup) :
    other ∈ before ++ after ↔
      other ∈ before ++ node :: after ∧ other ≠ node := by
  have absent : node ∉ before ++ after :=
    (List.nodup_cons.mp (List.nodup_middle.mp nodup)).1
  constructor
  · intro member
    refine ⟨?_, ?_⟩
    · simp only [List.mem_append, List.mem_cons] at member ⊢
      tauto
    · rintro rfl
      exact absent member
  · rintro ⟨member, different⟩
    simp only [List.mem_append, List.mem_cons] at member ⊢
    tauto

theorem reclaimLoop_ok (placed : DescArrayPlaced descArray)
    {page cls : Nat} (inside : cls < memDescCnt) (low : page < 257024) :
    ∀ (rest fuel index : Nat) (memory : ByteMemory) (members : List Nat),
      index + rest = classBlocks cls → rest < fuel →
      arenaDesc memory (pageAddr page) = descAddr descArray cls →
      descBlockSize memory (descAddr descArray cls) = classSize cls →
      arenaCnt memory (pageAddr page) = classBlocks cls →
      Ring memory (descFreeList (descAddr descArray cls)) members →
      (∀ address, address ∈ members → IsCell descArray address ∧
        0xc1000000 ≤ address ∧ address ≠ pageAddr page) →
      (∀ later, index ≤ later → later < classBlocks cls →
        slotAddr page cls later ∈ members) →
      ∃ memory' left,
        reclaimLoop (pageAddr page) fuel index memory = .ok memory' ∧
          Ring memory' (descFreeList (descAddr descArray cls)) left ∧
          (∀ block, block ∈ left ↔ block ∈ members ∧
            ∀ later, index ≤ later → later < classBlocks cls →
              block ≠ slotAddr page cls later) ∧
          ∀ address, IsCell descArray address →
            address ≠ descFreeList (descAddr descArray cls) →
            address ∉ members → SameCell memory memory' address
  | _, 0, _, _, _, _, enough, _, _, _, _, _, _ => by
      omega
  | 0, fuel + 1, index, memory, members, all, enough, desc, size, cnt, ring,
      cells, linked => by
      have done : ¬ index < arenaCnt memory (pageAddr page) := by
        rw [cnt]
        omega
      refine ⟨memory, members, by rw [reclaimLoop, if_neg done], ring, ?_,
        fun address _ _ _ => SameCell.refl memory address⟩
      intro block
      constructor
      · intro member
        exact ⟨member, fun later lower upper => by omega⟩
      · exact fun both => both.1
  | rest + 1, fuel + 1, index, memory, members, all, enough, desc, size, cnt,
      ring, cells, linked => by
      have laws := cells_lawful placed
      have valued := cells_valued placed
      have small : index < classBlocks cls := by omega
      have more : index < arenaCnt memory (pageAddr page) := by
        rw [cnt]
        exact small
      have below := placed.below inside
      obtain ⟨before, after, split⟩ :=
        List.append_of_mem (linked index (Nat.le_refl _) small)
      subst split
      have nodup := (List.nodup_cons.mp ring.nodup).2
      have isCell : ∀ address,
          address ∈ descFreeList (descAddr descArray cls) ::
            (before ++ slotAddr page cls index :: after) →
          IsCell descArray address := by
        intro address member
        rcases List.mem_cons.mp member with rfl | inRing
        · exact isCell_descFreeList inside
        · exact (cells address inRing).1
      have removed := listDelSafe_ring laws valued ring isCell
      have entered := ring.rotate
      have sameNodes : ∀ address,
          address ∈ slotAddr page cls index ::
              (after ++ descFreeList (descAddr descArray cls) :: before) ↔
            address ∈ descFreeList (descAddr descArray cls) ::
              (before ++ slotAddr page cls index :: after) := by
        intro address
        simp only [List.mem_cons, List.mem_append]
        tauto
      have frame : ∀ address, IsCell descArray address →
          address ≠ descFreeList (descAddr descArray cls) →
          address ∉ before ++ slotAddr page cls index :: after →
          SameCell memory (listDelSafe memory (slotAddr page cls index))
            address := by
        intro address cell notHead notMember
        have kept := listDelSafe_frame laws valued entered
          (fun other member => isCell other ((sameNodes other).mp member)) cell
          (fun member => by
            rcases List.mem_cons.mp ((sameNodes address).mp member) with
              equal | inRing
            · exact notHead equal
            · exact notMember inRing)
        exact ⟨kept.2, kept.1⟩
      have notMember : ∀ address, address < 0xc1000000 →
          address ∉ before ++ slotAddr page cls index :: after :=
        fun address lower member =>
          absurd (cells address member).2.1 (by omega)
      have descKept := frame _ (isCell_descAddr inside)
        (by rw [descFreeList_eq, descAddr_eq]; omega)
        (notMember _ (by omega))
      have headerKept := frame _ (isCell_pageAddr low)
        (by rw [descFreeList_eq, ← descAddr_eq, pageAddr_eq]; omega)
        (fun member => (cells _ member).2.2 rfl)
      have without : ∀ other, other ∈ before ++ after ↔
          other ∈ before ++ slotAddr page cls index :: after ∧
            other ≠ slotAddr page cls index :=
        fun _ => mem_remove_iff nodup
      obtain ⟨memory', left, returned, ring', left_iff, kept'⟩ :=
        reclaimLoop_ok placed inside low rest fuel (index + 1) _
          (before ++ after) (by omega) (by omega) (headerKept.1.trans desc)
          (descKept.1.trans size) (headerKept.2.trans cnt) removed
          (fun address member => cells address ((without address).mp member).1)
          (by
            intro later lower upper
            refine (without _).mpr ⟨linked later (by omega) upper, ?_⟩
            intro equal
            have same := slotAddr_injective equal
            omega)
      refine ⟨memory', left, ?_, ring', ?_, ?_⟩
      · rw [reclaimLoop, if_pos more, arena2Block_eq low small desc size]
        exact returned
      · intro block
        rw [left_iff, without]
        constructor
        · rintro ⟨⟨member, notHere⟩, notLater⟩
          refine ⟨member, fun later lower upper => ?_⟩
          by_cases same : later = index
          · rw [same]
            exact notHere
          · exact notLater later (by omega) upper
        · rintro ⟨member, notLater⟩
          exact ⟨⟨member, notLater index (Nat.le_refl _) small⟩,
            fun later lower upper => notLater later (by omega) upper⟩
      · intro address cell notHead absent
        have absent' : address ∉ before ++ after := fun member =>
          absent ((without address).mp member).1
        exact (frame address cell notHead absent).trans
          (kept' address cell notHead absent')

end Simos
