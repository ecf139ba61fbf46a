import Simos.Device.PartitionWalk

/-!
# Scans of one disk (`device/ide.c`)

* `partitionScan_ends`: where no chain of links goes on for ever, the scan
  ends; `partitionScan_selfLink` is a disk whose scan does not end;
* `partitionScan_inside_iff`: when the scan of a disk stays inside the arrays
  and `partition_info` reads only what it has filled;
  `partitionScan_ninth` is a disk whose scan writes behind them.

The one page of kernel stack, which a long chain uses up, is left out.
-/

namespace Simos

open Simos.Library

/-! ## Disks to try -/

def noEntry : PartitionTable :=
  ⟨0, 0, 0⟩

/-- The first disk of a channel, with the given sectors and arrays that are
all zero. -/
def diskWith (sectors : Nat → ByteMemory) : HdDisk where
  address := 0xc0200000
  name := "sda"
  devNo := 0
  disks := fun _ lba => (sectors lba).byte
  primParts := fun _ => ⟨0, 0, 0, ""⟩
  logicParts := fun _ => ⟨0, 0, 0, ""⟩

def selfLink : HdDisk :=
  diskWith fun lba =>
    sectorWith ⟨0x5, if lba = 0 then 1 else 0, 0⟩ noEntry noEntry noEntry

/-- Nine logical partitions, three in each of the sectors 1 to 3. -/
def nineLogicals : HdDisk :=
  diskWith fun lba =>
    if lba = 0 then
      sectorWith ⟨0x5, 1, 0⟩ noEntry noEntry noEntry
    else
      sectorWith ⟨0x83, 64, 100⟩ ⟨0x83, 164, 100⟩ ⟨0x83, 264, 100⟩
        ⟨if lba < 3 then 0x5 else 0, lba, 0⟩

private theorem selfLink_mbr : selfLink.partitionTableArray 0 =
    [⟨0x5, 1, 0⟩, noEntry, noEntry, noEntry] :=
  partitionTableArray_sectorWith rfl (by decide)

private theorem selfLink_ebr : selfLink.partitionTableArray 1 =
    [⟨0x5, 0, 0⟩, noEntry, noEntry, noEntry] :=
  partitionTableArray_sectorWith rfl (by decide)

private def threeLogicals (lba : Nat) : List Found :=
  [(lba, ⟨0x83, 64, 100⟩), (lba, ⟨0x83, 164, 100⟩), (lba, ⟨0x83, 264, 100⟩)]

private theorem nineLogicals_table {lba link : Nat} (inside : 0 < lba ∧ lba ≤ 3)
    (leads : link = if lba < 3 then 0x5 else 0) :
    nineLogicals.partitionTableArray lba =
      [⟨0x83, 64, 100⟩, ⟨0x83, 164, 100⟩, ⟨0x83, 264, 100⟩, ⟨link, lba, 0⟩] := by
  obtain ⟨positive, few⟩ := inside
  have cases : lba = 1 ∨ lba = 2 ∨ lba = 3 := by
    omega
  rcases cases with rfl | rfl | rfl
  · subst leads
    exact partitionTableArray_sectorWith rfl (by decide)
  · subst leads
    exact partitionTableArray_sectorWith rfl (by decide)
  · subst leads
    exact partitionTableArray_sectorWith rfl (by decide)

private theorem nineLogicals_mbr : nineLogicals.partitionTableArray 0 =
    [⟨0x5, 1, 0⟩, noEntry, noEntry, noEntry] :=
  partitionTableArray_sectorWith rfl (by decide)

private theorem nineLogicals_finds : ScanFinds nineLogicals 0
    (threeLogicals 1 ++ (threeLogicals 2 ++ threeLogicals 3)) := by
  have third : Walked (nineLogicals.cells 1) (nineLogicals.cells 1 3)
      (threeLogicals 3) := by
    rw [HdDisk.cells, nineLogicals_table (by decide) rfl]
    exact .item _ (.item _ (.item _ (.empty .nil)))
  have second : Walked (nineLogicals.cells 1) (nineLogicals.cells 1 2)
      (threeLogicals 2 ++ threeLogicals 3) := by
    rw [HdDisk.cells, nineLogicals_table (by decide) rfl]
    exact .item _ (.item _ (.item _ (third.link .nil)))
  have first : Walked (nineLogicals.cells 1) (nineLogicals.cells 1 1)
      (threeLogicals 1 ++ (threeLogicals 2 ++ threeLogicals 3)) := by
    rw [HdDisk.cells, nineLogicals_table (by decide) rfl]
    exact .item _ (.item _ (.item _ (second.link .nil)))
  unfold ScanFinds HdDisk.linked
  rw [nineLogicals_mbr, HdDisk.cells, nineLogicals_mbr]
  exact first.link (.empty (.empty (.empty .nil)))

/-! ## Termination -/

/-- The scan of a disk returns, or an assertion stops it; from some bound on
its depth does not matter. -/
def ScanEnds (d : HdDisk) (s : ScanState) : Prop :=
  ∃ depth r, (∀ deeper, depth ≤ deeper → partitionScan d deeper 0 s = r) ∧
    r ≠ .error .diverges

/-- Whatever the bytes of the disk and the static variables are, the scan ends
where no chain of links goes on for ever.  A scan that returns, and has stored
all logical partitions inside their array, has met no endless chain. -/
theorem partitionScan_ends (d : HdDisk) (s : ScanState) :
    (NoEndlessLinks d s.extLbaBase → ScanEnds d s) ∧
      ∀ depth s', partitionScan d depth 0 s = .ok s' →
        (∀ index ∈ s'.logic.stored, index < 8) →
        NoEndlessLinks d s.extLbaBase := by
  constructor
  · intro noEndless
    obtain ⟨found, finds⟩ := exists_walked_iff.mpr noEndless
    obtain ⟨depth, r, bound, reached, outcome⟩ := partitionScan_outcome finds
    exact ⟨depth, r, reached, outcome.ends⟩
  · intro depth s' returned inside
    rcases partitionScan_returns returned with ⟨index, member, large⟩ |
      ⟨found, finds, -⟩
    · exact absurd (inside index member) (Nat.not_lt.mpr large)
    · exact exists_walked_iff.mp ⟨found, finds⟩

/-- The statement at a disk with links into three sectors. -/
theorem partitionScan_ends_nine :
    NoEndlessLinks nineLogicals 0 ∧
      ScanEnds nineLogicals (scanStart.begin nineLogicals) := by
  have noEndless : NoEndlessLinks nineLogicals 0 :=
    exists_walked_iff.mp ⟨_, nineLogicals_finds⟩
  exact ⟨noEndless, (partitionScan_ends nineLogicals
    (scanStart.begin nineLogicals)).1 noEndless⟩

/-- The scan of a sector that leads to itself never ends. -/
theorem partitionScan_selfLink :
    ¬ ScanEnds selfLink (scanStart.begin selfLink) := by
  have again : ∀ depth s, s.extLbaBase = 1 →
      partitionScan selfLink depth 1 s = .error .diverges := by
    intro depth
    induction depth with
    | zero =>
        intro s _
        rfl
    | succ depth inductionHypothesis =>
        intro s base
        have target : linkTarget s.extLbaBase ⟨0x5, 0, 0⟩ = 1 := by
          rw [base]
          rfl
        rw [partitionScan, selfLink_ebr, scanEntries_extended rfl, target,
          inductionHypothesis _ (by rw [base]; rfl)]
        rfl
  have target : linkTarget (scanStart.begin selfLink).extLbaBase
      ⟨0x5, 1, 0⟩ = 1 := rfl
  rintro ⟨depth, r, reached, ended⟩
  apply ended
  rw [← reached (depth + 1) (Nat.le_succ depth), partitionScan, selfLink_mbr,
    scanEntries_extended rfl, target, again depth _ rfl]
  rfl

/-! ## The arrays -/

/-- The stores for a disk fall inside an array, its counter does not pass the
end, and `partition_info` reads only what has been stored. -/
structure PartArray.Inside (a : PartArray) (length : Nat) : Prop where
  stored : ∀ index ∈ a.stored, index < length
  counter : a.cnt ≤ length
  filled : ∀ index ∈ a.read, index ∈ a.stored

/-- Both arrays of the disk that was scanned are kept to. -/
def StaysInside (s : ScanState) : Prop :=
  s.prim.Inside 4 ∧ s.logic.Inside 8

/-- Stores that begin with an array's counter at zero stay inside when they
begin at its start and there are not too many. -/
theorem PartArray.inside_iff {a : PartArray} {d : HdDisk}
    {found : List Found} {first length : Nat} (small : length ≤ 255)
    (cleared : a.cnt = 0) (fresh : a.stored = []) :
    (a.storeAll d found first).Inside length ↔
      (a.no = 0 ∨ found = []) ∧ found.length ≤ length := by
  cases found with
  | nil =>
      rw [storeAll_nil]
      refine iff_of_true ⟨?_, ?_, ?_⟩ ⟨Or.inr rfl, Nat.zero_le length⟩
      · simp [fresh]
      · rw [cleared]
        exact Nat.zero_le length
      · simp [read, cleared]
  | cons entry rest =>
      have count : 0 < (entry :: rest).length := Nat.succ_pos _
      generalize entry :: rest = found at count
      have nonempty : found ≠ [] := List.ne_nil_of_length_pos count
      constructor
      · intro inside
        have room := room_of_stored small inside.stored
        have fits : a.no + found.length ≤ length :=
          room.resolve_left (Nat.ne_of_gt count)
        have filled := filled_storeAll d first
          (Or.inr (fits.trans small)) (by omega)
        have read : 0 ∈ (a.storeAll d found first).read := by
          rw [PartArray.read, filled.cnt, cleared, List.mem_range]
          omega
        have stored := inside.filled 0 read
        rw [filled.stored, fresh, List.nil_append, List.mem_range'_1]
          at stored
        exact ⟨Or.inl (by omega), by omega⟩
      · rintro ⟨begins, few⟩
        have start : a.no = 0 := begins.resolve_right nonempty
        have filled := filled_storeAll d first (Or.inr (by omega))
          (show a.cnt + found.length ≤ 255 by omega)
        constructor
        case stored =>
          intro index member
          rw [filled.stored, fresh, List.nil_append, List.mem_range'_1]
            at member
          omega
        case counter =>
          rw [filled.cnt, cleared]
          omega
        case filled =>
          intro index member
          rw [PartArray.read, filled.cnt, List.mem_range] at member
          rw [filled.stored, fresh, List.nil_append, List.mem_range'_1]
          omega

/-- A scan that returns stays inside the arrays, and `partition_info` reads
only what it has filled, exactly when the links of the disk end, at most eight
entries stand behind them, and each array that is stored to is stored to from
its start: no disk scanned before has moved its index. -/
theorem partitionScan_inside_iff {d : HdDisk} {s s' : ScanState} {depth : Nat}
    (returned : partitionScan d depth 0 (s.begin d) = .ok s') :
    StaysInside s' ↔
      ∃ found, ScanFinds d s.extLbaBase found ∧
        (s.prim.no = 0 ∨ primFound found = []) ∧
        (s.logic.no = 0 ∨ logicFound found = []) ∧
        (logicFound found).length ≤ 8 := by
  have placed : ∀ found base, StaysInside
        (((s.begin d).placeAll d found).withBase base) ↔
      ((s.prim.no = 0 ∨ primFound found = []) ∧
          (primFound found).length ≤ 4) ∧
        ((s.logic.no = 0 ∨ logicFound found = []) ∧
          (logicFound found).length ≤ 8) := by
    intro found base
    rw [ScanState.placeAll_eq]
    exact and_congr (PartArray.inside_iff (by decide) rfl rfl)
      (PartArray.inside_iff (by decide) rfl rfl)
  constructor
  · intro inside
    rcases partitionScan_returns returned with ⟨index, member, large⟩ |
      ⟨found, finds, -, base, rfl⟩
    · exact absurd (inside.2.stored index member) (Nat.not_lt.mpr large)
    · obtain ⟨⟨prim, -⟩, logic, few⟩ := (placed found base).mp inside
      exact ⟨found, finds, prim, logic, few⟩
  · rintro ⟨found, finds, prim, logic, few⟩
    obtain ⟨least, r, bound, reached, outcome⟩ := partitionScan_outcome
      (s := s.begin d) finds
    have same : r = .ok s' := by
      rw [← reached (max least depth) (le_max_left _ _),
        partitionScan_more (le_max_right least depth) (by simp [returned]),
        returned]
    subst same
    have room : (s.begin d).logic.Room (logicFound found).length 8 := by
      rcases logic with start | none
      · exact Or.inr (by rw [show (s.begin d).logic.no = 0 from start]; omega)
      · exact Or.inl (by rw [none]; rfl)
    have quiet : (s.begin d).Quiet d found := by
      by_contra notQuiet
      cases outcome.stopped notQuiet room
    obtain ⟨base, placedAll⟩ := outcome.placed quiet
    cases placedAll
    refine (placed found base).mpr ⟨⟨prim, ?_⟩, logic, few⟩
    rcases prim with start | none
    · have few := ScanState.primRoom_of_quiet quiet
        (show s.prim.no < 4 by rw [start]; decide)
      rcases few with none | few
      · omega
      · have start' : (s.begin d).prim.no = 0 := start
        omega
    · rw [none]
      exact Nat.zero_le 4

/-- The statement at the disk with nine logical partitions. -/
theorem partitionScan_inside_iff_nine :
    ∃ s', partitionScan nineLogicals 4 0 (scanStart.begin nineLogicals) =
        .ok s' ∧
      (StaysInside s' ↔
        ∃ found, ScanFinds nineLogicals 0 found ∧
          (scanStart.prim.no = 0 ∨ primFound found = []) ∧
          (scanStart.logic.no = 0 ∨ logicFound found = []) ∧
          (logicFound found).length ≤ 8) := by
  obtain ⟨s', returned⟩ : ∃ s',
      partitionScan nineLogicals 4 0 (scanStart.begin nineLogicals) = .ok s' :=
    ⟨_, rfl⟩
  exact ⟨s', returned, partitionScan_inside_iff returned⟩

/-- The ninth logical partition is written behind `logic_parts`. -/
theorem partitionScan_ninth :
    ∃ s', partitionScan nineLogicals 4 0 (scanStart.begin nineLogicals) =
        .ok s' ∧
      8 ∈ s'.logic.stored ∧ ¬ StaysInside s' := by
  obtain ⟨s', returned, stored⟩ : ∃ s',
      partitionScan nineLogicals 4 0 (scanStart.begin nineLogicals) = .ok s' ∧
        s'.logic.stored = List.range 9 :=
    ⟨_, rfl, rfl⟩
  have ninth : 8 ∈ s'.logic.stored := by
    rw [stored]
    decide
  refine ⟨s', returned, ninth, ?_⟩
  intro inside
  exact absurd (inside.2.stored 8 ninth) (Nat.lt_irrefl 8)

end Simos
