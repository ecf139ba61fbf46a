import Simos.Device.PartitionScans
import Simos.Library.Runs

/-!
# Disks scanned one after another (`device/ide.c`)

`ide_init` scans the disks in turn, and `partition_scan` keeps its static
variables from one disk to the next.

* `WellFormedDisk` is a disk with a partition table and a chain of extended
  boot records as they should be;
* `Undisturbed` says which disks the static variables do not disturb;
* `partition_decodes` is the result for runs of scans, and
  `partition_secondDisk` the run that shows the condition is needed.

Chains may be longer here than the one page of kernel stack allows.
-/

namespace Simos

open Simos.Library

/-! ## Well-formed disks -/

def PartitionTable.IsPartition (pt : PartitionTable) : Prop :=
  pt.fsType ≠ 0x5 ∧ pt.fsType ≠ 0

instance (pt : PartitionTable) : Decidable pt.IsPartition :=
  inferInstanceAs (Decidable (_ ∧ _))

/-- The partitions of a table, with the sector of the table. -/
def partitionsIn (lba : Nat) (entries : List PartitionTable) : List Found :=
  (entries.filter fun pt => pt.IsPartition).map fun pt => (lba, pt)

/-- A chain of extended boot records from a sector on: the partitions of each
stand before the link to the next, which is counted from `base`. -/
inductive EbrChain (d : HdDisk) (base : Nat) : Nat → List Nat → Prop
  | last {lba : Nat} :
      (∀ pt ∈ d.partitionTableArray lba, pt.fsType ≠ 0x5) →
      EbrChain d base lba [lba]
  | next {lba : Nat} {before after : List PartitionTable}
      {link : PartitionTable} {sectors : List Nat} :
      d.partitionTableArray lba = before ++ link :: after →
      (∀ pt ∈ before, pt.fsType ≠ 0x5) →
      link.fsType = 0x5 →
      (∀ pt ∈ after, pt.fsType = 0) →
      EbrChain d base (link.startLba + base) sectors →
      EbrChain d base lba (lba :: sectors)

/-- The sectors of the extended boot records of a disk: none, or the chain
that the only extended entry of sector 0 begins. -/
inductive MbrChain (d : HdDisk) : List Nat → Prop
  | none :
      (∀ pt ∈ d.partitionTableArray 0, pt.fsType ≠ 0x5) →
      MbrChain d []
  | extended {before after : List PartitionTable} {link : PartitionTable}
      {sectors : List Nat} :
      d.partitionTableArray 0 = before ++ link :: after →
      (∀ pt ∈ before, pt.fsType ≠ 0x5) →
      link.fsType = 0x5 →
      (∀ pt ∈ after, pt.fsType ≠ 0x5) →
      EbrChain d link.startLba link.startLba sectors →
      MbrChain d sectors

/-- The primary partitions of a disk, in the order of the table. -/
def HdDisk.primaries (d : HdDisk) : List PartitionTable :=
  (d.partitionTableArray 0).filter fun pt => pt.IsPartition

def HdDisk.logicals (d : HdDisk) (sectors : List Nat) : List Found :=
  sectors.flatMap fun lba => partitionsIn lba (d.partitionTableArray lba)

/-- A disk with the sectors of its extended boot records, which lie on the
disk as its logical partitions do, and hold at most eight of these. -/
structure WellFormedDisk extends HdDisk where
  sectors : List Nat
  chain : MbrChain toHdDisk sectors
  onDisk : ∀ lba ∈ sectors, 0 < lba ∧ lba < 268435456
  starts : ∀ entry ∈ toHdDisk.logicals sectors,
    entry.1 + entry.2.startLba < 4294967296
  few : (toHdDisk.logicals sectors).length ≤ 8

/-- The arrays list the partitions of a disk in order, with their starts and
their lengths; a logical partition starts behind the sector that its entry
stands in. -/
structure Decoded (d : WellFormedDisk) (s : ScanState) : Prop where
  prim : (List.range s.prim.cnt).map s.prim.extent =
    d.primaries.map fun pt => (pt.startLba, pt.sectorCnt)
  logic : (List.range s.logic.cnt).map s.logic.extent =
    (d.logicals d.sectors).map fun entry =>
      (entry.1 + entry.2.startLba, entry.2.sectorCnt)

/-- A disk that the static variables do not disturb: each of them is zero, or
the disk has nothing that uses it, and `ASSERT(p_no < 4)`, which comes after
the increment, does not meet a fourth primary partition. -/
structure Undisturbed (s : ScanState) (d : WellFormedDisk) : Prop where
  prim : s.prim.no = 0 ∨ d.primaries = []
  three : d.primaries.length ≤ 3
  logic : s.logic.no = 0 ∨ d.logicals d.sectors = []
  base : s.extLbaBase = 0 ∨ d.sectors = []

def DiskScan (s : ScanState) (d : WellFormedDisk) (s' : ScanState) : Prop :=
  ∃ depth, partitionScan d.toHdDisk depth 0 (s.begin d.toHdDisk) = .ok s'

/-! ## The walk of a well-formed disk -/

section Walks

variable {d : HdDisk} {cells : Nat → List (LinkCell Nat Found)}
  {base lba : Nat} {entries rest : List PartitionTable}

private theorem partitionsIn_linked {link : PartitionTable}
    (extended : link.fsType = 0x5) :
    partitionsIn lba (entries ++ link :: rest) =
      partitionsIn lba entries ++ partitionsIn lba rest := by
  simp [partitionsIn, PartitionTable.IsPartition, extended]

private theorem walked_plain (plain : ∀ pt ∈ entries, pt.fsType ≠ 0x5) :
    Walked cells (linkCells base lba entries) (partitionsIn lba entries) := by
  induction entries with
  | nil =>
      exact .nil
  | cons pt rest inductionHypothesis =>
      have notLink := plain pt List.mem_cons_self
      have walked := inductionHypothesis fun later member =>
        plain later (List.mem_cons_of_mem pt member)
      rw [linkCells, if_neg notLink]
      by_cases used : pt.fsType ≠ 0
      · rw [if_pos used]
        have first : partitionsIn lba (pt :: rest) =
            (lba, pt) :: partitionsIn lba rest := by
          simp [partitionsIn, PartitionTable.IsPartition, notLink, used]
        rw [first]
        exact walked.item _
      · rw [if_neg used]
        have first : partitionsIn lba (pt :: rest) =
            partitionsIn lba rest := by
          simp [partitionsIn, PartitionTable.IsPartition, not_not.mp used]
        rw [first]
        exact walked.empty

private theorem linkCells_append (plain : ∀ pt ∈ entries, pt.fsType ≠ 0x5) :
    linkCells base lba (entries ++ rest) =
      linkCells base lba entries ++ linkCells base lba rest := by
  induction entries with
  | nil =>
      rfl
  | cons pt later inductionHypothesis =>
      have same := inductionHypothesis fun tested member =>
        plain tested (List.mem_cons_of_mem pt member)
      rw [List.cons_append, linkCells, linkCells,
        if_neg (plain pt List.mem_cons_self),
        if_neg (plain pt List.mem_cons_self), same]
      split <;> rfl

private theorem extBase_append (plain : ∀ pt ∈ entries, pt.fsType ≠ 0x5) :
    extBase base (entries ++ rest) = extBase base rest := by
  induction entries with
  | nil =>
      rfl
  | cons pt later inductionHypothesis =>
      rw [List.cons_append, extBase, if_neg (plain pt List.mem_cons_self)]
      exact inductionHypothesis fun tested member =>
        plain tested (List.mem_cons_of_mem pt member)

/-- A table with one link is walked up to the link, then behind it, and then
to its end. -/
theorem walked_linked {before after : List PartitionTable}
    {link : PartitionTable} {inner : List Found}
    (plainBefore : ∀ pt ∈ before, pt.fsType ≠ 0x5)
    (extended : link.fsType = 0x5)
    (plainAfter : ∀ pt ∈ after, pt.fsType ≠ 0x5)
    (entered : Walked cells (cells (linkTarget base link)) inner) :
    Walked cells (linkCells base lba (before ++ link :: after))
      (partitionsIn lba before ++ (inner ++ partitionsIn lba after)) := by
  rw [linkCells_append plainBefore, linkCells, if_pos extended]
  exact (walked_plain plainBefore).append
    (entered.link (walked_plain plainAfter))

private theorem EbrChain.walked {sectors : List Nat} (isSet : base ≠ 0)
    (chain : EbrChain d base lba sectors)
    (small : ∀ tested ∈ sectors, tested < 4294967296) :
    Walked (d.cells base) (d.cells base lba) (d.logicals sectors) := by
  induction chain with
  | @last lba plain =>
      have walked : Walked (d.cells base) (d.cells base lba)
          (partitionsIn lba (d.partitionTableArray lba)) := walked_plain plain
      simpa [HdDisk.logicals] using walked
  | @next lba before after link sectors table plain extended unused rest
      inductionHypothesis =>
      have walked := inductionHypothesis fun tested member =>
        small tested (List.mem_cons_of_mem lba member)
      have inside : link.startLba + base < 4294967296 := by
        refine small _ (List.mem_cons_of_mem lba ?_)
        cases rest with
        | last _ =>
            exact List.mem_cons_self
        | next _ _ _ _ _ =>
            exact List.mem_cons_self
      have target : linkTarget base link = link.startLba + base := by
        rw [linkTarget, if_pos isSet, u32_of_lt inside]
      have noneAfter : partitionsIn lba after = [] := by
        simp only [partitionsIn, List.map_eq_nil_iff, List.filter_eq_nil_iff]
        intro pt member
        simp [PartitionTable.IsPartition, unused pt member]
      have plainAfter : ∀ pt ∈ after, pt.fsType ≠ 0x5 := by
        intro pt member
        rw [unused pt member]
        decide
      have all : Walked (d.cells base)
          (linkCells base lba (before ++ link :: after))
          (partitionsIn lba before ++
            (d.logicals sectors ++ partitionsIn lba after)) :=
        walked_linked plain extended plainAfter (target ▸ walked)
      have here : d.logicals (lba :: sectors) =
          partitionsIn lba before ++
            (d.logicals sectors ++ partitionsIn lba after) := by
        rw [noneAfter, List.append_nil, HdDisk.logicals, List.flatMap_cons,
          table, partitionsIn_linked extended, noneAfter, List.append_nil]
        rfl
      rw [here, HdDisk.cells, table]
      exact all

private theorem EbrChain.start_mem {sectors : List Nat}
    (chain : EbrChain d base lba sectors) : lba ∈ sectors := by
  cases chain with
  | last _ =>
      exact List.mem_cons_self
  | next _ _ _ _ _ =>
      exact List.mem_cons_self

private theorem primFound_zero (entries : List PartitionTable) :
    primFound (partitionsIn 0 entries) = partitionsIn 0 entries := by
  refine List.filter_eq_self.mpr ?_
  intro entry member
  obtain ⟨pt, -, rfl⟩ := List.mem_map.mp member
  rfl

private theorem logicFound_zero (entries : List PartitionTable) :
    logicFound (partitionsIn 0 entries) = [] := by
  refine List.filter_eq_nil_iff.mpr ?_
  intro entry member
  obtain ⟨pt, -, rfl⟩ := List.mem_map.mp member
  simp

private theorem logicals_sector {sectors : List Nat} {entry : Found}
    (member : entry ∈ d.logicals sectors) : entry.1 ∈ sectors := by
  obtain ⟨lba, inside, stands⟩ := List.mem_flatMap.mp member
  obtain ⟨pt, -, rfl⟩ := List.mem_map.mp stands
  exact inside

private theorem primFound_logicals {sectors : List Nat}
    (nonzero : ∀ lba ∈ sectors, 0 < lba) :
    primFound (d.logicals sectors) = [] := by
  refine List.filter_eq_nil_iff.mpr ?_
  intro entry member
  simpa using (nonzero _ (logicals_sector member)).ne'

private theorem logicFound_logicals {sectors : List Nat}
    (nonzero : ∀ lba ∈ sectors, 0 < lba) :
    logicFound (d.logicals sectors) = d.logicals sectors := by
  refine List.filter_eq_self.mpr ?_
  intro entry member
  simpa using (nonzero _ (logicals_sector member)).ne'

/-- What the walk along the links of a well-formed disk meets, with a base
that the disk does not use or that is not set. -/
theorem MbrChain.finds {sectors : List Nat} (chain : MbrChain d sectors)
    (onDisk : ∀ tested ∈ sectors, 0 < tested ∧ tested < 268435456)
    (fresh : base = 0 ∨ sectors = []) :
    ∃ found, ScanFinds d base found ∧
      primFound found = partitionsIn 0 (d.partitionTableArray 0) ∧
      logicFound found = d.logicals sectors := by
  cases chain with
  | none plain =>
      exact ⟨_, walked_plain plain, primFound_zero _, logicFound_zero _⟩
  | @extended before after link _ table plainBefore extended plainAfter
      chain =>
      have begins := chain.start_mem
      have start : base = 0 :=
        fresh.resolve_right (List.ne_nil_of_mem begins)
      subst start
      have positive := (onDisk _ begins).1
      have nonzero : ∀ lba ∈ sectors, 0 < lba :=
        fun lba member => (onDisk lba member).1
      have bound : extBase 0 (d.partitionTableArray 0) = link.startLba := by
        rw [table, extBase_append plainBefore, extBase, if_pos extended]
        rfl
      have inner := chain.walked positive.ne' fun lba member =>
        (onDisk lba member).2.trans (by decide)
      refine ⟨partitionsIn 0 before ++
        (d.logicals sectors ++ partitionsIn 0 after), ?_, ?_, ?_⟩
      · unfold ScanFinds HdDisk.linked
        rw [bound, HdDisk.cells, table]
        exact walked_linked plainBefore extended plainAfter inner
      · rw [table, partitionsIn_linked extended, primFound_append,
          primFound_append, primFound_zero, primFound_logicals nonzero,
          primFound_zero, List.nil_append]
      · rw [logicFound_append, logicFound_append, logicFound_zero,
          logicFound_logicals nonzero, logicFound_zero, List.nil_append,
          List.append_nil]

end Walks

/-! ## Scans -/

theorem PartArray.extents_storeAll {a : PartArray} {d : HdDisk}
    {found : List Found} {first : Nat} (cleared : a.cnt = 0)
    (begins : a.no = 0 ∨ found = []) (few : found.length ≤ 255) :
    (List.range (a.storeAll d found first).cnt).map
        (a.storeAll d found first).extent =
      found.map fun entry =>
        (u32 (entry.1 + entry.2.startLba), entry.2.sectorCnt) := by
  rcases begins with start | none
  · have filled := filled_storeAll d first (Or.inr (by omega))
      (show a.cnt + found.length ≤ 255 by omega)
    have extents := filled.extents
    rw [start] at extents
    rwa [filled.cnt, cleared, Nat.zero_add, List.range_eq_range']
  · subst none
    rw [storeAll_nil, cleared]
    rfl

/-- The scan of a disk that is not disturbed returns, with the partitions of
the disk. -/
theorem Undisturbed.scanned {s : ScanState} {d : WellFormedDisk}
    (undisturbed : Undisturbed s d) :
    ∃ s', DiskScan s d s' ∧ Decoded d s' := by
  obtain ⟨found, finds, prim, logic⟩ :=
    d.chain.finds d.onDisk undisturbed.base
  have primLength : (primFound found).length = d.primaries.length := by
    rw [prim]
    exact List.length_map _
  have primBegins : s.prim.no = 0 ∨ primFound found = [] := by
    refine undisturbed.prim.imp_right fun none => ?_
    rw [← List.length_eq_zero_iff, primLength, none]
    rfl
  have logicBegins : s.logic.no = 0 ∨ logicFound found = [] := by
    rw [logic]
    exact undisturbed.logic
  have three := undisturbed.three
  have few := d.few
  rw [← logic] at few
  rw [← primLength] at three
  have quiet : (s.begin d.toHdDisk).Quiet d.toHdDisk found := by
    apply ScanState.quiet_of_room
    · rcases primBegins with start | none
      · exact Or.inr (by rw [show (s.begin _).prim.no = 0 from start]; omega)
      · exact Or.inl (by rw [none]; rfl)
    · rcases logicBegins with start | none
      · exact Or.inr (by rw [show (s.begin _).logic.no = 0 from start]; omega)
      · exact Or.inl (by rw [none]; rfl)
  obtain ⟨depth, r, bound, reached, outcome⟩ := partitionScan_outcome
    (s := s.begin d.toHdDisk) finds
  obtain ⟨base, rfl⟩ := outcome.placed quiet
  refine ⟨_, ⟨depth, reached depth (Nat.le_refl depth)⟩, ?_, ?_⟩
  · rw [ScanState.placeAll_eq]
    refine (PartArray.extents_storeAll (a := (s.begin d.toHdDisk).prim) rfl
      primBegins (by omega)).trans ?_
    rw [prim, partitionsIn, List.map_map]
    refine List.map_congr_left fun pt member => ?_
    obtain ⟨idx, -, rfl⟩ := List.mem_map.mp (List.mem_of_mem_filter member)
    have fits := partitionTable_fits (d.sector 0) (446 + 16 * idx)
    simp only [Function.comp_apply, Nat.zero_add, u32_of_lt fits.2.1]
  · rw [ScanState.placeAll_eq]
    refine (PartArray.extents_storeAll (a := (s.begin d.toHdDisk).logic) rfl
      logicBegins (by omega)).trans ?_
    rw [logic]
    refine List.map_congr_left fun entry member => ?_
    rw [u32_of_lt (d.starts entry member)]

/-- In every run of scans of well-formed disks that the static variables do
not disturb, each scan has decoded its disk, and so does the scan of a next
such disk, without an assertion failing. -/
theorem partition_decodes {trace : List (WellFormedDisk × ScanState)}
    {last : ScanState}
    (run : Run (Guarded DiskScan Undisturbed) scanStart trace last) :
    (∀ d s, (d, s) ∈ trace → Decoded d s) ∧
      ∀ d, Undisturbed last d → ∃ s, DiskScan last d s ∧ Decoded d s := by
  refine ⟨run.forall_event ?_, fun d undisturbed => undisturbed.scanned⟩
  intro s d s' taken
  obtain ⟨⟨depth, returned⟩, undisturbed⟩ := taken
  obtain ⟨s'', ⟨depth', returned'⟩, decoded⟩ := undisturbed.scanned
  rwa [partitionScan_unique returned returned']

/-- `partition_info` then prints the partitions of the disk. -/
theorem Decoded.info {d : WellFormedDisk} {s : ScanState}
    (decoded : Decoded d s) :
    (partitionInfo s).map Prod.snd =
      (d.primaries.map fun pt => (pt.startLba, pt.sectorCnt)) ++
        (d.logicals d.sectors).map fun entry =>
          (entry.1 + entry.2.startLba, entry.2.sectorCnt) := by
  rw [← decoded.prim, ← decoded.logic, partitionInfo, List.map_append]
  simp only [PartArray.info, PartArray.read, List.map_map]
  rfl

/-- One primary partition, and two logical ones in the extended boot records
of the sectors 100 and 150. -/
def twoLogicals : HdDisk :=
  diskWith fun lba =>
    if lba = 0 then
      sectorWith ⟨0x83, 1, 10⟩ ⟨0x5, 100, 80⟩ noEntry noEntry
    else if lba = 100 then
      sectorWith ⟨0x83, 1, 20⟩ ⟨0x5, 50, 30⟩ noEntry noEntry
    else
      sectorWith ⟨0x83, 1, 29⟩ noEntry noEntry noEntry

private theorem twoLogicals_mbr : twoLogicals.partitionTableArray 0 =
    [⟨0x83, 1, 10⟩, ⟨0x5, 100, 80⟩, noEntry, noEntry] :=
  partitionTableArray_sectorWith rfl (by decide)

private theorem twoLogicals_first : twoLogicals.partitionTableArray 100 =
    [⟨0x83, 1, 20⟩, ⟨0x5, 50, 30⟩, noEntry, noEntry] :=
  partitionTableArray_sectorWith rfl (by decide)

private theorem twoLogicals_second : twoLogicals.partitionTableArray 150 =
    [⟨0x83, 1, 29⟩, noEntry, noEntry, noEntry] :=
  partitionTableArray_sectorWith rfl (by decide)

private theorem twoLogicals_logicals : twoLogicals.logicals [100, 150] =
    [(100, ⟨0x83, 1, 20⟩), (150, ⟨0x83, 1, 29⟩)] := by
  rw [HdDisk.logicals, List.flatMap_cons, List.flatMap_cons,
    twoLogicals_first, twoLogicals_second]
  rfl

private theorem twoLogicals_chain : MbrChain twoLogicals [100, 150] := by
  have second : EbrChain twoLogicals 100 150 [150] := by
    refine .last ?_
    rw [twoLogicals_second]
    decide
  have first : EbrChain twoLogicals 100 100 [100, 150] :=
    .next (show _ = [⟨0x83, 1, 20⟩] ++ ⟨0x5, 50, 30⟩ :: [noEntry, noEntry] from
      twoLogicals_first) (by decide) rfl (by decide) second
  exact .extended
    (show _ = [⟨0x83, 1, 10⟩] ++ ⟨0x5, 100, 80⟩ :: [noEntry, noEntry] from
      twoLogicals_mbr) (by decide) rfl (by decide) first

def twoLogicalsDisk : WellFormedDisk where
  toHdDisk := twoLogicals
  sectors := [100, 150]
  chain := twoLogicals_chain
  onDisk := by decide
  starts := by
    rw [twoLogicals_logicals]
    decide
  few := by
    rw [twoLogicals_logicals]
    decide

def onePrimary : HdDisk :=
  diskWith fun _ => sectorWith ⟨0x83, 63, 1000⟩ noEntry noEntry noEntry

private theorem onePrimary_mbr : onePrimary.partitionTableArray 0 =
    [⟨0x83, 63, 1000⟩, noEntry, noEntry, noEntry] :=
  partitionTableArray_sectorWith rfl (by decide)

def onePrimaryDisk : WellFormedDisk where
  toHdDisk := onePrimary
  sectors := []
  chain := by
    refine .none ?_
    rw [onePrimary_mbr]
    decide
  onDisk := by simp
  starts := by simp [HdDisk.logicals]
  few := by simp [HdDisk.logicals]

/-- The statement at the disk with one primary and two logical partitions. -/
theorem partition_decodes_twoLogicals :
    ∃ s, Run (Guarded DiskScan Undisturbed) scanStart
        [(twoLogicalsDisk, s)] s ∧
      Decoded twoLogicalsDisk s ∧
      (List.range s.logic.cnt).map s.logic.extent = [(101, 20), (151, 29)] := by
  have undisturbed : Undisturbed scanStart twoLogicalsDisk := by
    refine ⟨Or.inl rfl, ?_, Or.inl rfl, Or.inl rfl⟩
    rw [HdDisk.primaries]
    rw [show twoLogicalsDisk.partitionTableArray 0 = _ from twoLogicals_mbr]
    decide
  obtain ⟨s, scanned, -⟩ := (partition_decodes Run.start).2 twoLogicalsDisk
    undisturbed
  have run : Run (Guarded DiskScan Undisturbed) scanStart
      [(twoLogicalsDisk, s)] s := Run.start.next ⟨scanned, undisturbed⟩
  have decoded := (partition_decodes run).1 _ _ List.mem_cons_self
  refine ⟨s, run, decoded, ?_⟩
  rw [decoded.logic]
  rw [show twoLogicalsDisk.logicals twoLogicalsDisk.sectors = _ from
    twoLogicals_logicals]
  rfl

private theorem onePrimary_primaries :
    onePrimary.primaries = [⟨0x83, 63, 1000⟩] := by
  rw [HdDisk.primaries, onePrimary_mbr]
  rfl

private theorem partitionScan_onePrimary {s : ScanState}
    (few : (s.prim.no + 1) % 256 < 4) :
    partitionScan onePrimary 1 0 s =
      .ok (s.storePrim onePrimary 0 ⟨0x83, 63, 1000⟩) := by
  have passes : (s.place onePrimary (0, ⟨0x83, 63, 1000⟩)).Passes
      (0, ⟨0x83, 63, 1000⟩) := few
  rw [partitionScan, onePrimary_mbr,
    scanEntries_partition (by decide) (by decide), if_pos passes,
    scanEntries_empty rfl, scanEntries_empty rfl, scanEntries_empty rfl]
  rfl

/-- The primary partition of a second disk is stored behind that of the first
one, and not where `prim_cnt` says. -/
theorem partition_secondDisk :
    ∃ s s', DiskScan scanStart onePrimaryDisk s ∧
      DiskScan s onePrimaryDisk s' ∧ Decoded onePrimaryDisk s ∧
      s'.prim.cnt = 1 ∧ s'.prim.stored = [1] ∧ ¬ Decoded onePrimaryDisk s' := by
  refine ⟨_, _, ⟨1, partitionScan_onePrimary (by decide)⟩,
    ⟨1, partitionScan_onePrimary (by decide)⟩, ⟨?_, rfl⟩, rfl, rfl, ?_⟩
  · rw [show onePrimaryDisk.primaries = _ from onePrimary_primaries]
    rfl
  · intro decoded
    have listed := decoded.prim
    rw [show onePrimaryDisk.primaries = _ from onePrimary_primaries] at listed
    revert listed
    decide

end Simos
