import Simos.Device.IdeRead

/-!
# Partition tables (`device/ide.c`)

`partition_scan` reads a sector with a partition table and goes through its
four entries.  An extended entry leads to another sector, which is scanned
before the scan goes on behind the entry.  `ext_lba_base`, `p_no` and `l_no`
are static variables of the function: they keep their values from one disk to
the next.

The sector that `ide_read` delivers is `HdDisk.sector`, as `ideRead_sector`
shows.  A store behind the end of one of the two arrays is
recorded with its index; what it overwrites there is not modelled.

The depth of the recursion is not limited here.  In the kernel each level keeps
the 512 bytes of its sector on the stack, which shares one page with the PCB of
the thread: a chain of seven sectors already runs into the PCB.
-/

namespace Simos

open Simos.Library

/-! ## One sector -/

/-- The device that takes a command for a sector: bit 28 of the sector number
falls on the bit of the device register that selects the disk. -/
def deviceTaken (devNo lba : Nat) : Nat :=
  if devNo = 1 ∨ lba / 268435456 % 2 = 1 then 1 else 0

theorem diskSelectSector_one (ata : AtaChannel) (devNo lba : Nat)
    (bound : lba < 4294967296) :
    ((diskSelectSector (diskSelectHd ata devNo) lba 1).command
        cmdReadSector).transfer =
      .fromDisk (deviceTaken devNo lba) (lba % 268435456) 512 0 := by
  have register : ∀ device, device < 2 → ∀ block, block < 256 →
      ((0xe0 + 16 * device ||| block) % 256) / 16 % 2 =
          (if device = 1 ∨ block / 16 % 2 = 1 then 1 else 0) ∧
        ((0xe0 + 16 * device ||| block) % 256) % 16 = block % 16 := by
    decide +kernel
  have selects : (deviceOf devNo = 1) ↔ devNo = 1 := by
    unfold deviceOf
    split <;> simp_all
  obtain ⟨device, nibble⟩ := register (deviceOf devNo) (deviceOf_lt devNo)
    (lba / 16777216) (by omega)
  rw [diskSelectHd_eq]
  simp only [AtaChannel.command, AtaChannel.opened, cmdReadSector, if_true,
    AtaChannel.device, AtaChannel.address, AtaChannel.sectors,
    diskSelectSector, deviceRegister, Nat.add_zero,
    Nat.shiftRight_eq_div_pow, AtaTransfer.fromDisk.injEq]
  refine ⟨?_, ?_, ?_, trivial⟩
  · rw [device]
    unfold deviceTaken
    simp only [selects, show lba / 16777216 / 16 = lba / 268435456 by omega]
  · rw [nibble]
    omega
  · rfl

/-! ## The scan -/

/-- What is read of a `struct partition_table`. -/
structure PartitionTable where
  fsType : Nat
  startLba : Nat
  sectorCnt : Nat
  deriving DecidableEq, Repr

/-- `struct partition`, as far as the scan fills it. -/
structure Partition where
  startLba : Nat
  sectorCnt : Nat
  disk : Nat
  name : String

/-- A disk before its scan: the place and the name of its `struct disk`, its
number on the channel, the contents of both disks of the channel, and what
stands in the arrays. -/
structure HdDisk where
  address : Nat
  name : String
  devNo : Nat
  disks : Nat → Nat → Nat → BitVec 8
  primParts : Nat → Partition
  logicParts : Nat → Partition

def HdDisk.sector (d : HdDisk) (lba : Nat) : ByteMemory :=
  ⟨d.disks (deviceTaken d.devNo lba) (lba % 268435456)⟩

/-- `ide_read` of one sector of a disk, whatever its number, delivers
`HdDisk.sector`. -/
theorem ideRead_sector {drive : AtaDrive} (ready : AlwaysReady drive)
    {d : HdDisk} {lba buf cur : Nat} {s : IdeChannel} (idle : IdeIdle s)
    (disks : s.ata.disks = d.disks) (task : cur ≠ 0)
    (bound : lba < 4294967296) (buffer : buf + 512 ≤ 4294967296) :
    ∃ s', ideRead drive d.devNo lba buf 1 cur s = .ok s' ∧ IdeIdle s' ∧
      s'.ata.disks = d.disks ∧
      ∀ tested, s'.memory.byte tested =
        if buf ≤ tested ∧ tested < buf + 512 then
          (d.sector lba).byte (tested - buf)
        else
          s.memory.byte tested := by
  let sent : IdeChannel := { s with
    lock := ⟨cur, ⟨0, []⟩, 1⟩
    waitIntr := true
    ata := (diskSelectSector (diskSelectHd s.ata d.devNo) lba 1).command
      cmdReadSector }
  have opened := diskSelectSector_one s.ata d.devNo lba bound
  have down : diskOkDown sent cur =
      .ok { sent with waitIntr := false, ata := sent.ata.statusRead } :=
    diskOkDown_returns cur idle.line rfl idle.diskOk
  obtain ⟨reads, waited⟩ := busyWait_ata drive sent.ata.statusRead
  let waitedFor : AtaChannel := { sent.ata with statusReads := reads }
  obtain ⟨channel, bytes⟩ := AtaChannel.readBytes_fromDisk drive waitedFor
    s.memory buf opened 512 (by decide)
  refine ⟨{ s with
    lock := lockInit
    waitIntr := false
    ata := (waitedFor.readBytes drive s.memory buf 512).1
    memory := (waitedFor.readBytes drive s.memory buf 512).2 },
    ?_, ⟨idle.line, rfl, idle.diskOk⟩, ?_, ?_⟩
  · have round : ideReadRound drive lba buf 1 cur 0
        { s with
          lock := ⟨cur, ⟨0, []⟩, 1⟩
          ata := diskSelectHd s.ata d.devNo } =
        .ok { sent with
          waitIntr := false
          ata := (waitedFor.readBytes drive s.memory buf 512).1
          memory := (waitedFor.readBytes drive s.memory buf 512).2 } := by
      simp only [ideReadRound, Nat.add_zero, u32_of_lt bound]
      rw [show channelControlCmd _ cmdReadSector = sent from rfl, down]
      simp only [Call.ok_bind, Call.assert_of (ready _)]
      rw [show (busyWait drive _).2 = _ from waited, Nat.zero_mul,
        Nat.add_zero, u32_of_lt (by omega)]
      rfl
    simp only [ideRead, Call.ok_bind, idle.lock,
      lockAcquireAlone_lockInit task, ideLoop, Nat.zero_lt_one, if_true]
    rw [show ideReadRound drive lba buf 1 cur 0 _ = _ from round]
    simp only [Call.ok_bind]
    rw [if_neg (by decide)]
    simp only [Call.pure_eq_ok, Call.ok_bind]
    rw [show lockReleaseAlone _ cur = _ from lockReleaseAlone_taken]
    rfl
  · rw [channel]
    exact disks
  · intro tested
    rw [bytes tested]
    by_cases inside : buf ≤ tested ∧ tested < buf + 512
    · rw [if_pos inside, if_pos inside, Nat.zero_add]
      unfold AtaChannel.diskByte
      rw [show (tested - buf) / 512 = 0 by omega,
        show (tested - buf) % 512 = tested - buf by omega, Nat.add_zero,
        show waitedFor.disks = d.disks from disks]
      rfl
    · rw [if_neg inside, if_neg inside]

def partitionTable (sector : ByteMemory) (offset : Nat) : PartitionTable where
  fsType := (sector.byte (offset + 4)).toNat
  startLba := sector.loadWord (offset + 8)
  sectorCnt := sector.loadWord (offset + 12)

/-- `partition_table_array` of the `struct boot_sector` in a sector. -/
def HdDisk.partitionTableArray (d : HdDisk) (lba : Nat) :
    List PartitionTable :=
  (List.range 4).map fun idx => partitionTable (d.sector lba) (446 + 16 * idx)

/-- An array of a disk with its counter, and the static variable that is the
index of the next store.  `stored` are the indices stored at for this disk. -/
structure PartArray where
  no : Nat
  cnt : Nat
  parts : Nat → Partition
  stored : List Nat

/-- The stores for one entry; names are counted from `first`. -/
def PartArray.store (a : PartArray) (d : HdDisk) (extLba : Nat)
    (pt : PartitionTable) (first : Nat) : PartArray where
  no := (a.no + 1) % 256
  cnt := (a.cnt + 1) % 256
  parts := Function.update a.parts a.no
    ⟨u32 (extLba + pt.startLba), pt.sectorCnt, d.address,
      d.name ++ toString (a.no + first)⟩
  stored := a.stored ++ [a.no]

/-- The static variables of `partition_scan` and the disk that is scanned. -/
structure ScanState where
  extLbaBase : Nat
  prim : PartArray
  logic : PartArray

namespace ScanState

def storePrim (s : ScanState) (d : HdDisk) (extLba : Nat)
    (pt : PartitionTable) : ScanState :=
  { s with prim := s.prim.store d extLba pt 1 }

def storeLogic (s : ScanState) (d : HdDisk) (extLba : Nat)
    (pt : PartitionTable) : ScanState :=
  { s with logic := s.logic.store d extLba pt 5 }

/-- The state before the scan of a disk: `ide_init` clears its counters. -/
def begin (s : ScanState) (d : HdDisk) : ScanState :=
  { s with
    prim := ⟨s.prim.no, 0, d.primParts, []⟩
    logic := ⟨s.logic.no, 0, d.logicParts, []⟩ }

end ScanState

/-- The static variables as the program starts, with no disk scanned. -/
def scanStart : ScanState where
  extLbaBase := 0
  prim := ⟨0, 0, fun _ => ⟨0, 0, 0, ""⟩, []⟩
  logic := ⟨0, 0, fun _ => ⟨0, 0, 0, ""⟩, []⟩

/-- The loop of `partition_scan` over the entries that are left. -/
def scanEntries (scan : Nat → ScanState → Call ScanState) (d : HdDisk)
    (extLba : Nat) : List PartitionTable → ScanState → Call ScanState
  | [], s => .ok s
  | pt :: rest, s =>
      if pt.fsType = 0x5 then
        if s.extLbaBase ≠ 0 then do
          let s ← scan (u32 (pt.startLba + s.extLbaBase)) s
          scanEntries scan d extLba rest s
        else do
          let s := { s with extLbaBase := pt.startLba }
          let s ← scan s.extLbaBase s
          scanEntries scan d extLba rest s
      else if pt.fsType ≠ 0 then
        if extLba = 0 then do
          let s := s.storePrim d extLba pt
          Call.assert (s.prim.no < 4)
          scanEntries scan d extLba rest s
        else
          let s := s.storeLogic d extLba pt
          if s.logic.no > 8 then
            .ok s
          else
            scanEntries scan d extLba rest s
      else
        scanEntries scan d extLba rest s

/-- `partition_scan`, with a bound on the depth of its recursion. -/
def partitionScan (d : HdDisk) : Nat → Nat → ScanState → Call ScanState
  | 0, _, _ => .error .diverges
  | depth + 1, extLba, s =>
      scanEntries (partitionScan d depth) d extLba
        (d.partitionTableArray extLba) s

def PartArray.read (a : PartArray) : List Nat :=
  List.range a.cnt

def PartArray.info (a : PartArray) : List (String × Nat × Nat) :=
  a.read.map fun i =>
    ((a.parts i).name, (a.parts i).startLba, (a.parts i).sectorCnt)

def partitionInfo (s : ScanState) : List (String × Nat × Nat) :=
  s.prim.info ++ s.logic.info

/-! ## Sectors with given entries -/

/-- The values fit into the fields of `struct partition_table`. -/
def PartitionTable.Fits (pt : PartitionTable) : Prop :=
  pt.fsType < 256 ∧ pt.startLba < 4294967296 ∧ pt.sectorCnt < 4294967296

instance (pt : PartitionTable) : Decidable pt.Fits :=
  inferInstanceAs (Decidable (_ ∧ _))

def storeEntry (sector : ByteMemory) (offset : Nat) (pt : PartitionTable) :
    ByteMemory :=
  ((sector.storeByte (offset + 4) (BitVec.ofNat 8 pt.fsType)).storeWord
    (offset + 8) pt.startLba).storeWord (offset + 12) pt.sectorCnt

theorem partitionTable_fits (sector : ByteMemory) (offset : Nat) :
    (partitionTable sector offset).Fits :=
  ⟨(sector.byte (offset + 4)).isLt, sector.loadWord_lt _,
    sector.loadWord_lt _⟩

private theorem partitionTable_storeEntry_self (sector : ByteMemory)
    (offset : Nat) {pt : PartitionTable} (fits : pt.Fits) :
    partitionTable (storeEntry sector offset pt) offset = pt := by
  obtain ⟨small, start, count⟩ := fits
  have sectorCnt := ByteMemory.loadWord_storeWord_self
    ((sector.storeByte (offset + 4) (BitVec.ofNat 8 pt.fsType)).storeWord
      (offset + 8) pt.startLba) (offset + 12) count
  have startLba := ByteMemory.loadWord_storeWord_self
    (sector.storeByte (offset + 4) (BitVec.ofNat 8 pt.fsType)) (offset + 8)
    start
  have fsType : ((storeEntry sector offset pt).byte (offset + 4)).toNat =
      pt.fsType := by
    unfold storeEntry
    rw [ByteMemory.byte_storeWord_of_outside _ _ (by omega),
      ByteMemory.byte_storeWord_of_outside _ _ (by omega),
      ByteMemory.byte_storeByte, if_pos rfl, BitVec.toNat_ofNat]
    exact Nat.mod_eq_of_lt small
  unfold partitionTable
  rw [fsType]
  unfold storeEntry
  rw [sectorCnt, ByteMemory.loadWord_storeWord_of_disjoint _ _ (by omega),
    startLba]

private theorem partitionTable_storeEntry_of_disjoint (sector : ByteMemory)
    {offset tested : Nat} (pt : PartitionTable)
    (disjoint : tested + 16 ≤ offset ∨ offset + 16 ≤ tested) :
    partitionTable (storeEntry sector offset pt) tested =
      partitionTable sector tested := by
  have words : ∀ field, field ≤ 12 →
      (storeEntry sector offset pt).loadWord (tested + field) =
        sector.loadWord (tested + field) := by
    intro field inside
    unfold storeEntry
    rw [ByteMemory.loadWord_storeWord_of_disjoint _ _ (by omega),
      ByteMemory.loadWord_storeWord_of_disjoint _ _ (by omega),
      ByteMemory.loadWord_storeByte_of_outside _ _ (by omega)]
  have byte : (storeEntry sector offset pt).byte (tested + 4) =
      sector.byte (tested + 4) := by
    unfold storeEntry
    rw [ByteMemory.byte_storeWord_of_outside _ _ (by omega),
      ByteMemory.byte_storeWord_of_outside _ _ (by omega),
      ByteMemory.byte_storeByte, if_neg (by omega)]
  unfold partitionTable
  rw [byte, words 8 (by decide), words 12 (by decide)]

def sectorWith (first second third fourth : PartitionTable) : ByteMemory :=
  storeEntry (storeEntry (storeEntry (storeEntry ⟨fun _ => 0⟩ 446 first)
    462 second) 478 third) 494 fourth

theorem partitionTableArray_sectorWith {d : HdDisk} {lba : Nat}
    {first second third fourth : PartitionTable}
    (sector : d.sector lba = sectorWith first second third fourth)
    (fits : first.Fits ∧ second.Fits ∧ third.Fits ∧ fourth.Fits) :
    d.partitionTableArray lba = [first, second, third, fourth] := by
  obtain ⟨firstFits, secondFits, thirdFits, fourthFits⟩ := fits
  unfold HdDisk.partitionTableArray
  rw [sector]
  simp only [List.range_succ_eq_map, List.range_zero, List.map_cons,
    List.map_nil, sectorWith, List.cons.injEq, and_true]
  refine ⟨?_, ?_, ?_, ?_⟩
  · rw [partitionTable_storeEntry_of_disjoint _ _ (by omega),
      partitionTable_storeEntry_of_disjoint _ _ (by omega),
      partitionTable_storeEntry_of_disjoint _ _ (by omega),
      partitionTable_storeEntry_self _ _ firstFits]
  · rw [partitionTable_storeEntry_of_disjoint _ _ (by omega),
      partitionTable_storeEntry_of_disjoint _ _ (by omega),
      partitionTable_storeEntry_self _ _ secondFits]
  · rw [partitionTable_storeEntry_of_disjoint _ _ (by omega),
      partitionTable_storeEntry_self _ _ thirdFits]
  · rw [partitionTable_storeEntry_self _ _ fourthFits]

end Simos
