import Simos.Device.IdeChunks

/-!
# Which sectors `ide_read` reads (`device/ide.c`)

* `ideRead_returns` is what a call of `ide_read` does to the channel and to
  the memory;
* `ideRead_exact_iff` says for which requests these are the sectors that were
  asked for.
-/

namespace Simos

open Simos.Library

/-- Every `busy_wait` finds the drive ready. -/
def AlwaysReady (drive : AtaDrive) : Prop :=
  ∀ ata, (busyWait drive ata).1 = true

/-- The byte of a disk that a request moves at an offset of its buffer. -/
def requestByte (ata : AtaChannel) (devNo lba offset : Nat) : BitVec 8 :=
  ata.disks (deviceOf devNo) (transferred lba (offset / 512)) (offset % 512)

structure IdeReading (devNo lba buf secCnt : Nat) (first : IdeChannel)
    (chunk : Nat) (s : IdeChannel) : Prop where
  progress : IdeProgress cmdReadSector devNo lba secCnt first chunk s
  memory : ∀ tested, s.memory.byte tested =
    if buf ≤ tested ∧ tested < buf + 512 * min (256 * chunk) secCnt then
      requestByte first.ata devNo lba (tested - buf)
    else
      first.memory.byte tested

section Round

variable {drive : AtaDrive} {devNo lba buf secCnt chunk : Nat}
  {first s : IdeChannel}

theorem diskSectorToBuf_chunk {address : Nat} (drive : AtaDrive)
    (opened : s.ata.transfer = .fromDisk (deviceOf devNo) address
      (512 * sectorOnce secCnt (256 * chunk)) 0)
    (inside : 256 * chunk < secCnt)
    (buffer : buf + 512 * secCnt ≤ 4294967296) :
    ∃ transfer memory,
      diskSectorToBuf drive s (sectorOnce secCnt (256 * chunk) % 256)
          (u32 (buf + 256 * chunk * 512)) =
        { s with ata := { s.ata with transfer }, memory } ∧
      ∀ tested, memory.byte tested =
        if buf + 512 * (256 * chunk) ≤ tested ∧
            tested < buf + 512 * min (256 * (chunk + 1)) secCnt then
          s.ata.disks (deviceOf devNo)
            (address + (tested - (buf + 512 * (256 * chunk))) / 512)
            ((tested - (buf + 512 * (256 * chunk))) % 512)
        else
          s.memory.byte tested := by
  have most := sectorOnce_add inside
  obtain ⟨channel, bytes⟩ := AtaChannel.readBytes_fromDisk drive s.ata
    s.memory (buf + 512 * (256 * chunk)) opened
    (512 * sectorOnce secCnt (256 * chunk)) (by omega)
  refine ⟨.fromDisk (deviceOf devNo) address
      (512 * sectorOnce secCnt (256 * chunk))
      (0 + 512 * sectorOnce secCnt (256 * chunk)),
    (s.ata.readBytes drive s.memory (buf + 512 * (256 * chunk))
      (512 * sectorOnce secCnt (256 * chunk))).2, ?_, ?_⟩
  · simp only [diskSectorToBuf, sectorToBytes_once inside]
    rw [u32_of_lt (by omega),
      show buf + 256 * chunk * 512 = buf + 512 * (256 * chunk) by omega,
      channel]
  · intro tested
    rw [bytes tested, Nat.zero_add]
    by_cases chunkByte : buf + 512 * (256 * chunk) ≤ tested ∧
        tested < buf + 512 * min (256 * (chunk + 1)) secCnt
    · rw [if_pos chunkByte, if_pos (by omega)]
      rfl
    · rw [if_neg chunkByte, if_neg (by omega)]

private theorem IdeReading.round (ready : AlwaysReady drive) (cur : Nat)
    (line : first.irqNo = 0x2e ∨ first.irqNo = 0x2f)
    (range : lba + secCnt ≤ 268435456)
    (buffer : buf + 512 * secCnt ≤ 4294967296)
    (inside : 256 * chunk < secCnt)
    (reading : IdeReading devNo lba buf secCnt first chunk s) :
    ∃ s', ideReadRound drive lba buf secCnt cur (256 * chunk) s = .ok s' ∧
      IdeReading devNo lba buf secCnt first (chunk + 1) s' := by
  obtain ⟨progress, memory⟩ := reading
  rw [← progress.irqNo] at line
  let sent : IdeChannel := { s with
    waitIntr := true
    ata := commanded s.ata cmdReadSector devNo lba secCnt chunk }
  have down : diskOkDown sent cur =
      .ok { sent with waitIntr := false, ata := sent.ata.statusRead } :=
    diskOkDown_returns cur line rfl progress.diskOk
  obtain ⟨reads, waited⟩ := busyWait_ata drive sent.ata.statusRead
  let waitedFor : IdeChannel := { sent with
    waitIntr := false
    ata := { sent.ata with statusReads := reads } }
  obtain ⟨transfer, after, moved, bytes⟩ := diskSectorToBuf_chunk
    (s := waitedFor) drive rfl inside buffer
  refine ⟨{ waitedFor with
    ata := { waitedFor.ata with transfer }, memory := after }, ?_, ?_, ?_⟩
  · simp only [ideReadRound, progress.sent inside range]
    rw [show diskOkDown _ cur = _ from down]
    simp only [Call.ok_bind, Call.assert_of (ready _)]
    rw [show (busyWait drive _).2 = _ from waited]
    exact congrArg Except.ok moved
  · exact progress.next rfl rfl progress.diskOk rfl rfl rfl
  · intro tested
    rw [bytes tested]
    by_cases chunkByte : buf + 512 * (256 * chunk) ≤ tested ∧
        tested < buf + 512 * min (256 * (chunk + 1)) secCnt
    · have index : (tested - buf) / 512 = 256 * chunk +
          (tested - (buf + 512 * (256 * chunk))) / 512 := by
        omega
      have offset : (tested - (buf + 512 * (256 * chunk))) % 512 =
          (tested - buf) % 512 := by
        omega
      have small : (tested - (buf + 512 * (256 * chunk))) / 512 < 256 := by
        omega
      have disks : waitedFor.ata.disks = first.ata.disks := progress.disks
      rw [if_pos chunkByte, if_pos (by omega), disks, offset]
      unfold requestByte transferred
      rw [index, show (256 * chunk +
          (tested - (buf + 512 * (256 * chunk))) / 512) / 256 = chunk by omega,
        show (256 * chunk +
          (tested - (buf + 512 * (256 * chunk))) / 512) % 256 =
          (tested - (buf + 512 * (256 * chunk))) / 512 by omega]
    · rw [if_neg chunkByte]
      refine (memory tested).trans ?_
      by_cases earlier : buf ≤ tested ∧
          tested < buf + 512 * min (256 * chunk) secCnt
      · rw [if_pos earlier, if_pos (by omega)]
      · rw [if_neg earlier, if_neg (by omega)]

end Round

section Read

variable {drive : AtaDrive} {devNo lba buf secCnt cur : Nat} {s : IdeChannel}

/-- A call of `ide_read` returns, and fills the buffer with the sectors that
its commands are for. -/
theorem ideRead_returns (ready : AlwaysReady drive) (devNo : Nat)
    (idle : IdeIdle s) (task : cur ≠ 0) (positive : 0 < secCnt)
    (range : lba + secCnt ≤ 268435456)
    (buffer : buf + 512 * secCnt ≤ 4294967296) :
    ∃ s', ideRead drive devNo lba buf secCnt cur s = .ok s' ∧ IdeIdle s' ∧
      s'.ata.disks = s.ata.disks ∧
      s'.ata.commands = s.ata.commands ++
        (List.range (chunkCount secCnt)).map
          (chunkCommand lba cmdReadSector (deviceOf devNo) secCnt) ∧
      ∀ tested, s'.memory.byte tested =
        if buf ≤ tested ∧ tested < buf + 512 * secCnt then
          requestByte s.ata devNo lba (tested - buf)
        else
          s.memory.byte tested := by
  let locked := lockedChannel devNo cur s
  have start : IdeReading devNo lba buf secCnt locked 0 locked := by
    refine ⟨idle.progress _ _ _ _ _, ?_⟩
    intro tested
    rw [Nat.mul_zero, Nat.zero_min, if_neg (by omega)]
  have step : ∀ chunk s, 256 * chunk < secCnt →
      IdeReading devNo lba buf secCnt locked chunk s →
      ∃ s', ideReadRound drive lba buf secCnt cur (256 * chunk) s = .ok s' ∧
        IdeReading devNo lba buf secCnt locked (chunk + 1) s' :=
    fun _ _ inside reading =>
      reading.round ready cur idle.line range buffer inside
  obtain ⟨last, returned, idleAfter, progress, memory⟩ :=
    lockedRounds_returns idle task positive (by omega) start step
      fun _ _ reading => reading.progress
  have finished : min (256 * chunkCount secCnt) secCnt = secCnt := by
    unfold chunkCount
    omega
  rw [finished] at memory
  exact ⟨{ last with lock := lockInit }, returned, idleAfter, progress.disks,
    progress.commands, memory⟩

/-- The sectors that were asked for, each once and in order, have been read to
their places in the buffer, and nothing else has been written. -/
structure ReadsExactly (devNo lba buf secCnt : Nat) (s s' : IdeChannel) :
    Prop where
  issued : ∃ commands, s'.ata.commands = s.ata.commands ++ commands ∧
    (∀ command ∈ commands, command.code = cmdReadSector) ∧
    commands.flatMap AtaCommand.covered =
      (List.range secCnt).map fun index => (deviceOf devNo, lba + index)
  stored : ∀ index, index < secCnt → ∀ offset, offset < 512 →
    s'.memory.byte (buf + 512 * index + offset) =
      s.ata.disks (deviceOf devNo) (lba + index) offset
  others : ∀ tested, tested < buf ∨ buf + 512 * secCnt ≤ tested →
    s'.memory.byte tested = s.memory.byte tested

/-- `ide_read` returns, and reads exactly the sectors asked for when the
chunks of the request start in one block of 2^24 sectors, or in an
even-numbered block and the next one. -/
theorem ideRead_exact_iff (ready : AlwaysReady drive) (devNo : Nat)
    (idle : IdeIdle s) (task : cur ≠ 0) (positive : 0 < secCnt)
    (range : lba + secCnt ≤ 268435456)
    (buffer : buf + 512 * secCnt ≤ 4294967296) :
    ∃ s', ideRead drive devNo lba buf secCnt cur s = .ok s' ∧
      (ReadsExactly devNo lba buf secCnt s s' ↔ StaysInBlocks lba secCnt) := by
  obtain ⟨s', returned, -, disks, commands, memory⟩ :=
    ideRead_returns ready devNo idle task positive range buffer
  refine ⟨s', returned, ?_⟩
  rw [← transferred_iff positive range]
  have covered := chunkCommands_covered lba cmdReadSector (deviceOf devNo)
    secCnt
  constructor
  · intro exactly index inside
    obtain ⟨issued, equal, -, sectors⟩ := exactly.issued
    rw [commands, List.append_cancel_left_eq] at equal
    rw [equal, sectors, List.map_inj_left] at covered
    have same := covered index (List.mem_range.mpr inside)
    exact (Prod.mk.inj same).2.symm
  · intro asked
    constructor
    case issued =>
      refine ⟨_, commands, ?_, ?_⟩
      · intro command member
        obtain ⟨chunk, _, rfl⟩ := List.mem_map.mp member
        rfl
      · rw [covered, List.map_inj_left]
        intro index member
        rw [asked index (List.mem_range.mp member)]
    case stored =>
      intro index inside offset small
      rw [memory, if_pos (by omega)]
      unfold requestByte
      rw [show (buf + 512 * index + offset - buf) / 512 = index by omega,
        show (buf + 512 * index + offset - buf) % 512 = offset by omega,
        asked index inside]
    case others =>
      intro tested outside
      rw [memory, if_neg (by omega)]

end Read

def readyDrive : AtaDrive :=
  ⟨fun _ => 0x48, fun _ => 0xff⟩

theorem readyDrive_alwaysReady : AlwaysReady readyDrive := by
  intro ata
  simp [busyWait, busyWaitLoop, readyDrive, bitAltStatusBsy, bitAltStatusDrq]

/-- A channel on which each sector is filled with the number of its block, and
memory that is all zero. -/
def blockChannel : IdeChannel where
  irqNo := 0x2e
  lock := lockInit
  waitIntr := false
  diskOk := semaInit 0
  ata :=
    { sectCnt := 0
      lbaL := 0
      lbaM := 0
      lbaH := 0
      dev := 0
      disks := fun _ sector _ => BitVec.ofNat 8 (sector / 16777216)
      transfer := .idle
      commands := []
      statusReads := 0 }
  memory := ⟨fun _ => 0⟩

theorem blockChannel_idle : IdeIdle blockChannel :=
  ⟨Or.inl rfl, rfl, rfl⟩

/-- The statement at a request that crosses into block 1. -/
theorem ideRead_exact_iff_crossing :
    ∃ s', ideRead readyDrive 1 0xfffffe 0xc1000000 300 1 blockChannel =
        .ok s' ∧
      (ReadsExactly 1 0xfffffe 0xc1000000 300 blockChannel s' ↔
        StaysInBlocks 0xfffffe 300) :=
  ideRead_exact_iff readyDrive_alwaysReady 1 blockChannel_idle (by decide)
    (by decide) (by decide) (by decide)

/-- A request that crosses into block 2 takes the sector with the same number
in block 3. -/
theorem ideRead_wrong_block :
    ∃ s', ideRead readyDrive 0 0x1ffff00 0xc1000000 257 1 blockChannel =
        .ok s' ∧
      ⟨cmdReadSector, 0, 0x3000000, 1⟩ ∈ s'.ata.commands ∧
      s'.memory.byte (0xc1000000 + 512 * 256) = 3 ∧
      blockChannel.ata.disks 0 (0x1ffff00 + 256) 0 = 2 ∧
      ¬ ReadsExactly 0 0x1ffff00 0xc1000000 257 blockChannel s' := by
  obtain ⟨s', returned, -, -, commands, memory⟩ :=
    ideRead_returns readyDrive_alwaysReady 0 blockChannel_idle
      (show 1 ≠ 0 by decide) (show 0 < 257 by decide)
      (show 0x1ffff00 + 257 ≤ 268435456 by decide)
      (show 0xc1000000 + 512 * 257 ≤ 4294967296 by decide)
  have byte : s'.memory.byte (0xc1000000 + 512 * 256) = 3 := by
    rw [memory, if_pos (by decide)]
    rfl
  refine ⟨s', returned, ?_, byte, by decide, ?_⟩
  · rw [commands]
    exact List.mem_of_mem_getLast? (by decide)
  · intro exactly
    have asked := exactly.stored 256 (by decide) 0 (by decide)
    rw [Nat.add_zero, byte] at asked
    exact absurd asked (by decide)

end Simos
