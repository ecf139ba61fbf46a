import Simos.Device.IdeRead

/-!
# What `ide_write` leaves on the disk (`device/ide.c`)

`CMD_WRITE_SECTOR` is `0x10`, which opens no transfer: the words that
`disk_buf_to_sector` sends are lost.

* `ideWrite_returns` says that the disks stay as they are;
* `ideWrite_readsBack_iff` says when a read gives back what was written;
* `ideWrite_stops`: a drive that asks for data only in an open transfer makes
  `ide_write` fail.
-/

namespace Simos

open Simos.Library

structure IdeWriting (devNo lba secCnt : Nat) (first : IdeChannel)
    (chunk : Nat) (s : IdeChannel) : Prop where
  progress : IdeProgress cmdWriteSector devNo lba secCnt first chunk s
  memory : s.memory = first.memory

section Write

variable {drive : AtaDrive} {devNo lba buf secCnt chunk cur : Nat}
  {first s : IdeChannel}

private theorem IdeWriting.round (ready : AlwaysReady drive) (buf cur : Nat)
    (line : first.irqNo = 0x2e ∨ first.irqNo = 0x2f)
    (range : lba + secCnt ≤ 268435456)
    (inside : 256 * chunk < secCnt)
    (writing : IdeWriting devNo lba secCnt first chunk s) :
    ∃ s', ideWriteRound drive lba buf secCnt cur (256 * chunk) s = .ok s' ∧
      IdeWriting devNo lba secCnt first (chunk + 1) s' := by
  obtain ⟨progress, memory⟩ := writing
  rw [← progress.irqNo] at line
  let sent : IdeChannel := { s with
    waitIntr := true
    ata := commanded s.ata cmdWriteSector devNo lba secCnt chunk }
  obtain ⟨reads, waited⟩ := busyWait_ata drive sent.ata
  let waitedFor : IdeChannel := { sent with
    ata := { sent.ata with statusReads := reads } }
  have lost : diskBufToSector waitedFor
      (sectorOnce secCnt (256 * chunk) % 256) (u32 (buf + 256 * chunk * 512)) =
        waitedFor := by
    unfold diskBufToSector
    simp only
    rw [AtaChannel.writeBytes_of_idle _ _ _ rfl]
  have down : diskOkDown waitedFor cur =
      .ok { waitedFor with
        waitIntr := false, ata := waitedFor.ata.statusRead } :=
    diskOkDown_returns cur line rfl progress.diskOk
  refine ⟨{ waitedFor with
    waitIntr := false, ata := waitedFor.ata.statusRead }, ?_, ?_, ?_⟩
  · simp only [ideWriteRound, progress.sent inside range]
    simp only [Call.ok_bind, Call.assert_of (ready _)]
    rw [show (busyWait drive _).2 = _ from waited,
      show diskBufToSector _ _ _ = _ from lost]
    exact down
  · exact progress.next rfl rfl progress.diskOk rfl rfl rfl
  · exact memory

/-- A call of `ide_write` returns, and changes neither a disk nor the
memory. -/
theorem ideWrite_returns (ready : AlwaysReady drive) (devNo buf : Nat)
    (idle : IdeIdle s) (task : cur ≠ 0) (positive : 0 < secCnt)
    (range : lba + secCnt ≤ 268435456) :
    ∃ s', ideWrite drive devNo lba buf secCnt cur s = .ok s' ∧ IdeIdle s' ∧
      s'.ata.disks = s.ata.disks ∧ s'.memory = s.memory := by
  let locked := lockedChannel devNo cur s
  have start : IdeWriting devNo lba secCnt locked 0 locked :=
    ⟨idle.progress _ _ _ _ _, rfl⟩
  have step : ∀ chunk s, 256 * chunk < secCnt →
      IdeWriting devNo lba secCnt locked chunk s →
      ∃ s', ideWriteRound drive lba buf secCnt cur (256 * chunk) s = .ok s' ∧
        IdeWriting devNo lba secCnt locked (chunk + 1) s' :=
    fun _ _ inside writing =>
      writing.round ready buf cur idle.line range inside
  obtain ⟨last, returned, idleAfter, progress, memory⟩ :=
    lockedRounds_returns idle task positive (by omega) start step
      fun _ _ writing => writing.progress
  exact ⟨{ last with lock := lockInit }, returned, idleAfter, progress.disks,
    memory⟩

/-- The buffer `out` holds what the buffer `buf` held, and nothing but the
sectors of the request has changed on the disks. -/
structure ReadsBack (devNo lba buf out secCnt : Nat) (s final : IdeChannel) :
    Prop where
  filled : ∀ offset, offset < 512 * secCnt →
    final.memory.byte (out + offset) = s.memory.byte (buf + offset)
  others : ∀ sector, sector < lba ∨ lba + secCnt ≤ sector →
    final.ata.disks (deviceOf devNo) sector =
      s.ata.disks (deviceOf devNo) sector
  otherDisk : ∀ device, device ≠ deviceOf devNo →
    final.ata.disks device = s.ata.disks device

/-- The sectors that a request moves already hold the buffer. -/
def AlreadyWritten (devNo lba buf secCnt : Nat) (s : IdeChannel) : Prop :=
  ∀ offset, offset < 512 * secCnt →
    requestByte s.ata devNo lba offset = s.memory.byte (buf + offset)

/-- A write and a read return, and the read gives back what was written
exactly when it was there before. -/
theorem ideWrite_readsBack_iff {out : Nat} (ready : AlwaysReady drive)
    (devNo : Nat) (idle : IdeIdle s) (task : cur ≠ 0) (positive : 0 < secCnt)
    (range : lba + secCnt ≤ 268435456)
    (buffer : out + 512 * secCnt ≤ 4294967296) :
    ∃ written final,
      ideWrite drive devNo lba buf secCnt cur s = .ok written ∧
      ideRead drive devNo lba out secCnt cur written = .ok final ∧
      (ReadsBack devNo lba buf out secCnt s final ↔
        AlreadyWritten devNo lba buf secCnt s) := by
  obtain ⟨written, wrote, stillIdle, disks, memory⟩ :=
    ideWrite_returns ready devNo buf idle task positive range
  obtain ⟨final, read, -, finalDisks, -, bytes⟩ :=
    ideRead_returns ready devNo stillIdle task positive range buffer
  rw [disks] at finalDisks
  have moved : ∀ offset, offset < 512 * secCnt →
      final.memory.byte (out + offset) =
        requestByte s.ata devNo lba offset := by
    intro offset small
    rw [bytes, if_pos (by omega), Nat.add_sub_cancel_left]
    unfold requestByte
    rw [disks]
  refine ⟨written, final, wrote, read, ?_⟩
  constructor
  · intro back offset small
    exact (moved offset small).symm.trans (back.filled offset small)
  · intro there
    constructor
    case filled =>
      intro offset small
      exact (moved offset small).trans (there offset small)
    case others =>
      intro sector _
      rw [finalDisks]
    case otherDisk =>
      intro device _
      rw [finalDisks]

/-- The statement at a channel on which the sector holds the buffer. -/
theorem ideWrite_readsBack_iff_zero :
    ∃ written final,
      ideWrite readyDrive 0 7 0xc1000000 1 1 blockChannel = .ok written ∧
      ideRead readyDrive 0 7 0xc1001000 1 1 written = .ok final ∧
      (ReadsBack 0 7 0xc1000000 0xc1001000 1 blockChannel final ↔
        AlreadyWritten 0 7 0xc1000000 1 blockChannel) :=
  ideWrite_readsBack_iff readyDrive_alwaysReady 0 blockChannel_idle (by decide)
    (by decide) (by decide) (by decide)

/-- A sector of zeros is written over a sector that holds something else, and
does not come back. -/
theorem ideWrite_lost :
    ∃ written final,
      ideWrite readyDrive 0 0x1000000 0xc1000000 1 1 blockChannel =
        .ok written ∧
      ideRead readyDrive 0 0x1000000 0xc1001000 1 1 written = .ok final ∧
      final.memory.byte 0xc1001000 = 1 ∧
      blockChannel.memory.byte 0xc1000000 = 0 ∧
      ¬ ReadsBack 0 0x1000000 0xc1000000 0xc1001000 1 blockChannel final := by
  obtain ⟨written, wrote, stillIdle, disks, memory⟩ :=
    ideWrite_returns readyDrive_alwaysReady 0 0xc1000000 blockChannel_idle
      (show 1 ≠ 0 by decide) (show 0 < 1 by decide)
      (show 0x1000000 + 1 ≤ 268435456 by decide)
  obtain ⟨final, read, -, -, -, bytes⟩ :=
    ideRead_returns readyDrive_alwaysReady 0 stillIdle
      (show 1 ≠ 0 by decide) (show 0 < 1 by decide)
      (show 0x1000000 + 1 ≤ 268435456 by decide)
      (show 0xc1001000 + 512 * 1 ≤ 4294967296 by decide)
  have byte : final.memory.byte 0xc1001000 = 1 := by
    rw [bytes, if_pos (by decide)]
    unfold requestByte
    rw [disks]
    rfl
  refine ⟨written, final, wrote, read, byte, rfl, ?_⟩
  intro back
  have asked := back.filled 0 (by decide)
  rw [Nat.add_zero, byte] at asked
  exact absurd asked (by decide)

/-- A drive whose data-ready bit is clear while no transfer is open. -/
def AsksInTransfer (drive : AtaDrive) : Prop :=
  ∀ ata : AtaChannel, ata.transfer = .idle →
    drive.status ata &&& bitAltStatusDrq = 0

private theorem busyWaitLoop_of_idle (asks : AsksInTransfer drive)
    (rounds : Nat) (ata : AtaChannel) (idle : ata.transfer = .idle) :
    (busyWaitLoop drive rounds ata).1 = false := by
  induction rounds generalizing ata with
  | zero =>
      rfl
  | succ rounds inductionHypothesis =>
      have none := asks ata.statusRead idle
      simp only [busyWaitLoop]
      split
      · simp [none]
      · exact inductionHypothesis ata.statusRead idle

/-- On such a drive no call of `ide_write` returns. -/
theorem ideWrite_stops (asks : AsksInTransfer drive) (devNo buf : Nat)
    (idle : IdeIdle s) (task : cur ≠ 0) (positive : 0 < secCnt) :
    ideWrite drive devNo lba buf secCnt cur s = .error .assertFailed := by
  have fails : ∀ (done : Nat) (s : IdeChannel),
      ideWriteRound drive lba buf secCnt cur done s =
        .error .assertFailed := by
    intro done s
    have notReady := busyWaitLoop_of_idle asks (30 * 1000 / 10 - 1)
      (channelControlCmd { s with
        ata := diskSelectSector s.ata (u32 (lba + done))
          (sectorOnce secCnt done % 256) } cmdWriteSector).ata rfl
    simp only [ideWriteRound]
    rw [show (busyWait drive _).1 = _ from notReady,
      Call.assert_of_not (by decide)]
    rfl
  have loop : ∀ s, ideLoop (ideWriteRound drive lba buf secCnt cur) secCnt
      secCnt 0 s = .error .assertFailed := by
    intro s
    cases secCnt with
    | zero =>
        exact absurd positive (Nat.not_lt_zero 0)
    | succ secCnt =>
        unfold ideLoop
        rw [if_pos positive]
        simp only [fails, Call.error_bind]
  simp only [ideWrite, Call.assert_of positive, Call.ok_bind, idle.lock,
    lockAcquireAlone_lockInit task, loop, Call.error_bind]

end Write

end Simos
