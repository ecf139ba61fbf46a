import Simos.Library.Ata
import Simos.Thread.Sync

/-!
# The hard disk driver (`device/ide.c`)

One channel with the buffer memory of its caller.  `ide_read` and `ide_write`
are run here by a thread that has the driver for itself: where it would sleep
in `sema_down(&channel->disk_ok)`, the interrupt of the drive comes and
`hard_disk_service` runs.  `mil_sleep` in `busy_wait` only lets time pass.
-/

namespace Simos

open Simos.Library

def bitAltStatusBsy : Nat := 0x80

def bitAltStatusDrq : Nat := 0x08

def bitDevMbs : Nat := 0xa0

def bitDevLba : Nat := 0x40

def bitDevDev : Nat := 0x10

def cmdReadSector : Nat := 0x20

def cmdWriteSector : Nat := 0x10

/-- `struct ide_channel` with the hardware behind its ports and the memory. -/
structure IdeChannel where
  irqNo : Nat
  lock : Lock (List Nat)
  waitIntr : Bool
  diskOk : Semaphore (List Nat)
  ata : AtaChannel
  memory : ByteMemory

def diskSelectHd (ata : AtaChannel) (devNo : Nat) : AtaChannel :=
  let regDevice := bitDevMbs ||| bitDevLba
  let regDevice := if devNo = 1 then regDevice ||| bitDevDev else regDevice
  { ata with dev := regDevice }

/-- `disk_select_sector`; `outb` writes the low byte of its argument, and the
device register reads back what was written. -/
def diskSelectSector (ata : AtaChannel) (lbaBase secCnt : Nat) : AtaChannel :=
  let ata := { ata with sectCnt := secCnt % 256 }
  let ata := { ata with lbaL := (lbaBase >>> 0) % 256 }
  let ata := { ata with lbaM := (lbaBase >>> 8) % 256 }
  let ata := { ata with lbaH := (lbaBase >>> 16) % 256 }
  let deviceData := ata.dev
  { ata with dev := (deviceData ||| lbaBase >>> 24) % 256 }

def channelControlCmd (s : IdeChannel) (cmd : Nat) : IdeChannel :=
  let s := { s with waitIntr := true }
  { s with ata := s.ata.command cmd }

/-- The number of bytes of `sec_cnt` sectors, as `disk_sector_to_buf` and
`SECTOR_TO_BYTES` compute it from the byte `sec_cnt`. -/
def sectorToBytes (secCnt : Nat) : Nat :=
  if secCnt = 0 then 256 * 512 else secCnt * 512

def diskSectorToBuf (drive : AtaDrive) (s : IdeChannel) (secCnt buf : Nat) :
    IdeChannel :=
  let bufBytes := sectorToBytes secCnt
  let moved := s.ata.readBytes drive s.memory buf (2 * (bufBytes / 2))
  { s with ata := moved.1, memory := moved.2 }

def diskBufToSector (s : IdeChannel) (secCnt buf : Nat) : IdeChannel :=
  let bufBytes := sectorToBytes secCnt
  { s with ata := s.ata.writeBytes s.memory buf (2 * (bufBytes / 2)) }

/-- The loop of `busy_wait`, with the rounds that `time_limit` leaves. -/
def busyWaitLoop (drive : AtaDrive) : Nat → AtaChannel → Bool × AtaChannel
  | 0, ata => (false, ata)
  | rounds + 1, ata =>
      let status := drive.status ata
      let ata := ata.statusRead
      if status &&& bitAltStatusBsy = 0 then
        (decide (drive.status ata &&& bitAltStatusDrq ≠ 0), ata.statusRead)
      else
        busyWaitLoop drive rounds ata

def busyWait (drive : AtaDrive) (ata : AtaChannel) : Bool × AtaChannel :=
  busyWaitLoop drive (30 * 1000 / 10 - 1) ata

/-- `hard_disk_service` on the channel that `irq_no` selects; the thread that
`sema_up` wakes comes with the result. -/
def hardDiskService (s : IdeChannel) (irqNo : Nat) :
    Call (IdeChannel × Option Nat) := do
  Call.assert (irqNo = 0x2e ∨ irqNo = 0x2f)
  Call.assert (s.irqNo = irqNo)
  if s.waitIntr then
    let s := { s with waitIntr := false }
    let (diskOk, woken) ← semaUp s.diskOk
    return ({ s with diskOk, ata := s.ata.statusRead }, woken)
  else
    return (s, none)

/-- `sema_down(&channel->disk_ok)` by a thread that has the driver for itself:
the interrupt comes while it sleeps. -/
def diskOkDown (s : IdeChannel) (cur : Nat) : Call IdeChannel := do
  let s ←
    (if s.diskOk.value = 0 then do
      let (s, _) ← hardDiskService s s.irqNo
      return s
    else
      return s : Call IdeChannel)
  let (diskOk, waits) ← semaDownRound s.diskOk cur
  if waits then
    .error .blocked
  else
    return { s with diskOk }

/-- `sector_once` in a round of `ide_read` and `ide_write`. -/
def sectorOnce (secCnt sectorDone : Nat) : Nat :=
  if secCnt - sectorDone ≥ 256 then 256 else secCnt - sectorDone

def ideReadRound (drive : AtaDrive) (lbaBase buf secCnt cur sectorDone : Nat)
    (s : IdeChannel) : Call IdeChannel := do
  let once := sectorOnce secCnt sectorDone
  let s := { s with
    ata := diskSelectSector s.ata (u32 (lbaBase + sectorDone)) (once % 256) }
  let s := channelControlCmd s cmdReadSector
  let s ← diskOkDown s cur
  let (ready, ata) := busyWait drive s.ata
  let s := { s with ata }
  Call.assert ready
  return diskSectorToBuf drive s (once % 256) (u32 (buf + sectorDone * 512))

def ideWriteRound (drive : AtaDrive) (lbaBase buf secCnt cur sectorDone : Nat)
    (s : IdeChannel) : Call IdeChannel := do
  let once := sectorOnce secCnt sectorDone
  let s := { s with
    ata := diskSelectSector s.ata (u32 (lbaBase + sectorDone)) (once % 256) }
  let s := channelControlCmd s cmdWriteSector
  let (ready, ata) := busyWait drive s.ata
  let s := { s with ata }
  Call.assert ready
  let s := diskBufToSector s (once % 256) (u32 (buf + sectorDone * 512))
  diskOkDown s cur

/-- The loop of `ide_read` and `ide_write` over `sector_done`. -/
def ideLoop (round : Nat → IdeChannel → Call IdeChannel) (secCnt : Nat) :
    Nat → Nat → IdeChannel → Call IdeChannel
  | rounds, sectorDone, s =>
      if sectorDone < secCnt then
        match rounds with
        | 0 => .error .diverges
        | rounds + 1 => do
            let s ← round sectorDone s
            ideLoop round secCnt rounds
              (u32 (sectorDone + sectorOnce secCnt sectorDone)) s
      else
        return s

def ideRead (drive : AtaDrive) (devNo lbaBase buf secCnt cur : Nat)
    (s : IdeChannel) : Call IdeChannel := do
  Call.assert (secCnt > 0)
  let lock ← lockAcquireAlone s.lock cur
  let s := { s with lock, ata := diskSelectHd s.ata devNo }
  let s ← ideLoop (ideReadRound drive lbaBase buf secCnt cur) secCnt secCnt 0 s
  let lock ← lockReleaseAlone s.lock cur
  return { s with lock }

def ideWrite (drive : AtaDrive) (devNo lbaBase buf secCnt cur : Nat)
    (s : IdeChannel) : Call IdeChannel := do
  Call.assert (secCnt > 0)
  let lock ← lockAcquireAlone s.lock cur
  let s := { s with lock, ata := diskSelectHd s.ata devNo }
  let s ← ideLoop (ideWriteRound drive lbaBase buf secCnt cur) secCnt secCnt 0 s
  let lock ← lockReleaseAlone s.lock cur
  return { s with lock }

end Simos
