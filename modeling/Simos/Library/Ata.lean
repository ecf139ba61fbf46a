import Simos.Library.ByteMemory

/-!
# An ATA channel in programmed input and output

A channel carries two disks and one set of registers.  A command takes the
device, the 28-bit sector address and the sector count from the registers; the
count 0 stands for 256.  Command `0x20` opens a transfer from the disk to the
data port and command `0x30` one the other way; every other command leaves the
data port idle.  What the status register reads, and what the data port reads
while no transfer is open, is up to the drive.  The 16-bit words of the data
port are moved as two bytes, the lower one first.

* `readBytes_fromDisk` says what a run of bytes from an open transfer stores;
* `writeBytes_of_idle` says that bytes written to an idle port are lost.
-/

namespace Simos.Library

/-- The transfer at the data port: the device and its first sector, the length
in bytes and the number of bytes already moved. -/
inductive AtaTransfer where
  | idle
  | fromDisk (device address length moved : Nat)
  | toDisk (device address length moved : Nat)
  deriving DecidableEq

structure AtaCommand where
  code : Nat
  device : Nat
  address : Nat
  sectors : Nat
  deriving DecidableEq

/-- The sectors that a command is for, each with its device. -/
def AtaCommand.covered (command : AtaCommand) : List (Nat × Nat) :=
  (List.range command.sectors).map fun index =>
    (command.device, command.address + index)

/-- One channel: the registers as they were last written, the contents of the
disks by device, sector and offset, the open transfer, the commands taken so
far and the number of times that the status register was read. -/
structure AtaChannel where
  sectCnt : Nat
  lbaL : Nat
  lbaM : Nat
  lbaH : Nat
  dev : Nat
  disks : Nat → Nat → Nat → BitVec 8
  transfer : AtaTransfer
  commands : List AtaCommand
  statusReads : Nat

/-- What a drive leaves open: the status register, and the data port while it
is idle. -/
structure AtaDrive where
  status : AtaChannel → Nat
  idleByte : AtaChannel → BitVec 8

namespace AtaChannel

def device (c : AtaChannel) : Nat :=
  c.dev / 16 % 2

def address (c : AtaChannel) : Nat :=
  c.lbaL + 256 * c.lbaM + 65536 * c.lbaH + 16777216 * (c.dev % 16)

def sectors (c : AtaChannel) : Nat :=
  if c.sectCnt = 0 then 256 else c.sectCnt

def opened (c : AtaChannel) (code : Nat) : AtaTransfer :=
  if code = 0x20 then
    .fromDisk c.device c.address (512 * c.sectors) 0
  else if code = 0x30 then
    .toDisk c.device c.address (512 * c.sectors) 0
  else
    .idle

def command (c : AtaChannel) (code : Nat) : AtaChannel :=
  { c with
    transfer := c.opened code
    commands := c.commands ++ [⟨code, c.device, c.address, c.sectors⟩] }

/-- The status register, of which `drive.status` is the value, was read. -/
def statusRead (c : AtaChannel) : AtaChannel :=
  { c with statusReads := c.statusReads + 1 }

/-- The byte of a disk that stands `offset` bytes behind a sector's start. -/
def diskByte (c : AtaChannel) (device address offset : Nat) : BitVec 8 :=
  c.disks device (address + offset / 512) (offset % 512)

/-- One byte through the data port to the processor. -/
def readByte (drive : AtaDrive) (c : AtaChannel) : BitVec 8 × AtaChannel :=
  match c.transfer with
  | .fromDisk device address length moved =>
      if moved < length then
        (c.diskByte device address moved,
          { c with transfer := .fromDisk device address length (moved + 1) })
      else
        (drive.idleByte c, c)
  | .idle | .toDisk _ _ _ _ => (drive.idleByte c, c)

/-- One byte through the data port to the disk. -/
def writeByte (c : AtaChannel) (value : BitVec 8) : AtaChannel :=
  match c.transfer with
  | .toDisk device address length moved =>
      if moved < length then
        { c with
          disks := fun tested sector offset =>
            if tested = device ∧ sector = address + moved / 512 ∧
                offset = moved % 512 then
              value
            else
              c.disks tested sector offset
          transfer := .toDisk device address length (moved + 1) }
      else
        c
  | .idle | .fromDisk _ _ _ _ => c

/-- `count` bytes from the data port to the memory from `start` on. -/
def readBytes (drive : AtaDrive) (c : AtaChannel) (memory : ByteMemory)
    (start : Nat) : Nat → AtaChannel × ByteMemory
  | 0 => (c, memory)
  | count + 1 =>
      let (c, memory) := readBytes drive c memory start count
      let (value, c) := c.readByte drive
      (c, memory.storeByte (start + count) value)

/-- `count` bytes from the memory from `start` on to the data port. -/
def writeBytes (c : AtaChannel) (memory : ByteMemory) (start : Nat) :
    Nat → AtaChannel
  | 0 => c
  | count + 1 =>
      (writeBytes c memory start count).writeByte
        (memory.byte (start + count))

theorem readBytes_fromDisk (drive : AtaDrive) (c : AtaChannel)
    (memory : ByteMemory) (start : Nat) {device address length moved : Nat}
    (opened : c.transfer = .fromDisk device address length moved)
    (count : Nat) (room : moved + count ≤ length) :
    (c.readBytes drive memory start count).1 =
        { c with
          transfer := .fromDisk device address length (moved + count) } ∧
      ∀ tested, (c.readBytes drive memory start count).2.byte tested =
        if start ≤ tested ∧ tested < start + count then
          c.diskByte device address (moved + (tested - start))
        else
          memory.byte tested := by
  induction count with
  | zero =>
      constructor
      · rw [Nat.add_zero, ← opened]
        rfl
      · intro tested
        rw [if_neg (by omega)]
        rfl
  | succ count inductionHypothesis =>
      obtain ⟨channel, bytes⟩ := inductionHypothesis (by omega)
      have next : (c.readBytes drive memory start count).1.readByte drive =
          (c.diskByte device address (moved + count),
            { c with
              transfer :=
                .fromDisk device address length (moved + count + 1) }) := by
        rw [channel]
        simp only [readByte, if_pos (show moved + count < length by omega)]
        rfl
      constructor
      · simp only [readBytes, next]
        rfl
      · intro tested
        simp only [readBytes, next, ByteMemory.byte_storeByte]
        by_cases last : tested = start + count
        · rw [if_pos last, if_pos (by omega), last,
            Nat.add_sub_cancel_left]
        · rw [if_neg last, bytes tested]
          by_cases inside : start ≤ tested ∧ tested < start + count
          · rw [if_pos inside, if_pos (by omega)]
          · rw [if_neg inside, if_neg (by omega)]

theorem writeBytes_of_idle {c : AtaChannel} (memory : ByteMemory)
    (start count : Nat) (idle : c.transfer = .idle) :
    c.writeBytes memory start count = c := by
  induction count with
  | zero =>
      rfl
  | succ count inductionHypothesis =>
      rw [writeBytes, inductionHypothesis, writeByte, idle]

end AtaChannel

end Simos.Library
