import Mathlib.Data.BitVec
import Simos.Library.ByteMemory

/-!
# The stack instructions of a 32-bit x86 processor

Registers, memory, and the instructions that entry and exit code of a kernel
is made of.  Addresses are the values of registers; a word that is pushed at
address zero would wrap, and the results are about stacks with room.

* `Instr.exec` and `runCode` run straight-line code;
* `deliver` is what the processor does when an interrupt gate is entered, and
  `iret` is the way back.
-/

namespace Simos.Library.Ia32

inductive Reg where
  | eax
  | ecx
  | edx
  | ebx
  | esp
  | ebp
  | esi
  | edi
  deriving DecidableEq, Repr

inductive SegReg where
  | ds
  | es
  | fs
  | gs
  deriving DecidableEq, Repr

structure Cpu where
  eax : BitVec 32
  ecx : BitVec 32
  edx : BitVec 32
  ebx : BitVec 32
  esp : BitVec 32
  ebp : BitVec 32
  esi : BitVec 32
  edi : BitVec 32
  eip : BitVec 32
  eflags : BitVec 32
  ds : BitVec 16
  es : BitVec 16
  fs : BitVec 16
  gs : BitVec 16
  ss : BitVec 16
  cs : BitVec 16
  deriving DecidableEq, Repr

namespace Cpu

@[simp]
def get (cpu : Cpu) : Reg → BitVec 32
  | .eax => cpu.eax
  | .ecx => cpu.ecx
  | .edx => cpu.edx
  | .ebx => cpu.ebx
  | .esp => cpu.esp
  | .ebp => cpu.ebp
  | .esi => cpu.esi
  | .edi => cpu.edi

@[simp]
def set (cpu : Cpu) (value : BitVec 32) : Reg → Cpu
  | .eax => { cpu with eax := value }
  | .ecx => { cpu with ecx := value }
  | .edx => { cpu with edx := value }
  | .ebx => { cpu with ebx := value }
  | .esp => { cpu with esp := value }
  | .ebp => { cpu with ebp := value }
  | .esi => { cpu with esi := value }
  | .edi => { cpu with edi := value }

@[simp]
def getSeg (cpu : Cpu) : SegReg → BitVec 16
  | .ds => cpu.ds
  | .es => cpu.es
  | .fs => cpu.fs
  | .gs => cpu.gs

@[simp]
def setSeg (cpu : Cpu) (value : BitVec 16) : SegReg → Cpu
  | .ds => { cpu with ds := value }
  | .es => { cpu with es := value }
  | .fs => { cpu with fs := value }
  | .gs => { cpu with gs := value }

def withEsp (cpu : Cpu) (esp : BitVec 32) : Cpu :=
  { cpu with esp }

@[simp]
theorem withEsp_esp (cpu : Cpu) (esp : BitVec 32) : (cpu.withEsp esp).esp = esp :=
  rfl

@[simp]
theorem withEsp_withEsp (cpu : Cpu) (esp esp' : BitVec 32) :
    (cpu.withEsp esp).withEsp esp' = cpu.withEsp esp' :=
  rfl

def withEip (cpu : Cpu) (eip : BitVec 32) : Cpu :=
  { cpu with eip }

end Cpu

def rpl (selector : BitVec 16) : BitVec 16 :=
  selector &&& 3

structure Machine where
  cpu : Cpu
  memory : ByteMemory

def word (memory : ByteMemory) (address : Nat) : BitVec 32 :=
  BitVec.ofNat 32 (memory.loadWord address)

def storeWord (memory : ByteMemory) (address : Nat) (value : BitVec 32) :
    ByteMemory :=
  memory.storeWord address value.toNat

def addFlags (eflags left right : BitVec 32) : BitVec 32 :=
  let sum := left + right
  let flag (position : Nat) (set : Bool) : BitVec 32 :=
    if set then 1#32 <<< position else 0
  (eflags &&& ~~~0x8d5#32) |||
    flag 0 (4294967296 ≤ left.toNat + right.toNat) |||
    flag 2 ((List.range 8).countP sum.getLsbD % 2 = 0) |||
    flag 4 (16 ≤ left.toNat % 16 + right.toNat % 16) |||
    flag 6 (sum = 0) |||
    flag 7 sum.msb |||
    flag 11 (left.msb = right.msb ∧ sum.msb ≠ left.msb)

/-- Instructions without control flow.  `loadSp` and `storeSp` address
`[esp + offset]`, `loadAt` and `storeAt` address `[base]`. -/
inductive Instr where
  | push (source : Reg)
  | pushImm (value : BitVec 32)
  | pushSeg (source : SegReg)
  | pushad
  | pop (target : Reg)
  | popSeg (target : SegReg)
  | popad
  | addEsp (amount : BitVec 32)
  | loadSp (target : Reg) (offset : Nat)
  | storeSp (offset : Nat) (source : Reg)
  | loadAt (target base : Reg)
  | storeAt (base source : Reg)
  | movAl (value : BitVec 8)
  | out (port : BitVec 8)
  | jmp
  deriving DecidableEq, Repr

namespace Machine

def push (m : Machine) (value : BitVec 32) : Machine where
  cpu := m.cpu.withEsp (m.cpu.esp - 4)
  memory := storeWord m.memory (m.cpu.esp - 4).toNat value

def peek (m : Machine) (index : Nat) : BitVec 32 :=
  word m.memory (m.cpu.esp + BitVec.ofNat 32 (4 * index)).toNat

def drop (m : Machine) (count : Nat) : Machine :=
  { m with cpu := m.cpu.withEsp (m.cpu.esp + BitVec.ofNat 32 (4 * count)) }

end Machine

def pushAll (m : Machine) (values : List (BitVec 32)) : Machine :=
  values.foldl Machine.push m

/-- `pushad`; the stack pointer is pushed as it was before. -/
def execPushad (m : Machine) : Machine :=
  let cpu := m.cpu
  pushAll m [cpu.eax, cpu.ecx, cpu.edx, cpu.ebx, cpu.esp, cpu.ebp, cpu.esi,
    cpu.edi]

/-- `popad`; the stack pointer on the stack is skipped. -/
def execPopad (m : Machine) : Machine :=
  { m with
    cpu := { (m.drop 8).cpu with
      edi := m.peek 0
      esi := m.peek 1
      ebp := m.peek 2
      ebx := m.peek 4
      edx := m.peek 5
      ecx := m.peek 6
      eax := m.peek 7 } }

namespace Instr

def exec (m : Machine) : Instr → Machine
  | .push source => m.push (m.cpu.get source)
  | .pushImm value => m.push value
  | .pushSeg source => m.push ((m.cpu.getSeg source).setWidth 32)
  | .pushad => execPushad m
  | .pop target =>
      { m with cpu := (m.drop 1).cpu.set (m.peek 0) target }
  | .popSeg target =>
      { m with
        cpu := (m.drop 1).cpu.setSeg ((m.peek 0).setWidth 16) target }
  | .popad => execPopad m
  | .addEsp amount =>
      { m with
        cpu := { m.cpu with
          esp := m.cpu.esp + amount
          eflags := addFlags m.cpu.eflags m.cpu.esp amount } }
  | .loadSp target offset =>
      let address := (m.cpu.esp + BitVec.ofNat 32 offset).toNat
      { m with cpu := m.cpu.set (word m.memory address) target }
  | .storeSp offset source =>
      let address := (m.cpu.esp + BitVec.ofNat 32 offset).toNat
      { m with memory := storeWord m.memory address (m.cpu.get source) }
  | .loadAt target base =>
      { m with
        cpu := m.cpu.set (word m.memory (m.cpu.get base).toNat) target }
  | .storeAt base source =>
      { m with
        memory :=
          storeWord m.memory (m.cpu.get base).toNat (m.cpu.get source) }
  | .movAl value =>
      { m with
        cpu := { m.cpu with
          eax := (m.cpu.eax &&& ~~~0xff#32) ||| value.setWidth 32 } }
  | .out _ | .jmp => m

end Instr

def runCode : List Instr → Machine → Machine
  | [], m => m
  | instr :: code, m => runCode code (instr.exec m)

theorem runCode_append (code later : List Instr) (m : Machine) :
    runCode (code ++ later) m = runCode later (runCode code m) := by
  induction code generalizing m with
  | nil =>
      rfl
  | cons instr code inductionHypothesis =>
      exact inductionHypothesis (instr.exec m)

def Instr.stores : Instr → Bool
  | .push _ | .pushImm _ | .pushSeg _ | .pushad | .storeSp _ _
  | .storeAt _ _ => true
  | _ => false

theorem runCode_memory (code : List Instr)
    (reads : ∀ instr ∈ code, instr.stores = false) (m : Machine) :
    (runCode code m).memory = m.memory := by
  induction code generalizing m with
  | nil =>
      rfl
  | cons instr code inductionHypothesis =>
      have first : (instr.exec m).memory = m.memory := by
        have reading := reads instr List.mem_cons_self
        cases instr with
        | push | pushImm | pushSeg | pushad | storeSp | storeAt =>
            cases reading
        | _ => rfl
      rw [runCode, inductionHypothesis
        (fun other member => reads other (List.mem_cons_of_mem _ member)),
        first]

def ret (m : Machine) : Machine :=
  { m with cpu := { (m.drop 1).cpu with eip := m.peek 0 } }

@[simp]
theorem ret_memory (m : Machine) : (ret m).memory = m.memory :=
  rfl

/-- A call of the function at `target`, with the return address. -/
def call (m : Machine) (target returnAddress : BitVec 32) : Machine :=
  let m := m.push returnAddress
  { m with cpu := { m.cpu with eip := target } }

/-- The flags in a handler: an interrupt gate clears the flags for single
steps, interrupts, nested tasks, resumption and the 8086 mode. -/
def gateFlags (eflags : BitVec 32) : BitVec 32 :=
  eflags &&& ~~~0x34300#32

structure Gate where
  cs : BitVec 16
  entry : BitVec 32
  ss0 : BitVec 16
  esp0 : BitVec 32

/-- The registers on the stack of the gate's privilege level, which is in the
task state segment. -/
def gateStart (gate : Gate) (cpu : Cpu) : Cpu :=
  if rpl cpu.cs = rpl gate.cs then cpu
  else { cpu with ss := gate.ss0, esp := gate.esp0 }

/-- The words that the processor pushes when it enters a gate, the first one
first. -/
def gateWords (gate : Gate) (cpu : Cpu) : List (BitVec 32) :=
  (if rpl cpu.cs = rpl gate.cs then []
    else [cpu.ss.setWidth 32, cpu.esp]) ++
    [cpu.eflags, cpu.cs.setWidth 32, cpu.eip]

def deliver (gate : Gate) (m : Machine) : Machine :=
  let pushed :=
    pushAll ⟨gateStart gate m.cpu, m.memory⟩ (gateWords gate m.cpu)
  { pushed with
    cpu := { pushed.cpu with
      cs := gate.cs
      eip := gate.entry
      eflags := gateFlags m.cpu.eflags } }

/-- `iretd`; where the privilege level changes, the stack changes too. -/
def iret (m : Machine) : Machine :=
  let cs := (m.peek 1).setWidth 16
  let cpu := { (m.drop 3).cpu with eip := m.peek 0, cs, eflags := m.peek 2 }
  if rpl cs = rpl m.cpu.cs then
    { m with cpu }
  else
    { m with
      cpu := { cpu with esp := m.peek 3, ss := (m.peek 4).setWidth 16 } }

end Simos.Library.Ia32
