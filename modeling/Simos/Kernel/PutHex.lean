import Simos.Library.ByteMemory
import Simos.Library.Runs
import Mathlib.Logic.Relation

/-!
# `put_hex` (`lib/kernel/print.S`)

`put_hex` instruction by instruction.  `put_char` is one instruction: it
prints the character on top of the stack and leaves the registers as they are.
Registers are natural numbers, and for the flags stand the operands of the
last comparison.

* `PutHex.exec` is one instruction;
* `PutHex.Prints` is a run to the `ret`.
-/

namespace Simos

open Simos.Library

namespace PutHex

/-- The registers that `pushad` saves; `ebp` is the way to the argument
only. -/
structure Regs where
  eax : Nat
  ebx : Nat
  ecx : Nat
  edx : Nat
  edi : Nat

inductive Label where
  | based4Bits
  | isA2F
  | store
  | skipPrefix0
  | full0
  | putEachNum

inductive Instr where
  | pushad
  | popad
  | ret
  | movEaxArg
  | movEdxEax
  | movEdi (value : Nat)
  | movEcx (value : Nat)
  | movEbxBuffer
  | andEdx (value : Nat)
  | addEdx (value : Nat)
  | subEdx (value : Nat)
  | cmpEdx (value : Nat)
  | cmpEdi (value : Nat)
  | cmpCl (value : Nat)
  | jg (label : Label)
  | je (label : Label)
  | jl (label : Label)
  | jmp (label : Label)
  | loop (label : Label)
  | storeDl
  | loadCl
  | movCl (value : Nat)
  | incEdi
  | decEdi
  | shrEax (count : Nat)
  | pushEcx
  | callPutChar
  | addEsp

def putEachNum : List Instr :=
  [.pushEcx, .callPutChar, .addEsp, .incEdi, .loadCl, .cmpEdi 8,
    .jl .putEachNum, .popad, .ret]

def full0 : List Instr :=
  [.movCl 0x30] ++ putEachNum

def goOnSkip : List Instr :=
  [.loadCl, .incEdi, .cmpCl 0x30, .je .skipPrefix0, .decEdi,
    .jmp .putEachNum] ++ full0

def skipPrefix0 : List Instr :=
  [.cmpEdi 8, .je .full0] ++ goOnSkip

def readyToPrint : List Instr :=
  [.incEdi] ++ skipPrefix0

def store : List Instr :=
  [.storeDl, .decEdi, .shrEax 4, .movEdxEax, .loop .based4Bits] ++
    readyToPrint

def isA2F : List Instr :=
  [.subEdx 10, .addEdx 0x41] ++ store

/-- `.16based_4bits` -/
def based4Bits : List Instr :=
  [.andEdx 0xf, .cmpEdx 9, .jg .isA2F, .addEdx 0x30, .jmp .store] ++ isA2F

def putHex : List Instr :=
  [.pushad, .movEaxArg, .movEdxEax, .movEdi 7, .movEcx 8, .movEbxBuffer] ++
    based4Bits

def Label.code : Label → List Instr
  | .based4Bits => PutHex.based4Bits
  | .isA2F => PutHex.isA2F
  | .store => PutHex.store
  | .skipPrefix0 => PutHex.skipPrefix0
  | .full0 => PutHex.full0
  | .putEachNum => PutHex.putEachNum

/-- A call of `put_hex`: the registers and those that `pushad` saved, the
operands of the last comparison, the memory, the stack above the return
address, the characters passed to `put_char`, and the code that is left. -/
structure Activation where
  regs : Regs
  saved : Regs
  left : Nat
  right : Nat
  memory : ByteMemory
  stack : List Nat
  printed : List (BitVec 8)
  rest : List Instr

namespace Activation

def withRegs (run : Activation) (regs : Regs) (rest : List Instr) :
    Option Activation :=
  some { run with regs, rest }

def compare (run : Activation) (left right : Nat) (rest : List Instr) :
    Option Activation :=
  some { run with left, right, rest }

def jump (run : Activation) (condition : Prop) [Decidable condition]
    (label : Label) (rest : List Instr) : Option Activation :=
  some { run with rest := if condition then label.code else rest }

/-- The comparison as one of 32-bit numbers with a sign, where the right
operand is not negative. -/
def Less (run : Activation) : Prop :=
  2147483648 ≤ run.left ∨ run.left < run.right

instance (run : Activation) : Decidable run.Less :=
  inferInstanceAs (Decidable (_ ∨ _))

end Activation

/-- One instruction; `arg` is the argument on the stack and `buffer` the
address of `put_int_buffer`. -/
def Instr.exec (arg buffer : Nat) (run : Activation) (rest : List Instr) :
    Instr → Option Activation
  | .pushad => some { run with saved := run.regs, rest }
  | .popad => run.withRegs run.saved rest
  | .ret => some { run with rest := [] }
  | .movEaxArg => run.withRegs { run.regs with eax := arg } rest
  | .movEdxEax => run.withRegs { run.regs with edx := run.regs.eax } rest
  | .movEdi value => run.withRegs { run.regs with edi := value } rest
  | .movEcx value => run.withRegs { run.regs with ecx := value } rest
  | .movEbxBuffer => run.withRegs { run.regs with ebx := buffer } rest
  | .andEdx value =>
      run.withRegs { run.regs with edx := run.regs.edx &&& value } rest
  | .addEdx value =>
      run.withRegs
        { run.regs with edx := (run.regs.edx + value) % 4294967296 } rest
  | .subEdx value =>
      run.withRegs
        { run.regs with
          edx := (run.regs.edx + (4294967296 - value)) % 4294967296 } rest
  | .cmpEdx value => run.compare run.regs.edx value rest
  | .cmpEdi value => run.compare run.regs.edi value rest
  | .cmpCl value => run.compare (run.regs.ecx % 256) value rest
  | .jg label => run.jump (¬ run.Less ∧ run.left ≠ run.right) label rest
  | .je label => run.jump (run.left = run.right) label rest
  | .jl label => run.jump run.Less label rest
  | .jmp label => run.jump True label rest
  | .loop label =>
      let ecx := (run.regs.ecx + 4294967295) % 4294967296
      some { run with
        regs := { run.regs with ecx }
        rest := if ecx = 0 then rest else label.code }
  | .storeDl =>
      some { run with
        memory := run.memory.storeByte
          ((run.regs.ebx + run.regs.edi) % 4294967296)
          (BitVec.ofNat 8 run.regs.edx)
        rest }
  | .loadCl =>
      let value := run.memory.byte ((buffer + run.regs.edi) % 4294967296)
      run.withRegs
        { run.regs with
          ecx := run.regs.ecx / 256 * 256 + value.toNat } rest
  | .movCl value =>
      run.withRegs
        { run.regs with ecx := run.regs.ecx / 256 * 256 + value } rest
  | .incEdi =>
      run.withRegs
        { run.regs with edi := (run.regs.edi + 1) % 4294967296 } rest
  | .decEdi =>
      run.withRegs
        { run.regs with edi := (run.regs.edi + 4294967295) % 4294967296 } rest
  | .shrEax count =>
      run.withRegs { run.regs with eax := run.regs.eax / 2 ^ count } rest
  | .pushEcx =>
      some { run with stack := run.regs.ecx :: run.stack, rest }
  | .callPutChar =>
      match run.stack with
      | [] => none
      | top :: _ =>
          some { run with
            printed := run.printed ++ [BitVec.ofNat 8 top]
            rest }
  | .addEsp => some { run with stack := run.stack.drop 1, rest }

def exec (arg buffer : Nat) (run : Activation) : Option Activation :=
  match run.rest with
  | [] => none
  | instr :: rest => instr.exec arg buffer run rest

def Steps (arg buffer : Nat) : Activation → Activation → Prop :=
  Relation.ReflTransGen fun before after =>
    exec arg buffer before = some after

/-- A call comes to its end with the registers and the stack it was made
with, and has passed these characters to `put_char`. -/
def Prints (arg buffer : Nat) (run : Activation)
    (text : List (BitVec 8)) : Prop :=
  ∃ last, Steps arg buffer { run with rest := putHex } last ∧
    last.rest = [] ∧ last.regs = run.regs ∧ last.stack = run.stack ∧
    last.printed = run.printed ++ text

end PutHex

end Simos
