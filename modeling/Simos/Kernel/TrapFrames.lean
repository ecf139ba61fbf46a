import Simos.Thread.SwitchTo

/-!
# Trap frames (`kernel/interrupt_s.S`)

The entry stubs of the device interrupts and of `int 0x80`, and the code of
`intr_exit`, run on the words of the stack: what the entries push is what the
exit pops.

* `TrapKind.entryCode_onStack` is the frame that an entry leaves, with the
  arguments of the C function below it;
* `TrapKind.exitCode_onStack` is the way back from that frame.
-/

namespace Simos

open Simos.Library Ia32

def selectorKCode : BitVec 16 := 8

def selectorKStack : BitVec 16 := 16

/-- A device interrupt `0x20 + line`, or `int 0x80`. -/
inductive TrapKind where
  | device (line : Fin 16)
  | syscall
  deriving DecidableEq

/-- `SAVE_ALL` of both entries: the error code, the data segment registers and
the general registers. -/
def saveContext : List Instr :=
  [.pushImm 0, .pushSeg .ds, .pushSeg .es, .pushSeg .fs, .pushSeg .gs, .pushad]

def vectorOf (line : Fin 16) : BitVec 32 :=
  BitVec.ofNat 32 (0x20 + line)

/-- `intr_exit`, up to its `iretd`. -/
def intrExit : List Instr :=
  [.addEsp 4, .popad, .popSeg .gs, .popSeg .fs, .popSeg .es, .popSeg .ds,
    .addEsp 4]

namespace TrapKind

/-- The code before the call of the C function: `intr_%1_entry` or
`syscall_handler`. -/
def entryCode : TrapKind → List Instr
  | .device line =>
      saveContext ++
        [.movAl 0x20, .out 0xa0, .out 0x20, .pushImm (vectorOf line)]
  | .syscall =>
      saveContext ++
        [.pushImm 0x80, .push .edx, .push .ecx, .push .ebx]

/-- The code behind the call, up to `iretd`. -/
def exitCode : TrapKind → List Instr
  | .device _ => .jmp :: intrExit
  | .syscall => .addEsp 12 :: .storeSp 32 .eax :: .jmp :: intrExit

def args (cpu : Cpu) : TrapKind → List (BitVec 32)
  | .device line => [vectorOf line]
  | .syscall => [cpu.ebx, cpu.ecx, cpu.edx]

/-- The words between the arguments and the saved registers: the vector number
of `int 0x80`; that of a device is the argument. -/
def vectorWords : TrapKind → List (BitVec 32)
  | .device _ => []
  | .syscall => [0x80]

def resumed (context : Cpu) (result : BitVec 32) : TrapKind → Cpu
  | .device _ => context
  | .syscall => { context with eax := result }

end TrapKind

/-- The gate of a trap, with the stack of the task state segment. -/
def trapGate (entry esp0 : BitVec 32) : Gate :=
  ⟨selectorKCode, entry, selectorKStack, esp0⟩

/-- The words of `struct intr_stack` from `edi` to `err_code`; `esp` is the one
that `pushad` finds. -/
def registerWords (cpu : Cpu) (esp : BitVec 32) : List (BitVec 32) :=
  [cpu.edi, cpu.esi, cpu.ebp, esp, cpu.ebx, cpu.edx, cpu.ecx, cpu.eax,
    cpu.gs.setWidth 32, cpu.fs.setWidth 32, cpu.es.setWidth 32,
    cpu.ds.setWidth 32, 0]

private theorem registerWords_gateCpu (gate : Gate) (cpu : Cpu)
    (esp : BitVec 32) :
    registerWords (gateCpu gate cpu) esp = registerWords cpu esp := by
  unfold gateCpu gateStart
  split <;> rfl

private theorem TrapKind.args_gateCpu (kind : TrapKind) (gate : Gate)
    (cpu : Cpu) :
    kind.args (gateCpu gate cpu) = kind.args cpu := by
  unfold gateCpu gateStart
  split <;> cases kind <;> rfl

/-- What the entry leaves on the stack. -/
theorem TrapKind.entryCode_onStack (kind : TrapKind) (cpu : Cpu)
    (words : List (BitVec 32)) :
    ∃ cpu', runOnStack kind.entryCode cpu words =
        some (cpu', kind.args cpu ++ (kind.vectorWords ++
          (registerWords cpu (cpu.esp - 20) ++ words))) ∧
      cpu'.cs = cpu.cs := by
  cases kind with
  | device line =>
      simp [TrapKind.entryCode, saveContext, TrapKind.args,
        TrapKind.vectorWords, registerWords, Cpu.withEsp, sub_sub]
  | syscall =>
      simp [TrapKind.entryCode, saveContext, TrapKind.args,
        TrapKind.vectorWords, registerWords, Cpu.withEsp, sub_sub]

def finish (code : List Instr) (cpu : Cpu) (words : List (BitVec 32)) :
    Option Cpu :=
  (runOnStack code cpu words).bind fun next => iretOnStack next.1 next.2

private theorem finish_cons (instr : Instr) (code : List Instr) (cpu : Cpu)
    (words : List (BitVec 32)) :
    finish (instr :: code) cpu words =
      (instr.onStack cpu words).bind fun next => finish code next.1 next.2 :=
  Option.bind_assoc ..

/-- The words of `struct intr_stack` above the arguments of the C function. -/
def TrapKind.frame (kind : TrapKind) (context : Cpu) (esp : BitVec 32) :
    List (BitVec 32) :=
  kind.vectorWords ++ (registerWords context esp ++
    (gateWords (trapGate 0 0) context).reverse)

/-- `intr_exit` and `iretd` take the registers from the stack. -/
theorem intrExit_onStack (context cpu : Cpu) (number esp : BitVec 32)
    (inKernel : cpu.cs = selectorKCode)
    (unchanged : rpl context.cs = rpl selectorKCode → cpu.ss = context.ss ∧
      cpu.esp + 68#32 = context.esp) :
    finish (.jmp :: intrExit) cpu (number :: (registerWords context esp ++
        (gateWords (trapGate 0 0) context).reverse)) = some context := by
  have selector (value : BitVec 16) :
      (value.setWidth 32).setWidth 16 = value := by
    rw [BitVec.setWidth_setWidth_of_le _ (by decide), BitVec.setWidth_eq]
  by_cases same : rpl context.cs = rpl selectorKCode
  · -- the stack stays the same
    obtain ⟨ss, up⟩ := unchanged same
    simp [trapGate, finish, intrExit, iretOnStack, gateWords, same, inKernel,
      selector, registerWords, Cpu.withEsp, add_assoc, ss, up]
  · simp [trapGate, finish, intrExit, iretOnStack, gateWords, same, inKernel,
      selector, registerWords, Cpu.withEsp]

/-- What the exit takes from the stack. -/
theorem TrapKind.exitCode_onStack (kind : TrapKind) (context cpu : Cpu)
    (esp : BitVec 32) {args : List (BitVec 32)}
    (length : args.length = (kind.args context).length)
    (inKernel : cpu.cs = selectorKCode)
    (unchanged : rpl context.cs = rpl selectorKCode → cpu.ss = context.ss ∧
      cpu.esp + BitVec.ofNat 32
        (4 * (args ++ kind.frame context esp).length) = context.esp) :
    finish kind.exitCode cpu (args ++ kind.frame context esp) =
      some (kind.resumed context cpu.eax) := by
  cases kind with
  | device line =>
      obtain ⟨vector, rfl⟩ := List.length_eq_one_iff.mp length
      apply intrExit_onStack context cpu vector esp inKernel
      intro same
      have up : cpu.esp + 68#32 = context.esp := by
        simpa [TrapKind.frame, trapGate, gateWords, same, registerWords,
          TrapKind.vectorWords] using (unchanged same).2
      exact ⟨(unchanged same).1, up⟩
  | syscall =>
      obtain ⟨ebx, ecx, edx, rfl⟩ := List.length_eq_three.mp length
      let low : Cpu := { cpu with
        esp := cpu.esp + 12
        eflags := addFlags cpu.eflags cpu.esp 12 }
      let result : Cpu := { context with eax := cpu.eax }
      have dropped : Instr.onStack cpu
          ([ebx, ecx, edx] ++ TrapKind.frame .syscall context esp)
          (.addEsp 12) =
            some (low, TrapKind.frame .syscall context esp) := by
        simp [Instr.onStack, TrapKind.frame, low]
      -- the result is stored into the frame
      have stored : Instr.onStack low
          (TrapKind.frame .syscall context esp) (.storeSp 32 .eax) =
            some (low, 0x80 :: (registerWords result esp ++
              (gateWords (trapGate 0 0) result).reverse)) := by
        simp [Instr.onStack, TrapKind.frame, TrapKind.vectorWords,
          registerWords, Cpu.get, low, result, gateWords]
      have unchanged' : rpl result.cs = rpl selectorKCode →
          low.ss = result.ss ∧ low.esp + 68#32 = result.esp := by
        intro same
        have same : rpl context.cs = rpl selectorKCode := same
        have up : cpu.esp + 80#32 = context.esp := by
          simpa [TrapKind.frame, trapGate, gateWords, same, registerWords,
            TrapKind.vectorWords] using (unchanged same).2
        exact ⟨(unchanged same).1, (add_assoc cpu.esp 12#32 68#32).trans up⟩
      have exits := intrExit_onStack result low 0x80 esp inKernel unchanged'
      rw [TrapKind.exitCode, finish_cons, dropped, Option.bind_some,
        finish_cons, stored, Option.bind_some]
      exact exits

/-- The processor enters a gate and runs the entry code, up to the first
instruction of the C function. -/
def trapEntry (kind : TrapKind) (gate : Gate) (target returnAddress : BitVec 32)
    (m : Machine) : Machine :=
  call (runCode kind.entryCode (deliver gate m)) target returnAddress

theorem trapEntry_view (kind : TrapKind)
    (entry esp0 target returnAddress : BitVec 32) {m : Machine}
    (room : 96 ≤ (gateStart (trapGate entry esp0) m.cpu).esp.toNat) :
    ∃ esp cpu pushed, pushed ≤ 24 ∧ cpu.eip = target ∧
      Follows ⟨gateStart (trapGate entry esp0) m.cpu, m.memory⟩
        (trapEntry kind (trapGate entry esp0) target returnAddress m) []
        (returnAddress :: (kind.args m.cpu ++ kind.frame m.cpu esp)) cpu
        pushed := by
  have delivered := deliver_view (trapGate entry esp0) m (by omega)
  have few : (gateWords (trapGate entry esp0) m.cpu).length ≤ 5 := by
    unfold gateWords
    split <;> simp
  have pushes : pushedBy kind.entryCode ≤ 17 := by
    cases kind with
    | device line =>
        have count : pushedBy (TrapKind.device line).entryCode = 14 := rfl
        omega
    | syscall => decide
  obtain ⟨saved, computed, -⟩ := kind.entryCode_onStack
    (gateCpu (trapGate entry esp0) m.cpu)
    (gateWords (trapGate entry esp0) m.cpu).reverse
  rw [registerWords_gateCpu, kind.args_gateCpu] at computed
  have low := delivered.low
  rw [← delivered.cpu] at computed low
  simp only at low
  have ran := runCode_view kind.entryCode delivered.view (by omega) computed
  have called := delivered.trans ran
  have low' := called.low
  rw [← called.cpu] at low'
  simp only at low'
  have whole := called.trans (call_view ran.view (by omega) target
    returnAddress)
  refine ⟨_, _, _, ?_, ?_, whole⟩
  · omega
  · rfl

end Simos
