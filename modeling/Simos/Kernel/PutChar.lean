import Mathlib.Logic.Relation
import Mathlib.Logic.Function.Basic
import Mathlib.Tactic.Common

/-!
# `put_char` (`lib/kernel/print.S`)

`put_char` instruction by instruction, on the registers of the processor, the
cursor registers of the CRT controller and the text memory.  A store outside
the segment of the text memory, and a division that overflows, stop the run.

Registers are natural numbers; `ebx` is kept in two halves, and of `eax` and
`edx` only the lower one is used.  The arithmetic flags are those of the last
comparison, which are the only ones tested.

* `PutChar.exec` is one instruction;
* `PutChar.Finishes` is a run to the `ret`.
-/

namespace Simos

def selectorVideo : Nat := 24

def textBase : Nat := 0xc00b8000

/-- The size of the segment `SELECTOR_VIDEO`. -/
def textSize : Nat := 0x8000

/-- The CRT controller, with the number of the register that port `0x3d5`
stands for, and the text memory. -/
structure Screen where
  index : Nat
  register : Nat → Nat
  text : Nat → Nat

namespace Screen

/-- The cursor, in the registers `0x0e` and `0x0f`. -/
def cursor (screen : Screen) : Nat :=
  screen.register 0x0e * 256 + screen.register 0x0f

/-- `out dx, al` -/
def out (screen : Screen) (port value : Nat) : Screen :=
  if port = 0x3d4 then { screen with index := value }
  else if port = 0x3d5 then
    { screen with
      register := Function.update screen.register screen.index value }
  else screen

/-- `in al, dx` -/
def input (screen : Screen) (port : Nat) : Nat :=
  if port = 0x3d5 then screen.register screen.index else screen.index

end Screen

namespace PutChar

structure Regs where
  al : Nat
  ah : Nat
  bx : Nat
  ebxHigh : Nat
  ecx : Nat
  dx : Nat
  esi : Nat
  edi : Nat
  deriving Inhabited

/-- The registers, the flags after a comparison, the direction flag and what
`pushad` saved. -/
structure Cpu where
  regs : Regs
  gs : Nat
  equal : Bool
  less : Bool
  down : Bool
  saved : Regs
  deriving Inhabited

inductive Label where
  | isCarriageReturn
  | isLineFeed
  | isBackspace
  | putcharProcess
  | putcharEnd
  | cls
  | setCursor

inductive Instr where
  | pushad
  | popad
  | ret
  | movAx (value : Nat)
  | movGsAx
  | movDx (value : Nat)
  | movAl (value : Nat)
  | outDxAl
  | inAlDx
  | movAhAl
  | movAlBh
  | movAlBl
  | movBxAx
  | movAxBx
  | movEcxArg
  | cmpCl (value : Nat)
  | cmpBx (value : Nat)
  | jz (label : Label)
  | jl (label : Label)
  | jmp (label : Label)
  | loop (label : Label)
  | incBx
  | decBx
  | shlBx
  | shrBx
  | addBx (value : Nat)
  | subBxDx
  | movBx (value : Nat)
  | storeCl
  | storeByte (value : Nat)
  | xorDxDx
  | movSi (value : Nat)
  | divSi
  | cld
  | movEcx (value : Nat)
  | movEsi (value : Nat)
  | movEdi (value : Nat)
  | repMovsd
  | movEbx (value : Nat)
  | addEbx (value : Nat)
  | storeWord (value : Nat)

def putcharEnd : List Instr :=
  [.popad, .ret]

def setCursor : List Instr :=
  [.movDx 0x3d4, .movAl 0x0e, .outDxAl, .movDx 0x3d5, .movAlBh, .outDxAl,
    .movDx 0x3d4, .movAl 0x0f, .outDxAl, .movDx 0x3d5, .movAlBl,
    .outDxAl] ++ putcharEnd

def clsLoop : List Instr :=
  [.storeWord 0x0720, .addEbx 2, .loop .cls, .movBx 1920] ++ setCursor

def rollScreen : List Instr :=
  [.cld, .movEcx 960, .movEsi 0xc00b80a0, .movEdi 0xc00b8000, .repMovsd,
    .movEbx 3840, .movEcx 80] ++ clsLoop

/-- `.is_line_feed`, which is also `.is_carriage_return`. -/
def lineFeed : List Instr :=
  [.xorDxDx, .movAxBx, .movSi 80, .divSi, .subBxDx, .addBx 80, .cmpBx 2000,
    .jl .setCursor] ++ rollScreen

def putcharProcess : List Instr :=
  [.shlBx, .storeCl, .incBx, .storeByte 0x02, .shrBx, .incBx, .cmpBx 2000,
    .jl .setCursor] ++ lineFeed

def backspace : List Instr :=
  [.decBx, .shlBx, .storeByte 0x20, .incBx, .storeByte 0x02, .shrBx,
    .jmp .setCursor]

/-- The code from where the cursor has been read. -/
def decode : List Instr :=
  [.movBxAx, .movEcxArg, .cmpCl 0x0d, .jz .isCarriageReturn, .cmpCl 0x0a,
    .jz .isLineFeed, .cmpCl 0x8, .jz .isBackspace, .cmpCl 0x0,
    .jz .putcharEnd, .jmp .putcharProcess]

def putChar : List Instr :=
  [.pushad, .movAx selectorVideo, .movGsAx, .movDx 0x3d4, .movAl 0x0e,
    .outDxAl, .movDx 0x3d5, .inAlDx, .movAhAl, .movDx 0x3d4, .movAl 0x0f,
    .outDxAl, .movDx 0x3d5, .inAlDx] ++ decode

def Label.code : Label → List Instr
  | .isCarriageReturn | .isLineFeed => lineFeed
  | .isBackspace => backspace
  | .putcharProcess => PutChar.putcharProcess
  | .putcharEnd => PutChar.putcharEnd
  | .cls => clsLoop
  | .setCursor => PutChar.setCursor

/-- `[gs:offset]` is a byte of the text memory. -/
def Cpu.InText (cpu : Cpu) (offset : Nat) : Prop :=
  cpu.gs = selectorVideo ∧ offset < textSize

instance (cpu : Cpu) (offset : Nat) : Decidable (cpu.InText offset) :=
  inferInstanceAs (Decidable (_ ∧ _))

/-- The doubleword that `movsd` copies, when both are in the text memory. -/
def copyDword (text : Nat → Nat) (source target : Nat) : Option (Nat → Nat) :=
  if textBase ≤ source ∧ source + 4 ≤ textBase + textSize ∧
      textBase ≤ target ∧ target + 4 ≤ textBase + textSize then
    some fun offset =>
      if target - textBase ≤ offset ∧ offset < target - textBase + 4 then
        text (offset - (target - textBase) + (source - textBase))
      else text offset
  else none

/-- What an instruction other than `in` and `out` does to the registers and
the text memory. -/
def Instr.work (arg : Nat) (cpu : Cpu) (text : Nat → Nat) :
    Instr → Option (Cpu × (Nat → Nat))
  | .pushad => some ({ cpu with saved := cpu.regs }, text)
  | .popad => some ({ cpu with regs := cpu.saved }, text)
  | .movAx value =>
      some ({ cpu with
        regs := { cpu.regs with al := value % 256, ah := value / 256 } }, text)
  | .movGsAx =>
      some ({ cpu with gs := cpu.regs.ah * 256 + cpu.regs.al }, text)
  | .movDx value =>
      some ({ cpu with regs := { cpu.regs with dx := value } }, text)
  | .movAl value =>
      some ({ cpu with regs := { cpu.regs with al := value } }, text)
  | .movAhAl =>
      some ({ cpu with regs := { cpu.regs with ah := cpu.regs.al } }, text)
  | .movAlBh =>
      some ({ cpu with regs := { cpu.regs with al := cpu.regs.bx / 256 } },
        text)
  | .movAlBl =>
      some ({ cpu with regs := { cpu.regs with al := cpu.regs.bx % 256 } },
        text)
  | .movBxAx =>
      some ({ cpu with
        regs := { cpu.regs with bx := cpu.regs.ah * 256 + cpu.regs.al } }, text)
  | .movAxBx =>
      some ({ cpu with
        regs := { cpu.regs with
          al := cpu.regs.bx % 256
          ah := cpu.regs.bx / 256 } }, text)
  | .movEcxArg =>
      some ({ cpu with regs := { cpu.regs with ecx := arg } }, text)
  | .cmpCl value =>
      some ({ cpu with equal := cpu.regs.ecx % 256 = value }, text)
  | .cmpBx value =>
      -- the comparison is signed
      some ({ cpu with
        less := 32768 ≤ cpu.regs.bx ∨ cpu.regs.bx < value }, text)
  | .jz _ | .jl _ | .jmp _ | .ret => some (cpu, text)
  | .loop _ =>
      some ({ cpu with
        regs := { cpu.regs with
          ecx := (cpu.regs.ecx + 4294967295) % 4294967296 } }, text)
  | .incBx =>
      some ({ cpu with
        regs := { cpu.regs with bx := (cpu.regs.bx + 1) % 65536 } }, text)
  | .decBx =>
      some ({ cpu with
        regs := { cpu.regs with bx := (cpu.regs.bx + 65535) % 65536 } }, text)
  | .shlBx =>
      some ({ cpu with
        regs := { cpu.regs with bx := cpu.regs.bx * 2 % 65536 } }, text)
  | .shrBx =>
      some ({ cpu with regs := { cpu.regs with bx := cpu.regs.bx / 2 } }, text)
  | .addBx value =>
      some ({ cpu with
        regs := { cpu.regs with bx := (cpu.regs.bx + value) % 65536 } }, text)
  | .subBxDx =>
      some ({ cpu with
        regs := { cpu.regs with
          bx := (cpu.regs.bx + 65536 - cpu.regs.dx) % 65536 } }, text)
  | .movBx value =>
      some ({ cpu with regs := { cpu.regs with bx := value } }, text)
  | .storeCl =>
      if cpu.InText cpu.regs.bx then
        some (cpu, Function.update text cpu.regs.bx (cpu.regs.ecx % 256))
      else none
  | .storeByte value =>
      if cpu.InText cpu.regs.bx then
        some (cpu, Function.update text cpu.regs.bx value)
      else none
  | .xorDxDx => some ({ cpu with regs := { cpu.regs with dx := 0 } }, text)
  | .movSi value =>
      some ({ cpu with
        regs := { cpu.regs with
          esi := cpu.regs.esi / 65536 * 65536 + value } }, text)
  | .divSi =>
      let divisor := cpu.regs.esi % 65536
      let dividend :=
        cpu.regs.dx * 65536 + (cpu.regs.ah * 256 + cpu.regs.al)
      if divisor = 0 ∨ 65536 ≤ dividend / divisor then none
      else
        some ({ cpu with
          regs := { cpu.regs with
            al := dividend / divisor % 256
            ah := dividend / divisor / 256
            dx := dividend % divisor } }, text)
  | .cld => some ({ cpu with down := false }, text)
  | .movEcx value =>
      some ({ cpu with regs := { cpu.regs with ecx := value } }, text)
  | .movEsi value =>
      some ({ cpu with regs := { cpu.regs with esi := value } }, text)
  | .movEdi value =>
      some ({ cpu with regs := { cpu.regs with edi := value } }, text)
  | .repMovsd =>
      -- one repetition, if there is one
      if cpu.regs.ecx = 0 then some (cpu, text)
      else
        let onward (address : Nat) :=
          (if cpu.down then address + 4294967292 else address + 4) % 4294967296
        (copyDword text cpu.regs.esi cpu.regs.edi).map fun text =>
          ({ cpu with
            regs := { cpu.regs with
              ecx := cpu.regs.ecx - 1
              esi := onward cpu.regs.esi
              edi := onward cpu.regs.edi } }, text)
  | .movEbx value =>
      some ({ cpu with
        regs := { cpu.regs with
          bx := value % 65536
          ebxHigh := value / 65536 } }, text)
  | .addEbx value =>
      let sum := (cpu.regs.ebxHigh * 65536 + cpu.regs.bx + value) % 4294967296
      some ({ cpu with
        regs := { cpu.regs with
          bx := sum % 65536
          ebxHigh := sum / 65536 } }, text)
  | .storeWord value =>
      let offset := cpu.regs.ebxHigh * 65536 + cpu.regs.bx
      if cpu.InText (offset + 1) then
        some (cpu, Function.update (Function.update text offset (value % 256))
          (offset + 1) (value / 256))
      else none
  | .outDxAl | .inAlDx => none

/-- Where the run goes on, with the registers after the instruction. -/
def Instr.goesOn (cpu : Cpu) (rest : List Instr) : Instr → List Instr
  | .jz label => if cpu.equal then label.code else rest
  | .jl label => if cpu.less then label.code else rest
  | .jmp label => label.code
  | .loop label => if cpu.regs.ecx = 0 then rest else label.code
  | .repMovsd => if cpu.regs.ecx = 0 then rest else .repMovsd :: rest
  | .ret => []
  | _ => rest

/-- A call of `put_char`: the registers and the code that is left. -/
structure Activation where
  cpu : Cpu
  rest : List Instr

def work (arg : Nat) (run : Activation) (text : Nat → Nat) :
    Option (Activation × (Nat → Nat)) :=
  match run.rest with
  | [] => none
  | instr :: rest =>
      (instr.work arg run.cpu text).map fun next =>
        (⟨next.1, instr.goesOn next.1 rest⟩, next.2)

/-- One instruction; `arg` is the argument on the stack. -/
def exec (arg : Nat) (run : Activation) (screen : Screen) :
    Option (Activation × Screen) :=
  match run.rest with
  | .outDxAl :: rest =>
      some (⟨run.cpu, rest⟩, screen.out run.cpu.regs.dx run.cpu.regs.al)
  | .inAlDx :: rest =>
      some (⟨{ run.cpu with
        regs := { run.cpu.regs with al := screen.input run.cpu.regs.dx } },
        rest⟩, screen)
  | _ =>
      (work arg run screen.text).map fun next =>
        (next.1, { screen with text := next.2 })

def Steps (arg : Nat) : Activation × Screen → Activation × Screen → Prop :=
  Relation.ReflTransGen fun before after =>
    exec arg before.1 before.2 = some after

def Finishes (arg : Nat) (run : Activation) (screen after : Screen) : Prop :=
  ∃ cpu, Steps arg (run, screen) (⟨cpu, []⟩, after)

def called (cpu : Cpu) : Activation :=
  ⟨cpu, putChar⟩

/-! ## Where the instructions store -/

/-- The address is in the text area, which has 25 rows of 80 cells. -/
def InTextArea (address : Nat) : Prop :=
  textBase ≤ address ∧ address < textBase + 4000

instance (address : Nat) : Decidable (InTextArea address) :=
  inferInstanceAs (Decidable (_ ∧ _))

/-- The addresses that an instruction stores to, those on the stack aside. -/
def Instr.stores (cpu : Cpu) : Instr → List Nat
  | .storeCl | .storeByte _ => [textBase + cpu.regs.bx]
  | .storeWord _ =>
      let offset := cpu.regs.ebxHigh * 65536 + cpu.regs.bx
      [textBase + offset, textBase + offset + 1]
  | .repMovsd =>
      if cpu.regs.ecx = 0 then []
      else
        [cpu.regs.edi, cpu.regs.edi + 1, cpu.regs.edi + 2, cpu.regs.edi + 3]
  | _ => []

def Activation.stores (run : Activation) : List Nat :=
  match run.rest with
  | [] => []
  | instr :: _ => instr.stores run.cpu

def Activation.StoresInText (run : Activation) : Prop :=
  ∀ address ∈ run.stores, InTextArea address

instance (run : Activation) : Decidable run.StoresInText :=
  inferInstanceAs (Decidable (∀ address ∈ run.stores, InTextArea address))

end PutChar

end Simos
