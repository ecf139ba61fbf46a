import Simos.Kernel.PutChar
import Simos.Library.Paper
import Simos.Library.Runs

/-!
# `put_char` prints on a paper

From where the cursor has been read to where it is set, `put_char` uses no
port: that part is `Console.put` on the paper that the screen is a window of.

* `Shows` says that the text memory is the window;
* `decode_put` is the part between the two accesses of the cursor;
* `putChar_finishes` is the whole function.
-/

namespace Simos

open Simos.Library

/-- The paper behind the console; a cell has a character and an attribute. -/
abbrev Console : Type :=
  Paper (Nat × Nat)

/-- What a character does to the paper; `none` when there is no cell to
erase. -/
def Console.put (paper : Console) (arg : Nat) : Option Console :=
  if arg % 256 = 0 then some paper
  else if arg % 256 = 0x0d ∨ arg % 256 = 0x0a then some (paper.newRow 80 25)
  else if arg % 256 = 0x08 then paper.erase 80 (0x20, 0x02)
  else some (paper.print 80 25 (arg % 256, 0x02))

def blankCell : Nat × Nat :=
  (0x20, 0x07)

/-- The paper of the console, with the window on it. -/
abbrev Console.Ok (paper : Console) : Prop :=
  paper.Wf 80 25 blankCell

def ShowsText (paper : Console) (text : Nat → Nat) : Prop :=
  ∀ offset, offset < 2000 →
    text (2 * offset) = (paper.cell (80 * paper.top + offset)).1 ∧
      text (2 * offset + 1) = (paper.cell (80 * paper.top + offset)).2

/-- The screen is the window on the paper, with the cursor at the position. -/
structure Shows (paper : Console) (screen : Screen) : Prop where
  ok : paper.Ok
  high : screen.register 0x0e = paper.cursor 80 / 256
  low : screen.register 0x0f = paper.cursor 80 % 256
  text : ShowsText paper screen.text

def Console.of (screen : Screen) : Console where
  top := 0
  pos := screen.cursor
  cell pos :=
    if pos < 2000 then (screen.text (2 * pos), screen.text (2 * pos + 1))
    else blankCell
  filled := ∅

structure OnScreen (screen : Screen) : Prop where
  low : screen.register 0x0f < 256
  inside : screen.cursor < 2000

theorem shows_of {screen : Screen} (onScreen : OnScreen screen) :
    Shows (.of screen) screen := by
  have low := onScreen.low
  have inside := onScreen.inside
  have cursor : Paper.cursor 80 (Console.of screen) = screen.cursor := rfl
  refine ⟨⟨?_, ?_, ?_, ?_⟩, ?_, ?_, ?_⟩
  · exact Nat.zero_le _
  · exact inside
  · intro pos member
    cases member
  · intro pos below
    exact if_neg (Nat.not_lt.mpr below)
  · rw [cursor, Screen.cursor]
    omega
  · rw [cursor, Screen.cursor]
    omega
  · intro offset inside
    have cell :
        (Console.of screen).cell (80 * (Console.of screen).top + offset) =
          (screen.text (2 * offset), screen.text (2 * offset + 1)) := by
      simp only [Console.of, Nat.mul_zero, Nat.zero_add, if_pos inside]
    rw [cell]
    exact ⟨rfl, rfl⟩

def emptyScreen : Screen where
  index := 0
  register _ := 0
  text _ := 0

theorem onScreen_empty : OnScreen emptyScreen :=
  ⟨by decide, by decide⟩

theorem Console.Ok.cursor_lt {paper : Console} (ok : paper.Ok) :
    paper.cursor 80 < 2000 ∧ 80 * paper.top + paper.cursor 80 = paper.pos := by
  have low := ok.low
  have high := ok.high
  unfold Paper.cursor
  omega

theorem Console.Ok.put {paper paper' : Console} (ok : paper.Ok) {arg : Nat}
    (puts : paper.put arg = some paper') : paper'.Ok := by
  unfold Console.put at puts
  split at puts
  next => exact Option.some.inj puts ▸ ok
  next =>
    split at puts
    next =>
      exact Option.some.inj puts ▸ ok.newRow (by decide) (by decide)
    next =>
      split at puts
      next => exact ok.erase puts
      next =>
        exact Option.some.inj puts ▸ ok.print (by decide) (by decide) _

theorem Console.put_eq_none {paper : Console} {arg : Nat}
    (puts : paper.put arg = none) :
    arg % 256 = 0x08 ∧ paper.cursor 80 = 0 := by
  unfold Console.put at puts
  split at puts
  next => cases puts
  next =>
    split at puts
    next => cases puts
    next =>
      split at puts
      next bs =>
        refine ⟨bs, ?_⟩
        simp only [Paper.erase, ite_eq_right_iff, reduceCtorEq, imp_false,
          Nat.not_lt] at puts
        exact Nat.sub_eq_zero_of_le puts
      next => cases puts

namespace PutChar

def WorkSteps (arg : Nat) :
    Activation × (Nat → Nat) → Activation × (Nat → Nat) → Prop :=
  Relation.ReflTransGen fun before after =>
    work arg before.1 before.2 = some after

def textWork (arg : Nat) : Activation × (Nat → Nat) →
    Option (Activation × (Nat → Nat)) :=
  checkedStep (fun state => state.1.StoresInText)
    fun state => work arg state.1 state.2

/-- Some instructions without `in` and `out` that store in the text area
only. -/
def TextSteps (arg : Nat) :
    Activation × (Nat → Nat) → Activation × (Nat → Nat) → Prop :=
  Relation.ReflTransGen fun before after => textWork arg before = some after

private theorem TextSteps.works {arg : Nat}
    {state after : Activation × (Nat → Nat)}
    (steps : TextSteps arg state after) : WorkSteps arg state after :=
  steps_of_checked steps

private theorem textWork_of {arg : Nat} {run : Activation} {text : Nat → Nat}
    {next : Activation × (Nat → Nat)} (area : run.StoresInText)
    (taken : work arg run text = some next) :
    textWork arg (run, text) = some next :=
  checkedStep_eq_some_iff.mpr ⟨area, taken⟩

@[simp]
theorem work_cons (arg : Nat) (cpu : Cpu) (instr : Instr) (rest : List Instr)
    (text : Nat → Nat) :
    work arg ⟨cpu, instr :: rest⟩ text =
      (instr.work arg cpu text).map fun next =>
        (⟨next.1, instr.goesOn next.1 rest⟩, next.2) :=
  rfl

theorem textWork_cons (arg : Nat) (cpu : Cpu) (instr : Instr)
    (rest : List Instr) (text : Nat → Nat) :
    textWork arg (⟨cpu, instr :: rest⟩, text) =
      if ∀ address ∈ instr.stores cpu, InTextArea address then
        (instr.work arg cpu text).map fun next =>
          (⟨next.1, instr.goesOn next.1 rest⟩, next.2)
      else none :=
  rfl

private theorem forall_mem_nil_iff (holds : Nat → Prop) :
    (∀ address ∈ ([] : List Nat), holds address) ↔ True :=
  iff_true_intro fun _ member => (List.not_mem_nil member).elim

/-! ## Scrolling -/

private def copied (text : Nat → Nat) (count : Nat) : Nat → Nat :=
  fun offset => if offset < 4 * count then text (offset + 160) else text offset

private def cleared (text : Nat → Nat) (count : Nat) : Nat → Nat :=
  fun offset =>
    if 3840 ≤ offset ∧ offset < 3840 + 2 * count then
      if offset % 2 = 0 then 0x20 else 0x07
    else text offset

private theorem copyDword_copied (text : Nat → Nat) {count : Nat}
    (few : count < 960) :
    copyDword (copied text count) (0xc00b80a0 + 4 * count)
      (0xc00b8000 + 4 * count) = some (copied text (count + 1)) := by
  have inside : textBase ≤ 0xc00b80a0 + 4 * count ∧
      0xc00b80a0 + 4 * count + 4 ≤ textBase + textSize ∧
      textBase ≤ 0xc00b8000 + 4 * count ∧
      0xc00b8000 + 4 * count + 4 ≤ textBase + textSize := by
    unfold textBase textSize
    omega
  have source : 0xc00b80a0 + 4 * count - textBase = 160 + 4 * count := by
    unfold textBase
    omega
  have target : 0xc00b8000 + 4 * count - textBase = 4 * count := by
    unfold textBase
    omega
  rw [copyDword, if_pos inside, source, target, Option.some.injEq]
  funext offset
  unfold copied
  split
  next here =>
    have shift : offset - 4 * count + (160 + 4 * count) = offset + 160 := by
      omega
    rw [shift, if_neg (by omega), if_pos (by omega)]
  next =>
    split
    next => rw [if_pos (by omega)]
    next => rw [if_neg (by omega)]

private theorem repMovsd_steps (arg : Nat) (text : Nat → Nat)
    (rest : List Instr) {cpu : Cpu} {count : Nat} (few : count ≤ 960)
    (ecx : cpu.regs.ecx = 960 - count)
    (esi : cpu.regs.esi = 0xc00b80a0 + 4 * count)
    (edi : cpu.regs.edi = 0xc00b8000 + 4 * count) (up : cpu.down = false) :
    ∃ cpu', TextSteps arg (⟨cpu, .repMovsd :: rest⟩, copied text count)
        (⟨cpu', rest⟩, copied text 960) ∧ cpu'.gs = cpu.gs := by
  induction left : 960 - count generalizing cpu count
  case zero =>
    have all : count = 960 := by omega
    subst all
    have ended : work arg ⟨cpu, .repMovsd :: rest⟩ (copied text 960) =
        some (⟨cpu, rest⟩, copied text 960) := by
      simp [Instr.work, Instr.goesOn, ecx]
    have quiet : Activation.StoresInText ⟨cpu, .repMovsd :: rest⟩ := by
      intro address member
      simp [Activation.stores, Instr.stores, ecx] at member
    exact ⟨cpu, .single (textWork_of quiet ended), rfl⟩
  case succ more inductionHypothesis =>
    have repeats : cpu.regs.ecx ≠ 0 := by omega
    let cpu' : Cpu := { cpu with
      regs := { cpu.regs with
        ecx := cpu.regs.ecx - 1
        esi := (cpu.regs.esi + 4) % 4294967296
        edi := (cpu.regs.edi + 4) % 4294967296 } }
    have one : work arg ⟨cpu, .repMovsd :: rest⟩ (copied text count) =
        some (⟨cpu', if more = 0 then rest else .repMovsd :: rest⟩,
          copied text (count + 1)) := by
      have last : cpu.regs.ecx - 1 = more := by omega
      simp only [work_cons, Instr.work, if_neg repeats, up, esi, edi]
      rw [copyDword_copied text (by omega)]
      simp [Instr.goesOn, cpu', last, up, esi, edi]
    have area : Activation.StoresInText ⟨cpu, .repMovsd :: rest⟩ := by
      simp only [Activation.StoresInText, Activation.stores, Instr.stores,
        if_neg repeats, edi]
      intro address member
      simp only [List.mem_cons, List.not_mem_nil, or_false] at member
      unfold InTextArea textBase
      omega
    have one := textWork_of area one
    by_cases isLast : more = 0
    · have all : count + 1 = 960 := by omega
      rw [if_pos isLast, all] at one
      exact ⟨cpu', .single one, rfl⟩
    · rw [if_neg isLast] at one
      have few' : count + 1 ≤ 960 := by omega
      have ecx' : cpu'.regs.ecx = 960 - (count + 1) := by
        simp only [cpu']
        omega
      have esi' : cpu'.regs.esi = 0xc00b80a0 + 4 * (count + 1) := by
        simp only [cpu']
        omega
      have edi' : cpu'.regs.edi = 0xc00b8000 + 4 * (count + 1) := by
        simp only [cpu']
        omega
      have left' : 960 - (count + 1) = more := by omega
      obtain ⟨cpu'', steps, gs⟩ :=
        inductionHypothesis few' ecx' esi' edi' up left'
      exact ⟨cpu'', .head one steps, gs⟩

private theorem cleared_succ (text : Nat → Nat) (count : Nat) :
    Function.update
        (Function.update (cleared text count) (3840 + 2 * count) 0x20)
        (3840 + 2 * count + 1) 0x07 = cleared text (count + 1) := by
  funext offset
  unfold cleared
  by_cases second : offset = 3840 + 2 * count + 1
  · rw [second, Function.update_self, if_pos (by omega), if_neg (by omega)]
  · rw [Function.update_of_ne second]
    by_cases first : offset = 3840 + 2 * count
    · rw [first, Function.update_self, if_pos (by omega), if_pos (by omega)]
    · rw [Function.update_of_ne first]
      by_cases earlier : 3840 ≤ offset ∧ offset < 3840 + 2 * count
      · have later : 3840 ≤ offset ∧ offset < 3840 + 2 * (count + 1) := by
          omega
        rw [if_pos earlier, if_pos later]
      · rw [if_neg earlier, if_neg (by omega)]

private theorem loop_ecx {count : Nat} (small : count < 4294967296) :
    (count + 1 + 4294967295) % 4294967296 = count := by
  have wraps : count + 1 + 4294967295 = count + 4294967296 :=
    Nat.add_assoc count 1 4294967295
  rw [wraps, Nat.add_mod_right, Nat.mod_eq_of_lt small]

private theorem clsLoop_round (arg : Nat) (text : Nat → Nat) {cpu : Cpu}
    {count : Nat} (few : count < 80) (gs : cpu.gs = selectorVideo)
    (bx : cpu.regs.bx = 3840 + 2 * count) (ebxHigh : cpu.regs.ebxHigh = 0)
    (ecx : cpu.regs.ecx = 80 - count) :
    ∃ cpu', TextSteps arg (⟨cpu, clsLoop⟩, cleared text count)
        (⟨cpu', if count = 79 then .movBx 1920 :: setCursor else clsLoop⟩,
          cleared text (count + 1)) ∧
      cpu'.gs = selectorVideo ∧ cpu'.regs.bx = 3840 + 2 * (count + 1) ∧
      cpu'.regs.ebxHigh = 0 ∧ cpu'.regs.ecx = 80 - (count + 1) := by
  have inside : cpu.InText (3840 + 2 * count + 1) := by
    refine ⟨gs, ?_⟩
    unfold textSize
    omega
  have stored : work arg ⟨cpu, clsLoop⟩ (cleared text count) =
      some (⟨cpu, .addEbx 2 :: .loop .cls :: .movBx 1920 :: setCursor⟩,
        cleared text (count + 1)) := by
    have word : Instr.work arg cpu (cleared text count) (.storeWord 0x0720) =
        some (cpu, cleared text (count + 1)) := by
      simp only [Instr.work, ebxHigh, bx, Nat.zero_mul, Nat.zero_add]
      rw [if_pos inside, ← cleared_succ text count]
    rw [clsLoop, List.cons_append, work_cons, word]
    rfl
  have area : Activation.StoresInText ⟨cpu, clsLoop⟩ := by
    intro address member
    simp only [Activation.stores, clsLoop, List.cons_append, Instr.stores,
      ebxHigh, bx, List.mem_cons, List.not_mem_nil, or_false] at member
    unfold InTextArea textBase
    unfold textBase at member
    omega
  have sum : (0 * 65536 + (3840 + 2 * count) + 2) % 4294967296 =
      3840 + 2 * (count + 1) := by omega
  have low : (3840 + 2 * (count + 1)) % 65536 = 3840 + 2 * (count + 1) := by
    omega
  have noHigh : (3840 + 2 * (count + 1)) / 65536 = 0 := by omega
  have ecx_eq : 80 - count = 80 - (count + 1) + 1 := by omega
  have fewer : (80 - (count + 1) + 1 + 4294967295) % 4294967296 =
      80 - (count + 1) := loop_ecx (by omega)
  have isLast : 80 - (count + 1) = 0 ↔ count = 79 := by omega
  let cpu' : Cpu := { cpu with
    regs := { cpu.regs with
      bx := 3840 + 2 * (count + 1)
      ebxHigh := 0
      ecx := 80 - (count + 1) } }
  have onward : stepTimes (textWork arg) 2
      (⟨cpu, .addEbx 2 :: .loop .cls :: .movBx 1920 :: setCursor⟩,
        cleared text (count + 1)) =
      some (⟨cpu', if count = 79 then .movBx 1920 :: setCursor else clsLoop⟩,
        cleared text (count + 1)) := by
    simp only [stepTimes, textWork_cons, Instr.stores, forall_mem_nil_iff,
      if_true, Instr.work, Instr.goesOn, Option.map_some, Option.bind_some,
      ebxHigh, bx, sum, low, noHigh, ecx, ecx_eq, fewer, isLast, Label.code,
      cpu']
  exact ⟨cpu', .head (textWork_of area stored) (stepTimes_steps onward), gs,
    rfl, rfl, rfl⟩

private theorem clsLoop_steps (arg : Nat) (text : Nat → Nat) {cpu : Cpu}
    {count : Nat} (few : count < 80) (gs : cpu.gs = selectorVideo)
    (bx : cpu.regs.bx = 3840 + 2 * count) (ebxHigh : cpu.regs.ebxHigh = 0)
    (ecx : cpu.regs.ecx = 80 - count) :
    ∃ cpu', TextSteps arg (⟨cpu, clsLoop⟩, cleared text count)
        (⟨cpu', setCursor⟩, cleared text 80) ∧ cpu'.regs.bx = 1920 := by
  induction left : 79 - count generalizing cpu count
  case zero =>
    have isLast : count = 79 := by omega
    obtain ⟨cpu', round, -⟩ := clsLoop_round arg text few gs bx ebxHigh ecx
    rw [if_pos isLast] at round
    have all : count + 1 = 80 := by omega
    rw [all] at round
    exact ⟨{ cpu' with regs := { cpu'.regs with bx := 1920 } },
      .tail round rfl, rfl⟩
  case succ more inductionHypothesis =>
    have notLast : count ≠ 79 := by omega
    obtain ⟨cpu', round, gs', bx', ebxHigh', ecx'⟩ :=
      clsLoop_round arg text few gs bx ebxHigh ecx
    rw [if_neg notLast] at round
    have few' : count + 1 < 80 := by omega
    have left' : 79 - (count + 1) = more := by omega
    obtain ⟨cpu'', rest, bx''⟩ :=
      inductionHypothesis few' gs' bx' ebxHigh' ecx' left'
    exact ⟨cpu'', round.trans rest, bx''⟩

private def scrolled (text : Nat → Nat) : Nat → Nat :=
  cleared (copied text 960) 80

private theorem rollScreen_steps (arg : Nat) (text : Nat → Nat) {cpu : Cpu}
    (gs : cpu.gs = selectorVideo) :
    ∃ cpu', TextSteps arg (⟨cpu, rollScreen⟩, text)
        (⟨cpu', setCursor⟩, scrolled text) ∧ cpu'.regs.bx = 1920 := by
  have none : copied text 0 = text := by
    funext offset
    simp [copied]
  have noneCleared : cleared (copied text 960) 0 = copied text 960 := by
    funext offset
    simp [cleared]
  let copies : Cpu := { cpu with
    down := false
    regs := { cpu.regs with
      ecx := 960, esi := 0xc00b80a0, edi := 0xc00b8000 } }
  have before : stepTimes (textWork arg) 4 (⟨cpu, rollScreen⟩, text) =
      some (⟨copies, .repMovsd :: .movEbx 3840 :: .movEcx 80 :: clsLoop⟩,
        text) := rfl
  have few : 0 ≤ 960 := by decide
  have ecx : copies.regs.ecx = 960 - 0 := rfl
  have esi : copies.regs.esi = 0xc00b80a0 + 4 * 0 := rfl
  have edi : copies.regs.edi = 0xc00b8000 + 4 * 0 := rfl
  obtain ⟨cleans, copy, gs'⟩ := repMovsd_steps arg text
    (.movEbx 3840 :: .movEcx 80 :: clsLoop) few ecx esi edi rfl
  rw [none] at copy
  let clears : Cpu := { cleans with
    regs := { cleans.regs with bx := 3840, ebxHigh := 0, ecx := 80 } }
  have between : stepTimes (textWork arg) 2
      (⟨cleans, .movEbx 3840 :: .movEcx 80 :: clsLoop⟩, copied text 960) =
      some (⟨clears, clsLoop⟩, copied text 960) := rfl
  have few' : 0 < 80 := by decide
  have gs'' : clears.gs = selectorVideo := gs'.trans gs
  have bx : clears.regs.bx = 3840 + 2 * 0 := rfl
  have ecx' : clears.regs.ecx = 80 - 0 := rfl
  obtain ⟨cpu', clear, bx'⟩ :=
    clsLoop_steps arg (copied text 960) few' gs'' bx rfl ecx'
  rw [noneCleared] at clear
  exact ⟨cpu', (stepTimes_steps before).trans
    (copy.trans ((stepTimes_steps between).trans clear)), bx'⟩

/-- The start of the row behind a position, and the scroll when it is below
the screen. -/
theorem lineFeed_steps (arg : Nat) (text : Nat → Nat) {cpu : Cpu} {pos : Nat}
    (inside : pos ≤ 2000) (gs : cpu.gs = selectorVideo)
    (bx : cpu.regs.bx = pos) :
    ∃ cpu', if pos / 80 * 80 + 80 < 2000 then
        TextSteps arg (⟨cpu, lineFeed⟩, text) (⟨cpu', setCursor⟩, text) ∧
          cpu'.regs.bx = pos / 80 * 80 + 80
      else
        TextSteps arg (⟨cpu, lineFeed⟩, text)
            (⟨cpu', setCursor⟩, scrolled text) ∧
          cpu'.regs.bx = 1920 := by
  subst bx
  let divides : Cpu := { cpu with
    regs := { cpu.regs with
      dx := 0
      al := cpu.regs.bx % 256
      ah := cpu.regs.bx / 256
      esi := cpu.regs.esi / 65536 * 65536 + 80 } }
  have before : stepTimes (textWork arg) 3 (⟨cpu, lineFeed⟩, text) =
      some (⟨divides, .divSi :: .subBxDx :: .addBx 80 :: .cmpBx 2000 ::
        .jl .setCursor :: rollScreen⟩, text) := rfl
  have divisor : (cpu.regs.esi / 65536 * 65536 + 80) % 65536 = 80 := by
    omega
  have dividend : 0 * 65536 + (cpu.regs.bx / 256 * 256 + cpu.regs.bx % 256) =
      cpu.regs.bx := by omega
  have fits : ¬ (80 = 0 ∨ 65536 ≤ cpu.regs.bx / 80) := by omega
  have column : (cpu.regs.bx + 65536 - cpu.regs.bx % 80) % 65536 =
      cpu.regs.bx / 80 * 80 := by omega
  have row : (cpu.regs.bx / 80 * 80 + 80) % 65536 =
      cpu.regs.bx / 80 * 80 + 80 := by omega
  have less : (32768 ≤ cpu.regs.bx / 80 * 80 + 80 ∨
      cpu.regs.bx / 80 * 80 + 80 < 2000) ↔
        cpu.regs.bx / 80 * 80 + 80 < 2000 := by omega
  let after : Cpu := { divides with
    less := cpu.regs.bx / 80 * 80 + 80 < 2000
    regs := { divides.regs with
      al := cpu.regs.bx / 80 % 256
      ah := cpu.regs.bx / 80 / 256
      dx := cpu.regs.bx % 80
      bx := cpu.regs.bx / 80 * 80 + 80 } }
  have onward : stepTimes (textWork arg) 5
      (⟨divides, .divSi :: .subBxDx :: .addBx 80 :: .cmpBx 2000 ::
        .jl .setCursor :: rollScreen⟩, text) =
      some (⟨after, if cpu.regs.bx / 80 * 80 + 80 < 2000 then setCursor
        else rollScreen⟩, text) := by
    simp only [stepTimes, textWork_cons, Instr.stores, forall_mem_nil_iff,
      if_true, Instr.work, Instr.goesOn, Option.map_some, Option.bind_some,
      divides, divisor, dividend, if_neg fits, column, row, less, Label.code,
      after, decide_eq_true_eq]
  have whole := (stepTimes_steps before).trans (stepTimes_steps onward)
  split
  next inside => exact ⟨after, by rwa [if_pos inside] at whole, rfl⟩
  next below =>
    rw [if_neg below] at whole
    obtain ⟨cpu', roll, bx⟩ :=
      rollScreen_steps arg text (show after.gs = selectorVideo from gs)
    exact ⟨cpu', whole.trans roll, bx⟩

end PutChar

/-! ## On the paper -/

section Shows

open PutChar

variable {text : Nat → Nat} {paper paper' : Console}

private theorem ShowsText.scroll (shows : ShowsText paper text)
    (beyond : ∀ pos, 80 * (paper.top + 25) ≤ pos →
      paper.cell pos = blankCell)
    (top : paper'.top = paper.top + 1) (cell : paper'.cell = paper.cell) :
    ShowsText paper' (scrolled text) := by
  intro offset inside
  unfold scrolled cleared copied
  rw [top, cell]
  by_cases last : 1920 ≤ offset
  · rw [beyond (80 * (paper.top + 1) + offset) (by omega),
      if_pos (by omega), if_pos (by omega), if_pos (by omega),
      if_neg (by omega)]
    exact ⟨rfl, rfl⟩
  · have row : 80 * (paper.top + 1) + offset =
        80 * paper.top + (offset + 80) := by omega
    have first : 2 * offset + 160 = 2 * (offset + 80) := by omega
    have second : 2 * offset + 1 + 160 = 2 * (offset + 80) + 1 := by omega
    rw [if_neg (by omega), if_pos (by omega), if_neg (by omega),
      if_pos (by omega), row, first, second]
    exact shows (offset + 80) (by omega)

theorem ShowsText.write (shows : ShowsText paper text) {offset : Nat}
    (pos : 80 * paper.top + offset = paper.pos) (char color : Nat)
    (top : paper'.top = paper.top)
    (cell : paper'.cell =
      Function.update paper.cell paper.pos (char, color)) :
    ShowsText paper' (Function.update (Function.update text (2 * offset) char)
      (2 * offset + 1) color) := by
  intro tested inside
  rw [top, cell, ← pos]
  by_cases same : tested = offset
  · rw [same, Function.update_self, Function.update_self,
      Function.update_of_ne (by omega), Function.update_self]
    exact ⟨rfl, rfl⟩
  · rw [Function.update_of_ne (by omega), Function.update_of_ne (by omega),
      Function.update_of_ne (by omega), Function.update_of_ne (by omega),
      Function.update_of_ne (by omega)]
    exact shows tested inside

private theorem ShowsText.write_scroll (shows : ShowsText paper text)
    (ok : paper.Ok) {offset : Nat} (pos : 80 * paper.top + offset = paper.pos)
    (char color : Nat) (top : paper'.top = paper.top + 1)
    (cell : paper'.cell =
      Function.update paper.cell paper.pos (char, color)) :
    ShowsText paper' (scrolled
      (Function.update (Function.update text (2 * offset) char)
        (2 * offset + 1) color)) := by
  let written : Console := { paper with cell := paper'.cell }
  have high := ok.high
  have shows' : ShowsText written
      (Function.update (Function.update text (2 * offset) char)
        (2 * offset + 1) color) :=
    shows.write pos char color rfl cell
  apply shows'.scroll
  · intro tested below
    have below : 80 * (paper.top + 25) ≤ tested := below
    simp only [written, cell,
      Function.update_of_ne (show tested ≠ paper.pos by omega)]
    exact ok.beyond tested below
  · exact top
  · rfl

end Shows

namespace PutChar

/-- The cursor is about to be set to the position on the paper, and the text
memory shows the paper. -/
def Reaches (arg : Nat) (run : Activation) (text : Nat → Nat)
    (paper : Console) : Prop :=
  ∃ cpu text', WorkSteps arg (run, text) (⟨cpu, setCursor⟩, text') ∧
    cpu.regs.bx = paper.cursor 80 ∧ ShowsText paper text'

/-- The same with stores in the text area only. -/
def TextReaches (arg : Nat) (run : Activation) (text : Nat → Nat)
    (paper : Console) : Prop :=
  ∃ cpu text', TextSteps arg (run, text) (⟨cpu, setCursor⟩, text') ∧
    cpu.regs.bx = paper.cursor 80 ∧ ShowsText paper text'

private theorem TextReaches.reaches {arg : Nat} {run : Activation}
    {text : Nat → Nat} {paper : Console}
    (reaches : TextReaches arg run text paper) :
    Reaches arg run text paper := by
  obtain ⟨cpu, text', steps, shown⟩ := reaches
  exact ⟨cpu, text', steps.works, shown⟩

section Blocks

variable {arg : Nat} {text : Nat → Nat} {paper paper' : Console} {cpu : Cpu}

private theorem lineFeed_reaches (ok : paper.Ok) (shows : ShowsText paper text)
    (gs : cpu.gs = selectorVideo) (bx : cpu.regs.bx = paper.cursor 80) :
    TextReaches arg ⟨cpu, lineFeed⟩ text (paper.newRow 80 25) := by
  obtain ⟨below, pos⟩ := ok.cursor_lt
  obtain ⟨cpu', steps⟩ := lineFeed_steps arg text (by omega) gs bx
  have row : (paper.pos / 80 + 1) * 80 =
      80 * paper.top + (paper.cursor 80 / 80 * 80 + 80) := by omega
  by_cases inside : paper.cursor 80 / 80 * 80 + 80 < 2000
  · rw [if_pos inside] at steps
    have kept : (paper.pos / 80 + 1) * 80 < 80 * (paper.top + 25) := by omega
    refine ⟨cpu', text, steps.1, ?_, ?_⟩
    · rw [steps.2]
      simp only [Paper.newRow, Paper.goto, Paper.cursor, if_pos kept]
      omega
    · intro offset inside
      simp only [Paper.newRow, Paper.goto, if_pos kept]
      exact shows offset inside
  · rw [if_neg inside] at steps
    have scrolls : ¬ (paper.pos / 80 + 1) * 80 < 80 * (paper.top + 25) := by
      omega
    refine ⟨cpu', scrolled text, steps.1, ?_, ?_⟩
    · rw [steps.2]
      simp only [Paper.newRow, Paper.goto, Paper.cursor, if_neg scrolls]
      omega
    · apply shows.scroll ok.beyond
      · exact if_neg scrolls
      · rfl

theorem cell_offsets {cell : Nat} (inside : cell < 2000) :
    cell * 2 % 65536 = 2 * cell ∧ (2 * cell + 1) % 65536 = 2 * cell + 1 ∧
      (2 * cell + 1) / 2 = cell ∧ 2 * cell < textSize ∧
      2 * cell + 1 < textSize := by
  unfold textSize
  omega

private theorem cell_area {cell : Nat} (inside : cell < 2000) :
    InTextArea (textBase + 2 * cell) ∧
      InTextArea (textBase + (2 * cell + 1)) := by
  unfold InTextArea
  omega

private theorem putcharProcess_reaches (ok : paper.Ok)
    (shows : ShowsText paper text)
    (gs : cpu.gs = selectorVideo) (bx : cpu.regs.bx = paper.cursor 80)
    (ecx : cpu.regs.ecx = arg) :
    TextReaches arg ⟨cpu, putcharProcess⟩ text
      (paper.print 80 25 (arg % 256, 0x02)) := by
  obtain ⟨below, pos⟩ := ok.cursor_lt
  generalize paper.cursor 80 = cursor at bx below pos
  obtain ⟨double, next, half, fits, fits'⟩ := cell_offsets below
  obtain ⟨area, area'⟩ := cell_area below
  have onward : (cursor + 1) % 65536 = cursor + 1 := by omega
  have less : (32768 ≤ cursor + 1 ∨ cursor + 1 < 2000) ↔ cursor + 1 < 2000 := by
    omega
  let printed : Cpu := { cpu with
    less := cursor + 1 < 2000
    regs := { cpu.regs with bx := cursor + 1 } }
  have prints : stepTimes (textWork arg) 8 (⟨cpu, putcharProcess⟩, text) =
      some (⟨printed, if cursor + 1 < 2000 then setCursor else lineFeed⟩,
        Function.update (Function.update text (2 * cursor) (arg % 256))
          (2 * cursor + 1) 0x02) := by
    simp only [stepTimes, putcharProcess, List.cons_append, List.nil_append,
      textWork_cons, Instr.stores, forall_mem_nil_iff,
      List.forall_mem_singleton, area, area', Instr.work, Instr.goesOn,
      Cpu.InText, Option.map_some, Option.bind_some, bx, gs, ecx, double,
      next, half, onward, less, fits, fits', and_self, if_true, Label.code,
      printed, decide_eq_true_eq]
  have steps := stepTimes_steps prints
  by_cases inside : cursor + 1 < 2000
  · rw [if_pos inside] at steps
    have kept : paper.pos + 1 < 80 * (paper.top + 25) := by omega
    refine ⟨printed, _, steps, ?_, ?_⟩
    · simp only [Paper.print, Paper.goto, Paper.cursor, if_pos kept, printed]
      omega
    · apply shows.write pos
      · exact if_pos kept
      · rfl
  · rw [if_neg inside] at steps
    have last : cursor + 1 = 2000 := by omega
    have scrolls : ¬ paper.pos + 1 < 80 * (paper.top + 25) := by omega
    have gs' : printed.gs = selectorVideo := gs
    have bx' : printed.regs.bx = cursor + 1 := rfl
    obtain ⟨cpu', roll⟩ :=
      lineFeed_steps arg _ (Nat.le_of_eq last) gs' bx'
    rw [if_neg (by omega)] at roll
    refine ⟨cpu', _, steps.trans roll.1, ?_, ?_⟩
    · rw [roll.2]
      simp only [Paper.print, Paper.goto, Paper.cursor, if_neg scrolls]
      omega
    · apply shows.write_scroll ok pos
      · exact if_neg scrolls
      · rfl

private theorem backspace_reaches (ok : paper.Ok) (shows : ShowsText paper text)
    (gs : cpu.gs = selectorVideo) (bx : cpu.regs.bx = paper.cursor 80)
    (erases : paper.erase 80 (0x20, 0x02) = some paper') :
    TextReaches arg ⟨cpu, backspace⟩ text paper' := by
  obtain ⟨below, pos⟩ := ok.cursor_lt
  simp only [Paper.erase, Option.ite_none_right_eq_some,
    Option.some.injEq] at erases
  obtain ⟨behind, rfl⟩ := erases
  have positive : 0 < paper.cursor 80 := by
    unfold Paper.cursor
    omega
  generalize paper.cursor 80 = cursor at bx below pos positive
  have before : (cursor + 65535) % 65536 = cursor - 1 := by omega
  have inside : cursor - 1 < 2000 := by omega
  obtain ⟨double, next, half, fits, fits'⟩ := cell_offsets inside
  obtain ⟨area, area'⟩ := cell_area inside
  let erased : Cpu := { cpu with regs := { cpu.regs with bx := cursor - 1 } }
  have erases : stepTimes (textWork arg) 7 (⟨cpu, backspace⟩, text) =
      some (⟨erased, setCursor⟩,
        Function.update (Function.update text (2 * (cursor - 1)) 0x20)
          (2 * (cursor - 1) + 1) 0x02) := by
    simp only [stepTimes, backspace, textWork_cons, Instr.stores,
      forall_mem_nil_iff, List.forall_mem_singleton, area, area', Instr.work,
      Instr.goesOn, Cpu.InText, Option.map_some, Option.bind_some, bx, gs,
      before, double, next, half, fits, fits', and_self, if_true, Label.code,
      erased]
  refine ⟨erased, _, stepTimes_steps erases, ?_, ?_⟩
  · simp only [Paper.cursor, erased]
    omega
  · have shows : ShowsText { paper with pos := paper.pos - 1 } text := shows
    apply shows.write
    · simp only
      omega
    · rfl
    · rfl

private theorem compare_textWork (value : Nat) (label : Label)
    (rest : List Instr) :
    stepTimes (textWork arg) 2
        (⟨cpu, .cmpCl value :: .jz label :: rest⟩, text) =
      some (⟨{ cpu with equal := cpu.regs.ecx % 256 = value },
        if cpu.regs.ecx % 256 = value then label.code else rest⟩, text) := by
  simp only [stepTimes, textWork_cons, Instr.stores, forall_mem_nil_iff,
    if_true, Instr.work, Instr.goesOn, Option.map_some, Option.bind_some,
    decide_eq_true_eq]

def dispatch (arg : Nat) : List Instr :=
  if arg % 256 = 0x0d then lineFeed
  else if arg % 256 = 0x0a then lineFeed
  else if arg % 256 = 0x08 then backspace
  else if arg % 256 = 0 then putcharEnd
  else putcharProcess

theorem decode_steps (arg : Nat) (cpu : Cpu) (text : Nat → Nat) :
    ∃ cpu', TextSteps arg (⟨cpu, decode⟩, text)
        (⟨cpu', dispatch arg⟩, text) ∧
      cpu'.gs = cpu.gs ∧
      cpu'.regs.bx = cpu.regs.ah * 256 + cpu.regs.al ∧
      cpu'.regs.ecx = arg := by
  let compared (equal : Bool) : Cpu := { cpu with
    equal
    regs := { cpu.regs with
      bx := cpu.regs.ah * 256 + cpu.regs.al
      ecx := arg } }
  have loaded : stepTimes (textWork arg) 2 (⟨cpu, decode⟩, text) =
      some (⟨compared cpu.equal, decode.drop 2⟩, text) := rfl
  have compares (equal : Bool) (value : Nat) (label : Label)
      (rest : List Instr) :
      TextSteps arg
        (⟨compared equal, .cmpCl value :: .jz label :: rest⟩, text)
        (⟨compared (arg % 256 = value),
          if arg % 256 = value then label.code else rest⟩, text) :=
    stepTimes_steps (compare_textWork value label rest)
  have isCr := (stepTimes_steps loaded).trans
    (compares cpu.equal 0x0d .isCarriageReturn (decode.drop 4))
  unfold dispatch
  by_cases cr : arg % 256 = 0x0d
  · rw [if_pos cr] at isCr ⊢
    exact ⟨_, isCr, rfl, rfl, rfl⟩
  rw [if_neg cr] at isCr ⊢
  have isLf := isCr.trans (compares _ 0x0a .isLineFeed (decode.drop 6))
  by_cases lf : arg % 256 = 0x0a
  · rw [if_pos lf] at isLf ⊢
    exact ⟨_, isLf, rfl, rfl, rfl⟩
  rw [if_neg lf] at isLf ⊢
  have isBs := isLf.trans (compares _ 0x08 .isBackspace (decode.drop 8))
  by_cases bs : arg % 256 = 0x08
  · rw [if_pos bs] at isBs ⊢
    exact ⟨_, isBs, rfl, rfl, rfl⟩
  rw [if_neg bs] at isBs ⊢
  have isNul := isBs.trans (compares _ 0x00 .putcharEnd (decode.drop 10))
  by_cases nul : arg % 256 = 0
  · rw [if_pos nul] at isNul ⊢
    exact ⟨_, isNul, rfl, rfl, rfl⟩
  rw [if_neg nul] at isNul ⊢
  exact ⟨_, isNul.tail rfl, rfl, rfl, rfl⟩

/-- Between the accesses of the cursor, a character is put on the paper. -/
theorem decode_textPut (ok : paper.Ok) (shows : ShowsText paper text)
    (gs : cpu.gs = selectorVideo)
    (ax : cpu.regs.ah * 256 + cpu.regs.al = paper.cursor 80)
    (char : arg % 256 ≠ 0) (puts : paper.put arg = some paper') :
    TextReaches arg ⟨cpu, decode⟩ text paper' := by
  obtain ⟨cpu', decodes, gs', bx, ecx⟩ := decode_steps arg cpu text
  rw [gs] at gs'
  rw [ax] at bx
  have block : TextReaches arg ⟨cpu', dispatch arg⟩ text paper' := by
    unfold Console.put at puts
    unfold dispatch
    rw [if_neg char] at puts
    by_cases cr : arg % 256 = 0x0d
    · rw [if_pos (Or.inl cr), Option.some.injEq] at puts
      rw [if_pos cr, ← puts]
      exact lineFeed_reaches ok shows gs' bx
    rw [if_neg cr]
    by_cases lf : arg % 256 = 0x0a
    · rw [if_pos (Or.inr lf), Option.some.injEq] at puts
      rw [if_pos lf, ← puts]
      exact lineFeed_reaches ok shows gs' bx
    rw [if_neg (not_or.mpr ⟨cr, lf⟩)] at puts
    rw [if_neg lf]
    by_cases bs : arg % 256 = 0x08
    · rw [if_pos bs] at puts ⊢
      exact backspace_reaches ok shows gs' bx puts
    rw [if_neg bs] at puts ⊢
    rw [if_neg char, ← Option.some.inj puts]
    exact putcharProcess_reaches ok shows gs' bx ecx
  obtain ⟨last, text', onward, rest⟩ := block
  exact ⟨last, text', decodes.trans onward, rest⟩

theorem decode_put (ok : paper.Ok) (shows : ShowsText paper text)
    (gs : cpu.gs = selectorVideo)
    (ax : cpu.regs.ah * 256 + cpu.regs.al = paper.cursor 80)
    (char : arg % 256 ≠ 0) (puts : paper.put arg = some paper') :
    Reaches arg ⟨cpu, decode⟩ text paper' :=
  (decode_textPut ok shows gs ax char puts).reaches

theorem decode_fault
    (ax : cpu.regs.ah * 256 + cpu.regs.al = paper.cursor 80)
    (puts : paper.put arg = none) :
    ∃ cpu', WorkSteps arg (⟨cpu, decode⟩, text)
        (⟨cpu', backspace.drop 2⟩, text) ∧
      work arg ⟨cpu', backspace.drop 2⟩ text = none := by
  obtain ⟨bs, top⟩ := Console.put_eq_none puts
  obtain ⟨cpu', decodes, -, bx, -⟩ := decode_steps arg cpu text
  have isBackspace : dispatch arg = backspace := by
    simp only [dispatch, bs, reduceIte, Nat.reduceEqDiff]
  rw [isBackspace] at decodes
  rw [ax, top] at bx
  let outside : Cpu :=
    { cpu' with regs := { cpu'.regs with bx := 65534 } }
  have erases : stepTimes (textWork arg) 2 (⟨cpu', backspace⟩, text) =
      some (⟨outside, backspace.drop 2⟩, text) := by
    simp only [stepTimes, backspace, textWork_cons, Instr.stores,
      forall_mem_nil_iff, if_true, Instr.work, Instr.goesOn, Option.map_some,
      Option.bind_some, bx, outside, List.drop_succ_cons, List.drop_zero,
      Nat.zero_add, Nat.reduceMod, Nat.reduceMul]
  have faults : ¬ outside.InText 65534 := by
    intro inside
    exact absurd inside.2 (by decide)
  refine ⟨outside, TextSteps.works (decodes.trans (stepTimes_steps erases)),
    ?_⟩
  have stored : Instr.work arg outside text (.storeByte 0x20) = none :=
    if_neg faults
  simp only [backspace, List.drop_succ_cons, List.drop_zero, work_cons,
    stored, Option.map_none]

end Blocks

end PutChar

end Simos
