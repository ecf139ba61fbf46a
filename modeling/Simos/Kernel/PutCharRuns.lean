import Simos.Kernel.PutCharPaper

/-!
# The runs of `put_char`

The instructions that access the cursor, and with them the whole of a call,
both when nothing disturbs it and when the screen changes between two
instructions.

* `putChar_finishes` and `Finishes.shows` are a call that nothing disturbs;
* `Before` and `After` say what holds between two instructions of a call,
  before and after the character is on the paper.
-/

namespace Simos

open Simos.Library

namespace PutChar

variable {arg : Nat} {paper paper' : Console} {screen after : Screen}

/-! ## A call that nothing disturbs -/

private def textExec (arg : Nat) : Activation × Screen →
    Option (Activation × Screen) :=
  checkedStep (fun state => state.1.StoresInText)
    fun state => exec arg state.1 state.2

def TextExecs (arg : Nat) :
    Activation × Screen → Activation × Screen → Prop :=
  Relation.ReflTransGen fun before after => textExec arg before = some after

theorem TextExecs.steps {state last : Activation × Screen}
    (execs : TextExecs arg state last) : Steps arg state last :=
  steps_of_checked execs

/-- The run comes to its end with this screen, and on the way it stores in
the text area only. -/
def FinishesInText (arg : Nat) (run : Activation) (screen after : Screen) :
    Prop :=
  ∃ cpu, TextExecs arg (run, screen) (⟨cpu, []⟩, after)

theorem FinishesInText.finishes {run : Activation}
    (finishes : FinishesInText arg run screen after) :
    Finishes arg run screen after := by
  obtain ⟨cpu, execs⟩ := finishes
  exact ⟨cpu, execs.steps⟩

/-- An instruction without `in` and `out` is the same on every screen with
this text memory. -/
theorem exec_of_work {run run' : Activation} {text' : Nat → Nat}
    (works : work arg run screen.text = some (run', text')) :
    exec arg run screen = some (run', { screen with text := text' }) := by
  obtain ⟨cpu, rest⟩ := run
  unfold exec
  split
  next at_ =>
    simp only at at_
    rw [at_, work_cons] at works
    cases works
  next at_ =>
    simp only at at_
    rw [at_, work_cons] at works
    cases works
  next => rw [works, Option.map_some]

theorem WorkSteps.steps {run run' : Activation} {text' : Nat → Nat}
    (works : WorkSteps arg (run, screen.text) (run', text')) :
    Steps arg (run, screen) (run', { screen with text := text' }) := by
  refine Relation.ReflTransGen.lift
    (fun state => (state.1, { screen with text := state.2 })) ?_ _ _ works
  intro before after one
  exact exec_of_work one

private theorem TextSteps.execs {run run' : Activation} {text' : Nat → Nat}
    (works : TextSteps arg (run, screen.text) (run', text')) :
    TextExecs arg (run, screen) (run', { screen with text := text' }) := by
  refine Relation.ReflTransGen.lift
    (fun state => (state.1, { screen with text := state.2 })) ?_ _ _ works
  intro before after one
  obtain ⟨area, taken⟩ := checkedStep_eq_some_iff.mp one
  exact checkedStep_eq_some_iff.mpr ⟨area, exec_of_work taken⟩

theorem read_steps (arg : Nat) (cpu : Cpu) (screen : Screen) :
    ∃ cpu', TextExecs arg (called cpu, screen)
        (⟨cpu', decode⟩, { screen with index := 0x0f }) ∧
      cpu'.gs = selectorVideo ∧ cpu'.regs.ah = screen.register 0x0e ∧
      cpu'.regs.al = screen.register 0x0f := by
  have reads : stepTimes (textExec arg) 14 (called cpu, screen) =
      some (⟨{ cpu with
        saved := cpu.regs
        gs := selectorVideo / 256 * 256 + selectorVideo % 256
        regs := { cpu.regs with
          ah := screen.register 0x0e
          al := screen.register 0x0f
          dx := 0x3d5 } }, decode⟩, { screen with index := 0x0f }) := rfl
  exact ⟨_, stepTimes_steps reads, rfl, rfl, rfl⟩

theorem setCursor_steps (arg : Nat) (cpu : Cpu) (screen : Screen) :
    ∃ cpu', TextExecs arg (⟨cpu, setCursor⟩, screen)
      (⟨cpu', []⟩,
        { screen with
          index := 0x0f
          register := Function.update
            (Function.update screen.register 0x0e (cpu.regs.bx / 256))
            0x0f (cpu.regs.bx % 256) }) := by
  have writes : stepTimes (textExec arg) 14 (⟨cpu, setCursor⟩, screen) =
      some (⟨{ cpu with regs := cpu.saved }, []⟩,
        { screen with
          index := 0x0f
          register := Function.update
            (Function.update screen.register 0x0e (cpu.regs.bx / 256))
            0x0f (cpu.regs.bx % 256) }) := rfl
  exact ⟨_, stepTimes_steps writes⟩

/-- The code ends with the same screen, however often it is run. -/
theorem Finishes.unique {run : Activation} {other : Screen}
    (one : Finishes arg run screen after)
    (two : Finishes arg run screen other) : after = other := by
  obtain ⟨cpu, toOne⟩ := one
  obtain ⟨cpu', toOther⟩ := two
  exact congrArg Prod.snd (halted_unique toOne toOther rfl rfl)

theorem finishesInText_nul (cpu : Cpu) (nul : arg % 256 = 0) :
    FinishesInText arg (called cpu) screen { screen with index := 0x0f } := by
  obtain ⟨reader, reads, -⟩ := read_steps arg cpu screen
  obtain ⟨decoder, decodes, -⟩ := decode_steps arg reader screen.text
  have isEnd : dispatch arg = putcharEnd := by
    simp [dispatch, nul]
  rw [isEnd] at decodes
  let ended : Screen := { screen with index := 0x0f }
  have decodes : TextExecs arg (⟨reader, decode⟩, ended)
      (⟨decoder, putcharEnd⟩, ended) := TextSteps.execs decodes
  have pops : stepTimes (textExec arg) 2 (⟨decoder, putcharEnd⟩, ended) =
      some (⟨{ decoder with regs := decoder.saved }, []⟩, ended) := rfl
  exact ⟨_, (reads.trans decodes).trans (stepTimes_steps pops)⟩

theorem finishes_nul (cpu : Cpu) (nul : arg % 256 = 0) :
    Finishes arg (called cpu) screen { screen with index := 0x0f } :=
  (finishesInText_nul cpu nul).finishes

theorem putChar_finishesInText (cpu : Cpu) (shows : Shows paper screen)
    (puts : paper.put arg = some paper') :
    ∃ after, FinishesInText arg (called cpu) screen after ∧
      Shows paper' after ∧ after.index = 0x0f := by
  by_cases nul : arg % 256 = 0
  · rw [Console.put, if_pos nul, Option.some.injEq] at puts
    exact ⟨_, finishesInText_nul cpu nul,
      puts ▸ ⟨shows.ok, shows.high, shows.low, shows.text⟩, rfl⟩
  obtain ⟨reader, reads, gs, ah, al⟩ := read_steps arg cpu screen
  have ax : reader.regs.ah * 256 + reader.regs.al = paper.cursor 80 := by
    rw [ah, al, shows.high, shows.low]
    omega
  obtain ⟨setter, text', puts', bx, shows'⟩ :=
    decode_textPut shows.ok shows.text gs ax nul puts
  let seen : Screen := { screen with index := 0x0f }
  have onward : TextExecs arg (⟨reader, decode⟩, seen)
      (⟨setter, setCursor⟩, { seen with text := text' }) :=
    TextSteps.execs puts'
  obtain ⟨last, sets⟩ := setCursor_steps arg setter { seen with text := text' }
  refine ⟨_, ⟨last, (reads.trans onward).trans sets⟩, ?_, rfl⟩
  refine ⟨shows.ok.put puts, ?_, ?_, shows'⟩
  · rw [← bx]
    rfl
  · rw [← bx]
    rfl

theorem putChar_finishes (cpu : Cpu) (shows : Shows paper screen)
    (puts : paper.put arg = some paper') :
    ∃ after, Finishes arg (called cpu) screen after ∧ Shows paper' after ∧
      after.index = 0x0f := by
  obtain ⟨after, finishes, shows'⟩ := putChar_finishesInText cpu shows puts
  exact ⟨after, finishes.finishes, shows'⟩

/-- What a call that comes to its end has done. -/
theorem Finishes.shows {cpu : Cpu} (shows : Shows paper screen)
    (finishes : Finishes arg (called cpu) screen after) :
    ∃ paper', paper.put arg = some paper' ∧ Shows paper' after ∧
      after.index = 0x0f := by
  rcases puts : paper.put arg with _ | paper'
  case some =>
    obtain ⟨other, finishes', shows', index⟩ :=
      putChar_finishes cpu shows puts
    obtain rfl := finishes.unique finishes'
    exact ⟨paper', rfl, shows', index⟩
  case none =>
    obtain ⟨reader, reads, -, ah, al⟩ := read_steps arg cpu screen
    have ax : reader.regs.ah * 256 + reader.regs.al = paper.cursor 80 := by
      rw [ah, al, shows.high, shows.low]
      omega
    let seen : Screen := { screen with index := 0x0f }
    obtain ⟨faulted, decodes, faults⟩ := decode_fault ax puts
    have onward : Steps arg (⟨reader, decode⟩, seen)
        (⟨faulted, backspace.drop 2⟩, seen) := WorkSteps.steps decodes
    have halted : exec arg ⟨faulted, backspace.drop 2⟩ seen = none :=
      congrArg (Option.map _) faults
    obtain ⟨last, toEnd⟩ := finishes
    have same := halted_unique toEnd (reads.steps.trans onward) rfl halted
    cases same

/-! ## Between two instructions -/

/-- What the registers hold before the instruction with this number, up to
where the cursor has been read. -/
def ReadsAt (cpu : Cpu) (screen : Screen) : Nat → Prop
  | 0 | 1 => True
  | 2 => cpu.regs.ah * 256 + cpu.regs.al = selectorVideo
  | 3 => cpu.gs = selectorVideo
  | 4 => cpu.gs = selectorVideo ∧ cpu.regs.dx = 0x3d4
  | 5 => cpu.gs = selectorVideo ∧ cpu.regs.dx = 0x3d4 ∧ cpu.regs.al = 0x0e
  | 6 => cpu.gs = selectorVideo ∧ screen.index = 0x0e
  | 7 => cpu.gs = selectorVideo ∧ screen.index = 0x0e ∧ cpu.regs.dx = 0x3d5
  | 8 => cpu.gs = selectorVideo ∧ cpu.regs.al = screen.register 0x0e
  | 9 => cpu.gs = selectorVideo ∧ cpu.regs.ah = screen.register 0x0e
  | 10 => cpu.gs = selectorVideo ∧ cpu.regs.ah = screen.register 0x0e ∧
      cpu.regs.dx = 0x3d4
  | 11 => cpu.gs = selectorVideo ∧ cpu.regs.ah = screen.register 0x0e ∧
      cpu.regs.dx = 0x3d4 ∧ cpu.regs.al = 0x0f
  | 12 => cpu.gs = selectorVideo ∧ cpu.regs.ah = screen.register 0x0e ∧
      screen.index = 0x0f
  | 13 => cpu.gs = selectorVideo ∧ cpu.regs.ah = screen.register 0x0e ∧
      screen.index = 0x0f ∧ cpu.regs.dx = 0x3d5
  | _ => cpu.gs = selectorVideo ∧ cpu.regs.ah = screen.register 0x0e ∧
      cpu.regs.al = screen.register 0x0f

private theorem out_index {port value : Nat} (isIndex : port = 0x3d4) :
    screen.out port value = { screen with index := value } := by
  rw [isIndex]
  rfl

private theorem out_data {port value : Nat} (isData : port = 0x3d5) :
    screen.out port value = { screen with
      register := Function.update screen.register screen.index value } := by
  rw [isData]
  rfl

private theorem input_data {port : Nat} (isData : port = 0x3d5) :
    screen.input port = screen.register screen.index := by
  rw [isData]
  rfl

theorem ReadsAt.step {cpu : Cpu} {next : Activation × Screen} {place : Nat}
    (reads : ReadsAt cpu screen place) (early : place < 14)
    (taken : exec arg ⟨cpu, putChar.drop place⟩ screen = some next) :
    ∃ cpu' index,
      next = (⟨cpu', putChar.drop (place + 1)⟩, { screen with index }) ∧
        ReadsAt cpu' { screen with index } (place + 1) := by
  match place, early with
  | 0, _ => exact ⟨_, _, (Option.some.inj taken).symm, trivial⟩
  | 1, _ =>
      exact ⟨_, _, (Option.some.inj taken).symm, Nat.div_add_mod' _ _⟩
  | 2, _ => exact ⟨_, _, (Option.some.inj taken).symm, reads⟩
  | 3, _ => exact ⟨_, _, (Option.some.inj taken).symm, reads, rfl⟩
  | 4, _ =>
      obtain ⟨gs, dx⟩ := reads
      exact ⟨_, _, (Option.some.inj taken).symm, gs, dx, rfl⟩
  | 5, _ =>
      obtain ⟨gs, dx, al⟩ := reads
      have result := (Option.some.inj taken).symm
      rw [out_index dx] at result
      exact ⟨_, _, result, gs, al⟩
  | 6, _ =>
      obtain ⟨gs, index⟩ := reads
      exact ⟨_, _, (Option.some.inj taken).symm, gs, index, rfl⟩
  | 7, _ =>
      obtain ⟨gs, index, dx⟩ := reads
      have result := (Option.some.inj taken).symm
      rw [input_data dx, index] at result
      exact ⟨_, _, result, gs, rfl⟩
  | 8, _ =>
      obtain ⟨gs, al⟩ := reads
      exact ⟨_, _, (Option.some.inj taken).symm, gs, al⟩
  | 9, _ =>
      obtain ⟨gs, ah⟩ := reads
      exact ⟨_, _, (Option.some.inj taken).symm, gs, ah, rfl⟩
  | 10, _ =>
      obtain ⟨gs, ah, dx⟩ := reads
      exact ⟨_, _, (Option.some.inj taken).symm, gs, ah, dx, rfl⟩
  | 11, _ =>
      obtain ⟨gs, ah, dx, al⟩ := reads
      have result := (Option.some.inj taken).symm
      rw [out_index dx] at result
      exact ⟨_, _, result, gs, ah, al⟩
  | 12, _ =>
      obtain ⟨gs, ah, index⟩ := reads
      exact ⟨_, _, (Option.some.inj taken).symm, gs, ah, index, rfl⟩
  | 13, _ =>
      obtain ⟨gs, ah, index, dx⟩ := reads
      have result := (Option.some.inj taken).symm
      rw [input_data dx, index] at result
      exact ⟨_, _, result, gs, ah, rfl⟩

/-- Before the first access the screen may change as it likes. -/
theorem ReadsAt.of_early {cpu : Cpu} {other : Screen} {place : Nat}
    (reads : ReadsAt cpu screen place) (early : place ≤ 5) :
    ReadsAt cpu other place := by
  match place, early with
  | 0, _ | 1, _ | 2, _ | 3, _ | 4, _ | 5, _ => exact reads

theorem ReadsAt.of_high {cpu : Cpu} {other : Screen} {place : Nat}
    (reads : ReadsAt cpu screen place) (late : 8 ≤ place)
    (early : place ≤ 13)
    (high : other.register 0x0e = screen.register 0x0e)
    (index : other.index = 0x0f) : ReadsAt cpu other place := by
  match place, late, early with
  | 8, _, _ | 9, _, _ => exact ⟨reads.1, reads.2.trans high.symm⟩
  | 10, _, _ | 11, _, _ =>
      exact ⟨reads.1, reads.2.1.trans high.symm, reads.2.2⟩
  | 12, _, _ => exact ⟨reads.1, reads.2.1.trans high.symm, index⟩
  | 13, _, _ =>
      exact ⟨reads.1, reads.2.1.trans high.symm, index, reads.2.2.2⟩

/-- What the registers hold before the instruction with this number from
`.set_cursor` on; `target` is the new cursor. -/
def WritesAt (target : Nat) (cpu : Cpu) (screen : Screen) : Nat → Prop
  | 0 => cpu.regs.bx = target
  | 1 => cpu.regs.bx = target ∧ cpu.regs.dx = 0x3d4
  | 2 => cpu.regs.bx = target ∧ cpu.regs.dx = 0x3d4 ∧ cpu.regs.al = 0x0e
  | 3 => cpu.regs.bx = target ∧ screen.index = 0x0e
  | 4 => cpu.regs.bx = target ∧ screen.index = 0x0e ∧ cpu.regs.dx = 0x3d5
  | 5 => cpu.regs.bx = target ∧ screen.index = 0x0e ∧
      cpu.regs.dx = 0x3d5 ∧ cpu.regs.al = target / 256
  | 6 => cpu.regs.bx = target ∧ screen.register 0x0e = target / 256
  | 7 => cpu.regs.bx = target ∧ screen.register 0x0e = target / 256 ∧
      cpu.regs.dx = 0x3d4
  | 8 => cpu.regs.bx = target ∧ screen.register 0x0e = target / 256 ∧
      cpu.regs.dx = 0x3d4 ∧ cpu.regs.al = 0x0f
  | 9 => cpu.regs.bx = target ∧ screen.register 0x0e = target / 256 ∧
      screen.index = 0x0f
  | 10 => cpu.regs.bx = target ∧ screen.register 0x0e = target / 256 ∧
      screen.index = 0x0f ∧ cpu.regs.dx = 0x3d5
  | 11 => screen.register 0x0e = target / 256 ∧ screen.index = 0x0f ∧
      cpu.regs.dx = 0x3d5 ∧ cpu.regs.al = target % 256
  | _ => screen.register 0x0e = target / 256 ∧
      screen.register 0x0f = target % 256

theorem WritesAt.step {cpu : Cpu} {next : Activation × Screen}
    {target place : Nat} (writes : WritesAt target cpu screen place)
    (early : place < 12)
    (taken : exec arg ⟨cpu, setCursor.drop place⟩ screen = some next) :
    ∃ cpu', next.1 = ⟨cpu', setCursor.drop (place + 1)⟩ ∧
      next.2.text = screen.text ∧
        WritesAt target cpu' next.2 (place + 1) := by
  match place, early with
  | 0, _ =>
      cases taken
      exact ⟨_, rfl, rfl, writes, rfl⟩
  | 1, _ =>
      cases taken
      obtain ⟨bx, dx⟩ := writes
      exact ⟨_, rfl, rfl, bx, dx, rfl⟩
  | 2, _ =>
      cases taken
      obtain ⟨bx, dx, al⟩ := writes
      rw [out_index dx]
      exact ⟨_, rfl, rfl, bx, al⟩
  | 3, _ =>
      cases taken
      obtain ⟨bx, index⟩ := writes
      exact ⟨_, rfl, rfl, bx, index, rfl⟩
  | 4, _ =>
      cases taken
      obtain ⟨bx, index, dx⟩ := writes
      exact ⟨_, rfl, rfl, bx, index, dx, congrArg (· / 256) bx⟩
  | 5, _ =>
      cases taken
      obtain ⟨bx, index, dx, al⟩ := writes
      rw [out_data dx, index, al]
      exact ⟨_, rfl, rfl, bx, rfl⟩
  | 6, _ =>
      cases taken
      obtain ⟨bx, high⟩ := writes
      exact ⟨_, rfl, rfl, bx, high, rfl⟩
  | 7, _ =>
      cases taken
      obtain ⟨bx, high, dx⟩ := writes
      exact ⟨_, rfl, rfl, bx, high, dx, rfl⟩
  | 8, _ =>
      cases taken
      obtain ⟨bx, high, dx, al⟩ := writes
      rw [out_index dx]
      exact ⟨_, rfl, rfl, bx, high, al⟩
  | 9, _ =>
      cases taken
      obtain ⟨bx, high, index⟩ := writes
      exact ⟨_, rfl, rfl, bx, high, index, rfl⟩
  | 10, _ =>
      cases taken
      obtain ⟨bx, high, index, dx⟩ := writes
      exact ⟨_, rfl, rfl, high, index, dx, congrArg (· % 256) bx⟩
  | 11, _ =>
      cases taken
      obtain ⟨high, index, dx, al⟩ := writes
      rw [out_data dx, index, al]
      exact ⟨_, rfl, rfl, high, rfl⟩

/-- A change of the index is noticed only between the two accesses to the
upper half. -/
theorem WritesAt.of_index {cpu : Cpu} {target place : Nat}
    (writes : WritesAt target cpu screen place) (early : place < 12)
    (outside : place < 3 ∨ 6 ≤ place) :
    WritesAt target cpu { screen with index := 0x0f } place := by
  match place, early, outside with
  | 0, _, _ | 1, _, _ | 2, _, _ | 6, _, _ | 7, _, _ | 8, _, _ => exact writes
  | 9, _, _ => exact ⟨writes.1, writes.2.1, rfl⟩
  | 10, _, _ => exact ⟨writes.1, writes.2.1, rfl, writes.2.2.2⟩
  | 11, _, _ => exact ⟨writes.1, rfl, writes.2.2⟩

def Ended (rest : List Instr) : Prop :=
  rest = putcharEnd ∨ rest = [.ret] ∨ rest = []

private theorem Ended.work {run : Activation} {text : Nat → Nat}
    {next : Activation × (Nat → Nat)} (ended : Ended run.rest)
    (taken : work arg run text = some next) : Ended next.1.rest := by
  obtain ⟨cpu, rest⟩ := run
  rcases ended with at_ | at_ | at_ <;> cases at_ <;> cases taken
  · exact Or.inr (Or.inl rfl)
  · exact Or.inr (Or.inr rfl)

private theorem Ended.workSteps {state last : Activation × (Nat → Nat)}
    (ended : Ended state.1.rest) (steps : WorkSteps arg state last) :
    Ended last.1.rest := by
  induction steps with
  | refl => exact ended
  | tail _ one inductionHypothesis => exact inductionHypothesis.work one

private theorem not_ended_drop {code : List Instr} {place : Nat}
    (long : place + 2 < code.length) : ¬ Ended (code.drop place) := by
  intro ended
  rcases ended with at_ | at_ | at_ <;>
  · have same := congrArg List.length at_
    simp only [List.length_drop, putcharEnd, List.length_cons,
      List.length_nil] at same
    omega

theorem inAlDx_mem {place : Nat} (early : place < 14) :
    .inAlDx ∈ putChar.drop place := by
  have last : .inAlDx ∈ putChar.drop 13 := List.mem_cons_self ..
  have split : putChar.drop 13 = (putChar.drop place).drop (13 - place) := by
    rw [List.drop_drop]
    congr 1
    omega
  rw [split] at last
  exact List.mem_of_mem_drop last

theorem Label.inAlDx_notMem (label : Label) : .inAlDx ∉ label.code := by
  cases label <;>
    simp [Label.code, lineFeed, rollScreen, clsLoop, PutChar.setCursor,
      PutChar.putcharEnd, backspace, PutChar.putcharProcess]

private theorem Instr.inAlDx_notMem (instr : Instr) (cpu : Cpu)
    {rest : List Instr}
    (read : .inAlDx ∉ rest) : .inAlDx ∉ instr.goesOn cpu rest := by
  cases instr with
  | jz label =>
      simp only [Instr.goesOn]
      split
      · exact label.inAlDx_notMem
      · exact read
  | jl label =>
      simp only [Instr.goesOn]
      split
      · exact label.inAlDx_notMem
      · exact read
  | loop label =>
      simp only [Instr.goesOn]
      split
      · exact read
      · exact label.inAlDx_notMem
  | repMovsd =>
      simp only [Instr.goesOn]
      split
      · exact read
      · simpa using read
  | jmp label => exact label.inAlDx_notMem
  | ret => exact List.not_mem_nil
  | _ => exact read

private theorem work_inAlDx {run : Activation} {text : Nat → Nat}
    {next : Activation × (Nat → Nat)} (read : .inAlDx ∉ run.rest)
    (taken : work arg run text = some next) : .inAlDx ∉ next.1.rest := by
  obtain ⟨cpu, rest⟩ := run
  cases rest with
  | nil => cases taken
  | cons instr rest =>
      obtain ⟨middle, -, rfl⟩ := Option.map_eq_some_iff.mp taken
      exact instr.inAlDx_notMem middle.1 (List.not_mem_of_not_mem_cons read)

/-- Before the character is on the paper: the cursor is being read, or the
call is going to fault. -/
inductive Before (arg : Nat) (paper : Console) (run : Activation)
    (screen : Screen) : Prop
  | reads {place : Nat} (early : place < 14)
      (at_ : run.rest = putChar.drop place)
      (reads : ReadsAt run.cpu screen place) (shows : Shows paper screen)
  | faults {cpu : Cpu} {text : Nat → Nat} (read : .inAlDx ∉ run.rest)
      (steps : WorkSteps arg (run, screen.text)
        (⟨cpu, backspace.drop 2⟩, text))
      (halts : work arg ⟨cpu, backspace.drop 2⟩ text = none)

/-- When the character is on the paper: the call is at work, or the cursor is
being set, or it has been set. -/
inductive After (arg : Nat) (paper : Console) (run : Activation)
    (screen : Screen) : Prop
  | works (ok : paper.Ok) (read : .inAlDx ∉ run.rest)
      (reaches : Reaches arg run screen.text paper)
  | writes {place : Nat} (early : place < 12) (ok : paper.Ok)
      (at_ : run.rest = setCursor.drop place)
      (writes : WritesAt (paper.cursor 80) run.cpu screen place)
      (shows : ShowsText paper screen.text)
  | ends (ended : Ended run.rest) (shows : Shows paper screen)

theorem before_called (cpu : Cpu) (shows : Shows paper screen) :
    Before arg paper (called cpu) screen := by
  have early : 0 < 14 := by decide
  have reads : ReadsAt cpu screen 0 := trivial
  exact .reads early rfl reads shows

theorem exec_works {run : Activation} {middle : Activation × (Nat → Nat)}
    {next : Activation × Screen}
    (works : work arg run screen.text = some middle)
    (taken : exec arg run screen = some next) :
    next = (middle.1, { screen with text := middle.2 }) :=
  Option.some.inj (taken.symm.trans (exec_of_work works))

theorem Before.step {run : Activation} {next : Activation × Screen}
    (before : Before arg paper run screen) (char : arg % 256 ≠ 0)
    (taken : exec arg run screen = some next) :
    Before arg paper next.1 next.2 ∨
      ∃ paper', paper.put arg = some paper' ∧
        After arg paper' next.1 next.2 := by
  cases before with
  | @reads place early at_ reads shows =>
      obtain ⟨cpu, rest⟩ := run
      cases at_
      obtain ⟨cpu', index, rfl, reads'⟩ := reads.step early taken
      have shows' : Shows paper { screen with index } :=
        ⟨shows.ok, shows.high, shows.low, shows.text⟩
      by_cases last : place = 13
      · -- the cursor has been read
        subst last
        obtain ⟨gs, ah, al⟩ := reads'
        have ax : cpu'.regs.ah * 256 + cpu'.regs.al = paper.cursor 80 := by
          rw [ah, al, shows'.high, shows'.low]
          omega
        have read : .inAlDx ∉ putChar.drop 14 := by
          simp [putChar, decode]
        rcases puts : paper.put arg with _ | paper'
        case none =>
          obtain ⟨faulted, steps, halts⟩ := decode_fault ax puts
          exact Or.inl (.faults read steps halts)
        case some =>
          exact Or.inr ⟨paper', rfl, .works (shows.ok.put puts) read
            (decode_put shows.ok shows.text gs ax char puts)⟩
      · exact Or.inl (.reads (by omega) rfl reads' shows')
  | faults read steps halts =>
      rcases steps.cases_head with same | ⟨middle, one, rest⟩
      · cases same
        rw [exec, halts] at taken
        cases taken
      · obtain rfl := exec_works one taken
        exact Or.inl (.faults (work_inAlDx read one) rest halts)

private theorem After.of_writes {run : Activation} {next : Activation × Screen}
    {place : Nat} (early : place < 12) (ok : paper.Ok)
    (at_ : run.rest = setCursor.drop place)
    (writes : WritesAt (paper.cursor 80) run.cpu screen place)
    (shows : ShowsText paper screen.text)
    (taken : exec arg run screen = some next) :
    After arg paper next.1 next.2 := by
  obtain ⟨cpu, rest⟩ := run
  cases at_
  obtain ⟨cpu', place', text, writes'⟩ := writes.step early taken
  rw [← text] at shows
  by_cases last : place = 11
  · subst last
    exact .ends (Or.inl (congrArg Activation.rest place'))
      ⟨ok, writes'.1, writes'.2, shows⟩
  · rw [place']
    exact .writes (by omega) ok rfl writes' shows

theorem After.step {run : Activation} {next : Activation × Screen}
    (after : After arg paper run screen)
    (taken : exec arg run screen = some next) :
    After arg paper next.1 next.2 := by
  cases after with
  | works ok read reaches =>
      obtain ⟨cpu, text, steps, bx, shows⟩ := reaches
      rcases steps.cases_head with same | ⟨middle, one, rest⟩
      · cases same
        have early : 0 < 12 := by decide
        have writes : WritesAt (paper.cursor 80) cpu screen 0 := bx
        exact .of_writes early ok rfl writes shows taken
      · obtain rfl := exec_works one taken
        exact .works ok (work_inAlDx read one) ⟨cpu, text, rest, bx, shows⟩
  | writes early ok at_ writes shows =>
      exact .of_writes early ok at_ writes shows taken
  | ends ended shows =>
      obtain ⟨cpu, rest⟩ := run
      rcases ended with at_ | at_ | at_ <;> cases at_ <;> cases taken
      · exact .ends (Or.inr (Or.inl rfl)) shows
      · exact .ends (Or.inr (Or.inr rfl)) shows

theorem not_ended_reads {place : Nat} (early : place < 14) :
    ¬ Ended (putChar.drop place) := by
  apply not_ended_drop
  have length : putChar.length = 25 := rfl
  omega

private theorem not_ended_writes {place : Nat} (early : place < 12) :
    ¬ Ended (setCursor.drop place) := by
  apply not_ended_drop
  have length : setCursor.length = 14 := rfl
  omega

theorem Before.not_ended {run : Activation}
    (before : Before arg paper run screen) : ¬ Ended run.rest := by
  intro ended
  cases before with
  | reads early at_ _ _ => exact not_ended_reads early (at_ ▸ ended)
  | faults _ steps _ =>
      have ended' : Ended (backspace.drop 2) := ended.workSteps steps
      exact not_ended_drop (by decide) ended'

theorem After.shows {run : Activation} (after : After arg paper run screen)
    (ended : Ended run.rest) : Shows paper screen := by
  cases after with
  | works _ _ reaches =>
      obtain ⟨_, _, steps, -⟩ := reaches
      have ended' : Ended (setCursor.drop 0) := ended.workSteps steps
      exact absurd ended' (not_ended_writes (by decide))
  | writes early _ at_ _ _ =>
      exact absurd (at_ ▸ ended) (not_ended_writes early)
  | ends _ shows => exact shows

end PutChar

end Simos
