import Simos.Kernel.PutCharRuns

/-!
# The console as a terminal

The reference is a terminal of 25 rows of 80 cells.  `put_char` keeps the
screen that of the terminal, and stores nowhere else, until a backspace comes
while the cursor is on the first cell: that one faults.

* `Terminal.put` is what a character does to the terminal;
* `Console.window` is the terminal that a paper shows;
* `putChar_follows_iff` is about any sequence of characters.
-/

namespace Simos

open Simos.Library PutChar

/-- A terminal of 25 rows of 80 cells; a cell has a character and an
attribute, and the cursor is on a cell. -/
@[ext]
structure Terminal where
  cursor : Nat
  inside : cursor < 2000
  cell : Fin 2000 → Nat × Nat

namespace Terminal

/-- All rows go up by one, the bottom row is blank, and the cursor stands at
its start. -/
def scroll (terminal : Terminal) : Terminal where
  cursor := 1920
  inside := by decide
  cell index :=
    if inside : index.val + 80 < 2000 then
      terminal.cell ⟨index.val + 80, inside⟩
    else blankCell

/-- The cursor moves on, and the terminal scrolls when it is passed. -/
def moveTo (terminal : Terminal) (cursor : Nat) : Terminal :=
  if inside : cursor < 2000 then { terminal with cursor, inside }
  else terminal.scroll

def write (terminal : Terminal) (index : Fin 2000) (glyph : Nat × Nat) :
    Terminal :=
  { terminal with cell := Function.update terminal.cell index glyph }

/-- A printable character is placed at the cursor and advances it. -/
def print (terminal : Terminal) (char : Nat) : Terminal :=
  (terminal.write ⟨terminal.cursor, terminal.inside⟩ (char, 0x02)).moveTo
    (terminal.cursor + 1)

def newLine (terminal : Terminal) : Terminal :=
  terminal.moveTo ((terminal.cursor / 80 + 1) * 80)

/-- The cursor steps back by one cell, never before the first, and blanks
it. -/
def backspace (terminal : Terminal) : Terminal :=
  have inside : terminal.cursor - 1 < 2000 :=
    Nat.lt_of_le_of_lt (Nat.sub_le _ 1) terminal.inside
  { terminal.write ⟨terminal.cursor - 1, inside⟩ (0x20, 0x02) with
    cursor := terminal.cursor - 1
    inside }

def put (terminal : Terminal) (arg : Nat) : Terminal :=
  if arg % 256 = 0 then terminal
  else if arg % 256 = 0x0d ∨ arg % 256 = 0x0a then terminal.newLine
  else if arg % 256 = 0x08 then terminal.backspace
  else terminal.print (arg % 256)

def of (screen : Screen) (inside : screen.cursor < 2000) : Terminal where
  cursor := screen.cursor
  inside := inside
  cell index := (screen.text (2 * index.val), screen.text (2 * index.val + 1))

/-- No backspace comes while the cursor is on the first cell. -/
def NeverBeforeFirst : List Nat → Terminal → Prop
  | [], _ => True
  | arg :: args, terminal =>
      ¬ (arg % 256 = 0x08 ∧ terminal.cursor = 0) ∧
        NeverBeforeFirst args (terminal.put arg)

structure On (terminal : Terminal) (screen : Screen) : Prop where
  cursor : screen.cursor = terminal.cursor
  cell : ∀ index : Fin 2000,
    (screen.text (2 * index.val), screen.text (2 * index.val + 1)) =
      terminal.cell index

end Terminal

/-- A call of `put_char` comes to its end with this screen, and every store on
the way goes into the text area. -/
def PutsInText (arg : Nat) (cpu : Cpu) (screen after : Screen) : Prop :=
  Finishes arg (called cpu) screen after ∧
    ∀ run now, Steps arg (called cpu, screen) (run, now) → run.StoresInText

/-- `put_char` for one character after another, whatever the registers hold
at each call, keeps the screen that of the terminal. -/
def FollowsTerminal : List Nat → Terminal → Screen → Prop
  | [], _, _ => True
  | arg :: args, terminal, screen =>
      ∀ cpu, ∃ after, PutsInText arg cpu screen after ∧
        (terminal.put arg).On after ∧
        FollowsTerminal args (terminal.put arg) after

/-! ## The window on the paper -/

def Console.window (paper : Console) (inside : paper.cursor 80 < 2000) :
    Terminal where
  cursor := paper.cursor 80
  inside := inside
  cell index := paper.cell (80 * paper.top + index.val)

private theorem Shows.on {paper : Console} {screen : Screen}
    (shows : Shows paper screen) :
    (paper.window shows.ok.cursor_lt.1).On screen := by
  constructor
  · rw [Screen.cursor, shows.high, shows.low]
    exact Nat.div_add_mod' _ 256
  · intro index
    obtain ⟨char, color⟩ := shows.text index index.isLt
    rw [char, color]
    rfl

private theorem window_of {screen : Screen} (onScreen : OnScreen screen) :
    (Console.of screen).window (shows_of onScreen).ok.cursor_lt.1 =
      Terminal.of screen onScreen.inside := by
  apply Terminal.ext
  · rfl
  · funext index
    simp only [Console.window, Console.of, Terminal.of, Nat.mul_zero,
      Nat.zero_add, if_pos index.isLt]

/-- Where the position moves on the paper, the cursor moves on the terminal. -/
theorem window_goto {paper : Console} {pos target : Nat}
    (inside : paper.cursor 80 < 2000)
    (inside' : (paper.goto 80 25 pos).cursor 80 < 2000)
    (beyond : ∀ tested, 80 * (paper.top + 25) ≤ tested →
      paper.cell tested = blankCell)
    (near : target ≤ 2000) (at_ : pos = 80 * paper.top + target) :
    Console.window (paper.goto 80 25 pos) inside' =
      (paper.window inside).moveTo target := by
  by_cases here : target < 2000
  · have kept : pos < 80 * (paper.top + 25) := by omega
    rw [Terminal.moveTo, dif_pos here]
    apply Terminal.ext
    · simp only [Console.window, Paper.goto, Paper.cursor, if_pos kept]
      omega
    · funext index
      simp only [Console.window, Paper.goto, if_pos kept]
  · have below : ¬ pos < 80 * (paper.top + 25) := by omega
    rw [Terminal.moveTo, dif_neg here]
    apply Terminal.ext
    · simp only [Console.window, Paper.goto, Paper.cursor, if_neg below,
        Terminal.scroll]
      omega
    · funext index
      simp only [Console.window, Paper.goto, if_neg below, Terminal.scroll]
      split
      · congr 1
        omega
      · apply beyond
        omega

theorem window_write {paper paper' : Console} (index : Fin 2000)
    (glyph : Nat × Nat) (inside : paper.cursor 80 < 2000)
    (inside' : paper'.cursor 80 < 2000)
    (cursor : paper'.cursor 80 = paper.cursor 80)
    (top : paper'.top = paper.top)
    (cell : paper'.cell =
      Function.update paper.cell (80 * paper.top + index.val) glyph) :
    paper'.window inside' = (paper.window inside).write index glyph := by
  apply Terminal.ext
  · exact cursor
  · funext tested
    simp only [Console.window, Terminal.write, top, cell]
    by_cases same : tested = index
    · rw [same, Function.update_self, Function.update_self]
    · have different : tested.val ≠ index.val := fun equal =>
        same (Fin.ext equal)
      rw [Function.update_of_ne (by omega), Function.update_of_ne same]

section Window

variable {paper paper' : Console} {arg : Nat}

private theorem window_newRow (ok : paper.Ok)
    (inside' : (paper.newRow 80 25).cursor 80 < 2000) :
    Console.window (paper.newRow 80 25) inside' =
      (paper.window ok.cursor_lt.1).newLine := by
  obtain ⟨inside, pos⟩ := ok.cursor_lt
  apply window_goto inside inside' ok.beyond
  · simp only [Console.window]
    omega
  · simp only [Console.window]
    omega

private theorem window_print (ok : paper.Ok) (char : Nat)
    (inside' : (paper.print 80 25 (char, 0x02)).cursor 80 < 2000) :
    Console.window (paper.print 80 25 (char, 0x02)) inside' =
      (paper.window ok.cursor_lt.1).print char := by
  obtain ⟨inside, pos⟩ := ok.cursor_lt
  let written : Console :=
    { paper with
      cell := Function.update paper.cell paper.pos (char, 0x02)
      filled := insert paper.pos paper.filled }
  have beyond : ∀ tested, 80 * (written.top + 25) ≤ tested →
      written.cell tested = blankCell := by
    intro tested below
    have below : 80 * (paper.top + 25) ≤ tested := below
    have high := ok.high
    simp only [written]
    rw [Function.update_of_ne (by omega)]
    exact ok.beyond tested below
  have still : written.cursor 80 < 2000 := inside
  have next : paper.pos + 1 = 80 * written.top + (paper.cursor 80 + 1) := by
    simp only [written]
    omega
  have moved : Console.window (written.goto 80 25 (paper.pos + 1)) inside' =
      (written.window still).moveTo (paper.cursor 80 + 1) :=
    @window_goto written _ _ still inside' beyond inside next
  have cell : written.cell = Function.update paper.cell
      (80 * paper.top + paper.cursor 80) (char, 0x02) := by
    simp only [written, pos]
  have wrote : written.window still =
      (paper.window inside).write ⟨paper.cursor 80, inside⟩ (char, 0x02) :=
    @window_write paper written ⟨paper.cursor 80, inside⟩ (char, 0x02) inside
      still rfl rfl cell
  rw [wrote] at moved
  exact moved

private theorem window_erase (ok : paper.Ok)
    (erases : paper.erase 80 (0x20, 0x02) = some paper')
    (inside' : paper'.cursor 80 < 2000) :
    paper'.window inside' = (paper.window ok.cursor_lt.1).backspace := by
  obtain ⟨inside, pos⟩ := ok.cursor_lt
  simp only [Paper.erase, Option.ite_none_right_eq_some,
    Option.some.injEq] at erases
  obtain ⟨behind, rfl⟩ := erases
  have before : paper.cursor 80 - 1 < 2000 := by omega
  let stepped : Console := { paper with pos := paper.pos - 1 }
  have back : stepped.cursor 80 = paper.cursor 80 - 1 := by
    simp only [stepped, Paper.cursor]
    omega
  have wrote := @window_write stepped
    { paper with
      pos := paper.pos - 1
      cell := Function.update paper.cell (paper.pos - 1) (0x20, 0x02)
      filled := paper.filled.erase (paper.pos - 1) }
    ⟨paper.cursor 80 - 1, before⟩ (0x20, 0x02) (back ▸ before) inside' rfl
    rfl (by
      simp only [stepped]
      congr 1
      omega)
  rw [wrote]
  apply Terminal.ext
  · exact back
  · rfl

theorem window_put (ok : paper.Ok) (puts : paper.put arg = some paper') :
    paper'.window (ok.put puts).cursor_lt.1 =
      (paper.window ok.cursor_lt.1).put arg := by
  have inside' := (ok.put puts).cursor_lt.1
  unfold Console.put at puts
  unfold Terminal.put
  by_cases nul : arg % 256 = 0
  · rw [if_pos nul, Option.some.injEq] at puts
    subst puts
    rw [if_pos nul]
  rw [if_neg nul] at puts ⊢
  by_cases newLine : arg % 256 = 0x0d ∨ arg % 256 = 0x0a
  · rw [if_pos newLine, Option.some.injEq] at puts
    subst puts
    rw [if_pos newLine]
    exact window_newRow ok inside'
  rw [if_neg newLine] at puts ⊢
  by_cases bs : arg % 256 = 0x08
  · rw [if_pos bs] at puts ⊢
    exact window_erase ok puts inside'
  rw [if_neg bs, Option.some.injEq] at puts
  subst puts
  rw [if_neg bs]
  exact window_print ok (arg % 256) inside'

end Window

/-! ## Any sequence of characters -/

/-- What finishes in the text area does so in every state on the way. -/
theorem PutChar.FinishesInText.putsInText {arg : Nat} {cpu : Cpu}
    {screen after : Screen}
    (finishes : FinishesInText arg (called cpu) screen after) :
    PutsInText arg cpu screen after := by
  refine ⟨finishes.finishes, fun run now reached => ?_⟩
  obtain ⟨last, execs⟩ := finishes
  have ended : Activation.StoresInText ⟨last, []⟩ :=
    fun address member => (List.not_mem_nil member).elim
  exact @check_of_halted (Activation × Screen)
    (fun state => state.1.StoresInText) _
    (fun state => exec arg state.1 state.2) _ _ (run, now) execs rfl ended
    reached

/-- A backspace has no cell to erase exactly when the cursor is on the first
cell. -/
theorem Console.put_eq_none_iff {paper : Console} {arg : Nat} (ok : paper.Ok) :
    paper.put arg = none ↔ arg % 256 = 0x08 ∧ paper.cursor 80 = 0 := by
  constructor
  · exact Console.put_eq_none
  · rintro ⟨bs, top⟩
    have pos := ok.cursor_lt.2
    have first : ¬ 80 * paper.top < paper.pos := by omega
    simp [Console.put, bs, Paper.erase, first]

/-- From a screen that shows the paper. -/
theorem follows_window_iff (args : List Nat) :
    ∀ {paper : Console} {screen : Screen} (shows : Shows paper screen),
      FollowsTerminal args (paper.window shows.ok.cursor_lt.1) screen ↔
        Terminal.NeverBeforeFirst args
          (paper.window shows.ok.cursor_lt.1) := by
  induction args with
  | nil =>
      intro paper screen shows
      exact Iff.rfl
  | cons arg args inductionHypothesis =>
      intro paper screen shows
      constructor
      · intro follows
        obtain ⟨after, ⟨finishes, -⟩, -, rest⟩ := follows default
        obtain ⟨paper', puts, shows', -⟩ := finishes.shows shows
        rw [← window_put shows.ok puts] at rest
        refine ⟨fun first => ?_, ?_⟩
        · rw [(Console.put_eq_none_iff shows.ok).mpr first] at puts
          cases puts
        · rw [← window_put shows.ok puts]
          exact (inductionHypothesis shows').mp rest
      · rintro ⟨behind, rest⟩ cpu
        obtain ⟨paper', puts⟩ : ∃ paper', paper.put arg = some paper' := by
          rw [← Option.ne_none_iff_exists']
          exact mt (Console.put_eq_none_iff shows.ok).mp behind
        obtain ⟨after, finishes, shows', -⟩ :=
          putChar_finishesInText cpu shows puts
        rw [← window_put shows.ok puts] at rest
        refine ⟨after, finishes.putsInText, ?_, ?_⟩
        · rw [← window_put shows.ok puts]
          exact shows'.on
        · rw [← window_put shows.ok puts]
          exact (inductionHypothesis shows').mpr rest

/-- From any screen with the cursor on it, `put_char` keeps the screen that of
the terminal and stores in the text area only, exactly as long as no
backspace comes while the cursor is on the first cell. -/
theorem putChar_follows_iff {screen : Screen} (onScreen : OnScreen screen)
    (args : List Nat) :
    FollowsTerminal args (Terminal.of screen onScreen.inside) screen ↔
      Terminal.NeverBeforeFirst args
        (Terminal.of screen onScreen.inside) := by
  rw [← window_of onScreen]
  exact follows_window_iff args (shows_of onScreen)

/-- `A`, a backspace and a new line on the empty screen. -/
theorem putChar_follows_empty :
    FollowsTerminal [65, 8, 10] (Terminal.of emptyScreen onScreen_empty.inside)
      emptyScreen :=
  (putChar_follows_iff onScreen_empty [65, 8, 10]).mpr
    ⟨by decide, by decide, by decide, True.intro⟩

/-- A backspace on the first cell has no run to an end. -/
theorem putChar_backspace_first :
    ¬ FollowsTerminal [8] (Terminal.of emptyScreen onScreen_empty.inside)
      emptyScreen := by
  rw [← window_of onScreen_empty,
    follows_window_iff [8] (shows_of onScreen_empty)]
  rintro ⟨behind, -⟩
  exact behind ⟨by decide, rfl⟩

end Simos
