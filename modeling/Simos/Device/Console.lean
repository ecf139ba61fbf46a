import Mathlib.Data.List.TakeWhile
import Simos.Device.KeyEcho
import Simos.Kernel.PutHexRuns
import Simos.Thread.Sections

/-!
# The console (`device/console.c`)

`console_str`, `console_char` and `console_hex` print between `console_acquire`
and `console_release`.  Any number of threads call them, and a clock interrupt
may come between any two instructions of `put_char`.

`console_serial` says that the strings are on the screen one after another, in
the order in which the threads got `console_lock`; it is about the runs in
which nobody prints without the lock.
-/

namespace Simos

open Simos.Library PutChar

/-- A call of one of the three functions; a string is given by the bytes from
its address on. -/
inductive ConsoleCall where
  | consoleStr (str : List UInt8)
  | consoleChar (ch : UInt8)
  | consoleHex (hex : BitVec 32)

/-- The characters that the call passes to `put_char`: `put_str` ends at the
first zero, and `put_hex` prints the numeral. -/
def ConsoleCall.chars : ConsoleCall → List UInt8
  | .consoleStr str => str.takeWhile (· ≠ 0)
  | .consoleChar ch => [ch]
  | .consoleHex hex =>
      (numeral 16 hex.toNat).map fun digit => ⟨digitChar digit⟩

/-- The characters that are left to print, without the one at work. -/
def Printing.left : Printing → List UInt8
  | .between left | .inside _ _ left => left

inductive ConsoleWork : Printing × Screen → Printing × Screen → Prop
  | call {char : UInt8} {left : List UInt8} {screen : Screen} {cpu : Cpu} :
      ConsoleWork (.between (char :: left), screen)
        (.inside char (called cpu) left, screen)
  | instr {char : UInt8} {left : List UInt8} {screen : Screen}
      {run : Activation} {next : Activation × Screen} :
      exec char.toNat run screen = some next →
      ConsoleWork (.inside char run left, screen)
        (.inside char next.1 left, next.2)
  | ret {char : UInt8} {left : List UInt8} {screen : Screen} {cpu : Cpu} :
      ConsoleWork (.inside char ⟨cpu, []⟩ left, screen)
        (.between left, screen)

def ConsoleDone (printing : Printing) : Prop :=
  printing = .between []

/-- A thread that calls starts with the characters of its call. -/
def ConsoleCalls (_ : SectionUse Printing Screen) :
    SectionEvent Printing → Prop
  | .call _ job => ∃ call : ConsoleCall, job = .between call.chars
  | .statement _ => True

def ConsoleStep : SectionUse Printing Screen → SectionEvent Printing →
    SectionUse Printing Screen → Prop :=
  Guarded (SectionStep ConsoleWork ConsoleDone) ConsoleCalls

def printedText (order : List (Nat × Printing)) : List UInt8 :=
  order.flatMap fun entry => entry.2.left

/-! ## One call -/

def PrintedSoFar (string : List UInt8) (before : Screen) :
    Printing × Screen → Prop
  | (.between left, screen) =>
      ∃ printed, string = printed ++ left ∧ PrintsAll printed before screen
  | (.inside char run left, screen) =>
      ∃ printed middle cpu, string = printed ++ char :: left ∧
        PrintsAll printed before middle ∧
        Steps char.toNat (called cpu, middle) (run, screen)

private theorem PrintsAll.append {chars later : List UInt8}
    {first middle last : Screen} (prints : PrintsAll chars first middle)
    (more : PrintsAll later middle last) :
    PrintsAll (chars ++ later) first last := by
  induction prints with
  | none =>
      exact more
  | more finishes _ inductionHypothesis =>
      exact .more finishes (inductionHypothesis more)

private theorem PrintedSoFar.work {string : List UInt8} {before : Screen}
    {state next : Printing × Screen} (soFar : PrintedSoFar string before state)
    (worked : ConsoleWork state next) : PrintedSoFar string before next := by
  cases worked with
  | call =>
      obtain ⟨printed, split, prints⟩ := soFar
      exact ⟨printed, _, _, split, prints, .refl⟩
  | instr taken =>
      obtain ⟨printed, middle, cpu, split, prints, steps⟩ := soFar
      exact ⟨printed, middle, cpu, split, prints, steps.tail taken⟩
  | @ret char left screen cpu' =>
      obtain ⟨printed, middle, cpu, split, prints, steps⟩ := soFar
      refine ⟨printed ++ [char], ?_, ?_⟩
      · rw [split, List.append_assoc, List.singleton_append]
      · exact prints.append (.more ⟨cpu', steps⟩ .none)

private theorem printedSoFar_of_part {string : List UInt8} {before : Screen}
    {state : Printing × Screen}
    (part : Relation.ReflTransGen ConsoleWork (.between string, before)
      state) :
    PrintedSoFar string before state := by
  induction part with
  | refl =>
      exact ⟨[], rfl, .none⟩
  | tail _ worked inductionHypothesis =>
      exact inductionHypothesis.work worked

private theorem printsAll_of_whole {string : List UInt8} {before after : Screen}
    (whole : Whole ConsoleWork ConsoleDone (.between string) before after) :
    PrintsAll string before after := by
  obtain ⟨last, done, part⟩ := whole
  rw [ConsoleDone] at done
  subst done
  obtain ⟨printed, split, prints⟩ := printedSoFar_of_part part
  rwa [split, List.append_nil]

theorem PrintsAll.shows {chars : List UInt8} {before after : Screen}
    (prints : PrintsAll chars before after) {paper : Console}
    (shows : Shows paper before) :
    ∃ paper', paper.putAll chars = some paper' ∧ Shows paper' after := by
  induction prints generalizing paper with
  | none =>
      exact ⟨paper, rfl, shows⟩
  | more finishes _ inductionHypothesis =>
      obtain ⟨middle, puts, shows', _⟩ := finishes.shows shows
      obtain ⟨paper', rest, shown⟩ := inductionHypothesis shows'
      exact ⟨paper', Console.putAll_cons_eq_some_iff.mpr
        ⟨middle, puts, rest⟩, shown⟩

/-! ## All calls -/

def StartsBetween (order : List (Nat × Printing)) : Prop :=
  ∀ entry ∈ order, ∃ string, entry.2 = .between string

private theorem Console.putAll_append_eq {paper middle paper' : Console}
    {chars later : List UInt8} (puts : paper.putAll chars = some middle)
    (more : middle.putAll later = some paper') :
    paper.putAll (chars ++ later) = some paper' := by
  unfold Console.putAll at puts more ⊢
  rw [List.foldlM_append, puts]
  exact more

@[simp]
theorem printedText_append (order later : List (Nat × Printing)) :
    printedText (order ++ later) = printedText order ++ printedText later :=
  List.flatMap_append

private theorem printedText_single (thread : Nat) (string : List UInt8) :
    printedText [(thread, .between string)] = string := by
  simp [printedText, Printing.left]

/-- Calls one after another leave their strings on the screen in this
order. -/
theorem serial_shows {first screen : Screen} (onScreen : OnScreen first)
    {order : List (Nat × Printing)}
    (serial : Serial ConsoleWork ConsoleDone first order screen) :
    StartsBetween order →
      ∃ paper, (Console.of first).putAll (printedText order) = some paper ∧
        Shows paper screen := by
  apply serial.invariant
  · intro _
    exact ⟨_, rfl, shows_of onScreen⟩
  · intro order thread job before after earlier whole starts
    obtain ⟨paper, puts, shows⟩ := earlier fun entry member =>
      starts entry (List.mem_append_left _ member)
    obtain ⟨string, isString⟩ := starts (thread, job) (by simp)
    obtain rfl : job = .between string := isString
    obtain ⟨paper', more, shows'⟩ := (printsAll_of_whole whole).shows shows
    refine ⟨paper', ?_, shows'⟩
    rw [printedText_append, printedText_single]
    exact Console.putAll_append_eq puts more

section Runs

variable {first : Screen} {trace : List (SectionEvent Printing ×
  SectionUse Printing Screen)} {last : SectionUse Printing Screen}

private theorem called_of_run
    (run : Run ConsoleStep (sectionUseInit Printing first) trace last) :
    ∀ entry ∈ last.called, ∃ call : ConsoleCall,
      entry.2 = .between call.chars := by
  induction run with
  | start =>
      exact nofun
  | @next trace current last event _ taken inductionHypothesis =>
      obtain ⟨taken, isCall⟩ := taken
      cases taken with
      | @call thread job _ _ =>
          intro entry member
          rcases List.mem_append.mp member with earlier | new
          · exact inductionHypothesis entry earlier
          · rw [List.mem_singleton.mp new]
            exact isCall
      | acquire at_pc awake returned =>
          unfold SectionUse.acquire
          split
          · exact inductionHypothesis
          · exact inductionHypothesis
      | work at_pc piece => exact inductionHypothesis
      | leave at_pc done => exact inductionHypothesis
      | release at_pc awake returned =>
          unfold SectionUse.release
          split
          · exact inductionHypothesis
          · exact inductionHypothesis

private theorem sectionsOk_of_run
    (run : Run ConsoleStep (sectionUseInit Printing first) trace last) :
    SectionsOk ConsoleWork ConsoleDone first last :=
  run.of_guarded.invariant (.init _ _ first)
    fun _ _ _ ok taken => ok.step taken

private theorem mem_ofThread {thread : Nat} {job : Printing}
    {order : List (Nat × Printing)} :
    job ∈ ofThread thread order ↔ (thread, job) ∈ order := by
  simp [ofThread]

private theorem startsBetween_of_run
    (run : Run ConsoleStep (sectionUseInit Printing first) trace last) :
    StartsBetween last.entered := by
  intro entry member
  have inCalled : entry.2 ∈ ofThread entry.1 last.called := by
    rw [(sectionsOk_of_run run).calls]
    exact List.mem_append_left _ (mem_ofThread.mpr member)
  obtain ⟨call, chars⟩ := called_of_run run _ (mem_ofThread.mp inCalled)
  exact ⟨call.chars, chars⟩

end Runs

/-- In every run of any number of threads that print through the console only:
the strings of a thread are entered in the order of its calls, and none is
lost or printed twice.  The screen shows the strings one after another in the
order in which their threads got the lock, the last one as far as it has been
printed. -/
theorem console_serial {first : Screen} (onScreen : OnScreen first)
    {trace : List (SectionEvent Printing × SectionUse Printing Screen)}
    {last : SectionUse Printing Screen}
    (run : Run ConsoleStep (sectionUseInit Printing first) trace last) :
    (∀ thread, ofThread thread last.called =
      ofThread thread last.entered ++ (last.pc thread).pending) ∧
    ((∀ thread start now, last.pc thread ≠ .inside start now) →
      ∃ paper, (Console.of first).putAll (printedText last.entered) =
          some paper ∧ Shows paper last.shared) ∧
    ∀ thread start now, last.pc thread = .inside start now →
      ∃ earlier printed paper screen,
        last.entered = earlier ++ [(thread, start)] ∧
        (Console.of first).putAll (printedText earlier ++ printed) =
          some paper ∧ Shows paper screen ∧
        match now with
        | .between left =>
            start.left = printed ++ left ∧ screen = last.shared
        | .inside char run left =>
            start.left = printed ++ char :: left ∧
              ∃ cpu, Steps char.toNat (called cpu, screen)
                (run, last.shared) := by
  have ok := sectionsOk_of_run run
  have starts := startsBetween_of_run run
  obtain ⟨active, serially, only⟩ := ok.serially
  refine ⟨ok.calls, ?_, ?_⟩
  · intro nobody
    cases active with
    | none =>
        generalize last.entered = entered at serially starts ⊢
        cases serially with
        | idle serial =>
            exact serial_shows onScreen serial starts
    | some active =>
        exact absurd ((only _ _ _).mpr rfl) (nobody _ _ _)
  · intro thread start now inside
    have isActive := (only thread start now).mp inside
    subst isActive
    generalize last.entered = entered at serially starts ⊢
    generalize last.shared = screen at serially ⊢
    cases serially with
    | @active earlier _ _ _ middle _ serial part =>
        obtain ⟨string, isString⟩ := starts (thread, start) (by simp)
        obtain rfl : start = .between string := isString
        obtain ⟨paper, puts, shows⟩ := serial_shows onScreen serial
          fun entry member => starts entry (List.mem_append_left _ member)
        have soFar := printedSoFar_of_part part
        cases now with
        | between left =>
            obtain ⟨printed, split, prints⟩ := soFar
            obtain ⟨paper', more, shows'⟩ := prints.shows shows
            exact ⟨earlier, printed, paper', screen, rfl,
              Console.putAll_append_eq puts more, shows', split, rfl⟩
        | inside char run left =>
            obtain ⟨printed, at_, cpu, split, prints, steps⟩ := soFar
            obtain ⟨paper', more, shows'⟩ := prints.shows shows
            exact ⟨earlier, printed, paper', at_, rfl,
              Console.putAll_append_eq puts more, shows', split, cpu, steps⟩

/-- The next instruction of a thread that prints; the registers at a call are
those of the start. -/
private def consoleWorkOf : Printing × Screen → Option (Printing × Screen)
  | (.between [], _) => none
  | (.between (char :: left), screen) =>
      some (.inside char (called default) left, screen)
  | (.inside char run left, screen) =>
      match run.rest with
      | [] => some (.between left, screen)
      | _ => (exec char.toNat run screen).map fun next =>
          (.inside char next.1 left, next.2)

private theorem consoleWorkOf_sound (state next : Printing × Screen)
    (taken : consoleWorkOf state = some next) : ConsoleWork state next := by
  obtain ⟨printing, screen⟩ := state
  cases printing with
  | between left =>
      cases left with
      | nil =>
          cases taken
      | cons char left =>
          cases taken
          exact .call
  | inside char run left =>
      obtain ⟨cpu, rest⟩ := run
      cases rest with
      | nil =>
          cases taken
          exact .ret
      | cons instr rest =>
          simp only [consoleWorkOf, Option.map_eq_some_iff] at taken
          obtain ⟨next, taken, rfl⟩ := taken
          exact .instr taken

private def consoleDoneOf : Printing → Bool
  | .between [] => true
  | .between (_ :: _) | .inside _ _ _ => false

private theorem consoleDoneOf_sound (printing : Printing)
    (done : consoleDoneOf printing = true) : ConsoleDone printing := by
  cases printing with
  | between left =>
      cases left with
      | nil => rfl
      | cons char left => cases done
  | inside char run left => cases done

private def isStrCall : SectionEvent Printing → Bool
  | .call _ (.between left) => left.all (· ≠ 0)
  | .call _ (.inside _ _ _) => false
  | .statement _ => true

private def consoleStepOf (s : SectionUse Printing Screen)
    (event : SectionEvent Printing) : Option (SectionUse Printing Screen) :=
  if isStrCall event then sectionStepOf consoleWorkOf consoleDoneOf s event
  else none

private theorem consoleStepOf_sound (s : SectionUse Printing Screen)
    (event : SectionEvent Printing) (s' : SectionUse Printing Screen)
    (taken : consoleStepOf s event = some s') : ConsoleStep s event s' := by
  rw [consoleStepOf, Option.ite_none_right_eq_some] at taken
  obtain ⟨isCall, taken⟩ := taken
  refine ⟨sectionStepOf_sound consoleWorkOf_sound consoleDoneOf_sound s event
    s' taken, ?_⟩
  cases event with
  | statement thread =>
      exact trivial
  | call thread job =>
      cases job with
      | inside char run left => cases isCall
      | between left =>
          refine ⟨.consoleStr left, congrArg Printing.between ?_⟩
          have noZero : ∀ char ∈ left, char ≠ 0 := by
            simpa [isStrCall] using isCall
          exact (List.takeWhile_eq_self_iff.mpr
            fun char member => decide_eq_true (noZero char member)).symm

private def secondPut (s : SectionUse Printing Screen) : Bool × List UInt8 :=
  (match s.pc 2 with
    | .inside _ (.between []) => true
    | _ => false, printedText s.entered)

/-- Thread 1 prints an `A`; thread 2 calls with a `B` while thread 1 has the
lock, and then prints. -/
theorem console_serial_two :
    ∃ trace last,
      Run ConsoleStep (sectionUseInit Printing emptyScreen) trace last ∧
      ∃ paper, (Console.of emptyScreen).putAll [65, 66] = some paper ∧
        Shows paper last.shared := by
  let events : List (SectionEvent Printing) :=
    [.call 1 (.between [65]), .call 2 (.between [66])] ++
      List.replicate 6 (.statement 1) ++ List.replicate 2 (.statement 2) ++
      List.replicate 55 (.statement 1) ++ List.replicate 53 (.statement 2)
  obtain ⟨last, replayed, ends⟩ : ∃ last,
      replay consoleStepOf events (sectionUseInit Printing emptyScreen) =
        some last ∧ secondPut last = (true, [65, 66]) :=
    Option.map_eq_some_iff.mp (by decide +kernel)
  obtain ⟨trace, run⟩ := Run.of_replay consoleStepOf_sound replayed
  refine ⟨trace, last, run, ?_⟩
  simp only [secondPut, Prod.mk.injEq] at ends
  obtain ⟨start, inside⟩ : ∃ start,
      last.pc 2 = .inside start (.between []) := by
    have atEnd := ends.1
    split at atEnd
    · exact ⟨_, ‹_›⟩
    · cases atEnd
  obtain ⟨earlier, printed, paper, screen, entered, puts, shows, whole, rfl⟩ :=
    (console_serial onScreen_empty run).2.2 2 start _ inside
  refine ⟨paper, ?_, shows⟩
  rw [← puts, ← ends.2, entered, printedText_append]
  have text : printedText [(2, start)] = printed := by
    rw [List.append_nil] at whole
    rw [← whole]
    simp [printedText]
  rw [text]

end Simos
