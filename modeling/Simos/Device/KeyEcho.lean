import Simos.Device.Keyboard
import Simos.Kernel.PutCharRuns

/-!
# Echoed keys in the output of a thread (`key_output`, `console_str`)

A thread that holds `console_lock` prints a string with `put_str`, and
`key_output` calls `put_char` in the interrupt handler without the lock.  The
handler runs with interrupts off and gives all registers back, so an echo is
a whole call between two instructions of the thread.

* `KeyEcho.Step` is an instruction of the thread or an echo;
* `Harmless` says when an echo does no harm;
* `echo_kept_apart` is the result for the runs where every echo comes then;
* `echo_overwritten` shows that otherwise a character is overwritten.
-/

namespace Simos

open Simos.Library PutChar

/-! ## The system -/

/-- A thread in `put_str`, between two characters or in `put_char`. -/
inductive Printing where
  | between (left : List UInt8)
  | inside (char : UInt8) (run : Activation) (left : List UInt8)

/-- The thread and the screen, with the characters of both sides. -/
structure KeyEcho where
  printing : Printing
  screen : Screen
  printed : List UInt8
  echoed : List UInt8

inductive EchoEvent where
  | call
  | instr
  | ret
  | key (keyCode : Nat) (status : BitVec 8)

/-- A step of the thread, or a key that finds room in `kbd_buff`. -/
inductive KeyEcho.Step (beyond : Nat → Nat → UInt8) :
    KeyEcho → EchoEvent → KeyEcho → Prop
  | call {char : UInt8} {left printed echoed : List UInt8} {screen : Screen}
      {cpu : Cpu} (more : char ≠ 0) :
      Step beyond ⟨.between (char :: left), screen, printed, echoed⟩ .call
        ⟨.inside char (called cpu) left, screen, printed, echoed⟩
  | instr {char : UInt8} {left printed echoed : List UInt8} {screen : Screen}
      {run : Activation} {next : Activation × Screen}
      (taken : exec char.toNat run screen = some next) :
      Step beyond ⟨.inside char run left, screen, printed, echoed⟩ .instr
        ⟨.inside char next.1 left, next.2, printed, echoed⟩
  | ret {char : UInt8} {left printed echoed : List UInt8} {screen : Screen}
      {cpu : Cpu} :
      Step beyond ⟨.inside char ⟨cpu, []⟩ left, screen, printed, echoed⟩ .ret
        ⟨.between left, screen, printed ++ [char], echoed⟩
  | key {printing : Printing} {printed echoed : List UInt8}
      {screen after : Screen} {keyCode : Nat} {status : BitVec 8} {cpu : Cpu}
      (echoes : Finishes (keyChar beyond keyCode status).toNat (called cpu)
        screen after) :
      Step beyond ⟨printing, screen, printed, echoed⟩ (.key keyCode status)
        ⟨printing, after, printed, echoed ++ [keyChar beyond keyCode status]⟩

def KeyEcho.start (string : List UInt8) (screen : Screen) : KeyEcho where
  printing := .between string
  screen := screen
  printed := []
  echoed := []

/-! ## The order on the screen -/

def Printable (arg : Nat) : Prop :=
  arg % 256 ≠ 0 ∧ arg % 256 ≠ 0x0d ∧ arg % 256 ≠ 0x0a ∧ arg % 256 ≠ 0x08

instance (arg : Nat) : Decidable (Printable arg) :=
  inferInstanceAs (Decidable (_ ∧ _))

def Console.putAll (paper : Console) (chars : List UInt8) : Option Console :=
  chars.foldlM (fun paper char => paper.put char.toNat) paper

/-- The filled cells that backspaces take back. -/
def Console.takenBack : Console → List UInt8 → Nat
  | _, [] => 0
  | paper, char :: chars =>
      (if char.toNat % 256 = 0x08 ∧ paper.pos - 1 ∈ paper.filled then 1
        else 0) +
        match paper.put char.toNat with
        | some paper' => Console.takenBack paper' chars
        | none => 0

inductive PrintsAll : List UInt8 → Screen → Screen → Prop
  | none {screen : Screen} : PrintsAll [] screen screen
  | more {char : UInt8} {chars : List UInt8} {screen middle after : Screen}
      {cpu : Cpu}
      (finishes : Finishes char.toNat (called cpu) screen middle)
      (rest : PrintsAll chars middle after) :
      PrintsAll (char :: chars) screen after

inductive Side where
  | thread
  | keyboard
  deriving DecidableEq

def ofSide (side : Side) (order : List (Side × UInt8)) : List UInt8 :=
  (order.filter (·.1 = side)).map Prod.snd

/-- The characters stand in an order that keeps each side's own: the screen
is that of printing them in this order, and so is the cursor, and every
printable character has filled a cell. -/
def KeptApart (first : Screen) (state : KeyEcho) : Prop :=
  ∃ order paper after,
    ofSide .thread order = state.printed ∧
    ofSide .keyboard order = state.echoed ∧
    (Console.of first).putAll (order.map Prod.snd) = some paper ∧
    paper.filled.card + (Console.of first).takenBack (order.map Prod.snd) =
      (order.map Prod.snd).countP (Printable ·.toNat) ∧
    Shows paper state.screen ∧
    PrintsAll (order.map Prod.snd) first after ∧
    after.cursor = state.screen.cursor

/-! ## When an echo does no harm -/

/-- The upper half of the cursor stays when the character is printed. -/
def KeepsHigh (cursor arg : Nat) : Prop :=
  if arg % 256 = 0x0d ∨ arg % 256 = 0x0a then
    (cursor / 80 * 80 + 80) / 256 = cursor / 256
  else if arg % 256 = 0x08 then cursor % 256 ≠ 0
  else cursor % 256 ≠ 255

/-- An echo comes before the cursor is read or after it is set, or between
the two halves when the first one stays.  An echo that prints nothing may
come anywhere but where the index of the upper half has been set. -/
def Harmless (run : Activation) (cursor arg : Nat) : Prop :=
  Ended run.rest ∨
  (∃ place, place ≤ 5 ∧ run.rest = putChar.drop place) ∨
  (∃ place, 8 ≤ place ∧ place ≤ 13 ∧ run.rest = putChar.drop place ∧
    KeepsHigh cursor arg) ∨
  arg % 256 = 0 ∧
    (∀ place, place = 6 ∨ place = 7 → run.rest ≠ putChar.drop place) ∧
    ∀ place, 3 ≤ place → place ≤ 5 → run.rest ≠ setCursor.drop place

/-- The steps among which the echoes come when they do no harm. -/
def EchoApart (beyond : Nat → Nat → UInt8) (state : KeyEcho) :
    EchoEvent → Prop
  | .key keyCode status =>
      match state.printing with
      | .between _ => True
      | .inside _ run _ =>
          Harmless run state.screen.cursor (keyChar beyond keyCode status).toNat
  | _ => True

section Echo

variable {arg echo : Nat} {paper paper' : Console} {screen after : Screen}
  {run : Activation} {cpu : Cpu}

private theorem Shows.cursor (shows : Shows paper screen) :
    screen.cursor = paper.cursor 80 := by
  rw [Screen.cursor, shows.high, shows.low]
  omega

private theorem Console.Ok.put_high (ok : paper.Ok)
    (puts : paper.put arg = some paper')
    (keeps : KeepsHigh (paper.cursor 80) arg) :
    paper'.cursor 80 / 256 = paper.cursor 80 / 256 := by
  have low := ok.low
  have high := ok.high
  unfold Paper.cursor at keeps ⊢
  unfold KeepsHigh at keeps
  unfold Console.put at puts
  split at puts
  next => rw [← Option.some.inj puts]
  next =>
    split at puts
    next newRow =>
      rw [if_pos newRow] at keeps
      rw [← Option.some.inj puts, Paper.newRow, Paper.goto]
      split
      next =>
        simp only
        omega
      next =>
        simp only
        omega
    next other =>
      rw [if_neg other] at keeps
      split at puts
      next bs =>
        rw [if_pos bs] at keeps
        simp only [Paper.erase, Option.ite_none_right_eq_some,
          Option.some.injEq] at puts
        rw [← puts.2]
        simp only
        omega
      next printed =>
        rw [if_neg printed] at keeps
        rw [← Option.some.inj puts, Paper.print, Paper.goto]
        split
        next =>
          simp only
          omega
        next =>
          simp only at *
          omega

private theorem PutChar.Finishes.nul {cpu : Cpu} (nul : echo % 256 = 0)
    (echoes : Finishes echo (called cpu) screen after) :
    after = { screen with index := 0x0f } :=
  echoes.unique (finishes_nul cpu nul)

private theorem drop_inj {code : List Instr} {place place' : Nat}
    (inside : place < code.length)
    (same : code.drop place = code.drop place') : place = place' := by
  have lengths := congrArg List.length same
  simp only [List.length_drop] at lengths
  omega

private theorem PutChar.ReadsAt.of_echo {place : Nat}
    (reads : ReadsAt run.cpu screen place) (early : place < 14)
    (at_ : run.rest = putChar.drop place) (shows : Shows paper screen)
    (apart : Harmless run screen.cursor echo)
    (echoes : Finishes echo (called cpu) screen after) :
    ReadsAt run.cpu after place := by
  obtain ⟨paper', puts, shows', index⟩ := echoes.shows shows
  have inside : place < putChar.length := early.trans (by decide)
  unfold Harmless at apart
  rw [at_] at apart
  rcases apart with ended | ⟨tested, few, same⟩ |
      ⟨tested, many, few, same, keeps⟩ | ⟨nul, windows, -⟩
  · exact absurd ended (not_ended_reads early)
  · obtain rfl := drop_inj inside same
    exact reads.of_early few
  · obtain rfl := drop_inj inside same
    rw [shows.cursor] at keeps
    have high : after.register 0x0e = screen.register 0x0e := by
      rw [shows'.high, shows.high, shows.ok.put_high puts keeps]
    exact reads.of_high many few high index
  · obtain rfl := echoes.nul nul
    have six : place ≠ 6 := by
      intro here
      exact windows 6 (Or.inl rfl) (here ▸ rfl)
    have seven : place ≠ 7 := by
      intro here
      exact windows 7 (Or.inr rfl) (here ▸ rfl)
    by_cases first : place ≤ 5
    · exact reads.of_early first
    · exact reads.of_high (by omega) (by omega) rfl rfl

/-- Once the cursor has been read and until it is set, only an echo that
prints nothing is allowed. -/
theorem Harmless.nul (apart : Harmless run screen.cursor echo)
    (read : .inAlDx ∉ run.rest) (running : ¬ Ended run.rest) :
    echo % 256 = 0 ∧ ∀ place, 3 ≤ place → place ≤ 5 →
      run.rest ≠ setCursor.drop place := by
  rcases apart with ended | ⟨place, few, at_⟩ | ⟨place, -, few, at_, -⟩ |
      ⟨nul, -, windows⟩
  · exact absurd ended running
  · rw [at_] at read
    exact absurd (inAlDx_mem (by omega)) read
  · rw [at_] at read
    exact absurd (inAlDx_mem (by omega)) read
  · exact ⟨nul, windows⟩

/-- A character that is not printed leaves the paper as it is. -/
theorem Console.put_nul (paper : Console) (nul : arg % 256 = 0) :
    paper.put arg = some paper :=
  if_pos nul

private theorem PutChar.Before.of_echo (before : Before arg paper run screen)
    (apart : Harmless run screen.cursor echo)
    (echoes : Finishes echo (called cpu) screen after) :
    ∃ paper', paper.put echo = some paper' ∧
      Before arg paper' run after := by
  cases before with
  | reads early at_ reads shows =>
      obtain ⟨paper', puts, shows', -⟩ := echoes.shows shows
      exact ⟨paper', puts,
        .reads early at_ (reads.of_echo early at_ shows apart echoes) shows'⟩
  | faults read steps halts =>
      have doomed : Before arg paper run screen := .faults read steps halts
      obtain ⟨nul, -⟩ := apart.nul read doomed.not_ended
      obtain rfl := echoes.nul nul
      exact ⟨paper, paper.put_nul nul, .faults read steps halts⟩

private theorem PutChar.After.of_echo (printed : After arg paper run screen)
    (apart : Harmless run screen.cursor echo)
    (echoes : Finishes echo (called cpu) screen after) :
    ∃ paper', paper.put echo = some paper' ∧
      After arg paper' run after := by
  by_cases ended : Ended run.rest
  · obtain ⟨paper', puts, shows', -⟩ := echoes.shows (printed.shows ended)
    exact ⟨paper', puts, .ends ended shows'⟩
  cases printed with
  | works ok read reaches =>
      obtain ⟨nul, -⟩ := apart.nul read ended
      obtain rfl := echoes.nul nul
      exact ⟨paper, paper.put_nul nul, .works ok read reaches⟩
  | @writes place early ok at_ writes shows =>
      have read : .inAlDx ∉ run.rest := by
        intro member
        have whole : .inAlDx ∈ setCursor :=
          List.mem_of_mem_drop (at_ ▸ member)
        exact Label.setCursor.inAlDx_notMem whole
      obtain ⟨nul, windows⟩ := apart.nul read ended
      obtain rfl := echoes.nul nul
      have outside : place < 3 ∨ 6 ≤ place := by
        by_contra within
        exact windows place (by omega) (by omega) at_
      exact ⟨paper, paper.put_nul nul,
        .writes early ok at_ (writes.of_index early outside) shows⟩
  | ends ended' _ => exact absurd ended' ended

end Echo

/-! ## The papers of an order -/

section Orders

variable {paper paper' : Console} {chars : List UInt8} {screen : Screen}

theorem Console.putAll_cons_eq_some_iff {char : UInt8} :
    paper.putAll (char :: chars) = some paper' ↔
      ∃ middle, paper.put char.toNat = some middle ∧
        middle.putAll chars = some paper' :=
  Option.bind_eq_some_iff

private theorem Console.putAll_append (puts : paper.putAll chars = some paper')
    (char : UInt8) :
    paper.putAll (chars ++ [char]) = paper'.put char.toNat := by
  unfold Console.putAll at puts ⊢
  rw [List.foldlM_append, puts]
  simp only [Option.bind_eq_bind, Option.bind_some, List.foldlM_cons,
    List.foldlM_nil, bind_pure]

private theorem ofSide_append (side : Side) (order : List (Side × UInt8))
    (last : Side × UInt8) :
    ofSide side (order ++ [last]) =
      ofSide side order ++ if last.1 = side then [last.2] else [] := by
  unfold ofSide
  rw [List.filter_append, List.map_append]
  split <;> simp [*]

/-- A printable character fills a cell, and only a backspace takes one
back. -/
theorem Console.Ok.put_card {arg : Nat} (ok : paper.Ok)
    (puts : paper.put arg = some paper') :
    paper'.filled.card +
        (if arg % 256 = 0x08 ∧ paper.pos - 1 ∈ paper.filled then 1 else 0) =
      paper.filled.card + if Printable arg then 1 else 0 := by
  unfold Console.put at puts
  split at puts
  next nul =>
    have blank : ¬ Printable arg := fun printable => printable.1 nul
    have noErase : ¬ (arg % 256 = 0x08 ∧ paper.pos - 1 ∈ paper.filled) := by
      omega
    rw [← Option.some.inj puts, if_neg blank, if_neg noErase]
  next char =>
    split at puts
    next newRow =>
      have blank : ¬ Printable arg := by
        intro printable
        exact newRow.elim printable.2.1 printable.2.2.1
      have noErase : ¬ (arg % 256 = 0x08 ∧ paper.pos - 1 ∈ paper.filled) := by
        omega
      rw [← Option.some.inj puts, if_neg blank, if_neg noErase]
      rfl
    next other =>
      split at puts
      next bs =>
        have blank : ¬ Printable arg := fun printable => printable.2.2.2 bs
        rw [Paper.erase, Option.ite_none_right_eq_some,
          Option.some.injEq] at puts
        rw [← puts.2, if_neg blank]
        by_cases filled : paper.pos - 1 ∈ paper.filled
        · rw [if_pos ⟨bs, filled⟩]
          exact Finset.card_erase_add_one filled
        · rw [if_neg fun taken => filled taken.2]
          exact congrArg Finset.card (Finset.erase_eq_of_notMem filled)
      next printed =>
        have printable : Printable arg := by
          unfold Printable
          omega
        rw [← Option.some.inj puts, if_neg fun taken => printed taken.1,
          if_pos printable]
        exact ok.print_card _

/-- The filled cells are the printable characters without those that were
taken back. -/
theorem Console.Ok.putAll_card (ok : paper.Ok)
    (puts : paper.putAll chars = some paper') :
    paper'.filled.card + paper.takenBack chars =
      paper.filled.card + chars.countP (Printable ·.toNat) := by
  induction chars generalizing paper with
  | nil =>
      obtain rfl := Option.some.inj puts
      rfl
  | cons char chars inductionHypothesis =>
      obtain ⟨middle, one, rest⟩ := Console.putAll_cons_eq_some_iff.mp puts
      have card := ok.put_card one
      have cards := inductionHypothesis (ok.put one) rest
      simp only [Console.takenBack, one, List.countP_cons,
        decide_eq_true_eq]
      omega

private theorem Console.putAll_pos
    (printable : ∀ char ∈ chars, Printable char.toNat)
    (puts : paper.putAll chars = some paper') :
    paper'.pos = paper.pos + chars.length := by
  induction chars generalizing paper with
  | nil =>
      obtain rfl := Option.some.inj puts
      rfl
  | cons char chars inductionHypothesis =>
      obtain ⟨middle, one, rest⟩ := Console.putAll_cons_eq_some_iff.mp puts
      obtain ⟨nul, cr, lf, bs⟩ := printable char (List.mem_cons_self ..)
      rw [Console.put, if_neg nul, if_neg (not_or.mpr ⟨cr, lf⟩), if_neg bs,
        Option.some.injEq] at one
      have pos : middle.pos = paper.pos + 1 := one ▸ rfl
      have others : ∀ char ∈ chars, Printable char.toNat :=
        fun char member => printable char (List.mem_cons_of_mem _ member)
      rw [inductionHypothesis others rest, pos, List.length_cons]
      omega

private theorem length_order (order : List (Side × UInt8)) :
    order.length =
      (ofSide .thread order).length + (ofSide .keyboard order).length := by
  induction order with
  | nil => rfl
  | cons first order inductionHypothesis =>
      obtain ⟨side, char⟩ := first
      unfold ofSide at inductionHypothesis ⊢
      cases side <;> simp at inductionHypothesis ⊢ <;> omega

private theorem mem_ofSide {order : List (Side × UInt8)} {char : UInt8}
    (member : char ∈ order.map Prod.snd) :
    char ∈ ofSide .thread order ∨ char ∈ ofSide .keyboard order := by
  obtain ⟨⟨side, char⟩, place, rfl⟩ := List.mem_map.mp member
  cases side with
  | thread =>
      exact Or.inl (List.mem_map_of_mem (List.mem_filter.mpr ⟨place, rfl⟩))
  | keyboard =>
      exact Or.inr (List.mem_map_of_mem (List.mem_filter.mpr ⟨place, rfl⟩))

private theorem Shows.printsAll (shows : Shows paper screen)
    (puts : paper.putAll chars = some paper') :
    ∃ after, PrintsAll chars screen after ∧ Shows paper' after := by
  induction chars generalizing paper screen with
  | nil =>
      obtain rfl := Option.some.inj puts
      exact ⟨screen, .none, shows⟩
  | cons char chars inductionHypothesis =>
      obtain ⟨middle, one, rest⟩ := Console.putAll_cons_eq_some_iff.mp puts
      obtain ⟨shown, finishes, shows', -⟩ := putChar_finishes default shows one
      obtain ⟨after, prints, last⟩ := inductionHypothesis shows' rest
      exact ⟨after, .more finishes prints, last⟩

end Orders

/-! ## The runs -/

/-- What the thread has printed, with the paper of the order so far. -/
def Progress (string : List UInt8) (order : List (Side × UInt8))
    (paper : Console) (state : KeyEcho) : Prop :=
  match state.printing with
  | .between left =>
      state.printed ++ left = string ∧
        ofSide .thread order = state.printed ∧ Shows paper state.screen
  | .inside char run left =>
      state.printed ++ char :: left = string ∧ char ≠ 0 ∧
        (ofSide .thread order = state.printed ∧
            Before char.toNat paper run state.screen ∨
          ofSide .thread order = state.printed ++ [char] ∧
            After char.toNat paper run state.screen)

/-- The invariant: there is such an order of what is on the screen. -/
def Ordered (string : List UInt8) (first : Screen) (state : KeyEcho) : Prop :=
  ∃ order paper,
    ofSide .keyboard order = state.echoed ∧
    (Console.of first).putAll (order.map Prod.snd) = some paper ∧
    Progress string order paper state

section Invariant

variable {beyond : Nat → Nat → UInt8} {string : List UInt8} {first : Screen}

private theorem ordered_start (onScreen : OnScreen first) :
    Ordered string first (.start string first) :=
  ⟨[], .of first, rfl, rfl, rfl, rfl, shows_of onScreen⟩

private theorem putAll_side {order : List (Side × UInt8)}
    {paper paper' : Console}
    (puts : (Console.of first).putAll (order.map Prod.snd) = some paper)
    {char : UInt8} (one : paper.put char.toNat = some paper') (side : Side) :
    (Console.of first).putAll ((order ++ [(side, char)]).map Prod.snd) =
      some paper' := by
  rw [List.map_append]
  exact (Console.putAll_append puts char).trans one

private theorem Progress.echo {order : List (Side × UInt8)} {paper : Console}
    {printing : Printing} {printed echoed : List UInt8}
    {screen after : Screen} {keyCode : Nat} {status : BitVec 8} {cpu : Cpu}
    (progress : Progress string order paper ⟨printing, screen, printed, echoed⟩)
    (apart : EchoApart beyond ⟨printing, screen, printed, echoed⟩
      (.key keyCode status))
    (echoes : Finishes (keyChar beyond keyCode status).toNat (called cpu)
      screen after) :
    ∃ paper', paper.put (keyChar beyond keyCode status).toNat = some paper' ∧
      Progress string (order ++ [(.keyboard, keyChar beyond keyCode status)])
        paper' ⟨printing, after, printed,
          echoed ++ [keyChar beyond keyCode status]⟩ := by
  have same : ofSide .thread
      (order ++ [(.keyboard, keyChar beyond keyCode status)]) =
      ofSide .thread order := by
    rw [ofSide_append]
    exact List.append_nil _
  unfold Progress
  rw [same]
  cases printing with
  | between left =>
      obtain ⟨split, thread, shows⟩ := progress
      obtain ⟨paper', puts, shows', -⟩ := echoes.shows shows
      exact ⟨paper', puts, split, thread, shows'⟩
  | inside char run left =>
      obtain ⟨split, more, ⟨thread, before⟩ | ⟨thread, printed⟩⟩ := progress
      · obtain ⟨paper', puts, before'⟩ := before.of_echo apart echoes
        exact ⟨paper', puts, split, more, Or.inl ⟨thread, before'⟩⟩
      · obtain ⟨paper', puts, printed'⟩ := printed.of_echo apart echoes
        exact ⟨paper', puts, split, more, Or.inr ⟨thread, printed'⟩⟩

private theorem toNat_mod_ne {char : UInt8} (more : char ≠ 0) :
    char.toNat % 256 ≠ 0 := by
  intro nul
  have small := char.toNat_lt
  apply more
  apply UInt8.toNat_inj.mp
  exact (Nat.mod_eq_of_lt small).symm.trans nul

private theorem Ordered.step {state next : KeyEcho} {event : EchoEvent}
    (ordered : Ordered string first state)
    (taken : Guarded (KeyEcho.Step beyond) (EchoApart beyond)
      state event next) :
    Ordered string first next := by
  obtain ⟨order, paper, keys, puts, progress⟩ := ordered
  obtain ⟨taken, apart⟩ := taken
  cases taken with
  | call more =>
      obtain ⟨split, thread, shows⟩ := progress
      exact ⟨order, paper, keys, puts, split, more,
        Or.inl ⟨thread, before_called _ shows⟩⟩
  | @instr char left printed _ _ _ _ taken =>
      obtain ⟨split, more, ⟨thread, before⟩ | ⟨thread, after⟩⟩ := progress
      · rcases before.step (toNat_mod_ne more) taken with
          before' | ⟨paper', one, after⟩
        · exact ⟨order, paper, keys, puts, split, more,
            Or.inl ⟨thread, before'⟩⟩
        · -- the character of the thread takes its place in the order
          refine ⟨order ++ [(.thread, char)], paper', ?_,
            putAll_side puts one .thread, split, more, Or.inr ⟨?_, after⟩⟩
          · rw [ofSide_append, keys]
            exact List.append_nil _
          · rw [ofSide_append, thread]
            rfl
      · exact ⟨order, paper, keys, puts, split, more,
          Or.inr ⟨thread, after.step taken⟩⟩
  | ret =>
      have ended : Ended [] := Or.inr (Or.inr rfl)
      obtain ⟨split, more, ⟨thread, before⟩ | ⟨thread, after⟩⟩ := progress
      · exact absurd ended before.not_ended
      · refine ⟨order, paper, keys, puts, ?_, thread, after.shows ended⟩
        simpa using split
  | key echoes =>
      obtain ⟨paper', one, progress'⟩ := progress.echo apart echoes
      refine ⟨_, paper', ?_, putAll_side puts one .keyboard, progress'⟩
      rw [ofSide_append, keys]
      rfl

theorem steps_reachable {char : UInt8} {run run' : Activation}
    {screen screen' : Screen} (left printed echoed : List UInt8)
    (steps : Steps char.toNat (run, screen) (run', screen')) :
    Reachable (Guarded (KeyEcho.Step beyond) (EchoApart beyond))
      ⟨.inside char run left, screen, printed, echoed⟩
      ⟨.inside char run' left, screen', printed, echoed⟩ := by
  generalize target : (run', screen') = last at steps
  induction steps generalizing run' screen' with
  | refl =>
      cases target
      exact .refl _
  | tail _ one inductionHypothesis =>
      subst target
      exact (inductionHypothesis rfl).tail ⟨.instr one, trivial⟩

end Invariant

/-- When every echo comes before the cursor is read, after it is set or where
it does no harm, each printable character of the thread and of the keyboard
fills a cell of its own, and the cursor is that of printing the characters
one after another in an order that keeps each side's own. -/
theorem echo_kept_apart {beyond : Nat → Nat → UInt8} {string left : List UInt8}
    {screen : Screen} {trace : List (EchoEvent × KeyEcho)} {state : KeyEcho}
    (onScreen : OnScreen screen)
    (run : Run (Guarded (KeyEcho.Step beyond) (EchoApart beyond))
      (.start string screen) trace state)
    (between : state.printing = .between left) :
    KeptApart screen state ∧ state.printed ++ left = string := by
  have ordered : Ordered string screen state :=
    run.invariant (ordered_start onScreen) fun _ _ _ ordered taken =>
      ordered.step taken
  obtain ⟨order, paper, keys, puts, progress⟩ := ordered
  unfold Progress at progress
  rw [between] at progress
  obtain ⟨split, thread, shows⟩ := progress
  have start := shows_of onScreen
  obtain ⟨after, prints, shows'⟩ := start.printsAll puts
  have cards := start.ok.putAll_card puts
  rw [show (Console.of screen).filled.card = 0 from rfl, Nat.zero_add] at cards
  exact ⟨⟨order, paper, after, thread, keys, puts, cards, shows, prints,
    shows'.cursor.trans shows.cursor.symm⟩, split⟩

private def oneChar : Console :=
  (Console.of emptyScreen).print 80 25 (98, 0x02)

private theorem oneChar_echo :
    (Console.of emptyScreen).put (keyChar (fun _ _ => 0) 0x30 0).toNat =
      some oneChar :=
  rfl

theorem call_step (screen : Screen) :
    Guarded (KeyEcho.Step fun _ _ => 0) (EchoApart fun _ _ => 0)
      (.start [97] screen) .call
      ⟨.inside 97 (called default) [], screen, [], []⟩ :=
  ⟨.call (by decide), trivial⟩

theorem echo_kept_apart_ba :
    ∃ trace state,
      Run (Guarded (KeyEcho.Step fun _ _ => 0) (EchoApart fun _ _ => 0))
        (.start [97] emptyScreen) trace state ∧
      state.printing = .between [] ∧ state.echoed = [98] ∧
      KeptApart emptyScreen state ∧ state.printed ++ [] = [97] := by
  have shows := shows_of onScreen_empty
  obtain ⟨middle, echoes, shows', -⟩ :=
    putChar_finishes default shows oneChar_echo
  have charPuts : oneChar.put 97 = some (oneChar.print 80 25 (97, 0x02)) := rfl
  obtain ⟨after, ⟨cpu, steps⟩, -⟩ := putChar_finishes default shows' charPuts
  -- the echo comes before the first instruction
  have early : Harmless (called default) emptyScreen.cursor
      (keyChar (fun _ _ => 0) 0x30 0).toNat :=
    Or.inr (Or.inl ⟨0, by decide, rfl⟩)
  have echoed : Reachable
      (Guarded (KeyEcho.Step fun _ _ => 0) (EchoApart fun _ _ => 0))
      (.start [97] emptyScreen)
      ⟨.inside 97 (called default) [], middle, [], [98]⟩ :=
    ((Reachable.refl _).tail (call_step emptyScreen)).tail
      ⟨.key echoes, early⟩
  obtain ⟨trace, run⟩ :=
    (echoed.trans (steps_reachable [] [] [98] steps)).tail ⟨.ret, trivial⟩
  exact ⟨trace, _, run, rfl, rfl, echo_kept_apart onScreen_empty run rfl⟩

/-- With a printable character of each side, the cursor goes on by two. -/
theorem KeptApart.cursor {state : KeyEcho}
    (kept : KeptApart emptyScreen state) (printed : state.printed = [97])
    (echoed : state.echoed = [98]) : state.screen.cursor = 2 := by
  obtain ⟨order, paper, -, thread, keys, puts, -, shows, -⟩ := kept
  rw [printed] at thread
  rw [echoed] at keys
  have printable : ∀ char ∈ order.map Prod.snd, Printable char.toNat := by
    intro char member
    rcases mem_ofSide member with one | one
    · rw [thread, List.mem_singleton] at one
      exact one ▸ (by decide)
    · rw [keys, List.mem_singleton] at one
      exact one ▸ (by decide)
  have length : (order.map Prod.snd).length = 2 := by
    rw [List.length_map, length_order, thread, keys]
    rfl
  have pos : paper.pos = 0 + 2 :=
    length ▸ Console.putAll_pos printable puts
  have inside := shows.ok.cursor_lt
  rw [shows.cursor]
  omega

/-- A call that has read the cursor before the echo goes on from there. -/
theorem stale_finishes {reader : Cpu} {screen : Screen}
    (gs : reader.gs = selectorVideo)
    (ax : reader.regs.ah * 256 + reader.regs.al = 0)
    (shows : Shows oneChar screen) :
    ∃ after, Finishes 97 ⟨reader, decode⟩ screen after ∧ after.cursor = 1 := by
  let stale : Console := { oneChar with pos := 0, filled := ∅ }
  have ok : stale.Ok := ⟨by decide, by decide, by decide, shows.ok.beyond⟩
  have text : ShowsText stale screen.text := shows.text
  have puts : stale.put 97 = some (stale.print 80 25 (97, 0x02)) := rfl
  obtain ⟨setter, text', works, bx, -⟩ :=
    decode_put ok text gs ax (by decide) puts
  have onward : Steps 97 (⟨reader, decode⟩, screen)
      (⟨setter, setCursor⟩, { screen with text := text' }) :=
    WorkSteps.steps works
  obtain ⟨last, sets⟩ := setCursor_steps 97 setter { screen with text := text' }
  have one : setter.regs.bx = 1 := bx
  rw [one] at sets
  refine ⟨_, ⟨last, onward.trans sets.steps⟩, ?_⟩
  simp [Screen.cursor, Function.update]

/-- An echo behind the read of the cursor is overwritten by the thread. -/
theorem echo_overwritten :
    OnScreen emptyScreen ∧
    ∃ trace state,
      Run (KeyEcho.Step fun _ _ => 0) (.start [97] emptyScreen) trace state ∧
        state.printing = .between [] ∧ state.printed = [97] ∧
        state.echoed = [98] ∧ state.screen.cursor = 1 ∧
        ¬ KeptApart emptyScreen state := by
  refine ⟨onScreen_empty, ?_⟩
  have shows := shows_of onScreen_empty
  obtain ⟨reader, reads, gs, ah, al⟩ := read_steps 97 default emptyScreen
  have ax : reader.regs.ah * 256 + reader.regs.al = 0 := by
    rw [ah, al]
    rfl
  let seen : Screen := { emptyScreen with index := 0x0f }
  have seenShows : Shows (.of emptyScreen) seen :=
    ⟨shows.ok, shows.high, shows.low, shows.text⟩
  obtain ⟨middle, echoes, shows', -⟩ :=
    putChar_finishes default seenShows oneChar_echo
  obtain ⟨after, finishes, cursor⟩ := stale_finishes gs ax shows'
  have finishes : Finishes (97 : UInt8).toNat ⟨reader, decode⟩ middle after :=
    finishes
  obtain ⟨last, overwrites⟩ := finishes
  have before : Reachable
      (Guarded (KeyEcho.Step fun _ _ => 0) (EchoApart fun _ _ => 0))
      (.start [97] emptyScreen)
      ⟨.inside 97 ⟨reader, decode⟩ [], seen, [], []⟩ :=
    ((Reachable.refl _).tail (call_step emptyScreen)).trans
      (steps_reachable [] [] [] reads.steps)
  have behind : Reachable
      (Guarded (KeyEcho.Step fun _ _ => 0) (EchoApart fun _ _ => 0))
      ⟨.inside 97 ⟨reader, decode⟩ [], middle, [], [98]⟩
      ⟨.between [], after, [97], [98]⟩ :=
    (steps_reachable [] [] [98] overwrites).tail ⟨.ret, trivial⟩
  obtain ⟨early, run⟩ := before
  obtain ⟨late, run'⟩ := behind
  -- the echo comes between the two
  have whole := (run.of_guarded.next (.key echoes)).append run'.of_guarded
  refine ⟨_, _, whole, rfl, rfl, rfl, cursor, ?_⟩
  intro kept
  have two : after.cursor = 2 := kept.cursor rfl rfl
  omega

end Simos
