import Simos.Library.Runs

/-!
# Routines and the interrupt flag

Threads call routines that turn the interrupt flag off and on, and one of
which switches to another thread.  Traps may come between any two statements
while the flag is on; outside the routines a thread, or a trap handler, does
what it likes.  The flag is one bit for all threads.

* `Code` is the code of a routine, `next` a step of the machine;
* `flow` follows what is known of the flag through the code, and `Checked`
  says that every routine meets its contract so.
-/

namespace Simos.Library.IrqRoutines

/-- The code of a routine.  The status variable holds the argument at first;
`eax` has the result of a call.  What `act` does to the data, and the tests of
the data, are for a `Meaning` to say. -/
inductive Code (Routine Effect Test : Type) where
  | done
  | act (effect : Effect) (next : Code Routine Effect Test)
  | getFlag (next : Code Routine Effect Test)
  | cli (next : Code Routine Effect Test)
  | sti (next : Code Routine Effect Test)
  | store (next : Code Routine Effect Test)
  | load (next : Code Routine Effect Test)
  | expectOff (next : Code Routine Effect Test)
  | call (routine : Routine) (next : Code Routine Effect Test)
  | ifOn (on off next : Code Routine Effect Test)
  | ite (test : Test) (yes no next : Code Routine Effect Test)
  | loop (test : Test) (body next : Code Routine Effect Test)
  | switch (next : Code Routine Effect Test)
  | ret

/-- The effects and tests, for a thread; an effect may stop the machine. -/
structure Meaning (Effect Test Data : Type) where
  effect : Nat → Effect → Data → Option Data
  test : Nat → Test → Data → Bool

/-- The routines, and the one that a new thread starts in. -/
structure Program (Routine Effect Test : Type) where
  code : Routine → Code Routine Effect Test
  first : Routine

/-- A routine that has not returned: the flag at its call, its status variable
and the code that is left. -/
structure Frame (Routine Effect Test : Type) where
  routine : Routine
  entry : Bool
  status : Bool
  work : List (Code Routine Effect Test)

/-- What a thread is in: a routine, or the code of a trap handler, which came
upon this flag and `eax`. -/
inductive Layer (Routine Effect Test : Type) where
  | routine (frame : Frame Routine Effect Test)
  | handler (flag eax : Bool)

/-- What the threads share. -/
structure Core (Data : Type) where
  flag : Bool
  eax : Bool
  data : Data

/-- All threads, the innermost layer first; below its layers a thread is in
code of its own. -/
structure State (Routine Effect Test Data : Type) where
  core : Core Data
  current : Nat
  layers : Nat → List (Layer Routine Effect Test)

/-- What happens next; `noise` is what a data statement leaves in `eax`. -/
inductive Event (Routine Data : Type) where
  | go (noise : Bool)
  | call (routine : Routine) (argument : Bool)
  | ret
  | switchTo (next : Nat)
  | interrupt
  | trap
  | iret
  | other (core : Core Data)

section Machine

variable {Routine Effect Test Data : Type}

def Program.enter (program : Program Routine Effect Test) (routine : Routine)
    (entry argument : Bool) : Layer Routine Effect Test :=
  .routine ⟨routine, entry, argument, [program.code routine]⟩

namespace State

/-- The state with another core and other layers of the running thread. -/
def goes (s : State Routine Effect Test Data) (core : Core Data)
    (layers : List (Layer Routine Effect Test)) :
    State Routine Effect Test Data where
  core := core
  current := s.current
  layers := Function.update s.layers s.current layers

@[simp]
theorem goes_current (s : State Routine Effect Test Data) (core : Core Data)
    (layers : List (Layer Routine Effect Test)) :
    (s.goes core layers).layers s.current = layers :=
  Function.update_self ..

theorem goes_other (s : State Routine Effect Test Data) (core : Core Data)
    (layers : List (Layer Routine Effect Test)) {thread : Nat}
    (different : thread ≠ s.current) :
    (s.goes core layers).layers thread = s.layers thread :=
  Function.update_of_ne different ..

end State

/-- One statement of a routine, other than calls, returns and switches. -/
def statement (meaning : Meaning Effect Test Data) (thread : Nat)
    (noise : Bool) (core : Core Data) (frame : Frame Routine Effect Test) :
    Option (Core Data × Frame Routine Effect Test) :=
  match frame.work with
  | .done :: rest => some (core, { frame with work := rest })
  | .act effect next :: rest =>
      (meaning.effect thread effect core.data).map fun data =>
        ({ core with eax := noise, data }, { frame with work := next :: rest })
  | .getFlag next :: rest =>
      some ({ core with eax := core.flag }, { frame with work := next :: rest })
  | .cli next :: rest =>
      some ({ core with flag := false }, { frame with work := next :: rest })
  | .sti next :: rest =>
      some ({ core with flag := true }, { frame with work := next :: rest })
  | .store next :: rest =>
      some (core, { frame with status := core.eax, work := next :: rest })
  | .load next :: rest =>
      some ({ core with eax := frame.status },
        { frame with work := next :: rest })
  | .expectOff next :: rest =>
      if core.eax then none
      else some (core, { frame with work := next :: rest })
  | .ifOn on off next :: rest =>
      some (core, { frame with
        work := (if frame.status then on else off) :: next :: rest })
  | .ite test yes no next :: rest =>
      some ({ core with eax := noise }, { frame with
        work := (if meaning.test thread test core.data then yes else no) ::
          next :: rest })
  | .loop test body next :: rest =>
      some ({ core with eax := noise }, { frame with
        work :=
          if meaning.test thread test core.data then
            body :: .loop test body next :: rest
          else next :: rest })
  | .call _ _ :: _ | .switch _ :: _ | .ret :: _ | [] => none

variable [DecidableEq Routine]

def next (program : Program Routine Effect Test)
    (meaning : Meaning Effect Test Data)
    (s : State Routine Effect Test Data) :
    Event Routine Data → Option (State Routine Effect Test Data)
  | .go noise =>
      match s.layers s.current with
      | .routine frame :: below =>
          (statement meaning s.current noise s.core frame).map fun after =>
            s.goes after.1 (.routine after.2 :: below)
      | _ => none
  | .call routine argument =>
      match s.layers s.current with
      | .routine ⟨caller, entry, status, .call callee work :: rest⟩ :: below =>
          if callee = routine then
            some (s.goes s.core (program.enter callee s.core.flag status ::
              .routine ⟨caller, entry, status, work :: rest⟩ :: below))
          else none
      | .routine _ :: _ => none
      | layers =>
          some (s.goes s.core
            (program.enter routine s.core.flag argument :: layers))
  | .ret =>
      match s.layers s.current with
      | .routine ⟨_, _, _, []⟩ :: below
      | .routine ⟨_, _, _, .ret :: _⟩ :: below => some (s.goes s.core below)
      | _ => none
  | .switchTo next =>
      match s.layers s.current with
      | .routine ⟨caller, entry, status, .switch work :: rest⟩ :: below =>
          some { s.goes s.core
            (.routine ⟨caller, entry, status, work :: rest⟩ :: below) with
              current := next }
      | _ => none
  | .interrupt =>
      if s.core.flag then
        some (s.goes { s.core with flag := false }
          (.handler s.core.flag s.core.eax :: s.layers s.current))
      else none
  | .trap =>
      match s.layers s.current with
      | .routine _ :: _ => none
      | layers =>
          some (s.goes { s.core with flag := false }
            (.handler s.core.flag s.core.eax :: layers))
  | .iret =>
      match s.layers s.current with
      | .handler flag eax :: below =>
          some (s.goes { s.core with flag, eax } below)
      | _ => none
  | .other core =>
      match s.layers s.current with
      | .routine _ :: _ => none
      | layers => some (s.goes core layers)

def Step (program : Program Routine Effect Test)
    (meaning : Meaning Effect Test Data)
    (s : State Routine Effect Test Data) (event : Event Routine Data)
    (s' : State Routine Effect Test Data) : Prop :=
  next program meaning s event = some s'

/-- One thread runs code of its own; every other one will start in the first
routine, with the flag off. -/
structure Start (program : Program Routine Effect Test)
    (s : State Routine Effect Test Data) : Prop where
  running : s.layers s.current = []
  fresh : ∀ thread, thread ≠ s.current →
    s.layers thread = [program.enter program.first false false]

end Machine

/-! ## The check -/

structure Known where
  flag : Bool
  eax : Option Bool
  status : Option Bool
  deriving DecidableEq

/-- What a routine promises of its return. -/
structure Promise where
  flag : Bool
  eax : Option Bool
  deriving DecidableEq

/-- The promise of a routine, for what is known of its argument and the flag
at the call. -/
abbrev Contract (Routine : Type) : Type :=
  Routine → Option Bool → Bool → Option Promise

def common (left right : Option Bool) : Option Bool :=
  if left = right then left else none

/-- What is known where two branches meet; a branch that returns does not get
there. -/
def join : Option Known → Option Known → Option (Option Known)
  | none, right => some right
  | left, none => some left
  | some left, some right =>
      if left.flag = right.flag then
        some (some ⟨left.flag, common left.eax right.eax,
          common left.status right.status⟩)
      else none

def Promise.Kept (promise : Promise) (known : Known) : Prop :=
  known.flag = promise.flag ∧
    (promise.eax = none ∨ promise.eax = known.eax)

instance (promise : Promise) (known : Known) :
    Decidable (promise.Kept known) :=
  inferInstanceAs (Decidable (_ ∧ _))

/-- The code is followed from where this is known: `none` when it may break
the promise, a contract or the rule for switches, `some none` when it does not
get to its end. -/
def flow {Routine Effect Test : Type} (contract : Contract Routine)
    (promise : Promise) :
    Code Routine Effect Test → Known → Option (Option Known)
  | .done, known => some (some known)
  | .act _ next, known => flow contract promise next { known with eax := none }
  | .getFlag next, known =>
      flow contract promise next { known with eax := some known.flag }
  | .cli next, known => flow contract promise next { known with flag := false }
  | .sti next, known => flow contract promise next { known with flag := true }
  | .store next, known =>
      flow contract promise next { known with status := known.eax }
  | .load next, known =>
      flow contract promise next { known with eax := known.status }
  | .expectOff next, known =>
      if known.eax = some false then flow contract promise next known else none
  | .call routine next, known =>
      (contract routine known.status known.flag).bind fun after =>
        flow contract promise next ⟨after.flag, after.eax, known.status⟩
  | .ifOn on off next, known =>
      known.status.bind fun status =>
        (if status then flow contract promise on known
          else flow contract promise off known).bind fun after =>
            after.elim (some none) (flow contract promise next)
  | .ite _ yes no next, known =>
      (flow contract promise yes { known with eax := none }).bind fun left =>
        (flow contract promise no { known with eax := none }).bind fun right =>
          (join left right).bind fun after =>
            after.elim (some none) (flow contract promise next)
  | .loop _ body next, known =>
      (flow contract promise body { known with eax := none }).bind fun after =>
        if after.all fun after =>
            after.flag = known.flag ∧ after.status = known.status then
          flow contract promise next { known with eax := none }
        else none
  | .switch next, known =>
      if known.flag then none
      else flow contract promise next { known with eax := none }
  | .ret, known => if promise.Kept known then some none else none

/-- The code of a routine keeps the promise, from where this is known. -/
def keepsPromise {Routine Effect Test : Type} (contract : Contract Routine)
    (promise : Promise) (code : Code Routine Effect Test) (known : Known) :
    Bool :=
  (flow contract promise code known).elim false fun after =>
    after.all fun reached => promise.Kept reached

/-- Every routine keeps its promise, and promises something whatever its
argument and the flag are. -/
structure Checked {Routine Effect Test : Type}
    (program : Program Routine Effect Test) (contract : Contract Routine) :
    Prop where
  keeps : ∀ routine argument entry promise,
    contract routine argument entry = some promise →
    keepsPromise contract promise (program.code routine)
      ⟨entry, none, argument⟩
  total : ∀ routine argument entry,
    contract routine (some argument) entry ≠ none

end Simos.Library.IrqRoutines
