import Simos.Library.Sections
import Simos.Thread.LockPhases

/-!
# Sections of threads under a lock

Any number of threads call a function that works on shared data between its
`lock_acquire` and its `lock_release`.  The statements of the lock are those of
the runs of one lock; `work` is one piece of the work in between, and a clock
interrupt may come between any two pieces or statements.

`sections_serial` says that the data are those of the sections one after
another, in the order in which the threads got the lock.
-/

namespace Simos

open Simos.Library

inductive SectionPc (Job : Type) where
  | outside
  | entering (job : Job)
  | inside (start now : Job)
  | leaving

/-- The lock, the data, the threads, and which sections were called and
entered so far. -/
structure SectionUse (Job Shared : Type) where
  locks : LockUse
  shared : Shared
  pc : Nat → SectionPc Job
  called : List (Nat × Job)
  entered : List (Nat × Job)

inductive SectionEvent (Job : Type) where
  | call (thread : Nat) (job : Job)
  | statement (thread : Nat)

section Steps

variable {Job Shared : Type}

namespace SectionUse

def goto (s : SectionUse Job Shared) (thread : Nat) (pc : SectionPc Job) :
    SectionUse Job Shared :=
  { s with pc := Function.update s.pc thread pc }

def call (s : SectionUse Job Shared) (thread : Nat) (job : Job) :
    SectionUse Job Shared :=
  { s with
    locks := s.locks.goto thread .acquireTest
    called := s.called ++ [(thread, job)] }.goto thread (.entering job)

def acquire (s : SectionUse Job Shared) (thread : Nat) (job : Job)
    (locks : LockUse) : SectionUse Job Shared :=
  if locks.pc thread = .outside then
    { s with locks, entered := s.entered ++ [(thread, job)] }.goto thread
      (.inside job job)
  else
    { s with locks }

def release (s : SectionUse Job Shared) (thread : Nat) (locks : LockUse) :
    SectionUse Job Shared :=
  if locks.pc thread = .outside then { s with locks }.goto thread .outside
  else { s with locks }

end SectionUse

inductive SectionStep (work : Job × Shared → Job × Shared → Prop)
    (finished : Job → Prop) :
    SectionUse Job Shared → SectionEvent Job → SectionUse Job Shared → Prop
  | call {s : SectionUse Job Shared} {thread : Nat} {job : Job} :
      thread ≠ 0 → s.pc thread = .outside →
      SectionStep work finished s (.call thread job) (s.call thread job)
  | acquire {s : SectionUse Job Shared} {thread : Nat} {job : Job}
      {locks : LockUse} :
      s.pc thread = .entering job → s.locks.pc thread ≠ .blocked →
      lockStatement s.locks thread = .ok locks →
      SectionStep work finished s (.statement thread)
        (s.acquire thread job locks)
  | work {s : SectionUse Job Shared} {thread : Nat} {start now now' : Job}
      {shared : Shared} :
      s.pc thread = .inside start now → work (now, s.shared) (now', shared) →
      SectionStep work finished s (.statement thread)
        ({ s with shared }.goto thread (.inside start now'))
  | leave {s : SectionUse Job Shared} {thread : Nat} {start now : Job} :
      s.pc thread = .inside start now → finished now →
      SectionStep work finished s (.statement thread)
        ({ s with locks := s.locks.goto thread .releaseAssert }.goto thread
          .leaving)
  | release {s : SectionUse Job Shared} {thread : Nat} {locks : LockUse} :
      s.pc thread = .leaving → s.locks.pc thread ≠ .blocked →
      lockStatement s.locks thread = .ok locks →
      SectionStep work finished s (.statement thread) (s.release thread locks)

def sectionUseInit (Job : Type) (first : Shared) : SectionUse Job Shared :=
  ⟨lockUseInit, first, fun _ => .outside, [], []⟩

/-- The section that a thread has called and not yet entered. -/
def SectionPc.pending : SectionPc Job → List Job
  | .entering job => [job]
  | .outside | .inside _ _ | .leaving => []

def ofThread (thread : Nat) (order : List (Nat × Job)) : List Job :=
  (order.filter (·.1 = thread)).map Prod.snd

/-! ## The invariant -/

/-- Where a thread is in the lock, by its place in the function. -/
def SectionPhase (thread : Nat) (lockPc : LockPc) (depth : Nat) :
    SectionPc Job → Prop
  | .outside => lockPc = .outside ∧ depth = 0
  | .entering _ => thread ≠ 0 ∧ Acquiring lockPc ∧ depth = 0
  | .inside _ _ => thread ≠ 0 ∧ lockPc = .outside ∧ depth = 1
  | .leaving => thread ≠ 0 ∧ Releasing lockPc depth

/-- The invariant: the lock is sound, at most one thread is inside, and the
data are those of the sections one after another. -/
structure SectionsOk (work : Job × Shared → Job × Shared → Prop)
    (finished : Job → Prop) (first : Shared) (s : SectionUse Job Shared) :
    Prop where
  lock : ∃ owner, LockOk owner s.locks
  phase : ∀ thread, SectionPhase thread (s.locks.pc thread)
    (s.locks.depth thread) (s.pc thread)
  serially : ∃ active : Option (Active Nat Job),
    Serially work finished first s.entered active s.shared ∧
      ∀ thread start now, s.pc thread = .inside start now ↔
        active = some ⟨thread, start, now⟩
  calls : ∀ thread, ofThread thread s.called =
    ofThread thread s.entered ++ (s.pc thread).pending

@[simp]
theorem ofThread_append (thread : Nat) (order later : List (Nat × Job)) :
    ofThread thread (order ++ later) =
      ofThread thread order ++ ofThread thread later := by
  simp [ofThread]

private theorem ofThread_single (thread other : Nat) (job : Job) :
    ofThread thread [(other, job)] = if other = thread then [job] else [] := by
  unfold ofThread
  by_cases same : other = thread
  · simp [same]
  · simp [same]

private theorem SectionPhase.woken {thread depth : Nat} {pc : SectionPc Job}
    (phase : SectionPhase thread .blocked depth pc) :
    SectionPhase thread .semaDown depth pc := by
  cases pc with
  | outside => cases phase.1
  | entering job => exact ⟨phase.1, trivial, phase.2.2⟩
  | inside start now => cases phase.2.1
  | leaving => exact phase.2.elim

namespace SectionsOk

variable {work : Job × Shared → Job × Shared → Prop} {finished : Job → Prop}
  {first : Shared} {s s' : SectionUse Job Shared} {thread : Nat}

theorem init (work : Job × Shared → Job × Shared → Prop)
    (finished : Job → Prop) (first : Shared) :
    SectionsOk work finished first (sectionUseInit Job first) where
  lock := ⟨none, LockOk.start⟩
  phase := fun _ => ⟨rfl, rfl⟩
  serially := ⟨none, .idle .none, by simp [sectionUseInit]⟩
  calls := fun _ => rfl

/-- Statements inside the lock leave the phases of the other threads. -/
theorem phase_others (ok : SectionsOk work finished first s) {locks : LockUse}
    {pc : SectionPc Job}
    (returned : lockStatement s.locks thread = .ok locks)
    (mine : SectionPhase thread (locks.pc thread) (locks.depth thread) pc)
    (other : Nat) :
    SectionPhase other (locks.pc other) (locks.depth other)
      (Function.update s.pc thread pc other) := by
  obtain ⟨owner, lock⟩ := ok.lock
  by_cases same : other = thread
  · rw [same, Function.update_self]
    exact mine
  · have phase := ok.phase other
    rw [Function.update_of_ne same]
    obtain ⟨depth, kept | woken⟩ := lockStatement_others lock returned same
    · rw [depth, kept]
      exact phase
    · rw [woken.1] at phase
      rw [depth, woken.2]
      exact phase.woken

theorem phase_goto (ok : SectionsOk work finished first s) {lockPc : LockPc}
    {pc : SectionPc Job}
    (mine : SectionPhase thread lockPc (s.locks.depth thread) pc)
    (other : Nat) :
    SectionPhase other ((s.locks.goto thread lockPc).pc other)
      (s.locks.depth other) (Function.update s.pc thread pc other) := by
  by_cases same : other = thread
  · simpa [LockUse.goto, same] using mine
  · simpa [LockUse.goto, same] using ok.phase other

theorem calls_goto (ok : SectionsOk work finished first s)
    {called entered : List (Nat × Job)} {pc : SectionPc Job}
    (mine : ofThread thread called = ofThread thread entered ++ pc.pending)
    (kept : ∀ other, other ≠ thread →
      ofThread other called = ofThread other s.called ∧
        ofThread other entered = ofThread other s.entered) (other : Nat) :
    ofThread other called = ofThread other entered ++
      (Function.update s.pc thread pc other).pending := by
  by_cases same : other = thread
  · rw [same, Function.update_self]
    exact mine
  · rw [Function.update_of_ne same, (kept other same).1, (kept other same).2]
    exact ok.calls other

/-- A section of another thread is not among those of the thread. -/
theorem ofThread_append_other {order : List (Nat × Job)} {job : Job}
    {other : Nat} (different : other ≠ thread) :
    ofThread other (order ++ [(thread, job)]) = ofThread other order := by
  rw [ofThread_append, ofThread_single, if_neg (Ne.symm different),
    List.append_nil]

private theorem ofThread_append_self {order : List (Nat × Job)} {job : Job} :
    ofThread thread (order ++ [(thread, job)]) =
      ofThread thread order ++ [job] := by
  rw [ofThread_append, ofThread_single, if_pos rfl]

/-- When a thread that is outside the sections moves, the active section is
still that of the thread inside. -/
theorem active_goto {active : Option (Active Nat Job)} {pc : SectionPc Job}
    (only : ∀ thread start now, s.pc thread = .inside start now ↔
      active = some ⟨thread, start, now⟩)
    (was : ∀ start now, s.pc thread ≠ .inside start now)
    (outer : ∀ start now, pc ≠ .inside start now)
    (other : Nat) (start now : Job) :
    Function.update s.pc thread pc other = .inside start now ↔
      active = some ⟨other, start, now⟩ := by
  rw [← only other start now]
  by_cases same : other = thread
  · rw [same, Function.update_self]
    exact ⟨fun inside => absurd inside (outer start now),
      fun inside => absurd inside (was start now)⟩
  · rw [Function.update_of_ne same]

private theorem calls_ok (ok : SectionsOk work finished first s)
    (nonNull : thread ≠ 0) (at_pc : s.pc thread = .outside) (job : Job) :
    SectionsOk work finished first (s.call thread job) := by
  obtain ⟨owner, lock⟩ := ok.lock
  obtain ⟨active, serially, only⟩ := ok.serially
  have phase := ok.phase thread
  rw [at_pc] at phase
  have shallow : s.locks.depth thread + 1 < 4294967296 := by
    rw [phase.2]
    decide
  constructor
  case lock => exact lock.step (.acquire nonNull phase.1) shallow
  case phase => exact ok.phase_goto ⟨nonNull, trivial, phase.2⟩
  case serially =>
    refine ⟨active, serially, active_goto only ?_ ?_⟩
    · rw [at_pc]
      exact nofun
    · exact nofun
  case calls =>
    apply ok.calls_goto
    · have calls := ok.calls thread
      rw [at_pc] at calls
      have calls : ofThread thread s.called = ofThread thread s.entered ++ [] :=
        calls
      show ofThread thread (s.called ++ [(thread, job)]) =
        ofThread thread s.entered ++ [job]
      rw [ofThread_append_self, calls, List.append_nil]
    · intro other different
      exact ⟨ofThread_append_other different, rfl⟩

private theorem only_inside {locks : LockUse} {owner : Option Nat} {other : Nat}
    (lock : LockOk owner locks) (mine : locks.depth thread = 1)
    (theirs : locks.depth other = 1) : other = thread := by
  have isMine : owner = some thread := lock.owner_eq fun outsider => by
    have outer := outsider.1
    omega
  have isTheirs : owner = some other := lock.owner_eq fun outsider => by
    have outer := outsider.1
    omega
  exact Option.some.inj (isTheirs.symm.trans isMine)

private theorem acquire_ok (ok : SectionsOk work finished first s) {job : Job}
    {locks : LockUse} (at_pc : s.pc thread = .entering job)
    (awake : s.locks.pc thread ≠ .blocked)
    (returned : lockStatement s.locks thread = .ok locks) :
    SectionsOk work finished first (s.acquire thread job locks) := by
  obtain ⟨owner, lock⟩ := ok.lock
  obtain ⟨active, serially, only⟩ := ok.serially
  have phase := ok.phase thread
  rw [at_pc] at phase
  have inLock : s.locks.pc thread ≠ .outside := by
    intro outside
    rw [outside] at phase
    exact phase.2.1
  obtain ⟨locks', returned', lock'⟩ := lock.statement phase.1 inLock awake
  rw [returned] at returned'
  cases returned'
  unfold SectionUse.acquire
  rcases lockStatement_acquiring lock phase.1 phase.2.1 awake phase.2.2
    returned with taken | waits
  · rw [if_pos taken.1]
    have mine : SectionPhase thread (locks.pc thread) (locks.depth thread)
        (.inside job job) :=
      ⟨phase.1, taken⟩
    have phases := ok.phase_others returned mine
    have nobody : active = none := by
      cases isActive : active with
      | none => rfl
      | some other =>
          have inside := (only other.client other.start other.now).mpr isActive
          have different : other.client ≠ thread := by
            intro same
            rw [same, at_pc] at inside
            cases inside
          have theirs := phases other.client
          rw [Function.update_of_ne different, inside] at theirs
          obtain ⟨owner', lock'⟩ := lock'
          exact absurd (only_inside lock' taken.2 theirs.2.2) different
    subst nobody
    constructor
    case lock => exact lock'
    case phase => exact phases
    case serially =>
      refine ⟨_, serially.start thread job, ?_⟩
      intro other start now
      by_cases same : other = thread
      · simp [SectionUse.goto, same]
      · have outer : s.pc other ≠ .inside start now := by
          rw [Ne, only]
          exact nofun
        simp [SectionUse.goto, same, outer, Ne.symm same]
    case calls =>
      apply ok.calls_goto
      · have calls := ok.calls thread
        rw [at_pc] at calls
        show ofThread thread s.called =
          ofThread thread (s.entered ++ [(thread, job)]) ++ []
        rw [calls, ofThread_append_self, List.append_nil]
        rfl
      · intro other different
        exact ⟨rfl, ofThread_append_other different⟩
  · have stays : locks.pc thread ≠ .outside := by
      intro outside
      rw [outside] at waits
      exact waits.1
    rw [if_neg stays]
    have mine : SectionPhase thread (locks.pc thread) (locks.depth thread)
        (s.pc thread) := by
      rw [at_pc]
      exact ⟨phase.1, waits⟩
    have phases := ok.phase_others returned mine
    rw [Function.update_eq_self] at phases
    exact ⟨lock', phases, ⟨active, serially, only⟩, ok.calls⟩

private theorem work_ok (ok : SectionsOk work finished first s)
    {start now now' : Job}
    {shared : Shared} (at_pc : s.pc thread = .inside start now)
    (piece : work (now, s.shared) (now', shared)) :
    SectionsOk work finished first
      ({ s with shared }.goto thread (.inside start now')) := by
  obtain ⟨active, serially, only⟩ := ok.serially
  have phase := ok.phase thread
  rw [at_pc] at phase
  have phase : SectionPhase thread (s.locks.pc thread)
      (s.locks.depth thread) (.inside start now') := phase
  have mine := (only thread start now).mp at_pc
  subst mine
  constructor
  case lock => exact ok.lock
  case phase =>
    intro other
    by_cases same : other = thread
    · rw [same]
      simpa [SectionUse.goto] using phase
    · simpa [SectionUse.goto, same] using ok.phase other
  case serially =>
    refine ⟨_, serially.worked piece, ?_⟩
    intro other start' now''
    by_cases same : other = thread
    · simp [SectionUse.goto, same]
    · have outer : s.pc other ≠ .inside start' now'' := by
        rw [Ne, only]
        simp [Ne.symm same]
      simp [SectionUse.goto, same, outer, Ne.symm same]
  case calls =>
    apply ok.calls_goto
    · have calls := ok.calls thread
      rwa [at_pc] at calls
    · exact fun other _ => ⟨rfl, rfl⟩

private theorem leave_ok (ok : SectionsOk work finished first s)
    {start now : Job}
    (at_pc : s.pc thread = .inside start now) (done : finished now) :
    SectionsOk work finished first
      ({ s with locks := s.locks.goto thread .releaseAssert }.goto thread
        .leaving) := by
  obtain ⟨owner, lock⟩ := ok.lock
  obtain ⟨active, serially, only⟩ := ok.serially
  have phase := ok.phase thread
  rw [at_pc] at phase
  have holds : 0 < s.locks.depth thread := by
    rw [phase.2.2]
    decide
  have mine := (only thread start now).mp at_pc
  subst mine
  constructor
  case lock =>
    exact lock.step (.release phase.1 phase.2.1 holds) trivial
  case phase => exact ok.phase_goto ⟨phase.1, phase.2.2⟩
  case serially =>
    refine ⟨none, serially.finish done, ?_⟩
    intro other start' now'
    by_cases same : other = thread
    · simp [SectionUse.goto, same]
    · have outer : s.pc other ≠ .inside start' now' := by
        rw [Ne, only]
        simp [Ne.symm same]
      simp [SectionUse.goto, same, outer]
  case calls =>
    apply ok.calls_goto
    · have calls := ok.calls thread
      rwa [at_pc] at calls
    · exact fun other _ => ⟨rfl, rfl⟩

private theorem release_ok (ok : SectionsOk work finished first s)
    {locks : LockUse}
    (at_pc : s.pc thread = .leaving) (awake : s.locks.pc thread ≠ .blocked)
    (returned : lockStatement s.locks thread = .ok locks) :
    SectionsOk work finished first (s.release thread locks) := by
  obtain ⟨owner, lock⟩ := ok.lock
  obtain ⟨active, serially, only⟩ := ok.serially
  have phase := ok.phase thread
  rw [at_pc] at phase
  have inLock : s.locks.pc thread ≠ .outside := by
    intro outside
    rw [outside] at phase
    exact phase.2
  obtain ⟨locks', returned', lock'⟩ := lock.statement phase.1 inLock awake
  rw [returned] at returned'
  cases returned'
  unfold SectionUse.release
  rcases lockStatement_releasing lock phase.2 returned with free | holds
  · rw [if_pos free.1]
    constructor
    case lock => exact lock'
    case phase => exact ok.phase_others returned free
    case serially =>
      refine ⟨active, serially, active_goto only ?_ ?_⟩
      · rw [at_pc]
        exact nofun
      · exact nofun
    case calls =>
      apply ok.calls_goto
      · have calls := ok.calls thread
        rwa [at_pc] at calls
      · exact fun other _ => ⟨rfl, rfl⟩
  · have stays : locks.pc thread ≠ .outside := by
      intro outside
      rw [outside] at holds
      exact holds
    rw [if_neg stays]
    have mine : SectionPhase thread (locks.pc thread) (locks.depth thread)
        (s.pc thread) := by
      rw [at_pc]
      exact ⟨phase.1, holds⟩
    have phases := ok.phase_others returned mine
    rw [Function.update_eq_self] at phases
    exact ⟨lock', phases, ⟨active, serially, only⟩, ok.calls⟩

theorem step (ok : SectionsOk work finished first s)
    {event : SectionEvent Job}
    (taken : SectionStep work finished s event s') :
    SectionsOk work finished first s' := by
  cases taken with
  | call nonNull outside =>
      exact ok.calls_ok nonNull outside _
  | acquire at_pc awake returned =>
      exact ok.acquire_ok at_pc awake returned
  | work at_pc piece =>
      exact ok.work_ok at_pc piece
  | leave at_pc done =>
      exact ok.leave_ok at_pc done
  | release at_pc awake returned =>
      exact ok.release_ok at_pc awake returned

end SectionsOk

/-! ## Computed steps -/

/-- The step that an event takes, if it can take one; a section leaves as soon
as it may. -/
def sectionStepOf (workOf : Job × Shared → Option (Job × Shared))
    (done : Job → Bool) (s : SectionUse Job Shared) :
    SectionEvent Job → Option (SectionUse Job Shared)
  | .call thread job =>
      match s.pc thread with
      | .outside => if thread ≠ 0 then some (s.call thread job) else none
      | _ => none
  | .statement thread =>
      match s.pc thread with
      | .outside => none
      | .entering job =>
          if s.locks.pc thread ≠ .blocked then
            (lockStatement s.locks thread).toOption.map
              (s.acquire thread job)
          else none
      | .inside start now =>
          if done now then
            some ({ s with
              locks := s.locks.goto thread .releaseAssert }.goto thread
                .leaving)
          else
            (workOf (now, s.shared)).map fun next =>
              { s with shared := next.2 }.goto thread (.inside start next.1)
      | .leaving =>
          if s.locks.pc thread ≠ .blocked then
            (lockStatement s.locks thread).toOption.map (s.release thread)
          else none

private theorem returned_of_toOption {call : Call LockUse} {locks : LockUse}
    (returned : call.toOption = some locks) : call = .ok locks := by
  cases call with
  | error stop => cases returned
  | ok value => exact congrArg Except.ok (Option.some.inj returned)

theorem sectionStepOf_sound {work : Job × Shared → Job × Shared → Prop}
    {finished : Job → Prop} {workOf : Job × Shared → Option (Job × Shared)}
    {done : Job → Bool}
    (workSound : ∀ state next, workOf state = some next → work state next)
    (doneSound : ∀ job, done job = true → finished job)
    (s : SectionUse Job Shared) (event : SectionEvent Job)
    (s' : SectionUse Job Shared)
    (taken : sectionStepOf workOf done s event = some s') :
    SectionStep work finished s event s' := by
  cases event with
  | call thread job =>
      cases at_pc : s.pc thread with
      | outside =>
          simp only [sectionStepOf, at_pc, Option.ite_none_right_eq_some,
            Option.some.injEq] at taken
          rw [← taken.2]
          exact .call taken.1 at_pc
      | _ =>
          simp [sectionStepOf, at_pc] at taken
  | statement thread =>
      cases at_pc : s.pc thread with
      | outside =>
          simp [sectionStepOf, at_pc] at taken
      | entering job =>
          simp only [sectionStepOf, at_pc, Option.ite_none_right_eq_some,
            Option.map_eq_some_iff] at taken
          obtain ⟨awake, locks, returned, rfl⟩ := taken
          exact .acquire at_pc awake (returned_of_toOption returned)
      | inside start now =>
          simp only [sectionStepOf, at_pc] at taken
          by_cases isDone : done now = true
          · rw [if_pos isDone, Option.some.injEq] at taken
            rw [← taken]
            exact .leave at_pc (doneSound now isDone)
          · rw [if_neg isDone, Option.map_eq_some_iff] at taken
            obtain ⟨next, worked, rfl⟩ := taken
            exact .work at_pc (workSound _ _ worked)
      | leaving =>
          simp only [sectionStepOf, at_pc, Option.ite_none_right_eq_some,
            Option.map_eq_some_iff] at taken
          obtain ⟨awake, locks, returned, rfl⟩ := taken
          exact .release at_pc awake (returned_of_toOption returned)

end Steps

end Simos
