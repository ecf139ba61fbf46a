import Mathlib.Data.List.Nodup
import Simos.Thread.LockPhases

/-!
# Process numbers (`alloc_pid`, `thread/thread.c`)

`alloc_pid` is cut into its statements; `lock_acquire` and `lock_release` run
as in the runs of one lock.  A clock interrupt may come between any two
statements that run with interrupts on, so the next statement may be that of
any thread.  The number that a call returns is read from `next_pid` again,
behind `lock_release`.

* `PidsOk` is the invariant while no thread increments `next_pid` before
  another one has read its number;
* `allocPid_unique` is the result: then all numbers are different;
* `allocPid_repeats` shows that otherwise two calls return one number.
-/

namespace Simos

open Simos.Library

inductive PidPc where
  | outside
  | lockAcquire
  | increment
  | lockRelease
  | readPid
  deriving DecidableEq, Repr

inductive PidMark where
  | called (thread : Nat)
  | returned (thread : Nat) (pid : Int)
  deriving DecidableEq, Repr

/-- `pid_lock` and `next_pid` with the threads that use them. -/
structure PidUse where
  locks : LockUse
  nextPid : Int
  pc : Nat → PidPc
  log : List PidMark

namespace PidUse

def goto (s : PidUse) (thread : Nat) (pc : PidPc) : PidUse :=
  { s with pc := Function.update s.pc thread pc }

def mark (s : PidUse) (mark : PidMark) : PidUse :=
  { s with log := s.log ++ [mark] }

end PidUse

/-- `next_pid++` on a `pid_t` of 16 bits. -/
def nextPidAfter (nextPid : Int) : Int :=
  (nextPid + 1 + 32768) % 65536 - 32768

def pidStatement (s : PidUse) (cur : Nat) : Call PidUse :=
  match s.pc cur with
  | .outside =>
      .ok s
  | .lockAcquire => do
      let locks ← lockStatement s.locks cur
      let s := { s with locks }
      return if locks.pc cur = .outside then s.goto cur .increment else s
  | .increment =>
      .ok ({ s with
        nextPid := nextPidAfter s.nextPid
        locks := s.locks.goto cur .releaseAssert }.goto cur .lockRelease)
  | .lockRelease => do
      let locks ← lockStatement s.locks cur
      let s := { s with locks }
      return if locks.pc cur = .outside then s.goto cur .readPid else s
  | .readPid =>
      .ok ((s.mark (.returned cur s.nextPid)).goto cur .outside)

inductive PidEvent where
  | call (thread : Nat)
  | statement (thread : Nat)

def PidUse.Runs (s : PidUse) (thread : Nat) : Prop :=
  thread ≠ 0 ∧ s.pc thread ≠ .outside ∧ s.locks.pc thread ≠ .blocked

instance PidUse.decidableRuns (s : PidUse) (thread : Nat) :
    Decidable (s.Runs thread) :=
  inferInstanceAs (Decidable (_ ∧ _))

def PidUse.call (s : PidUse) (thread : Nat) : PidUse :=
  ({ s with locks := s.locks.goto thread .acquireTest }.mark
    (.called thread)).goto thread .lockAcquire

inductive PidStep : PidUse → PidEvent → PidUse → Prop
  | call {s : PidUse} {thread : Nat} :
      thread ≠ 0 → s.pc thread = .outside →
      PidStep s (.call thread) (s.call thread)
  | statement {s s' : PidUse} {thread : Nat} :
      s.Runs thread → pidStatement s thread = .ok s' →
      PidStep s (.statement thread) s'

private def pidStepOf (s : PidUse) : PidEvent → Option PidUse
  | .call thread =>
      if thread ≠ 0 ∧ s.pc thread = .outside then some (s.call thread) else none
  | .statement thread =>
      if s.Runs thread then (pidStatement s thread).toOption else none

private theorem pidStepOf_sound (s : PidUse) (event : PidEvent) (s' : PidUse)
    (taken : pidStepOf s event = some s') : PidStep s event s' := by
  cases event with
  | call thread =>
      simp only [pidStepOf, Option.ite_none_right_eq_some,
        Option.some.injEq] at taken
      obtain ⟨⟨nonNull, outside⟩, rfl⟩ := taken
      exact PidStep.call nonNull outside
  | statement thread =>
      simp only [pidStepOf, Option.ite_none_right_eq_some] at taken
      cases returned : pidStatement s thread with
      | error stop =>
          rw [returned] at taken
          cases taken.2
      | ok next =>
          rw [returned] at taken
          cases taken.2
          exact PidStep.statement taken.1 returned

/-- The data segment at boot with `pid_lock` initialised, and no thread in
`alloc_pid`. -/
def pidUseInit : PidUse :=
  ⟨lockUseInit, 0, fun _ => .outside, []⟩

def pids : List PidMark → List Int
  | [] => []
  | .called _ :: log => pids log
  | .returned _ pid :: log => pid :: pids log

def pidCalls : List PidMark → Nat
  | [] => 0
  | .called _ :: log => pidCalls log + 1
  | .returned _ _ :: log => pidCalls log

/-- When `next_pid` is incremented, no other thread stands between its own
increment and the reading of its number. -/
def NumberRead (s : PidUse) : PidEvent → Prop
  | .call _ => True
  | .statement thread =>
      s.pc thread = .increment → ∀ other, s.pc other ≠ .readPid

@[simp]
theorem pids_append (log later : List PidMark) :
    pids (log ++ later) = pids log ++ pids later := by
  induction log with
  | nil =>
      rfl
  | cons mark log inductionHypothesis =>
      cases mark with
      | called thread => simpa [pids] using inductionHypothesis
      | returned thread pid => simpa [pids] using inductionHypothesis

@[simp]
theorem pidCalls_append (log later : List PidMark) :
    pidCalls (log ++ later) = pidCalls log + pidCalls later := by
  induction log with
  | nil =>
      simp [pidCalls]
  | cons mark log inductionHypothesis =>
      cases mark with
      | called thread =>
          simp only [List.cons_append, pidCalls, inductionHypothesis]
          omega
      | returned thread pid =>
          simpa only [List.cons_append, pidCalls] using inductionHypothesis

/-! ## The invariant -/

private def pidOf (count : Nat) : Int :=
  ((count : Int) + 32768) % 65536 - 32768

private theorem nextPidAfter_pidOf (count : Nat) :
    nextPidAfter (pidOf count) = pidOf (count + 1) := by
  unfold nextPidAfter pidOf
  omega

private theorem pidOf_injective {count other : Nat} (small : count ≤ 32767)
    (otherSmall : other ≤ 32767) (same : pidOf count = pidOf other) :
    count = other := by
  unfold pidOf at same
  omega

/-- Where a thread is in the lock, by its statement of `alloc_pid`. -/
def PidPhase (lockPc : LockPc) (depth : Nat) : PidPc → Prop
  | .outside | .readPid => lockPc = .outside ∧ depth = 0
  | .lockAcquire => Acquiring lockPc ∧ depth = 0
  | .increment => lockPc = .outside ∧ depth = 1
  | .lockRelease => Releasing lockPc depth

/-- The thread has called and not yet incremented. -/
def PidPc.waits : PidPc → Bool
  | .lockAcquire | .increment => true
  | _ => false

/-- The thread has incremented and not yet read its number. -/
def PidPc.reads : PidPc → Bool
  | .lockRelease | .readPid => true
  | _ => false

/-- The numbers after `count` increments: `counts` are those that were
returned, and the threads in `waiting` have yet to increment. -/
structure Counted (nextPid : Int) (pc : Nat → PidPc) (log : List PidMark)
    (count : Nat) (counts waiting : List Nat) : Prop where
  nextPid : nextPid = pidOf count
  returned : pids log = counts.map pidOf
  nodup : counts.Nodup
  small : ∀ value ∈ counts, value ≤ count
  waitingOnce : waiting.Nodup
  mem_waiting : ∀ thread, thread ∈ waiting ↔ (pc thread).waits = true
  calls : count + waiting.length = pidCalls log
  fresh : ∀ thread, (pc thread).reads = true →
    count ∉ counts ∧ ∀ other, (pc other).reads = true → other = thread

structure PidsOk (s : PidUse) : Prop where
  lock : ∃ owner, LockOk owner s.locks
  phase : ∀ thread,
    PidPhase (s.locks.pc thread) (s.locks.depth thread) (s.pc thread)
  counted : ∃ count counts waiting,
    Counted s.nextPid s.pc s.log count counts waiting

namespace Counted

variable {nextPid : Int} {pc : Nat → PidPc} {log : List PidMark}
  {count thread : Nat} {counts waiting : List Nat}

theorem goes (counted : Counted nextPid pc log count counts waiting)
    {pc' : PidPc} (waits : pc'.waits = (pc thread).waits)
    (reads : pc'.reads = (pc thread).reads) :
    Counted nextPid (Function.update pc thread pc') log count counts
      waiting := by
  have sameWaits : ∀ other,
      (Function.update pc thread pc' other).waits = (pc other).waits := by
    intro other
    by_cases same : other = thread
    · rw [same, Function.update_self, waits]
    · rw [Function.update_of_ne same]
  have sameReads : ∀ other,
      (Function.update pc thread pc' other).reads = (pc other).reads := by
    intro other
    by_cases same : other = thread
    · rw [same, Function.update_self, reads]
    · rw [Function.update_of_ne same]
  constructor
  case nextPid => exact counted.nextPid
  case returned => exact counted.returned
  case nodup => exact counted.nodup
  case small => exact counted.small
  case waitingOnce => exact counted.waitingOnce
  case mem_waiting => simpa only [sameWaits] using counted.mem_waiting
  case calls => exact counted.calls
  case fresh => simpa only [sameReads] using counted.fresh

private theorem calling (counted : Counted nextPid pc log count counts waiting)
    (outside : pc thread = .outside) :
    Counted nextPid (Function.update pc thread .lockAcquire)
      (log ++ [.called thread]) count counts (thread :: waiting) := by
  have absent : thread ∉ waiting := by
    rw [counted.mem_waiting, outside]
    decide
  have reader : ∀ other,
      (Function.update pc thread .lockAcquire other).reads = true →
        (pc other).reads = true := by
    intro other reads
    by_cases same : other = thread
    · rw [same, Function.update_self] at reads
      cases reads
    · rwa [Function.update_of_ne same] at reads
  constructor
  case nextPid => exact counted.nextPid
  case returned =>
    rw [pids_append, counted.returned, pids, pids, List.append_nil]
  case nodup => exact counted.nodup
  case small => exact counted.small
  case waitingOnce => exact List.nodup_cons.mpr ⟨absent, counted.waitingOnce⟩
  case mem_waiting =>
    intro other
    by_cases same : other = thread
    · simp [same, PidPc.waits]
    · simpa [same] using counted.mem_waiting other
  case calls =>
    have calls := counted.calls
    simp only [pidCalls_append, pidCalls, List.length_cons]
    omega
  case fresh =>
    intro other reads
    have fresh := counted.fresh other (reader other reads)
    exact ⟨fresh.1, fun third reads' => fresh.2 third (reader third reads')⟩

/-- `next_pid++`, while no thread has a number to read. -/
theorem increments (counted : Counted nextPid pc log count counts waiting)
    (at_pc : pc thread = .increment)
    (nobody : ∀ other, (pc other).reads = false) :
    Counted (nextPidAfter nextPid) (Function.update pc thread .lockRelease) log
      (count + 1) counts (waiting.erase thread) := by
  have member : thread ∈ waiting := by
    rw [counted.mem_waiting, at_pc]
    rfl
  constructor
  case nextPid => rw [counted.nextPid, nextPidAfter_pidOf]
  case returned => exact counted.returned
  case nodup => exact counted.nodup
  case small =>
    intro value returned
    exact Nat.le_succ_of_le (counted.small value returned)
  case waitingOnce => exact counted.waitingOnce.erase thread
  case mem_waiting =>
    intro other
    rw [counted.waitingOnce.mem_erase_iff]
    by_cases same : other = thread
    · simp [same, PidPc.waits]
    · simpa [same] using counted.mem_waiting other
  case calls =>
    have calls := counted.calls
    have positive := List.length_pos_of_mem member
    rw [List.length_erase_of_mem member]
    omega
  case fresh =>
    have onlyReader : ∀ other,
        (Function.update pc thread .lockRelease other).reads = true →
          other = thread := by
      intro other reads
      by_contra different
      rw [Function.update_of_ne different, nobody other] at reads
      cases reads
    intro other reads
    refine ⟨fun returned => ?_, fun third reads' => ?_⟩
    · have small := counted.small (count + 1) returned
      omega
    · rw [onlyReader other reads, onlyReader third reads']

private theorem reading (counted : Counted nextPid pc log count counts waiting)
    (at_pc : pc thread = .readPid) :
    Counted nextPid (Function.update pc thread .outside)
      (log ++ [.returned thread nextPid]) count (counts ++ [count])
      waiting := by
  have isReader : (pc thread).reads = true := by
    rw [at_pc]
    rfl
  have fresh := counted.fresh thread isReader
  constructor
  case nextPid => exact counted.nextPid
  case returned =>
    rw [pids_append, counted.returned, pids, pids, counted.nextPid,
      List.map_append, List.map_singleton]
  case nodup =>
    rw [(List.perm_append_singleton count counts).nodup_iff]
    exact List.nodup_cons.mpr ⟨fresh.1, counted.nodup⟩
  case small =>
    intro value member
    rcases List.mem_append.mp member with earlier | last
    · exact counted.small value earlier
    · exact (List.mem_singleton.mp last).le
  case waitingOnce => exact counted.waitingOnce
  case mem_waiting =>
    intro other
    have old := counted.mem_waiting other
    by_cases same : other = thread
    · simpa [same, at_pc, PidPc.waits] using old
    · simpa [same] using old
  case calls =>
    simpa [pidCalls] using counted.calls
  case fresh =>
    -- the thread was the only one with a number to read
    intro other reads
    by_cases same : other = thread
    · rw [same, Function.update_self] at reads
      cases reads
    · rw [Function.update_of_ne same] at reads
      exact absurd (fresh.2 other reads) same

end Counted

private theorem PidPhase.woken {depth : Nat} {pc : PidPc}
    (phase : PidPhase .blocked depth pc) : PidPhase .semaDown depth pc := by
  cases pc with
  | outside => cases phase.1
  | lockAcquire => exact ⟨trivial, phase.2⟩
  | increment => cases phase.1
  | lockRelease => exact phase.elim
  | readPid => cases phase.1

namespace PidsOk

variable {s s' : PidUse} {thread : Nat}

private theorem start : PidsOk pidUseInit where
  lock := ⟨none, LockOk.start⟩
  phase := fun _ => ⟨rfl, rfl⟩
  counted := by
    refine ⟨0, [], [], rfl, rfl, List.nodup_nil, ?_, List.nodup_nil, ?_, rfl,
      ?_⟩
    · simp
    · simp [pidUseInit, PidPc.waits]
    · simp [pidUseInit, PidPc.reads]

/-- Statements inside the lock leave the phases of the other threads. -/
theorem phase_others (ok : PidsOk s) {locks : LockUse} {pc : PidPc}
    (returned : lockStatement s.locks thread = .ok locks)
    (mine : PidPhase (locks.pc thread) (locks.depth thread) pc) (other : Nat) :
    PidPhase (locks.pc other) (locks.depth other)
      (Function.update s.pc thread pc other) := by
  obtain ⟨owner, lock⟩ := ok.lock
  by_cases same : other = thread
  · rw [same, Function.update_self]
    exact mine
  · obtain ⟨depth, kept | woken⟩ := lockStatement_others lock returned same
    · rw [Function.update_of_ne same, depth, kept]
      exact ok.phase other
    · have phase := ok.phase other
      rw [woken.1] at phase
      rw [Function.update_of_ne same, depth, woken.2]
      exact phase.woken

private theorem only_owner (ok : PidsOk s) (at_pc : s.pc thread = .increment)
    (other : Nat) : s.pc other ≠ .lockRelease := by
  intro releases
  obtain ⟨owner, lock⟩ := ok.lock
  have phase := ok.phase thread
  have otherPhase := ok.phase other
  rw [at_pc] at phase
  rw [releases] at otherPhase
  have isOwner : owner = some thread := lock.owner_eq fun outsider => by
    have outer := outsider.1
    rw [phase.2] at outer
    cases outer
  have isOther : owner = some other := lock.owner_eq fun outsider => by
    have outside := outsider.2
    generalize s.locks.pc other = lockPc at otherPhase outside
    cases lockPc <;> simp_all [PidPhase, Releasing]
  have same : thread = other := Option.some.inj (isOwner.symm.trans isOther)
  rw [same, releases] at at_pc
  cases at_pc

private theorem acquires (ok : PidsOk s) (runs : s.Runs thread)
    (at_pc : s.pc thread = .lockAcquire)
    (returned : pidStatement s thread = .ok s') : PidsOk s' := by
  obtain ⟨owner, lock⟩ := ok.lock
  obtain ⟨count, counts, waiting, counted⟩ := ok.counted
  have phase := ok.phase thread
  rw [at_pc] at phase
  simp only [pidStatement, at_pc, Call.bind_eq_ok_iff, Call.pure_eq_ok,
    Except.ok.injEq] at returned
  obtain ⟨locks, stated, rfl⟩ := returned
  have inside : s.locks.pc thread ≠ .outside := by
    intro outside
    rw [outside] at phase
    exact phase.1
  obtain ⟨locks', stated', lock'⟩ :=
    lock.statement runs.1 inside runs.2.2
  rw [stated] at stated'
  cases stated'
  rcases lockStatement_acquiring lock runs.1 phase.1 runs.2.2 phase.2 stated
    with taken | waits
  · rw [if_pos taken.1]
    exact ⟨lock', ok.phase_others stated taken,
      count, counts, waiting, counted.goes (by rw [at_pc]; rfl)
        (by rw [at_pc]; rfl)⟩
  · have stays : locks.pc thread ≠ .outside := by
      intro outside
      rw [outside] at waits
      exact waits.1
    rw [if_neg stays]
    have mine : PidPhase (locks.pc thread) (locks.depth thread)
        (s.pc thread) := by
      rw [at_pc]
      exact waits
    have phases := ok.phase_others stated mine
    rw [Function.update_eq_self] at phases
    exact ⟨lock', phases, count, counts, waiting, counted⟩

private theorem releases (ok : PidsOk s) (runs : s.Runs thread)
    (at_pc : s.pc thread = .lockRelease)
    (returned : pidStatement s thread = .ok s') : PidsOk s' := by
  obtain ⟨owner, lock⟩ := ok.lock
  obtain ⟨count, counts, waiting, counted⟩ := ok.counted
  have phase := ok.phase thread
  rw [at_pc] at phase
  have phase : Releasing (s.locks.pc thread) (s.locks.depth thread) := phase
  simp only [pidStatement, at_pc, Call.bind_eq_ok_iff, Call.pure_eq_ok,
    Except.ok.injEq] at returned
  obtain ⟨locks, stated, rfl⟩ := returned
  have inside : s.locks.pc thread ≠ .outside := by
    intro outside
    rw [outside] at phase
    exact phase
  obtain ⟨locks', stated', lock'⟩ :=
    lock.statement runs.1 inside runs.2.2
  rw [stated] at stated'
  cases stated'
  rcases lockStatement_releasing lock phase stated with free | holds
  · rw [if_pos free.1]
    exact ⟨lock', ok.phase_others stated free,
      count, counts, waiting, counted.goes (by rw [at_pc]; rfl)
        (by rw [at_pc]; rfl)⟩
  · have stays : locks.pc thread ≠ .outside := by
      intro outside
      rw [outside] at holds
      exact holds
    rw [if_neg stays]
    have mine : PidPhase (locks.pc thread) (locks.depth thread)
        (s.pc thread) := by
      rw [at_pc]
      exact holds
    have phases := ok.phase_others stated mine
    rw [Function.update_eq_self] at phases
    exact ⟨lock', phases, count, counts, waiting, counted⟩

theorem phase_goto (ok : PidsOk s) {lockPc : LockPc} {pc : PidPc}
    (mine : PidPhase lockPc (s.locks.depth thread) pc) (other : Nat) :
    PidPhase ((s.locks.goto thread lockPc).pc other) (s.locks.depth other)
      (Function.update s.pc thread pc other) := by
  by_cases same : other = thread
  · simpa [LockUse.goto, same] using mine
  · simpa [LockUse.goto, same] using ok.phase other

theorem calls (ok : PidsOk s) (nonNull : thread ≠ 0)
    (at_pc : s.pc thread = .outside) : PidsOk (s.call thread) := by
  obtain ⟨owner, lock⟩ := ok.lock
  obtain ⟨count, counts, waiting, counted⟩ := ok.counted
  have phase := ok.phase thread
  rw [at_pc] at phase
  have shallow : s.locks.depth thread + 1 < 4294967296 := by
    rw [phase.2]
    decide
  exact ⟨lock.step (.acquire nonNull phase.1) shallow,
    ok.phase_goto ⟨trivial, phase.2⟩, count, counts, _,
    counted.calling at_pc⟩

theorem increments (ok : PidsOk s) (runs : s.Runs thread)
    (at_pc : s.pc thread = .increment)
    (read : ∀ other, s.pc other ≠ .readPid)
    (returned : pidStatement s thread = .ok s') : PidsOk s' := by
  obtain ⟨owner, lock⟩ := ok.lock
  obtain ⟨count, counts, waiting, counted⟩ := ok.counted
  have phase := ok.phase thread
  rw [at_pc] at phase
  have holds : 0 < s.locks.depth thread := by
    rw [phase.2]
    decide
  have nobody : ∀ other, (s.pc other).reads = false := by
    intro other
    have notReleasing := ok.only_owner at_pc other
    have notReading := read other
    generalize s.pc other = pc at notReleasing notReading
    cases pc with
    | lockRelease => exact absurd rfl notReleasing
    | readPid => exact absurd rfl notReading
    | _ => rfl
  simp only [pidStatement, at_pc, Except.ok.injEq] at returned
  subst s'
  exact ⟨lock.step (.release runs.1 phase.1 holds) trivial,
    ok.phase_goto phase.2, count + 1, counts, _,
    counted.increments at_pc nobody⟩

private theorem reads (ok : PidsOk s) (at_pc : s.pc thread = .readPid)
    (returned : pidStatement s thread = .ok s') : PidsOk s' := by
  obtain ⟨count, counts, waiting, counted⟩ := ok.counted
  have phase := ok.phase thread
  rw [at_pc] at phase
  simp only [pidStatement, at_pc, Except.ok.injEq] at returned
  subst s'
  refine ⟨ok.lock, ?_, count, _, waiting, counted.reading at_pc⟩
  intro other
  by_cases same : other = thread
  · simp only [same, PidUse.goto, PidUse.mark, Function.update_self]
    exact phase
  · simpa [PidUse.goto, PidUse.mark, same] using ok.phase other

private theorem step {event : PidEvent} (ok : PidsOk s)
    (taken : PidStep s event s') (read : NumberRead s event) : PidsOk s' := by
  cases taken with
  | call nonNull outside =>
      exact ok.calls nonNull outside
  | @statement _ thread runs returned =>
      cases at_pc : s.pc thread with
      | outside => exact absurd at_pc runs.2.1
      | lockAcquire => exact ok.acquires runs at_pc returned
      | increment => exact ok.increments runs at_pc (read at_pc) returned
      | lockRelease => exact ok.releases runs at_pc returned
      | readPid => exact ok.reads at_pc returned

end PidsOk

/-! ## The numbers -/

def PidEvent.thread : PidEvent → Nat
  | .call thread | .statement thread => thread

private theorem pidStatement_pc {s s' : PidUse} {thread other : Nat}
    (returned : pidStatement s thread = .ok s') (different : other ≠ thread) :
    s'.pc other = s.pc other := by
  cases at_pc : s.pc thread with
  | outside =>
      simp only [pidStatement, at_pc, Except.ok.injEq] at returned
      rw [returned]
  | increment =>
      simp only [pidStatement, at_pc, Except.ok.injEq] at returned
      subst s'
      simp [PidUse.goto, different]
  | readPid =>
      simp only [pidStatement, at_pc, Except.ok.injEq] at returned
      subst s'
      simp [PidUse.goto, PidUse.mark, different]
  | _ =>
      simp only [pidStatement, at_pc, Call.bind_eq_ok_iff, Call.pure_eq_ok,
        Except.ok.injEq] at returned
      obtain ⟨locks, _, rfl⟩ := returned
      split <;> simp [PidUse.goto, different]

/-- A thread that is alone in `alloc_pid` meets the condition. -/
theorem alone_guarded {s s' : PidUse} {event : PidEvent}
    (alone : ∀ other, other ≠ event.thread → s.pc other = .outside)
    (taken : PidStep s event s') :
    Guarded PidStep NumberRead s event s' ∧
      ∀ other, other ≠ event.thread → s'.pc other = .outside := by
  cases taken with
  | @call thread nonNull outside =>
      refine ⟨⟨.call nonNull outside, trivial⟩, ?_⟩
      intro other different
      have different : other ≠ thread := different
      have kept := alone other different
      simpa [PidUse.call, PidUse.goto, PidUse.mark, different] using kept
  | @statement _ thread runs returned =>
      refine ⟨⟨.statement runs returned, ?_⟩, ?_⟩
      · intro at_pc other reads
        by_cases same : other = thread
        · rw [same, at_pc] at reads
          cases reads
        · rw [alone other same] at reads
          cases reads
      · intro other different
        rw [pidStatement_pc returned different]
        exact alone other different

private def wholeCall (thread : Nat) : List PidEvent :=
  .call thread :: List.replicate 13 (.statement thread)

/-- In every run, of any number of threads, in which nobody increments
`next_pid` before another thread has read the number of its own increment: up
to 32767 calls return different numbers. -/
theorem allocPid_unique {trace : List (PidEvent × PidUse)} {last : PidUse}
    (run : Run (Guarded PidStep NumberRead) pidUseInit trace last)
    (few : pidCalls last.log ≤ 32767) : (pids last.log).Nodup := by
  have preserved : ∀ state event next, PidsOk state →
      Guarded PidStep NumberRead state event next → PidsOk next :=
    fun _ _ _ ok taken => ok.step taken.1 taken.2
  obtain ⟨count, counts, waiting, counted⟩ :=
    (run.invariant PidsOk.start preserved).counted
  have calls := counted.calls
  rw [counted.returned]
  apply List.Nodup.map_on _ counted.nodup
  intro value member other otherMember same
  have small := counted.small value member
  have otherSmall := counted.small other otherMember
  exact pidOf_injective (by omega) (by omega) same

/-- Two calls of one thread. -/
theorem allocPid_unique_two :
    ∃ trace last, Run (Guarded PidStep NumberRead) pidUseInit trace last ∧
      pids last.log = [1, 2] ∧ (pids last.log).Nodup := by
  obtain ⟨last, replayed, log⟩ : ∃ last,
      replay (fun s event => if event.thread = 1 then pidStepOf s event
        else none) (wholeCall 1 ++ wholeCall 1) pidUseInit = some last ∧
        (pids last.log, pidCalls last.log) = ([1, 2], 2) :=
    Option.map_eq_some_iff.mp (by decide +kernel)
  have sound : ∀ s event s',
      (if event.thread = 1 then pidStepOf s event else none) = some s' →
        PidStep s event s' ∧ event.thread = 1 := by
    intro s event s' taken
    rw [Option.ite_none_right_eq_some] at taken
    exact ⟨pidStepOf_sound s event s' taken.2, taken.1⟩
  obtain ⟨trace, run⟩ := Run.of_replay sound replayed
  have guarded : Run (Guarded PidStep NumberRead) pidUseInit trace last ∧
      ∀ other, other ≠ 1 → last.pc other = .outside := by
    clear replayed log
    induction run with
    | start =>
        exact ⟨Run.start, fun _ _ => rfl⟩
    | @next trace current last event _ taken inductionHypothesis =>
        have step := alone_guarded
          (taken.2 ▸ inductionHypothesis.2) taken.1
        exact ⟨inductionHypothesis.1.next step.1, taken.2 ▸ step.2⟩
  simp only [Prod.mk.injEq] at log
  have few : pidCalls last.log ≤ 32767 := by
    rw [log.2]
    decide
  exact ⟨trace, last, guarded.1, log.1, allocPid_unique guarded.1 few⟩

/-- A thread that is switched out behind `lock_release` returns the number of
the thread that ran in between. -/
theorem allocPid_repeats :
    ∃ trace last, Run PidStep pidUseInit trace last ∧
      last.log = [.called 1, .called 2, .returned 2 2, .returned 1 2] ∧
      pidCalls last.log ≤ 32767 ∧ ¬ (pids last.log).Nodup := by
  let events : List PidEvent :=
    .call 1 :: List.replicate 12 (.statement 1) ++ wholeCall 2 ++
      [.statement 1]
  obtain ⟨last, replayed, log⟩ : ∃ last,
      replay pidStepOf events pidUseInit = some last ∧
        last.log = [.called 1, .called 2, .returned 2 2, .returned 1 2] :=
    Option.map_eq_some_iff.mp (by decide +kernel)
  obtain ⟨trace, run⟩ := Run.of_replay pidStepOf_sound replayed
  refine ⟨trace, last, run, log, ?_⟩
  rw [log]
  decide

end Simos
