import Simos.Device.IdeRead
import Simos.Device.IdeUse
import Simos.Thread.LockPhases

/-!
# Completion of disk commands (`device/ide.c`)

* `HandshakeOk` names the thread, if there is one, that holds the lock of the
  channel, and says how far the completion of its command is;
* `ide_handshake` is the result: `sema_down` returns once for each command,
  for one interrupt that came after `wait_intr` was set for that command;
* `ide_interrupt_before_command` shows that the interrupt may come before the
  command is written.
-/

namespace Simos

open Simos.Library

/-! ## The invariant -/

/-- The thread is between `lock_acquire` and `lock_release`. -/
def IdePc.inSection : IdePc → Bool
  | .outside | .assertSecCnt | .lockAcquire | .lockRelease => false
  | _ => true

/-- Where a thread is in the lock, by its statement of the driver. -/
def LockPhase (lockPc : LockPc) (depth : Nat) : IdePc → Prop
  | .outside | .assertSecCnt => lockPc = .outside ∧ depth = 0
  | .lockAcquire => Acquiring lockPc ∧ depth = 0
  | .lockRelease => Releasing lockPc depth
  | _ => lockPc = .outside ∧ depth = 1

inductive IdeStage where
  | settled
  | waits
  | commanded
  | asleep
  deriving DecidableEq, Repr

def IdePc.stage (write : Bool) : IdePc → IdeStage
  | .outCommand => .waits
  | .semaDown => .commanded
  | .blocked => .asleep
  | .busyWait _ | .readDrq | .moveData | .failed =>
      if write then .commanded else .settled
  | _ => .settled

/-- The marks of one command: `wait_intr` was set, then the command was
written and one interrupt was accepted, in either order, and then `sema_down`
returned, all for the same thread. -/
inductive CommandMarks (thread : Nat) : List IdeMark → Prop
  | late : CommandMarks thread
      [.waits thread, .command thread, .accepted, .returned thread]
  | early : CommandMarks thread
      [.waits thread, .accepted, .command thread, .returned thread]

/-- The marks of completed commands, one after another. -/
inductive Completed : List IdeMark → Prop
  | none : Completed []
  | next {log marks : List IdeMark} {thread : Nat} :
      Completed log → CommandMarks thread marks → Completed (log ++ marks)

/-- The flag, the semaphore and the marks of the command that is under way. -/
def Handshake (waitIntr : Bool) (diskOk : Semaphore (List Nat)) (thread : Nat)
    (pending : List IdeMark) : IdeStage → Prop
  | .settled => waitIntr = false ∧ diskOk = ⟨0, []⟩ ∧ pending = []
  | .waits =>
      (waitIntr = true ∧ diskOk = ⟨0, []⟩ ∧ pending = [.waits thread]) ∨
        (waitIntr = false ∧ diskOk = ⟨1, []⟩ ∧
          pending = [.waits thread, .accepted])
  | .commanded =>
      (waitIntr = true ∧ diskOk = ⟨0, []⟩ ∧
          pending = [.waits thread, .command thread]) ∨
        (waitIntr = false ∧ diskOk = ⟨1, []⟩ ∧
          (pending = [.waits thread, .command thread, .accepted] ∨
            pending = [.waits thread, .accepted, .command thread]))
  | .asleep =>
      waitIntr = true ∧ diskOk = ⟨0, [thread]⟩ ∧
        pending = [.waits thread, .command thread]

private def workerStage (pc : Nat → IdePc) (request : Nat → IdeRequest) :
    Option Nat → IdeStage
  | none => .settled
  | some thread => (pc thread).stage (request thread).write

/-- The completion of commands, with the thread that is in the section. -/
def Completes (waitIntr : Bool) (diskOk : Semaphore (List Nat))
    (pc : Nat → IdePc) (request : Nat → IdeRequest) (log : List IdeMark)
    (worker : Option Nat) : Prop :=
  ∃ completed pending, log = completed ++ pending ∧ Completed completed ∧
    Handshake waitIntr diskOk (worker.getD 0) pending
      (workerStage pc request worker)

/-- The invariant, with the thread that is in the section. -/
structure HandshakeOk (worker : Option Nat) (s : IdeUse) : Prop where
  line : s.channel.irqNo = 0x2e ∨ s.channel.irqNo = 0x2f
  lock : ∃ owner, LockOk owner s.locks
  phase : ∀ thread,
    LockPhase (s.lockPc thread) (s.depth thread) (s.pc thread)
  worker_iff : ∀ thread,
    (s.pc thread).inSection = true ↔ worker = some thread
  completes : Completes s.channel.waitIntr s.channel.diskOk s.pc s.request
    s.log worker

namespace HandshakeOk

variable {drive : AtaDrive} {worker : Option Nat} {s s' : IdeUse}
  {thread : Nat}

private theorem start (initialized : IdeInitialized s) :
    HandshakeOk none s where
  line := initialized.line
  lock := by
    refine ⟨none, ?_⟩
    have locks : s.locks = lockUseInit := by
      unfold IdeUse.locks lockUseInit
      rw [initialized.lock, LockUse.mk.injEq]
      exact ⟨rfl, funext initialized.lockPc, funext initialized.depth⟩
    rw [locks]
    exact LockOk.start
  phase := by
    intro thread
    rw [initialized.pc]
    exact ⟨initialized.lockPc thread, initialized.depth thread⟩
  worker_iff := by
    intro thread
    rw [initialized.pc]
    simp [IdePc.inSection]
  completes :=
    ⟨[], [], initialized.log, .none, initialized.waitIntr,
      initialized.diskOk, rfl⟩

theorem held (ok : HandshakeOk worker s)
    (inside : (s.pc thread).inSection = true) :
    s.lockPc thread = .outside ∧ s.depth thread = 1 := by
  have phase := ok.phase thread
  cases at_pc : s.pc thread <;> rw [at_pc] at phase inside <;>
    first
      | exact phase
      | cases inside

theorem sectionMoves (ok : HandshakeOk (some thread) s) {channel : IdeChannel}
    {pc : IdePc} {request : Nat → IdeRequest} {log : List IdeMark}
    (sameLock : channel.lock = s.channel.lock)
    (sameLine : channel.irqNo = s.channel.irqNo)
    (inside : pc.inSection = true)
    (completes : Completes channel.waitIntr channel.diskOk
      (Function.update s.pc thread pc) request log (some thread)) :
    HandshakeOk (some thread)
      ⟨channel, s.lockPc, s.depth, Function.update s.pc thread pc, request,
        log⟩ := by
  have held := ok.held ((ok.worker_iff thread).mpr rfl)
  refine ⟨sameLine ▸ ok.line, ?_, ?_, ?_, completes⟩
  · obtain ⟨owner, lockOk⟩ := ok.lock
    refine ⟨owner, ?_⟩
    unfold IdeUse.locks at *
    rwa [sameLock]
  · intro tested
    by_cases same : tested = thread
    · subst tested
      simp only [Function.update_self]
      cases pc <;> first | exact held | cases inside
    · simpa [same] using ok.phase tested
  · intro tested
    by_cases same : tested = thread
    · subst tested
      simp [inside]
    · simpa [same] using ok.worker_iff tested

theorem completes_of_outsider (ok : HandshakeOk worker s)
    (other : worker ≠ some thread) (pc : IdePc) (request : IdeRequest) :
    Completes s.channel.waitIntr s.channel.diskOk
      (Function.update s.pc thread pc)
      (Function.update s.request thread request) s.log worker := by
  obtain ⟨completed, pending, split, done, handshake⟩ := ok.completes
  refine ⟨completed, pending, split, done, ?_⟩
  cases worker with
  | none =>
      exact handshake
  | some worker =>
      have different : worker ≠ thread := fun same => other (by rw [same])
      simpa [workerStage, different] using handshake

theorem lockMoves {worker' : Option Nat} (ok : HandshakeOk worker s)
    {locks : LockUse} {pc : IdePc} (lock : ∃ owner, LockOk owner locks)
    (others : ∀ other, other ≠ thread →
      locks.depth other = s.depth other ∧
        (locks.pc other = s.lockPc other ∨
          (s.lockPc other = .blocked ∧ locks.pc other = .semaDown)))
    (mine : LockPhase (locks.pc thread) (locks.depth thread) pc)
    (self : pc.inSection = true ↔ worker' = some thread)
    (rest : ∀ other, other ≠ thread →
      (worker = some other ↔ worker' = some other))
    (completes : Completes s.channel.waitIntr s.channel.diskOk
      (Function.update s.pc thread pc) s.request s.log worker') :
    HandshakeOk worker' ((s.withLocks locks).goto thread pc) := by
  refine ⟨ok.line, lock, ?_, ?_, completes⟩
  · intro tested
    by_cases same : tested = thread
    · subst tested
      simpa [IdeUse.goto, IdeUse.withLocks] using mine
    · have phase := ok.phase tested
      obtain ⟨sameDepth, samePc | ⟨wasBlocked, woken⟩⟩ := others tested same
      · simpa [IdeUse.goto, IdeUse.withLocks, same, sameDepth, samePc] using
          phase
      · simp only [IdeUse.goto, IdeUse.withLocks, Function.update_of_ne same,
          sameDepth, woken]
        rw [wasBlocked] at phase
        cases at_pc : s.pc tested <;> rw [at_pc] at phase <;>
          first
            | exact ⟨trivial, phase.2⟩
            | exact phase.elim
            | cases phase.1
  · intro tested
    by_cases same : tested = thread
    · subst tested
      simpa [IdeUse.goto, IdeUse.withLocks] using self
    · have old := ok.worker_iff tested
      rw [rest tested same] at old
      simpa [IdeUse.goto, IdeUse.withLocks, same] using old

theorem sectionQuiet (ok : HandshakeOk (some thread) s) {channel : IdeChannel}
    {pc : IdePc} {request : Nat → IdeRequest}
    (sameLock : channel.lock = s.channel.lock)
    (sameLine : channel.irqNo = s.channel.irqNo)
    (sameWait : channel.waitIntr = s.channel.waitIntr)
    (sameSema : channel.diskOk = s.channel.diskOk)
    (sameWrite : (request thread).write = (s.request thread).write)
    (inside : pc.inSection = true)
    (sameStage : pc.stage (s.request thread).write =
      (s.pc thread).stage (s.request thread).write) :
    HandshakeOk (some thread)
      ⟨channel, s.lockPc, s.depth, Function.update s.pc thread pc, request,
        s.log⟩ := by
  apply ok.sectionMoves sameLock sameLine inside
  obtain ⟨completed, pending, split, done, handshake⟩ := ok.completes
  refine ⟨completed, pending, split, done, ?_⟩
  rw [sameWait, sameSema]
  simpa [workerStage, sameWrite, sameStage] using handshake

theorem sectionAta (ok : HandshakeOk (some thread) s) (ata : AtaChannel)
    {pc : IdePc} (inside : pc.inSection = true)
    (sameStage : ∀ write, pc.stage write = (s.pc thread).stage write) :
    HandshakeOk (some thread) ((s.withAta ata).goto thread pc) :=
  ok.sectionQuiet rfl rfl rfl rfl rfl inside (sameStage _)

private theorem setWaitIntr (ok : HandshakeOk (some thread) s)
    (at_pc : s.pc thread = .setWaitIntr) :
    HandshakeOk (some thread)
      (((s.withChannel { s.channel with waitIntr := true }).mark
        (.waits thread)).goto thread .outCommand) := by
  obtain ⟨completed, pending, split, done, handshake⟩ := ok.completes
  simp only [workerStage, at_pc, IdePc.stage] at handshake
  obtain ⟨-, sema, rfl⟩ := handshake
  rw [List.append_nil] at split
  have completes : Completes true s.channel.diskOk
      (Function.update s.pc thread .outCommand) s.request
      (s.log ++ [.waits thread]) (some thread) := by
    refine ⟨completed, [.waits thread], by rw [split], done, ?_⟩
    simp only [workerStage, Function.update_self, IdePc.stage]
    exact Or.inl ⟨rfl, sema, rfl⟩
  refine ok.sectionMoves ?_ ?_ ?_ completes <;> rfl

private theorem outCommand (ok : HandshakeOk (some thread) s) (ata : AtaChannel)
    (at_pc : s.pc thread = .outCommand) :
    HandshakeOk (some thread)
      (((s.withAta ata).mark (.command thread)).goto thread
        (afterCommand (s.request thread).write)) := by
  obtain ⟨completed, pending, split, done, handshake⟩ := ok.completes
  simp only [workerStage, at_pc, IdePc.stage, Option.getD_some] at handshake
  have stage : (afterCommand (s.request thread).write).stage
      (s.request thread).write = .commanded := by
    unfold afterCommand
    cases (s.request thread).write <;> rfl
  have inside : (afterCommand (s.request thread).write).inSection = true := by
    unfold afterCommand
    cases (s.request thread).write <;> rfl
  have completes : Completes s.channel.waitIntr s.channel.diskOk
      (Function.update s.pc thread (afterCommand (s.request thread).write))
      s.request (s.log ++ [.command thread]) (some thread) := by
    refine ⟨completed, pending ++ [.command thread],
      by rw [split, List.append_assoc], done, ?_⟩
    simp only [workerStage, Function.update_self, stage]
    rcases handshake with ⟨waiting, sema, rfl⟩ | ⟨taken, sema, rfl⟩
    · exact Or.inl ⟨waiting, sema, rfl⟩
    · exact Or.inr ⟨taken, sema, Or.inr rfl⟩
  refine ok.sectionMoves ?_ ?_ inside completes <;> rfl

/-- A round of `sema_down`: the thread sleeps while the interrupt is still to
come, and else takes what the interrupt left. -/
theorem semaDown (ok : HandshakeOk (some thread) s) (drive : AtaDrive)
    (at_pc : s.pc thread = .semaDown) :
    ∃ s', ideStatement drive s thread = .ok s' ∧
      HandshakeOk (some thread) s' := by
  obtain ⟨completed, pending, split, done, handshake⟩ := ok.completes
  simp only [workerStage, at_pc, IdePc.stage, Option.getD_some] at handshake
  rcases handshake with ⟨waiting, sema, under⟩ | ⟨taken, sema, ended⟩
  · have round : semaDownRound s.channel.diskOk thread =
        .ok (⟨0, [thread]⟩, true) := by
      rw [sema]
      exact semaDownRound_taken List.not_mem_nil
    refine ⟨(s.withChannel { s.channel with diskOk := ⟨0, [thread]⟩ }).goto
      thread .blocked, ?_, ?_⟩
    · simp only [ideStatement, at_pc, round, Call.ok_bind, if_true]
      rfl
    · have completes : Completes s.channel.waitIntr ⟨0, [thread]⟩
          (Function.update s.pc thread .blocked) s.request s.log
          (some thread) := by
        refine ⟨completed, pending, split, done, ?_⟩
        simp only [workerStage, Function.update_self, IdePc.stage]
        exact ⟨waiting, rfl, under⟩
      refine ok.sectionMoves ?_ ?_ ?_ completes <;> rfl
  · have round : semaDownRound s.channel.diskOk thread =
        .ok (⟨0, []⟩, false) := by
      rw [sema]
      exact semaDownRound_free [] thread
    have stage : (afterDown (s.request thread).write).stage
        (s.request thread).write = .settled := by
      unfold afterDown
      cases (s.request thread).write <;> rfl
    have inside : (afterDown (s.request thread).write).inSection = true := by
      unfold afterDown
      cases (s.request thread).write <;> rfl
    refine ⟨((s.withChannel { s.channel with diskOk := ⟨0, []⟩ }).mark
      (.returned thread)).goto thread (afterDown (s.request thread).write),
      ?_, ?_⟩
    · simp only [ideStatement, at_pc, round, Call.ok_bind]
      rfl
    · have completes : Completes s.channel.waitIntr ⟨0, []⟩
          (Function.update s.pc thread (afterDown (s.request thread).write))
          s.request (s.log ++ [.returned thread]) (some thread) := by
        refine ⟨completed ++ pending ++ [.returned thread], [],
          by rw [List.append_nil, split], ?_, ?_⟩
        · rcases ended with rfl | rfl
          · rw [List.append_assoc]
            exact Completed.next done .late
          · rw [List.append_assoc]
            exact Completed.next done .early
        · simp only [workerStage, Function.update_self, stage]
          exact ⟨taken, rfl, rfl⟩
      refine ok.sectionMoves ?_ ?_ inside completes <;> rfl

/-- An interrupt that is accepted frees the semaphore and wakes the thread
that sleeps on it. -/
theorem accepts (ok : HandshakeOk (some thread) s) {waiters : List Nat}
    (pc : IdePc) (waiting : s.channel.waitIntr = true)
    (sema : s.channel.diskOk = ⟨0, waiters⟩) (inside : pc.inSection = true)
    (wakes : (waiters = [] ∧ pc = s.pc thread) ∨
      (waiters = [thread] ∧ pc = .semaDown))
    (completes : Completes false ⟨1, []⟩ (Function.update s.pc thread pc)
      s.request (s.log ++ [.accepted]) (some thread)) :
    ∃ s', ideInterrupt s = .ok s' ∧ HandshakeOk (some thread) s' := by
  let served : IdeChannel := { s.channel with
    waitIntr := false, diskOk := ⟨1, []⟩, ata := s.channel.ata.statusRead }
  have service : hardDiskService s.channel s.channel.irqNo =
      .ok (served, waiters.head?) := by
    simp only [hardDiskService, Call.assert_of ok.line, Call.ok_bind, waiting,
      if_true, sema, semaUp_taken]
    rcases wakes with ⟨rfl, _⟩ | ⟨rfl, _⟩ <;> rfl
  have moved : HandshakeOk (some thread)
      ⟨served, s.lockPc, s.depth, Function.update s.pc thread pc, s.request,
        s.log ++ [.accepted]⟩ := by
    refine ok.sectionMoves ?_ ?_ inside completes <;> rfl
  refine ⟨_, ?_, moved⟩
  simp only [ideInterrupt, service, Call.ok_bind, waiting, if_true]
  rcases wakes with ⟨rfl, rfl⟩ | ⟨rfl, rfl⟩
  · rw [Function.update_eq_self]
    rfl
  · rfl

/-- A disk interrupt is served whenever it comes. -/
theorem interrupt (ok : HandshakeOk worker s) :
    ∃ s', ideInterrupt s = .ok s' ∧ HandshakeOk worker s' := by
  have line := ok.line
  by_cases waiting : s.channel.waitIntr = true
  · obtain ⟨completed, pending, split, done, handshake⟩ := ok.completes
    rw [waiting] at handshake
    cases worker with
    | none =>
        exact absurd handshake.1 (by decide)
    | some thread =>
        have inside := (ok.worker_iff thread).mpr rfl
        have logged : s.log ++ [.accepted] =
            completed ++ (pending ++ [.accepted]) := by
          rw [split, List.append_assoc]
        simp only [workerStage, Option.getD_some] at handshake
        cases stage : (s.pc thread).stage (s.request thread).write with
        | settled =>
            rw [stage] at handshake
            exact absurd handshake.1 (by decide)
        | waits =>
            rw [stage] at handshake
            rcases handshake with ⟨_, sema, rfl⟩ | ⟨taken, _⟩
            · refine ok.accepts _ waiting sema inside (Or.inl ⟨rfl, rfl⟩)
                ⟨completed, _, logged, done, ?_⟩
              simp only [workerStage, Function.update_self, stage]
              exact Or.inr ⟨rfl, rfl, rfl⟩
            · cases taken
        | commanded =>
            rw [stage] at handshake
            rcases handshake with ⟨_, sema, rfl⟩ | ⟨taken, _⟩
            · refine ok.accepts _ waiting sema inside (Or.inl ⟨rfl, rfl⟩)
                ⟨completed, _, logged, done, ?_⟩
              simp only [workerStage, Function.update_self, stage]
              exact Or.inr ⟨rfl, rfl, Or.inl rfl⟩
            · cases taken
        | asleep =>
            rw [stage] at handshake
            obtain ⟨_, sema, rfl⟩ := handshake
            refine ok.accepts .semaDown waiting sema rfl
              (Or.inr ⟨rfl, rfl⟩) ⟨completed, _, logged, done, ?_⟩
            simp only [workerStage, Function.update_self, IdePc.stage]
            exact Or.inr ⟨rfl, rfl, Or.inl rfl⟩
  · have quiet : hardDiskService s.channel s.channel.irqNo =
        .ok (s.channel, none) := by
      simp only [hardDiskService, Call.assert_of line, Call.ok_bind,
        if_neg waiting, Call.pure_eq_ok]
      rfl
    refine ⟨s, ?_, ok⟩
    simp only [ideInterrupt, quiet, Call.ok_bind, if_neg waiting]
    rfl

theorem worker_ne (ok : HandshakeOk worker s)
    (outside : (s.pc thread).inSection = false) : worker ≠ some thread := by
  intro isWorker
  rw [(ok.worker_iff thread).mpr isWorker] at outside
  cases outside

/-- A thread outside the section takes a step of the lock and stays
outside. -/
theorem lockStays (ok : HandshakeOk worker s) {locks : LockUse} {pc : IdePc}
    (lock : ∃ owner, LockOk owner locks)
    (others : ∀ other, other ≠ thread →
      locks.depth other = s.depth other ∧
        (locks.pc other = s.lockPc other ∨
          (s.lockPc other = .blocked ∧ locks.pc other = .semaDown)))
    (mine : LockPhase (locks.pc thread) (locks.depth thread) pc)
    (before : (s.pc thread).inSection = false)
    (after : pc.inSection = false) :
    HandshakeOk worker ((s.withLocks locks).goto thread pc) := by
  have notWorker := ok.worker_ne before
  have completes := ok.completes_of_outsider notWorker pc (s.request thread)
  rw [Function.update_eq_self] at completes
  refine ok.lockMoves lock others mine ?_ (fun _ _ => Iff.rfl) completes
  rw [after]
  simpa using notWorker

theorem lockCalled (ok : HandshakeOk worker s) {event : LockEvent}
    {lockPc : LockPc}
    (taken : LockStep s.locks event (s.locks.goto thread lockPc))
    (shallow : Shallow s.locks event) :
    (∃ owner, LockOk owner (s.locks.goto thread lockPc)) ∧
      ∀ other, other ≠ thread →
        (s.locks.goto thread lockPc).depth other = s.depth other ∧
          ((s.locks.goto thread lockPc).pc other = s.lockPc other ∨
            (s.lockPc other = .blocked ∧
              (s.locks.goto thread lockPc).pc other = .semaDown)) := by
  obtain ⟨owner, lockOk⟩ := ok.lock
  refine ⟨lockOk.step taken shallow, ?_⟩
  intro other different
  simp [LockUse.goto, IdeUse.locks, different]

/-- A statement inside `lock_acquire` or `lock_release` keeps the lock, and
leaves the other threads alone or wakes them. -/
theorem lockRuns (ok : HandshakeOk worker s) (nonNull : thread ≠ 0)
    (inside : s.lockPc thread ≠ .outside)
    (awake : s.lockPc thread ≠ .blocked) :
    ∃ owner owner' locks, LockOk owner s.locks ∧
      lockStatement s.locks thread = .ok locks ∧ LockOk owner' locks ∧
      ∀ other, other ≠ thread →
        locks.depth other = s.depth other ∧
          (locks.pc other = s.lockPc other ∨
            (s.lockPc other = .blocked ∧ locks.pc other = .semaDown)) := by
  obtain ⟨owner, lockOk⟩ := ok.lock
  obtain ⟨locks, returned, owner', lockOk'⟩ :=
    lockOk.statement nonNull inside awake
  exact ⟨owner, owner', locks, lockOk, returned, lockOk', fun _ different =>
    lockStatement_others lockOk returned different⟩

theorem ideStatement_inLock {locks : LockUse} (drive : AtaDrive)
    (inLock : s.pc thread = .lockAcquire ∨ s.pc thread = .lockRelease)
    (returned : lockStatement s.locks thread = .ok locks)
    (still : locks.pc thread ≠ .outside) :
    ideStatement drive s thread =
      .ok ((s.withLocks locks).goto thread (s.pc thread)) := by
  rcases inLock with at_pc | at_pc
  · simp only [ideStatement, at_pc, returned, Call.ok_bind, if_neg still,
      Call.pure_eq_ok, Except.ok.injEq]
    simp [IdeUse.goto, IdeUse.withLocks, ← at_pc]
  · simp only [ideStatement, at_pc, returned, Call.ok_bind, if_neg still,
      Call.pure_eq_ok, Except.ok.injEq]
    simp [IdeUse.goto, IdeUse.withLocks, ← at_pc]

private theorem lockAcquire (ok : HandshakeOk worker s) (drive : AtaDrive)
    (nonNull : thread ≠ 0) (awake : s.lockPc thread ≠ .blocked)
    (at_pc : s.pc thread = .lockAcquire) :
    ∃ s', ideStatement drive s thread = .ok s' ∧
      ∃ worker', HandshakeOk worker' s' := by
  have phase := ok.phase thread
  rw [at_pc] at phase
  obtain ⟨acquiring, outer⟩ := phase
  have inside : s.lockPc thread ≠ .outside := by
    intro outside
    rw [outside] at acquiring
    exact acquiring
  obtain ⟨owner, owner', locks, lockOk, returned, lockOk', others⟩ :=
    ok.lockRuns nonNull inside awake
  have outside : (s.pc thread).inSection = false := by
    rw [at_pc]
    rfl
  have isOwner : ∀ tested, locks.depth tested = 1 → owner' = some tested := by
    intro tested once
    apply lockOk'.owner_eq
    intro outsider
    rw [outsider.1] at once
    cases once
  rcases lockStatement_acquiring lockOk nonNull acquiring awake outer returned
    with ⟨entered, once⟩ | ⟨stays, notYet⟩
  · refine ⟨(s.withLocks locks).goto thread .selectHd, ?_, some thread, ?_⟩
    · simp only [ideStatement, at_pc, returned, Call.ok_bind, entered,
        if_true]
      rfl
    · have alone : worker = none := by
        cases worker with
        | none =>
            rfl
        | some other =>
            have different : other ≠ thread := fun same =>
              ok.worker_ne outside (by rw [same])
            have held := (ok.held ((ok.worker_iff other).mpr rfl)).2
            rw [← (others other different).1] at held
            have same := (isOwner other held).symm.trans (isOwner thread once)
            exact absurd (Option.some.inj same) different
      subst alone
      obtain ⟨completed, pending, split, done, handshake⟩ := ok.completes
      refine ok.lockMoves ⟨owner', lockOk'⟩ others ⟨entered, once⟩ ?_ ?_ ?_
      · exact iff_of_true rfl rfl
      · intro other different
        simp [different.symm]
      · refine ⟨completed, pending, split, done, ?_⟩
        simp only [workerStage, Function.update_self, IdePc.stage]
        exact handshake
  · have still : locks.pc thread ≠ .outside := by
      intro left
      rw [left] at stays
      exact stays
    refine ⟨_, ideStatement_inLock drive (Or.inl at_pc) returned still, worker,
      ok.lockStays ⟨owner', lockOk'⟩ others ?_ outside outside⟩
    rw [at_pc]
    exact ⟨stays, notYet⟩

private theorem lockRelease (ok : HandshakeOk worker s) (drive : AtaDrive)
    (nonNull : thread ≠ 0) (awake : s.lockPc thread ≠ .blocked)
    (at_pc : s.pc thread = .lockRelease) :
    ∃ s', ideStatement drive s thread = .ok s' ∧
      ∃ worker', HandshakeOk worker' s' := by
  have phase := ok.phase thread
  rw [at_pc] at phase
  have inside : s.lockPc thread ≠ .outside := by
    intro outside
    rw [outside] at phase
    exact phase
  obtain ⟨owner, owner', locks, lockOk, returned, lockOk', others⟩ :=
    ok.lockRuns nonNull inside awake
  have outside : (s.pc thread).inSection = false := by
    rw [at_pc]
    rfl
  rcases lockStatement_releasing lockOk phase returned
    with ⟨left, outer⟩ | stays
  · refine ⟨(s.withLocks locks).goto thread .outside, ?_, worker, ?_⟩
    · simp only [ideStatement, at_pc, returned, Call.ok_bind, left, if_true]
      rfl
    · exact ok.lockStays ⟨owner', lockOk'⟩ others ⟨left, outer⟩ outside rfl
  · have still : locks.pc thread ≠ .outside := by
      intro left
      rw [left] at stays
      exact stays
    refine ⟨_, ideStatement_inLock drive (Or.inr at_pc) returned still, worker,
      ok.lockStays ⟨owner', lockOk'⟩ others ?_ outside outside⟩
    rw [at_pc]
    exact stays

theorem whileTest (ok : HandshakeOk (some thread) s) (drive : AtaDrive)
    (nonNull : thread ≠ 0) (at_pc : s.pc thread = .whileTest) :
    ∃ s', ideStatement drive s thread = .ok s' ∧
      ∃ worker', HandshakeOk worker' s' := by
  by_cases more : (s.request thread).sectorDone < (s.request thread).secCnt
  · simp only [ideStatement, at_pc, if_pos more]
    have settled : ∀ write, IdePc.selectSector.stage write =
        (s.pc thread).stage write := by
      intro write
      rw [at_pc]
      rfl
    exact ⟨_, rfl, some thread, ok.sectionAta s.channel.ata rfl settled⟩
  · simp only [ideStatement, at_pc, if_neg more]
    obtain ⟨outer, once⟩ := ok.held
      (show (s.pc thread).inSection = true by rw [at_pc]; rfl)
    have positive : 0 < s.locks.depth thread := by
      rw [show s.locks.depth thread = 1 from once]
      exact Nat.zero_lt_one
    obtain ⟨lock, others⟩ := ok.lockCalled
      (LockStep.release nonNull outer positive) trivial
    obtain ⟨completed, pending, split, done, handshake⟩ := ok.completes
    simp only [workerStage, at_pc, IdePc.stage] at handshake
    refine ⟨_, rfl, none, ok.lockMoves lock others ?_ ?_ ?_
      ⟨completed, pending, split, done, handshake⟩⟩
    · simpa [LockUse.goto, IdeUse.locks, LockPhase, Releasing] using once
    · exact iff_of_false (by decide) (by simp)
    · intro other different
      simp [different.symm]

theorem moveData (ok : HandshakeOk (some thread) s) (drive : AtaDrive)
    (at_pc : s.pc thread = .moveData) :
    ∃ s', ideStatement drive s thread = .ok s' ∧
      HandshakeOk (some thread) s' := by
  cases write : (s.request thread).write with
  | true =>
      simp only [ideStatement, at_pc, write]
      refine ⟨_, rfl, ok.sectionQuiet rfl rfl rfl rfl rfl rfl ?_⟩
      rw [at_pc, write]
      rfl
  | false =>
      simp only [ideStatement, at_pc, write]
      refine ⟨_, rfl, ok.sectionQuiet rfl rfl rfl rfl rfl rfl ?_⟩
      rw [at_pc, write]
      rfl

/-- Every statement returns, but for the assertion on `sec_cnt`. -/
theorem statement (ok : HandshakeOk worker s) (drive : AtaDrive)
    (runs : s.Runs thread)
    (positive : s.pc thread = .assertSecCnt → 0 < (s.request thread).secCnt) :
    ∃ s', ideStatement drive s thread = .ok s' ∧
      ∃ worker', HandshakeOk worker' s' := by
  obtain ⟨nonNull, notOutside, notBlocked, notFailed, awake⟩ := runs
  have working (inside : (s.pc thread).inSection = true) :
      HandshakeOk (some thread) s := by
    rwa [(ok.worker_iff thread).mp inside] at ok
  cases at_pc : s.pc thread with
  | outside =>
      exact absurd at_pc notOutside
  | blocked =>
      exact absurd at_pc notBlocked
  | failed =>
      exact absurd at_pc notFailed
  | assertSecCnt =>
      have phase := ok.phase thread
      rw [at_pc] at phase
      obtain ⟨outer, none⟩ := phase
      obtain ⟨lock, others⟩ := ok.lockCalled
        (LockStep.acquire nonNull outer)
        (show s.locks.depth thread + 1 < 4294967296 by
          rw [show s.locks.depth thread = 0 from none]
          decide)
      simp only [ideStatement, at_pc, Call.assert_of (positive at_pc),
        Call.ok_bind]
      refine ⟨_, rfl, worker, ok.lockStays lock others ?_ ?_ rfl⟩
      · simpa [LockUse.goto, IdeUse.locks, LockPhase, Acquiring] using none
      · rw [at_pc]
        rfl
  | lockAcquire =>
      exact ok.lockAcquire drive nonNull awake at_pc
  | selectHd =>
      have ok := working (by rw [at_pc]; rfl)
      simp only [ideStatement, at_pc]
      exact ⟨_, rfl, some thread, ok.sectionAta _ rfl fun _ => by
        rw [at_pc]
        rfl⟩
  | whileTest =>
      have ok := working (by rw [at_pc]; rfl)
      exact ok.whileTest drive nonNull at_pc
  | selectSector =>
      have ok := working (by rw [at_pc]; rfl)
      simp only [ideStatement, at_pc]
      exact ⟨_, rfl, some thread, ok.sectionAta _ rfl fun _ => by
        rw [at_pc]
        rfl⟩
  | setWaitIntr =>
      have ok := working (by rw [at_pc]; rfl)
      simp only [ideStatement, at_pc]
      exact ⟨_, rfl, some thread, ok.setWaitIntr at_pc⟩
  | outCommand =>
      have ok := working (by rw [at_pc]; rfl)
      simp only [ideStatement, at_pc]
      exact ⟨_, rfl, some thread, ok.outCommand _ at_pc⟩
  | semaDown =>
      have ok := working (by rw [at_pc]; rfl)
      obtain ⟨s', returned, next⟩ := ok.semaDown drive at_pc
      exact ⟨s', returned, some thread, next⟩
  | busyWait rounds =>
      have ok := working (by rw [at_pc]; rfl)
      have waiting : ∀ write, (IdePc.busyWait 0).stage write =
          (s.pc thread).stage write := by
        intro write
        rw [at_pc]
        rfl
      cases rounds with
      | zero =>
          simp only [ideStatement, at_pc]
          exact ⟨_, rfl, some thread, ok.sectionAta s.channel.ata rfl waiting⟩
      | succ rounds =>
          simp only [ideStatement, at_pc]
          split
          · exact ⟨_, rfl, some thread, ok.sectionAta _ rfl waiting⟩
          · exact ⟨_, rfl, some thread, ok.sectionAta _ rfl waiting⟩
  | readDrq =>
      have ok := working (by rw [at_pc]; rfl)
      have waiting : ∀ write, IdePc.readDrq.stage write =
          (s.pc thread).stage write := by
        intro write
        rw [at_pc]
      simp only [ideStatement, at_pc]
      split
      · exact ⟨_, rfl, some thread, ok.sectionAta _ rfl waiting⟩
      · exact ⟨_, rfl, some thread, ok.sectionAta _ rfl waiting⟩
  | moveData =>
      have ok := working (by rw [at_pc]; rfl)
      obtain ⟨s', returned, next⟩ := ok.moveData drive at_pc
      exact ⟨s', returned, some thread, next⟩
  | countSectors =>
      have ok := working (by rw [at_pc]; rfl)
      simp only [ideStatement, at_pc]
      refine ⟨_, rfl, some thread,
        ok.sectionQuiet rfl rfl rfl rfl ?_ rfl ?_⟩
      · simp [IdeUse.setDone]
      · rw [at_pc]
        rfl
  | lockRelease =>
      exact ok.lockRelease drive nonNull awake at_pc

private theorem called (ok : HandshakeOk worker s) (request : IdeRequest)
    (at_pc : s.pc thread = .outside) :
    HandshakeOk worker
      { s.goto thread .assertSecCnt with
        request := Function.update s.request thread request } := by
  have notWorker := ok.worker_ne
    (show (s.pc thread).inSection = false by rw [at_pc]; rfl)
  refine ⟨ok.line, ok.lock, ?_, ?_,
    ok.completes_of_outsider notWorker .assertSecCnt request⟩
  · intro tested
    have phase := ok.phase tested
    by_cases same : tested = thread
    · subst tested
      rw [at_pc] at phase
      simp only [IdeUse.goto, Function.update_self]
      exact phase
    · simpa [IdeUse.goto, same] using phase
  · intro tested
    have old := ok.worker_iff tested
    by_cases same : tested = thread
    · subst tested
      simpa [IdeUse.goto, IdePc.inSection] using notWorker
    · simpa [IdeUse.goto, same] using old

theorem step (ok : HandshakeOk worker s) {event : IdeEvent}
    (taken : IdeStep drive s event s') :
    ∃ worker', HandshakeOk worker' s' := by
  cases taken with
  | call nonNull at_pc fresh =>
      exact ⟨worker, ok.called _ at_pc⟩
  | @statement _ thread runs returned =>
      have positive : s.pc thread = .assertSecCnt →
          0 < (s.request thread).secCnt := by
        intro at_pc
        simp only [ideStatement, at_pc, Call.bind_eq_ok_iff,
          Call.assert_eq_ok_iff] at returned
        obtain ⟨_, positive, _⟩ := returned
        exact positive
      obtain ⟨s'', returned', next⟩ := ok.statement drive runs positive
      rw [returned'] at returned
      cases returned
      exact next
  | interrupt served =>
      obtain ⟨s'', served', next⟩ := ok.interrupt
      rw [served'] at served
      cases served
      exact ⟨worker, next⟩

end HandshakeOk

theorem Handshake.underway {waitIntr : Bool} {diskOk : Semaphore (List Nat)}
    {thread : Nat} {pending : List IdeMark} {stage : IdeStage}
    (handshake : Handshake waitIntr diskOk thread pending stage) :
    ∃ rest, CommandMarks thread (pending ++ rest) ∧ rest ≠ [] := by
  cases stage with
  | settled =>
      obtain ⟨-, -, rfl⟩ := handshake
      exact ⟨_, .late, List.cons_ne_nil _ _⟩
  | waits =>
      rcases handshake with ⟨-, -, rfl⟩ | ⟨-, -, rfl⟩
      · exact ⟨_, .late, List.cons_ne_nil _ _⟩
      · exact ⟨_, .early, List.cons_ne_nil _ _⟩
  | commanded =>
      rcases handshake with ⟨-, -, rfl⟩ | ⟨-, -, rfl | rfl⟩
      · exact ⟨_, .late, List.cons_ne_nil _ _⟩
      · exact ⟨_, .late, List.cons_ne_nil _ _⟩
      · exact ⟨_, .early, List.cons_ne_nil _ _⟩
  | asleep =>
      obtain ⟨-, -, rfl⟩ := handshake
      exact ⟨_, .late, List.cons_ne_nil _ _⟩

/-- The flag and the semaphore never hold more than one interrupt, and at most
one thread waits for it. -/
theorem Handshake.atMostOne {waitIntr : Bool}
    {diskOk : Semaphore (List Nat)} {thread : Nat} {pending : List IdeMark}
    {stage : IdeStage}
    (handshake : Handshake waitIntr diskOk thread pending stage) :
    diskOk.value + (if waitIntr then 1 else 0) ≤ 1 ∧
      diskOk.waiterQueue.length ≤ 1 := by
  cases stage with
  | settled =>
      obtain ⟨rfl, rfl, -⟩ := handshake
      decide
  | waits =>
      rcases handshake with ⟨rfl, rfl, -⟩ | ⟨rfl, rfl, -⟩
      · decide
      · decide
  | commanded =>
      rcases handshake with ⟨rfl, rfl, -⟩ | ⟨rfl, rfl, -⟩
      · decide
      · decide
  | asleep =>
      obtain ⟨rfl, rfl, -⟩ := handshake
      exact ⟨le_refl 1, le_refl 1⟩

/-! ## Runs -/

/-- After `ide_init`, whatever the threads that read and write do and whenever
interrupts come: the flag and the semaphore together hold one interrupt at
most, `hard_disk_service` returns, at most one thread waits on `disk_ok`, and
`sema_down` returns once for each command, for one interrupt that was accepted
after `wait_intr` was set for that command by the thread that returns. -/
theorem ide_handshake {drive : AtaDrive} {first last : IdeUse}
    {trace : List (IdeEvent × IdeUse)}
    (initialized : IdeInitialized first)
    (run : Run (IdeStep drive) first trace last) :
    last.channel.diskOk.value + (if last.channel.waitIntr then 1 else 0) ≤ 1 ∧
      (∃ next, ideInterrupt last = .ok next) ∧
      (last.channel.diskOk.waiterQueue.length ≤ 1 ∧
        ∀ thread other, last.pc thread = .blocked →
          last.pc other = .blocked → thread = other) ∧
      ∃ completed pending, last.log = completed ++ pending ∧
        Completed completed ∧
        ∃ thread rest, CommandMarks thread (pending ++ rest) ∧
          rest ≠ [] := by
  have preserved : ∀ state event next,
      (∃ worker, HandshakeOk worker state) → IdeStep drive state event next →
      ∃ worker, HandshakeOk worker next := by
    intro state event next held taken
    obtain ⟨worker, ok⟩ := held
    exact ok.step taken
  obtain ⟨worker, ok⟩ :=
    run.invariant ⟨none, HandshakeOk.start initialized⟩ preserved
  obtain ⟨next, served, -⟩ := ok.interrupt
  obtain ⟨completed, pending, split, done, handshake⟩ := ok.completes
  obtain ⟨rest, marks, notEnded⟩ := handshake.underway
  refine ⟨handshake.atMostOne.1, ⟨next, served⟩,
    ⟨handshake.atMostOne.2, ?_⟩,
    ⟨completed, pending, split, done, _, rest, marks, notEnded⟩⟩
  intro thread other asleep otherAsleep
  have isWorker := (ok.worker_iff thread).mp (by rw [asleep]; rfl)
  have otherIsWorker := (ok.worker_iff other).mp (by rw [otherAsleep]; rfl)
  exact Option.some.inj (isWorker.symm.trans otherIsWorker)

def blockUse : IdeUse where
  channel := blockChannel
  lockPc := fun _ => .outside
  depth := fun _ => 0
  pc := fun _ => .outside
  request := fun _ => ⟨false, 0, 0, 0, 0, 0⟩
  log := []

private theorem blockUse_initialized : IdeInitialized blockUse := by
  constructor <;> first | exact Or.inl rfl | exact fun _ => rfl | rfl

private def readBegun : List IdeEvent :=
  .call 1 ⟨false, 0, 7, 0xc1000000, 1, 0⟩ :: List.replicate 9 (.statement 1)

/-- The statement after a read with two interrupts. -/
theorem ide_handshake_read :
    ∃ trace last, Run (IdeStep readyDrive) blockUse trace last ∧
      last.log =
        [.waits 1, .command 1, .accepted, .returned 1] ∧
      last.channel.diskOk.value +
        (if last.channel.waitIntr then 1 else 0) ≤ 1 := by
  let events := readBegun ++
    [.statement 1, .statement 1, .statement 1, .interrupt, .interrupt,
      .statement 1]
  obtain ⟨last, replayed, log⟩ : ∃ last,
      replay (ideStepOf readyDrive) events blockUse = some last ∧
        last.log = [.waits 1, .command 1, .accepted, .returned 1] :=
    Option.map_eq_some_iff.mp (by decide +kernel)
  obtain ⟨trace, run⟩ := Run.of_replay (ideStepOf_sound readyDrive) replayed
  exact ⟨trace, last, run, log, (ide_handshake blockUse_initialized run).1⟩

/-- An interrupt between the two statements of `channel_control_cmd` is the
one that `sema_down` returns for, although it came before the command. -/
theorem ide_interrupt_before_command :
    ∃ trace last, Run (IdeStep readyDrive) blockUse trace last ∧
      last.log = [.waits 1, .accepted, .command 1, .returned 1] := by
  let events := readBegun ++
    [.statement 1, .interrupt, .statement 1, .statement 1]
  obtain ⟨last, replayed, log⟩ : ∃ last,
      replay (ideStepOf readyDrive) events blockUse = some last ∧
        last.log = [.waits 1, .accepted, .command 1, .returned 1] :=
    Option.map_eq_some_iff.mp (by decide +kernel)
  obtain ⟨trace, run⟩ := Run.of_replay (ideStepOf_sound readyDrive) replayed
  exact ⟨trace, last, run, log⟩

end Simos
