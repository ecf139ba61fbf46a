import Simos.Library.Overtaking
import Simos.Thread.TimeSlices

/-!
# A ready task is not starved

A task in the ready queue waits for the current task, for the tasks in front
of it and for the blocked ones, which are woken to the front.  Nobody else can
come before it, and every clock interrupt costs one of those tasks a tick of
its slice.  So the slices of these tasks bound the clock interrupts that the
task still waits for, whatever the tasks do in the meantime.
-/

namespace Simos

open Simos.Library

/-! ## What the functions do to the slices -/

@[simp]
theorem Threads.setStatus_ticks (s : Threads) (task other : Nat)
    (status : TaskStatus) :
    ((s.setStatus task status).pcb other).ticks = (s.pcb other).ticks := by
  by_cases same : other = task
  · simp [Threads.setStatus, Threads.setPcb, same]
  · simp [Threads.setStatus, Threads.setPcb, same]

private theorem threadUnblock_ticks {s s' : Threads} {wakeTask : Nat}
    (returned : threadUnblock s wakeTask = .ok s') (task : Nat) :
    (s'.pcb task).ticks = (s.pcb task).ticks := by
  simp only [threadUnblock, Call.bind_eq_ok_iff, Call.assert_eq_ok_iff,
    exists_const] at returned
  obtain ⟨_, returned⟩ := returned
  by_cases notReady : (s.pcb wakeTask).status ≠ .taskReady
  · simp only [if_pos notReady, Threads.readyPush, Call.bind_eq_ok_iff,
      Call.pure_eq_ok, Except.ok.injEq, Prod.exists] at returned
    obtain ⟨_, _, _, ⟨nodes, queue, _, rfl⟩, rfl⟩ := returned
    exact Threads.setStatus_ticks _ _ _ _
  · rw [if_neg notReady, Call.pure_eq_ok, Except.ok.injEq] at returned
    rw [returned]

private theorem wakeWaiter_ticks {s s' : Threads} {sema : Nat}
    (returned : wakeWaiter s sema = .ok s') (task : Nat) :
    (s'.pcb task).ticks = (s.pcb task).ticks := by
  unfold wakeWaiter at returned
  by_cases empty : queueEmpty (s.semaphores sema).waiterQueue = true
  · rw [if_pos empty, Call.pure_eq_ok, Except.ok.injEq] at returned
    rw [returned]
  · rw [if_neg empty] at returned
    exact threadUnblock_ticks returned task

private theorem scheduleIdle_ticks {s s' : Threads}
    (returned : scheduleIdle s = .ok s') (task : Nat) :
    (s'.pcb task).ticks = (s.pcb task).ticks := by
  unfold scheduleIdle at returned
  by_cases empty : s.threadReadyQueue.queueLen = 0
  · rw [if_pos empty] at returned
    exact threadUnblock_ticks returned task
  · rw [if_neg empty, Call.pure_eq_ok, Except.ok.injEq] at returned
    rw [returned]

private theorem scheduleNext_ticks {s s' : Threads}
    (returned : scheduleNext s = .ok s') (task : Nat) :
    (s'.pcb task).ticks = (s.pcb task).ticks := by
  have pcb := congrFun (scheduleNext_pcb returned) task
  rw [pcb]
  by_cases same : task = s'.currentTask
  · simp [same]
  · simp [same]

/-- `schedule` loads the slice of the running task and no other. -/
theorem schedule_ticks {s s' : Threads} (returned : schedule s = .ok s')
    (task : Nat) :
    (s'.pcb task).ticks = (s.pcb task).ticks ∨
      task = s.currentTask ∧ (s.pcb task).status = .taskRunning ∧
        (s'.pcb task).ticks = (s.pcb task).priority % 256 := by
  simp only [schedule, Call.bind_eq_ok_iff] at returned
  obtain ⟨first, requeued, second, checked, dispatched⟩ := returned
  rw [scheduleNext_ticks dispatched, scheduleIdle_ticks checked]
  by_cases running : (s.pcb s.currentTask).status = .taskRunning
  · rw [scheduleCurrent_pcb running requeued]
    by_cases same : task = s.currentTask
    · right
      subst same
      exact ⟨rfl, running, by simp⟩
    · left
      rw [Function.update_of_ne same]
  · left
    rw [scheduleCurrent, if_neg running, Call.pure_eq_ok,
      Except.ok.injEq] at requeued
    rw [requeued]

private theorem pcbInit_ticks {s s' : Threads} {pthread : Nat} {prio : Int}
    (returned : pcbInit s pthread prio = .ok s') :
    (s'.pcb pthread).ticks = (prio % 256).toNat := by
  simp only [pcbInit, Call.bind_eq_ok_iff, Call.pure_eq_ok, Except.ok.injEq,
    Prod.exists] at returned
  obtain ⟨_, _, _, _, _, rfl⟩ := returned
  simp [Threads.setPcb]

/-- A new thread starts with a slice as long as its priority says, and the
other slices stay. -/
theorem threadStart_ticks {s s' : Threads} {prio : Int}
    {function funcArgc task : Nat}
    (returned : threadStart s prio function funcArgc = .ok (task, s')) :
    (s'.pcb task).ticks = (prio % 256).toNat ∧
      ∀ other, other ≠ task → s'.pcb other = s.pcb other := by
  simp only [threadStart, Call.bind_eq_ok_iff, Call.pure_eq_ok,
    Except.ok.injEq, Prod.mk.injEq] at returned
  obtain ⟨⟨thread, mm⟩, _, s₁, initialized, _, _, s₂, entered, s₃, listed,
    rfl, rfl⟩ := returned
  have others := (pcbInit_newPcb initialized).threadCreat function funcArgc
    |>.others
  simp only [totalListAdd, Call.bind_eq_ok_iff, Call.assert_eq_ok_iff,
    Call.pure_eq_ok, Except.ok.injEq, exists_const] at listed
  obtain ⟨_, _, _, rfl⟩ := listed
  rw [(readyIn_pcb entered).1]
  refine ⟨?_, others⟩
  rw [← pcbInit_ticks initialized]
  simp [threadCreat, Threads.setPcb]

/-! ## How the ready queue goes on -/

namespace SchedShape

variable {b b' : Board} {s s' : Threads} {task : Nat}

/-- The ready queue of the board is what the queue of the kernel holds. -/
theorem ready_unique (shape : SchedShape b s) (shape' : SchedShape b' s')
    (sameNodes : s'.nodes = s.nodes)
    (sameQueue : s'.threadReadyQueue = s.threadReadyQueue) :
    b'.ready = b.ready := by
  have holds := shape.linked.ready
  have holds' := shape'.linked.ready
  rw [sameNodes, sameQueue] at holds'
  exact dispatchNode_injective.list_map (holds'.items_unique holds)

/-- When a task other than `task` gets the processor, the ready queue with the
tasks that came to its end has lost its front. -/
theorem schedule_ready (shape : SchedShape b s)
    (idle : s.idleThread ∈ b.tasks) (ready : task ∈ b.ready)
    (returned : schedule s = .ok s') (shape' : SchedShape b' s')
    (notNext : s'.currentTask ≠ task) :
    ∃ front, front ≠ task ∧
      front :: b'.ready = (b.requeue s.currentTask).ready := by
  have inQueue : task ∈ (b.requeue s.currentTask).ready := by
    unfold Board.requeue
    split
    · exact List.mem_append_left _ ready
    · exact ready
  have nonempty := List.ne_nil_of_mem inQueue
  obtain ⟨d, returned', moved, onCpu⟩ :=
    shape.schedule_ok idle fun empty => absurd empty nonempty
  rw [returned', Except.ok.injEq] at returned
  subst returned
  have ready' := moved.ready_unique shape' rfl rfl
  obtain ⟨front, rest, split⟩ := List.exists_cons_of_ne_nil nonempty
  have awake : (b.requeue s.currentTask).wakeIdle s.idleThread =
      b.requeue s.currentTask := if_neg nonempty
  have dispatched : b.schedule s.currentTask s.idleThread =
      { b.requeue s.currentTask with
        place := Function.update (b.requeue s.currentTask).place front .onCpu
        ready := rest } := by
    rw [Board.schedule, awake, Board.dispatch, split]
  rw [dispatched] at ready' moved
  refine ⟨front, ?_, ?_⟩
  · -- the front is what the processor got
    have inside : front ∈ b.tasks := by
      have tidy := shape.scheduleCurrent_ok
      obtain ⟨_, _, requeued, _⟩ := tidy
      have member := (requeued.tidy.mem_ready front).mp (by simp [split])
      simpa using member.1
    have isNext := moved.onCpu front (by simpa using inside)
      (Function.update_self ..)
    intro same
    exact notNext (isNext.symm.trans same)
  · rw [ready', split]

end SchedShape

/-- What a function has done when it enters `schedule`. -/
structure EntryKept (b : Board) (s : Threads) (b' : Board)
    (entry : Threads) : Prop where
  ready : ∃ later, b'.ready = b.ready ++ later
  current : entry.currentTask = s.currentTask
  ticks : ∀ task, (entry.pcb task).ticks = (s.pcb task).ticks

theorem countTick_ticks (s : Threads) (task : Nat) :
    ((countTick s).pcb task).ticks = (s.pcb task).ticks := by
  by_cases same : task = s.currentTask
  · simp [countTick, Threads.setPcb, same]
  · simp [countTick, Threads.setPcb, same]

namespace SchedOk

variable {b b' : Board} {s s' entry : Threads} {task : Nat}

private theorem marked_kept (ok : SchedOk b s) (status : TaskStatus)
    {waiters : Nat → Nat} (shape : SchedShape b'
      (({ s with waiters } : Threads).setStatus s.currentTask status)) :
    EntryKept b s b'
      (({ s with waiters } : Threads).setStatus s.currentTask status) := by
  constructor
  case ready => exact ⟨[], by
    rw [ok.shape.ready_unique shape rfl rfl, List.append_nil]⟩
  case current => rfl
  case ticks => exact fun task => Threads.setStatus_ticks _ _ _ _

/-- Before `schedule` is called, at most the current task comes to the end of
the ready queue, and no slice changes. -/
theorem enters_kept (ok : SchedOk b s) (enters : EntersSchedule s entry)
    (shape : SchedShape b' entry) : EntryKept b s b' entry := by
  have running := ok.running
  cases enters with
  | clockService _ _ =>
      constructor
      case ready => exact ⟨[], by
        rw [ok.shape.ready_unique shape rfl rfl, List.append_nil]⟩
      case current => rfl
      case ticks => exact countTick_ticks s
  | threadYield _ yielded =>
      obtain ⟨d, yielded', sameCurrent, moved⟩ :=
        ok.shape.yieldCurrent_ok running
      rw [yielded', Except.ok.injEq] at yielded
      subst yielded
      constructor
      case ready =>
        exact ⟨[s.currentTask], moved.ready_unique shape rfl rfl⟩
      case current => exact sameCurrent
      case ticks =>
        intro task
        simp only [yieldCurrent, Call.bind_eq_ok_iff, Call.pure_eq_ok,
          Except.ok.injEq] at yielded'
        obtain ⟨_, _, queued, entered, same⟩ := yielded'
        rw [← same, Threads.setStatus_ticks, (readyIn_pcb entered).1]
  | @semaDown sema waiting _ tests _ entered blocked =>
      obtain ⟨nodes, queue, entered', moved⟩ :=
        ok.shape.enterWaiterQueue_ok running sema
      rw [entered', Except.ok.injEq] at entered
      subst waiting
      rw [blockCurrent_taskBlocked, Except.ok.injEq] at blocked
      subst entry
      constructor
      case ready => exact ⟨[], by
        rw [moved.ready_unique shape rfl rfl, List.append_nil]
        rfl⟩
      case current => rfl
      case ticks => exact fun task => Threads.setStatus_ticks _ _ _ _
  | @ioqWait waiter waiting _ calls noted blocked =>
      simp only [registerWaiter, Call.bind_eq_ok_iff, Call.assert_eq_ok_iff,
        Call.pure_eq_ok, Except.ok.injEq, exists_const] at noted
      obtain ⟨free, rfl⟩ := noted
      rw [blockCurrent_taskBlocked, Except.ok.injEq] at blocked
      subst entry
      exact ok.marked_kept .taskBlocked shape
  | cpuIdle _ idle blocked =>
      rw [blockCurrent_taskBlocked, Except.ok.injEq] at blocked
      subst entry
      exact ok.marked_kept .taskBlocked shape

end SchedOk

/-! ## Steps with and without a switch -/

/-- The steps after which the current task still has the processor. -/
inductive KeepsCpu (s : Threads) : ThreadEvent → Threads → Prop
  | threadStart {s' : Threads} {prio : Int} {function funcArgc task : Nat} :
      Simos.threadStart s prio function funcArgc = .ok (task, s') →
      KeepsCpu s (.threadStart task) s'
  | clockService :
      ((countTick s).pcb s.currentTask).ticks ≠ 0 →
      KeepsCpu s .clockService
        ((countTick s).setPcb s.currentTask
          { (countTick s).pcb s.currentTask with
            ticks := ((countTick s).pcb s.currentTask).ticks - 1 })
  | semaDown {sema : Nat} :
      TestsSemaphore s sema → (s.semaphores sema).value ≠ 0 →
      KeepsCpu s (.semaDown sema)
        (Threads.setSemaphore
          { s with resume := Function.update s.resume s.currentTask .ownCode }
          sema { s.semaphores sema with
            value := (s.semaphores sema).value - 1 })
  | semaUp {s' : Threads} {sema : Nat} :
      semaUpTask s sema = .ok s' → KeepsCpu s (.semaUp sema) s'
  | ioqWakeup {s' : Threads} {waiter : Nat} :
      Simos.ioqWakeup s waiter = .ok s' → KeepsCpu s (.ioqWakeup waiter) s'

/-- Every step switches the task or keeps it; a clock interrupt switches it
when its slice is used up. -/
theorem ThreadStep.switches_or_keeps {s s' : Threads} {event : ThreadEvent}
    (taken : ThreadStep s event s') :
    (∃ entry, EntersSchedule s entry ∧ schedule entry = .ok s' ∧
      event.started = [] ∧ (event = .clockService → entry = countTick s)) ∨
        KeepsCpu s event s' := by
  cases taken with
  | threadStart _ returned =>
      exact Or.inr (.threadStart returned)
  | clockService ownCode returned =>
      have sameTask : (countTick s).currentTask = s.currentTask := rfl
      simp only [Simos.clockService, sameTask, Call.bind_eq_ok_iff,
        Call.assert_eq_ok_iff, exists_const] at returned
      obtain ⟨_, returned⟩ := returned
      by_cases zero : ((countTick s).pcb s.currentTask).ticks = 0
      · rw [if_pos zero] at returned
        exact Or.inl ⟨_, .clockService ownCode zero, returned, rfl,
          fun _ => rfl⟩
      · rw [if_neg zero, Call.pure_eq_ok, Except.ok.injEq] at returned
        exact Or.inr (returned ▸ .clockService zero)
  | threadYield calls returned =>
      simp only [Simos.threadYield, Call.bind_eq_ok_iff] at returned
      obtain ⟨entry, yielded, returned⟩ := returned
      exact Or.inl ⟨_, .threadYield calls yielded, returned, rfl,
          fun same => ThreadEvent.noConfusion same⟩
  | @semaDown _ sema tests returned =>
      unfold semaDownLoop at returned
      by_cases zero : (s.semaphores sema).value = 0
      · simp only [if_pos zero, threadBlock, Call.bind_eq_ok_iff] at returned
        obtain ⟨waiting, entered, entry, blocked, returned⟩ := returned
        exact Or.inl ⟨_, .semaDown tests zero entered blocked, returned,
          rfl, fun same => ThreadEvent.noConfusion same⟩
      · simp only [if_neg zero, Call.bind_eq_ok_iff, Call.assert_eq_ok_iff,
          Call.pure_eq_ok, Except.ok.injEq, exists_const] at returned
        obtain ⟨_, rfl⟩ := returned
        exact Or.inr (.semaDown tests zero)
  | semaUp _ returned =>
      exact Or.inr (.semaUp returned)
  | ioqWait calls returned =>
      simp only [Simos.ioqWait, threadBlock, Call.bind_eq_ok_iff] at returned
      obtain ⟨waiting, noted, entry, blocked, returned⟩ := returned
      exact Or.inl ⟨_, .ioqWait calls noted blocked, returned, rfl,
          fun same => ThreadEvent.noConfusion same⟩
  | ioqWakeup _ returned =>
      exact Or.inr (.ioqWakeup returned)
  | cpuIdle ownCode idle returned =>
      simp only [threadBlock, Call.bind_eq_ok_iff] at returned
      obtain ⟨entry, blocked, returned⟩ := returned
      exact Or.inl ⟨_, .cpuIdle ownCode idle blocked, returned, rfl,
          fun same => ThreadEvent.noConfusion same⟩

/-! ## The turns that a ready task waits for -/

private def Threads.slice (s : Threads) (task : Nat) : Nat :=
  (s.pcb task).ticks

private def turnsBefore (b : Board) (s : Threads) (task : Nat) : Nat :=
  delay s.slice (overtakers b.tasks.toFinset b.ready task)

def ThreadEvent.clockInterrupts : ThreadEvent → Nat
  | .clockService => 1
  | .threadStart _ | .threadYield | .semaDown _ | .semaUp _ | .ioqWait _
  | .ioqWakeup _ | .cpuIdle => 0

/-- Those who came to the end of the ready queue stand behind the task, and no
other slice has grown. -/
theorem turnsBefore_le {b b' : Board} {s s' : Threads} {task : Nat}
    (later : List Nat)
    (tasks : ∀ other ∈ b'.tasks, other ∈ b.tasks ∨ other ∈ later)
    (behindLater : behind b'.ready task = behind b.ready task ++ later)
    (ticks : ∀ other, other ∉ later →
      (s'.pcb other).ticks ≤ (s.pcb other).ticks) :
    turnsBefore b' s' task ≤ turnsBefore b s task := by
  apply delay_le
  · intro other member
    simp only [mem_overtakers, List.mem_toFinset, behindLater,
      List.mem_append, not_or] at member ⊢
    exact ⟨(tasks other member.1).resolve_right member.2.2, member.2.1⟩
  · intro other member
    simp only [mem_overtakers, behindLater, List.mem_append, not_or] at member
    exact ticks other member.2.2

/-- Whoever is not in the ready queue may run before the task. -/
theorem overtaker_of_notMem {b : Board} {task other : Nat}
    (inside : other ∈ b.tasks) (absent : other ∉ b.ready) :
    other ∈ overtakers b.tasks.toFinset b.ready task := by
  simp only [mem_overtakers, List.mem_toFinset]
  exact ⟨inside, fun member => absent (behind_subset _ _ member)⟩

/-- What a switch to another task does to the line in which a ready task
waits. -/
structure Passed (b : Board) (s entry : Threads) (b' : Board) (s' : Threads)
    (task : Nat) : Prop where
  ok : SchedOk b' s'
  tasks : b'.tasks = b.tasks
  ready : task ∈ b'.ready
  line : ∃ later, behind b'.ready task = behind b.ready task ++ later ∧
    (∀ other, other ∉ later → (s'.pcb other).ticks = (s.pcb other).ticks) ∧
    ((entry.pcb s.currentTask).status = .taskRunning → s.currentTask ∈ later)

/-- What a step that leaves the task waiting does for it. -/
structure StillWaits (b : Board) (s : Threads) (task cost : Nat)
    (b' : Board) (s' : Threads) : Prop where
  ok : SchedOk b' s'
  ready : task ∈ b'.ready
  pays : turnsBefore b' s' task + cost ≤ turnsBefore b s task

namespace SchedOk

variable {b : Board} {s s' entry : Threads} {task : Nat}

private theorem switched_passed (ok : SchedOk b s)
    (enters : EntersSchedule s entry)
    (returned : schedule entry = .ok s') (ready : task ∈ b.ready)
    (notNext : s'.currentTask ≠ task) : ∃ b', Passed b s entry b' s' task := by
  obtain ⟨b₁, shape₁, registered₁, _, _⟩ := ok.enters enters
  obtain ⟨b', ok', sameTasks⟩ := ok.switched enters returned
  have kept := ok.enters_kept enters shape₁
  obtain ⟨later, entryReady⟩ := kept.ready
  have current := kept.current
  have ready₁ : task ∈ b₁.ready := by
    rw [entryReady]
    exact List.mem_append_left _ ready
  obtain ⟨front, different, served⟩ := shape₁.schedule_ready registered₁.idle
    ready₁ returned ok'.shape notNext
  have status := (shape₁.agrees _ shape₁.current).status
  have ticks := schedule_ticks returned
  by_cases running : b₁.place entry.currentTask = .onCpu
  · have requeued : (b₁.requeue entry.currentTask).ready =
        b.ready ++ (later ++ [s.currentTask]) := by
      rw [Board.requeue, if_pos running, Board.readyBack, entryReady, current,
        List.append_assoc]
    rw [requeued] at served
    obtain ⟨inside, line⟩ := behind_served ready different served
    refine ⟨b', ok', sameTasks, inside, _, line, ?_, ?_⟩
    · intro other absent
      rw [← kept.ticks other]
      apply (ticks other).resolve_right
      intro loaded
      apply absent
      rw [loaded.1, current]
      simp
    · intro _
      simp
  · have requeued : (b₁.requeue entry.currentTask).ready =
        b.ready ++ later := by
      rw [Board.requeue, if_neg running, entryReady]
    have notRunning :
        (entry.pcb entry.currentTask).status ≠ .taskRunning := by
      rw [status]
      exact Place.status_eq_running_iff.not.mpr running
    rw [requeued] at served
    obtain ⟨inside, line⟩ := behind_served ready different served
    refine ⟨b', ok', sameTasks, inside, _, line, ?_, ?_⟩
    · intro other _
      rw [← kept.ticks other]
      apply (ticks other).resolve_right
      intro loaded
      apply notRunning
      rw [← loaded.1]
      exact loaded.2.1
    · intro isRunning
      rw [← current] at isRunning
      exact absurd isRunning notRunning

end SchedOk

private theorem Passed.turnsBefore_le {b b' : Board} {s s' entry : Threads}
    {task : Nat} (passed : Passed b s entry b' s' task) :
    turnsBefore b' s' task ≤ turnsBefore b s task := by
  obtain ⟨later, line, ticks, _⟩ := passed.line
  apply Simos.turnsBefore_le later _ line
  · intro other absent
    exact (ticks other absent).le
  · intro other inside
    rw [passed.tasks] at inside
    exact Or.inl inside

namespace SchedOk

variable {b b' : Board} {s s' : Threads} {task : Nat}

/-- The current task is one of those the ready task waits for. -/
theorem current_overtakes (ok : SchedOk b s) :
    s.currentTask ∈ overtakers b.tasks.toFinset b.ready task :=
  overtaker_of_notMem ok.shape.current (ok.shape.running_not_ready ok.running)

private theorem endOfSlice_waits (ok : SchedOk b s)
    (passed : Passed b s (countTick s) b' s' task) :
    StillWaits b s task 1 b' s' := by
  refine ⟨passed.ok, passed.ready, ?_⟩
  obtain ⟨later, line, ticks, requeued⟩ := passed.line
  have onCpu : ((countTick s).pcb s.currentTask).status = .taskRunning := by
    have status := (ok.shape.countTick.agrees _ ok.shape.current).status
    rw [status, ok.running]
    rfl
  have wentBehind := requeued onCpu
  have fewer : overtakers b'.tasks.toFinset b'.ready task ⊆
      (overtakers b.tasks.toFinset b.ready task).erase s.currentTask := by
    intro other member
    simp only [mem_overtakers, List.mem_toFinset, line, List.mem_append,
      not_or, passed.tasks] at member
    simp only [Finset.mem_erase, mem_overtakers, List.mem_toFinset]
    exact ⟨fun same => member.2.2 (same ▸ wentBehind), member.1, member.2.1⟩
  have kept : ∀ other ∈ overtakers b'.tasks.toFinset b'.ready task,
      s'.slice other ≤ s.slice other := by
    intro other member
    simp only [mem_overtakers, line, List.mem_append, not_or] at member
    exact (ticks other member.2.2).le
  have gone : turnsBefore b' s' task + (s.slice s.currentTask + 1) ≤
      turnsBefore b s task :=
    delay_gone ok.current_overtakes fewer kept
  omega

private theorem countDown_waits (ok : SchedOk b s) (ready : task ∈ b.ready)
    (left : ((countTick s).pcb s.currentTask).ticks ≠ 0) :
    StillWaits b s task 1 b ((countTick s).setPcb s.currentTask
      { (countTick s).pcb s.currentTask with
        ticks := ((countTick s).pcb s.currentTask).ticks - 1 }) := by
  refine ⟨ok.tick _, ready, ?_⟩
  apply delay_charged ok.current_overtakes
  · rw [countTick_ticks] at left
    simp only [Threads.slice, Threads.setPcb, Function.update_self,
      countTick_ticks]
    omega
  · intro other _ different
    simp only [Threads.slice, Threads.setPcb, Function.update_of_ne different]
    exact (countTick_ticks s other).le

private theorem same_waits (ok' : SchedOk b' s') (ready : task ∈ b.ready)
    (tasks : b'.tasks = b.tasks) (line : b'.ready = b.ready)
    (ticks : ∀ other, (s'.pcb other).ticks = (s.pcb other).ticks) :
    StillWaits b s task 0 b' s' := by
  refine ⟨ok', line ▸ ready, turnsBefore_le [] ?_ ?_ ?_⟩
  · intro other inside
    rw [tasks] at inside
    exact Or.inl inside
  · rw [line, List.append_nil]
  · exact fun other _ => (ticks other).le

private theorem woken_waits {woken : Nat} (ok' : SchedOk b' s')
    (ready : task ∈ b.ready) (different : woken ≠ task)
    (tasks : b'.tasks = b.tasks) (front : b'.ready = woken :: b.ready)
    (ticks : ∀ other, (s'.pcb other).ticks = (s.pcb other).ticks) :
    StillWaits b s task 0 b' s' := by
  refine ⟨ok', ?_, turnsBefore_le [] ?_ ?_ ?_⟩
  · rw [front]
    exact List.mem_cons_of_mem woken ready
  · intro other inside
    rw [tasks] at inside
    exact Or.inl inside
  · rw [front, behind_cons_of_ne different, List.append_nil]
  · exact fun other _ => (ticks other).le

private theorem threadStart_waits (ok : SchedOk b s) {prio : Int}
    {function funcArgc new : Nat}
    (returned : Simos.threadStart s prio function funcArgc = .ok (new, s'))
    (ready : task ∈ b.ready) : StillWaits b s task 0 (b.start new) s' := by
  have others := (threadStart_ticks returned).2
  refine ⟨ok.threadStart returned, List.mem_append_left _ ready,
    turnsBefore_le [new] ?_ ?_ ?_⟩
  · intro other inside
    rw [List.mem_singleton]
    exact (List.mem_cons.mp inside).symm
  · exact behind_append ready [new]
  · intro other absent
    rw [others other (List.mem_singleton.not.mp absent)]

private theorem semaUp_waits (ok : SchedOk b s) {sema : Nat}
    (returned : semaUpTask s sema = .ok s') (ready : task ∈ b.ready) :
    ∃ b', StillWaits b s task 0 b' s' := by
  obtain ⟨b', ok', tasks⟩ := ok.semaUp returned
  obtain ⟨queue, d, woken, _, shape⟩ := ok.shape.wakeWaiter_ok sema
  have wokenTicks := wakeWaiter_ticks woken
  simp only [semaUpTask, woken, Call.bind_eq_ok_iff, Call.assert_eq_ok_iff,
    Call.pure_eq_ok, Except.ok.injEq, exists_const, exists_eq_left'] at returned
  obtain ⟨_, _, rfl⟩ := returned
  have line := shape.ready_unique ok'.shape rfl rfl
  cases split : b.waiting sema with
  | nil =>
      have unchanged : b.wake sema = b := by
        rw [Board.wake, split]
      rw [unchanged] at line
      exact ⟨b', same_waits ok' ready tasks line wokenTicks⟩
  | cons first rest =>
      have front : (b.wake sema).ready = first :: b.ready := by
        simp only [Board.wake, split, Board.readyFront, Board.waitFront]
      have different : first ≠ task := by
        intro same
        apply ok.shape.tidy.ready_apart ready
        rw [split, ← same]
        exact List.mem_cons_self
      rw [front] at line
      exact ⟨b', woken_waits ok' ready different tasks line wokenTicks⟩

private theorem ioqWakeup_waits (ok : SchedOk b s) {waiter : Nat}
    (returned : Simos.ioqWakeup s waiter = .ok s') (ready : task ∈ b.ready) :
    ∃ b', StillWaits b s task 0 b' s' := by
  obtain ⟨b', ok', tasks⟩ := ok.ioqWakeup returned
  simp only [Simos.ioqWakeup, Call.bind_eq_ok_iff, Call.assert_eq_ok_iff,
    Call.pure_eq_ok, Except.ok.injEq, exists_const] at returned
  obtain ⟨set, s₁, woken, rfl⟩ := returned
  obtain ⟨inside, place⟩ := ok.registered.waiters waiter set
  have wokenTicks := threadUnblock_ticks woken
  obtain ⟨d, woken', _, shape⟩ := ok.shape.threadUnblock_ok inside
    (by rw [place]; rfl) (by rw [place]; exact id)
  rw [woken', Except.ok.injEq] at woken
  subst s₁
  have line := shape.ready_unique ok'.shape rfl rfl
  have different : s.waiters waiter ≠ task := by
    intro same
    have here := ((ok.shape.tidy.mem_ready task).mp ready).2
    rw [← same, place] at here
    cases here
  exact ⟨b', woken_waits ok' ready different tasks line wokenTicks⟩

theorem step_waits (ok : SchedOk b s) {event : ThreadEvent}
    (taken : ThreadStep s event s') (ready : task ∈ b.ready)
    (notNext : s'.currentTask ≠ task) :
    ∃ b', StillWaits b s task event.clockInterrupts b' s' := by
  rcases taken.switches_or_keeps with
    ⟨entry, enters, returned, _, clock⟩ | keeps
  · obtain ⟨b', passed⟩ := ok.switched_passed enters returned ready notNext
    by_cases isClock : event = .clockService
    · subst isClock
      rw [clock rfl] at passed
      exact ⟨b', ok.endOfSlice_waits passed⟩
    · have free : event.clockInterrupts = 0 := by
        cases event with
        | clockService => exact absurd rfl isClock
        | _ => rfl
      rw [free]
      exact ⟨b', passed.ok, passed.ready, passed.turnsBefore_le⟩
  · cases keeps with
    | threadStart returned =>
        exact ⟨_, ok.threadStart_waits returned ready⟩
    | clockService left =>
        exact ⟨b, ok.countDown_waits ready left⟩
    | @semaDown sema tests free =>
        have binary := ok.binary sema
        refine ⟨b, same_waits (ok.setValue sema (by omega) ?_) ready rfl rfl
          fun _ => rfl⟩
        rw [Function.update_of_ne (ok.not_idle tests).symm]
        exact ok.registered.idleResume
    | semaUp returned =>
        exact ok.semaUp_waits returned ready
    | ioqWakeup returned =>
        exact ok.ioqWakeup_waits returned ready

end SchedOk

/-! ## The bound -/

def WaitsReady (task amount : Nat) (s : Threads) : Prop :=
  ∃ b, SchedOk b s ∧ task ∈ b.ready ∧ turnsBefore b s task = amount

/-- Along a run in which a ready task never gets the processor, the clock
interrupts stay below the turns that it waits for. -/
theorem SchedOk.clockInterrupts_lt {b : Board} {s last : Threads}
    {task : Nat} (ok : SchedOk b s) (ready : task ∈ b.ready)
    {trace : List (ThreadEvent × Threads)}
    (run : Run ThreadStep s trace last)
    (never : ∀ event state, (event, state) ∈ trace →
      state.currentTask ≠ task) :
    traceCost ThreadEvent.clockInterrupts trace < turnsBefore b s task := by
  have pays : ∀ amount state event next, WaitsReady task amount state →
      ThreadStep state event next → next.currentTask ≠ task →
        ∃ amount', WaitsReady task amount' next ∧
          amount' + event.clockInterrupts ≤ amount := by
    intro amount state event next before taken notNext
    obtain ⟨b', ok', ready', rfl⟩ := before
    obtain ⟨b'', waits⟩ := ok'.step_waits taken ready' notNext
    exact ⟨_, ⟨b'', waits.ok, waits.ready, rfl⟩, waits.pays⟩
  have start : WaitsReady task (turnsBefore b s task) s := ⟨b, ok, ready, rfl⟩
  obtain ⟨amount, ⟨b', ok', _, rfl⟩, paid⟩ :=
    Run.cost_add_le start pays run never
  have more : 0 < turnsBefore b' last task := delay_pos ok'.current_overtakes
  omega

/-! ## Slices are bytes -/

/-- A slice is loaded with a byte or does not grow, and the slice of a new
task is loaded. -/
theorem SchedOk.step_slice {b : Board} {s s' : Threads} {event : ThreadEvent}
    (ok : SchedOk b s) (taken : ThreadStep s event s') (task : Nat) :
    s'.slice task ≤ 255 ∨
      s'.slice task ≤ s.slice task ∧ task ∉ event.started := by
  unfold Threads.slice
  rcases taken.switches_or_keeps with
    ⟨entry, enters, returned, none, _⟩ | keeps
  · obtain ⟨b₁, shape₁, _⟩ := ok.enters enters
    have kept := ok.enters_kept enters shape₁
    rcases schedule_ticks returned task with same | ⟨_, _, loaded⟩
    · right
      rw [same, kept.ticks task, none]
      exact ⟨Nat.le_refl _, List.not_mem_nil⟩
    · left
      omega
  · cases keeps with
    | @threadStart _ prio _ _ new returned =>
        obtain ⟨loaded, others⟩ := threadStart_ticks returned
        by_cases same : task = new
        · left
          rw [same, loaded]
          omega
        · right
          rw [others task same]
          exact ⟨Nat.le_refl _, List.mem_singleton.not.mpr same⟩
    | clockService left =>
        right
        refine ⟨?_, List.not_mem_nil⟩
        rw [← countTick_ticks s task]
        by_cases same : task = s.currentTask
        · simp [Threads.setPcb, same]
        · simp [Threads.setPcb, same]
    | semaDown tests free =>
        right
        exact ⟨Nat.le_refl _, List.not_mem_nil⟩
    | semaUp returned =>
        right
        simp only [semaUpTask, Call.bind_eq_ok_iff, Call.assert_eq_ok_iff,
          Call.pure_eq_ok, Except.ok.injEq, exists_const] at returned
        obtain ⟨_, _, woken, _, rfl⟩ := returned
        exact ⟨(wakeWaiter_ticks woken task).le, List.not_mem_nil⟩
    | ioqWakeup returned =>
        right
        simp only [Simos.ioqWakeup, Call.bind_eq_ok_iff,
          Call.assert_eq_ok_iff, Call.pure_eq_ok, Except.ok.injEq,
          exists_const] at returned
        obtain ⟨_, _, woken, rfl⟩ := returned
        exact ⟨(threadUnblock_ticks woken task).le, List.not_mem_nil⟩

private theorem threadInit_slice {prior first : Threads}
    (initialized : threadInit prior = .ok first) :
    ∀ task ∈ started first [], first.slice task ≤ 255 := by
  simp only [threadInit, initMainThread, Call.bind_eq_ok_iff,
    Call.pure_eq_ok, Except.ok.injEq] at initialized
  obtain ⟨s₂, ⟨s₁, created, listed⟩, ⟨idle, s₃⟩, idleDone, rfl⟩ := initialized
  obtain ⟨loaded, others⟩ := threadStart_ticks idleDone
  have main := pcbInit_ticks created
  simp only [totalListAdd, Call.bind_eq_ok_iff, Call.assert_eq_ok_iff,
    Call.pure_eq_ok, Except.ok.injEq, exists_const] at listed
  obtain ⟨_, _, _, rfl⟩ := listed
  intro task member
  show (s₃.pcb task).ticks ≤ 255
  by_cases isIdle : task = idle
  · rw [isIdle, loaded]
    omega
  · have isMain : task = mainPcb := by
      simpa [started, isIdle] using member
    rw [others task isIdle, isMain]
    exact main.le.trans (by omega)

theorem threadRun_slice {prior first last : Threads} {totalMem : Nat}
    {trace : List (ThreadEvent × Threads)}
    (boot : ThreadBoot prior totalMem) (large : 0x2000000 ≤ totalMem)
    (initialized : threadInit prior = .ok first)
    (run : Run ThreadStep first trace last) :
    ∀ task ∈ started first trace, last.slice task ≤ 255 := by
  induction run with
  | start =>
      exact threadInit_slice initialized
  | @next trace current last event before taken inductionHypothesis =>
      obtain ⟨b, ok, _⟩ := threadRun_ok boot large initialized before
      intro task member
      rcases ok.step_slice taken task with small | ⟨notMore, old⟩
      · exact small
      · apply notMore.trans
        apply inductionHypothesis
        simpa [started, old] using member

/-- A task in the ready queue gets the processor before there have been as
many clock interrupts as the tasks that are not behind it have ticks left, each
counted with the interrupt that ends its slice.  That is at most 256 for each
of these tasks. -/
theorem readyTask_dispatched {prior first middle last : Threads}
    {totalMem : Nat} {before after : List (ThreadEvent × Threads)}
    (boot : ThreadBoot prior totalMem) (large : 0x2000000 ≤ totalMem)
    (initialized : threadInit prior = .ok first)
    (earlier : Run ThreadStep first before middle)
    {ahead later : List Nat} {task : Nat}
    (queue : QueueHolds middle.nodes middle.threadReadyQueue
      ((ahead ++ task :: later).map dispatchNode))
    (run : Run ThreadStep middle after last)
    (never : ∀ event state, (event, state) ∈ after →
      state.currentTask ≠ task) :
    traceCost ThreadEvent.clockInterrupts after <
        ∑ other ∈ (started first before).toFinset \ (task :: later).toFinset,
          ((middle.pcb other).ticks + 1) ∧
      ∑ other ∈ (started first before).toFinset \ (task :: later).toFinset,
          ((middle.pcb other).ticks + 1) ≤
        256 * ((started first before).toFinset \
          (task :: later).toFinset).card := by
  obtain ⟨b, ok, tasks⟩ := threadRun_ok boot large initialized earlier
  have line : b.ready = ahead ++ task :: later :=
    dispatchNode_injective.list_map
      (ok.shape.linked.ready.items_unique queue)
  have once := ok.shape.tidy.ready
  rw [line] at once
  have absent : task ∉ ahead := fun member =>
    (List.nodup_append.mp once).2.2 task member task List.mem_cons_self rfl
  have others : overtakers b.tasks.toFinset b.ready task =
      (started first before).toFinset \ (task :: later).toFinset := by
    ext other
    rw [mem_overtakers, Finset.mem_sdiff, line, behind_eq absent, tasks,
      List.toFinset_reverse, @List.mem_toFinset _ _ (task :: later)]
  have turns : turnsBefore b middle task =
      ∑ other ∈ (started first before).toFinset \ (task :: later).toFinset,
        ((middle.pcb other).ticks + 1) := by
    rw [turnsBefore, others]
    rfl
  constructor
  · rw [← turns]
    apply ok.clockInterrupts_lt _ run never
    rw [line]
    exact List.mem_append_right ahead List.mem_cons_self
  · rw [Nat.mul_comm]
    apply delay_le_card
    intro other member
    apply threadRun_slice boot large initialized earlier
    exact List.mem_toFinset.mp (Finset.mem_sdiff.mp member).1

/-- The idle task, ready behind the main thread after `thread_init`, waits on
after the first clock interrupt. -/
theorem readyTask_dispatched_idle :
    ∃ mm first last, memInit coldMm 0x2200000 = .ok mm ∧
      threadInit (coldThreads mm) = .ok first ∧
      Run ThreadStep first [(.clockService, last)] last ∧
      last.currentTask ≠ first.idleThread ∧
      traceCost ThreadEvent.clockInterrupts
          [(ThreadEvent.clockService, last)] <
        ∑ other ∈ (started first []).toFinset \ [first.idleThread].toFinset,
          ((first.pcb other).ticks + 1) := by
  have computed : (do
      let mm ← memInit coldMm 0x2200000
      let first ← threadInit (coldThreads mm)
      let last ← clockService first
      return decide (InOwnCode first ∧
        last.currentTask ≠ first.idleThread) : Call Bool) = .ok true := by
    decide +kernel
  simp only [Call.bind_eq_ok_iff, Call.pure_eq_ok, Except.ok.injEq,
    decide_eq_true_eq] at computed
  obtain ⟨mm, booted, first, initialized, last, ticked, ownCode, notNext⟩ :=
    computed
  have boot := coldThreads_boot booted
  have ok := threadInit_ok boot (by decide) initialized
  have run : Run ThreadStep first [(.clockService, last)] last :=
    Run.start.next (.clockService ownCode ticked)
  have never : ∀ event state, (event, state) ∈
      [(ThreadEvent.clockService, last)] →
        state.currentTask ≠ first.idleThread := by
    intro event state member
    rw [List.mem_singleton, Prod.mk.injEq] at member
    rw [member.2]
    exact notNext
  have queue : QueueHolds first.nodes first.threadReadyQueue
      (([] ++ first.idleThread :: []).map dispatchNode) :=
    ok.shape.linked.ready
  have bound := readyTask_dispatched boot (by decide) initialized Run.start
    queue run never
  exact ⟨mm, first, last, booted, initialized, run, notNext, bound.1⟩

end Simos
