import Simos.Library.RoundRobin
import Simos.Thread.ScheduleRuns

/-!
# Time slices (`clock_service`)

The current task and the ready queue, one behind the other, share the clock in
turns: a task of priority `p` runs for `p + 1` clock interrupts and goes to the
end of the queue, its counter loaded again.  `Sliced` connects the scheduler's
data with the weighted round robin of the library, and `clockServices_turns`
says where the scheduler is after any number of clock interrupts.
-/

namespace Simos

open Simos.Library

def clockServices : Nat → Threads → Call Threads
  | 0, s => return s
  | count + 1, s => do
      let s ← clockServices count s
      clockService s

/-! ## What `schedule` does to the PCBs -/

theorem readyIn_pcb {s s' : Threads} {task : Nat}
    (entered : s.readyIn task = .ok s') :
    s'.pcb = s.pcb ∧ s'.currentTask = s.currentTask := by
  simp only [Threads.readyIn, Call.bind_eq_ok_iff, Call.pure_eq_ok,
    Except.ok.injEq, Prod.exists] at entered
  obtain ⟨nodes, queue, -, rfl⟩ := entered
  exact ⟨rfl, rfl⟩

theorem scheduleCurrent_pcb {s s' : Threads}
    (running : (s.pcb s.currentTask).status = .taskRunning)
    (returned : scheduleCurrent s = .ok s') :
    s'.pcb = Function.update s.pcb s.currentTask
      { s.pcb s.currentTask with
        ticks := (s.pcb s.currentTask).priority % 256
        status := .taskReady } := by
  simp only [scheduleCurrent, if_pos running, Call.bind_eq_ok_iff,
    Call.pure_eq_ok, Except.ok.injEq] at returned
  obtain ⟨_, -, entered, queued, rfl⟩ := returned
  rw [Threads.setPcb, (readyIn_pcb queued).1]

theorem scheduleNext_pcb {s s' : Threads}
    (returned : scheduleNext s = .ok s') :
    s'.pcb = Function.update s.pcb s'.currentTask
      { s.pcb s'.currentTask with status := .taskRunning } := by
  simp only [scheduleNext, Call.bind_eq_ok_iff, Call.pure_eq_ok,
    Except.ok.injEq] at returned
  obtain ⟨_, -, rfl⟩ := returned
  simp only [Threads.setStatus, Threads.setPcb]

/-- The fields that the time slices are about, after a task was switched
out. -/
structure SliceLoaded (s s' : Threads) : Prop where
  priority : ∀ task, (s'.pcb task).priority = (s.pcb task).priority
  elapsed : ∀ task, (s'.pcb task).elapsedTicks = (s.pcb task).elapsedTicks
  current : (s'.pcb s.currentTask).ticks =
    (s.pcb s.currentTask).priority % 256
  ticks : ∀ task, task ≠ s.currentTask →
    (s'.pcb task).ticks = (s.pcb task).ticks

/-- The slice is loaded in the PCB of the task that is switched out, and only
the status is written in the PCB of the task that is switched in. -/
theorem SliceLoaded.of_pcb {s s' : Threads} {middle : Nat → TaskStruct}
    (loaded : middle = Function.update s.pcb s.currentTask
      { s.pcb s.currentTask with
        ticks := (s.pcb s.currentTask).priority % 256
        status := .taskReady })
    (entered : s'.pcb = Function.update middle s'.currentTask
      { middle s'.currentTask with status := .taskRunning }) :
    SliceLoaded s s' := by
  have kept : ∀ task, (s'.pcb task).priority = (middle task).priority ∧
      (s'.pcb task).elapsedTicks = (middle task).elapsedTicks ∧
      (s'.pcb task).ticks = (middle task).ticks := by
    intro task
    rw [entered]
    by_cases isNext : task = s'.currentTask
    · simp [isNext]
    · simp [isNext]
  have old : ∀ task, task ≠ s.currentTask → middle task = s.pcb task := by
    intro task different
    rw [loaded, Function.update_of_ne different]
  have current : middle s.currentTask =
      { s.pcb s.currentTask with
        ticks := (s.pcb s.currentTask).priority % 256
        status := .taskReady } := by
    rw [loaded, Function.update_self]
  constructor
  case priority =>
    intro task
    rw [(kept task).1]
    by_cases isOld : task = s.currentTask
    · rw [isOld, current]
    · rw [old task isOld]
  case elapsed =>
    intro task
    rw [(kept task).2.1]
    by_cases isOld : task = s.currentTask
    · rw [isOld, current]
    · rw [old task isOld]
  case current =>
    rw [(kept _).2.2, current]
  case ticks =>
    intro task different
    rw [(kept task).2.2, old task different]

namespace SchedShape

variable {b : Board} {s : Threads}

/-- `schedule` by a running task: the ready queue with the task at its end
goes on by one. -/
theorem schedule_running (shape : SchedShape b s)
    (running : b.place s.currentTask = .onCpu) :
    ∃ s' b', schedule s = .ok s' ∧ SchedShape b' s' ∧
      s'.currentTask :: b'.ready = b.ready ++ [s.currentTask] ∧
      b'.place s'.currentTask = .onCpu ∧ SliceLoaded s s' := by
  have status : (s.pcb s.currentTask).status = .taskRunning := by
    rw [(shape.agrees _ shape.current).status, running]
    rfl
  obtain ⟨d₁, first, shape₁, nobody⟩ := shape.scheduleCurrent_ok
  have requeued : b.requeue s.currentTask = b.readyBack s.currentTask :=
    if_pos running
  have ready :
      (b.requeue s.currentTask).ready = b.ready ++ [s.currentTask] := by
    rw [requeued]
    rfl
  have nonempty : (b.requeue s.currentTask).ready ≠ [] := by
    rw [ready]
    simp
  have second : scheduleIdle (s.withDispatch d₁) =
      .ok (s.withDispatch d₁) := by
    rw [scheduleIdle, if_neg (shape₁.queueLen_eq_zero_iff.not.mpr nonempty)]
    rfl
  obtain ⟨d₂, third, shape₂, onCpu⟩ :=
    shape₁.scheduleNext_ok nonempty (by
      rw [Board.tasks_requeue]
      exact nobody)
  refine ⟨_, _, ?_, shape₂, ?_, onCpu, ?_⟩
  · rw [schedule, first, Call.ok_bind, second, Call.ok_bind, third]
  · -- the dispatched task is the front of the queue: nobody else is on the
    -- processor
    obtain ⟨next, rest, split⟩ := List.exists_cons_of_ne_nil nonempty
    have inside : d₂.currentTask ∈ (b.requeue s.currentTask).tasks := by
      have member := shape₂.current
      rwa [Board.tasks_dispatch] at member
    have isNext : d₂.currentTask = next := by
      by_contra different
      rw [Board.dispatch, split] at onCpu
      simp only [Function.update_of_ne different] at onCpu
      exact nobody _ (by rwa [Board.tasks_requeue] at inside) onCpu
    have left : (b.requeue s.currentTask).dispatch.ready = rest := by
      rw [Board.dispatch, split]
    rw [left, ← ready, split]
    exact congrArg (· :: rest) isNext
  · exact SliceLoaded.of_pcb (scheduleCurrent_pcb status first)
      (scheduleNext_pcb third)

end SchedShape

/-! ## The scheduler takes turns -/

/-- The scheduler's data stand where the round robin stands: `first` is the
state in which all slices were full. -/
structure Sliced (first : Threads) (turns : Turns Nat) (b : Board)
    (s : Threads) : Prop where
  shape : SchedShape b s
  running : b.place s.currentTask = .onCpu
  queue : turns.queue = s.currentTask :: b.ready
  priority : ∀ task, (s.pcb task).priority = (first.pcb task).priority
  small : ∀ task ∈ turns.queue, (first.pcb task).priority ≤ 255
  spent : turns.spent ≤ (first.pcb s.currentTask).priority
  current : (s.pcb s.currentTask).ticks =
    (first.pcb s.currentTask).priority - turns.spent
  waiting : ∀ task ∈ b.ready,
    (s.pcb task).ticks = (first.pcb task).priority
  elapsed : ∀ task, (s.pcb task).elapsedTicks ≡
    (first.pcb task).elapsedTicks + turns.charged task [MOD 4294967296]

namespace Sliced

variable {first s : Threads} {turns : Turns Nat} {b : Board}

private theorem countTick_elapsed (sliced : Sliced first turns b s)
    (task : Nat) :
    ((countTick s).pcb task).elapsedTicks ≡
      (first.pcb task).elapsedTicks +
        Function.update turns.charged s.currentTask
          (turns.charged s.currentTask + 1) task [MOD 4294967296] := by
  have old := sliced.elapsed task
  by_cases same : task = s.currentTask
  · subst same
    simp only [countTick, Threads.setPcb, Function.update_self, u32]
    exact (Nat.mod_modEq _ _).trans (by
      rw [← Nat.add_assoc]
      exact old.add_right 1)
  · simpa [countTick, Threads.setPcb, same] using old

private theorem countTick_others (sliced : Sliced first turns b s)
    (task : Nat) :
    ((countTick s).pcb task).priority = (first.pcb task).priority ∧
      ((countTick s).pcb task).ticks = (s.pcb task).ticks := by
  rw [← sliced.priority task]
  by_cases same : task = s.currentTask
  · simp [countTick, Threads.setPcb, same]
  · simp [countTick, Threads.setPcb, same]

private theorem countDown (sliced : Sliced first turns b s)
    (within : turns.spent < (first.pcb s.currentTask).priority) :
    Sliced first
      { turns with
        spent := turns.spent + 1
        charged := Function.update turns.charged s.currentTask
          (turns.charged s.currentTask + 1) } b
      ((countTick s).setPcb s.currentTask
        { (countTick s).pcb s.currentTask with
          ticks := ((countTick s).pcb s.currentTask).ticks - 1 }) := by
  have notReady := sliced.shape.running_not_ready sliced.running
  constructor
  case shape => exact sliced.shape.countTick.setTicks _
  case running => exact sliced.running
  case queue => exact sliced.queue
  case priority =>
    intro task
    by_cases same : task = s.currentTask
    · simp [Threads.setPcb, countTick, same, sliced.priority]
    · simpa [Threads.setPcb, countTick, same] using sliced.priority task
  case small => exact sliced.small
  case spent => exact within
  case current =>
    have current := sliced.current
    simp only [Threads.setPcb, countTick, Function.update_self]
    rw [current]
    exact (Nat.sub_add_eq _ _ _).symm
  case waiting =>
    intro task member
    have different : task ≠ s.currentTask := fun same =>
      notReady (same ▸ member)
    have old := sliced.waiting task member
    simpa [Threads.setPcb, countTick, different] using old
  case elapsed =>
    intro task
    have old := sliced.countTick_elapsed task
    by_cases same : task = s.currentTask
    · subst same
      simpa [Threads.setPcb, countTick] using old
    · simpa [Threads.setPcb, countTick, same] using old

/-- When the slice is over, the task goes to the end of the queue with a full
slice. -/
theorem endOfSlice (sliced : Sliced first turns b s) :
    ∃ s' b', schedule (countTick s) = .ok s' ∧
      Sliced first
        ⟨b.ready ++ [s.currentTask], 0,
          Function.update turns.charged s.currentTask
            (turns.charged s.currentTask + 1)⟩ b' s' := by
  have queue := sliced.queue
  obtain ⟨s', b', returned, shape', queue', onCpu, loaded⟩ :=
    sliced.shape.countTick.schedule_running sliced.running
  refine ⟨s', b', returned, ?_⟩
  have old : (countTick s).currentTask = s.currentTask := rfl
  have inQueue : ∀ task, task ∈ s'.currentTask :: b'.ready →
      task ∈ turns.queue := by
    intro task member
    rw [queue', old] at member
    rw [queue]
    rcases List.mem_append.mp member with ready | last
    · exact List.mem_cons_of_mem _ ready
    · rw [List.mem_singleton.mp last]
      exact List.mem_cons_self
  have full : ∀ task, task ∈ s'.currentTask :: b'.ready →
      (s'.pcb task).ticks = (first.pcb task).priority := by
    intro task member
    have small := sliced.small task (inQueue task member)
    by_cases same : task = s.currentTask
    · rw [same] at small ⊢
      have current := loaded.current
      rw [old] at current
      rw [current, (sliced.countTick_others _).1, Nat.mod_eq_of_lt (by omega)]
    · rw [loaded.ticks task same, (sliced.countTick_others task).2]
      rw [queue', old] at member
      rcases List.mem_append.mp member with ready | last
      · exact sliced.waiting task ready
      · exact absurd (List.mem_singleton.mp last) same
  constructor
  case shape => exact shape'
  case running => exact onCpu
  case queue => exact queue'.symm
  case priority =>
    intro task
    rw [loaded.priority, (sliced.countTick_others task).1]
  case small =>
    intro task member
    rw [← old, ← queue'] at member
    exact sliced.small task (inQueue task member)
  case spent => exact Nat.zero_le _
  case current =>
    rw [full _ List.mem_cons_self]
    rfl
  case waiting =>
    intro task member
    exact full task (List.mem_cons_of_mem _ member)
  case elapsed =>
    intro task
    rw [loaded.elapsed]
    exact sliced.countTick_elapsed task

/-- One clock interrupt is one tick of the round robin. -/
theorem clockService_ok (sliced : Sliced first turns b s) :
    ∃ s' b', clockService s = .ok s' ∧
      Sliced first (turns.tick fun task => (first.pcb task).priority) b' s' := by
  have boundary := (sliced.shape.agrees _ sliced.shape.current).boundary
  have ticks : ((countTick s).pcb (countTick s).currentTask).ticks =
      (first.pcb s.currentTask).priority - turns.spent := by
    rw [← sliced.current]
    simp [countTick, Threads.setPcb]
  have queue := sliced.queue
  rw [clockService, Call.assert_of boundary, Call.ok_bind]
  simp only [Turns.tick, queue]
  by_cases within : turns.spent < (first.pcb s.currentTask).priority
  · rw [if_neg (by omega), if_pos within, ← queue]
    exact ⟨_, b, rfl, sliced.countDown within⟩
  · have spent := sliced.spent
    rw [if_pos (by omega), if_neg within]
    exact sliced.endOfSlice

theorem clockServices_ok (sliced : Sliced first turns b s) (count : Nat) :
    ∃ s' b', clockServices count s = .ok s' ∧
      Sliced first
        ((Turns.tick fun task => (first.pcb task).priority)^[count] turns) b'
        s' := by
  induction count with
  | zero =>
      exact ⟨s, b, rfl, sliced⟩
  | succ count inductionHypothesis =>
      obtain ⟨middle, b', before, sliced'⟩ := inductionHypothesis
      obtain ⟨s', b'', returned, sliced''⟩ := sliced'.clockService_ok
      refine ⟨s', b'', ?_, ?_⟩
      · rw [clockServices, before, Call.ok_bind, returned]
      · rw [Function.iterate_succ_apply']
        exact sliced''

end Sliced

/-! ## Turns and rounds -/

/-- What the turns up to the moment have added to the `elapsed_ticks` of a
task: the whole rounds, and in the round that is going on a whole turn of each
task in `earlier` and `spent` ticks of the turn of `current`. -/
def elapsedInTurns (priority rounds : Nat) (earlier : List Nat)
    (current spent task : Nat) : Nat :=
  rounds * (priority + 1) + (earlier.count task * (priority + 1)) +
    if task = current then spent else 0

/-- The scheduler at any moment, when only `clock_service` runs and every
slice was full at the start.  `earlier ++ current :: later` is the current
task and the ready queue at the start.  After `rounds` rounds of
`priority + 1` interrupts for each of them, the turns of `earlier` and `spent`
interrupts more, the current task is `current`; behind it wait `later` and
`earlier`, in this order and with full slices. -/
theorem clockServices_turns {b : Board} {s : Threads} (shape : SchedShape b s)
    (running : (s.pcb s.currentTask).status = .taskRunning)
    (priorities : ∀ task ∈ s.currentTask :: b.ready,
      (s.pcb task).priority ≤ 255)
    (full : ∀ task ∈ s.currentTask :: b.ready,
      (s.pcb task).ticks = (s.pcb task).priority)
    (rounds : Nat) {earlier later : List Nat} {current spent : Nat}
    (queue : s.currentTask :: b.ready = earlier ++ current :: later)
    (within : spent ≤ (s.pcb current).priority) :
    QueueHolds s.nodes s.threadReadyQueue (b.ready.map dispatchNode) ∧
    ∃ s', clockServices
        (rounds * Turns.turnTicks (fun task => (s.pcb task).priority)
            (s.currentTask :: b.ready) +
          Turns.turnTicks (fun task => (s.pcb task).priority) earlier +
          spent) s = .ok s' ∧
      s'.currentTask = current ∧
      QueueHolds s'.nodes s'.threadReadyQueue
        ((later ++ earlier).map dispatchNode) ∧
      (s'.pcb current).ticks = (s.pcb current).priority - spent ∧
      (∀ task ∈ later ++ earlier,
        (s'.pcb task).ticks = (s.pcb task).priority) ∧
      ∀ task ∈ s.currentTask :: b.ready, (s'.pcb task).elapsedTicks ≡
        (s.pcb task).elapsedTicks + elapsedInTurns (s.pcb task).priority
          rounds earlier current spent task [MOD 4294967296] := by
  have onCpu : b.place s.currentTask = .onCpu := by
    have status := (shape.agrees _ shape.current).status
    rw [running] at status
    generalize b.place s.currentTask = place at status
    cases place with
    | onCpu => rfl
    | ready => cases status
    | semaphore sema => cases status
    | ioq waiter => cases status
    | asleep => cases status
  have once : (s.currentTask :: b.ready).Nodup :=
    List.nodup_cons.mpr ⟨shape.running_not_ready onCpu, shape.tidy.ready⟩
  have start : Sliced s ⟨s.currentTask :: b.ready, 0, fun _ => 0⟩ b s := by
    constructor
    case shape => exact shape
    case running => exact onCpu
    case queue => rfl
    case priority => exact fun _ => rfl
    case small => exact priorities
    case spent => exact Nat.zero_le _
    case current => exact full _ List.mem_cons_self
    case waiting =>
      intro task member
      exact full task (List.mem_cons_of_mem _ member)
    case elapsed => exact fun _ => Nat.ModEq.refl _
  refine ⟨shape.linked.ready, ?_⟩
  obtain ⟨s', b', returned, sliced⟩ := start.clockServices_ok
    (rounds * Turns.turnTicks (fun task => (s.pcb task).priority)
        (s.currentTask :: b.ready) +
      Turns.turnTicks (fun task => (s.pcb task).priority) earlier + spent)
  rw [queue, Turns.tick_iterate earlier later current _ rounds within] at sliced
  have queue' := sliced.queue
  simp only [List.cons.injEq] at queue'
  obtain ⟨isCurrent, isReady⟩ := queue'
  refine ⟨s', returned, isCurrent.symm, ?_, ?_, ?_, ?_⟩
  · rw [isReady]
    exact sliced.shape.linked.ready
  · rw [isCurrent]
    exact sliced.current
  · rw [isReady]
    exact sliced.waiting
  · intro task member
    have elapsed := sliced.elapsed task
    have single : (earlier ++ current :: later).count task = 1 := by
      rw [← queue]
      exact List.count_eq_one_of_mem once member
    simpa only [single, elapsedInTurns, Nat.one_mul, Nat.zero_add] using elapsed

/-- The main thread and the idle task, both of priority one, after
`thread_init`: three interrupts later the idle task has one tick left, and
after eight everything is as it was. -/
theorem clockServices_turns_twoTasks :
    ∃ mm first, memInit coldMm 0x2200000 = .ok mm ∧
      threadInit (coldThreads mm) = .ok first ∧
      (∃ s', clockServices 3 first = .ok s' ∧
        s'.currentTask = first.idleThread ∧
        QueueHolds s'.nodes s'.threadReadyQueue [dispatchNode mainPcb]) ∧
      ∃ s', clockServices 8 first = .ok s' ∧ s'.currentTask = mainPcb ∧
        QueueHolds s'.nodes s'.threadReadyQueue
          [dispatchNode first.idleThread] := by
  have computed : (do
      let mm ← memInit coldMm 0x2200000
      let first ← threadInit (coldThreads mm)
      return decide (first.currentTask = mainPcb ∧
        (first.pcb mainPcb).status = .taskRunning ∧
        (∀ task ∈ [mainPcb, first.idleThread],
          (first.pcb task).priority = 1 ∧ (first.pcb task).ticks = 1)) :
        Call Bool) = .ok true := by
    decide +kernel
  simp only [Call.bind_eq_ok_iff, Call.pure_eq_ok, Except.ok.injEq,
    decide_eq_true_eq] at computed
  obtain ⟨mm, booted, first, initialized, current, running, pcbs⟩ := computed
  have ok := threadInit_ok (coldThreads_boot booted) (by decide) initialized
  have tasks : first.currentTask :: (mainBoard.start first.idleThread).ready =
      [mainPcb, first.idleThread] := by
    rw [current]
    rfl
  have ones : ∀ task ∈ [mainPcb, first.idleThread],
      (first.pcb task).priority = 1 := fun task member => (pcbs task member).1
  have priorities : ∀ task ∈
      first.currentTask :: (mainBoard.start first.idleThread).ready,
      (first.pcb task).priority ≤ 255 := by
    rw [tasks]
    intro task member
    rw [ones task member]
    omega
  have full : ∀ task ∈
      first.currentTask :: (mainBoard.start first.idleThread).ready,
      (first.pcb task).ticks = (first.pcb task).priority := by
    rw [tasks]
    intro task member
    rw [(pcbs task member).1, (pcbs task member).2]
  rw [← current] at running
  have mainOne := ones mainPcb (by simp)
  have idleOne := ones first.idleThread (by simp)
  have idleSecond : first.currentTask ::
      (mainBoard.start first.idleThread).ready =
        [mainPcb] ++ first.idleThread :: [] := tasks
  have mainFirst : first.currentTask ::
      (mainBoard.start first.idleThread).ready =
        [] ++ mainPcb :: [first.idleThread] := tasks
  have oneTick : 1 ≤ (first.pcb first.idleThread).priority := by
    rw [idleOne]
  have early := (clockServices_turns ok.shape running priorities full 0
    idleSecond oneTick).2
  have late := (clockServices_turns ok.shape running priorities full 2
    mainFirst (Nat.zero_le _)).2
  simp only [tasks, Turns.turnTicks_cons, Turns.turnTicks_nil, mainOne,
    idleOne] at early late
  obtain ⟨atThree, three, currentThree, queueThree, _⟩ := early
  obtain ⟨atEight, eight, currentEight, queueEight, _⟩ := late
  exact ⟨mm, first, booted, initialized,
    ⟨atThree, three, currentThree, queueThree⟩,
    ⟨atEight, eight, currentEight, queueEight⟩⟩

end Simos
