import Simos.Thread.ScheduleShape

/-!
# The moves of the scheduler

Each function of the scheduler, run on data that have the shape of a board,
returns with data that have the shape of the board after its move.
-/

namespace Simos

open Simos.Library

namespace SchedShape

variable {b : Board} {s : Threads} {task : Nat}

private theorem assertNotQueued_ok {queue : GeneralQueue} {tasks : List Nat}
    (holds : QueueHolds s.nodes queue (tasks.map dispatchNode))
    (short : (tasks.map dispatchNode).length + 1 < addressCount)
    (absent : task ∉ tasks) : s.assertNotQueued queue task = .ok () := by
  unfold Threads.assertNotQueued
  rw [holds.listFindItem_of_notMem (mem_map_dispatchNode.not.mpr absent)
    (by omega), Call.ok_bind]
  exact Call.assert_of rfl

private theorem assertNotReady (shape : SchedShape b s)
    (absent : task ∉ b.ready) :
    s.assertNotQueued s.threadReadyQueue task = .ok () :=
  assertNotQueued_ok shape.linked.ready shape.ready_short absent

private theorem ready_addrs (shape : SchedShape b s) (addr : PcbAddr task) :
    ∀ other ∈ task :: b.ready, PcbAddr other := by
  intro other member
  rcases List.mem_cons.mp member with rfl | inReady
  · exact addr
  · exact shape.addr ((shape.tidy.mem_ready other).mp inReady).1

private theorem waiting_apart (shape : SchedShape b s)
    (notWaiting : ∀ sema, task ∉ b.waiting sema) :
    ∀ sema, ∀ other ∈ b.waiting sema, other ∉ task :: b.ready := by
  intro sema other waits member
  rcases List.mem_cons.mp member with rfl | inReady
  · exact notWaiting sema waits
  · exact shape.tidy.ready_apart inReady waits

theorem readyIn_ok (shape : SchedShape b s) (addr : PcbAddr task)
    (notReady : task ∉ b.ready)
    (notWaiting : ∀ sema, task ∉ b.waiting sema) :
    ∃ nodes queue,
      s.readyIn task = .ok { s with nodes, threadReadyQueue := queue } ∧
      Linked (b.readyBack task)
        { s with nodes, threadReadyQueue := queue } := by
  obtain ⟨nodes, queue, returned, holds, kept⟩ :=
    shape.linked.ready.queueIn_ok nodeHeap_lawful (dispatchNode_ne_zero task)
      (mem_map_dispatchNode.not.mpr notReady) shape.ready_short
  refine ⟨nodes, queue, ?_, ?_⟩
  · unfold Threads.readyIn
    rw [returned]
    rfl
  · rw [← List.map_cons] at kept
    refine shape.ready_changed kept (shape.ready_addrs addr)
      (shape.waiting_apart notWaiting) ?_ rfl rfl
    rw [Board.readyBack, List.map_append]
    exact holds

private theorem readyPush_ok (shape : SchedShape b s) (addr : PcbAddr task)
    (notReady : task ∉ b.ready)
    (notWaiting : ∀ sema, task ∉ b.waiting sema) :
    ∃ nodes queue,
      s.readyPush task = .ok { s with nodes, threadReadyQueue := queue } ∧
      Linked (b.readyFront task)
        { s with nodes, threadReadyQueue := queue } := by
  obtain ⟨nodes, queue, returned, holds, kept⟩ :=
    shape.linked.ready.queuePush_ok nodeHeap_lawful (dispatchNode_ne_zero task)
      (mem_map_dispatchNode.not.mpr notReady) shape.ready_short
  refine ⟨nodes, queue, ?_, ?_⟩
  · unfold Threads.readyPush
    rw [returned]
    rfl
  · rw [← List.map_cons] at kept
    exact shape.ready_changed kept (shape.ready_addrs addr)
      (shape.waiting_apart notWaiting) holds rfl rfl

/-- `thread_unblock` moves a blocked task that waits in no queue to the front
of the ready queue. -/
theorem threadUnblock_ok (shape : SchedShape b s) (inside : task ∈ b.tasks)
    (blocked : (b.place task).status = .taskBlocked)
    (free : ¬ (b.place task).Queued) :
    ∃ d, threadUnblock s task = .ok (s.withDispatch d) ∧
      d.currentTask = s.currentTask ∧
      SchedShape (b.readyFront task) (s.withDispatch d) := by
  have status := (shape.agrees task inside).status.trans blocked
  have notReady := shape.tidy.notMem_ready free
  obtain ⟨nodes, queue, pushed, linked⟩ :=
    shape.readyPush_ok (shape.addr inside) notReady
      (shape.tidy.notMem_waiting free)
  refine ⟨⟨nodes, queue, Function.update s.pcb task
    { s.pcb task with status := .taskReady }, s.currentTask⟩, ?_, rfl, ?_⟩
  · unfold threadUnblock
    simp only [status, shape.assertNotReady notReady, pushed, Call.ok_bind,
      Call.assert_of, true_or, ne_eq, reduceCtorEq, not_false_eq_true, if_true]
    rfl
  · refine shape.moved rfl rfl rfl (shape.tidy.readyFront inside free)
      ⟨linked.1, linked.2, linked.3⟩ rfl rfl rfl
      ⟨rfl, (shape.agrees task inside).boundary⟩ shape.current ?_
    intro other member placed
    by_cases same : other = task
    · simp [same] at placed
    · exact shape.onCpu other member (by simpa [same] using placed)

/-- The running task enters the ready queue at its end and has its PCB
written; the processor is then nobody's. -/
private theorem enterReady_ok (shape : SchedShape b s)
    (running : b.place s.currentTask = .onCpu) :
    ∃ nodes queue,
      s.readyIn s.currentTask =
        .ok { s with nodes, threadReadyQueue := queue } ∧
      (∀ pcb, PcbAgrees pcb .ready →
        SchedShape (b.readyBack s.currentTask)
          (s.withDispatch ⟨nodes, queue,
            Function.update s.pcb s.currentTask pcb, s.currentTask⟩)) ∧
      ∀ other ∈ b.tasks,
        (b.readyBack s.currentTask).place other ≠ .onCpu := by
  have free : ¬ (b.place s.currentTask).Queued := by
    rw [running]
    exact id
  obtain ⟨nodes, queue, entered, linked⟩ :=
    shape.readyIn_ok (shape.addr shape.current) (shape.tidy.notMem_ready free)
      (shape.tidy.notMem_waiting free)
  have nobody : ∀ other ∈ b.tasks,
      (b.readyBack s.currentTask).place other ≠ .onCpu := by
    intro other member placed
    by_cases same : other = s.currentTask
    · simp [Board.readyBack, same] at placed
    · exact same (shape.onCpu other member
        (by simpa [Board.readyBack, same] using placed))
  refine ⟨nodes, queue, entered, ?_, nobody⟩
  intro pcb agrees
  exact shape.moved rfl rfl rfl (shape.tidy.readyBack shape.current free)
    ⟨linked.1, linked.2, linked.3⟩ rfl rfl rfl agrees shape.current
    fun other member placed => (nobody other member placed).elim

theorem running_not_ready (shape : SchedShape b s)
    (running : b.place s.currentTask = .onCpu) : s.currentTask ∉ b.ready := by
  apply shape.tidy.notMem_ready
  rw [running]
  exact id

/-- The task that is switched out goes behind the ready tasks when it was
running. -/
theorem scheduleCurrent_ok (shape : SchedShape b s) :
    ∃ d, scheduleCurrent s = .ok (s.withDispatch d) ∧
      SchedShape (b.requeue s.currentTask) (s.withDispatch d) ∧
      ∀ other ∈ b.tasks,
        (b.requeue s.currentTask).place other ≠ .onCpu := by
  have agrees := shape.agrees _ shape.current
  unfold scheduleCurrent Board.requeue
  by_cases running : b.place s.currentTask = .onCpu
  · obtain ⟨nodes, queue, entered, moved, nobody⟩ :=
      shape.enterReady_ok running
    rw [if_pos running, if_pos (by simp [agrees.status, running]),
      shape.assertNotReady (shape.running_not_ready running), Call.ok_bind,
      entered, Call.ok_bind]
    exact ⟨⟨nodes, queue, _, s.currentTask⟩, rfl,
      moved _ ⟨rfl, agrees.boundary⟩, nobody⟩
  · rw [if_neg running, if_neg (by simp [agrees.status, running])]
    refine ⟨⟨s.nodes, s.threadReadyQueue, s.pcb, s.currentTask⟩, rfl, shape, ?_⟩
    intro other member placed
    exact running (shape.onCpu other member placed ▸ placed)

/-- `thread_yield` does the same before it calls `schedule`. -/
theorem yieldCurrent_ok (shape : SchedShape b s)
    (running : b.place s.currentTask = .onCpu) :
    ∃ d, yieldCurrent s = .ok (s.withDispatch d) ∧
      d.currentTask = s.currentTask ∧
      SchedShape (b.readyBack s.currentTask) (s.withDispatch d) := by
  obtain ⟨nodes, queue, entered, moved, -⟩ := shape.enterReady_ok running
  unfold yieldCurrent
  simp only [shape.assertNotReady (shape.running_not_ready running), entered,
    Call.ok_bind]
  exact ⟨⟨nodes, queue, _, s.currentTask⟩, rfl, rfl,
    moved _ ⟨rfl, (shape.agrees _ shape.current).boundary⟩⟩

theorem queueLen_eq_zero_iff (shape : SchedShape b s) :
    s.threadReadyQueue.queueLen = 0 ↔ b.ready = [] := by
  rw [shape.linked.ready.queueLen_eq_zero_iff, List.map_eq_nil_iff]

theorem scheduleIdle_ok (shape : SchedShape b s)
    (idle : s.idleThread ∈ b.tasks)
    (asleep : b.ready = [] → b.place s.idleThread = .asleep) :
    ∃ d, scheduleIdle s = .ok (s.withDispatch d) ∧
      SchedShape (b.wakeIdle s.idleThread) (s.withDispatch d) ∧
      (b.wakeIdle s.idleThread).ready ≠ [] := by
  unfold scheduleIdle Board.wakeIdle
  by_cases empty : b.ready = []
  · have place := asleep empty
    rw [if_pos (shape.queueLen_eq_zero_iff.mpr empty), if_pos empty]
    obtain ⟨d, returned, -, moved⟩ :=
      shape.threadUnblock_ok idle (by rw [place]; rfl) (by rw [place]; exact id)
    exact ⟨d, returned, moved, List.cons_ne_nil _ _⟩
  · rw [if_neg (shape.queueLen_eq_zero_iff.not.mpr empty), if_neg empty]
    exact ⟨⟨s.nodes, s.threadReadyQueue, s.pcb, s.currentTask⟩, rfl, shape,
      empty⟩

theorem scheduleNext_ok (shape : SchedShape b s) (nonempty : b.ready ≠ [])
    (nobody : ∀ other ∈ b.tasks, b.place other ≠ .onCpu) :
    ∃ d, scheduleNext s = .ok (s.withDispatch d) ∧
      SchedShape b.dispatch (s.withDispatch d) ∧
      b.dispatch.place d.currentTask = .onCpu := by
  obtain ⟨next, rest, split⟩ := List.exists_cons_of_ne_nil nonempty
  have dispatched : b.dispatch = { b with
      place := Function.update b.place next .onCpu, ready := rest } := by
    unfold Board.dispatch
    rw [split]
  have inReady : next ∈ b.ready := by simp [split]
  have inside := ((shape.tidy.mem_ready next).mp inReady).1
  have holds := shape.linked.ready
  rw [split, List.map_cons] at holds
  obtain ⟨nodes, queue, taken, left, kept, -⟩ :=
    holds.queueOut_ok nodeHeap_lawful
  rw [← List.map_cons, ← split] at kept
  have linked : Linked b.dispatch
      { s with nodes, threadReadyQueue := queue } := by
    refine shape.ready_changed kept ?_ ?_ ?_ (by rw [dispatched])
      (by rw [dispatched])
    · intro other member
      exact shape.addr ((shape.tidy.mem_ready other).mp member).1
    · intro sema other waits member
      exact shape.tidy.ready_apart member waits
    · rw [dispatched]
      exact left
  refine ⟨⟨nodes, queue, Function.update s.pcb next
    { s.pcb next with status := .taskRunning }, next⟩, ?_, ?_, ?_⟩
  · unfold scheduleNext
    simp only [taken, Call.assert_of (dispatchNode_ne_zero next), Call.ok_bind,
      dispatchEntry_dispatchNode (shape.addr inside)]
    rfl
  · refine shape.moved rfl rfl rfl shape.tidy.dispatch
      ⟨linked.1, linked.2, linked.3⟩ (by rw [dispatched]) (by rw [dispatched])
      rfl ⟨rfl, (shape.agrees next inside).boundary⟩ inside ?_
    intro other member placed
    by_cases same : other = next
    · exact same
    · exact (nobody other member (by simpa [same] using placed)).elim
  · simp [dispatched]

/-- `schedule` returns; the data have the shape of the board after it. -/
theorem schedule_ok (shape : SchedShape b s) (idle : s.idleThread ∈ b.tasks)
    (asleep : (b.requeue s.currentTask).ready = [] →
      (b.requeue s.currentTask).place s.idleThread = .asleep) :
    ∃ d, schedule s = .ok (s.withDispatch d) ∧
      SchedShape (b.schedule s.currentTask s.idleThread) (s.withDispatch d) ∧
      (b.schedule s.currentTask s.idleThread).place d.currentTask = .onCpu := by
  have sameTasks := b.tasks_requeue s.currentTask
  obtain ⟨d₁, first, shape₁, nobody₁⟩ := shape.scheduleCurrent_ok
  obtain ⟨d₂, second, shape₂, nonempty⟩ :=
    shape₁.scheduleIdle_ok (sameTasks ▸ idle) asleep
  have nobody₂ : ∀ other ∈ ((b.requeue s.currentTask).wakeIdle
      s.idleThread).tasks,
      ((b.requeue s.currentTask).wakeIdle s.idleThread).place other ≠
        .onCpu := by
    unfold Board.wakeIdle
    split
    · intro other member placed
      by_cases same : other = s.idleThread
      · simp [Board.readyFront, same] at placed
      · exact nobody₁ other (sameTasks ▸ member)
          (by simpa [Board.readyFront, same] using placed)
    · rw [sameTasks]
      exact nobody₁
  obtain ⟨d₃, third, shape₃, running⟩ :=
    shape₂.scheduleNext_ok nonempty nobody₂
  refine ⟨d₃, ?_, shape₃, running⟩
  unfold schedule
  rw [first, Call.ok_bind, second, Call.ok_bind, third]
  rfl

/-- The running task is marked as blocked and goes to a place that is no
queue. -/
theorem block (shape : SchedShape b s)
    (running : b.place s.currentTask = .onCpu) {place : Place}
    (blocked : place.status = .taskBlocked) (free : ¬ place.Queued) :
    SchedShape (b.put s.currentTask place)
      (s.setStatus s.currentTask .taskBlocked) := by
  have wasFree : ¬ (b.place s.currentTask).Queued := by
    rw [running]
    exact id
  have linked := shape.linked
  refine shape.moved rfl rfl rfl (shape.tidy.put wasFree free)
    ⟨linked.1, linked.2, linked.3⟩ rfl rfl rfl
    ⟨blocked.symm, (shape.agrees _ shape.current).boundary⟩ shape.current ?_
  intro other member placed
  by_cases same : other = s.currentTask
  · exact same
  · exact shape.onCpu other member (by simpa [same] using placed)

theorem enterWaiterQueue_ok (shape : SchedShape b s)
    (running : b.place s.currentTask = .onCpu) (sema : Nat) :
    ∃ nodes queue,
      enterWaiterQueue s sema = .ok (Threads.setSemaphore { s with
        nodes
        resume := Function.update s.resume s.currentTask (.semaDown sema) }
        sema { s.semaphores sema with waiterQueue := queue }) ∧
      SchedShape (b.waitBack sema s.currentTask)
        ((Threads.setSemaphore { s with
          nodes
          resume := Function.update s.resume s.currentTask (.semaDown sema) }
          sema { s.semaphores sema with waiterQueue := queue }).setStatus
            s.currentTask .taskBlocked) := by
  have free : ¬ (b.place s.currentTask).Queued := by
    rw [running]
    exact id
  have notWaiting := shape.tidy.notMem_waiting free
  have notReady := shape.tidy.notMem_ready free
  obtain ⟨nodes, queue, entered, holds, kept⟩ :=
    (shape.linked.waiting sema).queueIn_ok nodeHeap_lawful
      (dispatchNode_ne_zero s.currentTask)
      (mem_map_dispatchNode.not.mpr (notWaiting sema))
      (shape.waiting_short sema)
  rw [← List.map_cons] at kept
  have linked : Linked (b.waitBack sema s.currentTask)
      (Threads.setSemaphore { s with nodes } sema
        { s.semaphores sema with waiterQueue := queue }) := by
    refine shape.waiting_changed kept ?_ ?_ ?_ ?_ rfl rfl ?_
    · intro other member
      rcases List.mem_cons.mp member with rfl | waits
      · exact shape.addr shape.current
      · exact shape.addr ((shape.tidy.mem_waiting sema other).mp waits).1
    · intro other ready member
      rcases List.mem_cons.mp member with rfl | waits
      · exact notReady ready
      · exact shape.tidy.ready_apart ready waits
    · intro other different member waits touched
      rcases List.mem_cons.mp touched with rfl | here
      · exact notWaiting other waits
      · exact different (shape.tidy.waiting_unique waits here)
    · simpa [Board.waitBack] using holds
    · intro other different
      simp [Board.waitBack, different]
  refine ⟨nodes, queue, ?_, ?_⟩
  · unfold enterWaiterQueue
    simp only [assertNotQueued_ok (shape.linked.waiting sema)
      (shape.waiting_short sema) (notWaiting sema), entered, Call.ok_bind]
    rfl
  · refine shape.moved rfl rfl rfl (shape.tidy.waitBack shape.current free sema)
      ⟨linked.1, linked.2, linked.3⟩ rfl rfl rfl
      ⟨rfl, (shape.agrees _ shape.current).boundary⟩ shape.current ?_
    intro other member placed
    by_cases same : other = s.currentTask
    · exact same
    · exact shape.onCpu other member (by simpa [same] using placed)

theorem wakeWaiter_ok (shape : SchedShape b s) (sema : Nat) :
    ∃ queue d,
      wakeWaiter s sema = .ok ((s.setSemaphore sema
        { s.semaphores sema with waiterQueue := queue }).withDispatch d) ∧
      d.currentTask = s.currentTask ∧
      SchedShape (b.wake sema) ((s.setSemaphore sema
        { s.semaphores sema with waiterQueue := queue }).withDispatch d) := by
  have holds := shape.linked.waiting sema
  unfold wakeWaiter Board.wake
  cases split : b.waiting sema with
  | nil =>
      have unchanged : s.setSemaphore sema { s.semaphores sema with
          waiterQueue := (s.semaphores sema).waiterQueue } = s := by
        unfold Threads.setSemaphore
        rw [Function.update_eq_self]
      refine ⟨(s.semaphores sema).waiterQueue,
        ⟨s.nodes, s.threadReadyQueue, s.pcb, s.currentTask⟩, ?_, rfl, ?_⟩
      · rw [unchanged]
        simp only [holds.queueEmpty_eq, split]
        rfl
      · rw [unchanged]
        exact shape
  | cons task rest =>
      have waits : task ∈ b.waiting sema := by simp [split]
      obtain ⟨inside, place⟩ := (shape.tidy.mem_waiting sema task).mp waits
      have taken := holds
      rw [split, List.map_cons] at taken
      obtain ⟨nodes, queue, taken, left, kept, -⟩ :=
        taken.queueOut_ok nodeHeap_lawful
      rw [← List.map_cons, ← split] at kept
      have front : b.waitFront sema = { b with
          place := Function.update b.place task .asleep
          waiting := Function.update b.waiting sema rest } := by
        unfold Board.waitFront
        rw [split]
      have linked : Linked (b.waitFront sema)
          (Threads.setSemaphore { s with nodes } sema
            { s.semaphores sema with waiterQueue := queue }) := by
        refine shape.waiting_changed kept ?_ ?_ ?_ ?_ (by rw [front])
          (by rw [front]) ?_
        · intro other member
          exact shape.addr ((shape.tidy.mem_waiting sema other).mp member).1
        · intro other ready member
          exact shape.tidy.ready_apart ready member
        · intro other different member waits touched
          exact different (shape.tidy.waiting_unique waits touched)
        · simpa [front] using left
        · intro other different
          simp [front, different]
      have shape' : SchedShape (b.waitFront sema)
          (Threads.setSemaphore { s with nodes } sema
            { s.semaphores sema with waiterQueue := queue }) := by
        refine shape.moved rfl rfl rfl (shape.tidy.waitFront sema) linked
          (by rw [front]) (by rw [front])
          (Function.update_eq_self task s.pcb).symm
          ⟨?_, (shape.agrees task inside).boundary⟩ shape.current ?_
        · exact (shape.agrees task inside).status.trans (by rw [place]; rfl)
        · intro other member placed
          by_cases same : other = task
          · simp [same] at placed
          · exact shape.onCpu other member (by simpa [same] using placed)
      have asleep : (b.waitFront sema).place task = .asleep := by
        simp [front]
      obtain ⟨d, woken, same, moved⟩ := shape'.threadUnblock_ok
        (by rw [front]; exact inside) (by rw [asleep]; rfl)
        (by rw [asleep]; exact id)
      refine ⟨queue, d, ?_, same, moved⟩
      simp only [holds.queueEmpty_eq, split, taken,
        dispatchEntry_dispatchNode (shape.addr inside)]
      exact woken

theorem setCounters (shape : SchedShape b s)
    (slice elapsedTicks ticks : Nat) :
    SchedShape b { s.setPcb s.currentTask
      { s.pcb s.currentTask with ticks := slice, elapsedTicks } with
        ticks } := by
  have linked := shape.linked
  have agrees := shape.agrees _ shape.current
  refine shape.moved rfl rfl rfl shape.tidy ⟨linked.1, linked.2, linked.3⟩ rfl
    (Function.update_eq_self s.currentTask b.place).symm rfl
    ⟨agrees.status, agrees.boundary⟩ shape.current ?_
  rw [Function.update_eq_self]
  exact shape.onCpu

theorem countTick (shape : SchedShape b s) : SchedShape b (countTick s) :=
  shape.setCounters _ _ _

theorem setTicks (shape : SchedShape b s) (ticks : Nat) :
    SchedShape b (s.setPcb s.currentTask
      { s.pcb s.currentTask with ticks }) :=
  shape.setCounters ticks _ _

end SchedShape

end Simos
