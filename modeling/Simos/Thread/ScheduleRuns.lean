import Simos.Library.Runs
import Simos.Mm.Malloc
import Simos.Thread.StartMoves

/-!
# Runs of the scheduler

A run starts in the state that `thread_init` leaves.  The current task calls
the functions of the scheduler, or an interrupt handler does so in its name;
a task that was switched out inside `sema_down` first goes on with its loop.
The idle task only ever blocks itself, as `cpu_idle` does.

* `EntersSchedule` lists the states in which `schedule` is entered;
* `SchedOk` is the invariant, with the idle task in nobody's queue;
* `schedule_tasksAgree` is the agreement of statuses and queues.
-/

namespace Simos

open Simos.Library

inductive ThreadEvent where
  | threadStart (task : Nat)
  | clockService
  | threadYield
  | semaDown (sema : Nat)
  | semaUp (sema : Nat)
  | ioqWait (waiter : Nat)
  | ioqWakeup (waiter : Nat)
  | cpuIdle

/-- The current task is outside the functions of the scheduler. -/
def InOwnCode (s : Threads) : Prop :=
  s.resume s.currentTask = .ownCode

/-- The current task runs code of its own choice. -/
def Calls (s : Threads) : Prop :=
  InOwnCode s ∧ s.currentTask ≠ s.idleThread

instance (s : Threads) : Decidable (InOwnCode s) :=
  inferInstanceAs (Decidable (_ = _))

instance (s : Threads) : Decidable (Calls s) :=
  inferInstanceAs (Decidable (_ ∧ _))

/-- The current task tests the semaphore: it calls `sema_down`, or it was
switched in again inside of it. -/
def TestsSemaphore (s : Threads) (sema : Nat) : Prop :=
  Calls s ∨ s.resume s.currentTask = .semaDown sema

/-- One function, up to its own call of `switch_to`. -/
inductive ThreadStep : Threads → ThreadEvent → Threads → Prop
  | threadStart {s s' : Threads} {prio : Int} {function funcArgc task : Nat} :
      Calls s → Simos.threadStart s prio function funcArgc = .ok (task, s') →
      ThreadStep s (.threadStart task) s'
  | clockService {s s' : Threads} :
      InOwnCode s → Simos.clockService s = .ok s' →
      ThreadStep s .clockService s'
  | threadYield {s s' : Threads} :
      Calls s → Simos.threadYield s = .ok s' → ThreadStep s .threadYield s'
  | semaDown {s s' : Threads} {sema : Nat} :
      TestsSemaphore s sema → semaDownLoop s sema = .ok s' →
      ThreadStep s (.semaDown sema) s'
  | semaUp {s s' : Threads} {sema : Nat} :
      InOwnCode s → semaUpTask s sema = .ok s' →
      ThreadStep s (.semaUp sema) s'
  | ioqWait {s s' : Threads} {waiter : Nat} :
      Calls s → Simos.ioqWait s waiter = .ok s' →
      ThreadStep s (.ioqWait waiter) s'
  | ioqWakeup {s s' : Threads} {waiter : Nat} :
      InOwnCode s → Simos.ioqWakeup s waiter = .ok s' →
      ThreadStep s (.ioqWakeup waiter) s'
  | cpuIdle {s s' : Threads} :
      InOwnCode s → s.currentTask = s.idleThread →
      threadBlock s .taskBlocked = .ok s' → ThreadStep s .cpuIdle s'

/-- The states in which the functions called in `s` enter `schedule`. -/
inductive EntersSchedule (s : Threads) : Threads → Prop
  | clockService :
      InOwnCode s → ((countTick s).pcb s.currentTask).ticks = 0 →
      EntersSchedule s (countTick s)
  | threadYield {entry : Threads} :
      Calls s → yieldCurrent s = .ok entry → EntersSchedule s entry
  | semaDown {sema : Nat} {waiting entry : Threads} :
      TestsSemaphore s sema → (s.semaphores sema).value = 0 →
      enterWaiterQueue s sema = .ok waiting →
      blockCurrent waiting .taskBlocked = .ok entry → EntersSchedule s entry
  | ioqWait {waiter : Nat} {waiting entry : Threads} :
      Calls s → registerWaiter s waiter = .ok waiting →
      blockCurrent waiting .taskBlocked = .ok entry → EntersSchedule s entry
  | cpuIdle {entry : Threads} :
      InOwnCode s → s.currentTask = s.idleThread →
      blockCurrent s .taskBlocked = .ok entry → EntersSchedule s entry

def ThreadEvent.started : ThreadEvent → List Nat
  | .threadStart task => [task]
  | .clockService | .threadYield | .semaDown _ | .semaUp _ | .ioqWait _
  | .ioqWakeup _ | .cpuIdle => []

def IdlePlace : Place → Prop
  | .onCpu | .ready | .asleep => True
  | .semaphore _ | .ioq _ => False

/-- The idle task waits for nobody, and the waiter pointers of the ioqueues
point at the tasks that are blocked there. -/
structure Registered (b : Board) (s : Threads) : Prop where
  idle : s.idleThread ∈ b.tasks
  idlePlace : IdlePlace (b.place s.idleThread)
  idleResume : s.resume s.idleThread = .ownCode
  waiters : ∀ waiter, s.waiters waiter ≠ 0 →
    s.waiters waiter ∈ b.tasks ∧
      b.place (s.waiters waiter) = .ioq waiter

/-- The invariant between the functions. -/
structure SchedOk (b : Board) (s : Threads) : Prop where
  shape : SchedShape b s
  registered : Registered b s
  running : b.place s.currentTask = .onCpu
  binary : ∀ sema, (s.semaphores sema).value ≤ 1

namespace Registered

variable {b b' : Board} {s : Threads}

theorem moved (registered : Registered b s) {task : Nat} {place : Place}
    (sameTasks : b'.tasks = b.tasks)
    (toPlace : b'.place = Function.update b.place task place)
    (unregistered : ∀ waiter, b.place task ≠ .ioq waiter)
    (idlePlace : task = s.idleThread → IdlePlace place) :
    Registered b' s where
  idle := sameTasks ▸ registered.idle
  idlePlace := by
    rw [toPlace]
    by_cases same : s.idleThread = task
    · rw [same, Function.update_self]
      exact idlePlace same.symm
    · rw [Function.update_of_ne same]
      exact registered.idlePlace
  idleResume := registered.idleResume
  waiters := by
    intro waiter set
    obtain ⟨inside, place⟩ := registered.waiters waiter set
    rw [sameTasks, toPlace]
    refine ⟨inside, ?_⟩
    rw [Function.update_of_ne]
    · exact place
    · intro same
      exact unregistered waiter (same ▸ place)

/-- When nobody is ready or running, the idle task is asleep. -/
theorem asleep (registered : Registered b s) (tidy : b.Tidy)
    (nobody : ∀ task ∈ b.tasks, b.place task ≠ .onCpu)
    (empty : b.ready = []) : b.place s.idleThread = .asleep := by
  have possible := registered.idlePlace
  have notRunning := nobody _ registered.idle
  have notReady : b.place s.idleThread ≠ .ready := by
    intro ready
    have member := (tidy.mem_ready _).mpr ⟨registered.idle, ready⟩
    rw [empty] at member
    cases member
  revert possible notRunning notReady
  cases b.place s.idleThread <;> simp [IdlePlace]

private theorem requeue (registered : Registered b s) (current : Nat) :
    Registered (b.requeue current) s := by
  unfold Board.requeue
  split
  · rename_i running
    exact registered.moved rfl rfl (by simp [running]) fun _ => trivial
  · exact registered

private theorem wakeIdle (registered : Registered b s) :
    Registered (b.wakeIdle s.idleThread) s := by
  unfold Board.wakeIdle
  split
  · refine registered.moved rfl rfl ?_ fun _ => trivial
    intro waiter place
    have possible := registered.idlePlace
    rw [place] at possible
    exact possible
  · exact registered

private theorem wake (registered : Registered b s) (tidy : b.Tidy)
    (sema : Nat) :
    Registered (b.wake sema) s := by
  unfold Board.wake
  split
  · exact registered
  · rename_i task rest split
    have waits := ((tidy.mem_waiting sema task).mp (by simp [split])).2
    have left : b.waitFront sema = { b with
        place := Function.update b.place task .asleep
        waiting := Function.update b.waiting sema rest } := by
      unfold Board.waitFront
      rw [split]
    have toPlace : (b.waitFront sema).place =
        Function.update b.place task .asleep := by
      rw [left]
    have registered' : Registered (b.waitFront sema) s :=
      registered.moved (b.tasks_waitFront sema) toPlace (by simp [waits])
        fun _ => trivial
    exact registered'.moved rfl rfl (by simp [left]) fun _ => trivial

private theorem dispatch (registered : Registered b s) (tidy : b.Tidy) :
    Registered b.dispatch s := by
  unfold Board.dispatch
  split
  · exact registered
  · rename_i task rest split
    have ready := ((tidy.mem_ready task).mp (by simp [split])).2
    exact registered.moved rfl rfl (by simp [ready]) fun _ => trivial

end Registered

namespace SchedShape

variable {b : Board} {s : Threads}

/-- `schedule` returns from every entry, and when it finds the ready queue
empty the idle task is blocked. -/
theorem schedule_step (shape : SchedShape b s) (registered : Registered b s) :
    ∃ d, schedule s = .ok (s.withDispatch d) ∧
      (∃ b', SchedShape b' (s.withDispatch d) ∧
        Registered b' (s.withDispatch d) ∧ b'.tasks = b.tasks ∧
        b'.place d.currentTask = .onCpu) ∧
      ∃ checked, scheduleCurrent s = .ok checked ∧
        (checked.threadReadyQueue.queueLen = 0 →
          (checked.pcb checked.idleThread).status = .taskBlocked) := by
  obtain ⟨first, requeued, shape₁, nobody⟩ := shape.scheduleCurrent_ok
  have tasks₁ := b.tasks_requeue s.currentTask
  have registered₁ := registered.requeue s.currentTask
  have asleep := registered₁.asleep shape₁.tidy
    (fun task inside => nobody task (tasks₁ ▸ inside))
  have tidy₂ : ((b.requeue s.currentTask).wakeIdle s.idleThread).Tidy := by
    apply shape₁.tidy.wakeIdle registered₁.idle
    intro empty
    rw [asleep empty]
    exact id
  obtain ⟨d, returned, shape', running⟩ :=
    shape.schedule_ok registered.idle asleep
  have registered' := registered₁.wakeIdle.dispatch tidy₂
  refine ⟨d, returned, ⟨_, shape', ?_, ?_, running⟩, _, requeued, ?_⟩
  · exact ⟨registered'.idle, registered'.idlePlace, registered'.idleResume,
      registered'.waiters⟩
  · simp [Board.schedule]
  · intro empty
    have place := asleep (shape₁.queueLen_eq_zero_iff.mp empty)
    exact (shape₁.agrees _ registered₁.idle).status.trans (by rw [place]; rfl)

end SchedShape

theorem blockCurrent_taskBlocked (s : Threads) :
    blockCurrent s .taskBlocked =
      .ok (s.setStatus s.currentTask .taskBlocked) :=
  rfl

namespace SchedShape

variable {b : Board} {s : Threads}

private theorem setValue (shape : SchedShape b s) (sema value : Nat)
    (resume : Nat → Resume) :
    SchedShape b (Threads.setSemaphore { s with resume } sema
      { s.semaphores sema with value }) := by
  have linked := shape.linked
  refine ⟨shape.tidy, shape.layout, shape.placed, shape.totalList, shape.main,
    ⟨linked.1, ?_, linked.3⟩, shape.agrees, shape.current, shape.onCpu⟩
  intro other
  unfold Threads.setSemaphore
  by_cases same : other = sema
  · subst other
    simpa using linked.waiting sema
  · simpa [same] using linked.waiting other

end SchedShape

namespace SchedOk

variable {b : Board} {s s' : Threads} {entry : Threads}

theorem not_idle (ok : SchedOk b s) {sema : Nat}
    (tests : TestsSemaphore s sema) : s.currentTask ≠ s.idleThread := by
  rcases tests with calls | inside
  · exact calls.2
  · intro same
    rw [same, ok.registered.idleResume] at inside
    cases inside

theorem enters (ok : SchedOk b s) (enters : EntersSchedule s entry) :
    ∃ b', SchedShape b' entry ∧ Registered b' entry ∧ b'.tasks = b.tasks ∧
      ∀ sema, (entry.semaphores sema).value = (s.semaphores sema).value := by
  have shape := ok.shape
  have registered := ok.registered
  have running := ok.running
  have unregistered : ∀ waiter, b.place s.currentTask ≠ .ioq waiter := by
    simp [running]
  cases enters with
  | clockService _ _ =>
      exact ⟨b, shape.countTick, ⟨registered.idle, registered.idlePlace,
        registered.idleResume, registered.waiters⟩, rfl, fun _ => rfl⟩
  | threadYield _ yielded =>
      obtain ⟨d, yielded', -, moved⟩ := shape.yieldCurrent_ok running
      rw [yielded', Except.ok.injEq] at yielded
      subst entry
      have registered' := registered.moved
        (show (b.readyBack s.currentTask).tasks = b.tasks from rfl) rfl
        unregistered fun _ => trivial
      exact ⟨_, moved, ⟨registered'.idle, registered'.idlePlace,
        registered'.idleResume, registered'.waiters⟩, rfl, fun _ => rfl⟩
  | @semaDown sema waiting _ tests _ entered blocked =>
      obtain ⟨nodes, queue, entered', moved⟩ :=
        shape.enterWaiterQueue_ok running sema
      rw [entered', Except.ok.injEq] at entered
      subst waiting
      rw [blockCurrent_taskBlocked, Except.ok.injEq] at blocked
      subst entry
      have notIdle := ok.not_idle tests
      have registered' := registered.moved
        (show (b.waitBack sema s.currentTask).tasks = b.tasks from rfl) rfl
        unregistered fun same => (notIdle same).elim
      refine ⟨_, moved, ⟨registered'.idle, registered'.idlePlace, ?_,
        registered'.waiters⟩, rfl, ?_⟩
      · exact (Function.update_of_ne notIdle.symm _ _).trans
          registered.idleResume
      · intro other
        by_cases same : other = sema
        · simp [Threads.setSemaphore, Threads.setStatus, Threads.setPcb, same]
        · simp [Threads.setSemaphore, Threads.setStatus, Threads.setPcb, same]
  | @ioqWait waiter waiting _ calls noted blocked =>
      simp only [registerWaiter, Call.bind_eq_ok_iff, Call.assert_eq_ok_iff,
        Call.pure_eq_ok, Except.ok.injEq, exists_const] at noted
      obtain ⟨free, rfl⟩ := noted
      rw [blockCurrent_taskBlocked, Except.ok.injEq] at blocked
      subst entry
      have moved := shape.block running (show (Place.ioq waiter).status = _
        from rfl) id
      have linked := moved.linked
      have registered' := registered.moved
        (show (b.put s.currentTask (.ioq waiter)).tasks = b.tasks from rfl) rfl
        unregistered fun same => (calls.2 same).elim
      refine ⟨_, ⟨moved.tidy, moved.layout, moved.placed, moved.totalList,
        moved.main, ⟨linked.1, linked.2, linked.3⟩, moved.agrees,
        moved.current, moved.onCpu⟩, ⟨registered'.idle, registered'.idlePlace,
        registered'.idleResume, ?_⟩, rfl, fun _ => rfl⟩
      intro other
      by_cases same : other = waiter
      · intro _
        simp [same, Threads.setStatus, Threads.setPcb, Board.put,
          shape.current]
      · simpa [same, Threads.setStatus, Threads.setPcb] using
          registered'.waiters other
  | cpuIdle _ idle blocked =>
      rw [blockCurrent_taskBlocked, Except.ok.injEq] at blocked
      subst entry
      have registered' := registered.moved
        (show (b.put s.currentTask .asleep).tasks = b.tasks from rfl) rfl
        unregistered fun _ => trivial
      exact ⟨_, shape.block running rfl id, ⟨registered'.idle,
        registered'.idlePlace, registered'.idleResume, registered'.waiters⟩,
        rfl, fun _ => rfl⟩

/-- The invariant holds again when `schedule` has switched. -/
theorem switched (ok : SchedOk b s) (enters : EntersSchedule s entry)
    (returned : schedule entry = .ok s') :
    ∃ b', SchedOk b' s' ∧ b'.tasks = b.tasks := by
  obtain ⟨b₁, shape, registered, sameTasks, values⟩ := ok.enters enters
  obtain ⟨d, returned', ⟨b₂, shape', registered', sameTasks', running⟩, -⟩ :=
    shape.schedule_step registered
  rw [returned', Except.ok.injEq] at returned
  subst s'
  refine ⟨b₂, ⟨shape', registered', running, ?_⟩, sameTasks'.trans sameTasks⟩
  intro sema
  exact (values sema).trans_le (ok.binary sema)

theorem threadStart (ok : SchedOk b s) {prio : Int}
    {function funcArgc task : Nat}
    (returned : Simos.threadStart s prio function funcArgc = .ok (task, s')) :
    SchedOk (b.start task) s' := by
  obtain ⟨fresh, shape, current, idle, waiters, resume, semaphores⟩ :=
    ok.shape.threadStart_ok returned
  have registered := ok.registered
  have kept : ∀ other ∈ b.tasks,
      (b.start task).place other = b.place other := by
    intro other inside
    have different : other ≠ task := fun same => fresh (same ▸ inside)
    simp [Board.start, different]
  refine ⟨shape, ⟨?_, ?_, ?_, ?_⟩, ?_, ?_⟩
  · rw [idle]
    exact List.mem_cons_of_mem task registered.idle
  · rw [idle, kept _ registered.idle]
    exact registered.idlePlace
  · rw [idle, resume]
    exact registered.idleResume
  · intro waiter set
    rw [waiters] at set ⊢
    obtain ⟨inside, place⟩ := registered.waiters waiter set
    rw [kept _ inside]
    exact ⟨List.mem_cons_of_mem task inside, place⟩
  · rw [current, kept _ ok.shape.current]
    exact ok.running
  · rw [semaphores]
    exact ok.binary

theorem tick (ok : SchedOk b s) (ticks : Nat) :
    SchedOk b ((countTick s).setPcb s.currentTask
      { (countTick s).pcb s.currentTask with ticks }) := by
  have registered := ok.registered
  refine ⟨ok.shape.countTick.setTicks ticks, ?_, ok.running, ok.binary⟩
  exact ⟨registered.idle, registered.idlePlace, registered.idleResume,
    registered.waiters⟩

theorem setValue (ok : SchedOk b s) (sema : Nat) {value : Nat}
    (binary : value ≤ 1) {resume : Nat → Resume}
    (idleResume : resume s.idleThread = .ownCode) :
    SchedOk b (Threads.setSemaphore { s with resume } sema
      { s.semaphores sema with value }) := by
  have registered := ok.registered
  refine ⟨ok.shape.setValue sema value resume, ⟨registered.idle,
    registered.idlePlace, idleResume, registered.waiters⟩, ok.running, ?_⟩
  intro other
  by_cases same : other = sema
  · simpa [Threads.setSemaphore, same] using binary
  · simpa [Threads.setSemaphore, same] using ok.binary other

theorem semaUp (ok : SchedOk b s) {sema : Nat}
    (returned : semaUpTask s sema = .ok s') :
    ∃ b', SchedOk b' s' ∧ b'.tasks = b.tasks := by
  obtain ⟨queue, d, woken, current, shape⟩ := ok.shape.wakeWaiter_ok sema
  have registered := ok.registered.wake ok.shape.tidy sema
  simp only [semaUpTask, woken, Call.bind_eq_ok_iff, Call.assert_eq_ok_iff,
    Call.pure_eq_ok, Except.ok.injEq, exists_const, exists_eq_left'] at returned
  obtain ⟨_, one, rfl⟩ := returned
  have running : (b.wake sema).place s.currentTask = .onCpu := by
    have here := ok.running
    unfold Board.wake Board.waitFront
    cases split : b.waiting sema with
    | nil =>
        exact here
    | cons task rest =>
        have waits := ((ok.shape.tidy.mem_waiting sema task).mp
          (by simp [split])).2
        have different : s.currentTask ≠ task := by
          intro same
          rw [same, waits] at here
          cases here
        simp [Board.readyFront, different, here]
  have before : SchedOk (b.wake sema) ((s.setSemaphore sema
      { s.semaphores sema with waiterQueue := queue }).withDispatch d) := by
    refine ⟨shape, ⟨registered.idle, registered.idlePlace,
      registered.idleResume, registered.waiters⟩, ?_, ?_⟩
    · exact (congrArg (b.wake sema).place current).trans running
    · intro other
      by_cases same : other = sema
      · simpa [Threads.setSemaphore, Threads.withDispatch, same] using
          ok.binary sema
      · simpa [Threads.setSemaphore, Threads.withDispatch, same] using
          ok.binary other
  exact ⟨_, before.setValue sema (Nat.le_of_eq one)
    ok.registered.idleResume, b.tasks_wake sema⟩

theorem ioqWakeup (ok : SchedOk b s) {waiter : Nat}
    (returned : Simos.ioqWakeup s waiter = .ok s') :
    ∃ b', SchedOk b' s' ∧ b'.tasks = b.tasks := by
  have registered := ok.registered
  simp only [Simos.ioqWakeup, Call.bind_eq_ok_iff, Call.assert_eq_ok_iff,
    Call.pure_eq_ok, Except.ok.injEq, exists_const] at returned
  obtain ⟨set, s₁, woken, rfl⟩ := returned
  obtain ⟨inside, place⟩ := registered.waiters waiter set
  obtain ⟨d, woken', current, shape⟩ := ok.shape.threadUnblock_ok inside
    (by rw [place]; rfl) (by rw [place]; exact id)
  rw [woken', Except.ok.injEq] at woken
  subst s₁
  have linked := shape.linked
  have others : ∀ task, b.place task ≠ .ioq waiter →
      (b.readyFront (s.waiters waiter)).place task = b.place task := by
    intro task elsewhere
    have different : task ≠ s.waiters waiter := fun same =>
      elsewhere (same ▸ place)
    simp [Board.readyFront, different]
  have idlePlace := registered.idlePlace
  refine ⟨b.readyFront (s.waiters waiter), ⟨⟨shape.tidy, shape.layout,
    shape.placed, shape.totalList, shape.main,
    ⟨linked.1, linked.2, linked.3⟩, shape.agrees, shape.current,
    shape.onCpu⟩, ⟨registered.idle, ?_, registered.idleResume, ?_⟩, ?_,
    ok.binary⟩, rfl⟩
  · have elsewhere : b.place s.idleThread ≠ .ioq waiter := by
      intro here
      rw [here] at idlePlace
      exact idlePlace
    exact (others _ elsewhere).symm ▸ idlePlace
  · intro other stillSet
    by_cases same : other = waiter
    · simp [same] at stillSet
    · simp only [Threads.withDispatch, Function.update_of_ne same] at stillSet ⊢
      obtain ⟨inside', place'⟩ := registered.waiters other stillSet
      refine ⟨inside', (others _ ?_).trans place'⟩
      rw [place']
      simpa using same
  · have here := ok.running
    refine (congrArg _ current).trans ((others _ ?_).trans here)
    rw [here]
    simp

theorem step {event : ThreadEvent} (ok : SchedOk b s)
    (taken : ThreadStep s event s') :
    ∃ b', SchedOk b' s' ∧ b'.tasks = event.started ++ b.tasks := by
  cases taken with
  | threadStart _ returned =>
      exact ⟨_, ok.threadStart returned, rfl⟩
  | clockService ownCode returned =>
      have sameTask : (countTick s).currentTask = s.currentTask := rfl
      simp only [clockService, sameTask, Call.bind_eq_ok_iff,
        Call.assert_eq_ok_iff, exists_const] at returned
      obtain ⟨_, returned⟩ := returned
      by_cases zero : ((countTick s).pcb s.currentTask).ticks = 0
      · exact ok.switched (.clockService ownCode zero)
          (by rwa [if_pos zero] at returned)
      · have counted := ok.tick (((countTick s).pcb s.currentTask).ticks - 1)
        rw [if_neg zero, Call.pure_eq_ok, Except.ok.injEq] at returned
        exact ⟨b, returned ▸ counted, rfl⟩
  | threadYield calls returned =>
      simp only [threadYield, Call.bind_eq_ok_iff] at returned
      obtain ⟨entry, yielded, returned⟩ := returned
      exact ok.switched (.threadYield calls yielded) returned
  | @semaDown _ sema tests returned =>
      unfold semaDownLoop at returned
      by_cases zero : (s.semaphores sema).value = 0
      · simp only [if_pos zero, threadBlock, Call.bind_eq_ok_iff] at returned
        obtain ⟨waiting, entered, entry, blocked, returned⟩ := returned
        exact ok.switched (.semaDown tests zero entered blocked) returned
      · simp only [if_neg zero, Call.bind_eq_ok_iff, Call.assert_eq_ok_iff,
          Call.pure_eq_ok, Except.ok.injEq, exists_const] at returned
        obtain ⟨free, rfl⟩ := returned
        refine ⟨b, ok.setValue sema (by omega) ?_, rfl⟩
        rw [Function.update_of_ne (ok.not_idle tests).symm]
        exact ok.registered.idleResume
  | semaUp _ returned =>
      exact ok.semaUp returned
  | ioqWait calls returned =>
      simp only [Simos.ioqWait, threadBlock, Call.bind_eq_ok_iff] at returned
      obtain ⟨waiting, noted, entry, blocked, returned⟩ := returned
      exact ok.switched (.ioqWait calls noted blocked) returned
  | ioqWakeup _ returned =>
      exact ok.ioqWakeup returned
  | cpuIdle ownCode idle returned =>
      simp only [threadBlock, Call.bind_eq_ok_iff] at returned
      obtain ⟨entry, blocked, returned⟩ := returned
      exact ok.switched (.cpuIdle ownCode idle blocked) returned

end SchedOk

/-! ## The state that `thread_init` leaves -/

/-- The data before `thread_init`: the memory pools are set up, the head of
the total list lies in the kernel image, all semaphores are binary and free of
waiters, and nobody waits at an ioqueue. -/
structure ThreadBoot (prior : Threads) (totalMem : Nat) : Prop where
  memory : ∃ cold, memInit cold totalMem = .ok prior.mm
  totalList : 0 < prior.threadTotalList ∧ prior.threadTotalList + 8 ≤ mainPcb
  binary : ∀ sema, (prior.semaphores sema).value ≤ 1
  noWaiters : ∀ sema, (prior.semaphores sema).waiterQueue = queueInit
  waiters : ∀ waiter, prior.waiters waiter = 0
  resume : ∀ task, prior.resume task = .ownCode

def mainBoard : Board where
  tasks := [mainPcb]
  place _ := .onCpu
  ready := []
  waiting _ := []

private theorem mainBoard_tidy : mainBoard.Tidy where
  tasks := List.nodup_singleton mainPcb
  ready := List.nodup_nil
  mem_ready := by simp [mainBoard]
  waiting := fun _ => List.nodup_nil
  mem_waiting := by simp [mainBoard]

private theorem ThreadBoot.layout {prior : Threads} {totalMem : Nat}
    (boot : ThreadBoot prior totalMem) (large : 0x2000000 ≤ totalMem) :
    KernelPoolLayout prior.mm := by
  obtain ⟨cold, booted⟩ := boot.memory
  simp only [memInit, Call.bind_eq_ok_iff, Call.pure_eq_ok, Except.ok.injEq]
    at booted
  obtain ⟨mm, pools, equal⟩ := booted
  rw [← equal]
  exact (memPoolInit_layout large pools).1.withMemory _

theorem initMainThread_ok {s s' : Threads}
    (initialized : initMainThread s = .ok s') (layout : KernelPoolLayout s.mm)
    (totalList : 0 < s.threadTotalList ∧ s.threadTotalList + 8 ≤ mainPcb)
    (current : s.currentTask = mainPcb)
    (linked : Linked { mainBoard with tasks := [] } s) :
    SchedShape mainBoard s' ∧ s'.waiters = s.waiters ∧
      s'.resume = s.resume ∧ s'.semaphores = s.semaphores := by
  simp only [initMainThread, current, Call.bind_eq_ok_iff] at initialized
  obtain ⟨s₁, created, listed⟩ := initialized
  have new := pcbInit_newPcb created
  have status := new.status_eq
  have boundary := new.boundary
  rw [if_pos rfl] at status
  have addr : PcbAddr mainPcb := by
    unfold PcbAddr mainPcb
    omega
  have roomy : Roomy { mainBoard with tasks := [] } s.threadTotalList mainPcb :=
    ⟨addr, by simp, by simp, by simp [mainBoard], by simp [mainBoard],
      totalList.2⟩
  have linked₁ := new.linked roomy (by simp [mainBoard]) (by simp [mainBoard])
    ⟨linked.1, linked.2, linked.3⟩
  obtain ⟨memory, pidLock, nextPid, pcb, rfl⟩ := new.changed
  obtain ⟨rfl, linked₂⟩ := totalListAdd_linked linked₁ roomy listed
  refine ⟨⟨mainBoard_tidy, layout.withMemory memory, ?_, totalList, rfl,
    linked₂, ?_, ?_, ?_⟩, rfl, rfl, rfl⟩
  · intro task inside
    exact Or.inl (List.mem_singleton.mp inside)
  · intro task inside
    rw [List.mem_singleton.mp inside]
    exact ⟨status, boundary⟩
  · exact List.mem_singleton.mpr rfl
  · intro task inside _
    exact List.mem_singleton.mp inside

theorem threadInit_ok {prior first : Threads} {totalMem : Nat}
    (boot : ThreadBoot prior totalMem) (large : 0x2000000 ≤ totalMem)
    (initialized : threadInit prior = .ok first) :
    SchedOk (mainBoard.start first.idleThread) first := by
  simp only [threadInit, Call.bind_eq_ok_iff, Call.pure_eq_ok,
    Except.ok.injEq] at initialized
  obtain ⟨s₁, mainDone, ⟨idle, s₂⟩, idleDone, rfl⟩ := initialized
  have total : Ring (listInit prior.nodes prior.threadTotalList)
      prior.threadTotalList [] := by
    rw [Ring.singleton_iff]
    unfold listInit
    constructor
    · rw [nodeHeap_lawful.next_setPrev _ trivial trivial,
        nodeHeap_lawful.next_setNext_self _ trivial trivial]
    · rw [nodeHeap_lawful.prev_setPrev_self _ trivial trivial]
  obtain ⟨shape₁, waiters₁, resume₁, semaphores₁⟩ :=
    initMainThread_ok mainDone (boot.layout large) boot.totalList rfl
      ⟨rfl, fun sema => boot.noWaiters sema, total⟩
  obtain ⟨fresh, shape, current, _, waiters, resume, semaphores⟩ :=
    shape₁.threadStart_ok idleDone
  have linked := shape.linked
  have notMain : mainPcb ≠ idle := fun same =>
    fresh (List.mem_singleton.mpr same.symm)
  refine ⟨⟨shape.tidy, shape.layout, shape.placed, shape.totalList, shape.main,
    ⟨linked.1, linked.2, linked.3⟩, shape.agrees, shape.current, shape.onCpu⟩,
    ⟨List.mem_cons_self, ?_, ?_, ?_⟩, ?_, ?_⟩
  · simp [Board.start, IdlePlace]
  · simp only [resume, resume₁]
    exact boot.resume idle
  · intro waiter set
    simp only [waiters, waiters₁] at set
    exact (set (boot.waiters waiter)).elim
  · have isMain := List.mem_singleton.mp shape₁.current
    simp only [current, isMain, Board.start, Function.update_of_ne notMain]
    rfl
  · simp only [semaphores, semaphores₁]
    exact boot.binary

def started (first : Threads) (trace : List (ThreadEvent × Threads)) :
    List Nat :=
  mainPcb :: first.idleThread :: trace.flatMap fun step => step.1.started

/-- The invariant holds along every run. -/
theorem threadRun_ok {prior first last : Threads} {totalMem : Nat}
    {trace : List (ThreadEvent × Threads)}
    (boot : ThreadBoot prior totalMem) (large : 0x2000000 ≤ totalMem)
    (initialized : threadInit prior = .ok first)
    (run : Run ThreadStep first trace last) :
    ∃ b, SchedOk b last ∧ b.tasks = (started first trace).reverse := by
  induction run with
  | start =>
      exact ⟨_, threadInit_ok boot large initialized, rfl⟩
  | @next trace current last event before taken inductionHypothesis =>
      obtain ⟨b, ok, tasks⟩ := inductionHypothesis
      obtain ⟨b', ok', tasks'⟩ := ok.step taken
      refine ⟨b', ok', ?_⟩
      rw [tasks', tasks]
      simp only [started, List.flatMap_append, List.flatMap_cons,
        List.flatMap_nil, List.append_nil, List.reverse_cons,
        List.reverse_append, List.append_assoc]
      cases event <;> rfl

/-! ## Agreement -/

/-- The statuses of the tasks agree with the queues: `ready` is what
`thread_ready_queue` holds and `waiting` what the waiter queues hold. -/
structure TasksAgree (tasks ready : List Nat) (waiting : Nat → List Nat)
    (s : Threads) : Prop where
  nodup : tasks.Nodup
  running : s.currentTask ∈ tasks ∧ ∀ task ∈ tasks,
    ((s.pcb task).status = .taskRunning ↔ task = s.currentTask)
  readyQueue : QueueHolds s.nodes s.threadReadyQueue (ready.map dispatchNode)
  readyOnce : ready.Nodup
  mem_ready : ∀ task, task ∈ ready ↔
    task ∈ tasks ∧ (s.pcb task).status = .taskReady
  queueLen : s.threadReadyQueue.queueLen =
    (tasks.filter fun task => (s.pcb task).status = .taskReady).length
  waiterQueue : ∀ sema, QueueHolds s.nodes (s.semaphores sema).waiterQueue
    ((waiting sema).map dispatchNode)
  blocked : ∀ task ∈ tasks, (s.pcb task).status = .taskBlocked →
    task ∉ ready ∧
      ∀ sema other, task ∈ waiting sema → task ∈ waiting other → sema = other
  totalList : Ring s.nodes s.threadTotalList (tasks.reverse.map listNode)

private theorem SchedOk.tasksAgree {b : Board} {s : Threads} {tasks : List Nat}
    (ok : SchedOk b s) (same : b.tasks = tasks.reverse) :
    TasksAgree tasks b.ready b.waiting s := by
  have tidy := ok.shape.tidy
  have inside : ∀ task, task ∈ tasks ↔ task ∈ b.tasks := by
    simp [same]
  have status : ∀ task ∈ b.tasks,
      (s.pcb task).status = (b.place task).status := fun task member =>
    (ok.shape.agrees task member).status
  have ready : ∀ task, task ∈ b.ready ↔
      task ∈ tasks ∧ (s.pcb task).status = .taskReady := by
    intro task
    rw [tidy.mem_ready, inside]
    refine and_congr_right fun member => ?_
    rw [status task member, Place.status_eq_ready_iff]
  have nodup : tasks.Nodup := by
    have reversed := tidy.tasks
    rwa [same, List.nodup_reverse] at reversed
  have queued := ok.shape.linked.ready.queueLen_eq
  constructor
  case nodup =>
    exact nodup
  case running =>
    refine ⟨(inside _).mpr ok.shape.current, ?_⟩
    intro task member
    rw [inside] at member
    rw [status task member, Place.status_eq_running_iff]
    constructor
    · exact ok.shape.onCpu task member
    · rintro rfl
      exact ok.running
  case readyQueue =>
    exact ok.shape.linked.ready
  case readyOnce =>
    exact tidy.ready
  case mem_ready =>
    exact ready
  case queueLen =>
    rw [queued, List.length_map]
    apply List.Perm.length_eq
    rw [List.perm_ext_iff_of_nodup tidy.ready (nodup.filter _)]
    intro task
    rw [ready]
    simp
  case waiterQueue =>
    exact ok.shape.linked.waiting
  case blocked =>
    intro task member isBlocked
    refine ⟨fun isReady => ?_, fun sema other => tidy.waiting_unique⟩
    rw [((ready task).mp isReady).2] at isBlocked
    cases isBlocked
  case totalList =>
    rw [← same]
    exact ok.shape.linked.total

/-- Statuses and queues agree in every state; `schedule` returns from every
entry, and the idle task is blocked when the idle check finds the ready queue
empty. -/
theorem schedule_tasksAgree {prior first last : Threads} {totalMem : Nat}
    {trace : List (ThreadEvent × Threads)}
    (boot : ThreadBoot prior totalMem) (large : 0x2000000 ≤ totalMem)
    (initialized : threadInit prior = .ok first)
    (run : Run ThreadStep first trace last) :
    (∃ ready waiting, TasksAgree (started first trace) ready waiting last) ∧
      (last.threadReadyQueue.queueLen = 0 →
        (last.pcb last.idleThread).status = .taskBlocked ∨
          last.currentTask = last.idleThread) ∧
      ∀ entry, EntersSchedule last entry →
        ∃ checked next, scheduleCurrent entry = .ok checked ∧
          (checked.threadReadyQueue.queueLen = 0 →
            (checked.pcb checked.idleThread).status = .taskBlocked) ∧
          schedule entry = .ok next := by
  obtain ⟨b, ok, tasks⟩ := threadRun_ok boot large initialized run
  refine ⟨⟨b.ready, b.waiting, ok.tasksAgree tasks⟩, ?_, ?_⟩
  · intro empty
    have noReady := ok.shape.queueLen_eq_zero_iff.mp empty
    by_cases current : last.currentTask = last.idleThread
    · exact Or.inr current
    · left
      have idle := ok.registered.idle
      rw [(ok.shape.agrees _ idle).status, Place.status_eq_blocked_iff]
      constructor
      · intro onCpu
        exact current (ok.shape.onCpu _ idle onCpu).symm
      · intro ready
        have member := (ok.shape.tidy.mem_ready _).mpr ⟨idle, ready⟩
        rw [noReady] at member
        cases member
  · intro entry enters
    obtain ⟨b', shape, registered, _⟩ := ok.enters enters
    obtain ⟨d, returned, _, checked, requeued, idle⟩ :=
      shape.schedule_step registered
    exact ⟨checked, _, requeued, idle, returned⟩

/-- The data segment at boot, all zero, with the memory already set up and the
semaphores initialised to one. -/
def coldThreads (mm : MmState) : Threads where
  mm := mm
  pcb _ := ⟨0, .taskRunning, 0, 0, 0, 0, 0, 0⟩
  nodes := ⟨fun _ => ⟨0, 0⟩⟩
  mainThread := 0
  idleThread := 0
  threadReadyQueue := ⟨0, 0⟩
  threadTotalList := 0xc0020000
  currentTask := 0
  pidLock := ⟨0, ⟨0, []⟩, 0⟩
  nextPid := 0
  ticks := 0
  semaphores _ := ⟨1, queueInit⟩
  waiters _ := 0
  resume _ := .ownCode
  kernelFunc := 0xc0003000
  cpuIdleFunc := 0xc0003100

theorem coldThreads_boot {mm : MmState} {totalMem : Nat}
    (booted : memInit coldMm totalMem = .ok mm) :
    ThreadBoot (coldThreads mm) totalMem := by
  have listHead : 0 < 0xc0020000 ∧ 0xc0020000 + 8 ≤ mainPcb := by decide
  exact ⟨⟨coldMm, booted⟩, listHead, fun _ => Nat.le_refl 1, fun _ => rfl,
    fun _ => rfl, fun _ => rfl⟩

private theorem idleAlone_run :
    ∃ mm first last, memInit coldMm 0x2200000 = .ok mm ∧
      threadInit (coldThreads mm) = .ok first ∧
      Run ThreadStep first [(.ioqWait 0, last)] last ∧
      last.threadReadyQueue.queueLen = 0 ∧
      (last.pcb last.idleThread).status = .taskRunning := by
  have computed : (do
      let mm ← memInit coldMm 0x2200000
      let first ← threadInit (coldThreads mm)
      let last ← ioqWait first 0
      return (decide (Calls first), last.threadReadyQueue.queueLen,
        (last.pcb last.idleThread).status) :
        Call (Bool × Nat × TaskStatus)) = .ok (true, 0, .taskRunning) := by
    decide +kernel
  simp only [Call.bind_eq_ok_iff, Call.pure_eq_ok, Except.ok.injEq,
    Prod.mk.injEq, decide_eq_true_eq] at computed
  obtain ⟨mm, booted, first, initialized, last, waited, calls, empty, status⟩ :=
    computed
  exact ⟨mm, first, last, booted, initialized,
    Run.next Run.start (.ioqWait calls waited), empty, status⟩

/-- The agreement in the run that leaves the idle task alone. -/
theorem schedule_tasksAgree_idleAlone :
    ∃ mm first last, memInit coldMm 0x2200000 = .ok mm ∧
      threadInit (coldThreads mm) = .ok first ∧
      Run ThreadStep first [(.ioqWait 0, last)] last ∧
      ∃ ready waiting,
        TasksAgree [mainPcb, first.idleThread] ready waiting last := by
  obtain ⟨mm, first, last, booted, initialized, run, _⟩ := idleAlone_run
  exact ⟨mm, first, last, booted, initialized, run,
    (schedule_tasksAgree (coldThreads_boot booted) (by decide) initialized
      run).1⟩

/-- Outside `schedule` the ready queue can be empty while the idle task is
running and not blocked. -/
theorem idleThread_not_blocked :
    ∃ mm first last trace, memInit coldMm 0x2200000 = .ok mm ∧
      threadInit (coldThreads mm) = .ok first ∧
      Run ThreadStep first trace last ∧
      last.threadReadyQueue.queueLen = 0 ∧
      (last.pcb last.idleThread).status ≠ .taskBlocked := by
  obtain ⟨mm, first, last, booted, initialized, run, empty, status⟩ :=
    idleAlone_run
  exact ⟨mm, first, last, _, booted, initialized, run, empty,
    by rw [status]; decide⟩

end Simos
