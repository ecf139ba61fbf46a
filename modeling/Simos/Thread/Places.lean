import Simos.Thread.Schedule

/-!
# Where the tasks are

The abstract view of the scheduler: every task stands in one place, and the
ready queue and the waiter queues are the sequences of the tasks whose place
they are.  A task has a single dispatch node, so a queue may only take in a
task that stands in no queue; `Board.Tidy` is what every move keeps.
-/

namespace Simos

/-- The places of a task.  A task that is `asleep` is blocked and in nobody's
hands; only the idle task stays so. -/
inductive Place where
  | onCpu
  | ready
  | semaphore (sema : Nat)
  | ioq (waiter : Nat)
  | asleep
  deriving DecidableEq

namespace Place

def status : Place → TaskStatus
  | onCpu => .taskRunning
  | ready => .taskReady
  | semaphore _ | ioq _ | asleep => .taskBlocked

def Queued : Place → Prop
  | ready | semaphore _ => True
  | onCpu | ioq _ | asleep => False

@[simp]
theorem status_eq_running_iff {place : Place} :
    place.status = .taskRunning ↔ place = .onCpu := by
  cases place <;> simp [status]

@[simp]
theorem status_eq_ready_iff {place : Place} :
    place.status = .taskReady ↔ place = .ready := by
  cases place <;> simp [status]

theorem status_eq_blocked_iff {place : Place} :
    place.status = .taskBlocked ↔ place ≠ .onCpu ∧ place ≠ .ready := by
  cases place <;> simp [status]

private theorem ne_ready_of_not_queued {place : Place} (free : ¬ place.Queued) :
    place ≠ .ready := by
  rintro rfl
  exact free trivial

private theorem ne_semaphore_of_not_queued {place : Place}
    (free : ¬ place.Queued) (sema : Nat) : place ≠ .semaphore sema := by
  rintro rfl
  exact free trivial

end Place

/-- The tasks, newest first, their places, and the queues. -/
structure Board where
  tasks : List Nat
  place : Nat → Place
  ready : List Nat
  waiting : Nat → List Nat

namespace Board

def put (b : Board) (task : Nat) (place : Place) : Board :=
  { b with place := Function.update b.place task place }

def readyBack (b : Board) (task : Nat) : Board :=
  { b with
    place := Function.update b.place task .ready, ready := b.ready ++ [task] }

/-- The task enters the ready queue at its front. -/
def readyFront (b : Board) (task : Nat) : Board :=
  { b with
    place := Function.update b.place task .ready, ready := task :: b.ready }

def dispatch (b : Board) : Board :=
  match b.ready with
  | [] => b
  | task :: rest =>
      { b with place := Function.update b.place task .onCpu, ready := rest }

def waitBack (b : Board) (sema task : Nat) : Board :=
  { b with
    place := Function.update b.place task (.semaphore sema)
    waiting := Function.update b.waiting sema (b.waiting sema ++ [task]) }

def waitFront (b : Board) (sema : Nat) : Board :=
  match b.waiting sema with
  | [] => b
  | task :: rest =>
      { b with
        place := Function.update b.place task .asleep
        waiting := Function.update b.waiting sema rest }

/-- The front of a waiter queue goes to the front of the ready queue. -/
def wake (b : Board) (sema : Nat) : Board :=
  match b.waiting sema with
  | [] => b
  | task :: _ => (b.waitFront sema).readyFront task

def start (b : Board) (task : Nat) : Board :=
  { b with
    tasks := task :: b.tasks
    place := Function.update b.place task .ready
    ready := b.ready ++ [task] }

def requeue (b : Board) (current : Nat) : Board :=
  if b.place current = .onCpu then b.readyBack current else b

def wakeIdle (b : Board) (idle : Nat) : Board :=
  if b.ready = [] then b.readyFront idle else b

/-- What `schedule` does on the board. -/
def schedule (b : Board) (current idle : Nat) : Board :=
  ((b.requeue current).wakeIdle idle).dispatch

@[simp]
theorem tasks_requeue (b : Board) (current : Nat) :
    (b.requeue current).tasks = b.tasks := by
  unfold requeue
  split <;> rfl

@[simp]
theorem tasks_wakeIdle (b : Board) (idle : Nat) :
    (b.wakeIdle idle).tasks = b.tasks := by
  unfold wakeIdle
  split <;> rfl

@[simp]
theorem tasks_dispatch (b : Board) : b.dispatch.tasks = b.tasks := by
  unfold dispatch
  split <;> rfl

@[simp]
theorem tasks_waitFront (b : Board) (sema : Nat) :
    (b.waitFront sema).tasks = b.tasks := by
  unfold waitFront
  split <;> rfl

@[simp]
theorem tasks_wake (b : Board) (sema : Nat) :
    (b.wake sema).tasks = b.tasks := by
  unfold wake
  split
  · rfl
  · exact tasks_waitFront b sema

/-- Each queue holds exactly the tasks whose place it is, once. -/
structure Tidy (b : Board) : Prop where
  tasks : b.tasks.Nodup
  ready : b.ready.Nodup
  mem_ready : ∀ task,
    task ∈ b.ready ↔ task ∈ b.tasks ∧ b.place task = .ready
  waiting : ∀ sema, (b.waiting sema).Nodup
  mem_waiting : ∀ sema task,
    task ∈ b.waiting sema ↔ task ∈ b.tasks ∧ b.place task = .semaphore sema

namespace Tidy

variable {b : Board}

theorem notMem_ready (tidy : b.Tidy) {task : Nat}
    (free : ¬ (b.place task).Queued) : task ∉ b.ready := fun member =>
  Place.ne_ready_of_not_queued free ((tidy.mem_ready task).mp member).2

theorem notMem_waiting (tidy : b.Tidy) {task : Nat}
    (free : ¬ (b.place task).Queued) (sema : Nat) :
    task ∉ b.waiting sema := fun member =>
  Place.ne_semaphore_of_not_queued free sema
    ((tidy.mem_waiting sema task).mp member).2

/-- No task waits in the ready queue and for a semaphore. -/
theorem ready_apart (tidy : b.Tidy) {task sema : Nat}
    (inReady : task ∈ b.ready) : task ∉ b.waiting sema := by
  intro inWaiting
  have here := ((tidy.mem_ready task).mp inReady).2
  rw [((tidy.mem_waiting sema task).mp inWaiting).2] at here
  cases here

theorem waiting_unique (tidy : b.Tidy) {task sema other : Nat}
    (first : task ∈ b.waiting sema) (second : task ∈ b.waiting other) :
    sema = other := by
  have here := ((tidy.mem_waiting sema task).mp first).2
  rw [((tidy.mem_waiting other task).mp second).2] at here
  cases here
  rfl

theorem put (tidy : b.Tidy) {task : Nat} {place : Place}
    (free : ¬ (b.place task).Queued) (free' : ¬ place.Queued) :
    (b.put task place).Tidy where
  tasks := tidy.tasks
  ready := tidy.ready
  mem_ready := by
    intro other
    rw [Board.put, tidy.mem_ready other]
    by_cases same : other = task
    · subst other
      simp [Place.ne_ready_of_not_queued free,
        Place.ne_ready_of_not_queued free']
    · simp [same]
  waiting := tidy.waiting
  mem_waiting := by
    intro sema other
    rw [Board.put, tidy.mem_waiting sema other]
    by_cases same : other = task
    · subst other
      simp [Place.ne_semaphore_of_not_queued free,
        Place.ne_semaphore_of_not_queued free']
    · simp [same]

private theorem enterReady (tidy : b.Tidy) {task : Nat}
    (inside : task ∈ b.tasks) (free : ¬ (b.place task).Queued)
    {ready : List Nat} (entered : ready.Perm (task :: b.ready)) :
    Tidy { b with place := Function.update b.place task .ready, ready } where
  tasks := tidy.tasks
  ready := by
    rw [entered.nodup_iff]
    exact List.nodup_cons.mpr ⟨tidy.notMem_ready free, tidy.ready⟩
  mem_ready := by
    intro other
    rw [entered.mem_iff, List.mem_cons, tidy.mem_ready other]
    by_cases same : other = task
    · simp [same, inside]
    · simp [same]
  waiting := tidy.waiting
  mem_waiting := by
    intro sema other
    rw [tidy.mem_waiting sema other]
    by_cases same : other = task
    · subst other
      simp [Place.ne_semaphore_of_not_queued free]
    · simp [same]

theorem readyBack (tidy : b.Tidy) {task : Nat} (inside : task ∈ b.tasks)
    (free : ¬ (b.place task).Queued) : (b.readyBack task).Tidy :=
  tidy.enterReady inside free (List.perm_append_singleton task b.ready)

theorem readyFront (tidy : b.Tidy) {task : Nat} (inside : task ∈ b.tasks)
    (free : ¬ (b.place task).Queued) : (b.readyFront task).Tidy :=
  tidy.enterReady inside free (List.Perm.refl _)

theorem dispatch (tidy : b.Tidy) : b.dispatch.Tidy := by
  unfold Board.dispatch
  split
  · exact tidy
  · rename_i task rest shape
    have nodup := tidy.ready
    rw [shape, List.nodup_cons] at nodup
    have wasReady : b.place task = .ready :=
      ((tidy.mem_ready task).mp (by simp [shape])).2
    refine { tidy with ready := nodup.2, mem_ready := ?_, mem_waiting := ?_ }
    · intro other
      by_cases same : other = task
      · subst other
        simp [nodup.1]
      · have old := tidy.mem_ready other
        rw [shape, List.mem_cons] at old
        simpa [same] using old
    · intro sema other
      rw [tidy.mem_waiting sema other]
      by_cases same : other = task
      · subst other
        simp [wasReady]
      · simp [same]

theorem wakeIdle (tidy : b.Tidy) {idle : Nat} (inside : idle ∈ b.tasks)
    (free : b.ready = [] → ¬ (b.place idle).Queued) :
    (b.wakeIdle idle).Tidy := by
  unfold Board.wakeIdle
  split
  · rename_i empty
    exact tidy.readyFront inside (free empty)
  · exact tidy

theorem waitBack (tidy : b.Tidy) {task : Nat} (inside : task ∈ b.tasks)
    (free : ¬ (b.place task).Queued) (sema : Nat) :
    (b.waitBack sema task).Tidy where
  tasks := tidy.tasks
  ready := tidy.ready
  mem_ready := by
    intro other
    rw [Board.waitBack, tidy.mem_ready other]
    by_cases same : other = task
    · subst other
      simp [Place.ne_ready_of_not_queued free]
    · simp [same]
  waiting := by
    intro other
    rw [Board.waitBack]
    by_cases same : other = sema
    · subst other
      simp only [Function.update_self]
      rw [(List.perm_append_singleton task _).nodup_iff]
      exact List.nodup_cons.mpr
        ⟨tidy.notMem_waiting free sema, tidy.waiting sema⟩
    · simp only [Function.update_of_ne same]
      exact tidy.waiting other
  mem_waiting := by
    intro other member
    rw [Board.waitBack]
    by_cases same : member = task
    · subst member
      by_cases here : other = sema
      · simp [here, inside]
      · simp [here, Ne.symm here, tidy.notMem_waiting free other]
    · by_cases here : other = sema
      · subst other
        simp [same, tidy.mem_waiting]
      · simp [same, here, tidy.mem_waiting]

theorem waitFront (tidy : b.Tidy) (sema : Nat) : (b.waitFront sema).Tidy := by
  unfold Board.waitFront
  split
  · exact tidy
  · rename_i task rest shape
    have nodup := tidy.waiting sema
    rw [shape, List.nodup_cons] at nodup
    have waited : b.place task = .semaphore sema :=
      ((tidy.mem_waiting sema task).mp (by simp [shape])).2
    refine { tidy with mem_ready := ?_, waiting := ?_, mem_waiting := ?_ }
    · intro other
      rw [tidy.mem_ready other]
      by_cases same : other = task
      · subst other
        simp [waited]
      · simp [same]
    · intro other
      by_cases same : other = sema
      · simp [same, nodup.2]
      · simp [same, tidy.waiting other]
    · intro other member
      have old := tidy.mem_waiting other member
      by_cases here : other = sema
      · subst other
        rw [shape, List.mem_cons] at old
        by_cases same : member = task
        · subst member
          simp [nodup.1]
        · simpa [same] using old
      · by_cases same : member = task
        · subst member
          simp [here, old, waited, Ne.symm here]
        · simp [same, here, old]

theorem start (tidy : b.Tidy) {task : Nat} (fresh : task ∉ b.tasks) :
    (b.start task).Tidy where
  tasks := List.nodup_cons.mpr ⟨fresh, tidy.tasks⟩
  ready := by
    rw [Board.start, (List.perm_append_singleton task _).nodup_iff]
    exact List.nodup_cons.mpr
      ⟨fun member => fresh ((tidy.mem_ready task).mp member).1, tidy.ready⟩
  mem_ready := by
    intro other
    rw [Board.start]
    by_cases same : other = task
    · simp [same]
    · simp [same, tidy.mem_ready]
  waiting := tidy.waiting
  mem_waiting := by
    intro sema other
    rw [Board.start, tidy.mem_waiting sema other]
    by_cases same : other = task
    · subst other
      simp [fresh]
    · simp [same]

end Tidy

end Board

end Simos
