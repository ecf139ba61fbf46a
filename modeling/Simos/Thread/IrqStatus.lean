import Mathlib.Data.Fintype.Option
import Simos.Library.IrqRuns

/-!
# The interrupt status (`kernel/interrupt.c`, `thread/thread.c`,
`thread/sync.c`, `device/ioqueue.c`, `mm/memory.c`)

The routines that turn the interrupt flag off and on, statement by statement.
The other statements and the conditions have the names of this module and any
meaning: the queues, the task states and the heap may be in any state, and the
local variables and arguments of the routines are part of that data, except
the saved interrupt status.

* `routineCode` is the code, `kernelContract` what each routine does to the
  flag;
* `irqStatus_given_back` is the result for all runs.
-/

namespace Simos

open Simos.Library IrqRoutines

/-- The functions; a new thread starts in `kernel_func`. -/
inductive KernelRoutine where
  | getIntrStatus
  | localIrqEnable
  | localIrqDisable
  | setIntrStatus
  | schedule
  | threadBlock
  | threadUnblock
  | threadYield
  | semaDown
  | semaUp
  | lockAcquire
  | lockRelease
  | ioqWait
  | sysMalloc
  | kernelFunc
  deriving DecidableEq

/-- The statements on the data; those that assert may stop the machine. -/
inductive KernelEffect where
  | getCurTask
  | assertNotReady
  | queueInReady
  | resetTicks
  | statusReady
  | queueOutReady
  | assertNext
  | nextTask
  | statusRunning
  | setCurrentTask
  | assertBlocking
  | setStatus
  | getTaskStatus
  | assertBlocked
  | assertFailed
  | queuePushReady
  | assertNotWaiting
  | queueInWaiter
  | decrementValue
  | assertValueZero
  | queueOutWaiter
  | incrementValue
  | assertValueOne
  | holderCurTask
  | assertNotRepeated
  | repeatOne
  | incrementRepeat
  | assertHolder
  | decrementRepeat
  | assertRepeatOne
  | holderNull
  | repeatZero
  | assertNoWaiter
  | waiterCurTask
  | useKernelPool
  | useUserPool
  | computePageCnt
  | pageAlloc
  | clearArena
  | arenaDesc
  | arenaCnt
  | descIdxZero
  | incrementDescIdx
  | blockIdxZero
  | arenaBlock
  | assertNotFree
  | addFreeBlock
  | incrementBlockIdx
  | popBlock
  | clearBlock
  | blockArena
  | decrementCnt

inductive KernelTest where
  | curTaskRunning
  | readyQueueEmpty
  | wakeTaskNotReady
  | inReadyQueue
  | valueZero
  | inWaiterQueue
  | waiterQueueNotEmpty
  | holderOther
  | repeatAboveOne
  | kernelTask
  | illegalSize
  | largeSize
  | arenaNull
  | blockTooSmall
  | freeListEmpty
  | blocksLeft

abbrev KernelCode : Type :=
  Code KernelRoutine KernelEffect KernelTest

def localIrqEnableCode : KernelCode :=
  .call .getIntrStatus <| .store <|
  .ifOn .done (.sti .done) <|
  .load .ret

def localIrqDisableCode : KernelCode :=
  .call .getIntrStatus <| .store <|
  .ifOn (.cli .done) .done <|
  .load .ret

def setIntrStatusCode : KernelCode :=
  .ifOn (.call .localIrqEnable .done) (.call .localIrqDisable .done) .ret

def scheduleCode : KernelCode :=
  .call .localIrqDisable <|
  .call .getIntrStatus <| .expectOff <|
  .act .getCurTask <|
  .ite .curTaskRunning
    (.act .assertNotReady <| .act .queueInReady <| .act .resetTicks <|
      .act .statusReady .done)
    .done <|
  .ite .readyQueueEmpty (.call .threadUnblock .done) .done <|
  .act .queueOutReady <| .act .assertNext <| .act .nextTask <|
  .act .statusRunning <| .act .setCurrentTask <|
  .switch .ret

def threadBlockCode : KernelCode :=
  .act .assertBlocking <|
  .call .localIrqDisable <| .store <|
  .act .getCurTask <| .act .setStatus <|
  .call .schedule <|
  .call .setIntrStatus .ret

def threadUnblockCode : KernelCode :=
  .call .localIrqDisable <| .store <|
  .act .getTaskStatus <| .act .assertBlocked <|
  .ite .wakeTaskNotReady
    (.act .assertNotReady <|
      .ite .inReadyQueue (.act .assertFailed .done) .done <|
      .act .queuePushReady <| .act .statusReady .done)
    .done <|
  .call .setIntrStatus .ret

def threadYieldCode : KernelCode :=
  .act .getCurTask <|
  .call .localIrqDisable <| .store <|
  .act .assertNotReady <| .act .queueInReady <| .act .statusReady <|
  .call .schedule <|
  .call .setIntrStatus .ret

def semaDownCode : KernelCode :=
  .call .localIrqDisable <| .store <|
  .loop .valueZero
    (.act .assertNotWaiting <|
      .ite .inWaiterQueue (.act .assertFailed .done) .done <|
      .act .queueInWaiter <| .call .threadBlock .done) <|
  .act .decrementValue <| .act .assertValueZero <|
  .call .setIntrStatus .ret

def semaUpCode : KernelCode :=
  .call .localIrqDisable <| .store <|
  .act .assertValueZero <|
  .ite .waiterQueueNotEmpty
    (.act .queueOutWaiter <| .call .threadUnblock .done) .done <|
  .act .incrementValue <| .act .assertValueOne <|
  .call .setIntrStatus .ret

def lockAcquireCode : KernelCode :=
  .ite .holderOther
    (.call .semaDown <| .act .holderCurTask <| .act .assertNotRepeated <|
      .act .repeatOne .done)
    (.act .incrementRepeat .done) .ret

def lockReleaseCode : KernelCode :=
  .act .assertHolder <|
  .ite .repeatAboveOne (.act .decrementRepeat .ret) .done <|
  .act .assertRepeatOne <| .act .holderNull <| .act .repeatZero <|
  .call .semaUp .ret

def ioqWaitCode : KernelCode :=
  .act .assertNoWaiter <| .act .waiterCurTask <| .call .threadBlock .ret

/-- `sys_malloc`; an early `return NULL` releases the lock first. -/
def sysMallocCode : KernelCode :=
  .act .getCurTask <|
  .ite .kernelTask (.act .useKernelPool .done) (.act .useUserPool .done) <|
  .ite .illegalSize .ret .done <|
  .call .lockAcquire <|
  .ite .largeSize
    (.act .computePageCnt <| .act .pageAlloc <|
      .ite .arenaNull (.call .lockRelease .ret) .done <|
      .act .clearArena <| .act .arenaDesc <| .act .arenaCnt <|
      .call .lockRelease .ret)
    .done <|
  .act .descIdxZero <|
  .loop .blockTooSmall (.act .incrementDescIdx .done) <|
  .ite .freeListEmpty
    (.act .pageAlloc <|
      .ite .arenaNull (.call .lockRelease .ret) .done <|
      .act .clearArena <| .act .arenaDesc <| .act .arenaCnt <|
      .act .blockIdxZero <|
      .call .localIrqDisable <| .store <|
      .act .blockIdxZero <|
      .loop .blocksLeft
        (.act .arenaBlock <| .act .assertNotFree <| .act .addFreeBlock <|
          .act .incrementBlockIdx .done) <|
      .call .setIntrStatus .done)
    .done <|
  .act .popBlock <| .act .clearBlock <| .act .blockArena <|
  .act .decrementCnt <|
  .call .lockRelease .ret

/-- The code of each function; `kernel_func` goes on with the function of the
thread, which is code of its own. -/
def routineCode : KernelRoutine → KernelCode
  | .getIntrStatus => .getFlag .ret
  | .localIrqEnable => localIrqEnableCode
  | .localIrqDisable => localIrqDisableCode
  | .setIntrStatus => setIntrStatusCode
  | .schedule => scheduleCode
  | .threadBlock => threadBlockCode
  | .threadUnblock => threadUnblockCode
  | .threadYield => threadYieldCode
  | .semaDown => semaDownCode
  | .semaUp => semaUpCode
  | .lockAcquire => lockAcquireCode
  | .lockRelease => lockReleaseCode
  | .ioqWait => ioqWaitCode
  | .sysMalloc => sysMallocCode
  | .kernelFunc => .call .localIrqEnable .ret

def kernelRoutines : Program KernelRoutine KernelEffect KernelTest :=
  ⟨routineCode, .kernelFunc⟩

/-- What each function does to the flag and returns. -/
def kernelContract : Contract KernelRoutine
  | .getIntrStatus, _, entry => some ⟨entry, some entry⟩
  | .localIrqEnable, _, entry => some ⟨true, some entry⟩
  | .localIrqDisable, _, entry => some ⟨false, some entry⟩
  | .setIntrStatus, status, _ => status.map fun status => ⟨status, none⟩
  | .schedule, _, _ => some ⟨false, none⟩
  | .kernelFunc, _, _ => some ⟨true, none⟩
  | _, _, entry => some ⟨entry, none⟩

/-- The functions that give the interrupt status back. -/
def givesBack : List KernelRoutine :=
  [.threadBlock, .threadUnblock, .threadYield, .semaDown, .semaUp,
    .lockAcquire, .lockRelease, .ioqWait, .sysMalloc]

/-- Every function keeps its contract. -/
theorem kernelRoutines_checked : Checked kernelRoutines kernelContract where
  keeps := by
    intro routine
    have all : ∀ argument entry,
        (kernelContract routine argument entry).all fun promise =>
          keepsPromise kernelContract promise (kernelRoutines.code routine)
            ⟨entry, none, argument⟩ := by
      cases routine <;> decide
    intro argument entry promise promised
    have one := all argument entry
    rwa [promised] at one
  total := by
    intro routine
    cases routine <;> decide

private theorem kernelContract_givesBack {routine : KernelRoutine}
    (listed : routine ∈ givesBack) {argument : Option Bool} {entry : Bool}
    {promise : Promise}
    (promised : kernelContract routine argument entry = some promise) :
    promise.flag = entry := by
  have same : kernelContract routine argument entry = some ⟨entry, none⟩ := by
    cases routine with
    | threadBlock | threadUnblock | threadYield | semaDown | semaUp
    | lockAcquire | lockRelease | ioqWait | sysMalloc => rfl
    | _ => simp [givesBack] at listed
  rw [same] at promised
  rw [← Option.some.inj promised]

/-- In every run of any number of threads, whatever the data statements do:
`switch_to` is called with interrupts off, and when a call of one of the
functions returns, the interrupt status is that of the call, and it is the
calling thread that runs. -/
theorem irqStatus_given_back {Data : Type}
    {meaning : Meaning KernelEffect KernelTest Data}
    {first s : State KernelRoutine KernelEffect KernelTest Data}
    {earlier : List (Event KernelRoutine Data ×
      State KernelRoutine KernelEffect KernelTest Data)}
    (start : Start kernelRoutines first)
    (before : Run (Step kernelRoutines meaning) first earlier s) :
    (∀ thread s', Step kernelRoutines meaning s (.switchTo thread) s' →
      s.core.flag = false) ∧
    ∀ routine ∈ givesBack, ∀ argument s₁ trace s₂ event s₃,
      Step kernelRoutines meaning s (.call routine argument) s₁ →
      Run (Step kernelRoutines meaning) s₁ trace s₂ →
      (∀ event reached, (event, reached) ∈ trace →
        (s.layers s.current).length < (reached.layers s.current).length) →
      Step kernelRoutines meaning s₂ event s₃ →
      (s₃.layers s.current).length = (s.layers s.current).length →
      s₃.core.flag = s.core.flag ∧ s₂.current = s.current := by
  constructor
  · intro thread s' taken
    exact switch_off kernelRoutines_checked start before taken
  · intro routine listed argument s₁ trace s₂ event s₃ called run inside taken
      returned
    obtain ⟨same, argument, promise, promised, flag⟩ := return_meets
      kernelRoutines_checked start before called run inside taken returned
    exact ⟨flag.trans (kernelContract_givesBack listed promised), same⟩

/-- Data statements that do nothing, and conditions that do not hold. -/
def idleData : Meaning KernelEffect KernelTest Unit :=
  ⟨fun _ _ data => some data, fun _ _ _ => false⟩

private def yieldEvent (s : State KernelRoutine KernelEffect KernelTest Unit) :
    Event KernelRoutine Unit :=
  match s.layers s.current with
  | .routine ⟨_, _, _, .call routine _ :: _⟩ :: _ => .call routine false
  | .routine ⟨_, _, _, .switch _ :: _⟩ :: _ => .switchTo (1 - s.current)
  | .routine ⟨_, _, _, []⟩ :: _
  | .routine ⟨_, _, _, .ret :: _⟩ :: _ => .ret
  | .routine _ :: _ => .go false
  | _ => .call .threadYield false

private def yields : Nat → State KernelRoutine KernelEffect KernelTest Unit →
    Option (State KernelRoutine KernelEffect KernelTest Unit)
  | 0, s => some s
  | rounds + 1, s =>
      ((next kernelRoutines idleData s (yieldEvent s)).filter fun s =>
        0 < (s.layers 0).length).bind (yields rounds)

private theorem yields_run {rounds : Nat}
    {s s' : State KernelRoutine KernelEffect KernelTest Unit}
    (ran : yields rounds s = some s') :
    ∃ trace, Run (Step kernelRoutines idleData) s trace s' ∧
      ∀ event reached, (event, reached) ∈ trace →
        0 < (reached.layers 0).length := by
  induction rounds generalizing s with
  | zero =>
      obtain rfl := Option.some.inj ran
      exact ⟨[], .start, by simp⟩
  | succ rounds inductionHypothesis =>
      obtain ⟨middle, filtered, rest⟩ := Option.bind_eq_some_iff.mp ran
      obtain ⟨taken, deeper⟩ := Option.filter_eq_some_iff.mp filtered
      obtain ⟨trace, run, inside⟩ := inductionHypothesis rest
      refine ⟨_, (Run.start.next taken).append run, ?_⟩
      intro event reached member
      rcases List.mem_append.mp member with early | late
      · simp only [List.nil_append, List.mem_singleton, Prod.mk.injEq] at early
        rw [early.2]
        simpa using deeper
      · exact inside event reached late

def twoYielders : State KernelRoutine KernelEffect KernelTest Unit where
  core := ⟨true, false, ()⟩
  current := 0
  layers thread :=
    if thread = 0 then []
    else [kernelRoutines.enter .kernelFunc false false]

/-- Thread 0 yields to thread 1, which yields back from its first call. -/
theorem irqStatus_given_back_yield :
    ∃ s₁ trace s₂ s₃,
      Step kernelRoutines idleData twoYielders (.call .threadYield false) s₁ ∧
      Run (Step kernelRoutines idleData) s₁ trace s₂ ∧
      Step kernelRoutines idleData s₂ .ret s₃ ∧ s₃.core.flag = true := by
  have start : Start kernelRoutines twoYielders :=
    ⟨rfl, fun _ different => if_neg different⟩
  have computed : ((next kernelRoutines idleData twoYielders
      (.call .threadYield false)).bind fun s₁ => (yields 107 s₁).bind fun s₂ =>
        next kernelRoutines idleData s₂ .ret).any
          fun s₃ => (s₃.layers 0).length = 0 := by
    decide +kernel
  obtain ⟨s₃, found, back⟩ := (Option.any_eq_true _ _).mp computed
  obtain ⟨s₁, called, rest⟩ := Option.bind_eq_some_iff.mp found
  obtain ⟨s₂, ran, taken⟩ := Option.bind_eq_some_iff.mp rest
  obtain ⟨trace, run, inside⟩ := yields_run ran
  have depth : (s₃.layers 0).length = 0 := by simpa using back
  have whole := (irqStatus_given_back start .start).2 .threadYield (by decide)
    false s₁ trace s₂ .ret s₃ called run inside taken depth
  exact ⟨s₁, trace, s₂, s₃, called, run, taken, whole.1⟩

end Simos
