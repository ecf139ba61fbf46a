import Simos.Kernel.Queue
import Simos.Mm.Pools

/-!
# Tasks and the scheduler (`thread/thread.c`)

A PCB is named by its address.  Its two list nodes live in the heap of list
nodes, at their offsets in `struct task_struct`; the fields that the scheduler
uses are kept as a record for each address.  `thread_creat` also writes the
first stack frame of the thread, and that goes to the byte memory.

Every function runs up to its own call of `switch_to` without interruption,
so the interrupt flag is not part of the state.  A task that is switched out
inside `sema_down` goes on with the loop of `sema_down` when it is switched in
again; all other callers of `schedule` just return.  `resume` keeps this.

Besides `thread.c` the module holds the operations that block and wake tasks:
`sema_down` and `sema_up` (`thread/sync.c`), `ioq_wait` and `ioq_wakeup`
(`device/ioqueue.c`) and `clock_service` (`device/timer.c`).
-/

namespace Simos

open Simos.Library LinkHeap

inductive TaskStatus where
  | taskRunning
  | taskReady
  | taskBlocked
  | taskWaiting
  | taskHanging
  | taskDied
  deriving DecidableEq, Repr

/-- `struct task_struct`, without its list nodes, its name and the tables of
user processes. -/
structure TaskStruct where
  selfKernelStack : Nat
  status : TaskStatus
  priority : Nat
  pid : Int
  ticks : Nat
  elapsedTicks : Nat
  pdeAddr : Nat
  stackBoundary : Nat

/-- `sizeof(struct task_struct)` -/
def sizeofTaskStruct : Nat := 200

/-- `sizeof(struct intr_stack)` -/
def sizeofIntrStack : Nat := 76

/-- `sizeof(struct thread_stack)` -/
def sizeofThreadStack : Nat := 32

def pcbSize : Nat := pageSize * 1

def stackBoundaryMark : Nat := 0x20130901

def mainPcb : Nat := 0xc009e000

/-- `&task->thread_dispatch_queue` -/
def dispatchNode (task : Nat) : Nat :=
  task + 52

/-- `&task->thread_list` -/
def listNode (task : Nat) : Nat :=
  task + 60

/-- `list_entry(node, struct task_struct, thread_dispatch_queue)` -/
def dispatchEntry (node : Nat) : Nat :=
  sub32 node 52

/-- Where a task goes on when it is switched in. -/
inductive Resume where
  | ownCode
  | semaDown (sema : Nat)
  deriving DecidableEq

/-- The data of the scheduler.  Semaphores and the waiter pointers of the
ioqueues are numbered; `kernelFunc` and `cpuIdleFunc` are the addresses of the
functions `kernel_func` and `cpu_idle`. -/
structure Threads where
  mm : MmState
  pcb : Nat → TaskStruct
  nodes : NodeHeap
  mainThread : Nat
  idleThread : Nat
  threadReadyQueue : GeneralQueue
  threadTotalList : Nat
  currentTask : Nat
  pidLock : Lock (List Nat)
  nextPid : Int
  ticks : Nat
  semaphores : Nat → Semaphore GeneralQueue
  waiters : Nat → Nat
  resume : Nat → Resume
  kernelFunc : Nat
  cpuIdleFunc : Nat

namespace Threads

def setPcb (s : Threads) (task : Nat) (pcb : TaskStruct) : Threads :=
  { s with pcb := Function.update s.pcb task pcb }

/-- `task->status = status` -/
def setStatus (s : Threads) (task : Nat) (status : TaskStatus) : Threads :=
  s.setPcb task { s.pcb task with status }

/-- The memory management state as the current task sees it. -/
def taskMm (s : Threads) : MmState :=
  { s.mm with curTask := { s.mm.curTask with pcb := s.currentTask } }

/-- `queue_in(&thread_ready_queue, &task->thread_dispatch_queue)` -/
def readyIn (s : Threads) (task : Nat) : Call Threads := do
  let (nodes, threadReadyQueue) ←
    queueIn s.nodes s.threadReadyQueue (dispatchNode task)
  return { s with nodes, threadReadyQueue }

/-- `queue_push(&thread_ready_queue, &task->thread_dispatch_queue)` -/
def readyPush (s : Threads) (task : Nat) : Call Threads := do
  let (nodes, threadReadyQueue) ←
    queuePush s.nodes s.threadReadyQueue (dispatchNode task)
  return { s with nodes, threadReadyQueue }

def setSemaphore (s : Threads) (sema : Nat)
    (semaphore : Semaphore GeneralQueue) : Threads :=
  { s with semaphores := Function.update s.semaphores sema semaphore }

/-- `ASSERT(!list_find_item(queue.front, &task->thread_dispatch_queue))`;
where the source repeats the test it finds the same. -/
def assertNotQueued (s : Threads) (queue : GeneralQueue) (task : Nat) :
    Call Unit := do
  let found ← listFindItem s.nodes queue.front (dispatchNode task)
  Call.assert (found = false)

end Threads

open Threads

def allocPid (s : Threads) : Call (Int × Threads) := do
  let pidLock ← lockAcquireAlone s.pidLock s.currentTask
  let nextPid := (s.nextPid + 1 + 32768) % 65536 - 32768
  let pidLock ← lockReleaseAlone pidLock s.currentTask
  return (nextPid, { s with pidLock, nextPid })

/-- `memset(pthread, 0, sizeof(*pthread))` -/
def clearPcb (s : Threads) (pthread : Nat) : Call Threads := do
  let memory ← memset s.mm.memory pthread 0 sizeofTaskStruct
  let node := Function.update s.nodes.node (dispatchNode pthread) ⟨0, 0⟩
  let node := Function.update node (listNode pthread) ⟨0, 0⟩
  return { s with
    mm := { s.mm with memory }
    nodes := ⟨node⟩
    pcb := Function.update s.pcb pthread ⟨0, .taskRunning, 0, 0, 0, 0, 0, 0⟩ }

/-- `pcb_init`; the stack pointer is computed on `struct task_struct *`. -/
def pcbInit (s : Threads) (pthread : Nat) (prio : Int) : Call Threads := do
  let s ← clearPcb s pthread
  let (pid, s) ← allocPid s
  let status :=
    if pthread = s.mainThread then TaskStatus.taskRunning else .taskReady
  return s.setPcb pthread
    { selfKernelStack := u32 (pthread + pcbSize * sizeofTaskStruct)
      status := status
      priority := (prio % 65536).toNat
      pid := pid
      ticks := (prio % 256).toNat
      elapsedTicks := 0
      pdeAddr := 0
      stackBoundary := stackBoundaryMark }

/-- `thread_creat`; the sizes are subtracted from a `uint32_t *`.  A frame on
a page that is not mapped faults; the model lets the call go on. -/
def threadCreat (s : Threads) (pthread function funcArgc : Nat) : Threads :=
  let stack := sub32 (s.pcb pthread).selfKernelStack (4 * sizeofIntrStack)
  let kernelStack := sub32 stack (4 * sizeofThreadStack)
  let memory := s.mm.memory.storeWord (u32 (kernelStack + 16)) s.kernelFunc
  let memory := memory.storeWord (u32 (kernelStack + 28)) funcArgc
  let memory := memory.storeWord (u32 (kernelStack + 24)) function
  let memory := memory.storeWord kernelStack 0
  let memory := memory.storeWord (u32 (kernelStack + 4)) 0
  let memory := memory.storeWord (u32 (kernelStack + 8)) 0
  let memory := memory.storeWord (u32 (kernelStack + 12)) 0
  let s := { s with mm := { s.mm with memory } }
  s.setPcb pthread { s.pcb pthread with selfKernelStack := kernelStack }

def totalListAdd (s : Threads) (thread : Nat) : Call Threads := do
  let found ← listFindItem s.nodes s.threadTotalList (listNode thread)
  Call.assert (found = false)
  return { s with nodes := listAdd s.nodes s.threadTotalList (listNode thread) }

def threadStart (s : Threads) (prio : Int) (function funcArgc : Nat) :
    Call (Nat × Threads) := do
  let (thread, mm) ← getKernelPages s.taskMm (pcbSize / pageSize)
  let s ← pcbInit { s with mm } thread prio
  let s := threadCreat s thread function funcArgc
  s.assertNotQueued s.threadReadyQueue thread
  let s ← s.readyIn thread
  let s ← totalListAdd s thread
  return (thread, s)

def initMainThread (s : Threads) : Call Threads := do
  let s := { s with mainThread := s.currentTask }
  let s ← pcbInit s s.mainThread 1
  totalListAdd s s.mainThread

def threadInit (s : Threads) : Call Threads := do
  let s := { s with
    nodes := listInit s.nodes s.threadTotalList
    threadReadyQueue := queueInit
    pidLock := lockInit
    currentTask := mainPcb }
  let s ← initMainThread s
  let (idleThread, s) ← threadStart s 1 s.cpuIdleFunc 0
  return { s with idleThread }

def threadUnblock (s : Threads) (wakeTask : Nat) : Call Threads := do
  let taskStatus := (s.pcb wakeTask).status
  Call.assert (taskStatus = .taskBlocked ∨ taskStatus = .taskWaiting ∨
    taskStatus = .taskHanging)
  if taskStatus ≠ .taskReady then
    s.assertNotQueued s.threadReadyQueue wakeTask
    let s ← s.readyPush wakeTask
    return s.setStatus wakeTask .taskReady
  else
    return s

/-- `schedule`, first part: a running task goes back to the ready queue. -/
def scheduleCurrent (s : Threads) : Call Threads := do
  let curTask := s.currentTask
  if (s.pcb curTask).status = .taskRunning then
    s.assertNotQueued s.threadReadyQueue curTask
    let s ← s.readyIn curTask
    let pcb := s.pcb curTask
    return s.setPcb curTask
      { pcb with ticks := pcb.priority % 256, status := .taskReady }
  else
    return s

/-- `schedule`, second part: the idle check. -/
def scheduleIdle (s : Threads) : Call Threads :=
  if s.threadReadyQueue.queueLen = 0 then
    threadUnblock s s.idleThread
  else
    return s

/-- `schedule`, last part: the front of the ready queue gets the processor. -/
def scheduleNext (s : Threads) : Call Threads := do
  let (next, nodes, threadReadyQueue) := queueOut s.nodes s.threadReadyQueue
  Call.assert (next ≠ 0)
  let nextTask := dispatchEntry next
  let s := { s with nodes, threadReadyQueue }
  let s := s.setStatus nextTask .taskRunning
  return { s with currentTask := nextTask }

/-- `schedule`, with the switch to the next task. -/
def schedule (s : Threads) : Call Threads := do
  let s ← scheduleCurrent s
  let s ← scheduleIdle s
  scheduleNext s

/-- `thread_block`, up to its call of `schedule`. -/
def blockCurrent (s : Threads) (setStatus : TaskStatus) : Call Threads := do
  Call.assert (setStatus = .taskBlocked ∨ setStatus = .taskWaiting ∨
    setStatus = .taskHanging)
  return s.setStatus s.currentTask setStatus

def threadBlock (s : Threads) (setStatus : TaskStatus) : Call Threads := do
  let s ← blockCurrent s setStatus
  schedule s

/-- `thread_yield`, up to its call of `schedule`. -/
def yieldCurrent (s : Threads) : Call Threads := do
  let curTask := s.currentTask
  s.assertNotQueued s.threadReadyQueue curTask
  let s ← s.readyIn curTask
  return s.setStatus curTask .taskReady

def threadYield (s : Threads) : Call Threads := do
  let s ← yieldCurrent s
  schedule s

def countTick (s : Threads) : Threads :=
  let pcb := s.pcb s.currentTask
  let s := s.setPcb s.currentTask
    { pcb with elapsedTicks := u32 (pcb.elapsedTicks + 1) }
  { s with ticks := u32 (s.ticks + 1) }

def clockService (s : Threads) : Call Threads := do
  Call.assert ((s.pcb s.currentTask).stackBoundary = stackBoundaryMark)
  let s := countTick s
  let pcb := s.pcb s.currentTask
  if pcb.ticks = 0 then
    schedule s
  else
    return s.setPcb s.currentTask { pcb with ticks := pcb.ticks - 1 }

/-- `sema_down`: the current task enters the waiter queue. -/
def enterWaiterQueue (s : Threads) (sema : Nat) : Call Threads := do
  let semaphore := s.semaphores sema
  s.assertNotQueued semaphore.waiterQueue s.currentTask
  let (nodes, waiterQueue) ←
    queueIn s.nodes semaphore.waiterQueue (dispatchNode s.currentTask)
  let s := { s with
    nodes, resume := Function.update s.resume s.currentTask (.semaDown sema) }
  return s.setSemaphore sema { semaphore with waiterQueue }

/-- One round of the loop of `sema_down`, to its `thread_block` or to the end
of the function. -/
def semaDownLoop (s : Threads) (sema : Nat) : Call Threads := do
  let semaphore := s.semaphores sema
  if semaphore.value = 0 then
    let s ← enterWaiterQueue s sema
    threadBlock s .taskBlocked
  else
    let semaphore := { semaphore with value := semaphore.value - 1 }
    Call.assert (semaphore.value = 0)
    let s := { s with
      resume := Function.update s.resume s.currentTask .ownCode }
    return s.setSemaphore sema semaphore

/-- `sema_up`: the first waiter, if there is one, is woken. -/
def wakeWaiter (s : Threads) (sema : Nat) : Call Threads :=
  let semaphore := s.semaphores sema
  if queueEmpty semaphore.waiterQueue then
    return s
  else
    let (node, nodes, waiterQueue) := queueOut s.nodes semaphore.waiterQueue
    let s := { s with nodes }
    let s := s.setSemaphore sema { semaphore with waiterQueue }
    threadUnblock s (dispatchEntry node)

def semaUpTask (s : Threads) (sema : Nat) : Call Threads := do
  Call.assert ((s.semaphores sema).value = 0)
  let s ← wakeWaiter s sema
  let semaphore := s.semaphores sema
  let value := (semaphore.value + 1) % 256
  Call.assert (value = 1)
  return s.setSemaphore sema { semaphore with value }

/-- `ioq_wait`, up to its `thread_block`. -/
def registerWaiter (s : Threads) (waiter : Nat) : Call Threads := do
  Call.assert (s.waiters waiter = 0)
  return { s with waiters := Function.update s.waiters waiter s.currentTask }

def ioqWait (s : Threads) (waiter : Nat) : Call Threads := do
  let s ← registerWaiter s waiter
  threadBlock s .taskBlocked

def ioqWakeup (s : Threads) (waiter : Nat) : Call Threads := do
  Call.assert (s.waiters waiter ≠ 0)
  let s ← threadUnblock s (s.waiters waiter)
  return { s with waiters := Function.update s.waiters waiter 0 }

end Simos
