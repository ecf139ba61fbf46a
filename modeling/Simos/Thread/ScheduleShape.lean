import Mathlib.Data.Finset.Card
import Mathlib.Data.Finset.Range
import Simos.Mm.PageSpec
import Simos.Thread.Places

/-!
# The scheduler's data and the board

`SchedShape b s` says that the queues, the total list and the statuses of `s`
are those of the board `b`.  For each function of the scheduler the module
gives the move on the board that it makes; the functions return whenever the
moved task is where the caller says it is.
-/

namespace Simos

open Simos.Library LinkHeap

/-- The part of the data that `schedule` changes. -/
structure Dispatch where
  nodes : NodeHeap
  threadReadyQueue : GeneralQueue
  pcb : Nat → TaskStruct
  currentTask : Nat

def Threads.withDispatch (s : Threads) (d : Dispatch) : Threads :=
  { s with
    nodes := d.nodes
    threadReadyQueue := d.threadReadyQueue
    pcb := d.pcb
    currentTask := d.currentTask }

/-- A PCB is that of the main thread or a taken page of the kernel pool. -/
def PcbPlaced (mm : MmState) (task : Nat) : Prop :=
  task = mainPcb ∨
    ∃ page, page < mm.kernelPages ∧ task = pageAddr page ∧
      mm.vmBit page = true

def PcbAddr (task : Nat) : Prop :=
  task % 4096 = 0 ∧ mainPcb ≤ task ∧ task + 4096 ≤ 4294967296

/-- The queues and the total list are those of the board. -/
structure Linked (b : Board) (s : Threads) : Prop where
  ready : QueueHolds s.nodes s.threadReadyQueue (b.ready.map dispatchNode)
  waiting : ∀ sema, QueueHolds s.nodes (s.semaphores sema).waiterQueue
    ((b.waiting sema).map dispatchNode)
  total : Ring s.nodes s.threadTotalList (b.tasks.map listNode)

/-- The PCB agrees with the place of the task. -/
structure PcbAgrees (pcb : TaskStruct) (place : Place) : Prop where
  status : pcb.status = place.status
  boundary : pcb.stackBoundary = stackBoundaryMark

/-- The scheduler's data for a board.  At most the current task is on the
processor. -/
structure SchedShape (b : Board) (s : Threads) : Prop where
  tidy : b.Tidy
  layout : KernelPoolLayout s.mm
  placed : ∀ task ∈ b.tasks, PcbPlaced s.mm task
  totalList : 0 < s.threadTotalList ∧ s.threadTotalList + 8 ≤ mainPcb
  main : s.mainThread = mainPcb
  linked : Linked b s
  agrees : ∀ task ∈ b.tasks, PcbAgrees (s.pcb task) (b.place task)
  current : s.currentTask ∈ b.tasks
  onCpu : ∀ task ∈ b.tasks, b.place task = .onCpu → task = s.currentTask

theorem PcbPlaced.addr {mm : MmState} (layout : KernelPoolLayout mm)
    {task : Nat} (placed : PcbPlaced mm task) : PcbAddr task := by
  have pages := layout.pagesBound
  unfold PcbAddr mainPcb
  rcases placed with rfl | ⟨page, inside, rfl, _⟩
  · unfold mainPcb
    omega
  · rw [pageAddr_eq]
    omega

theorem dispatchNode_injective : Function.Injective dispatchNode := by
  intro left right equal
  unfold dispatchNode at equal
  omega

theorem dispatchNode_ne_zero (task : Nat) : dispatchNode task ≠ 0 := by
  unfold dispatchNode
  omega

theorem dispatchEntry_dispatchNode {task : Nat} (addr : PcbAddr task) :
    dispatchEntry (dispatchNode task) = task := by
  have bound := addr.2.2
  unfold dispatchEntry dispatchNode
  rw [sub32_of_le (by omega) (by omega)]
  omega

theorem mem_map_dispatchNode {task : Nat} {tasks : List Nat} :
    dispatchNode task ∈ tasks.map dispatchNode ↔ task ∈ tasks :=
  List.mem_map_of_injective dispatchNode_injective

theorem dispatchNodes_apart {left right : List Nat}
    (apart : ∀ task ∈ left, task ∉ right) :
    ∀ node ∈ left.map dispatchNode, node ∉ right.map dispatchNode := by
  intro node member
  obtain ⟨task, inLeft, rfl⟩ := List.mem_map.mp member
  rw [mem_map_dispatchNode]
  exact apart task inLeft

namespace SchedShape

variable {b b' : Board} {s s' : Threads} {task : Nat}

theorem addr (shape : SchedShape b s) (inside : task ∈ b.tasks) :
    PcbAddr task :=
  (shape.placed task inside).addr shape.layout

theorem short (shape : SchedShape b s) {queue : List Nat}
    (nodup : queue.Nodup) (inside : ∀ task ∈ queue, task ∈ b.tasks) :
    queue.length + 1 < addressCount := by
  have subset : queue.toFinset ⊆ Finset.range 4294963201 := by
    intro member inQueue
    rw [List.mem_toFinset] at inQueue
    have bound := (shape.addr (inside member inQueue)).2.2
    rw [Finset.mem_range]
    omega
  have counted := Finset.card_le_card subset
  rw [List.toFinset_card_of_nodup nodup, Finset.card_range] at counted
  unfold addressCount
  omega

theorem ready_short (shape : SchedShape b s) :
    (b.ready.map dispatchNode).length + 1 < addressCount := by
  rw [List.length_map]
  exact shape.short shape.tidy.ready
    fun member inReady => ((shape.tidy.mem_ready member).mp inReady).1

theorem waiting_short (shape : SchedShape b s) (sema : Nat) :
    ((b.waiting sema).map dispatchNode).length + 1 < addressCount := by
  rw [List.length_map]
  exact shape.short (shape.tidy.waiting sema)
    fun member waits => ((shape.tidy.mem_waiting sema member).mp waits).1

theorem total_apart (shape : SchedShape b s) {touched : List Nat}
    (addrs : ∀ task ∈ touched, PcbAddr task) :
    ∀ node ∈ s.threadTotalList :: b.tasks.map listNode,
      node ∉ touched.map dispatchNode := by
  intro node member inTouched
  obtain ⟨task, isTouched, rfl⟩ := List.mem_map.mp inTouched
  have touchedAddr := addrs task isTouched
  have head := shape.totalList
  unfold PcbAddr mainPcb at touchedAddr
  unfold mainPcb at head
  rcases List.mem_cons.mp member with isHead | isNode
  · unfold dispatchNode at isHead
    omega
  · obtain ⟨other, inside, equal⟩ := List.mem_map.mp isNode
    have otherAddr := shape.addr inside
    unfold PcbAddr at otherAddr
    unfold listNode dispatchNode at equal
    omega

theorem ready_changed (shape : SchedShape b s) {touched : List Nat}
    {nodes : NodeHeap} {queue : GeneralQueue}
    (kept : LinksKept s.nodes nodes (touched.map dispatchNode))
    (addrs : ∀ task ∈ touched, PcbAddr task)
    (apart : ∀ sema, ∀ task ∈ b.waiting sema, task ∉ touched)
    (holds : QueueHolds nodes queue (b'.ready.map dispatchNode))
    (sameTasks : b'.tasks = b.tasks) (sameWaiting : b'.waiting = b.waiting) :
    Linked b' { s with nodes, threadReadyQueue := queue } where
  ready := holds
  waiting := by
    intro sema
    rw [sameWaiting]
    exact kept.queue (shape.linked.waiting sema)
      (dispatchNodes_apart (apart sema))
  total := by
    rw [sameTasks]
    exact kept.ring shape.linked.total (shape.total_apart addrs)

theorem waiting_changed (shape : SchedShape b s) {sema : Nat}
    {touched : List Nat} {nodes : NodeHeap} {queue : GeneralQueue}
    (kept : LinksKept s.nodes nodes (touched.map dispatchNode))
    (addrs : ∀ task ∈ touched, PcbAddr task)
    (apartReady : ∀ task ∈ b.ready, task ∉ touched)
    (apart : ∀ other, other ≠ sema → ∀ task ∈ b.waiting other, task ∉ touched)
    (holds : QueueHolds nodes queue ((b'.waiting sema).map dispatchNode))
    (sameTasks : b'.tasks = b.tasks) (sameReady : b'.ready = b.ready)
    (sameWaiting : ∀ other, other ≠ sema →
      b'.waiting other = b.waiting other) :
    Linked b' (Threads.setSemaphore { s with nodes } sema
      { s.semaphores sema with waiterQueue := queue }) where
  ready := by
    rw [sameReady]
    exact kept.queue shape.linked.ready (dispatchNodes_apart apartReady)
  waiting := by
    intro other
    unfold Threads.setSemaphore
    by_cases same : other = sema
    · subst other
      simpa using holds
    · simp only [Function.update_of_ne same, sameWaiting other same]
      exact kept.queue (shape.linked.waiting other)
        (dispatchNodes_apart (apart other same))
  total := by
    rw [sameTasks]
    exact kept.ring shape.linked.total (shape.total_apart addrs)

/-- One task moves and has its PCB written. -/
theorem moved (shape : SchedShape b s) {place : Place} {pcb : TaskStruct}
    (sameMm : s'.mm = s.mm) (sameList : s'.threadTotalList = s.threadTotalList)
    (sameMain : s'.mainThread = s.mainThread)
    (tidy : b'.Tidy) (linked : Linked b' s')
    (sameTasks : b'.tasks = b.tasks)
    (toPlace : b'.place = Function.update b.place task place)
    (written : s'.pcb = Function.update s.pcb task pcb)
    (agrees : PcbAgrees pcb place)
    (current : s'.currentTask ∈ b.tasks)
    (onCpu : ∀ other ∈ b.tasks,
      Function.update b.place task place other = .onCpu →
        other = s'.currentTask) :
    SchedShape b' s' where
  tidy := tidy
  layout := sameMm ▸ shape.layout
  placed := by
    rw [sameTasks, sameMm]
    exact shape.placed
  totalList := sameList ▸ shape.totalList
  main := sameMain.trans shape.main
  linked := linked
  agrees := by
    intro other inside
    rw [sameTasks] at inside
    rw [toPlace, written]
    by_cases same : other = task
    · subst other
      simpa using agrees
    · simpa [same] using shape.agrees other inside
  current := sameTasks ▸ current
  onCpu := by
    rw [sameTasks, toPlace]
    exact onCpu

end SchedShape

end Simos
