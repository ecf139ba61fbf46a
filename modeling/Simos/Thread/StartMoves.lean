import Simos.Thread.ScheduleMoves

/-!
# New tasks

What `thread_start` and `thread_init` do to the scheduler's data.  A call that
returns has got a fresh page for the PCB: the assertion of `memset` stops the
call when there was none.
-/

namespace Simos

open Simos.Library LinkHeap

def clearedNodes (nodes : NodeHeap) (task : Nat) : NodeHeap :=
  ⟨Function.update (Function.update nodes.node (dispatchNode task) ⟨0, 0⟩)
    (listNode task) ⟨0, 0⟩⟩

private theorem clearedNodes_kept (nodes : NodeHeap) (task : Nat) :
    LinksKept nodes (clearedNodes nodes task)
      [dispatchNode task, listNode task] := by
  intro node outside
  simp only [List.mem_cons, List.not_mem_nil, or_false, not_or] at outside
  simp [clearedNodes, next, prev, outside.1, outside.2]

structure NewPcb (s : Threads) (task : Nat) (status : TaskStatus)
    (s' : Threads) : Prop where
  nonNull : task ≠ 0
  changed : ∃ memory pidLock nextPid pcb,
    s' = { s with
      mm := s.mm.withMemory memory
      nodes := clearedNodes s.nodes task
      pidLock := pidLock
      nextPid := nextPid
      pcb := pcb }
  status_eq : (s'.pcb task).status = status
  boundary : (s'.pcb task).stackBoundary = stackBoundaryMark
  others : ∀ other, other ≠ task → s'.pcb other = s.pcb other

theorem pcbInit_newPcb {s s' : Threads} {pthread : Nat} {prio : Int}
    (returned : pcbInit s pthread prio = .ok s') :
    NewPcb s pthread
      (if pthread = s.mainThread then .taskRunning else .taskReady) s' := by
  simp only [pcbInit, clearPcb, allocPid, memset, Call.bind_eq_ok_iff,
    Call.assert_eq_ok_iff, Call.pure_eq_ok, Except.ok.injEq, exists_const]
    at returned
  obtain ⟨cleared, ⟨memory, ⟨nonNull, wiped⟩, rfl⟩, ⟨pid, numbered⟩,
    ⟨held, taken, freed, released, equal⟩, rfl⟩ := returned
  rw [Prod.mk.injEq] at equal
  obtain ⟨rfl, rfl⟩ := equal
  refine ⟨nonNull, ⟨memory, freed, _, _, rfl⟩, ?_, ?_, ?_⟩
  · simp [Threads.setPcb]
  · simp [Threads.setPcb]
  · intro other different
    simp [Threads.setPcb, different]

/-- The frame that `thread_creat` writes changes nothing that counts here. -/
theorem NewPcb.threadCreat {s s' : Threads} {task : Nat} {status : TaskStatus}
    (new : NewPcb s task status s') (function funcArgc : Nat) :
    NewPcb s task status (threadCreat s' task function funcArgc) := by
  obtain ⟨nonNull, ⟨memory, pidLock, nextPid, pcb, rfl⟩, status, boundary,
    others⟩ := new
  refine ⟨nonNull, ⟨_, pidLock, nextPid, _, rfl⟩, ?_, ?_, ?_⟩
  · simpa [Simos.threadCreat, Threads.setPcb] using status
  · simpa [Simos.threadCreat, Threads.setPcb] using boundary
  · intro other different
    simpa [Simos.threadCreat, Threads.setPcb, different] using
      others other different

section Links

variable {b : Board} {s s' : Threads} {task : Nat}

/-- A board whose tasks can stand beside a new PCB. -/
structure Roomy (b : Board) (totalList task : Nat) : Prop where
  addr : PcbAddr task
  fresh : task ∉ b.tasks
  addrs : ∀ other ∈ b.tasks, PcbAddr other
  ready : ∀ other ∈ b.ready, PcbAddr other
  waiting : ∀ sema, ∀ other ∈ b.waiting sema, PcbAddr other
  low : totalList + 8 ≤ mainPcb

private theorem queued_apart {queue : List Nat} (addr : PcbAddr task)
    (queued : ∀ other ∈ queue, PcbAddr other) (absent : task ∉ queue) :
    ∀ node ∈ queue.map dispatchNode,
      node ∉ [dispatchNode task, listNode task] := by
  intro node member
  obtain ⟨other, inside, rfl⟩ := List.mem_map.mp member
  have otherAddr := queued other inside
  have different : other ≠ task := fun equal => absent (equal ▸ inside)
  unfold PcbAddr at addr otherAddr
  simp only [dispatchNode, listNode, List.mem_cons, List.not_mem_nil, or_false]
  omega

private theorem listed_apart {totalList : Nat}
    (roomy : Roomy b totalList task) :
    ∀ node ∈ totalList :: b.tasks.map listNode,
      node ∉ [dispatchNode task, listNode task] := by
  have addr := roomy.addr
  have low := roomy.low
  unfold PcbAddr mainPcb at addr
  unfold mainPcb at low
  intro node member
  simp only [dispatchNode, listNode, List.mem_cons, List.not_mem_nil, or_false]
  rcases List.mem_cons.mp member with rfl | inList
  · omega
  · obtain ⟨other, inside, rfl⟩ := List.mem_map.mp inList
    have otherAddr := roomy.addrs other inside
    have different : other ≠ task := fun equal => roomy.fresh (equal ▸ inside)
    unfold PcbAddr at otherAddr
    unfold listNode
    omega

theorem NewPcb.linked {status : TaskStatus} (new : NewPcb s task status s')
    (roomy : Roomy b s.threadTotalList task) (notReady : task ∉ b.ready)
    (notWaiting : ∀ sema, task ∉ b.waiting sema) (linked : Linked b s) :
    Linked b s' := by
  obtain ⟨memory, pidLock, nextPid, pcb, rfl⟩ := new.changed
  have kept := clearedNodes_kept s.nodes task
  exact ⟨kept.queue linked.ready
      (queued_apart roomy.addr roomy.ready notReady),
    fun sema => kept.queue (linked.waiting sema)
      (queued_apart roomy.addr (roomy.waiting sema) (notWaiting sema)),
    kept.ring linked.total (listed_apart roomy)⟩

theorem totalListAdd_linked (linked : Linked b s)
    (roomy : Roomy b s.threadTotalList task)
    (added : totalListAdd s task = .ok s') :
    s' = { s with
        nodes := listAdd s.nodes s.threadTotalList (listNode task) } ∧
      Linked { b with tasks := task :: b.tasks } s' := by
  simp only [totalListAdd, Call.bind_eq_ok_iff, Call.assert_eq_ok_iff,
    Call.pure_eq_ok, Except.ok.injEq, exists_const] at added
  obtain ⟨_, _, _, rfl⟩ := added
  have fresh : listNode task ∉
      s.threadTotalList :: b.tasks.map listNode := fun member =>
    listed_apart roomy _ member (by simp)
  have frame : ∀ queue : List Nat, (∀ other ∈ queue, PcbAddr other) →
      ∀ node ∈ queue.map dispatchNode,
        node ∉ listNode task :: s.threadTotalList ::
          b.tasks.map listNode := by
    intro queue addrs node member inTotal
    obtain ⟨other, inside, rfl⟩ := List.mem_map.mp member
    have otherAddr := addrs other inside
    have low := roomy.low
    unfold PcbAddr mainPcb at otherAddr
    unfold mainPcb at low
    rcases List.mem_cons.mp inTotal with new | old
    · have addr := roomy.addr
      unfold PcbAddr at addr
      unfold dispatchNode listNode at new
      omega
    · rcases List.mem_cons.mp old with head | inList
      · unfold dispatchNode at head
        omega
      · obtain ⟨third, inTasks, equal⟩ := List.mem_map.mp inList
        have thirdAddr := roomy.addrs third inTasks
        unfold PcbAddr at thirdAddr
        unfold dispatchNode listNode at equal
        omega
  have kept : LinksKept s.nodes
      (listAdd s.nodes s.threadTotalList (listNode task))
      (listNode task :: s.threadTotalList :: b.tasks.map listNode) := by
    intro node outside
    rw [List.mem_cons, not_or] at outside
    exact listAdd_frame nodeHeap_lawful (fun _ _ => trivial) linked.total
      (fun _ _ => trivial) trivial fresh trivial outside.2 outside.1
  refine ⟨rfl, ?_, ?_, ?_⟩
  · exact kept.queue linked.ready (frame _ roomy.ready)
  · intro sema
    exact kept.queue (linked.waiting sema) (frame _ (roomy.waiting sema))
  · exact listAdd_ring nodeHeap_lawful (fun _ _ => trivial) linked.total
      (fun _ _ => trivial) trivial fresh

end Links

namespace SchedShape

variable {b : Board} {s s' : Threads} {task : Nat}

private theorem roomy (shape : SchedShape b s) (addr : PcbAddr task)
    (fresh : task ∉ b.tasks) : Roomy b s.threadTotalList task where
  addr := addr
  fresh := fresh
  addrs := fun _ inside => shape.addr inside
  ready := fun other ready =>
    shape.addr ((shape.tidy.mem_ready other).mp ready).1
  waiting := fun sema other waits =>
    shape.addr ((shape.tidy.mem_waiting sema other).mp waits).1
  low := shape.totalList.2

private theorem newPage (shape : SchedShape b s) {mm : MmState}
    (allocated : getKernelPages s.taskMm 1 = .ok (task, mm))
    (nonNull : task ≠ 0) :
    task ∉ b.tasks ∧ task ≠ mainPcb ∧ PcbPlaced mm task ∧
      SchedShape b { s with mm } := by
  have taskLayout : KernelPoolLayout s.taskMm := by
    have layout := shape.layout
    exact ⟨layout.vmStart, layout.phyStart, layout.vmPointer,
      layout.poolPointer, layout.sameCount, layout.bytesLen, layout.pagesBound,
      layout.userAbove⟩
  obtain ⟨layout, samePages, page, inside, rfl, clear, marked⟩ :=
    getKernelPages_one_fresh taskLayout allocated nonNull
  have notMain : pageAddr page ≠ mainPcb := by
    rw [pageAddr_eq]
    unfold mainPcb
    omega
  refine ⟨?_, notMain, Or.inr ⟨page, samePages ▸ inside, rfl, ?_⟩, ?_⟩
  · intro member
    rcases shape.placed _ member with main | ⟨old, _, equal, set⟩
    · exact notMain main
    · have same : page = old := by
        rw [pageAddr_eq, pageAddr_eq] at equal
        omega
      subst old
      exact Bool.false_ne_true (clear.symm.trans set)
  · rw [marked page, if_pos rfl]
  · have linked := shape.linked
    refine ⟨shape.tidy, layout, ?_, shape.totalList, shape.main,
      ⟨linked.1, linked.2, linked.3⟩, shape.agrees, shape.current, shape.onCpu⟩
    intro other member
    rcases shape.placed other member with main | ⟨old, low, equal, set⟩
    · exact Or.inl main
    · refine Or.inr ⟨old, samePages ▸ low, equal, ?_⟩
      rw [marked old]
      split
      · rfl
      · exact set

theorem newPcb (shape : SchedShape b s) {status : TaskStatus}
    (addr : PcbAddr task) (fresh : task ∉ b.tasks)
    (new : NewPcb s task status s') : SchedShape b s' := by
  have linked := new.linked (shape.roomy addr fresh)
    (fun ready => fresh ((shape.tidy.mem_ready task).mp ready).1)
    (fun sema waits => fresh ((shape.tidy.mem_waiting sema task).mp waits).1)
    shape.linked
  have others := new.others
  obtain ⟨memory, pidLock, nextPid, pcb, rfl⟩ := new.changed
  refine ⟨shape.tidy, shape.layout.withMemory memory, shape.placed,
    shape.totalList, shape.main, linked, ?_, shape.current, shape.onCpu⟩
  intro other member
  rw [others other fun equal => fresh (equal ▸ member)]
  exact shape.agrees other member

private theorem enrol (shape : SchedShape b s) {s₁ s₂ : Threads}
    (placed : PcbPlaced s.mm task) (fresh : task ∉ b.tasks)
    (agrees : PcbAgrees (s.pcb task) .ready)
    (entered : s.readyIn task = .ok s₁)
    (listed : totalListAdd s₁ task = .ok s₂) :
    ∃ nodes queue,
      s₂ = { s with nodes, threadReadyQueue := queue } ∧
      SchedShape (b.start task) s₂ := by
  have addr := placed.addr shape.layout
  have notReady : task ∉ b.ready := fun ready =>
    fresh ((shape.tidy.mem_ready task).mp ready).1
  obtain ⟨nodes, queue, entered', linked⟩ := shape.readyIn_ok addr notReady
    fun sema waits => fresh ((shape.tidy.mem_waiting sema task).mp waits).1
  rw [entered', Except.ok.injEq] at entered
  subst s₁
  have before := shape.roomy addr fresh
  have roomy : Roomy (b.readyBack task) s.threadTotalList task := by
    refine ⟨addr, fresh, before.addrs, ?_, before.waiting, before.low⟩
    intro other member
    rcases List.mem_append.mp member with ready | new
    · exact before.ready other ready
    · rw [List.mem_singleton.mp new]
      exact addr
  obtain ⟨rfl, linked'⟩ := totalListAdd_linked linked roomy listed
  refine ⟨_, _, rfl, shape.tidy.start fresh, shape.layout, ?_,
    shape.totalList, shape.main, linked', ?_,
    List.mem_cons_of_mem task shape.current, ?_⟩
  · intro other member
    rcases List.mem_cons.mp member with rfl | old
    · exact placed
    · exact shape.placed other old
  · intro other member
    by_cases same : other = task
    · subst other
      simpa [Board.start] using agrees
    · simpa [Board.start, same] using shape.agrees other
        ((List.mem_cons.mp member).resolve_left same)
  · intro other member onCpu
    by_cases same : other = task
    · simp [Board.start, same] at onCpu
    · exact shape.onCpu other ((List.mem_cons.mp member).resolve_left same)
        (by simpa [Board.start, same] using onCpu)

/-- A call of `thread_start` that returns adds a new, ready task. -/
theorem threadStart_ok (shape : SchedShape b s) {prio : Int}
    {function funcArgc : Nat}
    (returned : threadStart s prio function funcArgc = .ok (task, s')) :
    task ∉ b.tasks ∧ SchedShape (b.start task) s' ∧
      s'.currentTask = s.currentTask ∧ s'.idleThread = s.idleThread ∧
      s'.waiters = s.waiters ∧ s'.resume = s.resume ∧
      s'.semaphores = s.semaphores := by
  simp only [threadStart, Call.bind_eq_ok_iff, Call.pure_eq_ok,
    Except.ok.injEq, Prod.mk.injEq] at returned
  obtain ⟨⟨thread, mm⟩, allocated, s₁, initialized, _, _, s₂, entered, s₃,
    listed, rfl, rfl⟩ := returned
  have new := (pcbInit_newPcb initialized).threadCreat function funcArgc
  obtain ⟨fresh, notMain, placed, shape₀⟩ :=
    shape.newPage allocated new.nonNull
  have shape₁ := shape₀.newPcb (placed.addr shape₀.layout) fresh new
  have status := new.status_eq
  rw [if_neg (by rw [shape.main]; exact notMain)] at status
  have agrees : PcbAgrees _ Place.ready := ⟨status, new.boundary⟩
  obtain ⟨memory, pidLock, nextPid, pcb, changed⟩ := new.changed
  rw [changed] at shape₁ agrees entered
  obtain ⟨nodes, queue, rfl, enrolled⟩ :=
    shape₁.enrol placed fresh agrees entered listed
  exact ⟨fresh, enrolled, rfl, rfl, rfl, rfl, rfl⟩

end SchedShape

end Simos
