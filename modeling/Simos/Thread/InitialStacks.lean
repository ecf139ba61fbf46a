import Simos.Mm.PageRuns
import Simos.Thread.ScheduleRuns

/-!
# The first stacks of threads

`pcb_init` computes the top of a thread's stack from its PCB, `thread_creat`
takes the interrupt frame and the `thread_stack` frame off it, and
`set_tss_esp0` (`userprog/tss.c`) computes the top once more.  The first two
count in the units of the pointer types they are written with.

* `initialStack_outside` is where the frame of a thread really is;
* `stackRun_ownPages_iff` says in which runs the stacks of all threads lie in
  their own PCB pages.
-/

namespace Simos

open Simos.Library

/-- `set_tss_esp0`: the address that goes to `tss.esp0`. -/
def setTssEsp0 (ptask : Nat) : Nat :=
  u32 (ptask + pageSize)

/-- The first stack of a thread: its PCB, the top that `pcb_init` leaves in
`self_kernel_stack`, and the frame that `thread_creat` fills. -/
structure InitialStack where
  pcb : Nat
  top : Nat
  frame : Nat
  deriving DecidableEq

namespace InitialStack

/-- The stack starts at the end of the PCB page, and the frame lies between
the `task_struct` and that end. -/
structure InPage (stack : InitialStack) : Prop where
  top : stack.top = stack.pcb + pageSize
  tss : stack.top = setTssEsp0 stack.pcb
  above : stack.pcb + sizeofTaskStruct ≤ stack.frame
  below : stack.frame + sizeofThreadStack ≤ stack.pcb + pageSize

def Apart (left right : InitialStack) : Prop :=
  left.frame + sizeofThreadStack ≤ right.frame ∨
    right.frame + sizeofThreadStack ≤ left.frame

def OutOf (stack : InitialStack) (block : PageBlock) : Prop :=
  stack.frame + sizeofThreadStack ≤ block.vaddr ∨
    block.vaddr + pageSize * block.pages ≤ stack.frame

end InitialStack

/-- The threads with the stacks they were started with, and the blocks of
pages that are in use, those of the PCBs among them. -/
structure StackUse where
  threads : Threads
  firstStacks : List InitialStack
  live : List PageBlock

/-- Every stack lies in its own page, apart from the others and from every
live block that is not its PCB. -/
structure StackUse.OwnPages (s : StackUse) : Prop where
  inPage : ∀ stack ∈ s.firstStacks, stack.InPage
  apart : s.firstStacks.Pairwise InitialStack.Apart
  outOf : ∀ stack ∈ s.firstStacks, ∀ block ∈ s.live, block.vaddr ≠ stack.pcb →
    stack.OutOf block

/-- A call of `thread_start` or of the page allocator. -/
inductive StackEvent where
  | threadStart (prio : Int) (function funcArgc : Nat)
  | pages (event : PageEvent)

def StackEvent.startsThread : StackEvent → Prop
  | .threadStart _ _ _ => True
  | .pages _ => False

/-- One returning call.  The parts of `thread_start` are written out to name
the stack pointer between them. -/
inductive StackStep : StackUse → StackEvent → StackUse → Prop
  | threadStart {s : StackUse} {prio : Int} {function funcArgc thread : Nat}
      {mm : MmState} {initialized threads : Threads} :
      getKernelPages s.threads.taskMm (pcbSize / pageSize) =
        .ok (thread, mm) →
      pcbInit { s.threads with mm } thread prio = .ok initialized →
      Simos.threadStart s.threads prio function funcArgc =
        .ok (thread, threads) →
      StackStep s (.threadStart prio function funcArgc)
        { threads := threads
          firstStacks :=
            { pcb := thread
              top := (initialized.pcb thread).selfKernelStack
              frame := ((threadCreat initialized thread function
                funcArgc).pcb thread).selfKernelStack } :: s.firstStacks
          live := grant s.live thread (pcbSize / pageSize) }
  | pages {s : StackUse} {event : PageEvent} {mm : MmState}
      {live : List PageBlock} :
      PageStep ⟨s.threads.taskMm, s.live⟩ event ⟨mm, live⟩ →
      StackStep s (.pages event)
        ⟨{ s.threads with mm }, s.firstStacks, live⟩

private def stackOf (pcb : Nat) : InitialStack where
  pcb := pcb
  top := u32 (pcb + pcbSize * sizeofTaskStruct)
  frame := sub32 (sub32 (u32 (pcb + pcbSize * sizeofTaskStruct))
    (4 * sizeofIntrStack)) (4 * sizeofThreadStack)

private theorem pcbInit_selfKernelStack {s s' : Threads} {pthread : Nat}
    {prio : Int} (returned : pcbInit s pthread prio = .ok s') :
    (s'.pcb pthread).selfKernelStack =
      u32 (pthread + pcbSize * sizeofTaskStruct) := by
  simp only [pcbInit, Call.bind_eq_ok_iff, Call.pure_eq_ok, Except.ok.injEq]
    at returned
  obtain ⟨cleared, _, ⟨pid, numbered⟩, _, rfl⟩ := returned
  simp [Threads.setPcb]

private theorem threadCreat_selfKernelStack (s : Threads)
    (pthread function funcArgc : Nat) :
    ((threadCreat s pthread function funcArgc).pcb pthread).selfKernelStack =
      sub32 (sub32 (s.pcb pthread).selfKernelStack (4 * sizeofIntrStack))
        (4 * sizeofThreadStack) := by
  simp [threadCreat, Threads.setPcb]

/-- The frame lies 818768 bytes above the PCB: 200 pages, less four times the
sizes of the two frames. -/
theorem stackOf_frame (pcb : Nat) :
    (stackOf pcb).frame = u32 (pcb + 818768) := by
  simp only [stackOf, pcbSize, pageSize, sizeofTaskStruct, sizeofIntrStack,
    sizeofThreadStack]
  unfold sub32 u32
  omega

/-- Neither the top nor the frame of a stack is in the page of its PCB. -/
theorem initialStack_outside (pcb : Nat) :
    (stackOf pcb).top ≠ pcb + pageSize ∧
      (stackOf pcb).top ≠ setTssEsp0 pcb ∧
      ¬ (pcb + sizeofTaskStruct ≤ (stackOf pcb).frame ∧
        (stackOf pcb).frame + sizeofThreadStack ≤ pcb + pageSize) := by
  rw [stackOf_frame]
  simp only [stackOf, setTssEsp0, pcbSize, pageSize, sizeofTaskStruct,
    sizeofThreadStack]
  unfold u32
  omega

theorem StackStep.started {s : StackUse} {prio : Int}
    {function funcArgc thread : Nat} {mm : MmState}
    {initialized threads : Threads}
    (allocated : getKernelPages s.threads.taskMm (pcbSize / pageSize) =
      .ok (thread, mm))
    (set : pcbInit { s.threads with mm } thread prio = .ok initialized)
    (returned : Simos.threadStart s.threads prio function funcArgc =
      .ok (thread, threads)) :
    StackStep s (.threadStart prio function funcArgc)
      ⟨threads, stackOf thread :: s.firstStacks,
        grant s.live thread (pcbSize / pageSize)⟩ := by
  have taken := StackStep.threadStart allocated set returned
  rw [threadCreat_selfKernelStack, pcbInit_selfKernelStack set] at taken
  exact taken

private theorem StackStep.stacks_eq {s s' : StackUse} {event : StackEvent}
    (taken : StackStep s event s') :
    (event.startsThread ∧ ∃ pcb, s'.firstStacks = stackOf pcb :: s.firstStacks) ∨
      (¬ event.startsThread ∧ s'.firstStacks = s.firstStacks) := by
  cases taken with
  | threadStart allocated initialized started =>
      refine Or.inl ⟨trivial, ?_⟩
      simp only [threadCreat_selfKernelStack,
        pcbInit_selfKernelStack initialized]
      exact ⟨_, rfl⟩
  | pages allocated =>
      exact Or.inr ⟨fun starts => starts, rfl⟩

theorem stackRun_stacks {first last : StackUse}
    {trace : List (StackEvent × StackUse)} (fresh : first.firstStacks = [])
    (run : Run StackStep first trace last) :
    (∀ stack ∈ last.firstStacks, ∃ pcb, stack = stackOf pcb) ∧
      (last.firstStacks = [] ↔
        ∀ event state, (event, state) ∈ trace → ¬ event.startsThread) := by
  induction run with
  | start =>
      simp [fresh]
  | @next trace current last event _ taken inductionHypothesis =>
      obtain ⟨known, empty⟩ := inductionHypothesis
      rcases taken.stacks_eq with ⟨starts, pcb, added⟩ | ⟨noStart, kept⟩
      · rw [added]
        refine ⟨?_, ?_⟩
        · intro stack member
          rcases List.mem_cons.mp member with new | old
          · exact ⟨pcb, new⟩
          · exact known stack old
        · simp only [reduceCtorEq, false_iff]
          intro none
          exact none event last (by simp) starts
      · rw [kept]
        refine ⟨known, empty.trans ?_⟩
        constructor
        · intro none tested state member
          rcases List.mem_append.mp member with before | final
          · exact none tested state before
          · simp only [List.mem_singleton, Prod.mk.injEq] at final
            rw [final.1]
            exact noStart
        · intro none tested state member
          exact none tested state (List.mem_append_left _ member)

/-- The stacks lie in their own pages exactly in the runs that start no
thread: no thread has its stack in its PCB page. -/
theorem stackRun_ownPages_iff {first last : StackUse}
    {trace : List (StackEvent × StackUse)} (fresh : first.firstStacks = [])
    (run : Run StackStep first trace last) :
    (last.OwnPages ↔
        ∀ event state, (event, state) ∈ trace → ¬ event.startsThread) ∧
      ∀ stack ∈ last.firstStacks,
        stack.top ≠ stack.pcb + pageSize ∧
          stack.top ≠ setTssEsp0 stack.pcb ∧
          ¬ (stack.pcb + sizeofTaskStruct ≤ stack.frame ∧
            stack.frame + sizeofThreadStack ≤ stack.pcb + pageSize) := by
  obtain ⟨known, empty⟩ := stackRun_stacks fresh run
  have outside : ∀ stack ∈ last.firstStacks,
      stack.top ≠ stack.pcb + pageSize ∧
        stack.top ≠ setTssEsp0 stack.pcb ∧
        ¬ (stack.pcb + sizeofTaskStruct ≤ stack.frame ∧
          stack.frame + sizeofThreadStack ≤ stack.pcb + pageSize) := by
    intro stack member
    obtain ⟨pcb, rfl⟩ := known stack member
    exact initialStack_outside pcb
  refine ⟨?_, outside⟩
  rw [← empty]
  constructor
  · intro own
    rw [List.eq_nil_iff_forall_not_mem]
    intro stack member
    exact (outside stack member).1 (own.inPage stack member).top
  · intro none
    constructor <;> simp [none]

private theorem overlap_run :
    ∃ mm first, ∃ last : StackUse, ∃ trace : List (StackEvent × StackUse),
      memInit coldMm 0x2200000 = .ok mm ∧
      threadInit (coldThreads mm) = .ok first ∧
      Run StackStep ⟨first, [], []⟩ trace last ∧
      last.firstStacks = [stackOf 0xc1001000] ∧
      last.live = [⟨0xc1002000, 199⟩, ⟨0xc1001000, 1⟩] := by
  have computed : (do
      let mm ← memInit coldMm 0x2200000
      let first ← threadInit (coldThreads mm)
      let page ← getKernelPages first.taskMm (pcbSize / pageSize)
      let initialized ← pcbInit { first with mm := page.2 } page.1 1
      let started ← threadStart first 1 0xc0003200 0
      let block ← getKernelPages started.2.taskMm 199
      return (page.1, started.1, (initialized.pcb page.1).selfKernelStack,
        block.1) : Call (Nat × Nat × Nat × Nat)) =
      .ok (0xc1001000, 0xc1001000, 0xc10c9000, 0xc1002000) := by
    decide +kernel
  simp only [Call.bind_eq_ok_iff, Call.pure_eq_ok, Except.ok.injEq,
    Prod.mk.injEq, Prod.exists] at computed
  obtain ⟨mm, booted, first, initialized, thread, pageMm, allocated, pcb, set,
    started, threads, starts, vaddr, usedMm, taken, rfl, rfl, top, rfl⟩ :=
    computed
  have pagesTaken : PageStep ⟨threads.taskMm, [⟨0xc1001000, 1⟩]⟩
      (.getKernelPages 199 0xc1002000)
      ⟨usedMm, [⟨0xc1002000, 199⟩, ⟨0xc1001000, 1⟩]⟩ :=
    .getKernelPages (by decide) (by decide) taken
  have startStep : StackStep ⟨first, [], []⟩ (.threadStart 1 0xc0003200 0)
      ⟨threads, [stackOf 0xc1001000], [⟨0xc1001000, 1⟩]⟩ :=
    .started allocated set starts
  have pagesStep : StackStep
      ⟨threads, [stackOf 0xc1001000], [⟨0xc1001000, 1⟩]⟩
      (.pages (.getKernelPages 199 0xc1002000))
      ⟨{ threads with mm := usedMm }, [stackOf 0xc1001000],
        [⟨0xc1002000, 199⟩, ⟨0xc1001000, 1⟩]⟩ :=
    .pages pagesTaken
  exact ⟨mm, first, _, _, booted, initialized,
    (Run.start.next startStep).next pagesStep, rfl, rfl⟩

/-- The statement at that run. -/
theorem stackRun_ownPages_iff_overlap :
    ∃ mm first, ∃ last : StackUse, ∃ trace : List (StackEvent × StackUse),
      memInit coldMm 0x2200000 = .ok mm ∧
      threadInit (coldThreads mm) = .ok first ∧
      (last.OwnPages ↔
        ∀ event state, (event, state) ∈ trace → ¬ event.startsThread) := by
  obtain ⟨mm, first, last, trace, booted, initialized, run, -⟩ := overlap_run
  exact ⟨mm, first, last, trace, booted, initialized,
    (stackRun_ownPages_iff rfl run).1⟩

/-- The first thread started after boot has its PCB at `0xc1001000` and its
stack at `0xc10c9000`; the frame lies in a block that is handed out later. -/
theorem threadStart_stack_elsewhere :
    ∃ mm first, ∃ last : StackUse, ∃ trace : List (StackEvent × StackUse),
      memInit coldMm 0x2200000 = .ok mm ∧
      threadInit (coldThreads mm) = .ok first ∧
      Run StackStep ⟨first, [], []⟩ trace last ∧
      ∃ stack ∈ last.firstStacks, ∃ block ∈ last.live,
        stack.top = 0xc10c9000 ∧ setTssEsp0 stack.pcb = 0xc1002000 ∧
          block.vaddr ≠ stack.pcb ∧ block.vaddr ≤ stack.frame ∧
          stack.frame + sizeofThreadStack ≤
            block.vaddr + pageSize * block.pages ∧
          ¬ last.OwnPages := by
  obtain ⟨mm, first, last, trace, booted, initialized, run, stacksEq, live⟩ :=
    overlap_run
  refine ⟨mm, first, last, trace, booted, initialized, run, stackOf 0xc1001000,
    by simp [stacksEq], ⟨0xc1002000, 199⟩, by simp [live], by decide, by decide,
    by decide, by decide, by decide, ?_⟩
  intro own
  have inPage := (own.inPage (stackOf 0xc1001000) (by simp [stacksEq])).top
  exact absurd inPage (by decide)

end Simos
