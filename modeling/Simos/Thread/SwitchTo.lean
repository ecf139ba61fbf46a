import Mathlib.Data.Set.Defs
import Simos.Library.Ia32Stack
import Simos.Library.Runs
import Simos.Thread.Schedule

/-!
# Context switches (`thread/switch.S`, `thread_creat`)

The threads of the kernel share one processor and one memory.  Between two
calls of `switch_to` the running thread may change every register and every
byte, except those on the stacks of the threads that are switched out and
their `self_kernel_stack`.

* `KernelStacks` is the assumption: the stacks are private;
* `SwitchOk` is the invariant: the frame of every thread that is switched out
  is intact;
* `switchTo_transparent` is the result.
-/

namespace Simos

open Simos.Library Ia32

/-- `switch_to`, as far as it runs on the stack of `current`. -/
def saveCode : List Instr :=
  [.push .esi, .push .edi, .push .ebx, .push .ebp,
    .loadSp .eax 20, .storeAt .eax .esp,
    .loadSp .eax 24, .loadAt .esp .eax]

/-- `switch_to` on the stack of `next`. -/
def restoreCode : List Instr :=
  [.pop .ebp, .pop .ebx, .pop .edi, .pop .esi]

def switchTo (m : Machine) : Machine :=
  ret (runCode restoreCode (runCode saveCode m))

/-- The words of `struct thread_stack` that `thread_creat` fills. -/
def fillThreadStack (memory : ByteMemory)
    (kernelStack kernelFunc function funcArgc : Nat) : ByteMemory :=
  let memory := memory.storeWord (u32 (kernelStack + 16)) kernelFunc
  let memory := memory.storeWord (u32 (kernelStack + 28)) funcArgc
  let memory := memory.storeWord (u32 (kernelStack + 24)) function
  let memory := memory.storeWord kernelStack 0
  let memory := memory.storeWord (u32 (kernelStack + 4)) 0
  let memory := memory.storeWord (u32 (kernelStack + 8)) 0
  memory.storeWord (u32 (kernelStack + 12)) 0

def creatStack (selfKernelStack : Nat) : Nat :=
  sub32 (sub32 selfKernelStack (4 * sizeofIntrStack)) (4 * sizeofThreadStack)

/-- `thread_creat` on the memory, where `self_kernel_stack` is the first word
of the PCB. -/
def creatMemory (memory : ByteMemory)
    (pthread kernelFunc function funcArgc : Nat) : ByteMemory :=
  let kernelStack := creatStack (memory.loadWord pthread)
  fillThreadStack (memory.storeWord pthread kernelStack) kernelStack kernelFunc
    function funcArgc

/-- `thread_creat` of the scheduler fills the same words. -/
theorem threadCreat_memory (s : Threads) (pthread function funcArgc : Nat) :
    (threadCreat s pthread function funcArgc).mm.memory =
        fillThreadStack s.mm.memory
          (creatStack (s.pcb pthread).selfKernelStack) s.kernelFunc function
          funcArgc ∧
      ((threadCreat s pthread function funcArgc).pcb pthread).selfKernelStack =
        creatStack (s.pcb pthread).selfKernelStack := by
  simp [threadCreat, fillThreadStack, creatStack, Threads.setPcb]

/-- The threads, named by their PCBs, with their stacks.  No stack overlaps
another one or the `self_kernel_stack` of a PCB. -/
structure KernelStacks where
  threads : Set Nat
  bottom : Nat → Nat
  top : Nat → Nat
  top_lt : ∀ thread ∈ threads, top thread < 4294967296
  pcb_lt : ∀ thread ∈ threads, thread < 4294967296
  apart : ∀ thread ∈ threads, ∀ other ∈ threads, thread ≠ other →
    top thread ≤ bottom other ∨ top other ≤ bottom thread
  pcbApart : ∀ thread ∈ threads, ∀ other ∈ threads, thread ≠ other →
    thread + 4 ≤ other ∨ other + 4 ≤ thread
  pcbOutside : ∀ thread ∈ threads, ∀ other ∈ threads,
    thread + 4 ≤ bottom other ∨ top other ≤ thread

/-- The stack of a thread and its `self_kernel_stack`. -/
def KernelStacks.Own (layout : KernelStacks) (thread address : Nat) : Prop :=
  (layout.bottom thread ≤ address ∧ address < layout.top thread) ∨
    (thread ≤ address ∧ address < thread + 4)

/-- How a thread came to be switched out: by its call of `switch_to`, with the
registers and the return address at the call, or by its creation. -/
inductive Suspended where
  | called (cpu : Cpu) (returnAddress : BitVec 32)
  | created (function funcArgc : BitVec 32)

/-- The processor, the running thread, and the threads that are switched
out. -/
structure SwitchUse where
  machine : Machine
  current : Nat
  suspended : Nat → Option Suspended

namespace SwitchUse

/-- The bytes that belong to the threads that are switched out. -/
def Foreign (layout : KernelStacks) (s : SwitchUse) (address : Nat) : Prop :=
  ∃ thread, s.suspended thread ≠ none ∧ layout.Own thread address

/-- The running thread gives up the processor at its call of `switch_to`. -/
def suspend (s : SwitchUse) : Nat → Option Suspended :=
  Function.update s.suspended s.current
    (some (.called s.machine.cpu (s.machine.peek 0)))

/-- The running thread is at the first instruction of
`switch_to(current, next)`, with room on its stack. -/
structure CallsSwitch (layout : KernelStacks) (s : SwitchUse) (next : Nat) :
    Prop where
  member : next ∈ layout.threads
  waits : s.suspend next ≠ none
  low : layout.bottom s.current + 16 ≤ s.machine.cpu.esp.toNat
  high : s.machine.cpu.esp.toNat + 12 ≤ layout.top s.current
  first : s.machine.peek 1 = BitVec.ofNat 32 s.current
  second : s.machine.peek 2 = BitVec.ofNat 32 next

end SwitchUse

inductive SwitchEvent where
  | work
  | creat (thread : Nat) (function funcArgc : BitVec 32)
  | switchTo (next : Nat)

/-- One step of the running thread: any computation of its own, a call of
`thread_creat`, or a call of `switch_to`. -/
inductive SwitchStep (layout : KernelStacks) (kernelFunc : BitVec 32) :
    SwitchUse → SwitchEvent → SwitchUse → Prop
  | work {s : SwitchUse} {m : Machine} :
      (∀ address, s.Foreign layout address →
        m.memory.byte address = s.machine.memory.byte address) →
      SwitchStep layout kernelFunc s .work { s with machine := m }
  | creat {s : SwitchUse} {thread : Nat} {function funcArgc : BitVec 32} :
      thread ∈ layout.threads → thread ≠ s.current →
      s.suspended thread = none →
      layout.bottom thread ≤
        creatStack (s.machine.memory.loadWord thread) →
      creatStack (s.machine.memory.loadWord thread) + sizeofThreadStack ≤
        layout.top thread →
      SwitchStep layout kernelFunc s (.creat thread function funcArgc)
        ⟨⟨s.machine.cpu, creatMemory s.machine.memory thread kernelFunc.toNat
            function.toNat funcArgc.toNat⟩, s.current,
          Function.update s.suspended thread
            (some (.created function funcArgc))⟩
  | switchTo {s : SwitchUse} {next : Nat} :
      s.CallsSwitch layout next →
      SwitchStep layout kernelFunc s (.switchTo next)
        ⟨Simos.switchTo s.machine, next,
          Function.update s.suspend next none⟩

/-! ## The invariant -/

/-- `self_kernel_stack` points to these words on the thread's stack. -/
structure SavedWords (layout : KernelStacks) (memory : ByteMemory)
    (thread : Nat) (stack : BitVec 32) (words : List (BitVec 32)) : Prop where
  pointer : word memory thread = stack
  low : layout.bottom thread ≤ stack.toNat
  high : stack.toNat + 4 * words.length ≤ layout.top thread
  holds : Holds memory stack.toNat words

def FrameIntact (layout : KernelStacks) (kernelFunc : BitVec 32)
    (memory : ByteMemory) (thread : Nat) : Suspended → Prop
  | .called cpu returnAddress =>
      SavedWords layout memory thread (cpu.esp - 16)
          [cpu.ebp, cpu.ebx, cpu.edi, cpu.esi, returnAddress] ∧
        16 ≤ cpu.esp.toNat
  | .created function funcArgc =>
      ∃ stack unusedRet, SavedWords layout memory thread stack
        [0, 0, 0, 0, kernelFunc, unusedRet, function, funcArgc]

structure SwitchOk (layout : KernelStacks) (kernelFunc : BitVec 32)
    (s : SwitchUse) : Prop where
  member : s.current ∈ layout.threads
  running : s.suspended s.current = none
  suspended_mem : ∀ thread, s.suspended thread ≠ none →
    thread ∈ layout.threads
  intact : ∀ thread suspended, s.suspended thread = some suspended →
    FrameIntact layout kernelFunc s.machine.memory thread suspended

def SwitchedIn (kernelFunc : BitVec 32) (m : Machine) : Suspended → Prop
  | .called cpu returnAddress =>
      m.cpu.eip = returnAddress ∧ m.cpu.esp = cpu.esp + 4 ∧
        m.cpu.ebp = cpu.ebp ∧ m.cpu.ebx = cpu.ebx ∧ m.cpu.esi = cpu.esi ∧
        m.cpu.edi = cpu.edi
  | .created function funcArgc =>
      m.cpu.eip = kernelFunc ∧ m.peek 1 = function ∧ m.peek 2 = funcArgc ∧
        m.cpu.ebp = 0 ∧ m.cpu.ebx = 0 ∧ m.cpu.esi = 0 ∧ m.cpu.edi = 0

/-! ## The two halves of `switch_to` -/

private def restored (cpu : Cpu) (stack ebp ebx edi esi eip : BitVec 32) :
    Cpu :=
  { cpu with
    esp := stack + 20
    ebp := ebp
    ebx := ebx
    edi := edi
    esi := esi
    eip := eip }

private theorem restoreCode_view {m : Machine} {ebp ebx edi esi eip : BitVec 32}
    {rest : List (BitVec 32)}
    (view : View m (ebp :: ebx :: edi :: esi :: eip :: rest)) :
    Follows m (ret (runCode restoreCode m))
      (ebp :: ebx :: edi :: esi :: eip :: rest) rest
      (restored m.cpu m.cpu.esp ebp ebx edi esi eip) 0 ∧
      (ret (runCode restoreCode m)).memory = m.memory := by
  obtain ⟨cpu, computed, returned⟩ : ∃ cpu, runOnStack restoreCode m.cpu
      (ebp :: ebx :: edi :: esi :: eip :: rest) = some (cpu, eip :: rest) ∧
      retOnStack cpu (eip :: rest) =
        restored m.cpu m.cpu.esp ebp ebx edi esi eip := by
    simp [restoreCode, retOnStack, restored, Cpu.withEsp, add_assoc]
  have popped := runCode_view restoreCode view (Nat.zero_le _) computed
  have back := ret_view popped.view (Nat.succ_pos rest.length)
  rw [popped.cpu, returned] at back
  have same := runCode_memory restoreCode (by decide) m
  exact ⟨popped.trans back, (ret_memory _).trans same⟩

/-- The memory after the first half of `switch_to`: the frame, and the stack
pointer in `self_kernel_stack`. -/
theorem saveCode_view {m : Machine} {returnAddress current next : BitVec 32}
    (view : View m [returnAddress, current, next])
    (room : 16 ≤ m.cpu.esp.toNat)
    (apart : current.toNat + 4 ≤ m.cpu.esp.toNat - 16 ∨
      m.cpu.esp.toNat + 12 ≤ current.toNat) :
    ∃ memory, Holds memory (m.cpu.esp - 16).toNat
        [m.cpu.ebp, m.cpu.ebx, m.cpu.edi, m.cpu.esi, returnAddress] ∧
      word memory current.toNat = m.cpu.esp - 16 ∧
      (∀ address, address < m.cpu.esp.toNat - 16 ∨
          m.cpu.esp.toNat + 12 ≤ address →
        address < current.toNat ∨ current.toNat + 4 ≤ address →
        memory.byte address = m.memory.byte address) ∧
      ∃ cpu : Cpu, runCode saveCode m =
        ⟨cpu.withEsp (word memory next.toNat), memory⟩ := by
  obtain ⟨cpu, computed, eax, esp⟩ : ∃ cpu,
      runOnStack (saveCode.take 5) m.cpu [returnAddress, current, next] =
        some (cpu, [m.cpu.ebp, m.cpu.ebx, m.cpu.edi, m.cpu.esi, returnAddress,
          current, next]) ∧ cpu.eax = current ∧ cpu.esp = m.cpu.esp - 16 := by
    simp [saveCode, Cpu.withEsp, sub_sub]
  have pushed := runCode_view (saveCode.take 5) view room computed
  have split : saveCode =
      saveCode.take 5 ++ [.storeAt .eax .esp, .loadSp .eax 24,
        .loadAt .esp .eax] := rfl
  rw [split, runCode_append]
  have low : pushedBy (saveCode.take 5) = 4 := rfl
  rw [low] at pushed
  generalize runCode (saveCode.take 5) m = middle at pushed
  have stack : middle.cpu.esp.toNat = m.cpu.esp.toNat - 16 := by
    rw [pushed.cpu, esp]
    bv_omega
  -- the store to `self_kernel_stack` leaves the frame alone
  have kept : View ⟨middle.cpu, storeWord middle.memory current.toNat
      middle.cpu.esp⟩ [m.cpu.ebp, m.cpu.ebx, m.cpu.edi, m.cpu.esi,
        returnAddress, current, next] := by
    refine ⟨pushed.view.holds.congr (.storeWord _ _ ?_), pushed.view.below⟩
    simp only [List.length_cons, List.length_nil]
    omega
  have loaded : Machine.peek ⟨middle.cpu, storeWord middle.memory
      current.toNat middle.cpu.esp⟩ 6 = next :=
    kept.peek (show 6 < 7 by decide)
  have isStack : middle.cpu.esp = m.cpu.esp - 16 := by
    rw [pushed.cpu, esp]
  have isCurrent : middle.cpu.eax = current := by
    rw [pushed.cpu, eax]
  refine ⟨storeWord middle.memory current.toNat middle.cpu.esp, ?_, ?_, ?_,
    { middle.cpu with eax := next }, ?_⟩
  · have frame := kept.holds
    rw [← isStack]
    exact ⟨frame.1, frame.2.1, frame.2.2.1, frame.2.2.2.1, frame.2.2.2.2.1,
      trivial⟩
  · rw [word_storeWord, isStack]
  · intro address outFrame outWord
    rw [storeWord, ByteMemory.byte_storeWord_of_outside _ _ outWord]
    exact pushed.written address (by
      simp only [List.length_cons, List.length_nil]
      omega)
  · have stored : Instr.exec middle (.storeAt .eax .esp) =
        ⟨middle.cpu,
          storeWord middle.memory current.toNat middle.cpu.esp⟩ := by
      simp only [Instr.exec, Cpu.get, isCurrent]
    have fetched : Instr.exec ⟨middle.cpu,
          storeWord middle.memory current.toNat middle.cpu.esp⟩
        (.loadSp .eax 24) =
        ⟨{ middle.cpu with eax := next },
          storeWord middle.memory current.toNat middle.cpu.esp⟩ := by
      rw [← loaded]
      rfl
    rw [runCode, stored, runCode, fetched]
    rfl

/-! ## The frame of a new thread -/

/-- `thread_creat` fills the frame and nothing else. -/
theorem fillThreadStack_holds (memory : ByteMemory) {kernelStack : Nat}
    (inside : kernelStack + sizeofThreadStack < 4294967296)
    (kernelFunc function funcArgc : BitVec 32) :
    Holds (fillThreadStack memory kernelStack kernelFunc.toNat function.toNat
        funcArgc.toNat) kernelStack
      [0, 0, 0, 0, kernelFunc, word memory (kernelStack + 20), function,
        funcArgc] ∧
      WrittenIn memory (fillThreadStack memory kernelStack kernelFunc.toNat
        function.toNat funcArgc.toNat) kernelStack
        (kernelStack + sizeofThreadStack) := by
  have fits := kernelFunc.isLt
  have fits' := function.isLt
  have fits'' := funcArgc.isLt
  unfold sizeofThreadStack at inside
  have stays : ∀ offset, offset ≤ 28 →
      u32 (kernelStack + offset) = kernelStack + offset := fun offset small =>
    u32_of_lt (by omega)
  simp only [fillThreadStack, stays 16 (by decide), stays 28 (by decide),
    stays 24 (by decide), stays 4 (by decide), stays 8 (by decide),
    stays 12 (by decide)]
  constructor
  · simp only [Holds, word, Nat.add_assoc, Nat.reduceAdd]
    simp (disch := omega) only [ByteMemory.loadWord_storeWord_of_disjoint,
      ByteMemory.loadWord_storeWord_self, BitVec.ofNat_toNat,
      BitVec.setWidth_eq, and_self]
    decide
  · intro address outside
    unfold sizeofThreadStack at outside
    simp (disch := omega) only [ByteMemory.byte_storeWord_of_outside]

theorem creatMemory_saved {layout : KernelStacks} (memory : ByteMemory)
    {thread : Nat} (member : thread ∈ layout.threads)
    (low : layout.bottom thread ≤ creatStack (memory.loadWord thread))
    (high : creatStack (memory.loadWord thread) + sizeofThreadStack ≤
      layout.top thread) (kernelFunc function funcArgc : BitVec 32) :
    FrameIntact layout kernelFunc
        (creatMemory memory thread kernelFunc.toNat function.toNat
          funcArgc.toNat) thread (.created function funcArgc) ∧
      ∀ address, ¬ layout.Own thread address →
        (creatMemory memory thread kernelFunc.toNat function.toNat
          funcArgc.toNat).byte address = memory.byte address := by
  have top := layout.top_lt thread member
  have outside := layout.pcbOutside thread member thread member
  unfold creatMemory
  generalize creatStack (memory.loadWord thread) = stack at low high
  have stackFits : stack < 4294967296 := by omega
  have asWord : (BitVec.ofNat 32 stack).toNat = stack := by
    rw [BitVec.toNat_ofNat]
    exact Nat.mod_eq_of_lt stackFits
  have fits : stack + sizeofThreadStack < 4294967296 := by omega
  obtain ⟨holds, written⟩ := fillThreadStack_holds
    (memory.storeWord thread stack) fits kernelFunc function funcArgc
  constructor
  · refine ⟨BitVec.ofNat 32 stack,
      word (memory.storeWord thread stack) (stack + 20), ?_, ?_, ?_, ?_⟩
    · have apart : AgreeOn _ _ thread (thread + 4) :=
        written.agreeOn (by omega)
      rw [word_congr apart (by omega), word,
        ByteMemory.loadWord_storeWord_self _ _ stackFits]
    · rw [asWord]
      exact low
    · rw [asWord]
      exact high
    · rw [asWord]
      exact holds
  · intro address notOwn
    simp only [KernelStacks.Own, not_or, not_and, not_lt] at notOwn
    unfold sizeofThreadStack at written high
    rw [written address (by omega),
      ByteMemory.byte_storeWord_of_outside _ _ (by omega)]

/-! ## Steps -/

section Steps

variable {layout : KernelStacks} {kernelFunc : BitVec 32} {s s' : SwitchUse}

theorem KernelStacks.own_apart {thread other address : Nat}
    (member : thread ∈ layout.threads) (otherMember : other ∈ layout.threads)
    (different : thread ≠ other) (own : layout.Own thread address) :
    ¬ layout.Own other address := by
  have regions := layout.apart thread member other otherMember different
  have pcbs := layout.pcbApart thread member other otherMember different
  have outside := layout.pcbOutside thread member other otherMember
  have outside' := layout.pcbOutside other otherMember thread member
  unfold KernelStacks.Own at own ⊢
  omega

private theorem SavedWords.congr {memory memory' : ByteMemory} {thread : Nat}
    {stack : BitVec 32} {words : List (BitVec 32)}
    (saved : SavedWords layout memory thread stack words)
    (agree : ∀ address, layout.Own thread address →
      memory'.byte address = memory.byte address) :
    SavedWords layout memory' thread stack words := by
  have low := saved.low
  have high := saved.high
  have pcb : AgreeOn memory memory' thread (thread + 4) :=
    fun address above below => agree address (Or.inr ⟨above, below⟩)
  have frame : AgreeOn memory memory' stack.toNat
      (stack.toNat + 4 * words.length) :=
    fun address above below =>
      agree address (Or.inl ⟨by omega, by omega⟩)
  constructor
  case pointer =>
    rw [word_congr pcb (by omega)]
    exact saved.pointer
  case low => exact low
  case high => exact high
  case holds => exact saved.holds.congr frame

private theorem FrameIntact.congr {memory memory' : ByteMemory} {thread : Nat}
    {suspended : Suspended}
    (intact : FrameIntact layout kernelFunc memory thread suspended)
    (agree : ∀ address, layout.Own thread address →
      memory'.byte address = memory.byte address) :
    FrameIntact layout kernelFunc memory' thread suspended := by
  cases suspended with
  | called cpu returnAddress =>
      exact ⟨intact.1.congr agree, intact.2⟩
  | created function funcArgc =>
      obtain ⟨stack, unusedRet, saved⟩ := intact
      exact ⟨stack, unusedRet, saved.congr agree⟩

namespace SwitchOk

theorem work (ok : SwitchOk layout kernelFunc s) {m : Machine}
    (kept : ∀ address, s.Foreign layout address →
      m.memory.byte address = s.machine.memory.byte address) :
    SwitchOk layout kernelFunc { s with machine := m } where
  member := ok.member
  running := ok.running
  suspended_mem := ok.suspended_mem
  intact := by
    intro thread suspended waits
    apply (ok.intact thread suspended waits).congr
    intro address own
    exact kept address ⟨thread, by rw [waits]; simp, own⟩

private theorem creat (ok : SwitchOk layout kernelFunc s) {thread : Nat}
    (member : thread ∈ layout.threads) (different : thread ≠ s.current)
    (low : layout.bottom thread ≤
      creatStack (s.machine.memory.loadWord thread))
    (high : creatStack (s.machine.memory.loadWord thread) +
      sizeofThreadStack ≤ layout.top thread)
    (function funcArgc : BitVec 32) :
    SwitchOk layout kernelFunc
      ⟨⟨s.machine.cpu, creatMemory s.machine.memory thread kernelFunc.toNat
          function.toNat funcArgc.toNat⟩, s.current,
        Function.update s.suspended thread
          (some (.created function funcArgc))⟩ := by
  obtain ⟨new, kept⟩ := creatMemory_saved s.machine.memory member low high
    kernelFunc function funcArgc
  constructor
  case member => exact ok.member
  case running => simpa [Ne.symm different] using ok.running
  case suspended_mem =>
    intro other waits
    by_cases same : other = thread
    · rw [same]
      exact member
    · simp only [Function.update_of_ne same] at waits
      exact ok.suspended_mem other waits
  case intact =>
    intro other suspended waits
    by_cases same : other = thread
    · simp only [same, Function.update_self, Option.some.injEq] at waits
      rw [same, ← waits]
      exact new
    · simp only [Function.update_of_ne same] at waits
      apply (ok.intact other suspended waits).congr
      intro address own
      have otherMember := ok.suspended_mem other (by rw [waits]; simp)
      exact kept address (layout.own_apart otherMember member same own)

/-- The frames of all threads that are switched out, once the running thread
has saved its own. -/
theorem saves (ok : SwitchOk layout kernelFunc s) {next : Nat}
    (calls : s.CallsSwitch layout next) :
    ∃ memory, (∀ thread suspended, s.suspend thread = some suspended →
        FrameIntact layout kernelFunc memory thread suspended) ∧
      (∀ address, address < s.machine.cpu.esp.toNat - 16 ∨
          s.machine.cpu.esp.toNat + 12 ≤ address →
        address < s.current ∨ s.current + 4 ≤ address →
        memory.byte address = s.machine.memory.byte address) ∧
      ∃ cpu : Cpu, runCode saveCode s.machine =
        ⟨cpu.withEsp (word memory next), memory⟩ := by
  have low := calls.low
  have high := calls.high
  have top := layout.top_lt _ ok.member
  have outside := layout.pcbOutside _ ok.member _ ok.member
  have current : (BitVec.ofNat 32 s.current).toNat = s.current := by
    rw [BitVec.toNat_ofNat]
    exact Nat.mod_eq_of_lt (layout.pcb_lt _ ok.member)
  have isNext : (BitVec.ofNat 32 next).toNat = next := by
    rw [BitVec.toNat_ofNat]
    exact Nat.mod_eq_of_lt (layout.pcb_lt _ calls.member)
  have view : View s.machine
      [s.machine.peek 0, BitVec.ofNat 32 s.current, BitVec.ofNat 32 next] := by
    have at_index : ∀ index, index < 3 → s.machine.peek index =
        word s.machine.memory (s.machine.cpu.esp.toNat + 4 * index) := by
      intro index small
      rw [Machine.peek, toNat_add_words (by omega)]
    rw [← calls.first, ← calls.second, at_index 0 (by decide),
      at_index 1 (by decide), at_index 2 (by decide)]
    refine ⟨⟨rfl, rfl, rfl, trivial⟩, ?_⟩
    simp only [List.length_cons, List.length_nil]
    omega
  obtain ⟨memory, frame, pointer, kept, cpu, run⟩ := saveCode_view view
    (by omega) (by omega)
  rw [current] at pointer kept
  rw [isNext] at run
  have stack : (s.machine.cpu.esp - 16).toNat =
      s.machine.cpu.esp.toNat - 16 := by
    bv_omega
  refine ⟨memory, ?_, kept, cpu, run⟩
  intro thread suspended waits
  by_cases same : thread = s.current
  · rw [same, SwitchUse.suspend, Function.update_self,
      Option.some.injEq] at waits
    rw [same, ← waits]
    refine ⟨⟨pointer, ?_, ?_, frame⟩, by omega⟩
    · omega
    · simp only [List.length_cons, List.length_nil]
      omega
  · rw [SwitchUse.suspend, Function.update_of_ne same] at waits
    have member := ok.suspended_mem thread (by rw [waits]; simp)
    apply (ok.intact thread suspended waits).congr
    intro address own
    have notOwn := layout.own_apart member ok.member same own
    simp only [KernelStacks.Own, not_or, not_and, not_lt] at notOwn
    exact kept address (by omega) (by omega)

end SwitchOk

private theorem restores {memory : ByteMemory} (cpu : Cpu) {thread : Nat}
    {stack ebp ebx edi esi eip : BitVec 32} {rest : List (BitVec 32)}
    (member : thread ∈ layout.threads)
    (saved : SavedWords layout memory thread stack
      (ebp :: ebx :: edi :: esi :: eip :: rest)) :
    ret (runCode restoreCode ⟨cpu.withEsp (word memory thread), memory⟩) =
        ⟨restored cpu stack ebp ebx edi esi eip, memory⟩ ∧
      View ⟨restored cpu stack ebp ebx edi esi eip, memory⟩ rest := by
  have top := layout.top_lt thread member
  have high := saved.high
  have view : View ⟨cpu.withEsp stack, memory⟩
      (ebp :: ebx :: edi :: esi :: eip :: rest) :=
    ⟨saved.holds, Nat.lt_of_le_of_lt high top⟩
  rw [saved.pointer]
  obtain ⟨follows, same⟩ := restoreCode_view view
  have whole : ret (runCode restoreCode ⟨cpu.withEsp stack, memory⟩) =
      ⟨restored cpu stack ebp ebx edi esi eip, memory⟩ := by
    have cpuEq := follows.cpu
    generalize ret (runCode restoreCode ⟨cpu.withEsp stack, memory⟩) = m
      at cpuEq same
    obtain ⟨after, afterMemory⟩ := m
    rw [show after = _ from cpuEq, show afterMemory = _ from same]
    rfl
  refine ⟨whole, ?_⟩
  have after := follows.view
  rwa [whole] at after

namespace SwitchOk

/-- `switch_to` writes the frame and `self_kernel_stack` of the thread that
gives up the processor. -/
theorem switchTo_kept (ok : SwitchOk layout kernelFunc s) {next : Nat}
    (calls : s.CallsSwitch layout next) {address : Nat}
    (outFrame : address < s.machine.cpu.esp.toNat - 16 ∨
      s.machine.cpu.esp.toNat + 12 ≤ address)
    (outWord : address < s.current ∨ s.current + 4 ≤ address) :
    (Simos.switchTo s.machine).memory.byte address =
      s.machine.memory.byte address := by
  obtain ⟨memory, -, kept, cpu, run⟩ := ok.saves calls
  rw [Simos.switchTo, ret_memory, runCode_memory restoreCode (by decide), run]
  exact kept address outFrame outWord

theorem switchTo (ok : SwitchOk layout kernelFunc s) {next : Nat}
    (calls : s.CallsSwitch layout next) :
    SwitchOk layout kernelFunc
        ⟨Simos.switchTo s.machine, next, Function.update s.suspend next none⟩ ∧
      ∀ suspended, s.suspend next = some suspended →
        SwitchedIn kernelFunc (Simos.switchTo s.machine) suspended := by
  obtain ⟨memory, intact, -, cpu, run⟩ := ok.saves calls
  obtain ⟨suspended, waits⟩ := Option.ne_none_iff_exists'.mp calls.waits
  have suspend_mem : ∀ thread, s.suspend thread ≠ none →
      thread ∈ layout.threads := by
    intro thread gone
    by_cases same : thread = s.current
    · rw [same]
      exact ok.member
    · rw [SwitchUse.suspend, Function.update_of_ne same] at gone
      exact ok.suspended_mem thread gone
  have inMemory : (Simos.switchTo s.machine).memory = memory ∧
      SwitchedIn kernelFunc (Simos.switchTo s.machine) suspended := by
    rw [Simos.switchTo, run]
    have frame := intact next suspended waits
    cases suspended with
    | called saved returnAddress =>
        obtain ⟨whole, -⟩ := restores cpu calls.member frame.1
        rw [whole]
        refine ⟨rfl, rfl, ?_, rfl, rfl, rfl, rfl⟩
        have esp : saved.esp - 16 + 20 = saved.esp + 4 := by
          bv_omega
        exact esp
    | created function funcArgc =>
        obtain ⟨stack, unusedRet, frame⟩ := frame
        obtain ⟨whole, view⟩ := restores cpu calls.member frame
        rw [whole]
        exact ⟨rfl, rfl, view.peek (show 1 < 3 by decide),
          view.peek (show 2 < 3 by decide), rfl, rfl, rfl, rfl⟩
  refine ⟨?_, ?_⟩
  · constructor
    case member => exact calls.member
    case running => exact Function.update_self next none s.suspend
    case suspended_mem =>
      intro thread gone
      by_cases same : thread = next
      · rw [same]
        exact calls.member
      · simp only [Function.update_of_ne same] at gone
        exact suspend_mem thread gone
    case intact =>
      intro thread other gone
      have different : thread ≠ next := by
        intro same
        simp [same] at gone
      simp only [Function.update_of_ne different] at gone
      rw [inMemory.1]
      exact intact thread other gone
  · intro other gone
    rw [waits, Option.some.injEq] at gone
    rw [← gone]
    exact inMemory.2

theorem step (ok : SwitchOk layout kernelFunc s) {event : SwitchEvent}
    (taken : SwitchStep layout kernelFunc s event s') :
    SwitchOk layout kernelFunc s' := by
  cases taken with
  | work kept => exact ok.work kept
  | creat member different fresh low high =>
      exact ok.creat member different low high _ _
  | switchTo calls => exact (ok.switchTo calls).1

end SwitchOk

/-- The first thread runs, and no other thread is created yet. -/
structure FirstThread (layout : KernelStacks) (s : SwitchUse) : Prop where
  member : s.current ∈ layout.threads
  alone : ∀ thread, s.suspended thread = none

theorem FirstThread.ok (first : FirstThread layout s) :
    SwitchOk layout kernelFunc s where
  member := first.member
  running := first.alone _
  suspended_mem := fun thread gone => absurd (first.alone thread) gone
  intact := by
    intro thread suspended gone
    rw [first.alone thread] at gone
    cases gone

end Steps

/-- In every run, of any number of threads whose stacks are private: when
`switch_to` switches to a thread, that thread goes on behind its own call of
`switch_to`, with the return address, the stack pointer and the callee-saved
registers of that call; a new thread starts in `kernel_func`, with its
function and the argument as the arguments, and zeros in those registers. -/
theorem switchTo_transparent {layout : KernelStacks} {kernelFunc : BitVec 32}
    {first s s' : SwitchUse} {trace : List (SwitchEvent × SwitchUse)}
    (start : FirstThread layout first)
    (run : Run (SwitchStep layout kernelFunc) first trace s) {next : Nat}
    (taken : SwitchStep layout kernelFunc s (.switchTo next) s') :
    s'.current = next ∧
      ∃ suspended, s.suspend next = some suspended ∧
        SwitchedIn kernelFunc s'.machine suspended := by
  have preserved : ∀ state event reached, SwitchOk layout kernelFunc state →
      SwitchStep layout kernelFunc state event reached →
      SwitchOk layout kernelFunc reached :=
    fun _ _ _ ok step => ok.step step
  have ok := run.invariant start.ok preserved
  cases taken with
  | switchTo calls =>
      obtain ⟨suspended, waits⟩ := Option.ne_none_iff_exists'.mp calls.waits
      exact ⟨rfl, suspended, waits, (ok.switchTo calls).2 suspended waits⟩

/-- Threads with a slot of 64 KB each: the PCB at its start, a stack of one
page above. -/
def slotStacks : KernelStacks where
  threads := {thread | thread % 65536 = 0 ∧ thread < 2147483648}
  bottom thread := thread + 4096
  top thread := thread + 8192
  top_lt := by
    rintro thread ⟨aligned, small⟩
    omega
  pcb_lt := by
    rintro thread ⟨aligned, small⟩
    omega
  apart := by
    rintro thread ⟨aligned, small⟩ other ⟨otherAligned, otherSmall⟩ different
    omega
  pcbApart := by
    rintro thread ⟨aligned, small⟩ other ⟨otherAligned, otherSmall⟩ different
    omega
  pcbOutside := by
    rintro thread ⟨aligned, small⟩ other ⟨otherAligned, otherSmall⟩
    omega

private def pushedArgs (s : SwitchUse) (next : Nat) : Machine where
  cpu := s.machine.cpu.withEsp (BitVec.ofNat 32 (s.current + 6144))
  memory :=
    (s.machine.memory.storeWord (s.current + 6144 + 4) s.current).storeWord
      (s.current + 6144 + 8) next

private theorem pushedArgs_calls {kernelFunc : BitVec 32} {s : SwitchUse}
    (ok : SwitchOk slotStacks kernelFunc s) {next : Nat}
    (member : next ∈ slotStacks.threads) (waits : s.suspended next ≠ none) :
    SwitchStep slotStacks kernelFunc s .work
        { s with machine := pushedArgs s next } ∧
      SwitchUse.CallsSwitch slotStacks { s with machine := pushedArgs s next }
        next := by
  obtain ⟨aligned, small⟩ := ok.member
  have esp : (BitVec.ofNat 32 (s.current + 6144)).toNat = s.current + 6144 := by
    rw [BitVec.toNat_ofNat]
    omega
  have peek_eq : ∀ index, index < 3 → (pushedArgs s next).peek index =
      word (pushedArgs s next).memory (s.current + 6144 + 4 * index) := by
    intro index few
    have address : ((pushedArgs s next).cpu.esp +
        BitVec.ofNat 32 (4 * index)).toNat = s.current + 6144 + 4 * index := by
      rw [pushedArgs, Cpu.withEsp_esp, toNat_add_words (by omega), esp]
    rw [Machine.peek, address]
  have notCurrent : next ≠ s.current := by
    intro same
    rw [same] at waits
    exact waits ok.running
  refine ⟨.work ?_, ?_⟩
  · rintro address ⟨thread, gone, own⟩
    have different : thread ≠ s.current := by
      intro same
      rw [same] at gone
      exact gone ok.running
    have notOwn := slotStacks.own_apart (ok.suspended_mem thread gone)
      ok.member different own
    simp only [KernelStacks.Own, slotStacks, not_or, not_and, not_lt] at notOwn
    simp (disch := omega) only [pushedArgs,
      ByteMemory.byte_storeWord_of_outside]
  · constructor
    case member => exact member
    case waits =>
      rw [SwitchUse.suspend, Function.update_of_ne notCurrent]
      exact waits
    case low =>
      simp only [pushedArgs, Cpu.withEsp_esp, esp, slotStacks]
      omega
    case high =>
      simp only [pushedArgs, Cpu.withEsp_esp, esp, slotStacks]
      omega
    case first =>
      rw [peek_eq 1 (by decide), pushedArgs, word,
        ByteMemory.loadWord_storeWord_of_disjoint _ _ (by omega),
        ByteMemory.loadWord_storeWord_self _ _ (by omega)]
    case second =>
      obtain ⟨nextAligned, nextSmall⟩ := member
      rw [peek_eq 2 (by decide), pushedArgs, word,
        ByteMemory.loadWord_storeWord_self _ _ (by omega)]

/-- Thread 0x10000 runs; the page of thread 0x20000 has its stack pointer. -/
def oneThread : SwitchUse where
  machine :=
    ⟨⟨0, 0, 0, 0, 0, 0, 0, 0, 0, 0, 0, 0, 0, 0, 0, 0⟩,
      (ByteMemory.mk fun _ => 0).storeWord 131072 139264⟩
  current := 65536
  suspended _ := none

/-- Thread 0x10000 creates thread 0x20000, which runs at once and gives the
processor back. -/
theorem switchTo_transparent_two :
    ∃ s₁ s₂ s₃ s₄ : SwitchUse,
      SwitchStep slotStacks 0xc0003000 s₁ (.switchTo 131072) s₂ ∧
      SwitchStep slotStacks 0xc0003000 s₃ (.switchTo 65536) s₄ ∧
      s₂.machine.cpu.eip = 0xc0003000 ∧ s₂.machine.peek 1 = 7 ∧
      s₂.machine.peek 2 = 8 ∧
      s₄.machine.cpu.esp = s₁.machine.cpu.esp + 4 ∧
      s₄.machine.cpu.ebp = s₁.machine.cpu.ebp := by
  have start : FirstThread slotStacks oneThread :=
    ⟨⟨by decide, by decide⟩, fun _ => rfl⟩
  have other : 131072 ∈ slotStacks.threads := ⟨by decide, by decide⟩
  have stack : creatStack (oneThread.machine.memory.loadWord 131072) =
      138832 := by
    decide +kernel
  have low : slotStacks.bottom 131072 ≤
      creatStack (oneThread.machine.memory.loadWord 131072) := by
    rw [stack]
    decide
  have high : creatStack (oneThread.machine.memory.loadWord 131072) +
      sizeofThreadStack ≤ slotStacks.top 131072 := by
    rw [stack]
    decide
  have created : SwitchStep slotStacks 0xc0003000 oneThread
      (.creat 131072 7 8) _ :=
    .creat other (by decide) rfl low high
  have created_ok := start.ok.step created
  obtain ⟨worked, calls⟩ := pushedArgs_calls created_ok other (by simp)
  have run := (Run.start.next created).next worked
  have switched : SwitchStep slotStacks 0xc0003000 _ (.switchTo 131072) _ :=
    .switchTo calls
  have switched_ok := (created_ok.step worked).step switched
  obtain ⟨worked', calls'⟩ := pushedArgs_calls switched_ok start.member
    (by simp [SwitchUse.suspend, oneThread])
  have back : SwitchStep slotStacks 0xc0003000 _ (.switchTo 65536) _ :=
    .switchTo calls'
  obtain ⟨-, suspended, waits, entered⟩ :=
    switchTo_transparent start run switched
  obtain ⟨-, suspended', waits', returned⟩ :=
    switchTo_transparent start ((run.next switched).next worked') back
  simp only [SwitchUse.suspend, oneThread, ne_eq, Nat.reduceEqDiff,
    not_false_eq_true, Function.update_of_ne, Function.update_self,
    Option.some.injEq] at waits waits'
  subst suspended suspended'
  exact ⟨_, _, _, _, switched, back, entered.1, entered.2.1,
    entered.2.2.1, returned.2.1, returned.2.2.1⟩

end Simos
