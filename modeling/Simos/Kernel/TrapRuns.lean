import Simos.Kernel.TrapFrames

/-!
# Runs with traps (`kernel/interrupt_s.S`, `thread/switch.S`)

Traps come on top of the runs with context switches.  A trap may come at any
moment, also in a C function that another trap has called, and between the
instructions of an exit; the entries run with interrupts off, and so does
`switch_to`.  A C function may change every register and every byte below its
return address, the bytes of its arguments, and every byte outside the stacks
of the threads that are switched out; it may call `switch_to`.

* `Trap` is a trap that has not returned, with the registers it came upon;
* `TrapsOk` is the invariant: the frames of all traps of all threads are
  intact;
* `trap_transparent` is the result.
-/

namespace Simos

open Simos.Library Ia32

/-- The addresses of the entries, and of each instruction behind the call of
the C function. -/
structure KernelText where
  entry : TrapKind → BitVec 32
  exitAt : TrapKind → Nat → BitVec 32

/-- How far a trap is: in its C function, or so many instructions behind the
call, which left `result` in `eax`. -/
inductive TrapStage where
  | handler
  | leaving (done : Nat) (result : BitVec 32)
  deriving DecidableEq

/-- A trap that has not returned: the registers at the trap and the stack
pointer at the first instruction of its C function. -/
structure Trap where
  kind : TrapKind
  context : Cpu
  esp : BitVec 32
  stage : TrapStage

def TrapKind.argc : TrapKind → Nat
  | .device _ => 1
  | .syscall => 3

/-- The threads with the traps of each, the innermost first, and the tables of
C functions. -/
structure TrapUse where
  base : SwitchUse
  traps : Nat → List Trap
  irqaction : Fin 16 → BitVec 32
  syscallTable : BitVec 32 → BitVec 32

/-- The running thread executes C code. -/
def InCode : List Trap → Prop
  | [] => True
  | trap :: _ => trap.stage = .handler

/-- The stack pointer is below the return address of the innermost C
function. -/
def Below (cpu : Cpu) : List Trap → Prop
  | [] => True
  | trap :: _ => trap.stage = .handler → cpu.esp.toNat ≤ trap.esp.toNat

/-- The bytes that the innermost C function has to leave alone: its return
address and what is above its arguments. -/
def Live (top : Nat) : List Trap → Nat → Prop
  | [], _ => False
  | trap :: _, address =>
      trap.esp.toNat ≤ address ∧ address < top ∧
        ¬ (trap.esp.toNat + 4 ≤ address ∧
          address < trap.esp.toNat + 4 + 4 * trap.kind.argc)

/-- The code segment and the stack segment are those of the kernel. -/
def KernelMode (cpu : Cpu) : Prop :=
  cpu.cs = selectorKCode ∧ cpu.ss = selectorKStack

namespace TrapUse

def current (s : TrapUse) : List Trap :=
  s.traps s.base.current

/-- The state with another machine and other traps of the running thread. -/
def goes (s : TrapUse) (m : Machine) (traps : List Trap) : TrapUse :=
  { s with
    base := { s.base with machine := m }
    traps := Function.update s.traps s.base.current traps }

def handler (s : TrapUse) : TrapKind → BitVec 32
  | .device line => s.irqaction line
  | .syscall => s.syscallTable s.base.machine.cpu.eax

def entered (text : KernelText) (s : TrapUse) (kind : TrapKind)
    (esp0 : BitVec 32) : TrapUse :=
  let m := trapEntry kind (trapGate (text.entry kind) esp0) (s.handler kind)
    (text.exitAt kind 0) s.base.machine
  s.goes m (⟨kind, s.base.machine.cpu, m.cpu.esp, .handler⟩ :: s.current)

/-- A trap can come: from kernel code on its stack, or from user code while
the thread has no other trap.  `int 0x80` is executed by C code. -/
structure Enters (layout : KernelStacks) (s : TrapUse) (kind : TrapKind)
    (gate : Gate) : Prop where
  below : Below s.base.machine.cpu s.current
  inKernel : rpl s.base.machine.cpu.cs = rpl selectorKCode →
    KernelMode s.base.machine.cpu
  inUser : rpl s.base.machine.cpu.cs ≠ rpl selectorKCode → s.current = []
  inCode : kind = .syscall → InCode s.current
  low : layout.bottom s.base.current + 96 ≤
    (gateStart gate s.base.machine.cpu).esp.toNat
  high : (gateStart gate s.base.machine.cpu).esp.toNat ≤
    layout.top s.base.current

end TrapUse

inductive TrapEvent where
  | work
  | creat (thread : Nat) (function funcArgc : BitVec 32)
  | switchTo (next : Nat)
  | trap (kind : TrapKind) (esp0 : BitVec 32)
  | handlerReturn
  | leave
  | iretd

inductive TrapStep (layout : KernelStacks) (text : KernelText)
    (kernelFunc : BitVec 32) : TrapUse → TrapEvent → TrapUse → Prop
  | work {s : TrapUse} {m : Machine} {irqaction : Fin 16 → BitVec 32}
      {syscallTable : BitVec 32 → BitVec 32} :
      InCode s.current →
      (∀ address, s.base.Foreign layout address →
        m.memory.byte address = s.base.machine.memory.byte address) →
      (∀ address, Live (layout.top s.base.current) s.current address →
        m.memory.byte address = s.base.machine.memory.byte address) →
      TrapStep layout text kernelFunc s .work
        ⟨{ s.base with machine := m }, s.traps, irqaction, syscallTable⟩
  | creat {s : TrapUse} {base : SwitchUse} {thread : Nat}
      {function funcArgc : BitVec 32} :
      InCode s.current →
      SwitchStep layout kernelFunc s.base (.creat thread function funcArgc)
        base →
      TrapStep layout text kernelFunc s (.creat thread function funcArgc)
        { s with base }
  | switchTo {s : TrapUse} {base : SwitchUse} {next : Nat} :
      InCode s.current →
      (∀ trap ∈ s.current.head?,
        s.base.machine.cpu.esp.toNat + 12 ≤ trap.esp.toNat) →
      SwitchStep layout kernelFunc s.base (.switchTo next) base →
      TrapStep layout text kernelFunc s (.switchTo next) { s with base }
  | trap {s : TrapUse} {kind : TrapKind} {esp0 : BitVec 32} :
      s.Enters layout kind (trapGate (text.entry kind) esp0) →
      TrapStep layout text kernelFunc s (.trap kind esp0)
        (s.entered text kind esp0)
  | handlerReturn {s : TrapUse} {trap : Trap} {outer : List Trap} :
      s.current = trap :: outer → trap.stage = .handler →
      s.base.machine.cpu.esp = trap.esp → KernelMode s.base.machine.cpu →
      TrapStep layout text kernelFunc s .handlerReturn
        (s.goes (ret s.base.machine)
          ({ trap with stage := .leaving 0 s.base.machine.cpu.eax } :: outer))
  | leave {s : TrapUse} {trap : Trap} {outer : List Trap} {done : Nat}
      {result : BitVec 32} {instr : Instr} :
      s.current = trap :: outer → trap.stage = .leaving done result →
      trap.kind.exitCode[done]? = some instr →
      TrapStep layout text kernelFunc s .leave
        (s.goes
          ⟨(instr.exec s.base.machine).cpu.withEip
              (text.exitAt trap.kind (done + 1)),
            (instr.exec s.base.machine).memory⟩
          ({ trap with stage := .leaving (done + 1) result } :: outer))
  | iretd {s : TrapUse} {trap : Trap} {outer : List Trap}
      {result : BitVec 32} :
      s.current = trap :: outer →
      trap.stage = .leaving trap.kind.exitCode.length result →
      TrapStep layout text kernelFunc s .iretd
        (s.goes (iret s.base.machine) outer)

/-! ## The invariant -/

private def Trap.limit (trap : Trap) : Nat :=
  trap.esp.toNat + 4 + 4 * trap.kind.argc +
    4 * (trap.kind.frame trap.context 0).length

/-- What a trap has on the stack, for the registers at this moment. -/
def FrameHeld (text : KernelText) (memory : ByteMemory) (trap : Trap)
    (cpu : Cpu) : Prop :=
  match trap.stage with
  | .handler => ∃ esp,
      word memory trap.esp.toNat = text.exitAt trap.kind 0 ∧
      Holds memory (trap.esp.toNat + 4 + 4 * trap.kind.argc)
        (trap.kind.frame trap.context esp)
  | .leaving done result => ∃ words,
      trap.esp.toNat ≤ cpu.esp.toNat ∧
      Holds memory cpu.esp.toNat words ∧
      cpu.esp.toNat + 4 * words.length ≤ trap.limit ∧
      finish (trap.kind.exitCode.drop done) cpu words =
        some (trap.kind.resumed trap.context result)

structure Placed (layout : KernelStacks) (thread : Nat) (trap : Trap)
    (outer : List Trap) : Prop where
  low : layout.bottom thread ≤ trap.esp.toNat
  high : trap.limit ≤ layout.top thread
  inKernel : rpl trap.context.cs = rpl selectorKCode →
    KernelMode trap.context ∧ trap.limit = trap.context.esp.toNat
  inUser : rpl trap.context.cs ≠ rpl selectorKCode → outer = []
  inCode : trap.kind = .syscall → InCode outer
  below : Below trap.context outer

private theorem Placed.setStage {layout : KernelStacks} {thread : Nat}
    {trap : Trap} {outer : List Trap} (placed : Placed layout thread trap outer)
    (stage : TrapStage) :
    Placed layout thread { trap with stage := stage } outer :=
  ⟨placed.low, placed.high, placed.inKernel, placed.inUser, placed.inCode,
    placed.below⟩

/-- The frames of the traps of a thread, when it has these registers. -/
def Pending (layout : KernelStacks) (text : KernelText) (memory : ByteMemory)
    (thread : Nat) : List Trap → Cpu → Prop
  | [], _ => True
  | trap :: outer, cpu =>
      FrameHeld text memory trap cpu ∧ Placed layout thread trap outer ∧
        Pending layout text memory thread outer trap.context

/-- The traps of a thread that is switched out. -/
def PendingOut (layout : KernelStacks) (text : KernelText)
    (memory : ByteMemory) (thread : Nat) (traps : List Trap) :
    Suspended → Prop
  | .called cpu _ =>
      InCode traps ∧ Below cpu traps ∧
        Pending layout text memory thread traps cpu ∧
        layout.bottom thread ≤ cpu.esp.toNat
  | .created _ _ => traps = []

structure TrapsOk (layout : KernelStacks) (text : KernelText)
    (kernelFunc : BitVec 32) (s : TrapUse) : Prop where
  switch : SwitchOk layout kernelFunc s.base
  running : Pending layout text s.base.machine.memory s.base.current s.current
    s.base.machine.cpu
  waiting : ∀ thread suspended, s.base.suspended thread = some suspended →
    PendingOut layout text s.base.machine.memory thread (s.traps thread)
      suspended
  fresh : ∀ thread, thread ≠ s.base.current → s.base.suspended thread = none →
    s.traps thread = []

section Frames

variable {layout : KernelStacks} {text : KernelText}
  {memory memory' : ByteMemory} {thread : Nat} {trap : Trap}
  {traps outer : List Trap} {cpu cpu' : Cpu}

theorem Pending.inCode (pending : Pending layout text memory thread traps cpu)
    (code : InCode traps) (cpu' : Cpu) :
    Pending layout text memory thread traps cpu' := by
  cases traps with
  | nil => trivial
  | cons trap outer =>
      obtain ⟨held, placed, rest⟩ := pending
      have stage : trap.stage = .handler := code
      refine ⟨?_, placed, rest⟩
      rw [FrameHeld, stage] at held ⊢
      exact held

private theorem FrameHeld.esp_le (held : FrameHeld text memory trap cpu)
    (below : Below cpu (trap :: outer)) : cpu.esp.toNat ≤ trap.limit := by
  cases stage : trap.stage with
  | handler =>
      have low := below stage
      unfold Trap.limit
      omega
  | leaving done result =>
      rw [FrameHeld, stage] at held
      obtain ⟨words, -, -, limit, -⟩ := held
      omega

private theorem TrapKind.length_frame (kind : TrapKind) (context : Cpu)
    (esp : BitVec 32) :
    (kind.frame context esp).length = (kind.frame context 0).length := by
  simp [TrapKind.frame, registerWords]

theorem Pending.congr (pending : Pending layout text memory thread traps cpu)
    (below : Below cpu traps)
    (agree : AgreeOn memory memory' cpu.esp.toNat (layout.top thread)) :
    Pending layout text memory' thread traps cpu := by
  induction traps generalizing cpu with
  | nil => trivial
  | cons trap outer inductionHypothesis =>
      obtain ⟨held, placed, rest⟩ := pending
      have low := held.esp_le below
      have high := placed.high
      refine ⟨?_, placed, ?_⟩
      · cases stage : trap.stage with
        | handler =>
            rw [FrameHeld, stage] at held ⊢
            obtain ⟨esp, back, holds⟩ := held
            have under := below stage
            have length := trap.kind.length_frame trap.context esp
            unfold Trap.limit at high
            refine ⟨esp, ?_, holds.congr (agree.mono ?_ ?_)⟩
            · rw [word_congr agree (by omega), back]
            · omega
            · omega
        | leaving done result =>
            rw [FrameHeld, stage] at held ⊢
            obtain ⟨words, above, holds, limit, finished⟩ := held
            exact ⟨words, above, holds.congr (agree.mono (by omega) (by omega)),
              limit, finished⟩
      · by_cases fromKernel : rpl trap.context.cs = rpl selectorKCode
        · rw [(placed.inKernel fromKernel).2] at low
          exact inductionHypothesis rest placed.below
            (agree.mono low (Nat.le_refl _))
        · rw [placed.inUser fromKernel]
          trivial

theorem Pending.work (pending : Pending layout text memory thread traps cpu)
    (code : InCode traps)
    (kept : ∀ address, Live (layout.top thread) traps address →
      memory'.byte address = memory.byte address) (cpu' : Cpu) :
    Pending layout text memory' thread traps cpu' := by
  cases traps with
  | nil => trivial
  | cons trap outer =>
      obtain ⟨held, placed, rest⟩ := pending
      have stage : trap.stage = .handler := code
      have high := placed.high
      rw [FrameHeld, stage] at held
      obtain ⟨esp, back, holds⟩ := held
      have length := trap.kind.length_frame trap.context esp
      have above : AgreeOn memory memory'
          (trap.esp.toNat + 4 + 4 * trap.kind.argc) (layout.top thread) :=
        fun address low under =>
          kept address ⟨by omega, under, by omega⟩
      have limit : trap.limit = trap.esp.toNat + 4 + 4 * trap.kind.argc +
          4 * (trap.kind.frame trap.context 0).length := rfl
      refine ⟨?_, placed, ?_⟩
      · rw [FrameHeld, stage]
        refine ⟨esp, ?_, holds.congr (above.mono (Nat.le_refl _) (by omega))⟩
        have atReturn : AgreeOn memory memory' trap.esp.toNat
            (trap.esp.toNat + 4) :=
          fun address low under => kept address ⟨low, by omega, by omega⟩
        rw [word_congr atReturn (by omega), back]
      · by_cases fromKernel : rpl trap.context.cs = rpl selectorKCode
        · apply rest.congr placed.below
          have same := (placed.inKernel fromKernel).2
          exact above.mono (by omega) (Nat.le_refl _)
        · rw [placed.inUser fromKernel]
          trivial

private theorem PendingOut.congr {suspended : Suspended}
    (pending : PendingOut layout text memory thread traps suspended)
    (agree : ∀ address, layout.Own thread address →
      memory'.byte address = memory.byte address) :
    PendingOut layout text memory' thread traps suspended := by
  cases suspended with
  | called cpu returnAddress =>
      obtain ⟨code, below, frames, low⟩ := pending
      refine ⟨code, below, frames.congr below ?_, low⟩
      intro address above under
      exact agree address (Or.inl ⟨by omega, under⟩)
  | created function funcArgc => exact pending

end Frames

/-! ## Exit code on the list of words -/

private theorem finish_withEip (code : List Instr) (cpu : Cpu)
    (words : List (BitVec 32)) (eip : BitVec 32) :
    finish code (cpu.withEip eip) words = finish code cpu words := by
  induction code generalizing cpu words with
  | nil => rfl
  | cons instr code inductionHypothesis =>
      simp only [finish, runOnStack, onStack_withEip, Option.bind_eq_bind,
        Option.bind_assoc, Option.bind_map, Function.comp_def]
      cases instr.onStack cpu words with
      | none => rfl
      | some next => exact inductionHypothesis next.1 next.2

private theorem TrapKind.exitCode_pushed (kind : TrapKind) :
    ∀ instr ∈ kind.exitCode, instr.pushed = 0 := by
  cases kind with
  | device line =>
      have pushes : ∀ instr ∈ Instr.jmp :: intrExit, instr.pushed = 0 := by
        decide
      exact pushes
  | syscall => decide

private theorem TrapKind.length_args (kind : TrapKind) (cpu : Cpu) :
    (kind.args cpu).length = kind.argc := by
  cases kind <;> rfl

/-! ## Steps -/

namespace TrapsOk

variable {layout : KernelStacks} {text : KernelText} {kernelFunc : BitVec 32}
  {s s' : TrapUse}

theorem goes (ok : TrapsOk layout text kernelFunc s) {m : Machine}
    {traps : List Trap}
    (written : WrittenIn s.base.machine.memory m.memory
      (layout.bottom s.base.current) (layout.top s.base.current))
    (pending : Pending layout text m.memory s.base.current traps m.cpu) :
    TrapsOk layout text kernelFunc (s.goes m traps) := by
  have kept : ∀ thread, s.base.suspended thread ≠ none →
      thread ≠ s.base.current ∧ ∀ address, layout.Own thread address →
        m.memory.byte address = s.base.machine.memory.byte address := by
    intro thread gone
    have different : thread ≠ s.base.current := by
      intro same
      rw [same] at gone
      exact gone ok.switch.running
    refine ⟨different, fun address own => written address ?_⟩
    have notOwn := layout.own_apart (ok.switch.suspended_mem thread gone)
      ok.switch.member different own
    simp only [KernelStacks.Own, not_or, not_and, not_lt] at notOwn
    omega
  constructor
  case switch =>
    apply ok.switch.work
    rintro address ⟨thread, gone, own⟩
    exact (kept thread gone).2 address own
  case running => simpa [TrapUse.goes, TrapUse.current] using pending
  case waiting =>
    intro thread suspended waits
    have waits : s.base.suspended thread = some suspended := waits
    have gone : s.base.suspended thread ≠ none := by
      rw [waits]
      simp
    have old := (ok.waiting thread suspended waits).congr (kept thread gone).2
    simpa [TrapUse.goes, (kept thread gone).1] using old
  case fresh =>
    intro thread different none
    have old := ok.fresh thread different none
    have different : thread ≠ s.base.current := different
    simpa [TrapUse.goes, different] using old

theorem innermost (ok : TrapsOk layout text kernelFunc s) {trap : Trap}
    {outer : List Trap} (traps : s.current = trap :: outer) :
    FrameHeld text s.base.machine.memory trap s.base.machine.cpu ∧
      Placed layout s.base.current trap outer ∧
      Pending layout text s.base.machine.memory s.base.current outer
        trap.context := by
  have running := ok.running
  rwa [traps] at running

private theorem top_lt (ok : TrapsOk layout text kernelFunc s) :
    layout.top s.base.current < 4294967296 :=
  layout.top_lt _ ok.switch.member

theorem handlerReturn (ok : TrapsOk layout text kernelFunc s) {trap : Trap}
    {outer : List Trap} (traps : s.current = trap :: outer)
    (stage : trap.stage = .handler)
    (esp : s.base.machine.cpu.esp = trap.esp)
    (inKernel : KernelMode s.base.machine.cpu) :
    TrapsOk layout text kernelFunc (s.goes (ret s.base.machine)
        ({ trap with stage := .leaving 0 s.base.machine.cpu.eax } :: outer)) ∧
      (ret s.base.machine).cpu.eip = text.exitAt trap.kind 0 := by
  obtain ⟨held, placed, rest⟩ := ok.innermost traps
  have top := ok.top_lt
  have high := placed.high
  rw [FrameHeld, stage] at held
  obtain ⟨saved, back, holds⟩ := held
  have length := trap.kind.length_frame trap.context saved
  have limit : trap.limit = trap.esp.toNat + 4 + 4 * trap.kind.argc +
      4 * (trap.kind.frame trap.context 0).length := rfl
  have argc := length_wordsAt s.base.machine.memory (trap.esp.toNat + 4)
    trap.kind.argc
  have args := holds_wordsAt s.base.machine.memory (trap.esp.toNat + 4)
    trap.kind.argc
  rw [← argc] at holds
  have whole := holds_append.mpr ⟨args, holds⟩
  have up : (trap.esp + 4).toNat = trap.esp.toNat + 4 :=
    toNat_add_four (by omega)
  have cpu_esp : (ret s.base.machine).cpu.esp = trap.esp + 4 := by
    rw [← esp]
    rfl
  refine ⟨ok.goes (fun _ _ => rfl) ⟨?_, placed.setStage _, rest⟩, ?_⟩
  · simp only [FrameHeld]
    refine ⟨_, ?_, by rw [cpu_esp, up]; exact whole, ?_, ?_⟩
    · rw [cpu_esp, up]
      omega
    · rw [cpu_esp, up, List.length_append, argc]
      simp only [Trap.limit]
      omega
    · apply trap.kind.exitCode_onStack trap.context _ saved
      · rw [argc, trap.kind.length_args]
      · exact inKernel.1
      · intro fromKernel
        obtain ⟨context, same⟩ := placed.inKernel fromKernel
        refine ⟨inKernel.2.trans context.2.symm, ?_⟩
        apply BitVec.eq_of_toNat_eq
        rw [cpu_esp, List.length_append, argc, length, toNat_add_words, up]
        · omega
        · omega
  · rw [← back, ← esp]
    exact peek_zero s.base.machine

private theorem leave (ok : TrapsOk layout text kernelFunc s) {trap : Trap}
    {outer : List Trap} {done : Nat} {result : BitVec 32} {instr : Instr}
    (traps : s.current = trap :: outer)
    (stage : trap.stage = .leaving done result)
    (fetched : trap.kind.exitCode[done]? = some instr) :
    TrapsOk layout text kernelFunc (s.goes
      ⟨(instr.exec s.base.machine).cpu.withEip
          (text.exitAt trap.kind (done + 1)),
        (instr.exec s.base.machine).memory⟩
      ({ trap with stage := .leaving (done + 1) result } :: outer)) := by
  obtain ⟨held, placed, rest⟩ := ok.innermost traps
  have top := ok.top_lt
  have low := placed.low
  have high := placed.high
  rw [FrameHeld, stage] at held
  obtain ⟨words, above, holds, limit, finished⟩ := held
  obtain ⟨inside, isInstr⟩ := List.getElem?_eq_some_iff.mp fetched
  rw [List.drop_eq_getElem_cons inside, isInstr] at finished
  have pushes : instr.pushed = 0 :=
    trap.kind.exitCode_pushed instr (List.mem_of_getElem? fetched)
  have split : finish (instr :: trap.kind.exitCode.drop (done + 1))
      s.base.machine.cpu words =
      (instr.onStack s.base.machine.cpu words).bind fun next =>
        finish (trap.kind.exitCode.drop (done + 1)) next.1 next.2 := by
    simp only [finish, runOnStack, Option.bind_eq_bind, Option.bind_assoc]
  rw [split] at finished
  obtain ⟨next, taken, finished⟩ := Option.bind_eq_some_iff.mp finished
  have view : View s.base.machine words := ⟨holds, by omega⟩
  have follows := onStack_view instr view (by omega) taken
  have up := follows.low
  have end_eq := follows.top
  have written := follows.written
  rw [pushes] at up written
  rw [← follows.cpu] at up end_eq finished
  have inRegion : WrittenIn s.base.machine.memory
      (Machine.mk ((instr.exec s.base.machine).cpu.withEip
        (text.exitAt trap.kind (done + 1)))
        (instr.exec s.base.machine).memory).memory
      (layout.bottom s.base.current) (layout.top s.base.current) :=
    written.mono (by omega) (by omega)
  refine ok.goes inRegion ⟨?_, placed.setStage _, ?_⟩
  · refine ⟨next.2, ?_, follows.view.holds, ?_, ?_⟩
    · simp only [Cpu.withEip]
      omega
    · simp only [Cpu.withEip, Trap.limit] at limit ⊢
      omega
    · rw [finish_withEip]
      exact finished
  · by_cases fromKernel : rpl trap.context.cs = rpl selectorKCode
    · have same := (placed.inKernel fromKernel).2
      exact rest.congr placed.below (written.agreeOn (Or.inr (by omega)))
    · rw [placed.inUser fromKernel]
      trivial

/-- The interrupted code goes on. -/
theorem iretd (ok : TrapsOk layout text kernelFunc s) {trap : Trap}
    {outer : List Trap} {result : BitVec 32}
    (traps : s.current = trap :: outer)
    (stage : trap.stage = .leaving trap.kind.exitCode.length result) :
    TrapsOk layout text kernelFunc (s.goes (iret s.base.machine) outer) ∧
      (iret s.base.machine).cpu = trap.kind.resumed trap.context result := by
  obtain ⟨held, placed, rest⟩ := ok.innermost traps
  have top := ok.top_lt
  have high := placed.high
  rw [FrameHeld, stage] at held
  obtain ⟨words, above, holds, limit, finished⟩ := held
  rw [List.drop_length] at finished
  have view : View s.base.machine words := ⟨holds, by omega⟩
  have back := iret_view view finished
  rw [back]
  refine ⟨ok.goes (fun _ _ => rfl) ?_, rfl⟩
  cases kind : trap.kind with
  | device line => exact rest
  | syscall => exact rest.inCode (placed.inCode kind) _

/-- A trap comes. -/
theorem trap (ok : TrapsOk layout text kernelFunc s) {kind : TrapKind}
    {esp0 : BitVec 32}
    (enters : s.Enters layout kind (trapGate (text.entry kind) esp0)) :
    TrapsOk layout text kernelFunc (s.entered text kind esp0) ∧
      (s.entered text kind esp0).base.machine.cpu.eip = s.handler kind ∧
      ∃ rest, View (s.entered text kind esp0).base.machine
        (text.exitAt kind 0 :: (kind.args s.base.machine.cpu ++ rest)) := by
  have top := ok.top_lt
  have low := enters.low
  have high := enters.high
  obtain ⟨esp, cpu, pushed, few, eip, follows⟩ := trapEntry_view kind
    (text.entry kind) esp0 (s.handler kind) (text.exitAt kind 0)
    (by omega : 96 ≤ (gateStart (trapGate (text.entry kind) esp0)
      s.base.machine.cpu).esp.toNat)
  have isEip : (s.entered text kind esp0).base.machine.cpu.eip =
      s.handler kind := by
    rw [← eip, ← follows.cpu]
    rfl
  refine ⟨?_, isEip, _, follows.view⟩
  have atTop := follows.top
  have atLow := follows.low
  have written := follows.written
  have holds := follows.view.holds
  rw [← follows.cpu] at atTop atLow
  unfold TrapUse.entered
  simp only at atTop atLow written holds ⊢
  generalize trapEntry kind (trapGate (text.entry kind) esp0) (s.handler kind)
    (text.exitAt kind 0) s.base.machine = m at atTop atLow written holds
  have length := kind.length_frame s.base.machine.cpu esp
  have argc := kind.length_args s.base.machine.cpu
  simp only [List.length_cons, List.length_append, List.length_nil, argc,
    length] at atTop written
  have limit : (Trap.mk kind s.base.machine.cpu m.cpu.esp .handler).limit =
      (gateStart (trapGate (text.entry kind) esp0)
        s.base.machine.cpu).esp.toNat := by
    simp only [Trap.limit]
    omega
  have sameStack : rpl s.base.machine.cpu.cs = rpl selectorKCode →
      gateStart (trapGate (text.entry kind) esp0) s.base.machine.cpu =
        s.base.machine.cpu :=
    fun fromKernel => if_pos fromKernel
  apply ok.goes (written.mono (by omega) (by omega))
  refine ⟨?_, ?_, ?_⟩
  · rw [Holds, holds_append, argc] at holds
    exact ⟨esp, holds.1, holds.2.2⟩
  · constructor
    case low =>
      simp only
      omega
    case high =>
      rw [limit]
      exact high
    case inKernel =>
      intro fromKernel
      refine ⟨enters.inKernel fromKernel, ?_⟩
      rw [limit, sameStack fromKernel]
    case inUser => exact enters.inUser
    case inCode => exact enters.inCode
    case below => exact enters.below
  · by_cases fromKernel : rpl s.base.machine.cpu.cs = rpl selectorKCode
    · rw [sameStack fromKernel] at written
      exact ok.running.congr enters.below (written.agreeOn (Or.inr (by omega)))
    · rw [enters.inUser fromKernel]
      trivial

private theorem work (ok : TrapsOk layout text kernelFunc s) {m : Machine}
    (code : InCode s.current)
    (foreign : ∀ address, s.base.Foreign layout address →
      m.memory.byte address = s.base.machine.memory.byte address)
    (live : ∀ address, Live (layout.top s.base.current) s.current address →
      m.memory.byte address = s.base.machine.memory.byte address)
    (irqaction : Fin 16 → BitVec 32)
    (syscallTable : BitVec 32 → BitVec 32) :
    TrapsOk layout text kernelFunc
      ⟨{ s.base with machine := m }, s.traps, irqaction, syscallTable⟩ where
  switch := ok.switch.work foreign
  running := ok.running.work code live m.cpu
  waiting := by
    intro thread suspended waits
    apply (ok.waiting thread suspended waits).congr
    intro address own
    have waits : s.base.suspended thread = some suspended := waits
    exact foreign address ⟨thread, fun none => by simp [waits] at none, own⟩
  fresh := ok.fresh

private theorem creat (ok : TrapsOk layout text kernelFunc s) {thread : Nat}
    {function funcArgc : BitVec 32} {base : SwitchUse}
    (code : InCode s.current)
    (taken : SwitchStep layout kernelFunc s.base
      (.creat thread function funcArgc) base) :
    TrapsOk layout text kernelFunc { s with base } := by
  have switch := ok.switch.step taken
  cases taken with
  | creat member different fresh low high =>
      obtain ⟨-, kept⟩ := creatMemory_saved s.base.machine.memory member low
        high kernelFunc function funcArgc
      constructor
      case switch => exact switch
      case running =>
        apply ok.running.work code
        intro address live
        apply kept address
        cases traps : s.current with
        | nil =>
            rw [traps] at live
            exact live.elim
        | cons trap outer =>
            rw [traps] at live
            obtain ⟨-, placed, -⟩ := ok.innermost traps
            have inside : layout.Own s.base.current address :=
              Or.inl ⟨placed.low.trans live.1, live.2.1⟩
            exact layout.own_apart ok.switch.member member different.symm
              inside
      case waiting =>
        intro other suspended waits
        by_cases same : other = thread
        · simp only [same, Function.update_self, Option.some.injEq] at waits
          rw [same, ← waits]
          exact ok.fresh thread different fresh
        · simp only [Function.update_of_ne same] at waits
          apply (ok.waiting other suspended waits).congr
          intro address own
          have otherMember := ok.switch.suspended_mem other
            (fun none => by simp [waits] at none)
          exact kept address (layout.own_apart otherMember member same own)
      case fresh =>
        intro other apart none
        by_cases same : other = thread
        · simp [same] at none
        · simp only [Function.update_of_ne same] at none
          exact ok.fresh other apart none

/-- The frames of all threads that are switched out, once the running thread
is one of them. -/
theorem suspends (ok : TrapsOk layout text kernelFunc s) {next : Nat}
    (code : InCode s.current)
    (room : ∀ trap ∈ s.current.head?,
      s.base.machine.cpu.esp.toNat + 12 ≤ trap.esp.toNat)
    (calls : s.base.CallsSwitch layout next) (thread : Nat)
    (suspended : Suspended)
    (waits : s.base.suspend thread = some suspended) :
    PendingOut layout text (switchTo s.base.machine).memory thread
      (s.traps thread) suspended := by
  have low := calls.low
  by_cases same : thread = s.base.current
  · rw [same, SwitchUse.suspend, Function.update_self,
      Option.some.injEq] at waits
    rw [same, ← waits]
    refine ⟨code, ?_, ?_, by omega⟩
    · change Below s.base.machine.cpu s.current
      cases traps : s.current with
      | nil => trivial
      | cons trap outer =>
          intro _
          have above := room trap (by simp [traps])
          omega
    · apply ok.running.work code
      intro address live
      change Live _ s.current address at live
      cases traps : s.current with
      | nil =>
          rw [traps] at live
          exact live.elim
      | cons trap outer =>
          rw [traps] at live
          have above := room trap (by simp [traps])
          have atLeast := live.1
          have outside := layout.pcbOutside _ ok.switch.member _
            ok.switch.member
          have under := live.2.1
          exact ok.switch.switchTo_kept calls (by omega) (by omega)
  · rw [SwitchUse.suspend, Function.update_of_ne same] at waits
    apply (ok.waiting thread suspended waits).congr
    intro address own
    have member := ok.switch.suspended_mem thread
      (fun none => by simp [waits] at none)
    have notOwn := layout.own_apart member ok.switch.member same own
    have high := calls.high
    simp only [KernelStacks.Own, not_or, not_and, not_lt] at notOwn
    exact ok.switch.switchTo_kept calls (by omega) (by omega)

private theorem switchTo (ok : TrapsOk layout text kernelFunc s) {next : Nat}
    {base : SwitchUse} (code : InCode s.current)
    (room : ∀ trap ∈ s.current.head?,
      s.base.machine.cpu.esp.toNat + 12 ≤ trap.esp.toNat)
    (taken : SwitchStep layout kernelFunc s.base (.switchTo next) base) :
    TrapsOk layout text kernelFunc { s with base } := by
  have switch := ok.switch.step taken
  cases taken with
  | switchTo calls =>
      have out := ok.suspends code room calls
      constructor
      case switch => exact switch
      case running =>
        obtain ⟨suspended, waits⟩ := Option.ne_none_iff_exists'.mp calls.waits
        have frames := out next suspended waits
        cases suspended with
        | called cpu returnAddress =>
            obtain ⟨nextCode, -, pending, -⟩ := frames
            exact pending.inCode nextCode _
        | created function funcArgc =>
            have none : s.traps next = [] := frames
            simp [TrapUse.current, none, Pending]
      case waiting =>
        intro thread suspended waits
        have different : thread ≠ next := by
          intro same
          simp [same] at waits
        simp only [Function.update_of_ne different] at waits
        exact out thread suspended waits
      case fresh =>
        intro thread different none
        simp only [Function.update_of_ne different] at none
        by_cases same : thread = s.base.current
        · simp [same, SwitchUse.suspend] at none
        · rw [SwitchUse.suspend, Function.update_of_ne same] at none
          exact ok.fresh thread same none

private theorem step (ok : TrapsOk layout text kernelFunc s) {event : TrapEvent}
    (taken : TrapStep layout text kernelFunc s event s') :
    TrapsOk layout text kernelFunc s' := by
  cases taken with
  | work code foreign live => exact ok.work code foreign live _ _
  | creat code taken => exact ok.creat code taken
  | switchTo code room taken => exact ok.switchTo code room taken
  | trap enters => exact (ok.trap enters).1
  | handlerReturn traps stage esp inKernel =>
      exact (ok.handlerReturn traps stage esp inKernel).1
  | leave traps stage fetched => exact ok.leave traps stage fetched
  | iretd traps stage => exact (ok.iretd traps stage).1

end TrapsOk

/-! ## From a trap to its `iretd` -/

/-- The first thread runs, and there is no trap. -/
structure BeforeTraps (layout : KernelStacks) (s : TrapUse) : Prop where
  first : FirstThread layout s.base
  alone : ∀ thread, s.traps thread = []

/-- In these steps, a C function that this many traps of the thread had led to
returned a value. -/
def Returned (thread depth : Nat) (result : BitVec 32)
    (trace : List (TrapEvent × TrapUse)) : Prop :=
  ∃ s, (TrapEvent.handlerReturn, s) ∈ trace ∧ s.base.current = thread ∧
    (s.traps thread).length = depth ∧ s.base.machine.cpu.eax = result

/-- A trap of the thread is still there, below others that came later. -/
def Remains (thread : Nat) (trap : Trap) (outer : List Trap)
    (trace : List (TrapEvent × TrapUse)) (s : TrapUse) : Prop :=
  ∃ inner stage, s.traps thread = inner ++ { trap with stage } :: outer ∧
    ∀ done result, stage = .leaving done result →
      Returned thread (outer.length + 1) result trace

section Returns

variable {layout : KernelStacks} {text : KernelText} {kernelFunc : BitVec 32}
  {first s s' : TrapUse} {trace : List (TrapEvent × TrapUse)} {thread : Nat}

private theorem BeforeTraps.ok (start : BeforeTraps layout s) :
    TrapsOk layout text kernelFunc s where
  switch := start.first.ok
  running := by
    have none : s.current = [] := start.alone _
    rw [none]
    trivial
  waiting := by
    intro thread suspended waits
    rw [start.first.alone thread] at waits
    cases waits
  fresh := fun thread _ _ => start.alone thread

private theorem TrapsOk.of_run (start : BeforeTraps layout first)
    (run : Run (TrapStep layout text kernelFunc) first trace s) :
    TrapsOk layout text kernelFunc s :=
  run.invariant start.ok fun _ _ _ ok step => ok.step step

private theorem Returned.later {depth : Nat} {result : BitVec 32}
    (returned : Returned thread depth result trace)
    (later : List (TrapEvent × TrapUse)) :
    Returned thread depth result (trace ++ later) := by
  obtain ⟨s, member, rest⟩ := returned
  exact ⟨s, List.mem_append_left later member, rest⟩

private theorem TrapStep.traps_other {event : TrapEvent}
    (taken : TrapStep layout text kernelFunc s event s')
    (different : thread ≠ s.base.current) :
    s'.traps thread = s.traps thread := by
  cases taken with
  | work | creat | switchTo => rfl
  | trap | handlerReturn | leave | iretd =>
      exact Function.update_of_ne different _ _

/-- A trap remains until a step leaves fewer traps than it came upon. -/
theorem Remains.step {trap : Trap} {outer : List Trap} {event : TrapEvent}
    (remains : Remains thread trap outer trace s)
    (taken : TrapStep layout text kernelFunc s event s')
    (deeper : outer.length < (s'.traps thread).length) :
    Remains thread trap outer (trace ++ [(event, s')]) s' := by
  obtain ⟨inner, stage, traps, returned⟩ := remains
  by_cases same : thread = s.base.current
  · subst same
    have after : ∀ m list,
        (s.goes m list).traps s.base.current = list := fun _ _ =>
      Function.update_self ..
    change s.current = _ at traps
    cases taken with
    | work | creat | switchTo =>
        exact ⟨inner, stage, traps, fun done result left =>
          (returned done result left).later _⟩
    | @trap kind esp0 enters =>
        obtain ⟨new, pushed⟩ : ∃ new,
            (s.entered text kind esp0).traps s.base.current =
              new :: s.current := ⟨_, after _ _⟩
        rw [traps] at pushed
        exact ⟨new :: inner, stage, pushed, fun done result left =>
          (returned done result left).later _⟩
    | @handlerReturn top below handles isHandler esp inKernel =>
        cases inner with
        | nil =>
            obtain ⟨rfl, rfl⟩ := List.cons.inj (handles.symm.trans traps)
            refine ⟨[], .leaving 0 s.base.machine.cpu.eax, after _ _, ?_⟩
            intro done result left
            obtain ⟨-, rfl⟩ := TrapStage.leaving.inj left
            refine ⟨_, List.mem_append_right _ (List.mem_singleton_self _),
              rfl, ?_, rfl⟩
            rw [after]
            rfl
        | cons innermost inner =>
            obtain ⟨rfl, rfl⟩ := List.cons.inj (handles.symm.trans traps)
            exact ⟨_ :: inner, stage, after _ _, fun done result left =>
              (returned done result left).later _⟩
    | @leave top below done result instr handles leaving fetched =>
        cases inner with
        | nil =>
            obtain ⟨rfl, rfl⟩ := List.cons.inj (handles.symm.trans traps)
            refine ⟨[], .leaving (done + 1) result, after _ _, ?_⟩
            intro done' result' left
            obtain ⟨-, rfl⟩ := TrapStage.leaving.inj left
            exact (returned done result leaving).later _
        | cons innermost inner =>
            obtain ⟨rfl, rfl⟩ := List.cons.inj (handles.symm.trans traps)
            exact ⟨_ :: inner, stage, after _ _, fun done result left =>
              (returned done result left).later _⟩
    | @iretd top below result handles leaving =>
        cases inner with
        | nil =>
            obtain ⟨rfl, rfl⟩ := List.cons.inj (handles.symm.trans traps)
            rw [after] at deeper
            exact absurd deeper (Nat.lt_irrefl _)
        | cons innermost inner =>
            obtain ⟨rfl, rfl⟩ := List.cons.inj (handles.symm.trans traps)
            exact ⟨inner, stage, after _ _, fun done result left =>
              (returned done result left).later _⟩
  · rw [Remains, taken.traps_other same]
    exact ⟨inner, stage, traps, fun done result left =>
      (returned done result left).later _⟩

/-- A trap remains while the thread has at least as many traps. -/
theorem Remains.run {trap : Trap} {outer : List Trap}
    (remains : Remains thread trap outer [] first)
    (run : Run (TrapStep layout text kernelFunc) first trace s)
    (deeper : ∀ event reached, (event, reached) ∈ trace →
      outer.length < (reached.traps thread).length) :
    Remains thread trap outer trace s := by
  induction run with
  | start => exact remains
  | next before taken inductionHypothesis =>
      have sofar := inductionHypothesis fun event reached member =>
        deeper event reached (List.mem_append_left _ member)
      exact sofar.step taken
        (deeper _ _ (List.mem_append_right _ (List.mem_singleton_self _)))

private theorem exit_run (ok : TrapsOk layout text kernelFunc s) {trap : Trap}
    {outer : List Trap} {done : Nat} {result : BitVec 32}
    (traps : s.current = trap :: outer)
    (stage : trap.stage = .leaving done result)
    (inside : done ≤ trap.kind.exitCode.length) :
    ∃ back s', Run (TrapStep layout text kernelFunc) s back s' ∧
      (∀ event reached, (event, reached) ∈ back →
        event = .leave ∨ event = .iretd) ∧
      s'.base.current = s.base.current ∧ s'.current = outer ∧
      s'.base.machine.cpu = trap.kind.resumed trap.context result := by
  induction left : trap.kind.exitCode.length - done generalizing s trap done
  case zero =>
    have atEnd : done = trap.kind.exitCode.length := by omega
    rw [atEnd] at stage
    obtain ⟨-, resumed⟩ := ok.iretd traps stage
    refine ⟨_, _, Run.start.next (.iretd traps stage), by simp, rfl, ?_,
      resumed⟩
    exact Function.update_self ..
  case succ rest inductionHypothesis =>
    have more : done < trap.kind.exitCode.length := by omega
    have fetched := List.getElem?_eq_getElem more
    obtain ⟨s₁, one, next, same₁⟩ : ∃ s₁,
        TrapStep layout text kernelFunc s .leave s₁ ∧
          s₁.current =
            { trap with stage := .leaving (done + 1) result } :: outer ∧
          s₁.base.current = s.base.current :=
      ⟨_, .leave traps stage fetched, Function.update_self .., rfl⟩
    have fewer : trap.kind.exitCode.length - (done + 1) = rest := by omega
    obtain ⟨back, s', run, events, same, current, resumed⟩ :=
      inductionHypothesis (ok.step one) next rfl more fewer
    refine ⟨_, s', (Run.start.next one).append run, ?_, same.trans same₁,
      current, resumed⟩
    intro event reached member
    rcases List.mem_append.mp member with early | late
    · simp only [List.nil_append, List.mem_singleton, Prod.mk.injEq] at early
      exact Or.inl early.1
    · exact events event reached late

end Returns

/-- In every run, with traps inside traps and context switches between them:
a trap calls its C function with its arguments; when that function returns,
the exit code leads back to where the trap came, with all registers as they
were, but for the value of a system call in `eax`; and the `iretd` that ends
the trap does so, whatever came between. -/
theorem trap_transparent {layout : KernelStacks} {text : KernelText}
    {kernelFunc : BitVec 32} {first s s₁ s₂ : TrapUse}
    {earlier trace : List (TrapEvent × TrapUse)}
    {kind : TrapKind} {esp0 : BitVec 32}
    (start : BeforeTraps layout first)
    (before : Run (TrapStep layout text kernelFunc) first earlier s)
    (taken : TrapStep layout text kernelFunc s (.trap kind esp0) s₁)
    (run : Run (TrapStep layout text kernelFunc) s₁ trace s₂)
    (inside : ∀ event reached, (event, reached) ∈ trace →
      s.current.length < (reached.traps s.base.current).length)
    (same : s₂.base.current = s.base.current)
    (innermost : s₂.current.length = s.current.length + 1) :
    (s₁.base.machine.cpu.eip = s.handler kind ∧
      ∃ rest, View s₁.base.machine
        (text.exitAt kind 0 :: (kind.args s.base.machine.cpu ++ rest))) ∧
    (∀ s₃, TrapStep layout text kernelFunc s₂ .handlerReturn s₃ →
      s₃.base.machine.cpu.eip = text.exitAt kind 0 ∧
        ∃ back s₄, Run (TrapStep layout text kernelFunc) s₃ back s₄ ∧
          (∀ event reached, (event, reached) ∈ back →
            event = .leave ∨ event = .iretd) ∧
          s₄.base.current = s.base.current ∧ s₄.current = s.current ∧
          s₄.base.machine.cpu = kind.resumed s.base.machine.cpu
            s₂.base.machine.cpu.eax) ∧
    ∀ s₃, TrapStep layout text kernelFunc s₂ .iretd s₃ →
      s₃.base.current = s.base.current ∧ s₃.current = s.current ∧
        ∃ result, Returned s.base.current (s.current.length + 1) result trace ∧
          s₃.base.machine.cpu = kind.resumed s.base.machine.cpu result := by
  have ok := TrapsOk.of_run start before
  have ok₁ := ok.step taken
  have ok₂ : TrapsOk layout text kernelFunc s₂ :=
    run.invariant ok₁ fun _ _ _ held step => held.step step
  cases taken with
  | trap enters =>
      obtain ⟨-, entered⟩ := ok.trap enters
      have remains : Remains s.base.current
          ⟨kind, s.base.machine.cpu,
            (s.entered text kind esp0).base.machine.cpu.esp, .handler⟩
          s.current [] (s.entered text kind esp0) :=
        ⟨[], .handler, Function.update_self .., fun _ _ left => by cases left⟩
      obtain ⟨inner, stage, traps, returned⟩ := remains.run run inside
      rw [← same] at traps
      have noInner : inner = [] := by
        change s₂.current = _ at traps
        rw [traps] at innermost
        simpa using innermost
      subst noInner
      change s₂.current = _ at traps
      refine ⟨entered, ?_, ?_⟩
      · intro s₃ step
        have ok₃ := ok₂.step step
        cases step with
        | @handlerReturn top below handles isHandler esp inKernel =>
            obtain ⟨rfl, rfl⟩ := List.cons.inj (handles.symm.trans traps)
            obtain ⟨-, eip⟩ := ok₂.handlerReturn handles isHandler esp inKernel
            obtain ⟨back, s₄, exits, events, thread, current, resumed⟩ :=
              exit_run ok₃ (Function.update_self ..) rfl (Nat.zero_le _)
            exact ⟨eip, back, s₄, exits, events, thread.trans same, current,
              resumed⟩
      · intro s₃ step
        cases step with
        | @iretd top below result handles leaving =>
            obtain ⟨rfl, rfl⟩ := List.cons.inj (handles.symm.trans traps)
            obtain ⟨-, resumed⟩ := ok₂.iretd handles leaving
            exact ⟨same, Function.update_self .., result,
              returned _ _ leaving, resumed⟩

/-- One thread in kernel code, before `int 0x80` with call number 5. -/
def oneCall : TrapUse where
  base :=
    { oneThread with
      machine :=
        ⟨⟨5, 2, 3, 1, 71680, 0, 0, 0, 0xc0002000, 0x202, 16, 16, 16, 24, 16, 8⟩,
          oneThread.machine.memory⟩ }
  traps _ := []
  irqaction _ := 0
  syscallTable number := 0xc0004000 + 16 * number

def oneText : KernelText where
  entry _ := 0xc0001000
  exitAt _ done := 0xc0001100 + BitVec.ofNat 32 done

private def TrapUse.setEax (s : TrapUse) (eax : BitVec 32) : TrapUse where
  base :=
    { s.base with
      machine := ⟨{ s.base.machine.cpu with eax }, s.base.machine.memory⟩ }
  traps := s.traps
  irqaction := s.irqaction
  syscallTable := s.syscallTable

/-- The function of the call returns 7. -/
theorem trap_transparent_syscall :
    ∃ s₁ s₂ s₃ s₄ back,
      TrapStep slotStacks oneText 0xc0003000 oneCall (.trap .syscall 0) s₁ ∧
      TrapStep slotStacks oneText 0xc0003000 s₁ .work s₂ ∧
      TrapStep slotStacks oneText 0xc0003000 s₂ .handlerReturn s₃ ∧
      Run (TrapStep slotStacks oneText 0xc0003000) s₃ back s₄ ∧
      s₁.base.machine.cpu.eip = 0xc0004050 ∧
      s₄.base.machine.cpu =
        ⟨7, 2, 3, 1, 71680, 0, 0, 0, 0xc0002000, 0x202, 16, 16, 16, 24, 16,
          8⟩ := by
  have start : BeforeTraps slotStacks oneCall :=
    ⟨⟨⟨by decide, by decide⟩, fun _ => rfl⟩, fun _ => rfl⟩
  have enters : oneCall.Enters slotStacks .syscall
      (trapGate (oneText.entry .syscall) 0) :=
    ⟨trivial, fun _ => ⟨rfl, rfl⟩, fun _ => rfl, fun _ => trivial, by decide,
      by decide⟩
  obtain ⟨s₁, taken, traps, base, inKernel⟩ : ∃ s₁,
      TrapStep slotStacks oneText 0xc0003000 oneCall (.trap .syscall 0) s₁ ∧
        s₁.current = [⟨.syscall, oneCall.base.machine.cpu,
          s₁.base.machine.cpu.esp, .handler⟩] ∧
        s₁.base.current = 65536 ∧ KernelMode s₁.base.machine.cpu :=
    ⟨_, .trap enters, rfl, rfl, rfl, rfl⟩
  have code : InCode s₁.current := by
    rw [traps]
    rfl
  have worked : TrapStep slotStacks oneText 0xc0003000 s₁ .work
      (s₁.setEax 7) :=
    .work code (fun _ _ => rfl) fun _ _ => rfl
  obtain ⟨s₃, returns⟩ : ∃ s₃, TrapStep slotStacks oneText 0xc0003000
      (s₁.setEax 7) .handlerReturn s₃ :=
    ⟨_, .handlerReturn traps rfl rfl inKernel⟩
  have inside : ∀ event reached,
      (event, reached) ∈ [] ++ [(TrapEvent.work, s₁.setEax 7)] →
      oneCall.current.length <
        (reached.traps oneCall.base.current).length := by
    intro event reached member
    obtain ⟨-, rfl⟩ := Prod.mk.inj (List.mem_singleton.mp member)
    have same : (s₁.setEax 7).traps oneCall.base.current = s₁.current := by
      rw [TrapUse.current, base]
      rfl
    rw [same, traps]
    exact Nat.zero_lt_one
  have whole := trap_transparent start .start taken
    (Run.start.next worked) inside base (congrArg List.length traps)
  obtain ⟨⟨eip, -⟩, returned, -⟩ := whole
  obtain ⟨-, back, s₄, exits, -, -, -, resumed⟩ := returned s₃ returns
  exact ⟨s₁, _, s₃, s₄, back, taken, worked, returns, exits, eip, resumed⟩

end Simos
