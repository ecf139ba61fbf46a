import Simos.Kernel.InterruptTables

/-!
# Interrupts of the devices (`kernel/interrupt.c`, `kernel/interrupt_s.S`)

The devices raise their lines at any time, also between two instructions of an
entry.  An entry runs with interrupts off: it writes the ends of interrupt and
calls the handler of its vector from `irqaction_t`.

* `portWrites_entryCode` takes the ends of interrupt from the code of the
  entries;
* `InterruptsKept` is the invariant: with the writes that the entry still has
  to do, both controllers have nothing in service;
* `interrupts_prioritized` says which interrupt comes next, what it calls, and
  how long the others wait.
-/

namespace Simos

open Simos.Library Ia32

/-- The bytes that straight-line code writes to ports. -/
def portWrites : List Instr → Cpu → List (BitVec 32) →
    List (BitVec 8 × BitVec 8)
  | [], _, _ => []
  | instr :: code, cpu, words =>
      let now := match instr with
        | .out port => [(port, cpu.eax.setWidth 8)]
        | _ => []
      match instr.onStack cpu words with
      | some next => now ++ portWrites code next.1 next.2
      | none => now

def kernelWiring : PicWiring where
  masterBase := 0x20
  slaveBase := 0x28
  masterMask := 0xf8
  slaveMask := 0xbf
  link := 2

def kernelLines : List PicLine :=
  [.master 0, .master 1, .slave 6]

/-- The kernel and its controllers; `entry` is the vector of an entry that
runs, with the writes that it still has to do. -/
structure InterruptState where
  use : InterruptUse
  entry : Option (BitVec 8 × List (BitVec 8 × BitVec 8))

inductive InterruptEvent where
  | request (line : PicLine)
  | acknowledge (vector : BitVec 8)
  | out
  | call (vector : BitVec 8) (handler : BitVec 32)
  | register (vectorNo : BitVec 8) (handler : BitVec 32)

def InterruptState.withPic (s : InterruptState) (pic : PicPair)
    (entry : Option (BitVec 8 × List (BitVec 8 × BitVec 8))) :
    InterruptState where
  use := { s.use with pic }
  entry := entry

/-- One step; the registers and the stack that an entry finds are arbitrary. -/
inductive InterruptStep :
    InterruptState → InterruptEvent → InterruptState → Prop
  | request {s : InterruptState} (line : PicLine) :
      InterruptStep s (.request line)
        (s.withPic (s.use.pic.request line) s.entry)
  | acknowledge {s : InterruptState} {vector : BitVec 8} {pic : PicPair}
      {line : Fin 16} (context : Cpu) (words : List (BitVec 32)) :
      s.entry = none → s.use.pic.acknowledge = some (vector, pic) →
      vectorOf line = vector.setWidth 32 →
      InterruptStep s (.acknowledge vector)
        (s.withPic pic (some (vector,
          portWrites (TrapKind.device line).entryCode context words)))
  | out {s : InterruptState} {vector : BitVec 8}
      {write : BitVec 8 × BitVec 8} {writes : List (BitVec 8 × BitVec 8)} :
      s.entry = some (vector, write :: writes) →
      InterruptStep s .out
        (s.withPic (s.use.pic.out write.1 write.2) (some (vector, writes)))
  | call {s : InterruptState} {vector : BitVec 8} :
      s.entry = some (vector, []) →
      InterruptStep s (.call vector (s.use.irqaction vector.toNat))
        (s.withPic s.use.pic none)
  | register {s : InterruptState} {vectorNo : BitVec 8}
      {handler : BitVec 32} {use : InterruptUse} :
      s.entry = none → vectorNo.toNat < idtDescCnt →
      registerIrqHandler vectorNo handler s.use = .ok use →
      InterruptStep s (.register vectorNo handler) ⟨use, none⟩

def afterInit (text : InterruptText) (s : InterruptUse) : InterruptState where
  use := interruptInit text s
  entry := none

def lastHandler (first : BitVec 32) (vector : BitVec 8) :
    List InterruptEvent → BitVec 32 :=
  List.foldl (fun handler event =>
    match event with
    | .register vectorNo registered =>
        if vectorNo = vector then registered else handler
    | _ => handler) first

private theorem lastHandler_append (first : BitVec 32) (vector : BitVec 8)
    (events events' : List InterruptEvent) :
    lastHandler first vector (events ++ events') =
      lastHandler (lastHandler first vector events) vector events' :=
  List.foldl_append

private theorem lastHandler_register (first handler : BitVec 32)
    (vector vectorNo : BitVec 8) :
    lastHandler first vector [.register vectorNo handler] =
      if vectorNo = vector then handler else first :=
  rfl

def lineOf (vector : BitVec 8) : PicLine :=
  if vector = 0x20 then .master 0
  else if vector = 0x21 then .master 1
  else .slave 6

def InterruptEvent.priority :
    InterruptEvent → Option (PriorityEvent PicLine)
  | .request line =>
      if kernelWiring.Enabled line then some (.request line) else none
  | .acknowledge vector => some (.serve (lineOf vector))
  | _ => none

def priorityEvents (trace : List (InterruptEvent × InterruptState)) :
    List (PriorityEvent PicLine) :=
  (trace.map Prod.fst).filterMap InterruptEvent.priority

def InterruptState.waiting (s : InterruptState) : Finset PicLine :=
  s.use.pic.waiting kernelWiring

private def InterruptState.writes (s : InterruptState) :
    List (BitVec 8 × BitVec 8) :=
  match s.entry with
  | some (_, writes) => writes
  | none => []

/-! ## The setup and the entries -/

/-- Each entry of a device ends its interrupt at both controllers. -/
theorem portWrites_entryCode (line : Fin 16) (cpu : Cpu)
    (words : List (BitVec 32)) :
    portWrites (TrapKind.device line).entryCode cpu words = PicPair.ends := by
  simp [portWrites, TrapKind.entryCode, saveContext, PicPair.ends]

/-- What `pic_8259A_init` leaves, whatever the controllers did before. -/
theorem outs_pic8259AInit (pair : PicPair) :
    pair.outs pic8259AInit =
      ⟨⟨.ready, 0x11, 0x20, 0x04, 0x01, 0xf8, fun _ => false,
          fun _ => false⟩,
        ⟨.ready, 0x11, 0x28, 0x02, 0x01, 0xbf, fun _ => false,
          fun _ => false⟩⟩ := by
  simp only [PicPair.outs, PicPair.out, pic8259AInit, Pic.writeCtrl,
    Pic.writeData, List.foldl_cons, List.foldl_nil]
  simp

private theorem pic8259AInit_settled (pair : PicPair) :
    (pair.outs pic8259AInit).Settled kernelWiring := by
  rw [outs_pic8259AInit]
  constructor
  · constructor <;> decide
  · constructor <;> decide
  · decide

private theorem enabled_iff (line : PicLine) :
    kernelWiring.Enabled line ↔ line ∈ kernelLines := by
  revert line
  decide

private theorem lineOf_vector {line : PicLine}
    (enabled : kernelWiring.Enabled line) :
    lineOf (kernelWiring.vector line) = line := by
  have known : ∀ line ∈ kernelLines,
      lineOf (kernelWiring.vector line) = line := by
    decide
  exact known line ((enabled_iff line).mp enabled)

/-! ## The invariant -/

/-- What holds between all steps. -/
structure InterruptsKept (s : InterruptState) : Prop where
  settled : (s.use.pic.outs s.writes).Settled kernelWiring
  writes : s.writes ⊆ PicPair.ends
  vector : ∀ vector writes, s.entry = some (vector, writes) →
    ∃ line ∈ kernelLines, vector = kernelWiring.vector line

private theorem InterruptState.writes_eq {s : InterruptState}
    {vector : BitVec 8} {writes : List (BitVec 8 × BitVec 8)}
    (running : s.entry = some (vector, writes)) : s.writes = writes := by
  rw [InterruptState.writes, running]

private theorem registerIrqHandler_eq {vectorNo : BitVec 8}
    {handler : BitVec 32} {use use' : InterruptUse}
    (registered : registerIrqHandler vectorNo handler use = .ok use') :
    use' = { use with
      irqaction := Function.update use.irqaction vectorNo.toNat handler } := by
  obtain ⟨_, _, same⟩ := Call.bind_eq_ok_iff.mp registered
  exact (Except.ok.inj same).symm

section Steps

variable {s next : InterruptState} {event : InterruptEvent}

private theorem afterInit_kept (text : InterruptText) (s : InterruptUse) :
    InterruptsKept (afterInit text s) where
  settled := pic8259AInit_settled s.pic
  writes := List.nil_subset _
  vector _ _ running := absurd running (Option.some_ne_none _).symm

theorem InterruptsKept.idle (kept : InterruptsKept s)
    (idle : s.entry = none) : s.use.pic.Settled kernelWiring := by
  have settled := kept.settled
  rw [InterruptState.writes, idle] at settled
  exact settled

theorem InterruptsKept.acknowledge (kept : InterruptsKept s)
    {vector : BitVec 8} (taken : InterruptStep s (.acknowledge vector) next) :
    ∃ line ∈ s.waiting,
      (∀ other ∈ s.waiting, kernelWiring.rank line ≤ kernelWiring.rank other) ∧
        vector = kernelWiring.vector line ∧ line ∈ kernelLines ∧
        next.entry = some (vector, PicPair.ends) ∧
        (next.use.pic.outs PicPair.ends).Settled kernelWiring ∧
        next.waiting = s.waiting.erase line := by
  cases taken with
  | acknowledge context words idle told _ =>
      obtain ⟨line, member, first, same, settled, erased⟩ :=
        (kept.idle idle).acknowledge_spec told
      have enabled := (PicPair.mem_waiting.mp member).1
      refine ⟨line, member, first, same, (enabled_iff line).mp enabled, ?_,
        settled, ?_⟩
      · rw [InterruptState.withPic, portWrites_entryCode]
      · rw [PicPair.waiting_outs (List.Subset.refl _)] at erased
        exact erased

private theorem InterruptsKept.step (kept : InterruptsKept s)
    (taken : InterruptStep s event next) : InterruptsKept next := by
  cases taken with
  | request line =>
      refine ⟨?_, kept.writes, kept.vector⟩
      show (PicPair.outs (s.use.pic.request line) s.writes).Settled _
      rw [PicPair.outs_request kept.writes]
      exact kept.settled.request line
  | acknowledge context words idle told known =>
      obtain ⟨line, -, -, same, member, entry, settled, -⟩ :=
        kept.acknowledge (.acknowledge context words idle told known)
      have writes := InterruptState.writes_eq entry
      refine ⟨?_, ?_, ?_⟩
      · rw [writes]
        exact settled
      · rw [writes]
        exact List.Subset.refl _
      · intro vector' writes' running
        rw [entry] at running
        obtain ⟨rfl, -⟩ := Prod.mk.inj (Option.some.inj running)
        exact ⟨line, member, same⟩
  | out running =>
      have writes := kept.writes
      have settled := kept.settled
      rw [InterruptState.writes_eq running] at writes settled
      refine ⟨settled, (List.cons_subset.mp writes).2, ?_⟩
      intro vector' writes' running'
      obtain ⟨rfl, -⟩ := Prod.mk.inj (Option.some.inj running')
      exact kept.vector _ _ running
  | call running =>
      have settled := kept.settled
      rw [InterruptState.writes_eq running] at settled
      exact ⟨settled, List.nil_subset _,
        fun _ _ running' => absurd running' (Option.some_ne_none _).symm⟩
  | register idle _ registered =>
      have pic := congrArg InterruptUse.pic (registerIrqHandler_eq registered)
      refine ⟨?_, List.nil_subset _,
        fun _ _ running' => absurd running' (Option.some_ne_none _).symm⟩
      show (PicPair.outs _ []).Settled _
      rw [pic]
      exact kept.idle idle

/-- A step that shows is a step of the requests and interrupts. -/
theorem InterruptsKept.visible (kept : InterruptsKept s)
    (taken : InterruptStep s event next) {shown : PriorityEvent PicLine}
    (shows : event.priority = some shown) :
    PriorityStep kernelWiring.rank s.waiting shown next.waiting := by
  cases event with
  | request line =>
      rw [InterruptEvent.priority, Option.ite_none_right_eq_some] at shows
      obtain ⟨enabled, same⟩ := shows
      cases taken with
      | request line =>
          have waiting := @PicPair.Settled.waiting_request
            kernelWiring s.use.pic line
          rw [if_pos enabled] at waiting
          rw [← Option.some.inj same, InterruptState.waiting,
            InterruptState.waiting, InterruptState.withPic, waiting]
          exact .request line
  | acknowledge vector =>
      obtain ⟨line, member, first, same, known, -, -, erased⟩ :=
        kept.acknowledge taken
      have serves : lineOf vector = line := by
        rw [same]
        exact lineOf_vector ((enabled_iff line).mpr known)
      rw [← Option.some.inj shows, erased, serves]
      exact .serve member first
  | out => contradiction
  | call vector handler => contradiction
  | register vectorNo handler => contradiction

private theorem InterruptsKept.hidden (kept : InterruptsKept s)
    (taken : InterruptStep s event next) (shows : event.priority = none) :
    next.waiting = s.waiting := by
  cases taken with
  | request line =>
      have masked : ¬ kernelWiring.Enabled line := by
        intro enabled
        rw [InterruptEvent.priority, if_pos enabled] at shows
        contradiction
      have waiting := @PicPair.Settled.waiting_request
        kernelWiring s.use.pic line
      rw [if_neg masked] at waiting
      exact waiting
  | acknowledge context words idle told known =>
      contradiction
  | out running =>
      have writes := kept.writes
      rw [InterruptState.writes_eq running] at writes
      exact PicPair.waiting_out_end (List.cons_subset.mp writes).1
  | call running => rfl
  | register idle _ registered =>
      rw [registerIrqHandler_eq registered]
      rfl

/-- When an entry may start and a line waits, there is an interrupt. -/
theorem InterruptsKept.interrupted (kept : InterruptsKept s)
    (idle : s.entry = none) (waits : s.waiting.Nonempty) :
    ∃ vector next, InterruptStep s (.acknowledge vector) next := by
  have settled := kept.idle idle
  obtain ⟨⟨vector, pic⟩, told⟩ :=
    Option.isSome_iff_exists.mp (settled.acknowledge_isSome waits)
  obtain ⟨line, member, -, same, -⟩ := settled.acknowledge_spec told
  have known := (enabled_iff line).mp (PicPair.mem_waiting.mp member).1
  have numbered : ∀ line ∈ kernelLines, ∃ number : Fin 16,
      vectorOf number = (kernelWiring.vector line).setWidth 32 := by
    decide
  obtain ⟨number, entry⟩ := numbered line known
  rw [← same] at entry
  exact ⟨vector, _, .acknowledge userCpu [] idle told entry⟩

end Steps

/-! ## Runs -/

section Runs

variable {text : InterruptText} {before : InterruptUse}
  {s : InterruptState} {trace : List (InterruptEvent × InterruptState)}

private theorem run_kept
    (run : Run InterruptStep (afterInit text before) trace s) :
    InterruptsKept s :=
  run.invariant (afterInit_kept text before)
    fun _ _ _ kept taken => kept.step taken

private theorem run_irqaction
    (run : Run InterruptStep (afterInit text before) trace s)
    (vector : BitVec 8) (inside : vector.toNat < idtDescCnt) :
    s.use.irqaction vector.toNat =
      lastHandler text.ignoreIntrHandler vector (trace.map Prod.fst) := by
  induction run with
  | start =>
      exact if_pos inside
  | @next trace current last event earlier taken inductionHypothesis =>
      rw [List.map_append, lastHandler_append, ← inductionHypothesis]
      cases taken with
      | request line => rfl
      | acknowledge context words idle told known => rfl
      | out running => rfl
      | call running => rfl
      | @register vectorNo handler _ idle small registered =>
          rw [registerIrqHandler_eq registered]
          show Function.update current.use.irqaction vectorNo.toNat handler
            vector.toNat = lastHandler _ vector [.register vectorNo handler]
          rw [Function.update_apply, lastHandler_register]
          by_cases same : vector = vectorNo
          · rw [if_pos (congrArg BitVec.toNat same), if_pos same.symm]
          · rw [if_neg fun equal => same (BitVec.eq_of_toNat_eq equal),
              if_neg (Ne.symm same)]

private theorem run_priority {later : List (InterruptEvent × InterruptState)}
    {last : InterruptState} (kept : InterruptsKept s)
    (run : Run InterruptStep s later last) :
    ∃ trace', Run (PriorityStep kernelWiring.rank) s.waiting trace'
        last.waiting ∧
      trace'.map Prod.fst = priorityEvents later :=
  run.project (fun _ _ _ kept taken => kept.step taken)
    (fun _ _ _ _ kept taken shows => kept.visible taken shows)
    (fun _ _ _ kept taken shows => kept.hidden taken shows) kept

/-- Whatever the devices, the entries and `register_irq_handler` do after
`interrupt_init`, and in whatever order: while no entry runs, there is an
interrupt when the clock, the keyboard or the disk has asked for one.  It is
the one for the first line that waits, with its own vector, and its entry calls
the handler that was registered last.  A line that waits goes on waiting until
its own interrupt, and no more interrupts come before that than better lines
waited and better requests have come since. -/
theorem interrupts_prioritized
    (run : Run InterruptStep (afterInit text before) trace s) :
    (s.entry = none → s.waiting.Nonempty →
      ∃ vector next, InterruptStep s (.acknowledge vector) next) ∧
    (∀ vector next, InterruptStep s (.acknowledge vector) next →
      ∃ line ∈ s.waiting, line ∈ kernelLines ∧
        vector = kernelWiring.vector line ∧
        next.waiting = s.waiting.erase line ∧
        ∀ other ∈ s.waiting,
          kernelWiring.rank line ≤ kernelWiring.rank other) ∧
    (∀ vector handler next, InterruptStep s (.call vector handler) next →
      (∃ line ∈ kernelLines, vector = kernelWiring.vector line) ∧
        handler = lastHandler text.ignoreIntrHandler vector
          (trace.map Prod.fst)) ∧
    ∀ later last line, Run InterruptStep s later last →
      line ∈ s.waiting → .serve line ∉ priorityEvents later →
      line ∈ last.waiting ∧
        served (priorityEvents later) +
            (better kernelWiring.rank line last.waiting).card ≤
          (better kernelWiring.rank line s.waiting).card +
            betterRequests kernelWiring.rank line (priorityEvents later) := by
  have kept := run_kept run
  refine ⟨fun idle waits => kept.interrupted idle waits, ?_, ?_, ?_⟩
  · intro vector next taken
    obtain ⟨line, member, first, same, known, -, -, erased⟩ :=
      kept.acknowledge taken
    exact ⟨line, member, known, same, erased, first⟩
  · intro vector handler next taken
    cases taken with
    | call running =>
        obtain ⟨line, known, same⟩ := kept.vector _ _ running
        have small : ∀ line ∈ kernelLines,
            (kernelWiring.vector line).toNat < idtDescCnt := by
          decide
        have inside := small line known
        rw [← same] at inside
        exact ⟨⟨line, known, same⟩, run_irqaction run vector inside⟩
  · intro later last line run' waits unserved
    obtain ⟨trace', view, same⟩ := run_priority kept run'
    rw [← same] at unserved ⊢
    exact served_le kernelWiring.rank_injective view waits unserved

/-- The keyboard and then the clock ask for an interrupt, when the handler of
the keyboard has been registered. -/
def bothAsk : InterruptState :=
  let use := interruptInit fixedTables beforeTables
  let registered := { use with
    irqaction := Function.update use.irqaction 0x21 0xc0002000 }
  let keyboard := registered.pic.request (.master 1)
  { use := { registered with pic := keyboard.request (.master 0) }
    entry := none }

private theorem bothAsk_waiting : bothAsk.waiting = {.master 0, .master 1} := by
  decide

private theorem bothAsk_run : ∃ trace,
    Run InterruptStep (afterInit fixedTables beforeTables) trace bothAsk ∧
      trace.map Prod.fst =
        [.register 0x21 0xc0002000, .request (.master 1),
          .request (.master 0)] := by
  have registered := Run.start.next (@InterruptStep.register
    (afterInit fixedTables beforeTables) 0x21 0xc0002000 _ rfl (by decide)
    rfl)
  exact ⟨_, (registered.next (.request (.master 1))).next
    (.request (.master 0)), rfl⟩

/-- The clock comes first, and the keyboard next, but for clock interrupts that
are asked for meanwhile. -/
theorem interrupts_prioritized_keyboard :
    (∃ next, InterruptStep bothAsk (.acknowledge 0x20) next ∧
      next.waiting = {.master 1}) ∧
    ∀ later last, Run InterruptStep bothAsk later last →
      .serve (.master 1) ∉ priorityEvents later →
      .master 1 ∈ last.waiting ∧
        served (priorityEvents later) ≤
          1 + betterRequests kernelWiring.rank (.master 1)
            (priorityEvents later) := by
  obtain ⟨_, run, -⟩ := bothAsk_run
  obtain ⟨asks, serves, -, bound⟩ := interrupts_prioritized run
  have waits : bothAsk.waiting.Nonempty := by
    rw [bothAsk_waiting]
    exact Finset.insert_nonempty _ _
  constructor
  · obtain ⟨vector, next, taken⟩ := asks rfl waits
    obtain ⟨line, member, -, same, erased, first⟩ := serves vector next taken
    rw [bothAsk_waiting] at member first erased
    have clock : line = .master 0 := by
      apply kernelWiring.rank_injective
      have least := first (.master 0) (by decide)
      have zero : kernelWiring.rank (.master 0) = 0 := rfl
      omega
    rw [clock] at same erased
    have number : vector = 0x20 := same
    rw [number] at taken
    exact ⟨next, taken, erased.trans (by decide)⟩
  · intro later last run' unserved
    have ahead : (better kernelWiring.rank (.master 1)
        bothAsk.waiting).card = 1 := by
      rw [bothAsk_waiting]
      decide
    have waits : .master 1 ∈ bothAsk.waiting := by
      rw [bothAsk_waiting]
      decide
    obtain ⟨present, few⟩ := bound later last (.master 1) run' waits unserved
    rw [ahead] at few
    exact ⟨present, by omega⟩

end Runs

end Simos
