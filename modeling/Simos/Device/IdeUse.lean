import Simos.Device.Ide
import Simos.Thread.LockRuns

/-!
# Threads and interrupts at one channel (`device/ide.c`)

`ide_read` and `ide_write` are cut into their statements; `lock_acquire` and
`lock_release` run as in the runs of one lock.  A round of `sema_down`, a call
of `sema_up` and the interrupt handler run with interrupts off.  Between any
two other statements the processor may go to another thread and a disk
interrupt may come; which of these happens is left open, and an interrupt
needs no cause.

`log` records what the completion of commands depends on: `wait_intr` was set,
the command was written to the port, an interrupt was accepted, `sema_down`
returned.
-/

namespace Simos

open Simos.Library

/-- A call of `ide_read` or `ide_write` with its local variable
`sector_done`. -/
structure IdeRequest where
  write : Bool
  devNo : Nat
  lbaBase : Nat
  buf : Nat
  secCnt : Nat
  sectorDone : Nat

/-- The next statement of a thread.  `blocked` is inside `thread_block`,
called from `sema_down(&channel->disk_ok)`; `failed` is in the endless loop of
`ASSERT_FAILED`. -/
inductive IdePc where
  | outside
  | assertSecCnt
  | lockAcquire
  | selectHd
  | whileTest
  | selectSector
  | setWaitIntr
  | outCommand
  | semaDown
  | blocked
  | busyWait (rounds : Nat)
  | readDrq
  | moveData
  | countSectors
  | lockRelease
  | failed
  deriving DecidableEq, Repr

inductive IdeMark where
  | waits (thread : Nat)
  | command (thread : Nat)
  | accepted
  | returned (thread : Nat)
  deriving DecidableEq, Repr

/-- The channel with the threads that use it. -/
structure IdeUse where
  channel : IdeChannel
  lockPc : Nat → LockPc
  depth : Nat → Nat
  pc : Nat → IdePc
  request : Nat → IdeRequest
  log : List IdeMark

namespace IdeUse

def locks (s : IdeUse) : LockUse :=
  ⟨s.channel.lock, s.lockPc, s.depth⟩

def withLocks (s : IdeUse) (locks : LockUse) : IdeUse :=
  { s with
    channel := { s.channel with lock := locks.lock }
    lockPc := locks.pc
    depth := locks.depth }

def goto (s : IdeUse) (thread : Nat) (pc : IdePc) : IdeUse :=
  { s with pc := Function.update s.pc thread pc }

def withChannel (s : IdeUse) (channel : IdeChannel) : IdeUse :=
  { s with channel }

def withAta (s : IdeUse) (ata : AtaChannel) : IdeUse :=
  { s with channel := { s.channel with ata } }

def mark (s : IdeUse) (mark : IdeMark) : IdeUse :=
  { s with log := s.log ++ [mark] }

/-- `thread_unblock` of the waiter that `sema_up` took out of the queue. -/
def unblock (s : IdeUse) : Option Nat → IdeUse
  | none => s
  | some thread => s.goto thread .semaDown

def setDone (s : IdeUse) (thread sectorDone : Nat) : IdeUse :=
  { s with
    request := Function.update s.request thread
      { s.request thread with sectorDone } }

end IdeUse

def busyWaitRounds : Nat := 30 * 1000 / 10 - 1

def afterCommand (write : Bool) : IdePc :=
  if write then .busyWait busyWaitRounds else .semaDown

def afterDown (write : Bool) : IdePc :=
  if write then .countSectors else .busyWait busyWaitRounds

def afterMove (write : Bool) : IdePc :=
  if write then .semaDown else .countSectors

def ideStatement (drive : AtaDrive) (s : IdeUse) (cur : Nat) : Call IdeUse :=
  let request := s.request cur
  let once := sectorOnce request.secCnt request.sectorDone
  match s.pc cur with
  | .outside | .blocked | .failed =>
      .ok s
  | .assertSecCnt => do
      Call.assert (request.secCnt > 0)
      return (s.withLocks (s.locks.goto cur .acquireTest)).goto cur .lockAcquire
  | .lockAcquire => do
      let locks ← lockStatement s.locks cur
      let s := s.withLocks locks
      return if locks.pc cur = .outside then s.goto cur .selectHd else s
  | .selectHd =>
      .ok ((s.withAta (diskSelectHd s.channel.ata request.devNo)).goto cur
        .whileTest)
  | .whileTest =>
      if request.sectorDone < request.secCnt then
        .ok (s.goto cur .selectSector)
      else
        .ok ((s.withLocks (s.locks.goto cur .releaseAssert)).goto cur
          .lockRelease)
  | .selectSector =>
      .ok ((s.withAta (diskSelectSector s.channel.ata
        (u32 (request.lbaBase + request.sectorDone)) (once % 256))).goto cur
        .setWaitIntr)
  | .setWaitIntr =>
      .ok (((s.withChannel { s.channel with waitIntr := true }).mark
        (.waits cur)).goto cur .outCommand)
  | .outCommand =>
      let cmd := if request.write then cmdWriteSector else cmdReadSector
      .ok (((s.withAta (s.channel.ata.command cmd)).mark (.command cur)).goto
        cur (afterCommand request.write))
  | .semaDown => do
      let (diskOk, waits) ← semaDownRound s.channel.diskOk cur
      let s := s.withChannel { s.channel with diskOk }
      return if waits then
        s.goto cur .blocked
      else
        (s.mark (.returned cur)).goto cur (afterDown request.write)
  | .busyWait rounds =>
      match rounds with
      | 0 => .ok (s.goto cur .failed)
      | rounds + 1 =>
          let status := drive.status s.channel.ata
          let s := s.withAta s.channel.ata.statusRead
          if status &&& bitAltStatusBsy = 0 then
            .ok (s.goto cur .readDrq)
          else
            .ok (s.goto cur (.busyWait rounds))
  | .readDrq =>
      let status := drive.status s.channel.ata
      let s := s.withAta s.channel.ata.statusRead
      if status &&& bitAltStatusDrq ≠ 0 then
        .ok (s.goto cur .moveData)
      else
        .ok (s.goto cur .failed)
  | .moveData =>
      let place := u32 (request.buf + request.sectorDone * 512)
      let channel :=
        if request.write then
          diskBufToSector s.channel (once % 256) place
        else
          diskSectorToBuf drive s.channel (once % 256) place
      .ok ((s.withChannel channel).goto cur (afterMove request.write))
  | .countSectors =>
      .ok ((s.setDone cur (u32 (request.sectorDone + once))).goto cur
        .whileTest)
  | .lockRelease => do
      let locks ← lockStatement s.locks cur
      let s := s.withLocks locks
      return if locks.pc cur = .outside then s.goto cur .outside else s

def ideInterrupt (s : IdeUse) : Call IdeUse := do
  let (channel, woken) ← hardDiskService s.channel s.channel.irqNo
  let s := if s.channel.waitIntr then s.mark .accepted else s
  return (s.withChannel channel).unblock woken

/-- A call of one of the two functions, a statement inside of it, or an
interrupt. -/
inductive IdeEvent where
  | call (thread : Nat) (request : IdeRequest)
  | statement (thread : Nat)
  | interrupt

def IdeUse.Runs (s : IdeUse) (thread : Nat) : Prop :=
  thread ≠ 0 ∧ s.pc thread ≠ .outside ∧ s.pc thread ≠ .blocked ∧
    s.pc thread ≠ .failed ∧ s.lockPc thread ≠ .blocked

inductive IdeStep (drive : AtaDrive) : IdeUse → IdeEvent → IdeUse → Prop
  | call {s : IdeUse} {thread : Nat} {request : IdeRequest} :
      thread ≠ 0 → s.pc thread = .outside → request.sectorDone = 0 →
      IdeStep drive s (.call thread request)
        { s.goto thread .assertSecCnt with
          request := Function.update s.request thread request }
  | statement {s s' : IdeUse} {thread : Nat} :
      s.Runs thread → ideStatement drive s thread = .ok s' →
      IdeStep drive s (.statement thread) s'
  | interrupt {s s' : IdeUse} :
      ideInterrupt s = .ok s' → IdeStep drive s .interrupt s'

instance (s : IdeUse) (thread : Nat) : Decidable (s.Runs thread) :=
  inferInstanceAs (Decidable (_ ∧ _))

def ideStepOf (drive : AtaDrive) (s : IdeUse) : IdeEvent → Option IdeUse
  | .call thread request =>
      if thread ≠ 0 ∧ s.pc thread = .outside ∧ request.sectorDone = 0 then
        some { s.goto thread .assertSecCnt with
          request := Function.update s.request thread request }
      else
        none
  | .statement thread =>
      if s.Runs thread then (ideStatement drive s thread).toOption else none
  | .interrupt =>
      (ideInterrupt s).toOption

theorem ideStepOf_sound (drive : AtaDrive) (s : IdeUse) (event : IdeEvent)
    (s' : IdeUse) (taken : ideStepOf drive s event = some s') :
    IdeStep drive s event s' := by
  cases event with
  | call thread request =>
      simp only [ideStepOf, Option.ite_none_right_eq_some,
        Option.some.injEq] at taken
      obtain ⟨⟨nonNull, outside, fresh⟩, rfl⟩ := taken
      exact IdeStep.call nonNull outside fresh
  | statement thread =>
      simp only [ideStepOf, Option.ite_none_right_eq_some] at taken
      cases returned : ideStatement drive s thread with
      | error stop =>
          rw [returned] at taken
          cases taken.2
      | ok next =>
          rw [returned] at taken
          cases taken.2
          exact IdeStep.statement taken.1 returned
  | interrupt =>
      simp only [ideStepOf] at taken
      cases served : ideInterrupt s with
      | error stop =>
          rw [served] at taken
          cases taken
      | ok next =>
          rw [served] at taken
          cases taken
          exact IdeStep.interrupt served

/-- A channel after `ide_init`, with no thread inside. -/
structure IdeInitialized (s : IdeUse) : Prop where
  line : s.channel.irqNo = 0x2e ∨ s.channel.irqNo = 0x2f
  lock : s.channel.lock = lockInit
  waitIntr : s.channel.waitIntr = false
  diskOk : s.channel.diskOk = semaInit 0
  lockPc : ∀ thread, s.lockPc thread = .outside
  depth : ∀ thread, s.depth thread = 0
  pc : ∀ thread, s.pc thread = .outside
  log : s.log = []

end Simos
