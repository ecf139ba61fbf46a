import Simos.Library.RingBuffer
import Simos.Thread.Sync

/-!
# Io queues (`device/ioqueue.c`)

Interrupts are off inside `ioq_getchar` and `ioq_putchar`, so that the
processor changes hands only where a call blocks: in `sema_down` on the lock
of the queue, or in `ioq_wait`.  `ioqGetchar` and `ioqPutchar` run a call from
its beginning, or from the place it was blocked at, to the next such place or
to its return.  A task is known by the address of its PCB.
-/

namespace Simos

open Simos.Library

def queueBuffSize : Nat :=
  64

structure Ioqueue where
  lock : Lock (List Nat)
  producer : Nat
  consumer : Nat
  buff : Nat → UInt8
  front : Nat
  tail : Nat

/-- `ioqueue_init` leaves the characters alone. -/
def ioqueueInit (ioq : Ioqueue) : Ioqueue :=
  { lock := lockInit
    producer := 0
    consumer := 0
    buff := ioq.buff
    front := 0
    tail := 0 }

def ioqNextPos (pos : Nat) : Nat :=
  u32 (pos + 1) % queueBuffSize

def ioqFull (ioq : Ioqueue) : Bool :=
  decide (ioqNextPos ioq.front = ioq.tail)

def ioqEmpty (ioq : Ioqueue) : Bool :=
  decide (ioq.front = ioq.tail)

inductive IoqWaiter where
  | producer
  | consumer
  deriving DecidableEq, Repr

inductive IoqCall where
  | getchar
  | putchar (ch : UInt8)
  deriving DecidableEq, Repr

inductive IoqPlace where
  | lock
  | wait
  deriving DecidableEq, Repr

/-- Where a thread stands with respect to the queue.  A woken thread is ready
to go on from the place where it was blocked. -/
inductive IoqMode where
  | outside
  | blocked (call : IoqCall) (place : IoqPlace)
  | woken (call : IoqCall) (place : IoqPlace)
  deriving DecidableEq, Repr

inductive IoqEnd where
  | blocked
  | getchar (ch : UInt8)
  | putchar (ch : UInt8)
  deriving DecidableEq, Repr

structure IoqUse where
  ioq : Ioqueue
  mode : Nat → IoqMode

def IoqCall.waiter : IoqCall → IoqWaiter
  | .getchar => .consumer
  | .putchar _ => .producer

def Ioqueue.waiter (ioq : Ioqueue) : IoqWaiter → Nat
  | .producer => ioq.producer
  | .consumer => ioq.consumer

def Ioqueue.setWaiter (ioq : Ioqueue) (task : Nat) : IoqWaiter → Ioqueue
  | .producer => { ioq with producer := task }
  | .consumer => { ioq with consumer := task }

def Ioqueue.mustWait (ioq : Ioqueue) : IoqCall → Bool
  | .getchar => ioqEmpty ioq
  | .putchar _ => ioqFull ioq

namespace IoqUse

def setLock (s : IoqUse) (lock : Lock (List Nat)) : IoqUse :=
  { s with ioq := { s.ioq with lock } }

def goto (s : IoqUse) (thread : Nat) (mode : IoqMode) : IoqUse :=
  { s with mode := Function.update s.mode thread mode }

/-- `thread_unblock`, which asserts that the thread is blocked. -/
def threadUnblock (s : IoqUse) (thread : Nat) : Call IoqUse :=
  match s.mode thread with
  | .blocked call place => .ok (s.goto thread (.woken call place))
  | .outside | .woken _ _ => .error .assertFailed

/-- `thread_unblock` of the waiter that `sema_up` took out, if there is
one. -/
def unblockWaiter (s : IoqUse) : Option Nat → Call IoqUse
  | none => .ok s
  | some thread => s.threadUnblock thread

def lockRelease (s : IoqUse) (cur : Nat) : Call IoqUse := do
  let (lock, woken) ← Simos.lockRelease s.ioq.lock cur
  (s.setLock lock).unblockWaiter woken

def ioqWait (s : IoqUse) (cur : Nat) (call : IoqCall) : Call IoqUse := do
  Call.assert (s.ioq.waiter call.waiter = 0)
  let s := { s with ioq := s.ioq.setWaiter cur call.waiter }
  return s.goto cur (.blocked call .wait)

def ioqWakeup (s : IoqUse) (waiter : IoqWaiter) : Call IoqUse := do
  Call.assert (s.ioq.waiter waiter ≠ 0)
  let s ← s.threadUnblock (s.ioq.waiter waiter)
  return { s with ioq := s.ioq.setWaiter 0 waiter }

def wakeRegistered (s : IoqUse) (waiter : IoqWaiter) : Call IoqUse :=
  if s.ioq.waiter waiter ≠ 0 then
    s.ioqWakeup waiter
  else
    return s

def getcharEnd (s : IoqUse) (cur : Nat) : Call (IoqUse × IoqEnd) := do
  let ch := s.ioq.buff s.ioq.tail
  let s := { s with ioq := { s.ioq with tail := ioqNextPos s.ioq.tail } }
  let s ← s.wakeRegistered .producer
  return (s.goto cur .outside, .getchar ch)

def putcharEnd (s : IoqUse) (cur : Nat) (ch : UInt8) :
    Call (IoqUse × IoqEnd) := do
  let buff := Function.update s.ioq.buff s.ioq.front ch
  let s := { s with
    ioq := { s.ioq with buff, front := ioqNextPos s.ioq.front } }
  let s ← s.wakeRegistered .consumer
  return (s.goto cur .outside, .putchar ch)

def callEnd (s : IoqUse) (cur : Nat) : IoqCall → Call (IoqUse × IoqEnd)
  | .getchar => s.getcharEnd cur
  | .putchar ch => s.putcharEnd cur ch

def afterRound (s : IoqUse) (cur : Nat) (call : IoqCall)
    (round : Lock (List Nat) × Bool) : Call (IoqUse × IoqEnd) := do
  let s := s.setLock round.1
  if round.2 then
    return (s.goto cur (.blocked call .lock), .blocked)
  else
    let s ← s.ioqWait cur call
    return (s, .blocked)

/-- A call from the test of its loop on. -/
def fromTest (s : IoqUse) (cur : Nat) (call : IoqCall) :
    Call (IoqUse × IoqEnd) := do
  if s.ioq.mustWait call then
    let round ← lockAcquire s.ioq.lock cur
    s.afterRound cur call round
  else
    s.callEnd cur call

/-- A call from its beginning, or from the place where it was blocked. -/
def callFrom (s : IoqUse) (cur : Nat) (call : IoqCall) :
    Option IoqPlace → Call (IoqUse × IoqEnd)
  | none => s.fromTest cur call
  | some .lock => do
      let round ← lockAcquireRound s.ioq.lock cur
      s.afterRound cur call round
  | some .wait => do
      let s ← s.lockRelease cur
      s.fromTest cur call

def ioqGetchar (s : IoqUse) (cur : Nat) (place : Option IoqPlace) :
    Call (IoqUse × IoqEnd) :=
  s.callFrom cur .getchar place

def ioqPutchar (s : IoqUse) (cur : Nat) (ch : UInt8)
    (place : Option IoqPlace) : Call (IoqUse × IoqEnd) :=
  s.callFrom cur (.putchar ch) place

end IoqUse

/-! ## The stored characters -/

def Ioqueue.stored (ioq : Ioqueue) : List UInt8 :=
  ringContents queueBuffSize ioq.buff ioq.front ioq.tail

def Ioqueue.Inside (ioq : Ioqueue) : Prop :=
  ioq.front < queueBuffSize ∧ ioq.tail < queueBuffSize

/-- The wrap of `uint32_t` does not show in a remainder by 64. -/
theorem ioqNextPos_eq (pos : Nat) :
    ioqNextPos pos = (pos + 1) % queueBuffSize := by
  unfold ioqNextPos u32 queueBuffSize
  exact Nat.mod_mod_of_dvd (pos + 1) (by decide)

namespace Ioqueue

variable {ioq : Ioqueue}

theorem init_inside (ioq : Ioqueue) : (ioqueueInit ioq).Inside := by
  constructor <;> exact Nat.zero_lt_succ 63

theorem init_stored (ioq : Ioqueue) : (ioqueueInit ioq).stored = [] := by
  simp [stored, ringContents, ringCount, ringCells, ioqueueInit]

/-- The sacrificed cell is never used. -/
theorem Inside.stored_length_le (inside : ioq.Inside) :
    ioq.stored.length ≤ 63 := by
  have bound := ringCount_lt inside.1 inside.2
  rw [stored, ringContents_length]
  exact Nat.le_of_lt_succ bound

theorem Inside.ioqEmpty_iff (inside : ioq.Inside) :
    ioqEmpty ioq = true ↔ ioq.stored.length = 0 := by
  rw [stored, ringContents_length, ringCount_eq_zero_iff inside.1 inside.2,
    ioqEmpty, decide_eq_true_iff]

theorem Inside.ioqFull_iff (inside : ioq.Inside) :
    ioqFull ioq = true ↔ ioq.stored.length = 63 := by
  have full := ringCount_succ_eq_iff inside.1 inside.2
  rw [stored, ringContents_length, ioqFull, decide_eq_true_iff, ioqNextPos_eq,
    ← full, queueBuffSize, Nat.succ_inj]

theorem Inside.take (inside : ioq.Inside) (notEmpty : ioqEmpty ioq = false) :
    Inside { ioq with tail := ioqNextPos ioq.tail } ∧
      ioq.stored = ioq.buff ioq.tail ::
        stored { ioq with tail := ioqNextPos ioq.tail } := by
  have different : ioq.front ≠ ioq.tail := of_decide_eq_false notEmpty
  rw [ioqNextPos_eq]
  exact ⟨⟨inside.1, ringNext_lt inside.2⟩,
    ringContents_pop inside.1 inside.2 different⟩

theorem Inside.put (inside : ioq.Inside) (notFull : ioqFull ioq = false)
    (ch : UInt8) :
    Inside { ioq with
        buff := Function.update ioq.buff ioq.front ch
        front := ioqNextPos ioq.front } ∧
      stored { ioq with
          buff := Function.update ioq.buff ioq.front ch
          front := ioqNextPos ioq.front } = ioq.stored ++ [ch] := by
  have different : (ioq.front + 1) % queueBuffSize ≠ ioq.tail := by
    rw [← ioqNextPos_eq]
    exact of_decide_eq_false notFull
  rw [ioqNextPos_eq]
  exact ⟨⟨ringNext_lt inside.1, inside.2⟩,
    ringContents_push inside.1 inside.2 different⟩

end Ioqueue

end Simos
