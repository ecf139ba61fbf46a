import Simos.Kernel.Call

/-!
# Semaphores and locks (`thread/sync.c`)

The operations with interrupts off, cut at the points where they give up the
processor.  A waiter queue is the sequence of the PCB addresses whose
dispatch nodes are linked in it, front first; `NULL` is zero.

`semaDownRound` is one round of the loop of `sema_down`, which either queues
the caller and blocks it or ends the call.  `semaUp` and `lockRelease` return
the task that they hand to `thread_unblock`.
-/

namespace Simos

structure Semaphore (Queue : Type) where
  value : Nat
  waiterQueue : Queue

structure Lock (Queue : Type) where
  holder : Nat
  semaphore : Semaphore Queue
  holderRepeatCnt : Nat

/-- `list_find_item` on the front of a queue: every queued task but the last
one is compared. -/
def findInQueue (queue : List Nat) (task : Nat) : Bool :=
  decide (task ∈ queue.dropLast)

def semaInit (values : Nat) : Semaphore (List Nat) :=
  ⟨values, []⟩

def lockInit : Lock (List Nat) :=
  ⟨0, semaInit 1, 0⟩

/-- One round of the loop of `sema_down` by the task `cur`.  The flag says
that the task has queued itself and calls `thread_block`. -/
def semaDownRound (sema : Semaphore (List Nat)) (cur : Nat) :
    Call (Semaphore (List Nat) × Bool) := do
  if sema.value = 0 then
    Call.assert (findInQueue sema.waiterQueue cur = false)
    return ({ sema with waiterQueue := sema.waiterQueue ++ [cur] }, true)
  else
    let sema := { sema with value := sema.value - 1 }
    Call.assert (sema.value = 0)
    return (sema, false)

/-- `sema_up`, with the waiter it wakes. -/
def semaUp (sema : Semaphore (List Nat)) :
    Call (Semaphore (List Nat) × Option Nat) := do
  Call.assert (sema.value = 0)
  let woken := sema.waiterQueue.head?
  let sema :=
    { value := (sema.value + 1) % 256, waiterQueue := sema.waiterQueue.tail }
  Call.assert (sema.value = 1)
  return (sema, woken)

/-- The part of `lock_acquire` from one round of `sema_down` on. -/
def lockAcquireRound (lock : Lock (List Nat)) (cur : Nat) :
    Call (Lock (List Nat) × Bool) := do
  let (sema, waits) ← semaDownRound lock.semaphore cur
  if waits then
    return ({ lock with semaphore := sema }, true)
  else
    let lock := { lock with semaphore := sema, holder := cur }
    Call.assert (lock.holderRepeatCnt = 0)
    return ({ lock with holderRepeatCnt := 1 }, false)

/-- `lock_acquire` up to its first `thread_block`. -/
def lockAcquire (lock : Lock (List Nat)) (cur : Nat) :
    Call (Lock (List Nat) × Bool) :=
  if lock.holder ≠ cur then
    lockAcquireRound lock cur
  else
    return ({ lock with holderRepeatCnt := u32 (lock.holderRepeatCnt + 1) },
      false)

/-- `lock_release`, with the waiter it wakes. -/
def lockRelease (lock : Lock (List Nat)) (cur : Nat) :
    Call (Lock (List Nat) × Option Nat) := do
  Call.assert (lock.holder = cur)
  if lock.holderRepeatCnt > 1 then
    return ({ lock with holderRepeatCnt := lock.holderRepeatCnt - 1 }, none)
  else
    Call.assert (lock.holderRepeatCnt = 1)
    let (sema, woken) ← semaUp lock.semaphore
    return ({ holder := 0, semaphore := sema, holderRepeatCnt := 0 }, woken)

/-- `lock_acquire` by a thread that runs alone: nobody would wake it. -/
def lockAcquireAlone (lock : Lock (List Nat)) (cur : Nat) :
    Call (Lock (List Nat)) := do
  let (lock, waits) ← lockAcquire lock cur
  if waits then
    .error .blocked
  else
    return lock

def lockReleaseAlone (lock : Lock (List Nat)) (cur : Nat) :
    Call (Lock (List Nat)) := do
  let (lock, _) ← lockRelease lock cur
  return lock

theorem semaDownRound_taken {waiters : List Nat} {cur : Nat}
    (absent : cur ∉ waiters) :
    semaDownRound ⟨0, waiters⟩ cur = .ok (⟨0, waiters ++ [cur]⟩, true) := by
  have notFound : findInQueue waiters cur = false :=
    decide_eq_false fun member =>
      absent ((List.dropLast_sublist waiters).subset member)
  unfold semaDownRound
  rw [if_pos rfl, Call.assert_of notFound]
  rfl

theorem semaDownRound_free (waiters : List Nat) (cur : Nat) :
    semaDownRound ⟨1, waiters⟩ cur = .ok (⟨0, waiters⟩, false) :=
  rfl

theorem semaUp_taken (waiters : List Nat) :
    semaUp ⟨0, waiters⟩ = .ok (⟨1, waiters.tail⟩, waiters.head?) :=
  rfl

theorem lockAcquire_of_zero {lock lock' : Lock (List Nat)} {cur : Nat}
    {waits : Bool} (other : lock.holder ≠ cur)
    (taken : lock.semaphore.value = 0)
    (returned : lockAcquire lock cur = .ok (lock', waits)) :
    waits = true ∧ lock' = ⟨lock.holder,
      ⟨0, lock.semaphore.waiterQueue ++ [cur]⟩, lock.holderRepeatCnt⟩ := by
  obtain ⟨holder, ⟨value, waiters⟩, count⟩ := lock
  simp only at other taken
  subst taken
  simp only [lockAcquire, if_pos other, lockAcquireRound, semaDownRound,
    if_true, Call.bind_eq_ok_iff, Call.pure_eq_ok, Except.ok.injEq] at returned
  obtain ⟨_, ⟨_, _, rfl⟩, returned⟩ := returned
  simp only [if_true, Except.ok.injEq, Prod.mk.injEq] at returned
  exact ⟨returned.2.symm, returned.1.symm⟩

/-- A lock taken once by `owner`, or a free one, with its waiters. -/
def heldLock (waiters : List Nat) : Option Nat → Lock (List Nat)
  | none => ⟨0, ⟨1, waiters⟩, 0⟩
  | some owner => ⟨owner, ⟨0, waiters⟩, 1⟩

theorem lockAcquireRound_free (waiters : List Nat) (cur : Nat) :
    lockAcquireRound (heldLock waiters none) cur =
      .ok (heldLock waiters (some cur), false) :=
  rfl

theorem lockAcquireRound_taken {waiters : List Nat} {owner cur : Nat}
    (absent : cur ∉ waiters) :
    lockAcquireRound (heldLock waiters (some owner)) cur =
      .ok (heldLock (waiters ++ [cur]) (some owner), true) := by
  unfold lockAcquireRound
  rw [show (heldLock waiters (some owner)).semaphore = ⟨0, waiters⟩ from rfl,
    semaDownRound_taken absent]
  rfl

theorem lockAcquire_of_ne {waiters : List Nat} {owner : Option Nat}
    {cur : Nat} (task : cur ≠ 0) (other : owner ≠ some cur) :
    lockAcquire (heldLock waiters owner) cur =
      lockAcquireRound (heldLock waiters owner) cur := by
  have held : (heldLock waiters owner).holder ≠ cur := by
    cases owner with
    | none =>
        exact task.symm
    | some owner =>
        exact fun same => other (congrArg some same)
  unfold lockAcquire
  rw [if_pos held]

/-- `lock_release` of a lock taken once frees it and wakes the first
waiter. -/
theorem lockRelease_taken (waiters : List Nat) (cur : Nat) :
    lockRelease (heldLock waiters (some cur)) cur =
      .ok (heldLock waiters.tail none, waiters.head?) := by
  unfold lockRelease
  rw [Call.assert_of (show (heldLock waiters (some cur)).holder = cur from rfl)]
  rfl

theorem lockAcquireAlone_lockInit {cur : Nat} (task : cur ≠ 0) :
    lockAcquireAlone lockInit cur = .ok ⟨cur, ⟨0, []⟩, 1⟩ := by
  have held : (lockInit.holder ≠ cur) := Ne.symm task
  unfold lockAcquireAlone lockAcquire
  rw [if_pos held]
  rfl

theorem lockReleaseAlone_taken {cur : Nat} :
    lockReleaseAlone ⟨cur, ⟨0, []⟩, 1⟩ cur = .ok lockInit := by
  unfold lockReleaseAlone lockRelease
  rw [Call.assert_of rfl]
  rfl

end Simos
