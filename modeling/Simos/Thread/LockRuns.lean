import Simos.Library.Runs
import Simos.Thread.Sync

/-!
# Runs of one lock

`lock_acquire` and `lock_release` are cut into their statements.  Only a round
of `sema_down` and a call of `sema_up` run with interrupts off; between any
two other statements the processor may go to another thread, and which thread
runs next is left open.  `depth` counts the acquisitions of a thread that have
not been released; a thread only releases what it has acquired.

* `LockOk` names the thread, if there is one, that has passed `sema_down` and
  not yet called `sema_up`, and says what it has written so far;
* `lock_mutualExclusion` is the result, up to nestings of 2^32 - 1.
-/

namespace Simos

open Simos.Library

/-- The next statement of a thread.  `blocked` is inside `thread_block`,
called from `sema_down`. -/
inductive LockPc where
  | outside
  | acquireTest
  | semaDown
  | blocked
  | setHolder
  | assertCount
  | setCount
  | increment
  | releaseAssert
  | releaseTest
  | decrement
  | releaseAssertOne
  | clearHolder
  | clearCount
  | semaUp
  deriving DecidableEq, Repr

/-- The lock and the threads that use it. -/
structure LockUse where
  lock : Lock (List Nat)
  pc : Nat → LockPc
  depth : Nat → Nat

namespace LockUse

def goto (s : LockUse) (thread : Nat) (pc : LockPc) : LockUse :=
  { s with pc := Function.update s.pc thread pc }

def setDepth (s : LockUse) (thread depth : Nat) : LockUse :=
  { s with depth := Function.update s.depth thread depth }

/-- `thread_unblock` of the waiter that `sema_up` took out of the queue. -/
def unblock (s : LockUse) : Option Nat → LockUse
  | none => s
  | some thread => s.goto thread .semaDown

end LockUse

def lockStatement (s : LockUse) (cur : Nat) : Call LockUse :=
  match s.pc cur with
  | .outside | .blocked =>
      .ok s
  | .acquireTest =>
      if s.lock.holder ≠ cur then
        .ok (s.goto cur .semaDown)
      else
        .ok (s.goto cur .increment)
  | .semaDown => do
      let (semaphore, waits) ← semaDownRound s.lock.semaphore cur
      let s := { s with lock := { s.lock with semaphore } }
      return s.goto cur (if waits then .blocked else .setHolder)
  | .setHolder =>
      .ok ({ s with lock := { s.lock with holder := cur } }.goto cur
        .assertCount)
  | .assertCount => do
      Call.assert (s.lock.holderRepeatCnt = 0)
      return s.goto cur .setCount
  | .setCount =>
      let s := { s with lock := { s.lock with holderRepeatCnt := 1 } }
      .ok ((s.setDepth cur (s.depth cur + 1)).goto cur .outside)
  | .increment =>
      let count := u32 (s.lock.holderRepeatCnt + 1)
      let s := { s with lock := { s.lock with holderRepeatCnt := count } }
      .ok ((s.setDepth cur (s.depth cur + 1)).goto cur .outside)
  | .releaseAssert => do
      Call.assert (s.lock.holder = cur)
      return s.goto cur .releaseTest
  | .releaseTest =>
      if s.lock.holderRepeatCnt > 1 then
        .ok (s.goto cur .decrement)
      else
        .ok (s.goto cur .releaseAssertOne)
  | .decrement =>
      let count := s.lock.holderRepeatCnt - 1
      let s := { s with lock := { s.lock with holderRepeatCnt := count } }
      .ok ((s.setDepth cur (s.depth cur - 1)).goto cur .outside)
  | .releaseAssertOne => do
      Call.assert (s.lock.holderRepeatCnt = 1)
      return s.goto cur .clearHolder
  | .clearHolder =>
      let s := { s with lock := { s.lock with holder := 0 } }
      .ok ((s.setDepth cur (s.depth cur - 1)).goto cur .clearCount)
  | .clearCount =>
      .ok ({ s with lock := { s.lock with holderRepeatCnt := 0 } }.goto cur
        .semaUp)
  | .semaUp => do
      let (semaphore, woken) ← Simos.semaUp s.lock.semaphore
      let s := { s with lock := { s.lock with semaphore } }
      return (s.unblock woken).goto cur .outside

/-- A call of one of the two functions, or a statement inside of it. -/
inductive LockEvent where
  | acquire (thread : Nat)
  | release (thread : Nat)
  | statement (thread : Nat)

inductive LockStep : LockUse → LockEvent → LockUse → Prop
  | acquire {s : LockUse} {thread : Nat} :
      thread ≠ 0 → s.pc thread = .outside →
      LockStep s (.acquire thread) (s.goto thread .acquireTest)
  | release {s : LockUse} {thread : Nat} :
      thread ≠ 0 → s.pc thread = .outside → 0 < s.depth thread →
      LockStep s (.release thread) (s.goto thread .releaseAssert)
  | statement {s s' : LockUse} {thread : Nat} :
      thread ≠ 0 → s.pc thread ≠ .outside → s.pc thread ≠ .blocked →
      lockStatement s thread = .ok s' → LockStep s (.statement thread) s'

/-- The nesting stays within `holder_repeat_cnt`. -/
def Shallow (s : LockUse) : LockEvent → Prop
  | .acquire thread => s.depth thread + 1 < 4294967296
  | .release _ | .statement _ => True

/-- The thread has passed `sema_down` and not yet done its `sema_up`. -/
def LockUse.PassedDown (s : LockUse) (thread : Nat) : Prop :=
  0 < s.depth thread ∨ s.pc thread ∈
    [LockPc.setHolder, .assertCount, .setCount, .clearCount, .semaUp]

def lockUseInit : LockUse :=
  ⟨lockInit, fun _ => .outside, fun _ => 0⟩

/-! ## The invariant -/

/-- What the thread that has passed `sema_down` has written so far. -/
def OwnerShape (lock : Lock (List Nat)) (depth thread : Nat) : LockPc → Prop
  | .setHolder => lock.holder = 0 ∧ lock.holderRepeatCnt = 0 ∧ depth = 0
  | .assertCount | .setCount =>
      lock.holder = thread ∧ lock.holderRepeatCnt = 0 ∧ depth = 0
  | .outside | .releaseAssert | .releaseTest =>
      lock.holder = thread ∧ lock.holderRepeatCnt = depth ∧ 0 < depth
  | .acquireTest | .increment =>
      lock.holder = thread ∧ lock.holderRepeatCnt = depth ∧ 0 < depth ∧
        depth + 1 < 4294967296
  | .decrement =>
      lock.holder = thread ∧ lock.holderRepeatCnt = depth ∧ 1 < depth
  | .releaseAssertOne | .clearHolder =>
      lock.holder = thread ∧ lock.holderRepeatCnt = depth ∧ depth = 1
  | .clearCount => lock.holder = 0 ∧ lock.holderRepeatCnt = 1 ∧ depth = 0
  | .semaUp => lock.holder = 0 ∧ lock.holderRepeatCnt = 0 ∧ depth = 0
  | .semaDown | .blocked => False

/-- What the owner has written does not depend on the semaphore. -/
theorem OwnerShape.of_eq {lock lock' : Lock (List Nat)} {depth thread : Nat}
    {pc : LockPc} (shape : OwnerShape lock depth thread pc)
    (sameHolder : lock'.holder = lock.holder)
    (sameCount : lock'.holderRepeatCnt = lock.holderRepeatCnt) :
    OwnerShape lock' depth thread pc := by
  obtain ⟨heldBy, semaphore, count⟩ := lock
  obtain ⟨heldBy', semaphore', count'⟩ := lock'
  simp only at sameHolder sameCount
  subst sameHolder sameCount
  cases pc <;> exact shape

/-- The owner that is inside has written its name and its count. -/
theorem OwnerShape.of_pos {lock : Lock (List Nat)} {depth thread : Nat}
    {pc : LockPc} (shape : OwnerShape lock depth thread pc)
    (positive : 0 < depth) :
    lock.holder = thread ∧ lock.holderRepeatCnt = depth := by
  cases pc <;> simp only [OwnerShape] at shape <;> omega

/-- The thread has nothing to do with the lock, or is on its way to it. -/
def Outsider (s : LockUse) (thread : Nat) : Prop :=
  s.depth thread = 0 ∧
    s.pc thread ∈ [LockPc.outside, .acquireTest, .semaDown, .blocked]

private def Owned (s : LockUse) : Option Nat → Prop
  | none =>
      s.lock.semaphore.value = 1 ∧ s.lock.holder = 0 ∧
        s.lock.holderRepeatCnt = 0
  | some thread =>
      thread ≠ 0 ∧ s.lock.semaphore.value = 0 ∧
        OwnerShape s.lock (s.depth thread) thread (s.pc thread)

/-- The invariant, with the thread that has passed `sema_down`. -/
structure LockOk (owner : Option Nat) (s : LockUse) : Prop where
  nodup : s.lock.semaphore.waiterQueue.Nodup
  mem_iff : ∀ thread,
    thread ∈ s.lock.semaphore.waiterQueue ↔ s.pc thread = .blocked
  outsiders : ∀ thread, owner ≠ some thread → Outsider s thread
  owned : Owned s owner

namespace LockOk

variable {owner : Option Nat} {s s' : LockUse} {thread : Nat}

theorem start : LockOk none lockUseInit where
  nodup := List.nodup_nil
  mem_iff := by simp [lockUseInit, lockInit, semaInit]
  outsiders := by simp [Outsider, lockUseInit]
  owned := ⟨rfl, rfl, rfl⟩

theorem owner_eq (ok : LockOk owner s) (inside : ¬ Outsider s thread) :
    owner = some thread := by
  by_contra other
  exact inside (ok.outsiders thread other)

theorem holder_ne (ok : LockOk owner s) (nonNull : thread ≠ 0)
    (other : owner ≠ some thread) : s.lock.holder ≠ thread := by
  have owned := ok.owned
  cases owner with
  | none =>
      rw [owned.2.1]
      exact nonNull.symm
  | some owner =>
      have different : owner ≠ thread := fun same => other (by rw [same])
      have shape := owned.2.2
      intro holds
      revert shape
      cases s.pc owner <;> simp [OwnerShape, holds, different.symm, nonNull]

theorem ownerMoves (ok : LockOk (some thread) s) {lock : Lock (List Nat)}
    {depth : Nat} {pc : LockPc}
    (sameSema : lock.semaphore = s.lock.semaphore)
    (shape : OwnerShape lock depth thread pc) :
    LockOk (some thread)
      ⟨lock, Function.update s.pc thread pc,
        Function.update s.depth thread depth⟩ := by
  obtain ⟨nonNull, zero, old⟩ := ok.owned
  have notBlocked : pc ≠ .blocked := by
    rintro rfl
    exact shape
  have wasAwake : s.pc thread ≠ .blocked := by
    intro blocked
    rw [blocked] at old
    exact old
  refine ⟨sameSema ▸ ok.nodup, ?_, ?_, nonNull, sameSema ▸ zero, ?_⟩
  · intro other
    rw [sameSema, ok.mem_iff other]
    by_cases same : other = thread
    · simp [same, notBlocked, wasAwake]
    · simp [same]
  · intro other different
    have notOwner : other ≠ thread := fun same => different (by rw [same])
    simpa [Outsider, notOwner] using ok.outsiders other different
  · simpa using shape

theorem ownerGoes (ok : LockOk (some thread) s) {lock : Lock (List Nat)}
    {pc : LockPc} (sameSema : lock.semaphore = s.lock.semaphore)
    (shape : OwnerShape lock (s.depth thread) thread pc) :
    LockOk (some thread) (LockUse.goto { s with lock := lock } thread pc) := by
  have moved := ok.ownerMoves sameSema shape
  rwa [Function.update_eq_self] at moved

theorem outsiderMoves (ok : LockOk owner s) (other : owner ≠ some thread)
    (awake : s.pc thread ≠ .blocked) {pc : LockPc}
    (outside : pc = .acquireTest ∨ pc = .semaDown) :
    LockOk owner (s.goto thread pc) := by
  have notBlocked : pc ≠ .blocked := by
    rcases outside with rfl | rfl <;> decide
  refine ⟨ok.nodup, ?_, ?_, ?_⟩
  · intro tested
    have old := ok.mem_iff tested
    by_cases same : tested = thread
    · subst tested
      simp [LockUse.goto, notBlocked, old, awake]
    · simpa [LockUse.goto, same] using old
  · intro tested different
    have old := ok.outsiders tested different
    by_cases same : tested = thread
    · subst tested
      rcases outside with rfl | rfl <;> simp [Outsider, LockUse.goto, old.1]
    · simpa [Outsider, LockUse.goto, same] using old
  · have owned := ok.owned
    cases owner with
    | none =>
        exact owned
    | some owner =>
        have different : owner ≠ thread := fun same => other (by rw [same])
        simpa [Owned, LockUse.goto, different] using owned

private theorem waits (ok : LockOk owner s) (at_down : s.pc thread = .semaDown)
    (zero : s.lock.semaphore.value = 0) :
    ∃ s', lockStatement s thread = .ok s' ∧ LockOk owner s' := by
  obtain ⟨⟨holder, ⟨value, waiters⟩, count⟩, pc, depth⟩ := s
  simp only at at_down zero
  subst zero
  have absent : thread ∉ waiters := by
    rw [ok.mem_iff thread]
    simp [at_down]
  have notOwner : owner ≠ some thread := by
    rintro rfl
    have shape := ok.owned.2.2
    simp only [at_down] at shape
    exact shape
  have nodup := ok.nodup
  have owned := ok.owned
  refine ⟨⟨⟨holder, ⟨0, waiters ++ [thread]⟩, count⟩,
    Function.update pc thread .blocked, depth⟩, ?_, ?_, ?_, ?_, ?_⟩
  · simp only [lockStatement, at_down, semaDownRound_taken absent, Call.ok_bind]
    rfl
  · simp only
    rw [(List.perm_append_singleton thread waiters).nodup_iff]
    exact List.nodup_cons.mpr ⟨absent, nodup⟩
  · intro tested
    have old := ok.mem_iff tested
    by_cases same : tested = thread
    · simp [same]
    · simpa [same] using old
  · intro tested different
    have old := ok.outsiders tested different
    by_cases same : tested = thread
    · subst tested
      simpa [Outsider] using old.1
    · simpa [Outsider, same] using old
  · cases owner with
    | none =>
        cases owned.1
    | some owner =>
        have different : owner ≠ thread := fun same => notOwner (by rw [same])
        refine ⟨owned.1, rfl, ?_⟩
        simp only [Function.update_of_ne different]
        exact owned.2.2.of_eq rfl rfl

private theorem takes (ok : LockOk none s) (nonNull : thread ≠ 0)
    (at_down : s.pc thread = .semaDown) :
    ∃ s', lockStatement s thread = .ok s' ∧ LockOk (some thread) s' := by
  obtain ⟨one, holder, count⟩ := ok.owned
  have taken : semaDownRound s.lock.semaphore thread =
      .ok (⟨0, s.lock.semaphore.waiterQueue⟩, false) := by
    have split : s.lock.semaphore = ⟨1, s.lock.semaphore.waiterQueue⟩ := by
      rw [← one]
    rw [split]
    exact semaDownRound_free _ _
  have depth := (ok.outsiders thread (by simp)).1
  refine ⟨LockUse.goto { s with
      lock := { s.lock with semaphore := ⟨0, s.lock.semaphore.waiterQueue⟩ } }
      thread .setHolder, ?_, ok.nodup, ?_, ?_, nonNull, rfl, ?_⟩
  · simp only [lockStatement, at_down, taken, Call.ok_bind]
    rfl
  · intro tested
    have old := ok.mem_iff tested
    by_cases same : tested = thread
    · subst tested
      simp [LockUse.goto, old, at_down]
    · simpa [LockUse.goto, same] using old
  · intro tested different
    have notOwner : tested ≠ thread := fun same => different (by rw [same])
    simpa [Outsider, LockUse.goto, notOwner] using
      ok.outsiders tested (by simp)
  · simpa [LockUse.goto, OwnerShape] using ⟨holder, count, depth⟩

private theorem frees (ok : LockOk (some thread) s)
    (at_up : s.pc thread = .semaUp) :
    ∃ s', lockStatement s thread = .ok s' ∧ LockOk none s' := by
  obtain ⟨⟨holder, ⟨value, waiters⟩, count⟩, pc, depth⟩ := s
  obtain ⟨nonNull, zero, shape⟩ := ok.owned
  simp only at at_up zero
  subst zero
  simp only [at_up, OwnerShape] at shape
  obtain ⟨rfl, rfl, noDepth⟩ := shape
  have nodup := ok.nodup
  have mem_iff := ok.mem_iff
  have outsider : ∀ tested, tested ≠ thread →
      Outsider ⟨⟨0, ⟨0, waiters⟩, 0⟩, pc, depth⟩ tested := fun tested different =>
    ok.outsiders tested (by simpa using Ne.symm different)
  have awake : thread ∉ waiters := by
    rw [mem_iff thread]
    simp [at_up]
  refine ⟨((⟨⟨0, ⟨1, waiters.tail⟩, 0⟩, pc, depth⟩ : LockUse).unblock
    waiters.head?).goto thread .outside, ?_, ?_, ?_, ?_, ?_⟩
  · simp only [lockStatement, at_up, semaUp_taken, Call.ok_bind]
    rfl
  · cases waiters with
    | nil =>
        exact nodup
    | cons first rest =>
        exact (List.nodup_cons.mp nodup).2
  · intro tested
    have old := mem_iff tested
    cases waiters with
    | nil =>
        by_cases same : tested = thread
        · simp [LockUse.goto, LockUse.unblock, same]
        · simpa [LockUse.goto, LockUse.unblock, same] using old
    | cons first rest =>
        by_cases same : tested = thread
        · subst tested
          simp only [List.mem_cons, not_or] at awake
          simp [LockUse.goto, LockUse.unblock, awake.2]
        · by_cases isFirst : tested = first
          · subst tested
            simp [LockUse.goto, LockUse.unblock, same,
              (List.nodup_cons.mp nodup).1]
          · simpa [LockUse.goto, LockUse.unblock, same, isFirst] using old
  · intro tested _
    by_cases same : tested = thread
    · subst tested
      cases waiters <;> simp [Outsider, LockUse.goto, LockUse.unblock, noDepth]
    · have old := outsider tested same
      cases waiters with
      | nil =>
          simpa [Outsider, LockUse.goto, LockUse.unblock, same] using old
      | cons first rest =>
          by_cases isFirst : tested = first
          · subst tested
            simpa [Outsider, LockUse.goto, LockUse.unblock, same] using old.1
          · simpa [Outsider, LockUse.goto, LockUse.unblock, same, isFirst]
              using old
  · cases waiters <;> exact ⟨rfl, rfl, rfl⟩

/-- Every statement returns, whichever thread runs it. -/
theorem statement (ok : LockOk owner s) (nonNull : thread ≠ 0)
    (inside : s.pc thread ≠ .outside) (awake : s.pc thread ≠ .blocked) :
    ∃ s', lockStatement s thread = .ok s' ∧ ∃ owner', LockOk owner' s' := by
  have mine (notOutsider : ¬ Outsider s thread) : LockOk (some thread) s := by
    rwa [ok.owner_eq notOutsider] at ok
  have shapeOf (ok : LockOk (some thread) s) := ok.owned.2.2
  cases at_pc : s.pc thread with
  | outside =>
      exact (inside at_pc).elim
  | blocked =>
      exact (awake at_pc).elim
  | acquireTest =>
      by_cases isOwner : owner = some thread
      · subst isOwner
        have shape := shapeOf ok
        rw [at_pc] at shape
        refine ⟨s.goto thread .increment, ?_, some thread,
          ok.ownerGoes rfl shape⟩
        simp [lockStatement, at_pc, shape.1]
      · refine ⟨s.goto thread .semaDown, ?_, owner,
          ok.outsiderMoves isOwner awake (Or.inr rfl)⟩
        simp [lockStatement, at_pc, ok.holder_ne nonNull isOwner]
  | semaDown =>
      cases owner with
      | none =>
          obtain ⟨s', returned, taken⟩ := ok.takes nonNull at_pc
          exact ⟨s', returned, some thread, taken⟩
      | some owner =>
          obtain ⟨s', returned, waiting⟩ := ok.waits at_pc ok.owned.2.1
          exact ⟨s', returned, some owner, waiting⟩
  | setHolder =>
      have ok := mine (by simp [Outsider, at_pc])
      have shape := shapeOf ok
      rw [at_pc] at shape
      simp only [lockStatement, at_pc]
      refine ⟨_, rfl, some thread, ok.ownerGoes rfl ?_⟩
      exact ⟨rfl, shape.2⟩
  | assertCount =>
      have ok := mine (by simp [Outsider, at_pc])
      have shape := shapeOf ok
      rw [at_pc] at shape
      refine ⟨s.goto thread .setCount, ?_, some thread,
        ok.ownerGoes rfl shape⟩
      simp [lockStatement, at_pc, Call.assert_of shape.2.1]
  | setCount =>
      have ok := mine (by simp [Outsider, at_pc])
      have shape := shapeOf ok
      rw [at_pc] at shape
      simp only [lockStatement, at_pc]
      refine ⟨_, rfl, some thread, ok.ownerMoves rfl ?_⟩
      exact ⟨shape.1, congrArg Nat.succ shape.2.2.symm, Nat.succ_pos _⟩
  | increment =>
      have ok := mine (by simp [Outsider, at_pc])
      have shape := shapeOf ok
      rw [at_pc] at shape
      obtain ⟨holder, count, positive, bound⟩ := shape
      simp only [lockStatement, at_pc]
      refine ⟨_, rfl, some thread, ok.ownerMoves rfl ?_⟩
      rw [count, u32_of_lt bound]
      exact ⟨holder, rfl, Nat.succ_pos _⟩
  | releaseAssert =>
      have ok := mine (by simp [Outsider, at_pc])
      have shape := shapeOf ok
      rw [at_pc] at shape
      refine ⟨s.goto thread .releaseTest, ?_, some thread,
        ok.ownerGoes rfl shape⟩
      simp [lockStatement, at_pc, Call.assert_of shape.1]
  | releaseTest =>
      have ok := mine (by simp [Outsider, at_pc])
      have shape := shapeOf ok
      rw [at_pc] at shape
      obtain ⟨holder, count, positive⟩ := shape
      by_cases nested : s.lock.holderRepeatCnt > 1
      · refine ⟨s.goto thread .decrement, ?_, some thread,
          ok.ownerGoes rfl ⟨holder, count, by omega⟩⟩
        simp only [lockStatement, at_pc, if_pos nested]
      · refine ⟨s.goto thread .releaseAssertOne, ?_, some thread,
          ok.ownerGoes rfl ⟨holder, count, by omega⟩⟩
        simp only [lockStatement, at_pc, if_neg nested]
  | decrement =>
      have ok := mine (by simp [Outsider, at_pc])
      have shape := shapeOf ok
      rw [at_pc] at shape
      obtain ⟨holder, count, nested⟩ := shape
      simp only [lockStatement, at_pc]
      refine ⟨_, rfl, some thread, ok.ownerMoves rfl ?_⟩
      exact ⟨holder, congrArg Nat.pred count, by omega⟩
  | releaseAssertOne =>
      have ok := mine (by simp [Outsider, at_pc])
      have shape := shapeOf ok
      rw [at_pc] at shape
      refine ⟨s.goto thread .clearHolder, ?_, some thread,
        ok.ownerGoes rfl shape⟩
      simp [lockStatement, at_pc, Call.assert_of (shape.2.1.trans shape.2.2)]
  | clearHolder =>
      have ok := mine (by simp [Outsider, at_pc])
      have shape := shapeOf ok
      rw [at_pc] at shape
      obtain ⟨holder, count, one⟩ := shape
      simp only [lockStatement, at_pc]
      refine ⟨_, rfl, some thread, ok.ownerMoves rfl ?_⟩
      exact ⟨rfl, count.trans one, by rw [one]⟩
  | clearCount =>
      have ok := mine (by simp [Outsider, at_pc])
      have shape := shapeOf ok
      rw [at_pc] at shape
      simp only [lockStatement, at_pc]
      refine ⟨_, rfl, some thread, ok.ownerGoes rfl ?_⟩
      exact ⟨shape.1, rfl, shape.2.2⟩
  | semaUp =>
      have ok := mine (by simp [Outsider, at_pc])
      obtain ⟨s', returned, free⟩ := ok.frees at_pc
      exact ⟨s', returned, none, free⟩

theorem step (ok : LockOk owner s) {event : LockEvent}
    (taken : LockStep s event s') (shallow : Shallow s event) :
    ∃ owner', LockOk owner' s' := by
  cases taken with
  | @acquire thread nonNull at_pc =>
      by_cases isOwner : owner = some thread
      · subst isOwner
        have shape := ok.owned.2.2
        rw [at_pc] at shape
        exact ⟨some thread, ok.ownerGoes rfl
          ⟨shape.1, shape.2.1, shape.2.2, shallow⟩⟩
      · exact ⟨owner, ok.outsiderMoves isOwner (by simp [at_pc])
          (Or.inl rfl)⟩
  | @release thread nonNull at_pc holds =>
      have isOwner : owner = some thread :=
        ok.owner_eq fun outsider => holds.ne' outsider.1
      subst isOwner
      have shape := ok.owned.2.2
      rw [at_pc] at shape
      exact ⟨some thread, ok.ownerGoes rfl shape⟩
  | @statement _ thread nonNull inside awake returned =>
      obtain ⟨s'', returned', next⟩ := ok.statement nonNull inside awake
      rw [returned'] at returned
      cases returned
      exact next

end LockOk

/-- After `lock_init`, in every run that nests no deeper than `2^32 - 1`: at
most one thread holds the lock, its address and its nesting depth stand in
the lock, the semaphore is free only when no thread is past `sema_down`, and
every statement returns, so that no `ASSERT` fails. -/
theorem lock_mutualExclusion {trace : List (LockEvent × LockUse)}
    {last : LockUse}
    (run : Run (Guarded LockStep Shallow) lockUseInit trace last) :
    (∀ thread other, 0 < last.depth thread → 0 < last.depth other →
        thread = other) ∧
      (∀ thread, 0 < last.depth thread →
        last.lock.holder = thread ∧
          last.lock.holderRepeatCnt = last.depth thread) ∧
      (last.lock.semaphore.value = 1 → ∀ thread, ¬ last.PassedDown thread) ∧
      ∀ thread, thread ≠ 0 → last.pc thread ≠ .outside →
        last.pc thread ≠ .blocked →
        ∃ next, lockStatement last thread = .ok next := by
  have preserved : ∀ state event next, (∃ owner, LockOk owner state) →
      Guarded LockStep Shallow state event next →
      ∃ owner, LockOk owner next := by
    intro state event next held taken
    obtain ⟨owner, ok⟩ := held
    exact ok.step taken.1 taken.2
  obtain ⟨owner, ok⟩ := run.invariant ⟨none, LockOk.start⟩ preserved
  have isOwner : ∀ thread, 0 < last.depth thread → owner = some thread :=
    fun thread positive =>
      ok.owner_eq fun outsider => positive.ne' outsider.1
  refine ⟨?_, ?_, ?_, ?_⟩
  · intro thread other inside otherInside
    have same := (isOwner thread inside).symm.trans (isOwner other otherInside)
    exact Option.some.inj same
  · intro thread inside
    have owned := ok.owned
    rw [isOwner thread inside] at owned
    exact owned.2.2.of_pos inside
  · intro free thread passed
    have notOutsider : ¬ Outsider last thread := by
      intro outsider
      rcases passed with positive | atPc
      · exact positive.ne' outsider.1
      · have away := outsider.2
        revert atPc away
        cases last.pc thread <;> decide
    have owned := ok.owned
    rw [ok.owner_eq notOutsider] at owned
    rw [owned.2.1] at free
    cases free
  · intro thread nonNull inside awake
    obtain ⟨next, returned, _⟩ := ok.statement nonNull inside awake
    exact ⟨next, returned⟩

/-- The statement where thread 1 is inside and thread 2 waits. -/
theorem lock_mutualExclusion_two :
    ∃ trace last, Run (Guarded LockStep Shallow) lockUseInit trace last ∧
      last.pc 2 = .blocked ∧ last.depth 1 = 1 ∧ last.lock.holder = 1 ∧
      ∀ thread, 0 < last.depth thread → thread = 1 := by
  have acquire {s : LockUse} {trace : List (LockEvent × LockUse)}
      (before : Run (Guarded LockStep Shallow) lockUseInit trace s)
      (thread : Nat) (nonNull : thread ≠ 0) (outside : s.pc thread = .outside)
      (shallow : s.depth thread + 1 < 4294967296) :=
    before.next ⟨.acquire nonNull outside, shallow⟩
  have statement {s s' : LockUse} {trace : List (LockEvent × LockUse)}
      (before : Run (Guarded LockStep Shallow) lockUseInit trace s)
      (thread : Nat) (nonNull : thread ≠ 0) (inside : s.pc thread ≠ .outside)
      (awake : s.pc thread ≠ .blocked)
      (returned : lockStatement s thread = .ok s') :=
    before.next ⟨.statement nonNull inside awake returned, trivial⟩
  have called := acquire Run.start 1 (by decide) rfl (by decide)
  have tested := statement called 1 (by decide) (by decide) (by decide) rfl
  have down := statement tested 1 (by decide) (by decide) (by decide) rfl
  have holder := statement down 1 (by decide) (by decide) (by decide) rfl
  have asserted := statement holder 1 (by decide) (by decide) (by decide) rfl
  have inside := statement asserted 1 (by decide) (by decide) (by decide) rfl
  have second := acquire inside 2 (by decide) rfl (by decide)
  have refused := statement second 2 (by decide) (by decide) (by decide) rfl
  have waits := statement refused 2 (by decide) (by decide) (by decide) rfl
  exact ⟨_, _, waits, rfl, rfl, rfl, fun thread positive =>
    (lock_mutualExclusion waits).1 thread 1 positive (by decide)⟩

/-! ## Nested acquisitions -/

private def aloneUse (lock : Lock (List Nat)) (depth : Nat) (pc : LockPc) :
    LockUse :=
  ⟨lock, Function.update (fun _ => .outside) 1 pc,
    Function.update (fun _ => 0) 1 depth⟩

private theorem lockUseInit_eq_alone :
    lockUseInit = aloneUse lockInit 0 .outside := by
  simp [lockUseInit, aloneUse]

private theorem aloneUse_acquire (lock : Lock (List Nat)) (depth : Nat) :
    LockStep (aloneUse lock depth .outside) (.acquire 1)
      (aloneUse lock depth .acquireTest) := by
  have called : LockStep (aloneUse lock depth .outside) (.acquire 1) _ :=
    .acquire (by decide) (by simp [aloneUse])
  simpa [aloneUse, LockUse.goto] using called

private theorem aloneUse_statement {lock : Lock (List Nat)} {depth : Nat}
    {pc : LockPc} (lock' : Lock (List Nat)) (depth' : Nat) (pc' : LockPc)
    (inside : pc ≠ .outside) (awake : pc ≠ .blocked)
    (returned : lockStatement (aloneUse lock depth pc) 1 =
      .ok (aloneUse lock' depth' pc')) :
    LockStep (aloneUse lock depth pc) (.statement 1)
      (aloneUse lock' depth' pc') :=
  .statement (by decide) (by simpa [aloneUse] using inside)
    (by simpa [aloneUse] using awake) returned

private def nestedLock (count : Nat) : Lock (List Nat) :=
  ⟨1, ⟨0, []⟩, u32 count⟩

private theorem nestedLock_one :
    Reachable LockStep lockUseInit (aloneUse (nestedLock 1) 1 .outside) := by
  rw [lockUseInit_eq_alone]
  have called := (Reachable.refl _).tail (aloneUse_acquire lockInit 0)
  have tested := called.tail
    (aloneUse_statement lockInit 0 .semaDown
      (by decide) (by decide)
      (by simp [lockStatement, aloneUse, LockUse.goto, lockInit]))
  have down := tested.tail
    (aloneUse_statement ⟨0, ⟨0, []⟩, 0⟩ 0 .setHolder
      (by decide) (by decide)
      (by simp [lockStatement, aloneUse, LockUse.goto, lockInit, semaInit,
        semaDownRound_free]))
  have holder := down.tail
    (aloneUse_statement ⟨1, ⟨0, []⟩, 0⟩ 0 .assertCount
      (by decide) (by decide)
      (by simp [lockStatement, aloneUse, LockUse.goto]))
  have asserted := holder.tail
    (aloneUse_statement ⟨1, ⟨0, []⟩, 0⟩ 0 .setCount
      (by decide) (by decide)
      (by simp [lockStatement, aloneUse, LockUse.goto, Call.assert]))
  exact asserted.tail
    (aloneUse_statement (nestedLock 1) 1 .outside
      (by decide) (by decide)
      (by simp [lockStatement, aloneUse, LockUse.goto, LockUse.setDepth,
        nestedLock, u32]))

private theorem nestedLock_succ (count : Nat) :
    Reachable LockStep (aloneUse (nestedLock count) count .outside)
      (aloneUse (nestedLock (count + 1)) (count + 1) .outside) := by
  have called := (Reachable.refl _).tail
    (aloneUse_acquire (nestedLock count) count)
  have tested := called.tail
    (aloneUse_statement (nestedLock count) count .increment
      (by decide) (by decide)
      (by simp [lockStatement, aloneUse, LockUse.goto, nestedLock]))
  exact tested.tail
    (aloneUse_statement (nestedLock (count + 1)) (count + 1) .outside
      (by decide) (by decide)
      (by simp [lockStatement, aloneUse, LockUse.goto, LockUse.setDepth,
        nestedLock, u32]))

private theorem nestedLock_reachable (count : Nat) :
    Reachable LockStep lockUseInit
      (aloneUse (nestedLock (count + 1)) (count + 1) .outside) := by
  induction count with
  | zero =>
      exact nestedLock_one
  | succ count inductionHypothesis =>
      exact inductionHypothesis.trans (nestedLock_succ (count + 1))

/-- A thread that acquires the lock `2^32` times has a nesting depth that
`holder_repeat_cnt` does not show. -/
theorem holderRepeatCnt_wraps :
    ∃ last, Reachable LockStep lockUseInit last ∧
      last.depth 1 = 4294967296 ∧ last.lock.holderRepeatCnt = 0 :=
  ⟨_, nestedLock_reachable 4294967295, by simp [aloneUse],
    by simp [aloneUse, nestedLock, u32]⟩

end Simos
