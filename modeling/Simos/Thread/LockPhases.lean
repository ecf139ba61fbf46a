import Simos.Thread.LockRuns

/-!
# Statements of `lock_acquire` and `lock_release` (`thread/sync.c`)

What one statement does, for a thread that holds the lock once at most: where
in its call the thread is afterwards, and that the other threads are left
alone or woken.
-/

namespace Simos

open Simos.Library

section Locks

variable {owner : Option Nat} {s s' : LockUse} {thread : Nat}

/-- Statements of `lock_acquire` by a thread that does not hold the lock. -/
def Acquiring : LockPc → Prop
  | .acquireTest | .semaDown | .blocked | .setHolder | .assertCount
  | .setCount => True
  | _ => False

/-- Statements of `lock_release` by a thread that has acquired once. -/
def Releasing : LockPc → Nat → Prop
  | .releaseAssert, depth | .releaseTest, depth | .releaseAssertOne, depth
  | .clearHolder, depth => depth = 1
  | .clearCount, depth | .semaUp, depth => depth = 0
  | _, _ => False

/-- A statement of `lock_acquire` ends with the lock taken once, or stays
inside. -/
theorem lockStatement_acquiring (ok : LockOk owner s) (nonNull : thread ≠ 0)
    (inside : Acquiring (s.pc thread)) (awake : s.pc thread ≠ .blocked)
    (outer : s.depth thread = 0)
    (returned : lockStatement s thread = .ok s') :
    (s'.pc thread = .outside ∧ s'.depth thread = 1) ∨
      (Acquiring (s'.pc thread) ∧ s'.depth thread = 0) := by
  cases at_pc : s.pc thread with
  | acquireTest =>
      have notOwner : owner ≠ some thread := by
        rintro rfl
        have shape := ok.owned.2.2
        rw [at_pc, outer] at shape
        exact Nat.lt_irrefl 0 shape.2.2.1
      have notHolder := ok.holder_ne nonNull notOwner
      simp only [lockStatement, at_pc, if_pos notHolder, Except.ok.injEq]
        at returned
      subst s'
      right
      simp [LockUse.goto, Acquiring, outer]
  | semaDown =>
      simp only [lockStatement, at_pc, Call.bind_eq_ok_iff, Call.pure_eq_ok,
        Except.ok.injEq] at returned
      obtain ⟨⟨semaphore, waits⟩, _, rfl⟩ := returned
      right
      cases waits <;> simp [LockUse.goto, Acquiring, outer]
  | setHolder =>
      simp only [lockStatement, at_pc, Except.ok.injEq] at returned
      subst s'
      right
      simp [LockUse.goto, Acquiring, outer]
  | assertCount =>
      simp only [lockStatement, at_pc, Call.bind_eq_ok_iff, Call.pure_eq_ok,
        Except.ok.injEq] at returned
      obtain ⟨_, _, rfl⟩ := returned
      right
      simp [LockUse.goto, Acquiring, outer]
  | setCount =>
      simp only [lockStatement, at_pc, Except.ok.injEq] at returned
      subst s'
      left
      simp [LockUse.goto, LockUse.setDepth, outer]
  | blocked =>
      exact absurd at_pc awake
  | _ =>
      rw [at_pc] at inside
      exact inside.elim

theorem lockStatement_releasing (ok : LockOk owner s)
    (inside : Releasing (s.pc thread) (s.depth thread))
    (returned : lockStatement s thread = .ok s') :
    (s'.pc thread = .outside ∧ s'.depth thread = 0) ∨
      Releasing (s'.pc thread) (s'.depth thread) := by
  cases at_pc : s.pc thread with
  | releaseAssert =>
      rw [at_pc] at inside
      simp only [lockStatement, at_pc, Call.bind_eq_ok_iff, Call.pure_eq_ok,
        Except.ok.injEq] at returned
      obtain ⟨_, _, rfl⟩ := returned
      right
      simpa [LockUse.goto, Releasing] using inside
  | releaseTest =>
      rw [at_pc] at inside
      have once : s.depth thread = 1 := inside
      have isOwner : owner = some thread :=
        ok.owner_eq fun outsider => by
          have outer := outsider.1
          omega
      subst isOwner
      have shape := ok.owned.2.2
      rw [at_pc] at shape
      have single : ¬ s.lock.holderRepeatCnt > 1 := by
        rw [shape.2.1, once]
        decide
      simp only [lockStatement, at_pc, if_neg single, Except.ok.injEq]
        at returned
      subst s'
      right
      simpa [LockUse.goto, Releasing] using inside
  | releaseAssertOne =>
      rw [at_pc] at inside
      simp only [lockStatement, at_pc, Call.bind_eq_ok_iff, Call.pure_eq_ok,
        Except.ok.injEq] at returned
      obtain ⟨_, _, rfl⟩ := returned
      right
      simpa [LockUse.goto, Releasing] using inside
  | clearHolder =>
      rw [at_pc] at inside
      have once : s.depth thread = 1 := inside
      simp only [lockStatement, at_pc, Except.ok.injEq] at returned
      subst s'
      right
      simp [LockUse.goto, LockUse.setDepth, Releasing, once]
  | clearCount =>
      rw [at_pc] at inside
      simp only [lockStatement, at_pc, Except.ok.injEq] at returned
      subst s'
      right
      simpa [LockUse.goto, Releasing] using inside
  | semaUp =>
      rw [at_pc] at inside
      have outer : s.depth thread = 0 := inside
      simp only [lockStatement, at_pc, Call.bind_eq_ok_iff, Call.pure_eq_ok,
        Except.ok.injEq] at returned
      obtain ⟨⟨semaphore, woken⟩, _, rfl⟩ := returned
      left
      cases woken <;> simp [LockUse.goto, LockUse.unblock, outer]
  | _ =>
      rw [at_pc] at inside
      exact inside.elim

/-- `s'` has another lock, other data of the thread, and perhaps one waiter
woken. -/
def LockChanges (s : LockUse) (thread : Nat) (s' : LockUse) : Prop :=
  ∃ lock depth pc woken,
    (∀ waiter, woken = some waiter → waiter ∈ s.lock.semaphore.waiterQueue) ∧
    s' = ((⟨lock, s.pc, Function.update s.depth thread depth⟩ :
      LockUse).unblock woken).goto thread pc

private theorem LockChanges.counts (s : LockUse) (thread : Nat)
    (lock : Lock (List Nat)) (depth : Nat) (pc : LockPc) :
    LockChanges s thread
      (LockUse.goto ⟨lock, s.pc, Function.update s.depth thread depth⟩ thread
        pc) :=
  ⟨lock, depth, pc, none, by simp, rfl⟩

private theorem LockChanges.goes (s : LockUse) (thread : Nat)
    (lock : Lock (List Nat)) (pc : LockPc) :
    LockChanges s thread (LockUse.goto ⟨lock, s.pc, s.depth⟩ thread pc) := by
  have changes := counts s thread lock (s.depth thread) pc
  rwa [Function.update_eq_self] at changes

private theorem LockChanges.refl (s : LockUse) (thread : Nat) :
    LockChanges s thread s := by
  have changes := goes s thread s.lock (s.pc thread)
  rwa [LockUse.goto, Function.update_eq_self] at changes

/-- A statement writes its own thread's data and wakes a waiter at most. -/
theorem lockStatement_changes (returned : lockStatement s thread = .ok s') :
    LockChanges s thread s' := by
  cases at_pc : s.pc thread with
  | outside =>
      simp only [lockStatement, at_pc, Except.ok.injEq] at returned
      subst s'
      exact .refl s thread
  | blocked =>
      simp only [lockStatement, at_pc, Except.ok.injEq] at returned
      subst s'
      exact .refl s thread
  | acquireTest =>
      simp only [lockStatement, at_pc] at returned
      split at returned
      · cases returned
        exact .goes s thread _ _
      · cases returned
        exact .goes s thread _ _
  | semaDown =>
      simp only [lockStatement, at_pc, Call.bind_eq_ok_iff, Call.pure_eq_ok,
        Except.ok.injEq] at returned
      obtain ⟨⟨semaphore, waits⟩, _, rfl⟩ := returned
      exact .goes s thread _ _
  | setHolder =>
      simp only [lockStatement, at_pc] at returned
      cases returned
      exact .goes s thread _ _
  | assertCount =>
      simp only [lockStatement, at_pc, Call.bind_eq_ok_iff, Call.pure_eq_ok,
        Except.ok.injEq] at returned
      obtain ⟨_, _, rfl⟩ := returned
      exact .goes s thread _ _
  | setCount =>
      simp only [lockStatement, at_pc] at returned
      cases returned
      exact .counts s thread _ _ _
  | increment =>
      simp only [lockStatement, at_pc] at returned
      cases returned
      exact .counts s thread _ _ _
  | releaseAssert =>
      simp only [lockStatement, at_pc, Call.bind_eq_ok_iff, Call.pure_eq_ok,
        Except.ok.injEq] at returned
      obtain ⟨_, _, rfl⟩ := returned
      exact .goes s thread _ _
  | releaseTest =>
      simp only [lockStatement, at_pc] at returned
      split at returned
      · cases returned
        exact .goes s thread _ _
      · cases returned
        exact .goes s thread _ _
  | decrement =>
      simp only [lockStatement, at_pc] at returned
      cases returned
      exact .counts s thread _ _ _
  | releaseAssertOne =>
      simp only [lockStatement, at_pc, Call.bind_eq_ok_iff, Call.pure_eq_ok,
        Except.ok.injEq] at returned
      obtain ⟨_, _, rfl⟩ := returned
      exact .goes s thread _ _
  | clearHolder =>
      simp only [lockStatement, at_pc] at returned
      cases returned
      exact .counts s thread _ _ _
  | clearCount =>
      simp only [lockStatement, at_pc] at returned
      cases returned
      exact .goes s thread _ _
  | semaUp =>
      simp only [lockStatement, at_pc, Call.bind_eq_ok_iff, Call.pure_eq_ok,
        Except.ok.injEq] at returned
      obtain ⟨⟨semaphore, woken⟩, up, rfl⟩ := returned
      refine ⟨_, s.depth thread, _, woken, ?_, by
        rw [Function.update_eq_self]⟩
      intro waiter isWoken
      simp only [semaUp, Call.bind_eq_ok_iff, Call.pure_eq_ok, Except.ok.injEq,
        Prod.mk.injEq] at up
      obtain ⟨_, _, _, _, _, first⟩ := up
      rw [isWoken] at first
      exact List.mem_of_mem_head? first

theorem lockStatement_others (ok : LockOk owner s)
    (returned : lockStatement s thread = .ok s') {other : Nat}
    (different : other ≠ thread) :
    s'.depth other = s.depth other ∧
      (s'.pc other = s.pc other ∨
        (s.pc other = .blocked ∧ s'.pc other = .semaDown)) := by
  obtain ⟨lock, depth, pc, woken, waiting, rfl⟩ :=
    lockStatement_changes returned
  cases woken with
  | none =>
      simp [LockUse.unblock, LockUse.goto, different]
  | some waiter =>
      have asleep := (ok.mem_iff waiter).mp (waiting waiter rfl)
      by_cases isWaiter : other = waiter
      · subst other
        simp [LockUse.unblock, LockUse.goto, different, asleep]
      · simp [LockUse.unblock, LockUse.goto, different, isWaiter]

end Locks

end Simos
