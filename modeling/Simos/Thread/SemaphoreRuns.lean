import Simos.Library.Runs
import Simos.Thread.Sync

/-!
# Runs of one semaphore

Any number of threads call `sema_down` and `sema_up` on a binary semaphore in
any order.  A round of the loop of `sema_down` and a call of `sema_up` run
with interrupts off; which thread runs next is left open.  A thread inside
`sema_down` is either blocked in `thread_block`, or it was woken and has yet
to test the value again.
-/

namespace Simos

open Simos.Library

/-- Where a thread stands with respect to the semaphore. -/
inductive SemaMode where
  | outside
  | blocked
  | woken
  deriving DecidableEq, Repr

structure SemaUse where
  sema : Semaphore (List Nat)
  mode : Nat → SemaMode

/-- A thread tests the semaphore, or frees it and wakes a waiter. -/
inductive SemaEvent where
  | semaDown (thread : Nat)
  | semaUp (thread : Nat) (woken : Option Nat)

def SemaMode.afterRound (waits : Bool) : SemaMode :=
  if waits then .blocked else .outside

/-- The modes after the waiter, if there is one, was unblocked. -/
def wakeMode (mode : Nat → SemaMode) : Option Nat → Nat → SemaMode
  | none => mode
  | some woken => Function.update mode woken .woken

/-- One atomic piece.  `sema_down` is entered from outside, or its loop goes
on after the thread was woken; `sema_up` is not called on a free semaphore. -/
inductive SemaStep : SemaUse → SemaEvent → SemaUse → Prop
  | semaDown {s : SemaUse} {thread : Nat} {sema : Semaphore (List Nat)}
      {waits : Bool} :
      s.mode thread ≠ .blocked →
      semaDownRound s.sema thread = .ok (sema, waits) →
      SemaStep s (.semaDown thread)
        ⟨sema, Function.update s.mode thread (SemaMode.afterRound waits)⟩
  | semaUp {s : SemaUse} {thread : Nat} {sema : Semaphore (List Nat)}
      {woken : Option Nat} :
      s.mode thread = .outside → s.sema.value ≠ 1 →
      Simos.semaUp s.sema = .ok (sema, woken) →
      SemaStep s (.semaUp thread woken) ⟨sema, wakeMode s.mode woken⟩

/-- The waiter queue is the list of the blocked threads, and a free semaphore
with waiters has a thread on the way that will test it. -/
structure SemaOk (s : SemaUse) : Prop where
  binary : s.sema.value ≤ 1
  nodup : s.sema.waiterQueue.Nodup
  mem_iff : ∀ thread, thread ∈ s.sema.waiterQueue ↔ s.mode thread = .blocked
  pending : s.sema.value = 1 → s.sema.waiterQueue ≠ [] →
    ∃ thread, s.mode thread = .woken

namespace SemaOk

variable {s s' : SemaUse}

private theorem start {values : Nat} (binary : values ≤ 1) :
    SemaOk ⟨semaInit values, fun _ => .outside⟩ where
  binary := binary
  nodup := List.nodup_nil
  mem_iff := by simp [semaInit]
  pending := fun _ waits => (waits rfl).elim

private theorem semaDown (ok : SemaOk s) {thread : Nat}
    {sema : Semaphore (List Nat)}
    {waits : Bool} (awake : s.mode thread ≠ .blocked)
    (returned : semaDownRound s.sema thread = .ok (sema, waits)) :
    SemaOk
      ⟨sema, Function.update s.mode thread (SemaMode.afterRound waits)⟩ := by
  obtain ⟨⟨value, waiters⟩, mode⟩ := s
  have absent : thread ∉ waiters := (ok.mem_iff thread).not.mpr awake
  have binary : value ≤ 1 := ok.binary
  rcases Nat.le_one_iff_eq_zero_or_eq_one.mp binary with rfl | rfl
  · rw [semaDownRound_taken absent, Except.ok.injEq, Prod.mk.injEq] at returned
    obtain ⟨rfl, rfl⟩ := returned
    refine ⟨Nat.zero_le 1, ?_, ?_, fun free => ?_⟩
    · rw [(List.perm_append_singleton thread waiters).nodup_iff]
      exact List.nodup_cons.mpr ⟨absent, ok.nodup⟩
    · intro other
      have old := ok.mem_iff other
      by_cases same : other = thread
      · simp [same, SemaMode.afterRound]
      · simpa [same] using old
    · cases free
  · rw [semaDownRound_free, Except.ok.injEq, Prod.mk.injEq] at returned
    obtain ⟨rfl, rfl⟩ := returned
    refine ⟨Nat.zero_le 1, ok.nodup, ?_, fun free => ?_⟩
    · intro other
      have old := ok.mem_iff other
      by_cases same : other = thread
      · simp [same, absent, SemaMode.afterRound]
      · simpa [same] using old
    · cases free

private theorem semaUp (ok : SemaOk s) {sema : Semaphore (List Nat)}
    {woken : Option Nat} (taken : s.sema.value ≠ 1)
    (returned : Simos.semaUp s.sema = .ok (sema, woken)) :
    SemaOk ⟨sema, wakeMode s.mode woken⟩ := by
  obtain ⟨⟨value, waiters⟩, mode⟩ := s
  have zero : value = 0 := by
    have binary : value ≤ 1 := ok.binary
    have notOne : value ≠ 1 := taken
    omega
  subst zero
  rw [semaUp_taken, Except.ok.injEq, Prod.mk.injEq] at returned
  obtain ⟨rfl, rfl⟩ := returned
  have nodup := ok.nodup
  have mem_iff := ok.mem_iff
  cases waiters with
  | nil =>
      exact ⟨Nat.le_refl 1, nodup, mem_iff, fun _ waits => (waits rfl).elim⟩
  | cons first rest =>
      simp only [List.nodup_cons] at nodup
      refine ⟨Nat.le_refl 1, nodup.2, ?_, fun _ _ => ⟨first, ?_⟩⟩
      · intro other
        have old := mem_iff other
        by_cases same : other = first
        · subst other
          simp [wakeMode, nodup.1]
        · simpa [wakeMode, same] using old
      · simp [wakeMode]

private theorem step (ok : SemaOk s) {event : SemaEvent}
    (taken : SemaStep s event s') : SemaOk s' := by
  cases taken with
  | semaDown awake returned =>
      exact ok.semaDown awake returned
  | semaUp _ busy returned =>
      exact ok.semaUp busy returned

end SemaOk

/-- A woken thread was taken out of the queue by an earlier `sema_up`. -/
theorem woken_of_run {first last : SemaUse}
    {trace : List (SemaEvent × SemaUse)}
    (fresh : ∀ thread, first.mode thread ≠ .woken)
    (run : Run SemaStep first trace last) :
    ∀ thread, last.mode thread = .woken →
      ∃ caller state, (.semaUp caller (some thread), state) ∈ trace := by
  induction run with
  | start =>
      exact fun thread woken => (fresh thread woken).elim
  | @next trace current last event _ taken inductionHypothesis =>
      intro thread woken
      have earlier : current.mode thread = .woken →
          ∃ caller state, (.semaUp caller (some thread), state) ∈
            trace ++ [(event, last)] := by
        intro before
        obtain ⟨caller, state, member⟩ := inductionHypothesis thread before
        exact ⟨caller, state, List.mem_append_left _ member⟩
      cases taken with
      | @semaDown tester _ waits _ _ =>
          by_cases same : thread = tester
          · cases waits <;> simp [same, SemaMode.afterRound] at woken
          · exact earlier (by simpa [same] using woken)
      | @semaUp caller _ wokenThread _ _ _ =>
          cases wokenThread with
          | none =>
              exact earlier woken
          | some other =>
              by_cases same : thread = other
              · subst other
                exact ⟨caller, _, List.mem_append_right _ List.mem_cons_self⟩
              · exact earlier (by simpa [wakeMode, same] using woken)

/-- The waiter queue holds exactly the threads blocked inside `sema_down`,
each once; when the semaphore is free and has waiters, some thread that an
earlier `sema_up` took out of the queue is awake and has not yet tested the
value again. -/
theorem semaphore_wakeup_pending {values : Nat} {last : SemaUse}
    {trace : List (SemaEvent × SemaUse)} (binary : values ≤ 1)
    (run : Run SemaStep ⟨semaInit values, fun _ => .outside⟩ trace last) :
    last.sema.waiterQueue.Nodup ∧
      (∀ thread,
        thread ∈ last.sema.waiterQueue ↔ last.mode thread = .blocked) ∧
      (last.sema.value = 1 → last.sema.waiterQueue ≠ [] →
        ∃ thread caller state,
          (.semaUp caller (some thread), state) ∈ trace ∧
            last.mode thread = .woken) := by
  have ok := run.invariant (SemaOk.start binary) fun _ _ _ ok taken =>
    ok.step taken
  refine ⟨ok.nodup, ok.mem_iff, fun free waits => ?_⟩
  obtain ⟨thread, woken⟩ := ok.pending free waits
  obtain ⟨caller, state, member⟩ :=
    woken_of_run (fun _ mode => by cases mode) run thread woken
  exact ⟨thread, caller, state, member, woken⟩

/-- The statement at a semaphore that thread 1 takes, threads 2 and 3 wait for
and thread 1 frees again. -/
theorem semaphore_wakeup_pending_three :
    ∃ trace last,
      Run SemaStep ⟨semaInit 1, fun _ => .outside⟩ trace last ∧
        last.sema.value = 1 ∧ last.sema.waiterQueue = [3] ∧
        ∃ thread caller state,
          (.semaUp caller (some thread), state) ∈ trace ∧
            last.mode thread = .woken := by
  have first := Run.next Run.start
    (show SemaStep ⟨semaInit 1, fun _ => .outside⟩ (.semaDown 1) _ from
      .semaDown (by simp) rfl)
  have second := first.next
    (show SemaStep _ (.semaDown 2) _ from .semaDown (by decide) rfl)
  have third := second.next
    (show SemaStep _ (.semaDown 3) _ from .semaDown (by decide) rfl)
  have fourth := third.next
    (show SemaStep _ (.semaUp 1 _) _ from .semaUp (by decide) (by decide) rfl)
  exact ⟨_, _, fourth, rfl, rfl,
    (semaphore_wakeup_pending (Nat.le_refl 1) fourth).2.2 rfl (by decide)⟩

end Simos
