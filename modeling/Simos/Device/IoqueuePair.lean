import Simos.Device.IoqueueSleep

/-!
# One producer and one consumer of an io queue

A thread finds the queue empty or full, and only then takes the lock of the
queue; it sleeps in `ioq_wait` without giving the lock back.  The two threads
sleep on each other exactly when one of them goes for the lock while the other
one sleeps with it (`ioq_notBothBlocked_iff`), and there is a run that ends so
(`ioq_bothBlocked`).
-/

namespace Simos

open Simos.Library

def InPair (producer consumer thread : Nat) (call : IoqCall) : Prop :=
  (thread = consumer ∧ call = .getchar) ∨
    (thread = producer ∧ call ≠ .getchar)

instance (producer consumer thread : Nat) (call : IoqCall) :
    Decidable (InPair producer consumer thread call) :=
  inferInstanceAs (Decidable (_ ∨ _))

def PairStep (producer consumer : Nat) :
    IoqUse → IoqEvent → IoqUse → Prop :=
  Guarded IoqStep fun _ event =>
    InPair producer consumer event.thread event.call

theorem inPair_of_all (turns : List (Nat × IoqCall))
    (roles : turns.all (fun turn => decide (InPair 2 1 turn.1 turn.2)) = true) :
    ∀ turn, turn ∈ turns → turn.1 ≠ 0 ∧ InPair 2 1 turn.1 turn.2 := by
  intro turn member
  have role := of_decide_eq_true (List.all_eq_true.mp roles turn member)
  refine ⟨?_, role⟩
  rcases role with ⟨consumer, _⟩ | ⟨producer, _⟩ <;> omega

def BothBlocked (left right : Nat) (s : IoqUse) : Prop :=
  (s.mode left).Asleep ∧ (s.mode right).Asleep

/-- A thread that goes for the lock finds its holder, if there is one,
awake. -/
def HolderAwake (s : IoqUse) (event : IoqEvent) : Prop :=
  s.GoesForLock event.thread event.call →
    ¬ (s.mode s.ioq.lock.holder).Asleep

/-- The invariant of a queue that is used by two threads. -/
structure PairOk (owner : Option Nat) (waiters : List Nat)
    (left right : Nat) (s : IoqUse) : Prop where
  ok : IoqOk owner waiters s
  alone : ∀ thread, thread ≠ left → thread ≠ right → s.mode thread = .outside
  free : owner = none → waiters = []

namespace PairOk

variable {owner owner' : Option Nat} {waiters waiters' : List Nat}
  {left right : Nat} {s s' : IoqUse} {call : IoqCall}

private theorem swap (pair : PairOk owner waiters left right s) :
    PairOk owner waiters right left s :=
  ⟨pair.ok, fun thread notRight notLeft => pair.alone thread notLeft notRight,
    pair.free⟩

/-- The holder of the lock is one of the two threads. -/
theorem holder_mem {holder : Nat}
    (pair : PairOk (some holder) waiters left right s) :
    holder = left ∨ holder = right := by
  by_contra neither
  rw [not_or] at neither
  have inWait := (pair.ok.inWait_iff holder).mpr rfl
  rw [pair.alone holder neither.1 neither.2] at inWait
  exact IoqMode.not_inWait_outside inWait

private theorem awake_of_free (pair : PairOk none waiters left right s)
    (thread : Nat) : ¬ (s.mode thread).Asleep := by
  rintro ⟨call, place, blocked⟩
  cases place with
  | lock =>
      have member := (pair.ok.mem_iff thread).mpr ⟨call, blocked⟩
      rw [pair.free rfl] at member
      cases member
  | wait =>
      have owned := (pair.ok.inWait_iff thread).mp ⟨call, Or.inl blocked⟩
      cases owned

/-- When the left thread holds the lock, only the right one can wait. -/
theorem waiter_eq (pair : PairOk (some left) waiters left right s)
    {waiter : Nat} (member : waiter ∈ waiters) : waiter = right := by
  obtain ⟨call, blocked⟩ := (pair.ok.mem_iff waiter).mp member
  by_contra notRight
  by_cases isLeft : waiter = left
  · have inWait := (pair.ok.inWait_iff left).mpr rfl
    rw [← isLeft, blocked] at inWait
    exact (IoqMode.not_inWait_lock call).1 inWait
  · rw [pair.alone waiter isLeft notRight] at blocked
    cases blocked

theorem head_of_blocked (pair : PairOk (some left) waiters left right s)
    {thread : Nat} (different : thread ≠ left)
    (asleep : (s.mode thread).Asleep) : waiters.head? = some right := by
  obtain ⟨call, place, blocked⟩ := asleep
  cases place with
  | lock =>
      have member := (pair.ok.mem_iff thread).mpr ⟨call, blocked⟩
      cases waiters with
      | nil =>
          cases member
      | cons first rest =>
          rw [pair.waiter_eq List.mem_cons_self]
          rfl
  | wait =>
      have owned := (pair.ok.inWait_iff thread).mp ⟨call, Or.inl blocked⟩
      exact (different (Option.some.inj owned).symm).elim

theorem tail_nil (pair : PairOk (some left) waiters left right s) :
    waiters.tail = [] := by
  have nodup := pair.ok.nodup
  cases waiters with
  | nil =>
      rfl
  | cons first rest =>
      cases rest with
      | nil =>
          rfl
      | cons second rest =>
          have same : first = second :=
            (pair.waiter_eq (by simp)).trans (pair.waiter_eq (by simp)).symm
          exact ((List.nodup_cons.mp nodup).1 (by simp [same])).elim

theorem outcome (pair : PairOk owner waiters left right s)
    (different : left ≠ right) (next : IoqOk owner' waiters' s')
    (outcome : IoqOutcome s left call s' owner waiters owner' waiters') :
    PairOk owner' waiters' left right s' ∧
      (¬ BothBlocked left right s' ↔
        (s.GoesForLock left call →
          ¬ (s.mode s.ioq.lock.holder).Asleep)) := by
  have alone : ∀ changed : IoqUse,
      (∀ thread, thread ≠ left →
        SameOrWoken (s.mode thread) (changed.mode thread)) →
      ∀ thread, thread ≠ left → thread ≠ right →
        changed.mode thread = .outside := by
    intro changed modes thread notLeft notRight
    have before := pair.alone thread notLeft notRight
    have awake : ¬ (s.mode thread).Asleep := by
      rw [before]
      exact IoqMode.not_asleep_outside
    rw [(modes thread notLeft).eq_of_awake awake, before]
  have updated : ∀ mode, s'.mode = Function.update s.mode left mode →
      ∀ thread, thread ≠ left →
        SameOrWoken (s.mode thread) (s'.mode thread) := by
    intro mode changed thread notLeft
    rw [changed, Function.update_of_ne notLeft]
    exact Or.inl rfl
  have lock := pair.ok.lock
  cases outcome with
  | @refused holder _ goes modes =>
      have isRight : holder = right := by
        rcases pair.holder_mem with isLeft | isRight
        · have inWait := (pair.ok.inWait_iff left).mpr (by rw [isLeft])
          rcases goes with ⟨outside, _⟩ | woken
          · rw [outside] at inWait
            exact (IoqMode.not_inWait_outside inWait).elim
          · rw [woken] at inWait
            exact ((IoqMode.not_inWait_lock call).2 inWait).elim
        · exact isRight
      subst isRight
      refine ⟨⟨next, alone s' (updated _ modes), fun none => by cases none⟩, ?_⟩
      have isHolder : s.ioq.lock.holder = holder := by
        rw [lock]
        rfl
      rw [isHolder]
      constructor
      · intro notBoth _ asleep
        refine notBoth ⟨?_, ?_⟩
        · rw [modes, Function.update_self]
          exact ⟨call, .lock, rfl⟩
        · rwa [modes, Function.update_of_ne different.symm]
      · intro awake both
        refine awake goes ?_
        have asleep := both.2
        rwa [modes, Function.update_of_ne different.symm] at asleep
  | takes goes modes =>
      refine ⟨⟨next, alone s' (updated _ modes), fun none => by cases none⟩, ?_⟩
      constructor
      · intro _ _
        exact pair.awake_of_free _
      · intro _ both
        have asleep := both.2
        rw [modes, Function.update_of_ne different.symm] at asleep
        exact pair.awake_of_free right asleep
  | returns stays outside modes =>
      refine ⟨⟨next, alone s' modes, pair.free⟩, ?_⟩
      constructor
      · intro _ goes
        exact (stays goes).elim
      · intro _ both
        have asleep := both.1
        rw [outside] at asleep
        exact IoqMode.not_asleep_outside asleep
  | resumes woken modes roused =>
      refine ⟨⟨next, alone s' modes, fun _ => pair.tail_nil⟩, ?_⟩
      constructor
      · rintro _ (⟨outside, _⟩ | atLock)
        · rw [woken] at outside
          cases outside
        · rw [woken] at atLock
          cases atLock
      · intro _ both
        have asleep := both.2
        have before := (modes right different.symm).eq_of_asleep asleep
        rw [before] at asleep
        refine roused right (pair.head_of_blocked different.symm asleep) ?_
        rw [before]
        exact asleep

theorem step {event : IoqEvent}
    (pair : PairOk owner waiters left right s) (different : left ≠ right)
    (taken : IoqStep s event s')
    (who : event.thread = left ∨ event.thread = right) :
    (∃ owner' waiters', PairOk owner' waiters' left right s') ∧
      (¬ BothBlocked left right s' ↔ HolderAwake s event) := by
  cases taken with
  | @piece _ thread call place ending nonNull ready returned =>
      obtain ⟨s', ending, owner', waiters', called, next, outcome⟩ :=
        pair.ok.piece nonNull ready
      rw [called, Except.ok.injEq, Prod.mk.injEq] at returned
      obtain ⟨rfl, _⟩ := returned
      rcases who with rfl | rfl
      · have moved := pair.outcome different next outcome
        exact ⟨⟨owner', waiters', moved.1⟩, moved.2⟩
      · have moved := pair.swap.outcome different.symm next outcome
        refine ⟨⟨owner', waiters', moved.1.swap⟩, ?_⟩
        rw [← HolderAwake] at moved
        rw [← moved.2, BothBlocked, BothBlocked, and_comm]

end PairOk

/-- In a run of one producer and one consumer, the two never sleep at once
exactly when neither of them ever goes for the lock of the queue while the
other one sleeps with it. -/
theorem ioq_notBothBlocked_iff {producer consumer : Nat}
    (different : producer ≠ consumer) {ioq : Ioqueue}
    {trace : List (IoqEvent × IoqUse)} {last : IoqUse}
    (run : Run (PairStep producer consumer) (ioqUse (ioqueueInit ioq)) trace
      last) :
    (∀ event state, (event, state) ∈ trace →
        ¬ BothBlocked producer consumer state) ↔
      Run (Guarded (PairStep producer consumer) HolderAwake)
        (ioqUse (ioqueueInit ioq)) trace last := by
  have who : ∀ state event next, PairStep producer consumer state event next →
      event.thread = producer ∨ event.thread = consumer := by
    intro state event next taken
    rcases taken.2 with ⟨isConsumer, _⟩ | ⟨isProducer, _⟩
    · exact Or.inr isConsumer
    · exact Or.inl isProducer
  have kept : ∀ state event next,
      (∃ owner waiters, PairOk owner waiters producer consumer state) →
      PairStep producer consumer state event next →
      ∃ owner waiters, PairOk owner waiters producer consumer next := by
    intro state event next held taken
    obtain ⟨owner, waiters, pair⟩ := held
    exact (pair.step different taken.1 (who state event next taken)).1
  have exactStep : ∀ state event next,
      (∃ owner waiters, PairOk owner waiters producer consumer state) →
      ¬ BothBlocked producer consumer state →
      PairStep producer consumer state event next →
      (¬ BothBlocked producer consumer next ↔ HolderAwake state event) := by
    intro state event next held _ taken
    obtain ⟨owner, waiters, pair⟩ := held
    exact (pair.step different taken.1 (who state event next taken)).2
  refine run.forall_iff_guarded ?_ ?_ kept exactStep
  · exact ⟨none, [], IoqOk.start ioq, fun _ _ _ => rfl, fun _ => rfl⟩
  · intro both
    exact IoqMode.not_asleep_outside both.1

/-- The statement at a run where the producer wakes the consumer. -/
theorem ioq_notBothBlocked_iff_woken :
    ∃ trace last,
      Run (PairStep 2 1) (ioqUse (ioqueueInit blankIoqueue)) trace last ∧
        last.mode 1 = .woken .getchar .wait ∧
        ((∀ event state, (event, state) ∈ trace → ¬ BothBlocked 2 1 state) ↔
          Run (Guarded (PairStep 2 1) HolderAwake)
            (ioqUse (ioqueueInit blankIoqueue)) trace last) := by
  have computed : (do
      let s ← ioqTurns (ioqUse (ioqueueInit blankIoqueue))
        [(1, .getchar), (2, .putchar 65)]
      return decide (s.mode 1 = .woken .getchar .wait) : Call Bool) =
        .ok true := by
    decide +kernel
  simp only [Call.bind_eq_ok_iff, Call.pure_eq_ok, Except.ok.injEq,
    decide_eq_true_eq] at computed
  obtain ⟨last, returned, woken⟩ := computed
  have roles : [(1, IoqCall.getchar), (2, IoqCall.putchar 65)].all
      (fun turn => decide (InPair 2 1 turn.1 turn.2)) = true := by
    decide
  obtain ⟨trace, run⟩ := ioqTurns_run _ (inPair_of_all _ roles) returned
  exact ⟨trace, last, run, woken, ioq_notBothBlocked_iff (by decide) run⟩

/-- The consumer finds the queue empty and sleeps; the producer fills the
queue and waits for the lock; the consumer empties the queue and takes the
lock again before the producer runs. -/
private def bothBlockedTurns : List (Nat × IoqCall) :=
  (1, .getchar) :: List.replicate 64 (2, .putchar 65) ++
    List.replicate 64 (1, .getchar) ++ [(2, .putchar 65)]

/-- The producer 2 and the consumer 1 sleep on each other. -/
theorem ioq_bothBlocked :
    ∃ trace last,
      Run (PairStep 2 1) (ioqUse (ioqueueInit blankIoqueue)) trace last ∧
        BothBlocked 2 1 last := by
  have computed : (do
      let s ← ioqTurns (ioqUse (ioqueueInit blankIoqueue)) bothBlockedTurns
      return decide (s.mode 2 = .blocked (.putchar 65) .lock ∧
        s.mode 1 = .blocked .getchar .wait) : Call Bool) = .ok true := by
    decide +kernel
  simp only [Call.bind_eq_ok_iff, Call.pure_eq_ok, Except.ok.injEq,
    decide_eq_true_eq] at computed
  obtain ⟨last, returned, producer, consumer⟩ := computed
  have roles : bothBlockedTurns.all
      (fun turn => decide (InPair 2 1 turn.1 turn.2)) = true := by
    decide
  obtain ⟨trace, run⟩ := ioqTurns_run _ (inPair_of_all _ roles) returned
  exact ⟨trace, last, run, ⟨_, _, producer⟩, ⟨_, _, consumer⟩⟩

end Simos
