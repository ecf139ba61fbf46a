import Simos.Device.IoqueueRuns

/-!
# Who sleeps at an io queue

A thread that has taken the lock of the queue goes to sleep in `ioq_wait`
before it gives up the processor, and releases the lock when it runs again.
`IoqOk` names this thread.

* `IoqOutcome` lists what a piece of a call can do to the lock and to the
  threads that sleep;
* `ioq_piece_returns`: no `ASSERT` of the queue or of its lock fails.
-/

namespace Simos

open Simos.Library

/-- The next piece of the call starts with an attempt to take the lock. -/
def IoqUse.GoesForLock (s : IoqUse) (thread : Nat) (call : IoqCall) : Prop :=
  (s.mode thread = .outside ∧ s.ioq.mustWait call = true) ∨
    s.mode thread = .woken call .lock

/-- The waiter pointers while the lock is held by a thread in this mode. -/
def registered (owner : Nat) : IoqMode → IoqWaiter → Nat
  | .blocked call .wait, waiter => if waiter = call.waiter then owner else 0
  | .outside, _ | .blocked _ .lock, _ | .woken _ _, _ => 0

def IoqMode.InWait (mode : IoqMode) : Prop :=
  ∃ call, mode = .blocked call .wait ∨ mode = .woken call .wait

def IoqMode.Asleep (mode : IoqMode) : Prop :=
  ∃ call place, mode = .blocked call place

/-- The thread stands where it stood, or it slept and was woken. -/
def SameOrWoken (before after : IoqMode) : Prop :=
  after = before ∨ (before.Asleep ∧ ¬ after.Asleep)

/-- The waiter pointers of the queue, given the holder of its lock. -/
def Ioqueue.Registers (ioq : Ioqueue) (mode : Nat → IoqMode) :
    Option Nat → Prop
  | none => ∀ waiter, ioq.waiter waiter = 0
  | some owner => ∀ waiter,
      ioq.waiter waiter = registered owner (mode owner) waiter

/-- The invariant, with the holder of the lock and the threads that wait for
it. -/
structure IoqOk (owner : Option Nat) (waiters : List Nat) (s : IoqUse) :
    Prop where
  zero : s.mode 0 = .outside
  lock : s.ioq.lock = heldLock waiters owner
  nodup : waiters.Nodup
  mem_iff : ∀ thread,
    thread ∈ waiters ↔ ∃ call, s.mode thread = .blocked call .lock
  inWait_iff : ∀ thread, (s.mode thread).InWait ↔ owner = some thread
  registers : s.ioq.Registers s.mode owner

namespace SameOrWoken

variable {before middle after : IoqMode}

private theorem trans (first : SameOrWoken before middle)
    (second : SameOrWoken middle after) : SameOrWoken before after := by
  rcases second with same | ⟨slept, awake⟩
  · rw [same]
    exact first
  · rcases first with same | ⟨_, awakeBefore⟩
    · rw [← same]
      exact Or.inr ⟨slept, awake⟩
    · exact (awakeBefore slept).elim

theorem eq_of_awake (changed : SameOrWoken before after)
    (awake : ¬ before.Asleep) : after = before := by
  rcases changed with same | ⟨slept, _⟩
  · exact same
  · exact (awake slept).elim

theorem eq_of_asleep (changed : SameOrWoken before after)
    (asleep : after.Asleep) : after = before := by
  rcases changed with same | ⟨_, awake⟩
  · exact same
  · exact (awake asleep).elim

end SameOrWoken

theorem IoqMode.not_asleep_outside : ¬ IoqMode.outside.Asleep := by
  rintro ⟨call, place, asleep⟩
  cases asleep

private theorem IoqMode.not_asleep_woken (call : IoqCall) (place : IoqPlace) :
    ¬ (IoqMode.woken call place).Asleep := by
  rintro ⟨call', place', asleep⟩
  cases asleep

theorem IoqMode.not_inWait_outside : ¬ IoqMode.outside.InWait := by
  rintro ⟨call, waits | waits⟩ <;> cases waits

theorem IoqMode.not_inWait_lock (call : IoqCall) :
    ¬ (IoqMode.blocked call .lock).InWait ∧
      ¬ (IoqMode.woken call .lock).InWait := by
  constructor <;> rintro ⟨call, waits | waits⟩ <;> cases waits

@[simp]
theorem Ioqueue.setWaiter_waiter (ioq : Ioqueue) (task : Nat)
    (changed read : IoqWaiter) :
    (ioq.setWaiter task changed).waiter read =
      if read = changed then task else ioq.waiter read := by
  cases changed <;> cases read <;> rfl

@[simp]
theorem Ioqueue.setWaiter_lock (ioq : Ioqueue) (task : Nat)
    (waiter : IoqWaiter) : (ioq.setWaiter task waiter).lock = ioq.lock := by
  cases waiter <;> rfl

namespace IoqOk

variable {owner : Option Nat} {waiters : List Nat} {s s' : IoqUse}
  {thread holder : Nat}

theorem start (ioq : Ioqueue) : IoqOk none [] (ioqUse (ioqueueInit ioq)) where
  zero := rfl
  lock := rfl
  nodup := List.nodup_nil
  mem_iff := by simp [ioqUse]
  inWait_iff := fun thread => by
    simpa [ioqUse] using IoqMode.not_inWait_outside
  registers := fun waiter => by cases waiter <;> rfl

/-- The mode of a thread that does not sleep may be replaced by that of a
running thread. -/
theorem leave (ok : IoqOk owner waiters s)
    (awake : ∀ call, s.mode thread ≠ .blocked call .lock)
    (notInWait : ¬ (s.mode thread).InWait) :
    IoqOk owner waiters (s.goto thread .outside) := by
  have notOwner : owner ≠ some thread := fun same =>
    notInWait ((ok.inWait_iff thread).mpr same)
  refine ⟨?_, ok.lock, ok.nodup, ?_, ?_, ?_⟩
  · by_cases zero : (0 : Nat) = thread
    · simp [IoqUse.goto, zero]
    · simpa [IoqUse.goto, zero] using ok.zero
  · intro other
    rw [ok.mem_iff other]
    by_cases same : other = thread
    · subst other
      simp [IoqUse.goto, awake]
    · simp [IoqUse.goto, same]
  · intro other
    rw [← ok.inWait_iff other]
    by_cases same : other = thread
    · subst other
      simp [IoqUse.goto, notInWait, IoqMode.not_inWait_outside]
    · simp [IoqUse.goto, same]
  · have registers := ok.registers
    cases owner with
    | none =>
        exact registers
    | some owner =>
        have different : owner ≠ thread := fun same =>
          notOwner (congrArg some same)
        simpa [Ioqueue.Registers, IoqUse.goto, different] using registers

/-- A round of `sema_down` takes the free lock, and the caller registers
itself and sleeps. -/
theorem takes (ok : IoqOk none waiters s) (call : IoqCall)
    (nonNull : thread ≠ 0) (outside : s.mode thread = .outside) :
    ∃ s', s.afterRound thread call (heldLock waiters (some thread), false) =
        .ok (s', .blocked) ∧
      IoqOk (some thread) waiters s' ∧
      s'.mode = Function.update s.mode thread (.blocked call .wait) := by
  have unregistered : (s.setLock (heldLock waiters (some thread))).ioq.waiter
      call.waiter = 0 := by
    have registers := ok.registers call.waiter
    cases call <;> exact registers
  have absent : thread ∉ waiters := by
    rw [ok.mem_iff thread, outside]
    simp
  simp only [IoqUse.afterRound, IoqUse.ioqWait, Call.assert_of unregistered,
    Call.ok_bind, Call.pure_eq_ok, Bool.false_eq_true, if_false]
  refine ⟨_, rfl, ⟨?_, ?_, ok.nodup, ?_, ?_, ?_⟩, rfl⟩
  · simpa [IoqUse.goto, IoqUse.setLock, nonNull.symm] using ok.zero
  · simp [IoqUse.goto, IoqUse.setLock]
  · intro other
    rw [ok.mem_iff other]
    by_cases same : other = thread
    · subst other
      simp [IoqUse.goto, outside]
    · simp [IoqUse.goto, IoqUse.setLock, same]
  · intro other
    have old := ok.inWait_iff other
    by_cases same : other = thread
    · subst other
      simp only [IoqUse.goto, Function.update_self]
      exact ⟨fun _ => trivial, fun _ => ⟨call, Or.inl rfl⟩⟩
    · simpa [IoqUse.goto, IoqUse.setLock, same, Ne.symm same] using old
  · intro waiter
    have registers := ok.registers waiter
    have same : (s.setLock (heldLock waiters (some thread))).ioq.waiter waiter
        = s.ioq.waiter waiter := by
      cases waiter <;> rfl
    simp [IoqUse.goto, registered, same, registers]

theorem refused (ok : IoqOk (some holder) waiters s) (call : IoqCall)
    (nonNull : thread ≠ 0) (outside : s.mode thread = .outside) :
    ∃ s', s.afterRound thread call
          (heldLock (waiters ++ [thread]) (some holder), true) =
        .ok (s', .blocked) ∧
      IoqOk (some holder) (waiters ++ [thread]) s' ∧
      s'.mode = Function.update s.mode thread (.blocked call .lock) := by
  have absent : thread ∉ waiters := by
    rw [ok.mem_iff thread, outside]
    simp
  have notHolder : holder ≠ thread := by
    rintro rfl
    refine IoqMode.not_inWait_outside ?_
    rw [← outside, ok.inWait_iff]
  refine ⟨_, rfl, ⟨?_, rfl, ?_, ?_, ?_, ?_⟩, rfl⟩
  · simpa [IoqUse.goto, IoqUse.setLock, nonNull.symm] using ok.zero
  · rw [(List.perm_append_singleton thread waiters).nodup_iff]
    exact List.nodup_cons.mpr ⟨absent, ok.nodup⟩
  · intro other
    have old := ok.mem_iff other
    by_cases same : other = thread
    · subst other
      simp [IoqUse.goto]
    · simpa [IoqUse.goto, IoqUse.setLock, same] using old
  · intro other
    have old := ok.inWait_iff other
    by_cases same : other = thread
    · subst other
      simpa [IoqUse.goto, notHolder] using (IoqMode.not_inWait_lock call).1
    · simpa [IoqUse.goto, IoqUse.setLock, same] using old
  · intro waiter
    have registers := ok.registers waiter
    have same : (s.setLock (heldLock (waiters ++ [thread])
        (some holder))).ioq.waiter waiter = s.ioq.waiter waiter := by
      cases waiter <;> rfl
    simp only [IoqUse.goto, Function.update_of_ne notHolder]
    exact same.trans registers

private theorem setChars (ok : IoqOk owner waiters s) (buff : Nat → UInt8)
    (front tail : Nat) :
    IoqOk owner waiters { s with ioq := { s.ioq with buff, front, tail } } := by
  refine ⟨ok.zero, ok.lock, ok.nodup, ok.mem_iff, ok.inWait_iff, ?_⟩
  have registers := ok.registers
  cases owner with
  | none =>
      intro waiter
      have old := registers waiter
      cases waiter <;> exact old
  | some owner =>
      intro waiter
      have old := registers waiter
      cases waiter <;> exact old

private theorem wakes (ok : IoqOk owner waiters s) (waiter : IoqWaiter) :
    ∃ s', s.wakeRegistered waiter = .ok s' ∧ IoqOk owner waiters s' ∧
      ∀ other, SameOrWoken (s.mode other) (s'.mode other) := by
  by_cases nobody : s.ioq.waiter waiter = 0
  · refine ⟨s, ?_, ok, fun other => Or.inl rfl⟩
    simp [IoqUse.wakeRegistered, nobody]
  · have registers := ok.registers
    cases owner with
    | none =>
        exact (nobody (registers waiter)).elim
    | some holder =>
        have pointer := registers waiter
        -- the pointer is not `NULL` only while the holder sleeps in `ioq_wait`
        have sleeps : ∃ call, s.mode holder = .blocked call .wait ∧
            waiter = call.waiter ∧ s.ioq.waiter waiter = holder := by
          rw [pointer] at nobody ⊢
          cases mode : s.mode holder with
          | outside =>
              simp [mode, registered] at nobody
          | woken call place =>
              simp [mode, registered] at nobody
          | blocked call place =>
              cases place with
              | lock =>
                  simp [mode, registered] at nobody
              | wait =>
                  by_cases same : waiter = call.waiter
                  · exact ⟨call, rfl, same, by simp [registered, same]⟩
                  · simp [mode, registered, same] at nobody
        obtain ⟨call, asleep, same, isHolder⟩ := sleeps
        have notNull : holder ≠ 0 := isHolder ▸ nobody
        refine ⟨{ s with ioq := s.ioq.setWaiter 0 waiter }.goto holder
          (.woken call .wait), ?_, ?_, ?_⟩
        · simp [IoqUse.wakeRegistered, IoqUse.ioqWakeup, isHolder, notNull,
            IoqUse.threadUnblock, asleep, Call.assert_of, IoqUse.goto]
        · refine ⟨?_, ?_, ok.nodup, ?_, ?_, ?_⟩
          · simpa [IoqUse.goto, notNull.symm] using ok.zero
          · simpa [IoqUse.goto] using ok.lock
          · intro other
            rw [ok.mem_iff other]
            by_cases isHolder : other = holder
            · subst other
              simp [IoqUse.goto, asleep]
            · simp [IoqUse.goto, isHolder]
          · intro other
            rw [← ok.inWait_iff other]
            by_cases isHolder : other = holder
            · subst other
              simp only [IoqUse.goto, Function.update_self, asleep]
              exact ⟨fun _ => ⟨call, Or.inl rfl⟩, fun _ => ⟨call, Or.inr rfl⟩⟩
            · simp [IoqUse.goto, isHolder]
          · intro read
            have old := registers read
            rw [asleep] at old
            by_cases changed : read = waiter
            · simp [IoqUse.goto, registered, changed]
            · have notCall : read ≠ call.waiter := same ▸ changed
              simpa [IoqUse.goto, registered, changed, notCall] using old
        · intro other
          by_cases isHolder : other = holder
          · subst other
            refine Or.inr ⟨⟨call, .wait, asleep⟩, ?_⟩
            simpa [IoqUse.goto] using IoqMode.not_asleep_woken call .wait
          · exact Or.inl (by simp [IoqUse.goto, isHolder])

private theorem finishes (ok : IoqOk owner waiters s) (call : IoqCall)
    (outside : s.mode thread = .outside) :
    ∃ s' ending, s.callEnd thread call = .ok (s', ending) ∧
      IoqOk owner waiters s' ∧ s'.mode thread = .outside ∧
      ∀ other, other ≠ thread →
        SameOrWoken (s.mode other) (s'.mode other) := by
  have chars : ∃ changed waiter ending, IoqOk owner waiters changed ∧
      changed.mode = s.mode ∧
      s.callEnd thread call = do
        let s ← changed.wakeRegistered waiter
        return (s.goto thread .outside, ending) := by
    cases call with
    | getchar =>
        exact ⟨_, _, _, ok.setChars s.ioq.buff s.ioq.front
          (ioqNextPos s.ioq.tail), rfl, rfl⟩
    | putchar ch =>
        exact ⟨_, _, _, ok.setChars _ (ioqNextPos s.ioq.front) s.ioq.tail,
          rfl, rfl⟩
  obtain ⟨changed, waiter, ending, changedOk, sameMode, called⟩ := chars
  obtain ⟨woken, waked, wokenOk, modes⟩ := changedOk.wakes waiter
  rw [sameMode] at modes
  have stays : woken.mode thread = .outside := by
    rw [(modes thread).eq_of_awake, outside]
    rw [outside]
    exact IoqMode.not_asleep_outside
  refine ⟨woken.goto thread .outside, ending, ?_, ?_, ?_, ?_⟩
  · rw [called, waked]
    rfl
  · refine wokenOk.leave ?_ ?_
    · simp [stays]
    · rw [stays]
      exact IoqMode.not_inWait_outside
  · simp [IoqUse.goto]
  · intro other different
    simp only [IoqUse.goto, Function.update_of_ne different]
    exact modes other

/-- `lock_release` by a thread that was woken in `ioq_wait`. -/
theorem releases (ok : IoqOk (some thread) waiters s) {call : IoqCall}
    (woken : s.mode thread = .woken call .wait) :
    ∃ s', (s.goto thread .outside).lockRelease thread = .ok s' ∧
      IoqOk none waiters.tail s' ∧ s'.mode thread = .outside ∧
      (∀ other, other ≠ thread →
        SameOrWoken (s.mode other) (s'.mode other)) ∧
      ∀ first, waiters.head? = some first →
        first ≠ thread ∧ ¬ (s'.mode first).Asleep := by
  have nonNull : thread ≠ 0 := by
    rintro rfl
    rw [ok.zero] at woken
    cases woken
  have empty : ∀ waiter, s.ioq.waiter waiter = 0 := by
    intro waiter
    have pointer := ok.registers waiter
    rw [woken] at pointer
    exact pointer
  have alone : ∀ other, other ≠ thread → ¬ (s.mode other).InWait := by
    intro other different inWait
    exact different (Option.some.inj ((ok.inWait_iff other).mp inWait)).symm
  simp only [IoqUse.lockRelease,
    show (s.goto thread .outside).ioq.lock = heldLock waiters (some thread)
      from ok.lock, lockRelease_taken, Call.ok_bind]
  cases waiters with
  | nil =>
      refine ⟨_, rfl, ⟨?_, rfl, List.nodup_nil, ?_, ?_, ?_⟩, ?_, ?_, ?_⟩
      · simpa [IoqUse.goto, IoqUse.setLock, nonNull.symm] using ok.zero
      · intro other
        have old := ok.mem_iff other
        by_cases same : other = thread
        · simp [IoqUse.goto, IoqUse.setLock, same]
        · simpa [IoqUse.goto, IoqUse.setLock, same] using old
      · intro other
        by_cases same : other = thread
        · simpa [IoqUse.goto, IoqUse.setLock, same] using
            IoqMode.not_inWait_outside
        · simpa [IoqUse.goto, IoqUse.setLock, same] using alone other same
      · intro waiter
        have pointer := empty waiter
        cases waiter <;> exact pointer
      · simp [IoqUse.goto, IoqUse.setLock]
      · intro other different
        exact Or.inl (by simp [IoqUse.goto, IoqUse.setLock, different])
      · intro first isFirst
        cases isFirst
  | cons first rest =>
      obtain ⟨call, blocked⟩ := (ok.mem_iff first).mp List.mem_cons_self
      have different : first ≠ thread := by
        rintro rfl
        rw [blocked] at woken
        cases woken
      have firstNonNull : first ≠ 0 := by
        rintro rfl
        rw [ok.zero] at blocked
        cases blocked
      have nodup := List.nodup_cons.mp ok.nodup
      refine ⟨((s.goto thread .outside).setLock (heldLock rest none)).goto
        first (.woken call .lock), ?_, ⟨?_, rfl, nodup.2, ?_, ?_, ?_⟩, ?_, ?_, ?_⟩
      · simp [IoqUse.unblockWaiter, IoqUse.threadUnblock, IoqUse.goto,
          IoqUse.setLock, different, blocked]
      · simpa [IoqUse.goto, IoqUse.setLock, nonNull.symm, firstNonNull.symm]
          using ok.zero
      · intro other
        have old := ok.mem_iff other
        by_cases isFirst : other = first
        · simp [IoqUse.goto, isFirst, nodup.1]
        · by_cases same : other = thread
          · have absent : thread ∉ rest := by
              intro member
              obtain ⟨call, blocked⟩ :=
                (ok.mem_iff thread).mp (List.mem_cons_of_mem first member)
              rw [blocked] at woken
              cases woken
            simp [IoqUse.goto, IoqUse.setLock, same, different.symm, absent]
          · simpa [IoqUse.goto, IoqUse.setLock, same, isFirst] using old
      · intro other
        by_cases isFirst : other = first
        · simpa [IoqUse.goto, isFirst] using (IoqMode.not_inWait_lock call).2
        · by_cases same : other = thread
          · simpa [IoqUse.goto, IoqUse.setLock, same, different.symm] using
              IoqMode.not_inWait_outside
          · simpa [IoqUse.goto, IoqUse.setLock, same, isFirst] using
              alone other same
      · intro waiter
        have pointer := empty waiter
        cases waiter <;> exact pointer
      · simp [IoqUse.goto, IoqUse.setLock, different.symm]
      · intro other notThread
        by_cases isFirst : other = first
        · subst other
          refine Or.inr ⟨⟨call, .lock, blocked⟩, ?_⟩
          simpa [IoqUse.goto] using IoqMode.not_asleep_woken call .lock
        · exact Or.inl (by
            simp [IoqUse.goto, IoqUse.setLock, notThread, isFirst])
      · intro waiter isFirst
        simp only [List.head?_cons, Option.some.injEq] at isFirst
        subst isFirst
        refine ⟨different, ?_⟩
        simpa [IoqUse.goto] using IoqMode.not_asleep_woken call .lock

end IoqOk

/-- What a piece of a call by `thread` does to the holder of the lock, to its
waiters and to the threads that sleep. -/
inductive IoqOutcome (s : IoqUse) (thread : Nat) (call : IoqCall)
    (s' : IoqUse) : Option Nat → List Nat → Option Nat → List Nat → Prop
  | refused {holder : Nat} {waiters : List Nat} :
      s.GoesForLock thread call →
      s'.mode = Function.update s.mode thread (.blocked call .lock) →
      IoqOutcome s thread call s' (some holder) waiters (some holder)
        (waiters ++ [thread])
  | takes {waiters : List Nat} :
      s.GoesForLock thread call →
      s'.mode = Function.update s.mode thread (.blocked call .wait) →
      IoqOutcome s thread call s' none waiters (some thread) waiters
  | returns {owner : Option Nat} {waiters : List Nat} :
      ¬ s.GoesForLock thread call → s'.mode thread = .outside →
      (∀ other, other ≠ thread →
        SameOrWoken (s.mode other) (s'.mode other)) →
      IoqOutcome s thread call s' owner waiters owner waiters
  | resumes {owner : Option Nat} {waiters : List Nat} :
      s.mode thread = .woken call .wait →
      (∀ other, other ≠ thread →
        SameOrWoken (s.mode other) (s'.mode other)) →
      (∀ first, waiters.head? = some first → ¬ (s'.mode first).Asleep) →
      IoqOutcome s thread call s' (some thread) waiters owner waiters.tail

namespace IoqOk

variable {owner : Option Nat} {waiters : List Nat} {s : IoqUse}
  {thread : Nat} {call : IoqCall}

private theorem goesForLock (ok : IoqOk owner waiters s) (nonNull : thread ≠ 0)
    (goes : s.GoesForLock thread call) {running : IoqUse}
    (runningOk : IoqOk owner waiters running)
    (outside : running.mode thread = .outside)
    (others : ∀ mode, Function.update running.mode thread mode =
      Function.update s.mode thread mode) :
    ∃ s' ending owner' waiters',
      (do
        let round ← lockAcquireRound running.ioq.lock thread
        running.afterRound thread call round) = .ok (s', ending) ∧
      IoqOk owner' waiters' s' ∧
      IoqOutcome s thread call s' owner waiters owner' waiters' := by
  rw [runningOk.lock]
  cases owner with
  | none =>
      obtain ⟨s', called, next, modes⟩ :=
        runningOk.takes call nonNull outside
      refine ⟨s', .blocked, some thread, waiters, ?_, next,
        .takes goes (modes.trans (others _))⟩
      rw [lockAcquireRound_free, Call.ok_bind, called]
  | some holder =>
      obtain ⟨s', called, next, modes⟩ :=
        runningOk.refused call nonNull outside
      have absent : thread ∉ waiters := by
        rw [runningOk.mem_iff thread, outside]
        simp
      refine ⟨s', .blocked, some holder, waiters ++ [thread], ?_, next,
        .refused goes (modes.trans (others _))⟩
      rw [lockAcquireRound_taken absent, Call.ok_bind, called]

/-- Every piece of a call returns, and keeps the invariant. -/
theorem piece (ok : IoqOk owner waiters s) (nonNull : thread ≠ 0)
    {place : Option IoqPlace} (ready : (s.mode thread).Ready call place) :
    ∃ s' ending owner' waiters',
      (s.goto thread .outside).callFrom thread call place =
        .ok (s', ending) ∧
      IoqOk owner' waiters' s' ∧
      IoqOutcome s thread call s' owner waiters owner' waiters' := by
  have running : (s.goto thread .outside).mode thread = .outside := by
    simp [IoqUse.goto]
  have others : ∀ mode,
      Function.update (s.goto thread .outside).mode thread mode =
        Function.update s.mode thread mode := by
    simp [IoqUse.goto]
  generalize atPlace : s.mode thread = mode at ready
  cases ready with
  | call call =>
      have same : s.goto thread .outside = s := by
        rw [IoqUse.goto, ← atPlace, Function.update_eq_self]
      have other : owner ≠ some thread := by
        intro isOwner
        have inWait := (ok.inWait_iff thread).mpr isOwner
        rw [atPlace] at inWait
        exact IoqMode.not_inWait_outside inWait
      rw [same]
      by_cases waits : s.ioq.mustWait call = true
      · obtain ⟨s', ending, owner', waiters', called, next, outcome⟩ :=
          ok.goesForLock nonNull (Or.inl ⟨atPlace, waits⟩) ok atPlace
            (fun _ => rfl)
        refine ⟨s', ending, owner', waiters', ?_, next, outcome⟩
        rw [← called]
        simp only [IoqUse.callFrom, IoqUse.fromTest, if_pos waits]
        rw [ok.lock, lockAcquire_of_ne nonNull other]
      · obtain ⟨s', ending, called, next, outside, modes⟩ :=
          ok.finishes call atPlace
        refine ⟨s', ending, owner, waiters, ?_, next,
          .returns ?_ outside modes⟩
        · simp only [IoqUse.callFrom, IoqUse.fromTest, if_neg waits, called]
        · rintro (⟨_, must⟩ | woken)
          · exact waits must
          · rw [atPlace] at woken
            cases woken
  | resume call place =>
      cases place with
      | lock =>
          have notInWait : ¬ (s.mode thread).InWait := by
            rw [atPlace]
            exact (IoqMode.not_inWait_lock call).2
          exact ok.goesForLock nonNull (Or.inr atPlace)
            (ok.leave (by simp [atPlace]) notInWait) running others
      | wait =>
          have isOwner : owner = some thread :=
            (ok.inWait_iff thread).mp ⟨call, Or.inr atPlace⟩
          subst isOwner
          obtain ⟨freed, released, freedOk, outside, modes, roused⟩ :=
            ok.releases atPlace
          by_cases waits : freed.ioq.mustWait call = true
          · obtain ⟨s', called, next, changed⟩ :=
              freedOk.takes call nonNull outside
            refine ⟨s', .blocked, some thread, waiters.tail, ?_, next,
              .resumes atPlace ?_ ?_⟩
            · simp only [IoqUse.callFrom, released, Call.ok_bind,
                IoqUse.fromTest, if_pos waits]
              rw [freedOk.lock, lockAcquire_of_ne nonNull (by simp),
                lockAcquireRound_free, Call.ok_bind, called]
            · intro other different
              rw [changed, Function.update_of_ne different]
              exact modes other different
            · intro first isFirst
              obtain ⟨different, awake⟩ := roused first isFirst
              rw [changed, Function.update_of_ne different]
              exact awake
          · obtain ⟨s', ending, called, next, _, kept⟩ :=
              freedOk.finishes call outside
            refine ⟨s', ending, none, waiters.tail, ?_, next,
              .resumes atPlace ?_ ?_⟩
            · simp only [IoqUse.callFrom, released, Call.ok_bind,
                IoqUse.fromTest, if_neg waits, called]
            · intro other different
              exact (modes other different).trans (kept other different)
            · intro first isFirst
              obtain ⟨different, awake⟩ := roused first isFirst
              rw [(kept first different).eq_of_awake awake]
              exact awake

end IoqOk

/-- In no run does an `ASSERT` of the queue or of its lock fail: every thread
that is not blocked can take its next piece. -/
theorem ioq_piece_returns {ioq : Ioqueue} {trace : List (IoqEvent × IoqUse)}
    {last : IoqUse}
    (run : Run IoqStep (ioqUse (ioqueueInit ioq)) trace last)
    {thread : Nat} (nonNull : thread ≠ 0) {call : IoqCall}
    {place : Option IoqPlace} (ready : (last.mode thread).Ready call place) :
    ∃ s' ending, (last.goto thread .outside).callFrom thread call place =
      .ok (s', ending) := by
  have preserved : ∀ state event next,
      (∃ owner waiters, IoqOk owner waiters state) →
      IoqStep state event next →
      ∃ owner waiters, IoqOk owner waiters next := by
    intro state event next held taken
    obtain ⟨owner, waiters, ok⟩ := held
    cases taken with
    | piece nonNull ready returned =>
        obtain ⟨s', ending, owner', waiters', called, nextOk, _⟩ :=
          ok.piece nonNull ready
        rw [called, Except.ok.injEq, Prod.mk.injEq] at returned
        obtain ⟨rfl, _⟩ := returned
        exact ⟨owner', waiters', nextOk⟩
  obtain ⟨owner, waiters, ok⟩ :=
    run.invariant ⟨none, [], IoqOk.start ioq⟩ preserved
  obtain ⟨s', ending, _, _, called, _⟩ := ok.piece nonNull ready
  exact ⟨s', ending, called⟩

end Simos
