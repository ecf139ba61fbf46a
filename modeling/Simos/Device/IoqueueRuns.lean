import Simos.Device.Ioqueue
import Simos.Library.Runs

/-!
# Runs of one io queue

Any number of threads call `ioq_getchar` and `ioq_putchar`; which of the
threads that are not blocked runs next is left open.

* `IoqUse.Moves` is what a piece of a call does to the stored characters;
* `ioq_lossless` reads the queue as a bounded first-in first-out buffer.
-/

namespace Simos

open Simos.Library

/-- The places from which a thread in the given mode can run a call. -/
inductive IoqMode.Ready : IoqMode → IoqCall → Option IoqPlace → Prop
  | call (call : IoqCall) : Ready .outside call none
  | resume (call : IoqCall) (place : IoqPlace) :
      Ready (.woken call place) call (some place)

/-- A piece of a call and the way it ended. -/
structure IoqEvent where
  thread : Nat
  call : IoqCall
  ending : IoqEnd

/-- One piece of a call by one thread. -/
inductive IoqStep : IoqUse → IoqEvent → IoqUse → Prop
  | piece {s s' : IoqUse} {thread : Nat} {call : IoqCall}
      {place : Option IoqPlace} {ending : IoqEnd} :
      thread ≠ 0 → (s.mode thread).Ready call place →
      (s.goto thread .outside).callFrom thread call place = .ok (s', ending) →
      IoqStep s ⟨thread, call, ending⟩ s'

def ioqUse (ioq : Ioqueue) : IoqUse :=
  ⟨ioq, fun _ => .outside⟩

/-! ## The characters -/

def IoqEnd.returned : IoqEnd → List UInt8
  | .getchar ch => [ch]
  | .blocked | .putchar _ => []

def IoqEnd.completed : IoqEnd → List UInt8
  | .putchar ch => [ch]
  | .blocked | .getchar _ => []

def charsReturned (trace : List (IoqEvent × IoqUse)) : List UInt8 :=
  trace.flatMap fun entry => entry.1.ending.returned

def charsPut (trace : List (IoqEvent × IoqUse)) : List UInt8 :=
  trace.flatMap fun entry => entry.1.ending.completed

private def SameChars (ioq ioq' : Ioqueue) : Prop :=
  ioq'.buff = ioq.buff ∧ ioq'.front = ioq.front ∧ ioq'.tail = ioq.tail

namespace SameChars

variable {ioq ioq' ioq'' : Ioqueue}

private theorem setWaiter (ioq : Ioqueue) (task : Nat) (waiter : IoqWaiter) :
    SameChars ioq (ioq.setWaiter task waiter) := by
  cases waiter <;> exact ⟨rfl, rfl, rfl⟩

private theorem inside (same : SameChars ioq ioq') (inside : ioq.Inside) :
    ioq'.Inside := by
  unfold Ioqueue.Inside
  rw [same.2.1, same.2.2]
  exact inside

theorem stored (same : SameChars ioq ioq') : ioq'.stored = ioq.stored := by
  unfold Ioqueue.stored
  rw [same.1, same.2.1, same.2.2]

end SameChars

namespace IoqUse

variable {s s' : IoqUse} {cur : Nat} {call : IoqCall} {ending : IoqEnd}

private theorem threadUnblock_ok {thread : Nat}
    (returned : s.threadUnblock thread = .ok s') :
    ∃ call place, s.mode thread = .blocked call place ∧
      s' = s.goto thread (.woken call place) := by
  unfold threadUnblock at returned
  split at returned
  · rename_i call place blocked
    simp only [Except.ok.injEq] at returned
    exact ⟨call, place, blocked, returned.symm⟩
  · cases returned
  · cases returned

private theorem threadUnblock_ioq {thread : Nat}
    (returned : s.threadUnblock thread = .ok s') : s'.ioq = s.ioq := by
  obtain ⟨_, _, _, rfl⟩ := threadUnblock_ok returned
  rfl

private theorem lockRelease_chars (returned : s.lockRelease cur = .ok s') :
    SameChars s.ioq s'.ioq := by
  simp only [lockRelease, Call.bind_eq_ok_iff] at returned
  obtain ⟨⟨lock, woken⟩, _, unblocked⟩ := returned
  cases woken with
  | none =>
      simp only [unblockWaiter, Except.ok.injEq] at unblocked
      rw [← unblocked]
      exact ⟨rfl, rfl, rfl⟩
  | some thread =>
      rw [threadUnblock_ioq unblocked]
      exact ⟨rfl, rfl, rfl⟩

private theorem ioqWait_chars (returned : s.ioqWait cur call = .ok s') :
    SameChars s.ioq s'.ioq := by
  simp only [ioqWait, Call.bind_eq_ok_iff, Call.pure_eq_ok,
    Except.ok.injEq] at returned
  obtain ⟨_, _, rfl⟩ := returned
  exact SameChars.setWaiter s.ioq cur call.waiter

private theorem wakeRegistered_chars {waiter : IoqWaiter}
    (returned : s.wakeRegistered waiter = .ok s') :
    SameChars s.ioq s'.ioq := by
  unfold wakeRegistered at returned
  split at returned
  · simp only [ioqWakeup, Call.bind_eq_ok_iff, Call.pure_eq_ok,
      Except.ok.injEq] at returned
    obtain ⟨_, _, woken, unblocked, rfl⟩ := returned
    rw [← threadUnblock_ioq unblocked]
    exact SameChars.setWaiter woken.ioq 0 waiter
  · simp only [Call.pure_eq_ok, Except.ok.injEq] at returned
    rw [returned]
    exact ⟨rfl, rfl, rfl⟩

/-- What a piece of a call does to the stored characters. -/
def Moves (s : IoqUse) (result : IoqUse × IoqEnd) : Prop :=
  result.1.ioq.Inside ∧
    result.2.returned ++ result.1.ioq.stored =
      s.ioq.stored ++ result.2.completed

private theorem afterRound_moves {round : Lock (List Nat) × Bool}
    {result : IoqUse × IoqEnd} (inside : s.ioq.Inside)
    (returned : s.afterRound cur call round = .ok result) :
    s.Moves result := by
  unfold afterRound at returned
  split at returned
  · simp only [Call.pure_eq_ok, Except.ok.injEq] at returned
    rw [← returned]
    exact ⟨inside, (List.append_nil _).symm⟩
  · simp only [Call.bind_eq_ok_iff, Call.pure_eq_ok,
      Except.ok.injEq] at returned
    obtain ⟨waiting, waited, rfl⟩ := returned
    have same : SameChars (s.setLock round.1).ioq waiting.ioq :=
      ioqWait_chars waited
    exact ⟨same.inside inside, same.stored.trans (List.append_nil _).symm⟩

theorem callEnd_moves (call : IoqCall) {result : IoqUse × IoqEnd}
    (inside : s.ioq.Inside) (proceeds : s.ioq.mustWait call = false)
    (returned : s.callEnd cur call = .ok result) :
    s.Moves result := by
  cases call with
  | getchar =>
      simp only [callEnd, getcharEnd, Call.bind_eq_ok_iff, Call.pure_eq_ok,
        Except.ok.injEq] at returned
      obtain ⟨woken, waked, rfl⟩ := returned
      have same := wakeRegistered_chars waked
      have taken := inside.take proceeds
      refine ⟨same.inside taken.1, ?_⟩
      have stored := same.stored
      simp only [IoqUse.goto, IoqEnd.returned, IoqEnd.completed,
        List.append_nil, List.singleton_append, stored]
      exact taken.2.symm
  | putchar ch =>
      simp only [callEnd, putcharEnd, Call.bind_eq_ok_iff, Call.pure_eq_ok,
        Except.ok.injEq] at returned
      obtain ⟨woken, waked, rfl⟩ := returned
      have same := wakeRegistered_chars waked
      have put := inside.put proceeds ch
      refine ⟨same.inside put.1, ?_⟩
      have stored := same.stored
      simp only [IoqUse.goto, IoqEnd.returned, IoqEnd.completed,
        List.nil_append, stored]
      exact put.2

theorem fromTest_moves {result : IoqUse × IoqEnd} (inside : s.ioq.Inside)
    (returned : s.fromTest cur call = .ok result) :
    s.Moves result := by
  unfold fromTest at returned
  by_cases waits : s.ioq.mustWait call = true
  · rw [if_pos waits, Call.bind_eq_ok_iff] at returned
    obtain ⟨round, _, returned⟩ := returned
    exact afterRound_moves inside returned
  · rw [if_neg waits] at returned
    exact callEnd_moves call inside (Bool.eq_false_iff.mpr waits) returned

theorem callFrom_moves {place : Option IoqPlace} {result : IoqUse × IoqEnd}
    (inside : s.ioq.Inside)
    (returned : s.callFrom cur call place = .ok result) :
    s.Moves result := by
  cases place with
  | none =>
      exact fromTest_moves inside returned
  | some place =>
      cases place with
      | lock =>
          simp only [callFrom, Call.bind_eq_ok_iff] at returned
          obtain ⟨round, _, returned⟩ := returned
          exact afterRound_moves inside returned
      | wait =>
          simp only [callFrom, Call.bind_eq_ok_iff] at returned
          obtain ⟨released, release, returned⟩ := returned
          have same := lockRelease_chars release
          have moved := fromTest_moves (same.inside inside) returned
          exact ⟨moved.1, moved.2.trans (by rw [same.stored])⟩

end IoqUse

/-- Along every run, the characters returned and those still stored are
together the ones that were put. -/
theorem charsPut_of_run {ioq : Ioqueue} {trace : List (IoqEvent × IoqUse)}
    {last : IoqUse}
    (run : Run IoqStep (ioqUse (ioqueueInit ioq)) trace last) :
    last.ioq.Inside ∧
      charsReturned trace ++ last.ioq.stored = charsPut trace := by
  induction run with
  | start =>
      exact ⟨Ioqueue.init_inside ioq, Ioqueue.init_stored ioq⟩
  | next _ taken inductionHypothesis =>
      obtain ⟨inside, chars⟩ := inductionHypothesis
      cases taken with
      | @piece _ thread _ _ _ _ _ returned =>
          have moved := IoqUse.callFrom_moves
            (show (IoqUse.goto _ thread .outside).ioq.Inside from inside)
            returned
          refine ⟨moved.1, ?_⟩
          simp only [charsReturned, charsPut, List.flatMap_append,
            List.flatMap_singleton, List.append_assoc] at chars ⊢
          rw [moved.2, ← chars]
          simp only [IoqUse.goto, List.append_assoc]

/-- An io queue is a lossless first-in first-out buffer of 63 characters. -/
theorem ioq_lossless {ioq : Ioqueue} {trace : List (IoqEvent × IoqUse)}
    {last : IoqUse}
    (run : Run IoqStep (ioqUse (ioqueueInit ioq)) trace last) :
    charsReturned trace ++ last.ioq.stored = charsPut trace ∧
      last.ioq.stored.length ≤ 63 ∧
      (ioqEmpty last.ioq = true ↔ last.ioq.stored.length = 0) ∧
      (ioqFull last.ioq = true ↔ last.ioq.stored.length = 63) := by
  obtain ⟨inside, chars⟩ := charsPut_of_run run
  exact ⟨chars, inside.stored_length_le, inside.ioqEmpty_iff,
    inside.ioqFull_iff⟩

/-! ## Runs that are given by the turns of the threads -/

/-- The next piece of the call, from where the thread stands. -/
def IoqUse.continue (s : IoqUse) (thread : Nat) (call : IoqCall) :
    Call (IoqUse × IoqEnd) :=
  match s.mode thread with
  | .outside =>
      (s.goto thread .outside).callFrom thread call none
  | .woken call' place => do
      Call.assert (call' = call)
      (s.goto thread .outside).callFrom thread call (some place)
  | .blocked _ _ =>
      .error .blocked

/-- The state after the given threads have run their calls in turn. -/
def ioqTurns (s : IoqUse) : List (Nat × IoqCall) → Call IoqUse
  | [] => .ok s
  | turn :: turns => do
      let (s, _) ← s.continue turn.1 turn.2
      ioqTurns s turns

private theorem IoqUse.continue_step {s s' : IoqUse} {thread : Nat}
    {call : IoqCall} {ending : IoqEnd} (nonNull : thread ≠ 0)
    (returned : s.continue thread call = .ok (s', ending)) :
    IoqStep s ⟨thread, call, ending⟩ s' := by
  unfold IoqUse.continue at returned
  cases atPlace : s.mode thread with
  | outside =>
      simp only [atPlace] at returned
      exact .piece nonNull (atPlace ▸ .call call) returned
  | woken call' place =>
      simp only [atPlace, Call.bind_eq_ok_iff, Call.assert_eq_ok_iff]
        at returned
      obtain ⟨_, rfl, called⟩ := returned
      exact .piece nonNull (atPlace ▸ .resume call' place) called
  | blocked call' place =>
      simp only [atPlace] at returned
      cases returned

theorem ioqTurns_run (allowed : Nat → IoqCall → Prop)
    {turns : List (Nat × IoqCall)} {s s' : IoqUse}
    (allAllowed : ∀ turn, turn ∈ turns → turn.1 ≠ 0 ∧ allowed turn.1 turn.2)
    (returned : ioqTurns s turns = .ok s') :
    ∃ trace, Run (Guarded IoqStep fun _ event =>
      allowed event.thread event.call) s trace s' := by
  induction turns generalizing s with
  | nil =>
      simp only [ioqTurns, Except.ok.injEq] at returned
      exact ⟨[], returned ▸ Run.start⟩
  | cons turn turns inductionHypothesis =>
      simp only [ioqTurns, Call.bind_eq_ok_iff] at returned
      obtain ⟨⟨middle, ending⟩, first, rest⟩ := returned
      obtain ⟨nonNull, permitted⟩ := allAllowed turn List.mem_cons_self
      obtain ⟨trace, run⟩ := inductionHypothesis
        (fun turn member => allAllowed turn (List.mem_cons_of_mem _ member))
        rest
      exact ⟨_, (Run.start.next
        ⟨IoqUse.continue_step nonNull first, permitted⟩).append run⟩

def blankIoqueue : Ioqueue :=
  ⟨⟨0, ⟨0, []⟩, 0⟩, 0, 0, fun _ => 0, 0, 0⟩

/-- The statement after two puts and one get. -/
theorem ioq_lossless_three :
    ∃ trace last,
      Run IoqStep (ioqUse (ioqueueInit blankIoqueue)) trace last ∧
        last.ioq.stored = [66] ∧
        charsReturned trace ++ [66] = charsPut trace := by
  have computed : (do
      let s ← ioqTurns (ioqUse (ioqueueInit blankIoqueue))
        [(2, .putchar 65), (3, .putchar 66), (1, .getchar)]
      return decide (s.ioq.stored = [66]) : Call Bool) = .ok true := by
    decide +kernel
  simp only [Call.bind_eq_ok_iff, Call.pure_eq_ok, Except.ok.injEq,
    decide_eq_true_eq] at computed
  obtain ⟨last, returned, stored⟩ := computed
  obtain ⟨trace, run⟩ := ioqTurns_run (fun _ _ => True) (by simp) returned
  refine ⟨trace, last, run.of_guarded, stored, ?_⟩
  rw [← stored]
  exact (ioq_lossless run.of_guarded).1

end Simos
