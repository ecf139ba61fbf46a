import Mathlib.Algebra.BigOperators.Group.List.Basic
import Mathlib.Data.List.Count
import Mathlib.Logic.Function.Iterate
import Mathlib.Tactic.Ring

/-!
# Round robin with weighted turns

A queue of tasks shares a clock.  The task at the front is charged for every
tick; it keeps its place for as many ticks as its weight says and goes to the
back of the queue with the tick after them.

* `tick_iterate_turns`: the turns of a part of the queue, one after another;
* `tick_iterate_rounds`: after whole rounds the queue is what it was;
* `tick_iterate`: the state after any number of ticks.
-/

namespace Simos.Library

/-- The queue, the ticks that the front has used of its turn, and what every
task was charged. -/
structure Turns (Task : Type*) where
  queue : List Task
  spent : Nat
  charged : Task → Nat

namespace Turns

variable {Task : Type*}

/-- The ticks of the turns of the tasks in a list. -/
def turnTicks (weight : Task → Nat) (tasks : List Task) : Nat :=
  (tasks.map fun task => weight task + 1).sum

@[simp]
theorem turnTicks_nil (weight : Task → Nat) : turnTicks weight [] = 0 :=
  rfl

@[simp]
theorem turnTicks_cons (weight : Task → Nat) (task : Task)
    (tasks : List Task) :
    turnTicks weight (task :: tasks) =
      weight task + 1 + turnTicks weight tasks := by
  simp [turnTicks]

variable [DecidableEq Task]

def tick (weight : Task → Nat) (turns : Turns Task) : Turns Task :=
  match turns.queue with
  | [] => turns
  | task :: waiting =>
      let charged :=
        Function.update turns.charged task (turns.charged task + 1)
      if turns.spent < weight task then
        ⟨task :: waiting, turns.spent + 1, charged⟩
      else
        ⟨waiting ++ [task], 0, charged⟩

def charge (weight : Task → Nat) (tasks : List Task) (charged : Task → Nat) :
    Task → Nat :=
  fun task => charged task + tasks.count task * (weight task + 1)

section Ticks

variable {weight : Task → Nat}

@[simp]
theorem charge_nil (charged : Task → Nat) :
    charge weight [] charged = charged := by
  funext task
  simp [charge]

theorem charge_cons (task : Task) (tasks : List Task)
    (charged : Task → Nat) :
    charge weight tasks
        (Function.update charged task (charged task + (weight task + 1))) =
      charge weight (task :: tasks) charged := by
  funext other
  unfold charge
  by_cases same : other = task
  · rw [same, Function.update_self, List.count_cons_self]
    ring
  · rw [Function.update_of_ne same,
      List.count_cons_of_ne (Ne.symm same)]

theorem tick_iterate_spent (task : Task) (waiting : List Task)
    (charged : Task → Nat) {count : Nat} (within : count ≤ weight task) :
    (tick weight)^[count] ⟨task :: waiting, 0, charged⟩ =
      ⟨task :: waiting, count,
        Function.update charged task (charged task + count)⟩ := by
  induction count with
  | zero =>
      simp
  | succ count inductionHypothesis =>
      rw [Function.iterate_succ_apply', inductionHypothesis (by omega)]
      have more : count < weight task := within
      simp only [tick, more, if_true, Function.update_self,
        Function.update_idem, Nat.add_assoc]

theorem tick_iterate_turn (task : Task) (waiting : List Task)
    (charged : Task → Nat) :
    (tick weight)^[weight task + 1] ⟨task :: waiting, 0, charged⟩ =
      ⟨waiting ++ [task], 0,
        Function.update charged task
          (charged task + (weight task + 1))⟩ := by
  rw [Function.iterate_succ_apply', tick_iterate_spent _ _ _ (Nat.le_refl _)]
  simp only [tick, Nat.lt_irrefl, if_false, Function.update_self,
    Function.update_idem, Nat.add_assoc]

/-- The turns of the front part of the queue. -/
theorem tick_iterate_turns (first later : List Task) (charged : Task → Nat) :
    (tick weight)^[turnTicks weight first] ⟨first ++ later, 0, charged⟩ =
      ⟨later ++ first, 0, charge weight first charged⟩ := by
  induction first generalizing later charged with
  | nil =>
      simp
  | cons task first inductionHypothesis =>
      rw [turnTicks_cons, Nat.add_comm, Function.iterate_add_apply,
        List.cons_append, tick_iterate_turn, List.append_assoc,
        inductionHypothesis, charge_cons, List.append_assoc,
        List.singleton_append]

/-- Whole rounds. -/
theorem tick_iterate_rounds (queue : List Task) (charged : Task → Nat)
    (rounds : Nat) :
    (tick weight)^[rounds * turnTicks weight queue] ⟨queue, 0, charged⟩ =
      ⟨queue, 0, fun task =>
        charged task + rounds * (queue.count task * (weight task + 1))⟩ := by
  induction rounds with
  | zero =>
      simp
  | succ rounds inductionHypothesis =>
      let before (task : Task) : Nat :=
        charged task + rounds * (queue.count task * (weight task + 1))
      have round : (tick weight)^[turnTicks weight queue]
          ⟨queue ++ [], 0, before⟩ =
            ⟨[] ++ queue, 0, charge weight queue before⟩ :=
        tick_iterate_turns queue [] before
      rw [List.append_nil, List.nil_append] at round
      rw [Nat.succ_mul, Nat.add_comm, Function.iterate_add_apply,
        inductionHypothesis, round, mk.injEq]
      refine ⟨rfl, rfl, ?_⟩
      funext task
      unfold charge
      ring

/-- The state after any number of ticks: whole rounds, then the turns of the
tasks in `earlier`, then `spent` ticks of the turn of `task`. -/
theorem tick_iterate (earlier later : List Task) (task : Task)
    (charged : Task → Nat) (rounds : Nat) {spent : Nat}
    (within : spent ≤ weight task) :
    (tick weight)^[rounds * turnTicks weight (earlier ++ task :: later) +
          turnTicks weight earlier + spent]
        ⟨earlier ++ task :: later, 0, charged⟩ =
      ⟨task :: (later ++ earlier), spent, fun other =>
        charged other +
            rounds * ((earlier ++ task :: later).count other *
              (weight other + 1)) +
            earlier.count other * (weight other + 1) +
          if other = task then spent else 0⟩ := by
  rw [Nat.add_comm _ spent, Function.iterate_add_apply,
    Nat.add_comm _ (turnTicks weight earlier), Function.iterate_add_apply,
    tick_iterate_rounds, tick_iterate_turns, List.cons_append,
    tick_iterate_spent _ _ _ within, mk.injEq]
  refine ⟨rfl, rfl, ?_⟩
  funext other
  by_cases same : other = task
  · rw [same, Function.update_self, if_pos rfl]
    rfl
  · rw [Function.update_of_ne same, if_neg same]
    rfl

end Ticks

end Turns

end Simos.Library
