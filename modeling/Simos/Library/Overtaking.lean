import Mathlib.Algebra.GroupWithZero.Nat
import Mathlib.Algebra.Order.BigOperators.Group.Finset
import Simos.Library.Runs

/-!
# Waiting in a line of tasks with a budget

A task that stands in a line waits for those that are not behind it: the ones
in front, the one that is being served and the ones that are away and may come
back to the front.  Each of them has a budget, and when the budget is used up
it goes to the end of the line.

* `delay` adds up the turns of the tasks that are not behind the task;
* `delay_le`, `delay_gone` and `delay_charged` say what lowers it;
* `Run.cost_add_le` counts the costs of a run against such a quantity.
-/

namespace Simos.Library

section Delay

variable {Task : Type*}

/-- The turns that may come first: each task keeps its place as often as its
budget says, and once more. -/
def delay (budget : Task → Nat) (waitsFor : Finset Task) : Nat :=
  ∑ other ∈ waitsFor, (budget other + 1)

variable {budget budget' : Task → Nat} {waitsFor waitsFor' : Finset Task}

theorem delay_pos {other : Task} (member : other ∈ waitsFor) :
    0 < delay budget waitsFor :=
  Finset.sum_pos (fun _ _ => Nat.succ_pos _) ⟨other, member⟩

theorem delay_le_card {most : Nat}
    (small : ∀ other ∈ waitsFor, budget other ≤ most) :
    delay budget waitsFor ≤ waitsFor.card * (most + 1) := by
  apply Finset.sum_le_card_nsmul
  intro other member
  exact Nat.add_le_add_right (small other member) 1

theorem delay_le (fewer : waitsFor' ⊆ waitsFor)
    (kept : ∀ other ∈ waitsFor', budget' other ≤ budget other) :
    delay budget' waitsFor' ≤ delay budget waitsFor := by
  calc delay budget' waitsFor'
      ≤ delay budget waitsFor' :=
        Finset.sum_le_sum fun other member =>
          Nat.add_le_add_right (kept other member) 1
    _ ≤ delay budget waitsFor :=
        Finset.sum_le_sum_of_subset fewer

variable [DecidableEq Task]

/-- A task that has gone behind is waited for no more. -/
theorem delay_gone {gone : Task} (was : gone ∈ waitsFor)
    (fewer : waitsFor' ⊆ waitsFor.erase gone)
    (kept : ∀ other ∈ waitsFor', budget' other ≤ budget other) :
    delay budget' waitsFor' + (budget gone + 1) ≤ delay budget waitsFor := by
  have others := delay_le fewer kept
  have split : delay budget (waitsFor.erase gone) + (budget gone + 1) =
      delay budget waitsFor :=
    Finset.sum_erase_add waitsFor _ was
  omega

/-- A task that is charged has one turn less to go. -/
theorem delay_charged {spender : Task} (was : spender ∈ waitsFor)
    (charged : budget' spender + 1 = budget spender)
    (kept : ∀ other ∈ waitsFor, other ≠ spender →
      budget' other ≤ budget other) :
    delay budget' waitsFor + 1 ≤ delay budget waitsFor := by
  have others : delay budget' (waitsFor.erase spender) ≤
      delay budget (waitsFor.erase spender) := by
    apply delay_le (Finset.Subset.refl _)
    intro other member
    exact kept other (Finset.mem_of_mem_erase member)
      (Finset.ne_of_mem_erase member)
  have split : delay budget (waitsFor.erase spender) + (budget spender + 1) =
      delay budget waitsFor :=
    Finset.sum_erase_add waitsFor _ was
  have split' : delay budget' (waitsFor.erase spender) +
      (budget' spender + 1) = delay budget' waitsFor :=
    Finset.sum_erase_add waitsFor _ was
  omega

end Delay

section Line

variable {Task : Type*} [DecidableEq Task]

/-- The part of the line that begins with the task. -/
def behind (line : List Task) (task : Task) : List Task :=
  line.dropWhile fun other => other ≠ task

theorem behind_cons_of_ne {first task : Task} (different : first ≠ task)
    (line : List Task) : behind (first :: line) task = behind line task := by
  simp [behind, different]

theorem behind_eq {ahead : List Task} {task : Task} (absent : task ∉ ahead)
    (later : List Task) : behind (ahead ++ task :: later) task =
      task :: later := by
  induction ahead with
  | nil =>
      simp [behind]
  | cons first rest inductionHypothesis =>
      rw [List.mem_cons, not_or] at absent
      rw [List.cons_append, behind_cons_of_ne (Ne.symm absent.1)]
      exact inductionHypothesis absent.2

theorem behind_append {line : List Task} {task : Task}
    (inside : task ∈ line) (later : List Task) :
    behind (line ++ later) task = behind line task ++ later := by
  obtain ⟨ahead, rest, rfl, absent⟩ := List.eq_append_cons_of_mem inside
  rw [List.append_assoc, List.cons_append, behind_eq absent,
    behind_eq absent, List.cons_append]

theorem behind_served {line line' later : List Task} {front task : Task}
    (inside : task ∈ line) (different : front ≠ task)
    (served : front :: line' = line ++ later) :
    task ∈ line' ∧ behind line' task = behind line task ++ later := by
  constructor
  · have inEither : task ∈ front :: line' := by
      rw [served]
      exact List.mem_append_left _ inside
    exact (List.mem_cons.mp inEither).resolve_left (Ne.symm different)
  · rw [← behind_append inside, ← served, behind_cons_of_ne different]

theorem behind_subset (line : List Task) (task : Task) :
    behind line task ⊆ line :=
  List.dropWhile_subset _

/-- The tasks that may be served before the task is. -/
def overtakers (tasks : Finset Task) (line : List Task) (task : Task) :
    Finset Task :=
  tasks.filter fun other => other ∉ behind line task

@[simp]
theorem mem_overtakers {tasks : Finset Task} {line : List Task}
    {task other : Task} : other ∈ overtakers tasks line task ↔
      other ∈ tasks ∧ other ∉ behind line task :=
  Finset.mem_filter

end Line

section Costs

variable {State Event : Type*} {step : State → Event → State → Prop}
  {first last : State} {trace : List (Event × State)}

def traceCost (cost : Event → Nat) (trace : List (Event × State)) : Nat :=
  (trace.map fun taken => cost taken.1).sum

/-- When every step pays its cost out of what is left, a run costs no more
than there was at first. -/
theorem Run.cost_add_le {left : Nat → State → Prop}
    {good : Event → State → Prop} {cost : Event → Nat} {start : Nat}
    (base : left start first)
    (pays : ∀ amount state event next, left amount state →
      step state event next → good event next →
        ∃ amount', left amount' next ∧ amount' + cost event ≤ amount)
    (run : Run step first trace last)
    (allGood : ∀ event state, (event, state) ∈ trace → good event state) :
    ∃ amount, left amount last ∧ amount + traceCost cost trace ≤ start := by
  induction run with
  | start =>
      exact ⟨start, base, Nat.le_refl _⟩
  | @next trace current last event _ taken inductionHypothesis =>
      obtain ⟨amount, before, paid⟩ := inductionHypothesis
        fun event state member =>
          allGood event state (List.mem_append_left _ member)
      obtain ⟨amount', after, pay⟩ := pays amount current event last before
        taken (allGood event last (by simp))
      refine ⟨amount', after, ?_⟩
      unfold traceCost at paid ⊢
      rw [List.map_append, List.sum_append]
      simp only [List.map_cons, List.map_nil, List.sum_cons, List.sum_nil]
      omega

end Costs

end Simos.Library
