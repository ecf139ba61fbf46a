import Mathlib.Data.List.Basic
import Mathlib.Logic.Relation

/-!
# Labelled runs of a step relation

A system is a relation `step state event next`.  A run records, for every
step taken, the event and the state it led to, so that a statement can speak
of every state of the run as well as of its last one.

* `Run step first trace last` is a run with the given trace;
* `Reachable step first last` forgets the trace;
* `Run.invariant` and `Run.invariant_of_trace` are the induction rules;
* `Run.project` is the run that a coarser system sees;
* `replay` runs a list of events where a step can be computed;
* `halted_unique` says that a computed step halts in one state only.
-/

namespace Simos.Library

variable {State Event : Type*}

/-- The runs of `step` from `first`, with the events and states passed. -/
inductive Run (step : State → Event → State → Prop) (first : State) :
    List (Event × State) → State → Prop
  | start : Run step first [] first
  | next {trace : List (Event × State)} {current last : State} {event : Event} :
      Run step first trace current →
      step current event last →
      Run step first (trace ++ [(event, last)]) last

/-- The steps that are taken when their guard holds. -/
def Guarded (step : State → Event → State → Prop)
    (guard : State → Event → Prop) : State → Event → State → Prop :=
  fun state event next => step state event next ∧ guard state event

/-- The states that some run from `first` ends in. -/
def Reachable (step : State → Event → State → Prop)
    (first last : State) : Prop :=
  ∃ trace, Run step first trace last

namespace Run

variable {step : State → Event → State → Prop} {first last : State}
  {trace : List (Event × State)}

theorem last_eq_or_mem (run : Run step first trace last) :
    last = first ∨ ∃ event, (event, last) ∈ trace := by
  cases run with
  | start =>
      exact Or.inl rfl
  | @next _ _ _ event _ _ =>
      exact Or.inr ⟨event, by simp⟩

/-- An invariant whose step may use that the state reached meets `good`. -/
theorem invariant_of_trace {holds : State → Prop}
    {good : Event → State → Prop}
    (base : holds first)
    (preserved : ∀ state event next,
      holds state → step state event next → good event next → holds next)
    (run : Run step first trace last)
    (allGood : ∀ event state, (event, state) ∈ trace → good event state) :
    holds last ∧ ∀ event state, (event, state) ∈ trace → holds state := by
  induction run with
  | start =>
      exact ⟨base, by simp⟩
  | @next trace current last event _ taken inductionHypothesis =>
      have earlier := inductionHypothesis fun event state member =>
        allGood event state (List.mem_append_left _ member)
      have reached : holds last :=
        preserved current event last earlier.1 taken
          (allGood event last (by simp))
      refine ⟨reached, ?_⟩
      intro event' state member
      rcases List.mem_append.mp member with before | final
      · exact earlier.2 event' state before
      · simp only [List.mem_singleton, Prod.mk.injEq] at final
        rw [final.2]
        exact reached

/-- What holds at first and is preserved by every step holds at the end. -/
theorem invariant {holds : State → Prop}
    (base : holds first)
    (preserved : ∀ state event next,
      holds state → step state event next → holds next)
    (run : Run step first trace last) :
    holds last :=
  (invariant_of_trace base
    (fun state event next held taken (_ : True) =>
      preserved state event next held taken)
    run (fun _ _ _ => trivial)).1

/-- What every step preserves holds in all states of a run. -/
theorem forall_mem {holds : State → Prop}
    (run : Run step first trace last)
    (preserved : ∀ state event next,
      holds state → step state event next → holds next)
    (base : holds first) :
    ∀ event state, (event, state) ∈ trace → holds state :=
  (invariant_of_trace base
    (fun state event next held taken (_ : True) =>
      preserved state event next held taken)
    run (fun _ _ _ => trivial)).2

/-- What every step establishes about its event and the state it leads to
holds all along a run. -/
theorem forall_event {good : Event → State → Prop}
    (run : Run step first trace last)
    (established : ∀ state event next,
      step state event next → good event next) :
    ∀ event state, (event, state) ∈ trace → good event state := by
  induction run with
  | start =>
      simp
  | @next trace current last event _ taken inductionHypothesis =>
      intro event' state member
      rcases List.mem_append.mp member with early | final
      · exact inductionHypothesis event' state early
      · simp only [List.mem_singleton, Prod.mk.injEq] at final
        obtain ⟨rfl, rfl⟩ := final
        exact established current event' state taken

theorem last_eq (run : Run step first trace last) :
    last = (trace.getLast?.map Prod.snd).getD first := by
  cases run with
  | start =>
      rfl
  | next before taken =>
      simp

theorem of_guarded {guard : State → Event → Prop}
    (run : Run (Guarded step guard) first trace last) :
    Run step first trace last := by
  induction run with
  | start =>
      exact Run.start
  | next _ taken inductionHypothesis =>
      exact Run.next inductionHypothesis taken.1

/-- A longer run is guarded when its beginning and its last step are. -/
theorem guarded_next_iff {guard : State → Event → Prop} {current : State}
    {event : Event} (before : Run step first trace current)
    (taken : step current event last) :
    Run (Guarded step guard) first (trace ++ [(event, last)]) last ↔
      Run (Guarded step guard) first trace current ∧ guard current event := by
  constructor
  · intro guardedRun
    generalize whole : trace ++ [(event, last)] = full at guardedRun
    cases guardedRun with
    | start =>
        simp at whole
    | next earlier lastStep =>
        obtain ⟨rfl, same⟩ := List.append_inj' whole rfl
        simp only [List.cons.injEq, Prod.mk.injEq, and_true] at same
        obtain ⟨rfl, -⟩ := same
        have sameState := before.last_eq.trans earlier.last_eq.symm
        subst sameState
        exact ⟨earlier, lastStep.2⟩
  · rintro ⟨earlier, allowed⟩
    exact Run.next earlier ⟨taken, allowed⟩

/-- When a guard is what keeps a property up, the runs that have the property
throughout are the guarded runs. -/
theorem forall_iff_guarded {holds keeps : State → Prop}
    {guard : State → Event → Prop}
    (run : Run step first trace last)
    (invariantBase : keeps first) (base : holds first)
    (invariantStep : ∀ state event next,
      keeps state → step state event next → keeps next)
    (exact_step : ∀ state event next, keeps state → holds state →
      step state event next → (holds next ↔ guard state event)) :
    (∀ event state, (event, state) ∈ trace → holds state) ↔
      Run (Guarded step guard) first trace last := by
  induction run with
  | start =>
      exact ⟨fun _ => Run.start, fun _ _ _ member => by simp at member⟩
  | @next trace current last event before taken inductionHypothesis =>
      have kept : keeps current :=
        before.invariant invariantBase invariantStep
      have heldBefore (all : ∀ event state, (event, state) ∈ trace →
          holds state) : holds current := by
        rcases before.last_eq_or_mem with same | ⟨event', member⟩
        · rw [same]
          exact base
        · exact all event' current member
      rw [guarded_next_iff before taken, ← inductionHypothesis]
      constructor
      · intro all
        have early := fun event' state member =>
          all event' state (List.mem_append_left _ member)
        exact ⟨early, (exact_step current event last kept (heldBefore early)
          taken).mp (all event last (by simp))⟩
      · rintro ⟨early, allowed⟩ event' state member
        rcases List.mem_append.mp member with old | final
        · exact early event' state old
        · simp only [List.mem_singleton, Prod.mk.injEq] at final
          rw [final.2]
          exact (exact_step current event last kept (heldBefore early)
            taken).mpr allowed

/-- When a property that is lost by a step stays lost, the runs that end with
it are those whose steps all keep it. -/
theorem last_iff_guarded {holds keeps : State → Prop}
    {guard : State → Event → Prop}
    (run : Run step first trace last)
    (invariantBase : keeps first) (base : holds first)
    (invariantStep : ∀ state event next,
      keeps state → step state event next → keeps next)
    (exact_step : ∀ state event next, keeps state → step state event next →
      (holds next ↔ holds state ∧ guard state event)) :
    holds last ↔ Run (Guarded step guard) first trace last := by
  induction run with
  | start =>
      exact ⟨fun _ => Run.start, fun _ => base⟩
  | @next trace current last event before taken inductionHypothesis =>
      have kept : keeps current :=
        before.invariant invariantBase invariantStep
      rw [exact_step current event last kept taken, inductionHypothesis,
        guarded_next_iff before taken]

theorem append {middle : State} {later : List (Event × State)}
    (before : Run step first trace middle)
    (after : Run step middle later last) :
    Run step first (trace ++ later) last := by
  induction after with
  | start =>
      simpa using before
  | next _ taken inductionHypothesis =>
      rw [← List.append_assoc]
      exact Run.next inductionHypothesis taken

/-- A run of another system, in which some steps do not show. -/
theorem project {State' Event' : Type*}
    {step' : State' → Event' → State' → Prop} {keeps : State → Prop}
    {view : State → State'} {shows : Event → Option Event'}
    (preserved : ∀ state event next,
      keeps state → step state event next → keeps next)
    (visible : ∀ state event next event',
      keeps state → step state event next → shows event = some event' →
      step' (view state) event' (view next))
    (hidden : ∀ state event next,
      keeps state → step state event next → shows event = none →
      view next = view state)
    (base : keeps first) (run : Run step first trace last) :
    ∃ trace', Run step' (view first) trace' (view last) ∧
      trace'.map Prod.fst = (trace.map Prod.fst).filterMap shows := by
  induction run with
  | start =>
      exact ⟨[], Run.start, rfl⟩
  | @next trace current last event before taken inductionHypothesis =>
      have kept := before.invariant base preserved
      obtain ⟨trace', run', same⟩ := inductionHypothesis
      rw [List.map_append, List.filterMap_append, ← same]
      cases shown : shows event with
      | none =>
          refine ⟨trace', ?_, by simp [shown]⟩
          rw [hidden current event last kept taken shown]
          exact run'
      | some event' =>
          refine ⟨trace' ++ [(event', view last)], ?_, by simp [shown]⟩
          exact run'.next (visible current event last event' kept taken shown)

end Run

/-- The state after the events, taken in order, where `next` computes a
step. -/
def replay (next : State → Event → Option State) :
    List Event → State → Option State
  | [], state => some state
  | event :: events, state => (next state event).bind (replay next events)

/-- What is replayed is a run. -/
theorem Run.of_replay {step : State → Event → State → Prop}
    {next : State → Event → Option State}
    (sound : ∀ state event reached,
      next state event = some reached → step state event reached)
    {events : List Event} {first last : State}
    (replayed : replay next events first = some last) :
    ∃ trace, Run step first trace last := by
  induction events generalizing first with
  | nil =>
      cases replayed
      exact ⟨[], Run.start⟩
  | cons event events inductionHypothesis =>
      obtain ⟨middle, taken, rest⟩ := Option.bind_eq_some_iff.mp replayed
      obtain ⟨trace, run⟩ := inductionHypothesis rest
      have one : Run step first [(event, middle)] middle :=
        Run.start.next (sound first event middle taken)
      exact ⟨_, one.append run⟩

namespace Reachable

variable {step : State → Event → State → Prop} {first last : State}

theorem refl (first : State) : Reachable step first first :=
  ⟨[], Run.start⟩

theorem tail {middle : State} {event : Event}
    (before : Reachable step first middle)
    (taken : step middle event last) :
    Reachable step first last := by
  rcases before with ⟨trace, run⟩
  exact ⟨trace ++ [(event, last)], Run.next run taken⟩

theorem trans {middle : State}
    (before : Reachable step first middle)
    (after : Reachable step middle last) :
    Reachable step first last := by
  rcases before with ⟨early, early_run⟩
  rcases after with ⟨late, late_run⟩
  exact ⟨early ++ late, early_run.append late_run⟩

end Reachable

def stepTimes (step : State → Option State) : Nat → State → Option State
  | 0, state => some state
  | count + 1, state => (step state).bind (stepTimes step count)

theorem stepTimes_steps {step : State → Option State} {count : Nat}
    {state last : State} (computed : stepTimes step count state = some last) :
    Relation.ReflTransGen (fun before after => step before = some after)
      state last := by
  induction count generalizing state with
  | zero =>
      obtain rfl := Option.some.inj computed
      exact .refl
  | succ count inductionHypothesis =>
      obtain ⟨middle, one, rest⟩ := Option.bind_eq_some_iff.mp computed
      exact .head one (inductionHypothesis rest)

/-- The step, where the state passes the check. -/
def checkedStep (check : State → Prop) [DecidablePred check]
    (step : State → Option State) (state : State) : Option State :=
  if check state then step state else none

theorem checkedStep_eq_some_iff {check : State → Prop}
    [DecidablePred check] {step : State → Option State}
    {before after : State} :
    checkedStep check step before = some after ↔
      check before ∧ step before = some after := by
  rw [checkedStep, Option.ite_none_right_eq_some]

theorem steps_of_checked {check : State → Prop} [DecidablePred check]
    {step : State → Option State} {first last : State}
    (checked : Relation.ReflTransGen
      (fun before after => checkedStep check step before = some after)
      first last) :
    Relation.ReflTransGen (fun before after => step before = some after)
      first last := by
  refine Relation.ReflTransGen.mono ?_ _ _ checked
  intro before after taken
  exact (checkedStep_eq_some_iff.mp taken).2

/-- When a checked run halts, every state that can be reached passes the
check. -/
theorem check_of_halted {check : State → Prop} [DecidablePred check]
    {step : State → Option State} {first last reached : State}
    (checked : Relation.ReflTransGen
      (fun before after => checkedStep check step before = some after)
      first last)
    (halted : step last = none) (checkedLast : check last)
    (reaches : Relation.ReflTransGen
      (fun before after => step before = some after) first reached) :
    check reached := by
  induction checked using Relation.ReflTransGen.head_induction_on with
  | refl =>
      rcases reaches.cases_head with same | ⟨next, taken, -⟩
      · exact same ▸ checkedLast
      · rw [halted] at taken
        cases taken
  | head taken _ inductionHypothesis =>
      obtain ⟨checkedFirst, taken⟩ := checkedStep_eq_some_iff.mp taken
      rcases reaches.cases_head with same | ⟨next, taken', onward⟩
      · exact same ▸ checkedFirst
      · obtain rfl := Option.some.inj (taken.symm.trans taken')
        exact inductionHypothesis onward

/-- Where a step can be computed, a run halts in one state only. -/
theorem halted_unique {step : State → Option State} {first one other : State}
    (toOne : Relation.ReflTransGen
      (fun before after => step before = some after) first one)
    (toOther : Relation.ReflTransGen
      (fun before after => step before = some after) first other)
    (haltedOne : step one = none) (haltedOther : step other = none) :
    one = other := by
  have deterministic : Relator.RightUnique fun before after =>
      step before = some after := by
    intro before after after' taken taken'
    exact Option.some.inj (taken.symm.trans taken')
  rcases toOne.total_of_right_unique deterministic toOther with
    onward | onward
  · rcases onward.cases_head with same | ⟨next, taken, -⟩
    · exact same
    · rw [haltedOne] at taken
      cases taken
  · rcases onward.cases_head with same | ⟨next, taken, -⟩
    · exact same.symm
    · rw [haltedOther] at taken
      cases taken

end Simos.Library
