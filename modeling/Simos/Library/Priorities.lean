import Mathlib.Data.Finset.Card
import Simos.Library.Runs

/-!
# Requests that are served by priority

Requests are pending until they are served, and it is always one of the best
rank that is.  A request that is pending already is not counted twice.

* `PriorityStep` is the step relation;
* `served_le` bounds what is served before a request that waits: by the better
  requests that are pending or come meanwhile.
-/

namespace Simos.Library

variable {Line : Type*}

inductive PriorityEvent (Line : Type*) where
  | request (line : Line)
  | serve (line : Line)

/-- One step, for the set of lines with a pending request. -/
inductive PriorityStep [DecidableEq Line] (rank : Line → Nat) :
    Finset Line → PriorityEvent Line → Finset Line → Prop
  | request {pending : Finset Line} (line : Line) :
      PriorityStep rank pending (.request line) (insert line pending)
  | serve {pending : Finset Line} {line : Line} :
      line ∈ pending → (∀ other ∈ pending, rank line ≤ rank other) →
      PriorityStep rank pending (.serve line) (pending.erase line)

def served (events : List (PriorityEvent Line)) : Nat :=
  events.countP fun
    | .serve _ => true
    | .request _ => false

/-- The number of requests of a better rank that came. -/
def betterRequests (rank : Line → Nat) (line : Line)
    (events : List (PriorityEvent Line)) : Nat :=
  events.countP fun
    | .request other => decide (rank other < rank line)
    | .serve _ => false

private theorem served_append (first second : List (PriorityEvent Line)) :
    served (first ++ second) = served first + served second :=
  List.countP_append

private theorem betterRequests_append (rank : Line → Nat) (line : Line)
    (first second : List (PriorityEvent Line)) :
    betterRequests rank line (first ++ second) =
      betterRequests rank line first + betterRequests rank line second :=
  List.countP_append

def better (rank : Line → Nat) (line : Line) (pending : Finset Line) :
    Finset Line :=
  pending.filter fun other => rank other < rank line

section Steps

variable [DecidableEq Line] {rank : Line → Nat} {line other : Line}
  {pending next : Finset Line}

private theorem card_better_insert_le :
    (better rank line (insert other pending)).card ≤
      (better rank line pending).card +
        if rank other < rank line then 1 else 0 := by
  unfold better
  rw [Finset.filter_insert]
  by_cases ahead : rank other < rank line
  · rw [if_pos ahead, if_pos ahead]
    exact Finset.card_insert_le _ _
  · rw [if_neg ahead, if_neg ahead]
    exact Nat.le_add_right _ 0

private theorem card_better_erase (member : other ∈ pending)
    (ahead : rank other < rank line) :
    (better rank line (pending.erase other)).card + 1 =
      (better rank line pending).card := by
  have inside : other ∈ better rank line pending :=
    Finset.mem_filter.mpr ⟨member, ahead⟩
  have erased : better rank line (pending.erase other) =
      (better rank line pending).erase other :=
    Finset.filter_erase _ _ _
  rw [erased]
  exact Finset.card_erase_add_one inside

/-- A line that waits is still pending, and a step that serves another line
lowers the number of better ones. -/
theorem PriorityStep.waits (injective : Function.Injective rank)
    {event : PriorityEvent Line}
    (taken : PriorityStep rank pending event next) (member : line ∈ pending)
    (other : event ≠ .serve line) :
    line ∈ next ∧
      served [event] + (better rank line next).card ≤
        (better rank line pending).card + betterRequests rank line [event] := by
  cases taken with
  | request requested =>
      refine ⟨Finset.mem_insert_of_mem member, ?_⟩
      have grows := @card_better_insert_le Line _ rank line requested pending
      by_cases ahead : rank requested < rank line
      · simpa [served, betterRequests, ahead] using grows
      · simpa [served, betterRequests, ahead] using grows
  | @serve chosen inside best =>
      have apart : line ≠ chosen := by
        intro same
        exact other (congrArg PriorityEvent.serve same.symm)
      have ahead : rank chosen < rank line :=
        Nat.lt_of_le_of_ne (best line member) fun same =>
          apart (injective same).symm
      refine ⟨Finset.mem_erase.mpr ⟨apart, member⟩, ?_⟩
      have shrinks := card_better_erase inside ahead
      simp only [served, betterRequests, List.countP_singleton, if_true,
        Bool.false_eq_true, if_false]
      omega

end Steps

section Runs

variable [DecidableEq Line] {rank : Line → Nat} {line : Line}
  {pending next : Finset Line}
  {trace : List (PriorityEvent Line × Finset Line)}

/-- While a line waits, no more is served than the better requests that were
pending and those that have come since. -/
theorem served_le (injective : Function.Injective rank)
    (run : Run (PriorityStep rank) pending trace next)
    (member : line ∈ pending)
    (waits : PriorityEvent.serve line ∉ trace.map Prod.fst) :
    line ∈ next ∧
      served (trace.map Prod.fst) + (better rank line next).card ≤
        (better rank line pending).card +
          betterRequests rank line (trace.map Prod.fst) := by
  induction run with
  | start =>
      refine ⟨member, ?_⟩
      rw [List.map_nil, served, betterRequests, List.countP_nil,
        List.countP_nil, Nat.zero_add, Nat.add_zero]
  | @next trace current last event before taken inductionHypothesis =>
      rw [List.map_append, List.mem_append, not_or, List.map_singleton,
        List.mem_singleton] at waits
      obtain ⟨present, bound⟩ := inductionHypothesis waits.1
      obtain ⟨present', step⟩ := taken.waits injective present (Ne.symm waits.2)
      refine ⟨present', ?_⟩
      rw [List.map_append, List.map_singleton, served_append,
        betterRequests_append]
      show _ + served [event] + _ ≤ _ + (_ + betterRequests rank line [event])
      omega

end Runs

end Simos.Library
