import Mathlib.Order.WellFounded
import Mathlib.Data.List.Basic

/-!
# Depth-first walks over tables of links

Every node has a table of cells.  A cell is empty, holds an item, or links to
another node.  A walk goes through a table in order and enters the table of
every node that is linked to before it goes on.

* `Walked cells table items` says that the walk through `table` ends, and
  that `items` are the items it meets, in order;
* `exists_walked_iff` says that a walk ends exactly when no chain of links
  goes on for ever.
-/

namespace Simos.Library

variable {Node Item : Type*}

inductive LinkCell (Node Item : Type*) where
  | empty
  | item (item : Item)
  | link (target : Node)
  deriving DecidableEq, Repr

/-- The walk through a table ends, with the items met. -/
inductive Walked (cells : Node → List (LinkCell Node Item)) :
    List (LinkCell Node Item) → List Item → Prop
  | nil : Walked cells [] []
  | empty {rest : List (LinkCell Node Item)} {items : List Item} :
      Walked cells rest items →
      Walked cells (.empty :: rest) items
  | item {rest : List (LinkCell Node Item)} {items : List Item}
      (met : Item) :
      Walked cells rest items →
      Walked cells (.item met :: rest) (met :: items)
  | link {rest : List (LinkCell Node Item)} {inner items : List Item}
      {target : Node} :
      Walked cells (cells target) inner →
      Walked cells rest items →
      Walked cells (.link target :: rest) (inner ++ items)

/-- The table of `node` links to `target`. -/
def LinksTo (cells : Node → List (LinkCell Node Item))
    (target node : Node) : Prop :=
  .link target ∈ cells node

/-- No chain of links that begins in the table goes on for ever. -/
def NoEndlessChain (cells : Node → List (LinkCell Node Item))
    (table : List (LinkCell Node Item)) : Prop :=
  ∀ chain : Nat → Node, .link (chain 0) ∈ table →
    ∃ index, ¬ LinksTo cells (chain (index + 1)) (chain index)

section Walks

variable {cells : Node → List (LinkCell Node Item)}
  {table : List (LinkCell Node Item)} {items : List Item}

theorem Walked.append {later : List (LinkCell Node Item)}
    {itemsLater : List Item} (walked : Walked cells table items)
    (walkedLater : Walked cells later itemsLater) :
    Walked cells (table ++ later) (items ++ itemsLater) := by
  induction walked with
  | nil =>
      exact walkedLater
  | empty _ inductionHypothesis =>
      exact inductionHypothesis.empty
  | item met _ inductionHypothesis =>
      exact inductionHypothesis.item met
  | link entered _ _ inductionHypothesis =>
      rw [List.append_assoc]
      exact entered.link inductionHypothesis

theorem exists_walked_of_links
    (behind : ∀ target, .link target ∈ table →
      ∃ inner, Walked cells (cells target) inner) :
    ∃ items, Walked cells table items := by
  induction table with
  | nil =>
      exact ⟨[], .nil⟩
  | cons cell rest inductionHypothesis =>
      obtain ⟨items, walked⟩ := inductionHypothesis fun target member =>
        behind target (List.mem_cons_of_mem cell member)
      cases cell with
      | empty =>
          exact ⟨items, walked.empty⟩
      | item met =>
          exact ⟨met :: items, walked.item met⟩
      | link target =>
          obtain ⟨inner, entered⟩ := behind target List.mem_cons_self
          exact ⟨inner ++ items, entered.link walked⟩

private theorem exists_walked_of_acc {node : Node}
    (accessible : Acc (LinksTo cells) node) :
    ∃ items, Walked cells (cells node) items := by
  induction accessible with
  | intro node _ inductionHypothesis =>
      exact exists_walked_of_links fun target linked =>
        inductionHypothesis target linked

private theorem Walked.acc (walked : Walked cells table items) {target : Node}
    (linked : .link target ∈ table) : Acc (LinksTo cells) target := by
  induction walked generalizing target with
  | nil =>
      cases linked
  | empty _ inductionHypothesis =>
      rcases List.mem_cons.mp linked with same | later
      · cases same
      · exact inductionHypothesis later
  | item met _ inductionHypothesis =>
      rcases List.mem_cons.mp linked with same | later
      · cases same
      · exact inductionHypothesis later
  | link _ _ innerHypothesis restHypothesis =>
      rcases List.mem_cons.mp linked with same | later
      · cases same
        exact Acc.intro _ fun _ linkedNext => innerHypothesis linkedNext
      · exact restHypothesis later

theorem exists_walked_iff :
    (∃ items, Walked cells table items) ↔ NoEndlessChain cells table := by
  constructor
  · rintro ⟨items, walked⟩ chain begins
    by_contra endless
    rw [not_exists] at endless
    refine not_acc_iff_exists_descending_chain.mpr
      ⟨chain, rfl, fun index => ?_⟩ (walked.acc begins)
    exact not_not.mp (endless index)
  · intro ends
    refine exists_walked_of_links fun target linked => ?_
    refine exists_walked_of_acc ?_
    by_contra endless
    obtain ⟨chain, begins, goesOn⟩ :=
      not_acc_iff_exists_descending_chain.mp endless
    obtain ⟨index, stops⟩ := ends chain (by rwa [begins])
    exact stops (goesOn index)

theorem Walked.of_no_link {others : Node → List (LinkCell Node Item)}
    (walked : Walked cells table items)
    (noLink : ∀ target, .link target ∉ table) :
    Walked others table items := by
  induction walked with
  | nil =>
      exact .nil
  | empty _ inductionHypothesis =>
      exact .empty (inductionHypothesis fun target member =>
        noLink target (List.mem_cons_of_mem _ member))
  | item met _ inductionHypothesis =>
      exact .item met (inductionHypothesis fun target member =>
        noLink target (List.mem_cons_of_mem _ member))
  | link _ _ _ _ =>
      exact absurd List.mem_cons_self (noLink _)

/-- A walk that ends does not pass a table that links to its own node. -/
theorem Walked.not_self {target : Node} (walked : Walked cells table items)
    (linked : .link target ∈ table) : ¬ LinksTo cells target target := by
  intro again
  refine not_acc_iff_exists_descending_chain.mpr
    ⟨fun _ => target, rfl, fun _ => again⟩ (walked.acc linked)

end Walks

end Simos.Library
