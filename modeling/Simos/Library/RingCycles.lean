import Mathlib.Data.List.Cycle
import Mathlib.Logic.Function.Iterate
import Simos.Library.Rings

/-!
# Rings without a first node

A ring that is entered at another of its nodes is the same ring.  `OnCycle`
says which cycle of nodes a heap links, wherever it is entered, and
`HoldsCycles` that it links any number of cycles without a common node.

* `onCycle_cons`: read from one of its nodes, a cycle is a ring;
* `HoldsCycles.update`: one cycle is changed and the others are left alone;
* `Ring.next_iterate` and `Ring.prev_iterate_back` follow the links.
-/

namespace Simos.Library

open LinkHeap

variable {Heap Node : Type*} [LinkHeap Heap Node]

/-- The nodes of the cycle are linked around it, in both directions. -/
structure OnCycle (heap : Heap) (cycle : Cycle Node) : Prop where
  chain : cycle.Chain (Linked heap)
  nodup : cycle.Nodup

/-- The heap links these cycles, which have no node in common. -/
structure HoldsCycles {Index : Type*} (heap : Heap)
    (rings : Index → Cycle Node) : Prop where
  onCycle : ∀ index, OnCycle heap (rings index)
  apart : ∀ first second node, node ∈ rings first → node ∈ rings second →
    first = second

/-- Collections without a common node stay so when one of them is changed, by
nodes of its own or of none. -/
theorem apart_update {Index Nodes : Type*} [DecidableEq Index]
    [Membership Node Nodes] {family : Index → Nodes} {index : Index}
    {changed : Nodes}
    (apart : ∀ first second (node : Node), node ∈ family first →
      node ∈ family second → first = second)
    (fresh : ∀ node : Node, node ∈ changed → ∀ other, node ∈ family other →
      other = index)
    (first second : Index) (node : Node) :
    node ∈ Function.update family index changed first →
      node ∈ Function.update family index changed second →
      first = second := by
  by_cases isFirst : first = index
  · by_cases isSecond : second = index
    · intro _ _
      rw [isFirst, isSecond]
    · rw [isFirst, Function.update_self, Function.update_of_ne isSecond]
      intro here there
      exact (fresh node here second there).symm
  · rw [Function.update_of_ne isFirst]
    by_cases isSecond : second = index
    · rw [isSecond, Function.update_self]
      intro there here
      exact fresh node here first there
    · rw [Function.update_of_ne isSecond]
      exact apart first second node

section Cycles

variable {heap heap' : Heap} {head : Node} {members : List Node}
  {cycle : Cycle Node}

theorem onCycle_nil (heap : Heap) : OnCycle heap Cycle.nil :=
  ⟨Cycle.Chain.nil _, Cycle.nodup_nil⟩

/-- A cycle is a ring from any of its nodes on. -/
theorem onCycle_cons :
    OnCycle heap (↑(head :: members) : Cycle Node) ↔
      Ring heap head members := by
  constructor
  · intro onCycle
    exact ⟨onCycle.chain, onCycle.nodup⟩
  · intro ring
    exact ⟨ring.path, ring.nodup⟩

theorem exists_cons_of_mem {node : Node} (member : node ∈ cycle) :
    ∃ others : List Node, cycle = ↑(node :: others) := by
  induction cycle with
  | nil =>
      exact absurd member (Cycle.notMem_nil node)
  | cons first rest _ =>
      obtain ⟨before, after, split⟩ :=
        List.append_of_mem (Cycle.mem_coe_iff.mp member)
      refine ⟨after ++ before, ?_⟩
      rw [split, Cycle.coe_eq_coe, ← List.cons_append]
      exact List.isRotated_append

theorem OnCycle.congr (onCycle : OnCycle heap cycle)
    (same : ∀ node, node ∈ cycle →
      next heap' node = next heap node ∧ prev heap' node = prev heap node) :
    OnCycle heap' cycle := by
  induction cycle with
  | nil =>
      exact onCycle_nil heap'
  | cons first rest _ =>
      rw [onCycle_cons] at onCycle ⊢
      exact onCycle.congr (fun node member => (same node member).1)
        (fun node member => (same node member).2)

namespace HoldsCycles

variable {Index : Type*} [DecidableEq Index] {rings : Index → Cycle Node}

/-- One cycle is changed, by nodes of its own or of no cycle, and the links
outside the old and the new one are kept. -/
theorem update (holds : HoldsCycles heap rings) {index : Index}
    (changed : OnCycle heap' cycle)
    (fresh : ∀ node, node ∈ cycle → ∀ other, node ∈ rings other →
      other = index)
    (kept : ∀ node, node ∉ rings index → node ∉ cycle →
      next heap' node = next heap node ∧ prev heap' node = prev heap node) :
    HoldsCycles heap' (Function.update rings index cycle) := by
  constructor
  · intro other
    by_cases same : other = index
    · rw [same, Function.update_self]
      exact changed
    · rw [Function.update_of_ne same]
      apply (holds.onCycle other).congr
      intro node member
      apply kept node
      · intro here
        exact same (holds.apart other index node member here)
      · intro here
        exact same (fresh node here other member)
  · exact apart_update holds.apart fresh

end HoldsCycles

end Cycles

/-! ## Walking around a ring -/

section Walk

variable {heap : Heap} {head : Node} {members : List Node}

/-- A function that leads from each node of a closed walk to the next one goes
around it. -/
theorem iterate_of_chain {step : Node → Node}
    (chain : List.IsChain (fun first second => step first = second)
      (head :: members ++ [head])) (count : Nat) :
    (head :: members)[count % (members.length + 1)]? =
      some (step^[count] head) := by
  induction count with
  | zero =>
      rw [Nat.zero_mod]
      rfl
  | succ count inductionHypothesis =>
      have inside : count % (members.length + 1) < members.length + 1 :=
        Nat.mod_lt count (Nat.succ_pos _)
      have here : (head :: members ++ [head])[count %
          (members.length + 1)]? = some (step^[count] head) := by
        rw [List.getElem?_append_left inside, inductionHypothesis]
      have bound : count % (members.length + 1) + 1 <
          (head :: members ++ [head]).length := by
        rw [List.length_append, List.length_cons, List.length_singleton]
        omega
      have link := List.isChain_iff_getElem.mp chain _ bound
      rw [(List.getElem?_eq_some_iff.mp here).2] at link
      have there : (head :: members ++ [head])[count %
          (members.length + 1) + 1]? = some (step^[count + 1] head) := by
        rw [Function.iterate_succ_apply', link]
        exact List.getElem?_eq_getElem bound
      rw [← Nat.mod_add_mod]
      by_cases last : count % (members.length + 1) + 1 = members.length + 1
      · have closing : (head :: members ++ [head])[members.length + 1]? =
            some head := List.getElem?_concat_length
        rw [last, closing] at there
        rw [last, Nat.mod_self]
        exact there
      · have more : count % (members.length + 1) + 1 < members.length + 1 := by
          omega
        rw [List.getElem?_append_left more] at there
        rw [Nat.mod_eq_of_lt more]
        exact there

/-- Following `next` from the head visits the nodes in order, again and
again. -/
theorem Ring.next_iterate (ring : Ring heap head members) (count : Nat) :
    (head :: members)[count % (members.length + 1)]? =
      some ((next heap)^[count] head) :=
  iterate_of_chain (ring.path.imp fun _ _ linked => linked.1) count

/-- Following `prev` from the head visits the other nodes from the last one
on. -/
theorem Ring.prev_iterate (ring : Ring heap head members) (count : Nat) :
    (head :: members.reverse)[count % (members.length + 1)]? =
      some ((prev heap)^[count] head) := by
  have backwards : List.IsChain (fun first second => prev heap first = second)
      (head :: members.reverse ++ [head]) := by
    have shape : head :: members.reverse ++ [head] =
        (head :: members ++ [head]).reverse := by
      simp
    rw [shape, List.isChain_reverse]
    exact ring.path.imp fun _ _ linked => linked.2
  rw [← List.length_reverse]
  exact iterate_of_chain backwards count

/-- The same, by the places of the nodes in the ring. -/
theorem Ring.prev_iterate_back (ring : Ring heap head members)
    (count : Nat) :
    (head :: members)[(members.length + 1 - count % (members.length + 1)) %
        (members.length + 1)]? = some ((prev heap)^[count] head) := by
  rw [← ring.prev_iterate count]
  have inside : count % (members.length + 1) < members.length + 1 :=
    Nat.mod_lt count (Nat.succ_pos _)
  cases place : count % (members.length + 1) with
  | zero =>
      rw [Nat.sub_zero, Nat.mod_self]
      rfl
  | succ back =>
      rw [place] at inside
      have forth : (members.length + 1 - (back + 1)) % (members.length + 1) =
          members.length - 1 - back + 1 := by
        rw [Nat.mod_eq_of_lt (by omega)]
        omega
      rw [forth, List.getElem?_cons_succ, List.getElem?_cons_succ,
        List.getElem?_reverse (by omega)]

end Walk

end Simos.Library
