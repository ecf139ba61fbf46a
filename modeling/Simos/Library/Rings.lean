import Mathlib.Data.List.Chain
import Mathlib.Data.List.Nodup

/-!
# Circular doubly linked lists

`LinkHeap` is a heap of nodes with a `next` and a `prev` field; an instance
may keep the fields in records or in the words of a byte memory.  The laws
`LinkHeap.LawfulOn` are asked for on a set of nodes only, so that an instance
whose nodes could overlap is covered as long as the nodes in use do not.

`Ring heap head members` says that following `next` from `head` visits
`members` in order and comes back, and `prev` the other way round.  The two
edits `Ring.linkBefore` and `Ring.unlinkHead`, with `Ring.rotate`, give every
insertion and removal.
-/

namespace Simos.Library

/-- A heap of doubly linked nodes, seen through its field accesses. -/
class LinkHeap (Heap : Type*) (Node : outParam Type*) where
  next : Heap → Node → Node
  prev : Heap → Node → Node
  setNext : Heap → Node → Node → Heap
  setPrev : Heap → Node → Node → Heap

namespace LinkHeap

variable {Node : Type*}

/-- Field accesses of the given nodes do not disturb each other, and the
given values are read back as they were written. -/
structure LawfulOn (Heap : Type*) [LinkHeap Heap Node]
    (nodes values : Node → Prop) : Prop where
  next_setNext_self : ∀ (heap : Heap) {node value : Node},
    nodes node → values value → next (setNext heap node value) node = value
  next_setNext_of_ne : ∀ (heap : Heap) {node value other : Node},
    nodes node → nodes other → other ≠ node →
      next (setNext heap node value) other = next heap other
  prev_setNext : ∀ (heap : Heap) {node value other : Node},
    nodes node → nodes other →
      prev (setNext heap node value) other = prev heap other
  prev_setPrev_self : ∀ (heap : Heap) {node value : Node},
    nodes node → values value → prev (setPrev heap node value) node = value
  prev_setPrev_of_ne : ∀ (heap : Heap) {node value other : Node},
    nodes node → nodes other → other ≠ node →
      prev (setPrev heap node value) other = prev heap other
  next_setPrev : ∀ (heap : Heap) {node value other : Node},
    nodes node → nodes other →
      next (setPrev heap node value) other = next heap other

end LinkHeap

section Ring

open LinkHeap

variable {Heap Node : Type*} [LinkHeap Heap Node]

/-- `second` is the next node after `first`, in both directions. -/
def Linked (heap : Heap) (first second : Node) : Prop :=
  next heap first = second ∧ prev heap second = first

/-- The circular list through `head` with the other nodes `members`. -/
structure Ring (heap : Heap) (head : Node) (members : List Node) : Prop where
  path : List.IsChain (Linked heap) (head :: members ++ [head])
  nodup : (head :: members).Nodup

/-- A chain of links reads `next` of all nodes but the last and `prev` of all
nodes but the first. -/
private theorem chain_transport {heap heap' : Heap} :
    ∀ {nodes : List Node},
      List.IsChain (Linked heap) nodes →
      (∀ node, node ∈ nodes.dropLast → next heap' node = next heap node) →
      (∀ node, node ∈ nodes.tail → prev heap' node = prev heap node) →
      List.IsChain (Linked heap') nodes
  | [], _, _, _ => List.isChain_nil
  | [node], _, _, _ => List.isChain_singleton node
  | first :: second :: rest, chain, sameNext, samePrev => by
      rw [List.isChain_cons_cons] at chain ⊢
      refine ⟨⟨?_, ?_⟩, ?_⟩
      · rw [sameNext first (by simp)]
        exact chain.1.1
      · rw [samePrev second (by simp)]
        exact chain.1.2
      · apply chain_transport chain.2
        · intro node member
          exact sameNext node (by
            rw [List.dropLast_cons_cons]
            exact List.mem_cons_of_mem first member)
        · intro node member
          exact samePrev node (List.mem_of_mem_tail member)

namespace Ring

variable {heap heap' : Heap} {head : Node} {members : List Node}

theorem exists_front (ring : Ring heap head members) :
    ∃ front, head :: members = front ++ [prev heap head] := by
  rcases List.eq_nil_or_concat (head :: members) with empty | ⟨front, last, split⟩
  · simp at empty
  · rw [List.concat_eq_append] at split
    refine ⟨front, ?_⟩
    have chain := ring.path
    rw [split, List.append_assoc, List.singleton_append, List.isChain_split] at chain
    have linked : Linked heap last head := by
      simpa [List.isChain_pair] using chain.2
    rw [linked.2]
    exact split

theorem prev_mem (ring : Ring heap head members) :
    prev heap head ∈ head :: members := by
  obtain ⟨front, split⟩ := ring.exists_front
  rw [split]
  simp

theorem next_prev (ring : Ring heap head members) :
    next heap (prev heap head) = head := by
  obtain ⟨front, split⟩ := ring.exists_front
  have chain := ring.path
  rw [split, List.append_assoc, List.singleton_append, List.isChain_split] at chain
  have linked : Linked heap (prev heap head) head := by
    simpa [List.isChain_pair] using chain.2
  exact linked.1

/-- The head of a ring is its own next node exactly when it is alone. -/
theorem next_eq (ring : Ring heap head members) :
    next heap head = members.headD head := by
  have chain := ring.path
  cases members with
  | nil =>
      have linked : Linked heap head head := by
        simpa [List.isChain_pair] using chain
      exact linked.1
  | cons first rest =>
      simp only [List.cons_append, List.isChain_cons_cons] at chain
      exact chain.1.1

theorem next_head_cons {first : Node} {rest : List Node}
    (ring : Ring heap head (first :: rest)) : next heap head = first := by
  simpa using ring.next_eq

theorem members_unique {other : List Node}
    (ring : Ring heap head members) (ring' : Ring heap head other) :
    members = other := by
  have walk : ∀ (start : Node) (left right : List Node),
      List.IsChain (Linked heap) (start :: left ++ [head]) →
      List.IsChain (Linked heap) (start :: right ++ [head]) →
      head ∉ left → head ∉ right → left = right := by
    intro start left
    induction left generalizing start with
    | nil =>
        intro right leftChain rightChain _ absent
        cases right with
        | nil =>
            rfl
        | cons first rest =>
            simp only [List.cons_append, List.nil_append,
              List.isChain_cons_cons] at leftChain rightChain
            have same : head = first := leftChain.1.1.symm.trans rightChain.1.1
            exact (absent (by simp [same])).elim
    | cons first rest inductionHypothesis =>
        intro right leftChain rightChain absentLeft absentRight
        cases right with
        | nil =>
            simp only [List.cons_append, List.nil_append,
              List.isChain_cons_cons] at leftChain rightChain
            have same : first = head := leftChain.1.1.symm.trans rightChain.1.1
            exact (absentLeft (by simp [same])).elim
        | cons first' rest' =>
            simp only [List.cons_append, List.isChain_cons_cons] at leftChain rightChain
            have same : first = first' := leftChain.1.1.symm.trans rightChain.1.1
            subst first'
            have tails := inductionHypothesis first rest' leftChain.2 rightChain.2
              (fun member => absentLeft (List.mem_cons_of_mem _ member))
              (fun member => absentRight (List.mem_cons_of_mem _ member))
            rw [tails]
  exact walk head members other ring.path ring'.path
    (List.nodup_cons.mp ring.nodup).1 (List.nodup_cons.mp ring'.nodup).1

theorem congr (ring : Ring heap head members)
    (sameNext : ∀ node, node ∈ head :: members →
      next heap' node = next heap node)
    (samePrev : ∀ node, node ∈ head :: members →
      prev heap' node = prev heap node) :
    Ring heap' head members := by
  refine ⟨chain_transport ring.path ?_ ?_, ring.nodup⟩
  · intro node member
    apply sameNext
    rwa [List.dropLast_concat] at member
  · intro node member
    apply samePrev
    simp only [List.cons_append, List.tail_cons, List.mem_append,
      List.mem_singleton] at member
    rcases member with inside | equal
    · exact List.mem_cons_of_mem head inside
    · simp [equal]

/-- A ring can be entered at any of its nodes. -/
theorem rotate {before after : List Node} {node : Node}
    (ring : Ring heap head (before ++ node :: after)) :
    Ring heap node (after ++ head :: before) := by
  constructor
  · have chain := ring.path
    have shape : head :: (before ++ node :: after) ++ [head] =
        (head :: before) ++ node :: (after ++ [head]) := by simp
    rw [shape, List.isChain_split] at chain
    have goal : node :: (after ++ head :: before) ++ [node] =
        (node :: after) ++ head :: (before ++ [node]) := by simp
    rw [goal, List.isChain_split]
    exact ⟨by simpa using chain.2, by simpa using chain.1⟩
  · have permutation :
        (head :: (before ++ node :: after)).Perm
          (node :: (after ++ head :: before)) := by
      calc
        (head :: (before ++ node :: after)).Perm
            ((node :: after) ++ (head :: before)) := by
          rw [← List.cons_append]
          exact List.perm_append_comm
        _ = node :: (after ++ head :: before) := by simp
    exact permutation.nodup_iff.mp ring.nodup

theorem enter_next {first : Node} {rest : List Node}
    (ring : Ring heap head (first :: rest)) :
    Ring heap first (rest ++ [head]) := by
  have split : Ring heap head ([] ++ first :: rest) := ring
  exact split.rotate

/-- Linking a new node in before the head puts it at the end. -/
theorem linkBefore {added : Node} (ring : Ring heap head members)
    (fresh : added ∉ head :: members)
    (nextLast : next heap' (prev heap head) = added)
    (nextAdded : next heap' added = head)
    (prevHead : prev heap' head = added)
    (prevAdded : prev heap' added = prev heap head)
    (sameNext : ∀ node, node ∈ head :: members → node ≠ prev heap head →
      next heap' node = next heap node)
    (samePrev : ∀ node, node ∈ head :: members → node ≠ head →
      prev heap' node = prev heap node) :
    Ring heap' head (members ++ [added]) := by
  obtain ⟨front, split⟩ := ring.exists_front
  constructor
  · have oldChain : List.IsChain (Linked heap) (head :: members) :=
      ring.path.left_of_append
    have kept : List.IsChain (Linked heap') (head :: members) := by
      apply chain_transport oldChain
      · intro node member
        rw [split, List.dropLast_concat] at member
        apply sameNext node
        · rw [split]
          exact List.mem_append_left _ member
        · intro equal
          have nodup := ring.nodup
          rw [split] at nodup
          exact (List.nodup_append.mp nodup).2.2 node member
            (prev heap head) (by simp) equal
      · intro node member
        rw [List.tail_cons] at member
        apply samePrev node (List.mem_cons_of_mem head member)
        intro equal
        subst node
        exact (List.nodup_cons.mp ring.nodup).1 member
    have shape : head :: (members ++ [added]) ++ [head] =
        front ++ prev heap head :: [added, head] := by
      rw [← List.cons_append, split]
      simp
    rw [shape, List.isChain_split]
    rw [split] at kept
    refine ⟨kept, ?_⟩
    simp only [List.isChain_cons_cons, List.isChain_singleton, and_true]
    exact ⟨⟨nextLast, prevAdded⟩, ⟨nextAdded, prevHead⟩⟩
  · rw [← List.cons_append, List.nodup_append]
    refine ⟨ring.nodup, by simp, ?_⟩
    intro node member other single equal
    rw [List.mem_singleton] at single
    subst other
    subst node
    exact fresh member

/-- Unlinking the head leaves the ring of the other nodes. -/
theorem unlinkHead {first : Node} {rest : List Node}
    (ring : Ring heap head (first :: rest))
    (nextLast : next heap' (prev heap head) = first)
    (prevFirst : prev heap' first = prev heap head)
    (sameNext : ∀ node, node ∈ first :: rest → node ≠ prev heap head →
      next heap' node = next heap node)
    (samePrev : ∀ node, node ∈ first :: rest → node ≠ first →
      prev heap' node = prev heap node) :
    Ring heap' first rest := by
  obtain ⟨front, split⟩ := ring.exists_front
  have tailNodup : (first :: rest).Nodup := (List.nodup_cons.mp ring.nodup).2
  cases front with
  | nil =>
      simp at split
  | cons start front =>
      simp only [List.cons_append, List.cons.injEq] at split
      refine ⟨?_, tailNodup⟩
      have oldChain : List.IsChain (Linked heap) (first :: rest) :=
        ring.path.tail.left_of_append
      have kept : List.IsChain (Linked heap') (first :: rest) := by
        apply chain_transport oldChain
        · intro node member
          rw [split.2, List.dropLast_concat] at member
          apply sameNext node
          · rw [split.2]
            exact List.mem_append_left _ member
          · intro equal
            rw [split.2] at tailNodup
            exact (List.nodup_append.mp tailNodup).2.2 node member
              (prev heap head) (by simp) equal
        · intro node member
          rw [List.tail_cons] at member
          apply samePrev node (List.mem_cons_of_mem first member)
          intro equal
          subst node
          exact (List.nodup_cons.mp tailNodup).1 member
      have shape : first :: rest ++ [first] =
          front ++ prev heap head :: [first] := by
        rw [split.2]
        simp
      rw [shape, List.isChain_split]
      rw [split.2] at kept
      refine ⟨kept, ?_⟩
      rw [List.isChain_pair]
      exact ⟨nextLast, prevFirst⟩

theorem enter_at_head {first : Node} {before after rest : List Node}
    (split : after ++ head :: before = first :: rest)
    (ring : Ring heap first rest) :
    Ring heap head (before ++ after) := by
  cases after with
  | nil =>
      simp only [List.nil_append, List.cons.injEq] at split
      rw [← split.1, ← split.2] at ring
      simpa using ring
  | cons first' after =>
      simp only [List.cons_append, List.cons.injEq] at split
      rw [← split.1, ← split.2] at ring
      exact ring.rotate

theorem singleton_iff {node : Node} :
    Ring heap node [] ↔ next heap node = node ∧ prev heap node = node := by
  constructor
  · intro ring
    have linked : Linked heap node node := by
      simpa [List.isChain_pair] using ring.path
    exact linked
  · intro linked
    refine ⟨?_, by simp⟩
    simp only [List.cons_append, List.nil_append, List.isChain_pair]
    exact linked

end Ring

end Ring

end Simos.Library
