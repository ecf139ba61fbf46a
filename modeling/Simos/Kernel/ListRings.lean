import Simos.Kernel.Queue
import Simos.Library.RingCycles

/-!
# Kernel lists as cycles

A heap of list nodes links any number of rings that have no node in common.
Each list function changes one of them, as an edit of the cycle of its nodes,
and `list_find_item` walks around one.

* `list_actsOnRings` is the meaning of the list functions on such a heap;
* `listFindItem_decides_iff` says when `list_find_item` decides membership.
-/

namespace Simos

open Simos.Library LinkHeap

/-- The addresses that nodes have: those of 32 bits, except `NULL`. -/
def IsNode (node : Nat) : Prop :=
  0 < node ∧ node < addressCount

theorem length_lt_of_isNode {nodes : List Nat} (nodup : nodes.Nodup)
    (isNode : ∀ node, node ∈ nodes → IsNode node) :
    nodes.length < addressCount := by
  have subset : nodes ⊆ List.range' 1 (addressCount - 1) := by
    intro node member
    have place := isNode node member
    unfold IsNode addressCount at place
    rw [List.mem_range'_1]
    unfold addressCount
    omega
  have counted := (List.subperm_of_subset nodup subset).length_le
  rw [List.length_range'] at counted
  unfold addressCount at counted ⊢
  omega

/-- A heap of list nodes with these rings. -/
structure HoldsRings {Index : Type*} (heap : NodeHeap)
    (rings : Index → Cycle Nat) : Prop where
  cycles : HoldsCycles heap rings
  isNode : ∀ index node, node ∈ rings index → IsNode node

variable {Index : Type*} [DecidableEq Index]

/-- One of the rings has become another one; the nodes outside the old and the
new one have kept their links. -/
structure ChangesRing (heap heap' : NodeHeap) (rings : Index → Cycle Nat)
    (index : Index) (ring : Cycle Nat) : Prop where
  holds : HoldsRings heap' (Function.update rings index ring)
  kept : ∀ node, node ∉ rings index → node ∉ ring →
    next heap' node = next heap node ∧ prev heap' node = prev heap node

/-- What the list functions do to a ring, read from one of its nodes. -/
structure ActsOnRing (heap : NodeHeap) (rings : Index → Cycle Nat)
    (index : Index) : Prop where
  add : ∀ head (members : List Nat) new,
    rings index = ↑(head :: members) → IsNode new →
      (∀ other, new ∉ rings other) →
    ChangesRing heap (listAdd heap head new) rings index
      ↑(head :: new :: members)
  addPrev : ∀ head (members : List Nat) new,
    rings index = ↑(head :: members) → IsNode new →
      (∀ other, new ∉ rings other) →
    ChangesRing heap (listAddPrev heap head new) rings index
      ↑(new :: head :: members)
  del : ∀ node (others : List Nat), rings index = ↑(node :: others) →
    (listDel heap node).1 = node ∧
      ChangesRing heap (listDel heap node).2 rings index ↑others ∧
      next (listDel heap node).2 node = 0 ∧
      prev (listDel heap node).2 node = 0
  delSafe : ∀ node (others : List Nat), rings index = ↑(node :: others) →
    ChangesRing heap (listDelSafe heap node) rings index ↑others ∧
      OnCycle (listDelSafe heap node) ↑[node]
  pop : ∀ head first (rest : List Nat),
    rings index = ↑(head :: first :: rest) →
    next heap head = first ∧ (listPop heap head).1 = first ∧
      ChangesRing heap (listPop heap head).2 rings index ↑(head :: rest) ∧
      next (listPop heap head).2 first = 0 ∧
      prev (listPop heap head).2 first = 0
  len : ∀ head (others : List Nat), rings index = ↑(head :: others) →
    listLen heap head = .ok others.length
  empty : ∀ head (others : List Nat), rings index = ↑(head :: others) →
    listEmpty heap head = .ok (decide (others.length = 0))

namespace HoldsRings

variable {heap heap' : NodeHeap} {rings : Index → Cycle Nat} {index : Index}
  {head node : Nat} {members others : List Nat} {cycle : Cycle Nat}

omit [DecidableEq Index] in
private theorem ring (holds : HoldsRings heap rings)
    (enter : rings index = ↑(head :: members)) : Ring heap head members := by
  have onCycle := holds.cycles.onCycle index
  rw [enter] at onCycle
  exact onCycle_cons.mp onCycle

omit [DecidableEq Index] in
private theorem length_lt (holds : HoldsRings heap rings)
    (enter : rings index = ↑(head :: members)) :
    members.length < addressCount := by
  have nodup := (List.nodup_cons.mp (holds.ring enter).nodup).2
  apply length_lt_of_isNode nodup
  intro node member
  apply holds.isNode index
  rw [enter]
  exact List.mem_cons_of_mem head member

theorem changes (holds : HoldsRings heap rings)
    (changed : OnCycle heap' cycle)
    (nodes : ∀ node, node ∈ cycle →
      node ∈ rings index ∨ IsNode node ∧ ∀ other, node ∉ rings other)
    (kept : ∀ node, node ∉ rings index → node ∉ cycle →
      next heap' node = next heap node ∧ prev heap' node = prev heap node) :
    ChangesRing heap heap' rings index cycle := by
  refine ⟨⟨holds.cycles.update changed ?_ kept, ?_⟩, kept⟩
  · intro node member other there
    rcases nodes node member with old | ⟨-, fresh⟩
    · exact holds.cycles.apart other index node there old
    · exact absurd there (fresh other)
  · intro other node member
    by_cases same : other = index
    · rw [same, Function.update_self] at member
      rcases nodes node member with old | ⟨isNode, -⟩
      · exact holds.isNode index node old
      · exact isNode
    · rw [Function.update_of_ne same] at member
      exact holds.isNode other node member

theorem insertion_changes (holds : HoldsRings heap rings) {new : Nat}
    (enter : rings index = ↑(head :: members)) (isNode : IsNode new)
    (fresh : ∀ other, new ∉ rings other) (linked : OnCycle heap' cycle)
    (nodes : ∀ node, node ∈ cycle ↔ node = new ∨ node ∈ head :: members)
    (frame : ∀ node, node ∉ head :: members → node ≠ new →
      next heap' node = next heap node ∧ prev heap' node = prev heap node) :
    ChangesRing heap heap' rings index cycle := by
  apply holds.changes linked
  · intro node member
    rw [enter]
    rcases (nodes node).mp member with rfl | old
    · exact Or.inr ⟨isNode, fresh⟩
    · exact Or.inl old
  · intro node outside other
    rw [enter] at outside
    apply frame node outside
    intro same
    exact other ((nodes node).mpr (Or.inl same))

private theorem listAdd_changes (holds : HoldsRings heap rings) {new : Nat}
    (enter : rings index = ↑(head :: members)) (isNode : IsNode new)
    (fresh : ∀ other, new ∉ rings other) :
    ChangesRing heap (listAdd heap head new) rings index
      ↑(head :: new :: members) := by
  have absent := fresh index
  rw [enter] at absent
  have ring := holds.ring enter
  apply holds.insertion_changes enter isNode fresh
  · exact onCycle_cons.mpr (listAdd_ring nodeHeap_lawful (fun _ _ => trivial)
      ring (fun _ _ => trivial) trivial absent)
  · intro node
    simp only [Cycle.mem_coe_iff, List.mem_cons]
    exact or_left_comm
  · intro node outside different
    exact listAdd_frame nodeHeap_lawful (fun _ _ => trivial) ring
      (fun _ _ => trivial) trivial absent trivial outside different

private theorem listAddPrev_changes (holds : HoldsRings heap rings) {new : Nat}
    (enter : rings index = ↑(head :: members)) (isNode : IsNode new)
    (fresh : ∀ other, new ∉ rings other) :
    ChangesRing heap (listAddPrev heap head new) rings index
      ↑(new :: head :: members) := by
  have absent := fresh index
  rw [enter] at absent
  have ring := holds.ring enter
  apply holds.insertion_changes enter isNode fresh
  · rw [Cycle.coe_cons_eq_coe_append]
    exact onCycle_cons.mpr (listAddPrev_ring nodeHeap_lawful
      (fun _ _ => trivial) ring (fun _ _ => trivial) trivial absent)
  · intro node
    exact List.mem_cons
  · intro node outside different
    exact listAddPrev_frame nodeHeap_lawful (fun _ _ => trivial) ring
      (fun _ _ => trivial) trivial absent trivial outside different

/-- A node is taken out: its neighbours are linked to each other, and the
nodes outside the ring are left alone. -/
theorem removal_changes (holds : HoldsRings heap rings)
    (enter : rings index = ↑(node :: others))
    (unlinked : ∀ first rest, others = first :: rest → Ring heap' first rest)
    (frame : ∀ other, other ∉ node :: others →
      next heap' other = next heap other ∧
        prev heap' other = prev heap other) :
    ChangesRing heap heap' rings index ↑others := by
  apply holds.changes
  · cases others with
    | nil =>
        exact onCycle_nil heap'
    | cons first rest =>
        exact onCycle_cons.mpr (unlinked first rest rfl)
  · intro other member
    rw [enter]
    exact Or.inl (List.mem_cons_of_mem node member)
  · intro other outside _
    rw [enter, Cycle.mem_coe_iff] at outside
    exact frame other outside

private theorem listDel_changes (holds : HoldsRings heap rings)
    (enter : rings index = ↑(node :: others)) :
    ChangesRing heap (listDel heap node).2 rings index ↑others := by
  have ring := holds.ring enter
  apply holds.removal_changes enter
  · rintro first rest rfl
    have unlinked := listDel_ring nodeHeap_lawful (fun _ _ => trivial)
      ring.enter_next (fun _ _ => trivial)
    rw [List.append_nil] at unlinked
    exact unlinked
  · intro other outside
    exact listDel_frame nodeHeap_lawful (fun _ _ => trivial) ring
      (fun _ _ => trivial) trivial outside

private theorem listDelSafe_changes (holds : HoldsRings heap rings)
    (enter : rings index = ↑(node :: others)) :
    ChangesRing heap (listDelSafe heap node) rings index ↑others := by
  have ring := holds.ring enter
  apply holds.removal_changes enter
  · rintro first rest rfl
    have unlinked := listDelSafe_ring nodeHeap_lawful (fun _ _ => trivial)
      ring.enter_next (fun _ _ => trivial)
    rw [List.append_nil] at unlinked
    exact unlinked
  · intro other outside
    exact listDelSafe_frame nodeHeap_lawful (fun _ _ => trivial) ring
      (fun _ _ => trivial) trivial outside

end HoldsRings

/-- On a heap with any number of rings that have no node in common, the list
functions edit the ring they are called on as a cycle and leave the others
alone. -/
theorem list_actsOnRings {heap : NodeHeap} {rings : Index → Cycle Nat}
    (holds : HoldsRings heap rings) (index : Index) :
    ActsOnRing heap rings index where
  add := fun _ _ _ enter isNode fresh =>
    holds.listAdd_changes enter isNode fresh
  addPrev := fun _ _ _ enter isNode fresh =>
    holds.listAddPrev_changes enter isNode fresh
  del := by
    intro node others enter
    refine ⟨rfl, holds.listDel_changes enter, ?_⟩
    exact listDel_null nodeHeap_lawful heap trivial trivial
  delSafe := by
    intro node others enter
    refine ⟨holds.listDelSafe_changes enter, ?_⟩
    exact onCycle_cons.mpr (listInit_ring nodeHeap_lawful _ trivial trivial)
  pop := by
    intro head first rest enter
    have second : next heap head = first := (holds.ring enter).next_head_cons
    have behind : rings index = ↑(first :: (rest ++ [head])) := by
      rw [enter, Cycle.coe_cons_eq_coe_append, List.cons_append]
    have removed := holds.listDel_changes behind
    rw [← Cycle.coe_cons_eq_coe_append] at removed
    rw [listPop, second]
    refine ⟨rfl, rfl, removed, ?_⟩
    exact listDel_null nodeHeap_lawful heap trivial trivial
  len := by
    intro head others enter
    exact listLen_ring (holds.ring enter) (holds.length_lt enter)
  empty := by
    intro head others enter
    rw [listEmpty_ring (holds.ring enter) (holds.length_lt enter)]
    cases others with
    | nil => rfl
    | cons first rest => rfl

def twoRings : NodeHeap where
  node address :=
    if address = 8 then ⟨16, 16⟩
    else if address = 16 then ⟨8, 8⟩
    else ⟨24, 24⟩

def twoCycles : Bool → Cycle Nat
  | true => ↑[8, 16]
  | false => ↑[24]

private theorem onCycle_twoCycles (index : Bool) :
    OnCycle twoRings (twoCycles index) := by
  cases index with
  | true =>
      apply onCycle_cons.mpr
      refine ⟨?_, by decide⟩
      simp only [List.cons_append, List.nil_append, List.isChain_cons_cons,
        List.isChain_singleton, and_true]
      exact ⟨⟨rfl, rfl⟩, ⟨rfl, rfl⟩⟩
  | false =>
      exact onCycle_cons.mpr (Ring.singleton_iff.mpr ⟨rfl, rfl⟩)

private theorem holdsRings_twoRings : HoldsRings twoRings twoCycles where
  cycles := by
    refine ⟨onCycle_twoCycles, ?_⟩
    intro first second node here there
    cases first <;> cases second <;>
      simp only [twoCycles, Cycle.mem_coe_iff, List.mem_cons,
        List.not_mem_nil, or_false] at here there <;> first | rfl | omega
  isNode := by
    intro index node member
    unfold IsNode addressCount
    cases index <;>
      simp only [twoCycles, Cycle.mem_coe_iff, List.mem_cons,
        List.not_mem_nil, or_false] at member <;> omega

/-- `list_add` behind the node 16. -/
theorem list_actsOnRings_twoRings :
    ChangesRing twoRings (listAdd twoRings 16 32) twoCycles true
      ↑[16, 32, 8] := by
  apply (list_actsOnRings holdsRings_twoRings true).add 16 [8] 32
  · exact Cycle.coe_eq_coe.mpr ⟨1, rfl⟩
  · exact ⟨by decide, by decide⟩
  · intro other
    cases other with
    | true => decide
    | false => decide

/-! ## Membership -/

/-- `list_find_item` returns, with `TRUE` for the nodes of the ring only. -/
def DecidesMembership (heap : NodeHeap) (list node : Nat)
    (ring : Cycle Nat) : Prop :=
  ∃ found, listFindItem heap list node = .ok found ∧
    (found = true ↔ node ∈ ring)

/-- From any node of a ring, `list_find_item` is right about every pointer
except that to the node before, which it stops on without comparing. -/
theorem listFindItem_decides_iff {heap : NodeHeap} {ring : Cycle Nat}
    (onCycle : OnCycle heap ring)
    (isNode : ∀ node, node ∈ ring → IsNode node) {list : Nat}
    (reached : list ∈ ring) (node : Nat) :
    DecidesMembership heap list node ring ↔ node ≠ prev heap list := by
  obtain ⟨others, rfl⟩ := exists_cons_of_mem reached
  have entered := onCycle_cons.mp onCycle
  have bound : others.length < addressCount := by
    apply length_lt_of_isNode (List.nodup_cons.mp entered.nodup).2
    intro other member
    exact isNode other (List.mem_cons_of_mem list member)
  obtain ⟨front, split⟩ := entered.exists_front
  have nodup := entered.nodup
  rw [split, List.nodup_append] at nodup
  have lastAbsent : prev heap list ∉ front := by
    intro member
    exact nodup.2.2 _ member _ List.mem_cons_self rfl
  have inRing : node ∈ (↑(list :: others) : Cycle Nat) ↔
      node ∈ front ∨ node = prev heap list := by
    rw [Cycle.mem_coe_iff, split, List.mem_append, List.mem_singleton]
  by_cases null : node = 0
  · have outside : node ∉ (↑(list :: others) : Cycle Nat) := by
      intro member
      have positive := (isNode node member).1
      omega
    have answer : listFindItem heap list node = .ok false := by
      rw [listFindItem, if_pos (Or.inr null)]
    apply iff_of_true
    · exact ⟨false, answer, by simpa using outside⟩
    · intro same
      exact outside (inRing.mpr (Or.inr same))
  · have listNonNull : list ≠ 0 := Nat.ne_of_gt (isNode list reached).1
    have answer := listFindItem_ring entered listNonNull null bound
    rw [split, List.dropLast_concat] at answer
    constructor
    · rintro ⟨found, returned, decides⟩ same
      rw [answer, Except.ok.injEq] at returned
      have present := decides.mpr (inRing.mpr (Or.inr same))
      rw [← returned, decide_eq_true_eq, same] at present
      exact lastAbsent present
    · intro different
      refine ⟨_, answer, ?_⟩
      rw [decide_eq_true_eq, inRing]
      exact ⟨Or.inl, fun either => either.resolve_right different⟩

/-- From the node 8, the node 8 itself is found. -/
theorem listFindItem_decides_iff_twoRings :
    DecidesMembership twoRings 8 8 (twoCycles true) :=
  (listFindItem_decides_iff (onCycle_twoCycles true)
    (holdsRings_twoRings.isNode true) (by decide) 8).mpr (by decide)

/-- The node of a ring of one is not found in it. -/
theorem listFindItem_misses :
    OnCycle twoRings (twoCycles false) ∧ 24 ∈ twoCycles false ∧
      ¬ DecidesMembership twoRings 24 24 (twoCycles false) := by
  refine ⟨onCycle_twoCycles false, by decide, ?_⟩
  rintro ⟨found, returned, decides⟩
  have ring : Ring twoRings 24 [] := onCycle_cons.mp (onCycle_twoCycles false)
  rw [listFindItem_ring ring (by decide) (by decide) (by decide),
    Except.ok.injEq] at returned
  have present := decides.mpr (by decide)
  rw [← returned] at present
  exact absurd present (by decide)

end Simos
