import Simos.Kernel.List

/-!
# General queues (`lib/kernel/list.c`, `struct general_queue`)

A queue keeps the address of its first node and its length; its nodes form a
ring.  `QueueHolds` says which sequence of nodes a queue stands for, and each
operation is given its meaning on that sequence and the nodes it leaves alone.
-/

namespace Simos

open Simos.Library LinkHeap

structure KernelList where
  prev : Nat
  next : Nat

structure NodeHeap where
  node : Nat → KernelList

instance : LinkHeap NodeHeap Nat where
  next heap node := (heap.node node).next
  prev heap node := (heap.node node).prev
  setNext heap node next :=
    ⟨Function.update heap.node node { heap.node node with next }⟩
  setPrev heap node prev :=
    ⟨Function.update heap.node node { heap.node node with prev }⟩

structure GeneralQueue where
  front : Nat
  queueLen : Nat
  deriving DecidableEq, Repr

variable {Heap : Type} [LinkHeap Heap Nat]

def queueInit : GeneralQueue :=
  ⟨0, 0⟩

def queueEmpty (queue : GeneralQueue) : Bool :=
  if queue.queueLen = 0 then true else false

def queueIn (heap : Heap) (queue : GeneralQueue) (node : Nat) :
    Call (Heap × GeneralQueue) := do
  Call.assert (node ≠ 0)
  if queue.queueLen = 0 then
    let heap := setNext heap node node
    let heap := setPrev heap node node
    return (heap, ⟨node, u32 (queue.queueLen + 1)⟩)
  else
    let heap := listAddPrev heap queue.front node
    return (heap, ⟨queue.front, u32 (queue.queueLen + 1)⟩)

/-- `queue_out` returns `NULL` for the empty queue. -/
def queueOut (heap : Heap) (queue : GeneralQueue) :
    Nat × Heap × GeneralQueue :=
  if queue.queueLen = 0 then
    (0, heap, queue)
  else
    let p := queue.front
    let front := if queue.queueLen = 1 then 0 else next heap queue.front
    let (_, heap) := listDel heap p
    (p, heap, ⟨front, queue.queueLen - 1⟩)

def queuePush (heap : Heap) (queue : GeneralQueue) (node : Nat) :
    Call (Heap × GeneralQueue) := do
  Call.assert (node ≠ 0)
  if queue.queueLen = 0 then
    let heap := setNext heap node node
    let heap := setPrev heap node node
    return (heap, ⟨node, u32 (queue.queueLen + 1)⟩)
  else
    let heap := listAddPrev heap queue.front node
    return (heap, ⟨node, u32 (queue.queueLen + 1)⟩)

/-- The queue stands for the sequence `items` of nodes, front first. -/
def QueueHolds (heap : Heap) (queue : GeneralQueue) : List Nat → Prop
  | [] => queue = queueInit
  | first :: rest =>
      queue = ⟨first, (first :: rest).length⟩ ∧ Ring heap first rest

def LinksKept (heap heap' : Heap) (touched : List Nat) : Prop :=
  ∀ node, node ∉ touched →
    next heap' node = next heap node ∧ prev heap' node = prev heap node

namespace LinksKept

variable {heap heap' heap'' : Heap} {touched : List Nat}

theorem ring (kept : LinksKept heap heap' touched) {head : Nat}
    {members : List Nat} (ring : Ring heap head members)
    (apart : ∀ node, node ∈ head :: members → node ∉ touched) :
    Ring heap' head members :=
  ring.congr (fun node member => (kept node (apart node member)).1)
    (fun node member => (kept node (apart node member)).2)

theorem queue (kept : LinksKept heap heap' touched) {queue : GeneralQueue}
    {items : List Nat} (holds : QueueHolds heap queue items)
    (apart : ∀ node, node ∈ items → node ∉ touched) :
    QueueHolds heap' queue items := by
  cases items with
  | nil =>
      exact holds
  | cons first rest =>
      exact ⟨holds.1, kept.ring holds.2 apart⟩

end LinksKept

namespace QueueHolds

variable {heap : Heap} {queue : GeneralQueue} {items : List Nat}

theorem queueLen_eq (holds : QueueHolds heap queue items) :
    queue.queueLen = items.length := by
  cases items with
  | nil =>
      rw [show queue = queueInit from holds]
      rfl
  | cons first rest =>
      rw [holds.1]

theorem queueLen_eq_zero_iff (holds : QueueHolds heap queue items) :
    queue.queueLen = 0 ↔ items = [] := by
  rw [holds.queueLen_eq]
  exact List.length_eq_zero_iff

theorem items_unique {items' : List Nat} (holds : QueueHolds heap queue items)
    (holds' : QueueHolds heap queue items') : items = items' := by
  have sameLength : items.length = items'.length :=
    holds.queueLen_eq.symm.trans holds'.queueLen_eq
  cases items with
  | nil =>
      exact (List.length_eq_zero_iff.mp sameLength.symm).symm
  | cons first rest =>
      cases items' with
      | nil =>
          cases sameLength
      | cons first' rest' =>
          have sameFront : first = first' := by
            have fields := holds.1.symm.trans holds'.1
            exact congrArg GeneralQueue.front fields
          subst sameFront
          rw [holds.2.members_unique holds'.2]

theorem queueEmpty_eq (holds : QueueHolds heap queue items) :
    queueEmpty queue = items.isEmpty := by
  unfold queueEmpty
  rw [holds.queueLen_eq]
  cases items with
  | nil =>
      rfl
  | cons first rest =>
      rfl

/-- The double-queue assertions do not fail for a task that is not queued. -/
theorem listFindItem_of_notMem (holds : QueueHolds heap queue items)
    {node : Nat} (absent : node ∉ items)
    (bound : items.length < addressCount) :
    listFindItem heap queue.front node = .ok false := by
  cases items with
  | nil =>
      rw [show queue = queueInit from holds, listFindItem, queueInit,
        if_pos (Or.inl rfl)]
  | cons first rest =>
      rw [holds.1]
      rw [List.length_cons] at bound
      exact Simos.listFindItem_of_notMem holds.2 absent (by omega)

section Operations

variable (laws : LawfulOn Heap (fun _ : Nat => True) (fun _ : Nat => True))

include laws

private theorem single (heap : Heap) (node : Nat) :
    QueueHolds (setPrev (setNext heap node node) node node) ⟨node, 1⟩ [node] ∧
      LinksKept heap (setPrev (setNext heap node node) node node) [node] := by
  refine ⟨⟨rfl, listInit_ring laws heap trivial trivial⟩, ?_⟩
  intro other outside
  have different : other ≠ node := by simpa using outside
  exact listInit_frame laws heap trivial trivial different

private theorem linked {first node : Nat} {rest : List Nat}
    (ring : Ring heap first rest) (fresh : node ∉ first :: rest) :
    Ring (listAddPrev heap first node) first (rest ++ [node]) ∧
      LinksKept heap (listAddPrev heap first node) (node :: first :: rest) := by
  refine ⟨listAddPrev_ring laws (fun _ _ => trivial) ring
    (fun _ _ => trivial) trivial fresh, ?_⟩
  intro other outside
  rw [List.mem_cons, not_or] at outside
  exact listAddPrev_frame laws (fun _ _ => trivial) ring (fun _ _ => trivial)
    trivial fresh trivial outside.2 outside.1

theorem queueIn_ok (holds : QueueHolds heap queue items) {node : Nat}
    (nonNull : node ≠ 0) (fresh : node ∉ items)
    (bound : items.length + 1 < addressCount) :
    ∃ heap' queue', queueIn heap queue node = .ok (heap', queue') ∧
      QueueHolds heap' queue' (items ++ [node]) ∧
      LinksKept heap heap' (node :: items) := by
  unfold queueIn
  rw [Call.assert_of nonNull, Call.ok_bind]
  cases items with
  | nil =>
      rw [show queue = queueInit from holds,
        if_pos (show queueInit.queueLen = 0 from rfl)]
      have alone := single laws heap node
      exact ⟨_, _, rfl, alone.1, alone.2⟩
  | cons first rest =>
      obtain ⟨rfl, ring⟩ := holds
      have added := linked laws ring fresh
      rw [if_neg (by simp), u32_of_lt bound]
      refine ⟨_, _, rfl, ⟨?_, added.1⟩, added.2⟩
      simp

theorem queuePush_ok (holds : QueueHolds heap queue items) {node : Nat}
    (nonNull : node ≠ 0) (fresh : node ∉ items)
    (bound : items.length + 1 < addressCount) :
    ∃ heap' queue', queuePush heap queue node = .ok (heap', queue') ∧
      QueueHolds heap' queue' (node :: items) ∧
      LinksKept heap heap' (node :: items) := by
  cases items with
  | nil =>
      have start : queue = queueInit := holds
      have same : queuePush heap queueInit node =
          queueIn heap queueInit node := rfl
      rw [start, same, ← start]
      exact queueIn_ok laws holds nonNull fresh bound
  | cons first rest =>
      obtain ⟨rfl, ring⟩ := holds
      have added := linked laws ring fresh
      unfold queuePush
      rw [Call.assert_of nonNull, Call.ok_bind, if_neg (by simp),
        u32_of_lt bound]
      exact ⟨_, _, rfl, ⟨by simp, added.1.rotate⟩, added.2⟩

/-- `queue_out` on a queue that is not empty takes its front node out and
leaves that node with `NULL` links. -/
theorem queueOut_ok {first : Nat} {rest : List Nat}
    (holds : QueueHolds heap queue (first :: rest)) :
    ∃ heap' queue', queueOut heap queue = (first, heap', queue') ∧
      QueueHolds heap' queue' rest ∧
      LinksKept heap heap' (first :: rest) ∧
      next heap' first = 0 ∧ prev heap' first = 0 := by
  obtain ⟨rfl, ring⟩ := holds
  have kept : LinksKept heap (listDel heap first).2 (first :: rest) :=
    fun other outside => listDel_frame laws (fun _ _ => trivial) ring
      (fun _ _ => trivial) trivial outside
  have removed := @listDel_null Heap _ _ _ laws heap trivial first trivial
  unfold queueOut
  rw [if_neg (by simp)]
  cases rest with
  | nil =>
      exact ⟨_, _, rfl, rfl, kept, removed⟩
  | cons second rest =>
      have unlinked := listDel_ring laws (fun _ _ => trivial) ring.enter_next
        (fun _ _ => trivial)
      rw [List.append_nil] at unlinked
      have front : (if (first :: second :: rest).length = 1 then 0
          else next heap first) = second := by
        rw [if_neg (by simp), ring.next_head_cons]
      simp only [front]
      exact ⟨_, _, rfl, ⟨by simp, unlinked⟩, kept, removed⟩

end Operations

end QueueHolds

/-- `queue_out` on the empty queue returns `NULL` and changes nothing. -/
theorem queueOut_queueInit (heap : Heap) :
    queueOut heap queueInit = (0, heap, queueInit) :=
  rfl

theorem nodeHeap_lawful :
    LawfulOn NodeHeap (fun _ : Nat => True) (fun _ : Nat => True) where
  next_setNext_self := by
    intro heap node value _ _
    simp [next, setNext]
  next_setNext_of_ne := by
    intro heap node value other _ _ different
    simp [next, setNext, different]
  prev_setNext := by
    intro heap node value other _ _
    by_cases same : other = node
    · simp [prev, setNext, same]
    · simp [prev, setNext, same]
  prev_setPrev_self := by
    intro heap node value _ _
    simp [prev, setPrev]
  prev_setPrev_of_ne := by
    intro heap node value other _ _ different
    simp [prev, setPrev, different]
  next_setPrev := by
    intro heap node value other _ _
    by_cases same : other = node
    · simp [next, setPrev, same]
    · simp [next, setPrev, same]

end Simos
