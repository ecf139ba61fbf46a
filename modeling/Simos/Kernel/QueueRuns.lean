import Simos.Kernel.ListRings

/-!
# Runs of queue operations (`lib/kernel/list.c`)

Any number of queues share a heap of list nodes.  On the sequences that they
stand for, `queue_in` appends a node, `queue_push` puts one in front and
`queue_out` takes the front away; `calls_followSequences` is that every run of
calls from empty queues does so.
-/

namespace Simos

open Simos.Library LinkHeap

variable {Index : Type}

structure Queues (Index : Type) where
  heap : NodeHeap
  queue : Index → GeneralQueue

/-- A call on one of the queues. -/
inductive QueueOp (Index : Type) where
  | queueIn (index : Index) (node : Nat)
  | queuePush (index : Index) (node : Nat)
  | queueOut (index : Index)

namespace QueueOp

def index : QueueOp Index → Index
  | queueIn index _ => index
  | queuePush index _ => index
  | queueOut index => index

def inserted : QueueOp Index → List Nat
  | queueIn _ node => [node]
  | queuePush _ node => [node]
  | queueOut _ => []

def edit : QueueOp Index → List Nat → List Nat
  | queueIn _ node, items => items ++ [node]
  | queuePush _ node, items => node :: items
  | queueOut _, items => items.tail

def answer : QueueOp Index → List Nat → Option Nat
  | queueIn _ _, _ => none
  | queuePush _ _, _ => none
  | queueOut _, items => some (items.headD 0)

/-- Only nodes that are in no queue are inserted. -/
def Legal (op : QueueOp Index) (contents : Index → List Nat) : Prop :=
  ∀ node, node ∈ op.inserted → IsNode node ∧ ∀ other, node ∉ contents other

end QueueOp

variable [DecidableEq Index]

namespace Queues

def call (s : Queues Index) :
    QueueOp Index → Call (Option Nat × Queues Index)
  | .queueIn index node => do
      let (heap, queue) ← queueIn s.heap (s.queue index) node
      return (none, ⟨heap, Function.update s.queue index queue⟩)
  | .queuePush index node => do
      let (heap, queue) ← queuePush s.heap (s.queue index) node
      return (none, ⟨heap, Function.update s.queue index queue⟩)
  | .queueOut index =>
      let (node, heap, queue) := queueOut s.heap (s.queue index)
      return (some node, ⟨heap, Function.update s.queue index queue⟩)

end Queues

def QueueOp.after (op : QueueOp Index) (contents : Index → List Nat) :
    Index → List Nat :=
  Function.update contents op.index (op.edit (contents op.index))

/-- The queue represents a sequence of nodes, and walking from its front goes
around them. -/
structure RepresentsSequence (heap : NodeHeap) (queue : GeneralQueue)
    (items : List Nat) : Prop where
  nodup : items.Nodup
  isNode : ∀ node, node ∈ items → IsNode node
  queueLen : queue.queueLen = items.length
  empty : queueEmpty queue = items.isEmpty
  front : queue.front = items.headD 0
  front_null : queue.front = 0 ↔ items = []
  walk : items ≠ [] → ∀ count,
    items[count % items.length]? = some ((next heap)^[count] queue.front)
  walkBack : items ≠ [] → ∀ count,
    items[(items.length - count % items.length) % items.length]? =
      some ((prev heap)^[count] queue.front)

/-- Each queue represents its sequence, and no node is in two of them. -/
structure Queues.Represents (s : Queues Index) (contents : Index → List Nat) :
    Prop where
  sequence : ∀ index,
    RepresentsSequence s.heap (s.queue index) (contents index)
  apart : ∀ first second node, node ∈ contents first →
    node ∈ contents second → first = second

/-- What a call has returned, what it has left alone and what the node that it
has removed looks like. -/
structure QueueOp.Effect (op : QueueOp Index) (contents : Index → List Nat)
    (s : Queues Index) (returned : Option Nat) (s' : Queues Index) :
    Prop where
  answer : returned = op.answer (contents op.index)
  answer_null : returned = some 0 ↔
    op = .queueOut op.index ∧ contents op.index = []
  others : ∀ other, other ≠ op.index → s'.queue other = s.queue other
  kept : LinksKept s.heap s'.heap (op.inserted ++ contents op.index)
  removed : ∀ node, node ≠ 0 → returned = some node →
    next s'.heap node = 0 ∧ prev s'.heap node = 0

/-- The calls return and do on the queues what they mean on the sequences, as
long as only nodes that are in no queue are inserted. -/
def FollowsSequences :
    List (QueueOp Index) → (Index → List Nat) → Queues Index → Prop
  | [], contents, s => s.Represents contents
  | op :: ops, contents, s =>
      s.Represents contents ∧
        (op.Legal contents →
          ∃ returned s', s.call op = .ok (returned, s') ∧
            op.Effect contents s returned s' ∧
            FollowsSequences ops (op.after contents) s')

/-! ## What a queue represents -/

private theorem QueueHolds.representsSequence {heap : NodeHeap}
    {queue : GeneralQueue}
    {items : List Nat} (holds : QueueHolds heap queue items)
    (isNode : ∀ node, node ∈ items → IsNode node) :
    RepresentsSequence heap queue items := by
  have empty := holds.queueEmpty_eq
  have queueLen := holds.queueLen_eq
  cases items with
  | nil =>
      have start : queue = queueInit := holds
      refine ⟨List.nodup_nil, isNode, queueLen, empty, ?_, ?_, ?_, ?_⟩
      · rw [start]
        rfl
      · rw [start]
        exact iff_of_true rfl rfl
      · intro some
        exact absurd rfl some
      · intro some
        exact absurd rfl some
  | cons first rest =>
      obtain ⟨rfl, ring⟩ := holds
      refine ⟨ring.nodup, isNode, queueLen, empty, rfl, ?_, ?_, ?_⟩
      · have positive := (isNode first List.mem_cons_self).1
        exact iff_of_false (Nat.ne_of_gt positive) (List.cons_ne_nil _ _)
      · intro _ count
        exact ring.next_iterate count
      · intro _ count
        exact ring.prev_iterate_back count

/-- Every queue holds its sequence of nodes, and no two share a node. -/
structure HoldsQueues (s : Queues Index) (contents : Index → List Nat) :
    Prop where
  holds : ∀ index, QueueHolds s.heap (s.queue index) (contents index)
  isNode : ∀ index node, node ∈ contents index → IsNode node
  apart : ∀ first second node, node ∈ contents first →
    node ∈ contents second → first = second

/-- A call edits its queue as it edits the sequence of it, and writes no links
but those of its nodes. -/
structure Edits (s : Queues Index) (contents : Index → List Nat)
    (op : QueueOp Index) (heap' : NodeHeap) (queue' : GeneralQueue) :
    Prop where
  called : s.call op = .ok (op.answer (contents op.index),
    ⟨heap', Function.update s.queue op.index queue'⟩)
  changed : QueueHolds heap' queue' (op.edit (contents op.index))
  kept : LinksKept s.heap heap' (op.inserted ++ contents op.index)
  removed : ∀ node, node ≠ 0 → op.answer (contents op.index) = some node →
    next heap' node = 0 ∧ prev heap' node = 0

namespace QueueOp

variable {op : QueueOp Index} {items : List Nat} {node : Nat}

omit [DecidableEq Index] in
private theorem mem_edit (member : node ∈ op.edit items) :
    node ∈ op.inserted ∨ node ∈ items := by
  cases op with
  | queueIn index new =>
      rcases List.mem_append.mp member with old | new
      · exact Or.inr old
      · exact Or.inl new
  | queuePush index new =>
      rcases List.mem_cons.mp member with rfl | old
      · exact Or.inl List.mem_cons_self
      · exact Or.inr old
  | queueOut index =>
      exact Or.inr (List.mem_of_mem_tail member)

omit [DecidableEq Index] in
/-- `NULL` is the answer for the empty queue only, since it is no node. -/
theorem answer_eq_null_iff (isNode : ∀ node, node ∈ items → IsNode node) :
    op.answer items = some 0 ↔ op = .queueOut op.index ∧ items = [] := by
  cases op with
  | queueIn index new => simp [answer]
  | queuePush index new => simp [answer]
  | queueOut index =>
      cases items with
      | nil =>
          exact iff_of_true rfl ⟨rfl, rfl⟩
      | cons first rest =>
          have positive := (isNode first List.mem_cons_self).1
          simp [answer, Nat.ne_of_gt positive]

end QueueOp

namespace HoldsQueues

variable {s : Queues Index} {contents : Index → List Nat}
  {op : QueueOp Index}

omit [DecidableEq Index] in
theorem represents (holds : HoldsQueues s contents) :
    s.Represents contents := by
  refine ⟨?_, holds.apart⟩
  intro index
  exact (holds.holds index).representsSequence (holds.isNode index)

omit [DecidableEq Index] in
theorem length_succ_lt (holds : HoldsQueues s contents) {index : Index}
    {node : Nat} (isNode : IsNode node) (fresh : node ∉ contents index) :
    (contents index).length + 1 < addressCount := by
  have nodup : (node :: contents index).Nodup :=
    List.nodup_cons.mpr ⟨fresh, (holds.represents.sequence index).nodup⟩
  apply length_lt_of_isNode nodup
  intro other member
  rcases List.mem_cons.mp member with rfl | old
  · exact isNode
  · exact holds.isNode index other old

/-- The queue of the call has been edited, and only links of its nodes have
been written. -/
theorem update (holds : HoldsQueues s contents) (legal : op.Legal contents)
    {heap' : NodeHeap} {queue' : GeneralQueue}
    (changed : QueueHolds heap' queue' (op.edit (contents op.index)))
    (kept : LinksKept s.heap heap' (op.inserted ++ contents op.index)) :
    HoldsQueues ⟨heap', Function.update s.queue op.index queue'⟩
      (op.after contents) := by
  unfold QueueOp.after
  have elsewhere : ∀ other, other ≠ op.index → ∀ node,
      node ∈ contents other → node ∉ op.inserted ++ contents op.index := by
    intro other different node here there
    rcases List.mem_append.mp there with new | old
    · exact (legal node new).2 other here
    · exact different (holds.apart other op.index node here old)
  constructor
  · intro index
    by_cases same : index = op.index
    · rw [same]
      simp only [Function.update_self]
      exact changed
    · simp only [Function.update_of_ne same]
      exact kept.queue (holds.holds index) (elsewhere index same)
  · intro index node member
    by_cases same : index = op.index
    · rw [same, Function.update_self] at member
      rcases QueueOp.mem_edit member with new | old
      · exact (legal node new).1
      · exact holds.isNode op.index node old
    · rw [Function.update_of_ne same] at member
      exact holds.isNode index node member
  · apply apart_update holds.apart
    intro node member other there
    by_contra different
    exact elsewhere other different node there
      (List.mem_append.mpr (QueueOp.mem_edit member))

private theorem step_of_edits (holds : HoldsQueues s contents)
    (legal : op.Legal contents) {heap' : NodeHeap} {queue' : GeneralQueue}
    (edits : Edits s contents op heap' queue') :
    ∃ returned s', s.call op = .ok (returned, s') ∧
      op.Effect contents s returned s' ∧
      HoldsQueues s' (op.after contents) := by
  refine ⟨_, _, edits.called, ⟨rfl, ?_, ?_, edits.kept, edits.removed⟩, ?_⟩
  · exact QueueOp.answer_eq_null_iff (holds.isNode op.index)
  · intro other different
    exact Function.update_of_ne different queue' s.queue
  · exact holds.update legal edits.changed edits.kept

private theorem queueIn_edits (holds : HoldsQueues s contents) {index : Index}
    {node : Nat} (legal : (QueueOp.queueIn index node).Legal contents) :
    ∃ heap' queue', Edits s contents (.queueIn index node) heap' queue' := by
  have new := legal node List.mem_cons_self
  obtain ⟨heap', queue', returned, changed, kept⟩ :=
    (holds.holds index).queueIn_ok nodeHeap_lawful (Nat.ne_of_gt new.1.1)
      (new.2 index) (holds.length_succ_lt new.1 (new.2 index))
  refine ⟨heap', queue', ?_, changed, kept, ?_⟩
  · simp only [Queues.call, returned]
    rfl
  · intro other _ none
    cases none

private theorem queuePush_edits (holds : HoldsQueues s contents) {index : Index}
    {node : Nat} (legal : (QueueOp.queuePush index node).Legal contents) :
    ∃ heap' queue', Edits s contents (.queuePush index node) heap' queue' := by
  have new := legal node List.mem_cons_self
  obtain ⟨heap', queue', returned, changed, kept⟩ :=
    (holds.holds index).queuePush_ok nodeHeap_lawful (Nat.ne_of_gt new.1.1)
      (new.2 index) (holds.length_succ_lt new.1 (new.2 index))
  refine ⟨heap', queue', ?_, changed, kept, ?_⟩
  · simp only [Queues.call, returned]
    rfl
  · intro other _ none
    cases none

private theorem queueOut_edits (holds : HoldsQueues s contents)
    (index : Index) :
    ∃ heap' queue', Edits s contents (.queueOut index) heap' queue' := by
  have here := holds.holds index
  cases shape : contents index with
  | nil =>
      rw [shape] at here
      have start : s.queue index = queueInit := here
      refine ⟨s.heap, queueInit, ?_, ?_, ?_, ?_⟩
      · simp only [Queues.call, QueueOp.answer, QueueOp.index, shape, start,
          queueOut_queueInit]
        rfl
      · simp only [QueueOp.edit, QueueOp.index, shape]
        rfl
      · intro node _
        exact ⟨rfl, rfl⟩
      · intro node nonNull returned
        simp only [QueueOp.answer, QueueOp.index, shape] at returned
        cases returned
        exact absurd rfl nonNull
  | cons first rest =>
      rw [shape] at here
      obtain ⟨heap', queue', returned, changed, kept, removed⟩ :=
        here.queueOut_ok nodeHeap_lawful
      refine ⟨heap', queue', ?_, ?_, ?_, ?_⟩
      · simp only [Queues.call, QueueOp.answer, QueueOp.index, shape, returned]
        rfl
      · simp only [QueueOp.edit, QueueOp.index, shape]
        exact changed
      · simp only [QueueOp.inserted, QueueOp.index, shape]
        exact kept
      · intro node _ answered
        simp only [QueueOp.answer, QueueOp.index, shape] at answered
        cases answered
        exact removed

theorem call_step (holds : HoldsQueues s contents)
    (legal : op.Legal contents) :
    ∃ returned s', s.call op = .ok (returned, s') ∧
      op.Effect contents s returned s' ∧
      HoldsQueues s' (op.after contents) := by
  cases op with
  | queueIn index node =>
      obtain ⟨heap', queue', edits⟩ := holds.queueIn_edits legal
      exact holds.step_of_edits legal edits
  | queuePush index node =>
      obtain ⟨heap', queue', edits⟩ := holds.queuePush_edits legal
      exact holds.step_of_edits legal edits
  | queueOut index =>
      obtain ⟨heap', queue', edits⟩ := holds.queueOut_edits index
      exact holds.step_of_edits legal edits

/-- Every run of calls from queues that hold their sequences. -/
theorem followsSequences (holds : HoldsQueues s contents)
    (ops : List (QueueOp Index)) : FollowsSequences ops contents s := by
  induction ops generalizing s contents with
  | nil =>
      exact holds.represents
  | cons op ops inductionHypothesis =>
      refine ⟨holds.represents, ?_⟩
      intro legal
      obtain ⟨returned, s', called, effect, after⟩ := holds.call_step legal
      exact ⟨returned, s', called, effect, inductionHypothesis after⟩

end HoldsQueues

omit [DecidableEq Index] in
/-- Queues that `queue_init` has written are empty, on any heap. -/
theorem holdsQueues_queueInit (heap : NodeHeap) :
    HoldsQueues (⟨heap, fun _ => queueInit⟩ : Queues Index) fun _ => [] := by
  constructor
  · intro index
    rfl
  · intro index node member
    exact absurd member List.not_mem_nil
  · intro first second node member
    exact absurd member List.not_mem_nil

/-- From `queue_init` on, the queues are double-ended sequences of nodes, in
every run of calls that only inserts nodes that are in no queue. -/
theorem calls_followSequences (heap : NodeHeap) (ops : List (QueueOp Index)) :
    FollowsSequences ops (fun _ => []) ⟨heap, fun _ => queueInit⟩ :=
  (holdsQueues_queueInit heap).followsSequences ops

/-- A node that is pushed after another was appended comes out first. -/
example (heap : NodeHeap) :
    (do
      let s : Queues Unit := ⟨heap, fun _ => queueInit⟩
      let (_, s) ← s.call (.queueIn () 8)
      let (_, s) ← s.call (.queuePush () 16)
      let (node, s) ← s.call (.queueOut ())
      return (node, s.queue ()) : Call (Option Nat × GeneralQueue)) =
      .ok (some 16, ⟨8, 1⟩) := by
  rfl

end Simos
