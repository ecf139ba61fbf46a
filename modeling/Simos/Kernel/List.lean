import Simos.Kernel.Call
import Simos.Library.Rings

/-!
# Kernel lists (`lib/kernel/list.c`, circular lists)

The functions on `struct kernel_list` over any heap of nodes.  Node addresses
are natural numbers and `NULL` is zero.  The second part gives, for each
function, what it does to a well-formed ring and which nodes it leaves alone.
-/

namespace Simos

open Simos.Library LinkHeap

variable {Heap : Type*} [LinkHeap Heap Nat]

/-- The number of addresses, which no walk over distinct nodes exceeds. -/
def addressCount : Nat := 4294967296

def listInit (heap : Heap) (list : Nat) : Heap :=
  let heap := setNext heap list list
  setPrev heap list list

/-- `__list_add`: link `new` in between `prev` and `next`. -/
def listAddBetween (heap : Heap) (new prev next : Nat) : Heap :=
  let heap := setNext heap prev new
  let heap := setNext heap new next
  let heap := setPrev heap next new
  setPrev heap new prev

def listAdd (heap : Heap) (head new : Nat) : Heap :=
  listAddBetween heap new head (next heap head)

def listAddPrev (heap : Heap) (head new : Nat) : Heap :=
  listAddBetween heap new (prev heap head) head

/-- `__list_del`: link `prev` and `next` to each other. -/
def listDelBetween (heap : Heap) (prev next : Nat) : Heap :=
  let heap := setPrev heap next prev
  setNext heap prev next

/-- `list_del` returns the node and leaves its links `NULL`. -/
def listDel (heap : Heap) (node : Nat) : Nat × Heap :=
  let heap := listDelBetween heap (prev heap node) (next heap node)
  let heap := setNext heap node 0
  let heap := setPrev heap node 0
  (node, heap)

def listDelSafe (heap : Heap) (node : Nat) : Heap :=
  let heap := listDelBetween heap (prev heap node) (next heap node)
  listInit heap node

def listPop (heap : Heap) (list : Nat) : Nat × Heap :=
  listDel heap (next heap list)

def listLenLoop (heap : Heap) (node : Nat) : Nat → Nat → Nat → Call Nat
  | 0, _, _ => .error .diverges
  | fuel + 1, p, len =>
      if next heap p ≠ node then
        listLenLoop heap node fuel (next heap p) (u32 (len + 1))
      else
        .ok len

def listLen (heap : Heap) (node : Nat) : Call Nat :=
  listLenLoop heap node addressCount node 0

def listEmpty (heap : Heap) (list : Nat) : Call Bool := do
  let len ← listLen heap list
  return if len > 0 then false else true

/-- The loop of `list_find_item`: it looks ahead before it compares, so the
node it stops on is not compared. -/
def listFindItemLoop (heap : Heap) (list node : Nat) : Nat → Nat → Call Bool
  | 0, _ => .error .diverges
  | fuel + 1, p =>
      if next heap p ≠ list then
        if p = node then
          .ok true
        else
          listFindItemLoop heap list node fuel (next heap p)
      else
        .ok false

def listFindItem (heap : Heap) (list node : Nat) : Call Bool :=
  if list = 0 ∨ node = 0 then
    .ok false
  else
    listFindItemLoop heap list node addressCount list

section Specification

variable {nodes values : Nat → Prop} (laws : LawfulOn Heap nodes values)
  {heap : Heap} {head : Nat} {members : List Nat}

include laws

/-- `list_init` makes a ring of the one node. -/
theorem listInit_ring (heap : Heap) {node : Nat} (isNode : nodes node)
    (isValue : values node) : Ring (listInit heap node) node [] := by
  unfold listInit
  rw [Ring.singleton_iff]
  constructor
  · rw [laws.next_setPrev _ isNode isNode,
      laws.next_setNext_self _ isNode isValue]
  · rw [laws.prev_setPrev_self _ isNode isValue]

theorem listInit_frame (heap : Heap) {node other : Nat}
    (isNode : nodes node) (isOther : nodes other) (different : other ≠ node) :
    next (listInit heap node) other = next heap other ∧
      prev (listInit heap node) other = prev heap other := by
  unfold listInit
  constructor
  · rw [laws.next_setPrev _ isNode isOther,
      laws.next_setNext_of_ne _ isNode isOther different]
  · rw [laws.prev_setPrev_of_ne _ isNode isOther different,
      laws.prev_setNext _ isNode isOther]

private theorem fields_listAddBetween (heap : Heap)
    (valued : ∀ node, nodes node → values node)
    {new prev next : Nat} (newNode : nodes new) (prevNode : nodes prev)
    (nextNode : nodes next) (newPrev : new ≠ prev) (newNext : new ≠ next)
    {node : Nat} (isNode : nodes node) :
    LinkHeap.next (listAddBetween heap new prev next) node =
        (if node = prev then new else if node = new then next
          else LinkHeap.next heap node) ∧
      LinkHeap.prev (listAddBetween heap new prev next) node =
        (if node = next then new else if node = new then prev
          else LinkHeap.prev heap node) := by
  constructor
  · unfold listAddBetween
    rw [laws.next_setPrev _ newNode isNode, laws.next_setPrev _ nextNode isNode]
    by_cases atNew : node = new
    · subst node
      rw [laws.next_setNext_self _ newNode (valued next nextNode),
        if_neg newPrev, if_pos rfl]
    · rw [laws.next_setNext_of_ne _ newNode isNode atNew]
      by_cases atPrev : node = prev
      · subst node
        rw [laws.next_setNext_self _ prevNode (valued new newNode), if_pos rfl]
      · rw [laws.next_setNext_of_ne _ prevNode isNode atPrev, if_neg atPrev,
          if_neg atNew]
  · unfold listAddBetween
    by_cases atNew : node = new
    · subst node
      rw [laws.prev_setPrev_self _ newNode (valued prev prevNode),
        if_neg newNext, if_pos rfl]
    · rw [laws.prev_setPrev_of_ne _ newNode isNode atNew]
      by_cases atNext : node = next
      · subst node
        rw [laws.prev_setPrev_self _ nextNode (valued new newNode), if_pos rfl]
      · rw [laws.prev_setPrev_of_ne _ nextNode isNode atNext,
          laws.prev_setNext _ newNode isNode,
          laws.prev_setNext _ prevNode isNode, if_neg atNext, if_neg atNew]

/-- `list_add_prev` puts the new node at the end of the ring. -/
theorem listAddPrev_ring (valued : ∀ node, nodes node → values node)
    (ring : Ring heap head members)
    (inside : ∀ node, node ∈ head :: members → nodes node)
    {new : Nat} (newNode : nodes new) (fresh : new ∉ head :: members) :
    Ring (listAddPrev heap head new) head (members ++ [new]) := by
  have headMember : head ∈ head :: members := List.mem_cons_self
  have newPrev : new ≠ prev heap head := fun equal =>
    fresh (equal ▸ ring.prev_mem)
  have newHead : new ≠ head := fun equal => fresh (equal ▸ headMember)
  have fields := fun (node : Nat) (isNode : nodes node) =>
    fields_listAddBetween laws heap valued newNode
      (inside _ ring.prev_mem) (inside _ headMember) newPrev newHead isNode
  unfold listAddPrev
  apply ring.linkBefore fresh
  · rw [(fields _ (inside _ ring.prev_mem)).1, if_pos rfl]
  · rw [(fields _ newNode).1, if_neg newPrev, if_pos rfl]
  · rw [(fields _ (inside _ headMember)).2, if_pos rfl]
  · rw [(fields _ newNode).2, if_neg newHead, if_pos rfl]
  · intro node member notLast
    have notNew : node ≠ new := fun equal => fresh (equal ▸ member)
    rw [(fields _ (inside _ member)).1, if_neg notLast, if_neg notNew]
  · intro node member notHead
    have notNew : node ≠ new := fun equal => fresh (equal ▸ member)
    rw [(fields _ (inside _ member)).2, if_neg notHead, if_neg notNew]

theorem listAddPrev_frame (valued : ∀ node, nodes node → values node)
    (ring : Ring heap head members)
    (inside : ∀ node, node ∈ head :: members → nodes node)
    {new : Nat} (newNode : nodes new) (fresh : new ∉ head :: members)
    {node : Nat} (isNode : nodes node) (outside : node ∉ head :: members)
    (other : node ≠ new) :
    next (listAddPrev heap head new) node = next heap node ∧
      prev (listAddPrev heap head new) node = prev heap node := by
  have headMember : head ∈ head :: members := List.mem_cons_self
  have fields :=
    fields_listAddBetween laws heap valued newNode
      (inside _ ring.prev_mem) (inside _ headMember)
      (fun equal => fresh (equal ▸ ring.prev_mem))
      (fun equal => fresh (equal ▸ headMember)) isNode
  have notLast : node ≠ prev heap head := fun equal =>
    outside (equal ▸ ring.prev_mem)
  have notHead : node ≠ head := fun equal => outside (equal ▸ headMember)
  unfold listAddPrev
  rw [fields.1, fields.2, if_neg notLast, if_neg other, if_neg notHead,
    if_neg other]
  exact ⟨rfl, rfl⟩

omit laws in
private theorem listAdd_eq (ring : Ring heap head members) (new : Nat) :
    listAdd heap head new = listAddPrev heap (next heap head) new := by
  have back : prev heap (next heap head) = head := by
    cases members with
    | nil =>
        have alone := Ring.singleton_iff.mp ring
        rw [alone.1, alone.2]
    | cons first rest =>
        have chain := ring.path
        simp only [List.cons_append, List.isChain_cons_cons] at chain
        rw [ring.next_head_cons, chain.1.2]
  rw [listAdd, listAddPrev, back]

omit laws in
private theorem mem_enter_next {first : Nat} {rest : List Nat} (node : Nat) :
    node ∈ first :: (rest ++ [head]) ↔ node ∈ head :: first :: rest := by
  simp only [List.mem_cons, List.mem_append, List.not_mem_nil, or_false]
  tauto

omit laws in
private theorem ring_next (ring : Ring heap head members) :
    ∃ others, Ring heap (next heap head) others ∧
      ∀ node, node ∈ next heap head :: others ↔ node ∈ head :: members := by
  cases members with
  | nil =>
      refine ⟨[], ?_, ?_⟩
      · rw [(Ring.singleton_iff.mp ring).1]
        exact ring
      · intro node
        rw [(Ring.singleton_iff.mp ring).1]
  | cons first rest =>
      refine ⟨rest ++ [head], ?_, ?_⟩
      · rw [ring.next_head_cons]
        exact ring.enter_next
      · rw [ring.next_head_cons]
        exact mem_enter_next

/-- `list_add` puts the new node right after the head. -/
theorem listAdd_ring (valued : ∀ node, nodes node → values node)
    (ring : Ring heap head members)
    (inside : ∀ node, node ∈ head :: members → nodes node)
    {new : Nat} (newNode : nodes new) (fresh : new ∉ head :: members) :
    Ring (listAdd heap head new) head (new :: members) := by
  rw [listAdd_eq ring]
  cases members with
  | nil =>
      rw [(Ring.singleton_iff.mp ring).1]
      exact listAddPrev_ring laws valued ring inside newNode fresh
  | cons first rest =>
      have added : Ring (listAddPrev heap first new) first
          (rest ++ head :: [new]) := by
        have linked := listAddPrev_ring laws valued ring.enter_next
          (fun node member => inside node ((mem_enter_next node).mp member))
          newNode (fun member => fresh ((mem_enter_next new).mp member))
        simpa using linked
      rw [ring.next_head_cons]
      exact added.rotate

theorem listAdd_frame (valued : ∀ node, nodes node → values node)
    (ring : Ring heap head members)
    (inside : ∀ node, node ∈ head :: members → nodes node)
    {new : Nat} (newNode : nodes new) (fresh : new ∉ head :: members)
    {node : Nat} (isNode : nodes node) (outside : node ∉ head :: members)
    (other : node ≠ new) :
    next (listAdd heap head new) node = next heap node ∧
      prev (listAdd heap head new) node = prev heap node := by
  obtain ⟨others, entered, sameNodes⟩ := ring_next ring
  rw [listAdd_eq ring]
  exact listAddPrev_frame laws valued entered
    (fun node member => inside node ((sameNodes node).mp member)) newNode
    (fun member => fresh ((sameNodes new).mp member)) isNode
    (fun member => outside ((sameNodes node).mp member)) other

private theorem fields_listDelBetween (heap : Heap)
    (valued : ∀ node, nodes node → values node)
    {prev next : Nat} (prevNode : nodes prev) (nextNode : nodes next)
    {node : Nat} (isNode : nodes node) :
    LinkHeap.next (listDelBetween heap prev next) node =
        (if node = prev then next else LinkHeap.next heap node) ∧
      LinkHeap.prev (listDelBetween heap prev next) node =
        (if node = next then prev else LinkHeap.prev heap node) := by
  unfold listDelBetween
  constructor
  · by_cases atPrev : node = prev
    · subst node
      rw [laws.next_setNext_self _ prevNode (valued next nextNode), if_pos rfl]
    · rw [laws.next_setNext_of_ne _ prevNode isNode atPrev,
        laws.next_setPrev _ nextNode isNode, if_neg atPrev]
  · rw [laws.prev_setNext _ prevNode isNode]
    by_cases atNext : node = next
    · subst node
      rw [laws.prev_setPrev_self _ nextNode (valued prev prevNode), if_pos rfl]
    · rw [laws.prev_setPrev_of_ne _ nextNode isNode atNext, if_neg atNext]

private theorem ring_of_listDelBetween
    (valued : ∀ node, nodes node → values node)
    {before after : List Nat} {node : Nat}
    (ring : Ring heap head (before ++ node :: after))
    (inside : ∀ other, other ∈ head :: (before ++ node :: after) → nodes other)
    {heap' : Heap}
    (agree : ∀ other, nodes other → other ≠ node →
      next heap' other =
          next (listDelBetween heap (prev heap node) (next heap node)) other ∧
        prev heap' other =
          prev (listDelBetween heap (prev heap node) (next heap node)) other) :
    Ring heap' head (before ++ after) := by
  have entered := ring.rotate
  have isNode : ∀ other, other ∈ node :: (after ++ head :: before) →
      nodes other := by
    intro other member
    apply inside
    simp only [List.mem_cons, List.mem_append] at member ⊢
    tauto
  obtain ⟨first, rest, split⟩ :
      ∃ first rest, after ++ head :: before = first :: rest := by
    cases after with
    | nil => exact ⟨head, before, rfl⟩
    | cons first after => exact ⟨first, after ++ head :: before, rfl⟩
  rw [split] at entered isNode
  have nextNode : next heap node = first := entered.next_head_cons
  have notHead : ∀ other, other ∈ first :: rest → other ≠ node := by
    intro other member equal
    exact (List.nodup_cons.mp entered.nodup).1 (equal ▸ member)
  have prevMember : prev heap node ∈ first :: rest := by
    rcases List.mem_cons.mp entered.prev_mem with same | member
    · have alone := entered.next_prev
      rw [same, nextNode] at alone
      exact (notHead first List.mem_cons_self alone).elim
    · exact member
  have fields := fun {other : Nat} (nodeOther : nodes other) =>
    fields_listDelBetween laws heap valued
      (isNode _ (List.mem_cons_of_mem node prevMember))
      (isNode first (by simp)) nodeOther
  rw [nextNode] at agree
  have read : ∀ other, other ∈ first :: rest →
      next heap' other =
          (if other = prev heap node then first else next heap other) ∧
        prev heap' other =
          (if other = first then prev heap node else prev heap other) := by
    intro other member
    have nodeOther := isNode other (List.mem_cons_of_mem node member)
    have same := agree other nodeOther (notHead other member)
    have written := fields nodeOther
    exact ⟨same.1.trans written.1, same.2.trans written.2⟩
  apply Ring.enter_at_head split
  apply entered.unlinkHead
  · rw [(read _ prevMember).1, if_pos rfl]
  · rw [(read first List.mem_cons_self).2, if_pos rfl]
  · intro other member notLast
    rw [(read other member).1, if_neg notLast]
  · intro other member notFirst
    rw [(read other member).2, if_neg notFirst]

private theorem frame_of_listDelBetween
    (valued : ∀ node, nodes node → values node)
    {node : Nat} (ring : Ring heap node members)
    (inside : ∀ other, other ∈ node :: members → nodes other)
    {other : Nat} (isNode : nodes other) (outside : other ∉ node :: members) :
    next (listDelBetween heap (prev heap node) (next heap node)) other =
        next heap other ∧
      prev (listDelBetween heap (prev heap node) (next heap node)) other =
        prev heap other := by
  have nextMember : next heap node ∈ node :: members := by
    rw [ring.next_eq]
    cases members with
    | nil => simp
    | cons first rest => simp
  have fields := fields_listDelBetween laws heap valued
    (inside _ ring.prev_mem) (inside _ nextMember) isNode
  have notPrev : other ≠ prev heap node := fun equal =>
    outside (equal ▸ ring.prev_mem)
  have notNext : other ≠ next heap node := fun equal =>
    outside (equal ▸ nextMember)
  rw [fields.1, fields.2, if_neg notPrev, if_neg notNext]
  exact ⟨rfl, rfl⟩

/-- `list_del` takes the node out of its ring. -/
theorem listDel_ring (valued : ∀ node, nodes node → values node)
    {before after : List Nat} {node : Nat}
    (ring : Ring heap head (before ++ node :: after))
    (inside : ∀ other, other ∈ head :: (before ++ node :: after) → nodes other) :
    Ring (listDel heap node).2 head (before ++ after) := by
  have nodeMember : node ∈ head :: (before ++ node :: after) := by simp
  apply ring_of_listDelBetween laws valued ring inside
  intro other isNode different
  unfold listDel
  constructor
  · rw [laws.next_setPrev _ (inside node nodeMember) isNode,
      laws.next_setNext_of_ne _ (inside node nodeMember) isNode different]
  · rw [laws.prev_setPrev_of_ne _ (inside node nodeMember) isNode different,
      laws.prev_setNext _ (inside node nodeMember) isNode]

theorem listDel_null (heap : Heap) (null : values 0) {node : Nat}
    (isNode : nodes node) :
    next (listDel heap node).2 node = 0 ∧
      prev (listDel heap node).2 node = 0 := by
  unfold listDel
  rw [laws.next_setPrev _ isNode isNode,
    laws.next_setNext_self _ isNode null, laws.prev_setPrev_self _ isNode null]
  exact ⟨rfl, rfl⟩

theorem listDelSafe_ring (valued : ∀ node, nodes node → values node)
    {before after : List Nat} {node : Nat}
    (ring : Ring heap head (before ++ node :: after))
    (inside : ∀ other, other ∈ head :: (before ++ node :: after) → nodes other) :
    Ring (listDelSafe heap node) head (before ++ after) := by
  have nodeMember : node ∈ head :: (before ++ node :: after) := by simp
  apply ring_of_listDelBetween laws valued ring inside
  intro other isNode different
  exact listInit_frame laws _ (inside node nodeMember) isNode different

theorem listPop_ring (valued : ∀ node, nodes node → values node)
    {first : Nat} {rest : List Nat} (ring : Ring heap head (first :: rest))
    (inside : ∀ node, node ∈ head :: first :: rest → nodes node) :
    (listPop heap head).1 = first ∧ Ring (listPop heap head).2 head rest := by
  unfold listPop
  rw [ring.next_head_cons]
  have split : Ring heap head ([] ++ first :: rest) := ring
  exact ⟨rfl, listDel_ring laws valued split inside⟩

theorem listDel_frame (valued : ∀ node, nodes node → values node)
    {node : Nat} (ring : Ring heap node members)
    (inside : ∀ other, other ∈ node :: members → nodes other)
    {other : Nat} (isNode : nodes other) (outside : other ∉ node :: members) :
    next (listDel heap node).2 other = next heap other ∧
      prev (listDel heap node).2 other = prev heap other := by
  have nodeNode := inside node List.mem_cons_self
  have different : other ≠ node := fun equal =>
    outside (equal ▸ List.mem_cons_self)
  have kept := frame_of_listDelBetween laws valued ring inside isNode outside
  unfold listDel
  constructor
  · rw [laws.next_setPrev _ nodeNode isNode,
      laws.next_setNext_of_ne _ nodeNode isNode different, kept.1]
  · rw [laws.prev_setPrev_of_ne _ nodeNode isNode different,
      laws.prev_setNext _ nodeNode isNode, kept.2]

theorem listDelSafe_frame (valued : ∀ node, nodes node → values node)
    {node : Nat} (ring : Ring heap node members)
    (inside : ∀ other, other ∈ node :: members → nodes other)
    {other : Nat} (isNode : nodes other) (outside : other ∉ node :: members) :
    next (listDelSafe heap node) other = next heap other ∧
      prev (listDelSafe heap node) other = prev heap other := by
  have nodeNode := inside node List.mem_cons_self
  have different : other ≠ node := fun equal =>
    outside (equal ▸ List.mem_cons_self)
  have kept := frame_of_listDelBetween laws valued ring inside isNode outside
  have initialized := listInit_frame laws
    (listDelBetween heap (prev heap node) (next heap node)) nodeNode isNode
    different
  exact ⟨initialized.1.trans kept.1, initialized.2.trans kept.2⟩

theorem listPop_frame (valued : ∀ node, nodes node → values node)
    {first : Nat} {rest : List Nat} (ring : Ring heap head (first :: rest))
    (inside : ∀ node, node ∈ head :: first :: rest → nodes node)
    {other : Nat} (isNode : nodes other)
    (outside : other ∉ head :: first :: rest) :
    next (listPop heap head).2 other = next heap other ∧
      prev (listPop heap head).2 other = prev heap other := by
  unfold listPop
  rw [ring.next_head_cons]
  exact listDel_frame laws valued ring.enter_next
    (fun node member => inside node ((mem_enter_next node).mp member)) isNode
    (fun member => outside ((mem_enter_next other).mp member))

end Specification

section Walks

variable {heap : Heap} {head : Nat} {members : List Nat}

private theorem listLenLoop_eq :
    ∀ (rest : List Nat) (p len fuel : Nat),
      List.IsChain (Linked heap) (p :: rest ++ [head]) →
      head ∉ rest → rest.length < fuel → len + rest.length < 4294967296 →
      listLenLoop heap head fuel p len = .ok (len + rest.length)
  | rest, p, len, 0, _, _, enough, _ => by
      omega
  | [], p, len, fuel + 1, chain, _, _, _ => by
      simp only [List.cons_append, List.nil_append, List.isChain_pair] at chain
      rw [listLenLoop, chain.1]
      simp
  | first :: rest, p, len, fuel + 1, chain, absent, enough, bound => by
      simp only [List.cons_append, List.isChain_cons_cons] at chain
      simp only [List.length_cons] at enough bound
      have different : first ≠ head := fun equal => absent (by simp [equal])
      rw [listLenLoop, chain.1.1, if_pos different, u32_of_lt (by omega),
        listLenLoop_eq rest first (len + 1) fuel chain.2
          (fun member => absent (List.mem_cons_of_mem first member))
          (by omega) (by omega)]
      simp only [List.length_cons]
      congr 1
      omega

theorem listLen_ring (ring : Ring heap head members)
    (bound : members.length < addressCount) :
    listLen heap head = .ok members.length := by
  have counted := listLenLoop_eq members head 0 addressCount ring.path
    (List.nodup_cons.mp ring.nodup).1 bound (by unfold addressCount at bound; omega)
  simpa [listLen] using counted

theorem listEmpty_ring (ring : Ring heap head members)
    (bound : members.length < addressCount) :
    listEmpty heap head = .ok members.isEmpty := by
  unfold listEmpty
  rw [listLen_ring ring bound]
  cases members with
  | nil => rfl
  | cons first rest => simp

private theorem listFindItemLoop_eq (node : Nat) :
    ∀ (rest : List Nat) (p fuel : Nat),
      List.IsChain (Linked heap) (p :: rest ++ [head]) →
      head ∉ rest → rest.length < fuel →
      listFindItemLoop heap head node fuel p =
        .ok (decide (node ∈ (p :: rest).dropLast))
  | rest, p, 0, _, _, enough => by
      omega
  | [], p, fuel + 1, chain, _, _ => by
      simp only [List.cons_append, List.nil_append, List.isChain_pair] at chain
      rw [listFindItemLoop, chain.1]
      simp
  | first :: rest, p, fuel + 1, chain, absent, enough => by
      simp only [List.cons_append, List.isChain_cons_cons] at chain
      simp only [List.length_cons] at enough
      have different : first ≠ head := fun equal => absent (by simp [equal])
      rw [listFindItemLoop, chain.1.1, if_pos different]
      by_cases found : p = node
      · rw [if_pos found]
        simp [found]
      · rw [if_neg found, listFindItemLoop_eq node rest first fuel chain.2
          (fun member => absent (List.mem_cons_of_mem first member))
          (by omega)]
        simp [Ne.symm found]

/-- `list_find_item` compares every node of the ring except the last one. -/
theorem listFindItem_ring {node : Nat} (ring : Ring heap head members)
    (headNonzero : head ≠ 0) (nodeNonzero : node ≠ 0)
    (bound : members.length < addressCount) :
    listFindItem heap head node =
      .ok (decide (node ∈ (head :: members).dropLast)) := by
  rw [listFindItem, if_neg (by simp [headNonzero, nodeNonzero])]
  exact listFindItemLoop_eq node members head addressCount ring.path
    (List.nodup_cons.mp ring.nodup).1 bound

theorem listFindItem_of_notMem {node : Nat} (ring : Ring heap head members)
    (absent : node ∉ head :: members)
    (bound : members.length < addressCount) :
    listFindItem heap head node = .ok false := by
  by_cases null : head = 0 ∨ node = 0
  · rw [listFindItem, if_pos null]
  · rw [not_or] at null
    rw [listFindItem_ring ring null.1 null.2 bound, decide_eq_false]
    exact fun member => absent ((List.dropLast_sublist _).subset member)

end Walks

end Simos
