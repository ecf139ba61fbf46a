import Mathlib.Data.BitVec
import Mathlib.Data.Fin.Tuple.Basic
import Mathlib.Data.Fintype.Sum
import Mathlib.Tactic.DeriveFintype
import Simos.Library.Priorities

/-!
# Two cascaded interrupt controllers of type 8259A

Each controller has eight lines, of which line 0 comes first.  It is set up by
up to four initialization words; a request stays until it is acknowledged, and
an acknowledged line is in service until an end of interrupt.  The second
controller asks through one line of the first.  Of the operation words, only
the masks and the unspecific end of interrupt are used here, and requests come
as edges.

* `PicPair.acknowledge` is what the processor is told, and `PicPair.out` is a
  byte for one of the four ports;
* `PicPair.Settled` says that both are set up and nothing is in service;
* `Settled.acknowledge_spec`: what is acknowledged then is the first line that
  is requested and not masked, with its own vector.
-/

namespace Simos.Library

/-- Which word a controller expects at its data port. -/
inductive PicPhase where
  | ready
  | icw2
  | icw3
  | icw4
  deriving DecidableEq, Repr

structure Pic where
  phase : PicPhase
  icw1 : BitVec 8
  base : BitVec 8
  cascade : BitVec 8
  mode : BitVec 8
  mask : BitVec 8
  requested : Fin 8 → Bool
  inService : Fin 8 → Bool

namespace Pic

def request (pic : Pic) (line : Fin 8) : Pic :=
  { pic with requested := Function.update pic.requested line true }

/-- The line is requested and not masked. -/
def pending (pic : Pic) (line : Fin 8) : Bool :=
  pic.requested line && !pic.mask.getLsbD line

/-- The line for which the processor is interrupted: the first one that is
pending, when no line up to it is in service. -/
def next (pic : Pic) : Option (Fin 8) :=
  if pic.phase = .ready then
    (Fin.find? pic.pending).filter fun line =>
      decide (∀ other ≤ line, pic.inService other = false)
  else
    none

/-- The line is acknowledged; in the mode of automatic ends it is not in
service. -/
def serve (pic : Pic) (line : Fin 8) : Pic :=
  { pic with
    requested := Function.update pic.requested line false
    inService := Function.update pic.inService line (!pic.mode.getLsbD 1) }

def endOfInterrupt (pic : Pic) : Pic :=
  match Fin.find? pic.inService with
  | some line =>
      { pic with inService := Function.update pic.inService line false }
  | none => pic

def writeCtrl (pic : Pic) (value : BitVec 8) : Pic :=
  if value.getLsbD 4 then
    { pic with
      phase := .icw2
      icw1 := value
      mode := 0
      mask := 0
      requested := fun _ => false
      inService := fun _ => false }
  else if value = 0x20 then
    pic.endOfInterrupt
  else
    pic

def writeData (pic : Pic) (value : BitVec 8) : Pic :=
  let last := if pic.icw1.getLsbD 0 then PicPhase.icw4 else .ready
  match pic.phase with
  | .ready => { pic with mask := value }
  | .icw2 =>
      { pic with
        base := value &&& 0xf8
        phase := if pic.icw1.getLsbD 1 then last else .icw3 }
  | .icw3 => { pic with cascade := value, phase := last }
  | .icw4 => { pic with mode := value, phase := .ready }

end Pic

structure PicPair where
  master : Pic
  slave : Pic

inductive PicLine where
  | master (line : Fin 8)
  | slave (line : Fin 8)
  deriving DecidableEq, Fintype, Repr

namespace PicPair

def request (pair : PicPair) : PicLine → PicPair
  | .master line => { pair with master := pair.master.request line }
  | .slave line => { pair with slave := pair.slave.request line }

/-- The first controller, whose lines with a controller behind them are
requested while that one has something. -/
def view (pair : PicPair) : Pic :=
  { pair.master with
    requested := fun line =>
      if pair.master.cascade.getLsbD line then pair.slave.next.isSome
      else pair.master.requested line }

/-- The vector that the processor gets, when it is interrupted. -/
def acknowledge (pair : PicPair) : Option (BitVec 8 × PicPair) :=
  match pair.view.next with
  | none => none
  | some line =>
      if pair.master.cascade.getLsbD line then
        match pair.slave.next with
        | some behind =>
            if pair.slave.cascade = BitVec.ofNat 8 line then
              some (pair.slave.base + BitVec.ofNat 8 behind,
                ⟨pair.master.serve line, pair.slave.serve behind⟩)
            else
              none
        | none => none
      else
        some (pair.master.base + BitVec.ofNat 8 line,
          { pair with master := pair.master.serve line })

def out (pair : PicPair) (port value : BitVec 8) : PicPair :=
  if port = 0x20 then { pair with master := pair.master.writeCtrl value }
  else if port = 0x21 then { pair with master := pair.master.writeData value }
  else if port = 0xa0 then { pair with slave := pair.slave.writeCtrl value }
  else if port = 0xa1 then { pair with slave := pair.slave.writeData value }
  else pair

def outs (pair : PicPair) (writes : List (BitVec 8 × BitVec 8)) : PicPair :=
  writes.foldl (fun pair write => pair.out write.1 write.2) pair

end PicPair

namespace Pic

variable (pic : Pic)

theorem endOfInterrupt_request (line : Fin 8) :
    (pic.request line).endOfInterrupt = pic.endOfInterrupt.request line := by
  have same : (pic.request line).inService = pic.inService := rfl
  rw [endOfInterrupt, endOfInterrupt, same]
  cases Fin.find? pic.inService with
  | none => rfl
  | some _ => rfl

theorem endOfInterrupt_requested :
    pic.endOfInterrupt.requested = pic.requested := by
  rw [endOfInterrupt]
  cases Fin.find? pic.inService with
  | none => rfl
  | some _ => rfl

end Pic

/-! ## Controllers with nothing in service -/

/-- A controller that is set up, with nothing in service. -/
structure Pic.Settled (base cascade mask : BitVec 8) (pic : Pic) : Prop where
  phase : pic.phase = .ready
  base : pic.base = base
  cascade : pic.cascade = cascade
  mask : pic.mask = mask
  normal : pic.mode.getLsbD 1 = false
  idle : ∀ line, pic.inService line = false

namespace Pic.Settled

variable {base cascade mask : BitVec 8} {pic : Pic} {line : Fin 8}

theorem request (settled : Settled base cascade mask pic) (line : Fin 8) :
    Settled base cascade mask (pic.request line) :=
  { settled with }

/-- The processor is interrupted for the first line that is pending. -/
theorem next_eq (settled : Settled base cascade mask pic) :
    pic.next = Fin.find? pic.pending := by
  rw [next, if_pos settled.phase]
  cases found : Fin.find? pic.pending with
  | none => rfl
  | some line => simp [Option.filter, settled.idle]

theorem next_eq_some_iff (settled : Settled base cascade mask pic) :
    pic.next = some line ↔
      pic.pending line = true ∧
        ∀ other, other < line → pic.pending other = false := by
  rw [settled.next_eq, Fin.find?_eq_some_iff]

theorem next_eq_none_iff (settled : Settled base cascade mask pic) :
    pic.next = none ↔ ∀ line, pic.pending line = false := by
  rw [settled.next_eq, Fin.find?_eq_none_iff]

theorem endOfInterrupt_eq (settled : Settled base cascade mask pic) :
    pic.endOfInterrupt = pic := by
  have none : Fin.find? pic.inService = none :=
    Fin.find?_eq_none_iff.mpr settled.idle
  rw [endOfInterrupt, none]

theorem serve_endOfInterrupt (settled : Settled base cascade mask pic)
    (line : Fin 8) :
    (pic.serve line).endOfInterrupt =
      { pic with
        requested := Function.update pic.requested line false } := by
  have idle : pic.inService = fun _ => false := funext settled.idle
  have served : (pic.serve line).inService =
      Function.update (fun _ => false) line true := by
    rw [serve, settled.normal, idle]
    rfl
  have found : Fin.find? (pic.serve line).inService = some line := by
    rw [served, Fin.find?_eq_some_iff]
    refine ⟨by rw [Function.update_self], ?_⟩
    intro other before
    rw [Function.update_of_ne (Fin.ne_of_lt before)]
  have cleared :
      Function.update (pic.serve line).inService line false =
        pic.inService := by
    rw [served, Function.update_idem, idle]
    exact Function.update_eq_self line _
  rw [endOfInterrupt, found]
  show { pic.serve line with
    inService := Function.update (pic.serve line).inService line false } = _
  rw [cleared, serve]

theorem served (settled : Settled base cascade mask pic) (line : Fin 8) :
    Settled base cascade mask
      { pic with
        requested := Function.update pic.requested line false } :=
  { settled with }

end Pic.Settled

/-- How two controllers are set up: their vectors and masks, and the line
between them. -/
structure PicWiring where
  masterBase : BitVec 8
  slaveBase : BitVec 8
  masterMask : BitVec 8
  slaveMask : BitVec 8
  link : Fin 8
  deriving DecidableEq, Repr

namespace PicWiring

variable (w : PicWiring)

def vector : PicLine → BitVec 8
  | .master line => w.masterBase + BitVec.ofNat 8 line
  | .slave line => w.slaveBase + BitVec.ofNat 8 line

/-- The line of the first controller that a request comes through. -/
def masterLine : PicLine → Fin 8
  | .master line => line
  | .slave _ => w.link

/-- Lines of a lower rank come first. -/
def rank : PicLine → Nat
  | .master line => 16 * line
  | .slave line => 16 * w.link + 1 + line

def Enabled : PicLine → Prop
  | .master line => w.masterMask.getLsbD line = false ∧ line ≠ w.link
  | .slave line => w.slaveMask.getLsbD line = false

instance (line : PicLine) : Decidable (w.Enabled line) := by
  cases line with
  | master line => exact inferInstanceAs (Decidable (_ ∧ _))
  | slave line => exact inferInstanceAs (Decidable (_ = _))

theorem rank_injective : Function.Injective w.rank := by
  intro line other same
  cases line with
  | master line =>
      cases other with
      | master other =>
          have equal : line = other := by
            simp only [rank] at same
            omega
          rw [equal]
      | slave other =>
          simp only [rank] at same
          omega
  | slave line =>
      cases other with
      | master other =>
          simp only [rank] at same
          omega
      | slave other =>
          have equal : line = other := by
            simp only [rank] at same
            omega
          rw [equal]

end PicWiring

namespace PicPair

def Requested (pair : PicPair) : PicLine → Prop
  | .master line => pair.master.requested line = true
  | .slave line => pair.slave.requested line = true

instance (pair : PicPair) (line : PicLine) :
    Decidable (pair.Requested line) := by
  cases line with
  | master line => exact inferInstanceAs (Decidable (_ = _))
  | slave line => exact inferInstanceAs (Decidable (_ = _))

/-- The lines for which the processor is to be interrupted. -/
def waiting (w : PicWiring) (pair : PicPair) : Finset PicLine :=
  Finset.univ.filter fun line => w.Enabled line ∧ pair.Requested line

/-- Both controllers are set up, and nothing is in service. -/
structure Settled (w : PicWiring) (pair : PicPair) : Prop where
  master : Pic.Settled w.masterBase (BitVec.twoPow 8 w.link) w.masterMask
    pair.master
  slave : Pic.Settled w.slaveBase (BitVec.ofNat 8 w.link) w.slaveMask
    pair.slave
  through : w.masterMask.getLsbD w.link = false

def ends : List (BitVec 8 × BitVec 8) :=
  [(0xa0, 0x20), (0x20, 0x20)]

def cleared (pair : PicPair) : PicLine → PicPair
  | .master line =>
      { pair with
        master := { pair.master with
          requested := Function.update pair.master.requested line false } }
  | .slave line =>
      { pair with
        slave := { pair.slave with
          requested := Function.update pair.slave.requested line false } }

section Waiting

variable {w : PicWiring} {pair : PicPair}

theorem mem_waiting {line : PicLine} :
    line ∈ pair.waiting w ↔ w.Enabled line ∧ pair.Requested line := by
  rw [waiting, Finset.mem_filter]
  exact and_iff_right (Finset.mem_univ line)

theorem outs_ends (pair : PicPair) :
    pair.outs ends =
      ⟨pair.master.endOfInterrupt, pair.slave.endOfInterrupt⟩ :=
  rfl

/-! ### Ends of interrupt -/

section Ends

variable {writes : List (BitVec 8 × BitVec 8)}

theorem out_end_request {write : BitVec 8 × BitVec 8}
    (member : write ∈ ends) (line : PicLine) :
    (pair.request line).out write.1 write.2 =
      (pair.out write.1 write.2).request line := by
  have either : write = (0xa0, 0x20) ∨ write = (0x20, 0x20) := by
    simpa [ends] using member
  rcases either with rfl | rfl
  · cases line with
    | master line => rfl
    | slave line =>
        exact congrArg (PicPair.mk pair.master)
          (pair.slave.endOfInterrupt_request line)
  · cases line with
    | master line =>
        exact congrArg (PicPair.mk · pair.slave)
          (pair.master.endOfInterrupt_request line)
    | slave line => rfl

theorem outs_request (inside : writes ⊆ ends) (line : PicLine) :
    ∀ pair : PicPair,
      (pair.request line).outs writes = (pair.outs writes).request line := by
  induction writes with
  | nil =>
      intro pair
      rfl
  | cons write writes inductionHypothesis =>
      intro pair
      obtain ⟨first, rest⟩ := List.cons_subset.mp inside
      have now := @out_end_request pair write first line
      rw [outs, outs, List.foldl_cons, List.foldl_cons, now]
      exact inductionHypothesis rest _

theorem waiting_out_end {write : BitVec 8 × BitVec 8}
    (member : write ∈ ends) :
    (pair.out write.1 write.2).waiting w = pair.waiting w := by
  have either : write = (0xa0, 0x20) ∨ write = (0x20, 0x20) := by
    simpa [ends] using member
  ext line
  rw [mem_waiting, mem_waiting]
  apply and_congr_right
  intro _
  rcases either with rfl | rfl
  · cases line with
    | master line => rfl
    | slave line =>
        show pair.slave.endOfInterrupt.requested line = true ↔
          pair.slave.requested line = true
        rw [Pic.endOfInterrupt_requested]
  · cases line with
    | master line =>
        show pair.master.endOfInterrupt.requested line = true ↔
          pair.master.requested line = true
        rw [Pic.endOfInterrupt_requested]
    | slave line => rfl

theorem waiting_outs (inside : writes ⊆ ends) :
    ∀ pair : PicPair, (pair.outs writes).waiting w = pair.waiting w := by
  induction writes with
  | nil =>
      intro pair
      rfl
  | cons write writes inductionHypothesis =>
      intro pair
      obtain ⟨first, rest⟩ := List.cons_subset.mp inside
      rw [outs, List.foldl_cons]
      exact (inductionHypothesis rest _).trans (waiting_out_end first)

end Ends

namespace Settled

theorem slave_pending (settled : Settled w pair) (line : Fin 8) :
    pair.slave.pending line = true ↔ .slave line ∈ pair.waiting w := by
  rw [mem_waiting, Pic.pending, settled.slave.mask, Bool.and_eq_true,
    Bool.not_eq_true']
  exact and_comm

private theorem cascade_eq (settled : Settled w pair) (line : Fin 8) :
    pair.master.cascade.getLsbD line = decide (line = w.link) := by
  rw [settled.master.cascade, BitVec.getLsbD_twoPow]
  have small : (w.link : Nat) < 8 := w.link.isLt
  by_cases same : line = w.link
  · simp [same, small]
  · have other : (w.link : Nat) ≠ line := fun equal =>
      same (Fin.ext equal.symm)
    simp [same, other]

theorem view (settled : Settled w pair) :
    Pic.Settled w.masterBase (BitVec.twoPow 8 w.link) w.masterMask
      pair.view :=
  { settled.master with }

/-- The line between the controllers is pending while something waits at the
second one. -/
theorem view_pending_link (settled : Settled w pair) :
    pair.view.pending w.link = pair.slave.next.isSome := by
  have mask : pair.view.mask = w.masterMask := settled.view.mask
  have linked : pair.master.cascade.getLsbD w.link = true := by
    rw [settled.cascade_eq, decide_eq_true rfl]
  rw [Pic.pending, mask, settled.through, Bool.not_false, Bool.and_true]
  exact if_pos linked

private theorem view_pending_of_ne (settled : Settled w pair) {line : Fin 8}
    (other : line ≠ w.link) :
    pair.view.pending line = true ↔ .master line ∈ pair.waiting w := by
  have mask : pair.view.mask = w.masterMask := settled.view.mask
  have direct : pair.view.requested line = pair.master.requested line := by
    have apart : ¬ pair.master.cascade.getLsbD line = true := by
      rw [settled.cascade_eq, decide_eq_true_eq]
      exact other
    exact if_neg apart
  rw [mem_waiting, Pic.pending, mask, direct, Bool.and_eq_true,
    Bool.not_eq_true']
  constructor
  · rintro ⟨requested, unmasked⟩
    exact ⟨⟨unmasked, other⟩, requested⟩
  · rintro ⟨⟨unmasked, -⟩, requested⟩
    exact ⟨requested, unmasked⟩

private theorem slave_next_isSome (settled : Settled w pair) {line : Fin 8}
    (waits : .slave line ∈ pair.waiting w) :
    pair.slave.next.isSome = true := by
  cases found : pair.slave.next with
  | some _ => rfl
  | none =>
      have empty := settled.slave.next_eq_none_iff.mp found line
      have full := (settled.slave_pending line).mpr waits
      rw [empty] at full
      exact absurd full Bool.false_ne_true

/-- Whoever waits for the second controller makes the line between them
pending, and whoever waits for the first one its own line. -/
theorem view_pending_of_mem (settled : Settled w pair) {line : PicLine}
    (waits : line ∈ pair.waiting w) :
    pair.view.pending (w.masterLine line) = true := by
  cases line with
  | master line =>
      have other : line ≠ w.link := (mem_waiting.mp waits).1.2
      exact (settled.view_pending_of_ne other).mpr waits
  | slave line =>
      rw [PicWiring.masterLine, settled.view_pending_link]
      exact settled.slave_next_isSome waits

/-! ### The first line that waits -/

theorem not_before (settled : Settled w pair) {line : Fin 8}
    (before : ∀ other, other < line → pair.view.pending other = false)
    {other : PicLine} (waits : other ∈ pair.waiting w) :
    line ≤ w.masterLine other := by
  apply not_lt.mp
  intro earlier
  have pending := settled.view_pending_of_mem waits
  rw [before _ earlier] at pending
  exact Bool.false_ne_true pending

theorem master_first (settled : Settled w pair) {line : Fin 8}
    (other : line ≠ w.link)
    (before : ∀ other, other < line → pair.view.pending other = false) :
    ∀ other ∈ pair.waiting w, w.rank (.master line) ≤ w.rank other := by
  intro tested waits
  have le := Fin.le_def.mp (settled.not_before before waits)
  have apart : (line : Nat) ≠ w.link := fun same => other (Fin.ext same)
  cases tested with
  | master tested =>
      simp only [PicWiring.rank, PicWiring.masterLine] at le ⊢
      omega
  | slave tested =>
      simp only [PicWiring.rank, PicWiring.masterLine] at le ⊢
      omega

theorem slave_first (settled : Settled w pair) {line : Fin 8}
    (beforeLink : ∀ other, other < w.link → pair.view.pending other = false)
    (before : ∀ other, other < line → pair.slave.pending other = false) :
    ∀ other ∈ pair.waiting w, w.rank (.slave line) ≤ w.rank other := by
  intro tested waits
  cases tested with
  | master tested =>
      have le := Fin.le_def.mp (settled.not_before beforeLink waits)
      have apart : (tested : Nat) ≠ w.link := fun same =>
        (mem_waiting.mp waits).1.2 (Fin.ext same)
      simp only [PicWiring.rank, PicWiring.masterLine] at le ⊢
      omega
  | slave tested =>
      have pending := (settled.slave_pending tested).mpr waits
      have le : line ≤ tested := by
        apply not_lt.mp
        intro earlier
        rw [before tested earlier] at pending
        exact Bool.false_ne_true pending
      have le' := Fin.le_def.mp le
      simp only [PicWiring.rank]
      omega

/-! ### Requests and acknowledgements -/

theorem link_not_mem : .master w.link ∉ pair.waiting w := by
  intro member
  exact (mem_waiting.mp member).1.2 rfl

theorem cleared (settled : Settled w pair) (line : PicLine) :
    (pair.cleared line).Settled w := by
  cases line with
  | master line =>
      exact ⟨settled.master.served line, settled.slave, settled.through⟩
  | slave line =>
      exact ⟨settled.master, settled.slave.served line, settled.through⟩

private theorem requested_cleared (pair : PicPair) (line other : PicLine) :
    (pair.cleared line).Requested other ↔
      other ≠ line ∧ pair.Requested other := by
  cases line with
  | master line =>
      cases other with
      | master other =>
          simp only [PicPair.cleared, Requested, Function.update_apply, ne_eq,
            PicLine.master.injEq]
          split <;> simp_all
      | slave other => simp [PicPair.cleared, Requested]
  | slave line =>
      cases other with
      | master other => simp [PicPair.cleared, Requested]
      | slave other =>
          simp only [PicPair.cleared, Requested, Function.update_apply, ne_eq,
            PicLine.slave.injEq]
          split <;> simp_all

private theorem waiting_cleared (pair : PicPair) (line : PicLine) :
    (pair.cleared line).waiting w = (pair.waiting w).erase line := by
  ext other
  rw [Finset.mem_erase, mem_waiting, mem_waiting, requested_cleared]
  exact and_left_comm

private theorem outs_master (settled : Settled w pair) (line : Fin 8) :
    outs { pair with master := pair.master.serve line } ends =
      pair.cleared (.master line) := by
  rw [outs_ends, settled.master.serve_endOfInterrupt,
    settled.slave.endOfInterrupt_eq]
  rfl

private theorem outs_both (settled : Settled w pair) (line behind : Fin 8) :
    outs ⟨pair.master.serve line, pair.slave.serve behind⟩ ends =
      (pair.cleared (.master line)).cleared (.slave behind) := by
  rw [outs_ends, settled.master.serve_endOfInterrupt,
    settled.slave.serve_endOfInterrupt]
  rfl

theorem request (settled : Settled w pair) (line : PicLine) :
    (pair.request line).Settled w := by
  cases line with
  | master line =>
      exact ⟨settled.master.request line, settled.slave, settled.through⟩
  | slave line =>
      exact ⟨settled.master, settled.slave.request line, settled.through⟩

theorem requested_request (pair : PicPair) (line other : PicLine) :
    (pair.request line).Requested other ↔
      other = line ∨ pair.Requested other := by
  cases line with
  | master line =>
      cases other with
      | master other =>
          simp only [PicPair.request, Requested, Pic.request,
            Function.update_apply, PicLine.master.injEq]
          split <;> simp_all
      | slave other => simp [PicPair.request, Requested]
  | slave line =>
      cases other with
      | master other => simp [PicPair.request, Requested]
      | slave other =>
          simp only [PicPair.request, Requested, Pic.request,
            Function.update_apply, PicLine.slave.injEq]
          split <;> simp_all

/-- A request on a line that is not masked waits, and others are lost on the
processor. -/
theorem waiting_request (pair : PicPair) (line : PicLine) :
    (pair.request line).waiting w =
      if w.Enabled line then insert line (pair.waiting w)
      else pair.waiting w := by
  ext other
  rw [mem_waiting, requested_request]
  by_cases enabled : w.Enabled line
  · rw [if_pos enabled, Finset.mem_insert, mem_waiting]
    constructor
    · rintro ⟨enabled', same | requested⟩
      · exact Or.inl same
      · exact Or.inr ⟨enabled', requested⟩
    · rintro (rfl | ⟨enabled', requested⟩)
      · exact ⟨enabled, Or.inl rfl⟩
      · exact ⟨enabled', Or.inr requested⟩
  · rw [if_neg enabled, mem_waiting]
    constructor
    · rintro ⟨enabled', rfl | requested⟩
      · exact absurd enabled' enabled
      · exact ⟨enabled', requested⟩
    · rintro ⟨enabled', requested⟩
      exact ⟨enabled', Or.inr requested⟩

/-- What is acknowledged is the first line that waits.  With the ends of
interrupt behind it, only its own request is gone. -/
theorem acknowledge_spec (settled : Settled w pair) {vector : BitVec 8}
    {pair' : PicPair} (told : pair.acknowledge = some (vector, pair')) :
    ∃ line ∈ pair.waiting w,
      (∀ other ∈ pair.waiting w, w.rank line ≤ w.rank other) ∧
        vector = w.vector line ∧ (pair'.outs ends).Settled w ∧
        (pair'.outs ends).waiting w = (pair.waiting w).erase line := by
  cases found : pair.view.next with
  | none => simp [acknowledge, found] at told
  | some line =>
      have first := settled.view.next_eq_some_iff.mp found
      by_cases linked : line = w.link
      · cases foundBehind : pair.slave.next with
        | none =>
            simp [acknowledge, found, settled.cascade_eq, linked,
              foundBehind] at told
        | some behind =>
            have firstBehind :=
              settled.slave.next_eq_some_iff.mp foundBehind
            simp only [acknowledge, found, settled.cascade_eq, linked,
              decide_true, if_true, foundBehind, settled.slave.cascade,
              Option.some.injEq, Prod.mk.injEq] at told
            have waits := (settled.slave_pending behind).mp firstBehind.1
            refine ⟨.slave behind, waits, ?_, ?_, ?_⟩
            · rw [linked] at first
              exact settled.slave_first first.2 firstBehind.2
            · rw [← told.1, settled.slave.base]
              rfl
            · rw [← told.2, settled.outs_both]
              refine ⟨(settled.cleared _).cleared _, ?_⟩
              rw [waiting_cleared, waiting_cleared,
                Finset.erase_eq_of_notMem link_not_mem]
      · simp only [acknowledge, found, settled.cascade_eq, linked,
          decide_false, Bool.false_eq_true, if_false, Option.some.injEq,
          Prod.mk.injEq] at told
        have waits := (settled.view_pending_of_ne linked).mp first.1
        refine ⟨.master line, waits, settled.master_first linked first.2,
          ?_, ?_⟩
        · rw [← told.1, settled.master.base]
          rfl
        · rw [← told.2, settled.outs_master]
          exact ⟨settled.cleared _, waiting_cleared pair _⟩

theorem acknowledge_isSome (settled : Settled w pair)
    (waits : (pair.waiting w).Nonempty) : pair.acknowledge.isSome = true := by
  obtain ⟨line, member⟩ := waits
  have pending := settled.view_pending_of_mem member
  cases found : pair.view.next with
  | none =>
      rw [settled.view.next_eq_none_iff.mp found] at pending
      exact absurd pending Bool.false_ne_true
  | some line =>
      by_cases linked : line = w.link
      · have behind := (settled.view.next_eq_some_iff.mp found).1
        rw [linked, settled.view_pending_link,
          Option.isSome_iff_exists] at behind
        obtain ⟨behind, foundBehind⟩ := behind
        simp only [acknowledge, found, settled.cascade_eq, linked,
          decide_true, if_true, foundBehind, settled.slave.cascade,
          Option.isSome_some]
      · simp only [acknowledge, found, settled.cascade_eq, linked,
          decide_false, Bool.false_eq_true, if_false, Option.isSome_some]

end Settled

end Waiting

end PicPair

end Simos.Library
