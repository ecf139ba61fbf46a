import Mathlib.Data.Finset.Card
import Simos.Kernel.BitmapFirstFit
import Simos.Library.Runs
import Simos.Mm.PoolRanges

/-!
# Pages of a user process (`mm/memory.c`, `page_alloc(PF_USER, n)`)

The frames of a block come one by one from the user pool; the virtual pages
are reserved with `bitmap_set_bits`, which marks the first page of the block
only.  A run is a sequence of successful allocations of one process.

* `TakesFrames`: each success takes exactly `n` frames of the pool;
* `userRun_exact_iff`: the runs in which the blocks are apart and exactly
  their pages are marked are those of single pages.
-/

namespace Simos

open Simos.Library

/-- `get_user_pages`.  A page that no table maps faults in `memset`; the model
lets the call go on. -/
def getUserPages (s : MmState) (pages : Nat) : Call (Nat × MmState) := do
  let lock ← lockAcquireAlone s.userPool.lock s.curTask.pcb
  let s := { s with userPool := { s.userPool with lock } }
  let (vaddr, s) ← pageAlloc s .pfUser pages
  let memory ←
    (if vaddr ≠ 0 then memset s.memory vaddr 0 (u32 (pages * pageSize))
      else .ok s.memory : Call ByteMemory)
  let s := { s with memory }
  let lock ← lockReleaseAlone s.userPool.lock s.curTask.pcb
  return (vaddr, { s with userPool := { s.userPool with lock } })

/-! ## Frames -/

/-- `new` marks `count` frames more than `old`, which were free. -/
def TakesFrames (old new : Bitmap) (count : Nat) : Prop :=
  ∃ frames : Finset Nat, frames.card = count ∧
    (∀ frame ∈ frames, frame < old.bitCount ∧ old.bits frame = false) ∧
    ∀ frame, new.bits frame = (old.bits frame || decide (frame ∈ frames))

private theorem TakesFrames.none (bitmap : Bitmap) :
    TakesFrames bitmap bitmap 0 :=
  ⟨∅, rfl, by simp, by simp⟩

private theorem TakesFrames.first {old new : Bitmap} {frame count : Nat}
    (inside : frame < old.bitCount) (clear : old.bits frame = false)
    (rest : TakesFrames (old.write frame true) new count) :
    TakesFrames old new (count + 1) := by
  obtain ⟨frames, card, fresh, marked⟩ := rest
  have absent : frame ∉ frames := by
    intro member
    have stillClear := (fresh frame member).2
    rw [Bitmap.bits_write_self] at stillClear
    exact Bool.noConfusion stillClear
  refine ⟨insert frame frames, ?_, ?_, ?_⟩
  · rw [Finset.card_insert_of_notMem absent, card]
  · intro other member
    rcases Finset.mem_insert.mp member with rfl | later
    · exact ⟨inside, clear⟩
    · have different : other ≠ frame := fun same => absent (same ▸ later)
      have old := fresh other later
      rw [Bitmap.bits_write_of_ne _ _ _ different] at old
      exact old
  · intro other
    rw [marked other, Bitmap.bits_write]
    by_cases same : other = frame
    · simp [same]
    · simp [same]

/-- The index of a bit survives the cut to `int32_t` and back. -/
theorem toU32_toI32 {index : Nat} (bound : index < 4294967296) :
    toU32 (toI32 index) = index := by
  unfold toU32 toI32
  omega

theorem toU32_userAddr (vmStart index : Nat) :
    toU32 ((vmStart : Int) + toI32 index * (4096 : Nat)) =
      u32 (vmStart + 4096 * index) := by
  unfold toU32 toI32 u32
  omega

theorem phyAlloc_eq_ok {pool pool' : PhysicalMemPool} {phyAddr : Nat}
    (returned : phyAlloc pool = .ok (phyAddr, pool')) (success : phyAddr ≠ 0) :
    ∃ frame, frame < pool.poolBitmap.bitCount ∧
      pool.poolBitmap.bits frame = false ∧
      pool' = { pool with poolBitmap := pool.poolBitmap.write frame true } := by
  simp only [phyAlloc, Call.bind_eq_ok_iff] at returned
  obtain ⟨result, applied, returned⟩ := returned
  by_cases none : toI32 result = -1
  · simp only [if_pos none, Call.pure_eq_ok, Except.ok.injEq,
      Prod.mk.injEq] at returned
    exact absurd returned.1.symm success
  · have found : result ≠ -1 := by
      rintro rfl
      exact none rfl
    obtain ⟨frame, rfl, isFirst, inside⟩ :=
      bitmapApply_eq_ok (by decide) (by decide) applied found
    have bound := pool.poolBitmap.bitCount_lt
    simp only [if_neg none, Call.bind_eq_ok_iff, Call.pure_eq_ok,
      Except.ok.injEq, Prod.mk.injEq] at returned
    obtain ⟨poolBitmap, set, -, rfl⟩ := returned
    rw [toU32_toI32 (by omega), bitmapSetBit_eq_ok_iff] at set
    obtain ⟨-, -, rfl⟩ := set
    exact ⟨frame, by omega, isFirst.clear (by decide), rfl⟩

theorem pageAllocUserLoop_eq_ok {vmAddr result : Nat} :
    ∀ {count : Nat} {s s' : MmState},
      pageAllocUserLoop vmAddr count s = .ok (result, s') → result ≠ 0 →
      result = vmAddr ∧ s'.curTask = s.curTask ∧
        TakesFrames s.userPool.poolBitmap s'.userPool.poolBitmap count
  | 0, s, s', returned, success => by
      simp only [pageAllocUserLoop, Call.pure_eq_ok, Except.ok.injEq,
        Prod.mk.injEq] at returned
      obtain ⟨rfl, rfl⟩ := returned
      exact ⟨rfl, rfl, .none _⟩
  | count + 1, s, s', returned, success => by
      simp only [pageAllocUserLoop, Call.bind_eq_ok_iff, Prod.exists]
        at returned
      obtain ⟨phyAddr, userPool, taken, returned⟩ := returned
      by_cases full : phyAddr = 0
      · simp only [if_pos full, Call.pure_eq_ok, Except.ok.injEq,
          Prod.mk.injEq] at returned
        exact absurd returned.1.symm success
      · rw [if_neg full] at returned
        obtain ⟨frame, inside, clear, rfl⟩ := phyAlloc_eq_ok taken full
        obtain ⟨same, sameTask, frames⟩ :=
          pageAllocUserLoop_eq_ok returned success
        exact ⟨same, sameTask, .first inside clear frames⟩

/-! ## Virtual pages -/

/-- What a successful `page_alloc(PF_USER, n)` did. -/
structure UserPagesTaken (s : MmState) (pages vaddr : Nat) (s' : MmState) :
    Prop where
  frames : TakesFrames s.userPool.poolBitmap s'.userPool.poolBitmap pages
  virtual : ∃ first, s.curTask.userprogVaddr.vmBitmap.FirstRun pages first ∧
    vaddr = u32 (s.curTask.userprogVaddr.vmStart + 4096 * first) ∧
    s'.curTask.userprogVaddr =
      { s.curTask.userprogVaddr with
        vmBitmap := s.curTask.userprogVaddr.vmBitmap.write first true }
  below : vaddr < 0xbffff000

private theorem pageAlloc_user {s s' : MmState} {pages vaddr : Nat}
    (positive : 1 ≤ pages) (bound : pages < 4294967296)
    (returned : pageAlloc s .pfUser pages = .ok (vaddr, s'))
    (success : vaddr ≠ 0) : UserPagesTaken s pages vaddr s' := by
  simp only [pageAlloc, Call.bind_eq_ok_iff, Prod.exists] at returned
  obtain ⟨vmAddr, reserved, taken, returned⟩ := returned
  by_cases full : vmAddr = 0
  · simp only [if_pos full, Call.pure_eq_ok, Except.ok.injEq,
      Prod.mk.injEq] at returned
    exact absurd returned.1.symm success
  rw [if_neg full] at returned
  obtain ⟨rfl, sameTask, frames⟩ := pageAllocUserLoop_eq_ok returned success
  simp only [vaddrAlloc, Call.bind_eq_ok_iff] at taken
  obtain ⟨result, applied, taken⟩ := taken
  by_cases none : toI32 result = -1
  · simp only [if_pos none, Call.pure_eq_ok, Except.ok.injEq,
      Prod.mk.injEq] at taken
    exact absurd taken.1.symm full
  have found : result ≠ -1 := by
    rintro rfl
    exact none rfl
  obtain ⟨first, rfl, isFirst, inside⟩ :=
    bitmapApply_eq_ok positive bound applied found
  have countBound := s.curTask.userprogVaddr.vmBitmap.bitCount_lt
  simp only [if_neg none, Call.bind_eq_ok_iff, Call.assert_eq_ok_iff,
    Call.pure_eq_ok, Except.ok.injEq, Prod.mk.injEq, exists_const] at taken
  obtain ⟨vmBitmap, set, below, address, rfl⟩ := taken
  rw [toU32_toI32 (by omega),
    bitmapSetBits_eq_ok_iff positive (by omega)] at set
  obtain ⟨-, -, rfl⟩ := set
  refine ⟨frames, ⟨first, isFirst, ?_, ?_⟩, ?_⟩
  · rw [← address]
    exact toU32_userAddr _ first
  · rw [sameTask]
    rfl
  · have limit : 0xc0000000 - pageSize = 0xbffff000 := by
      decide
    rw [← address, ← limit]
    exact below

/-- `get_user_pages` is `page_alloc` between changes of the lock and of the
memory. -/
theorem getUserPages_user {s s' : MmState} {pages vaddr : Nat}
    (positive : 1 ≤ pages) (bound : pages < 4294967296)
    (returned : getUserPages s pages = .ok (vaddr, s'))
    (success : vaddr ≠ 0) : UserPagesTaken s pages vaddr s' := by
  simp only [getUserPages, Call.bind_eq_ok_iff, Call.pure_eq_ok,
    Except.ok.injEq, Prod.mk.injEq] at returned
  obtain ⟨held, _, ⟨vaddr', taken⟩, allocated, memory, _, freed, _, rfl, rfl⟩ :=
    returned
  obtain ⟨frames, virtual, below⟩ :=
    pageAlloc_user positive bound allocated success
  exact ⟨frames, virtual, below⟩

/-! ## Runs of allocations -/

structure UserGrant where
  pages : Nat
  vaddr : Nat
  before : MmState
  after : MmState

/-- The process with the blocks it got, newest first. -/
structure UserUse where
  mm : MmState
  grants : List UserGrant

inductive UserEvent where
  | pageAlloc (pages vaddr : Nat)
  | getUserPages (pages vaddr : Nat)

inductive UserStep : UserUse → UserEvent → UserUse → Prop
  | pageAlloc {s : UserUse} {mm : MmState} {pages vaddr : Nat} :
      1 ≤ pages → pages < 4294967296 →
      Simos.pageAlloc s.mm .pfUser pages = .ok (vaddr, mm) → vaddr ≠ 0 →
      UserStep s (.pageAlloc pages vaddr)
        ⟨mm, ⟨pages, vaddr, s.mm, mm⟩ :: s.grants⟩
  | getUserPages {s : UserUse} {mm : MmState} {pages vaddr : Nat} :
      1 ≤ pages → pages < 4294967296 →
      Simos.getUserPages s.mm pages = .ok (vaddr, mm) → vaddr ≠ 0 →
      UserStep s (.getUserPages pages vaddr)
        ⟨mm, ⟨pages, vaddr, s.mm, mm⟩ :: s.grants⟩

/-- The process's bitmap gets exactly the pages of the range, which were
free. -/
def MarksRange (before after : VirtualMemPool) (pages vaddr : Nat) : Prop :=
  ∃ first, vaddr = u32 (before.vmStart + 4096 * first) ∧
    ∀ page,
      (first ≤ page ∧ page < first + pages →
        before.vmBitmap.bits page = false ∧
          after.vmBitmap.bits page = true) ∧
      (¬ (first ≤ page ∧ page < first + pages) →
        after.vmBitmap.bits page = before.vmBitmap.bits page)

/-- The call marked `n` new frames and the `n` pages of its range. -/
def UserGrant.Exact (grant : UserGrant) : Prop :=
  TakesFrames grant.before.userPool.poolBitmap grant.after.userPool.poolBitmap
      grant.pages ∧
    MarksRange grant.before.curTask.userprogVaddr
      grant.after.curTask.userprogVaddr grant.pages grant.vaddr

def UserGrant.Apart (left right : UserGrant) : Prop :=
  RangesApart left.vaddr (4096 * left.pages) right.vaddr (4096 * right.pages)

/-- The process was started with no page of its own. -/
def FreshProcess (mm : MmState) : Prop :=
  ∀ page, page < mm.curTask.userprogVaddr.vmBitmap.bitCount →
    mm.curTask.userprogVaddr.vmBitmap.bits page = false

private theorem UserStep.taken {s s' : UserUse} {event : UserEvent}
    (step : UserStep s event s') :
    ∃ pages vaddr, 1 ≤ pages ∧ UserPagesTaken s.mm pages vaddr s'.mm ∧
      s'.grants = ⟨pages, vaddr, s.mm, s'.mm⟩ :: s.grants := by
  cases step with
  | @pageAlloc _ pages vaddr positive bound returned success =>
      exact ⟨pages, vaddr, positive,
        pageAlloc_user positive bound returned success, rfl⟩
  | @getUserPages _ pages vaddr positive bound returned success =>
      exact ⟨pages, vaddr, positive,
        getUserPages_user positive bound returned success, rfl⟩

/-- One virtual page is marked whatever `n` is, so the range is marked exactly
when it has one page. -/
theorem UserPagesTaken.marksRange_iff {s s' : MmState} {pages vaddr : Nat}
    (taken : UserPagesTaken s pages vaddr s') (positive : 1 ≤ pages) :
    MarksRange s.curTask.userprogVaddr s'.curTask.userprogVaddr pages vaddr ↔
      pages = 1 := by
  obtain ⟨first, isFirst, address, written⟩ := taken.virtual
  constructor
  · rintro ⟨start, -, marks⟩
    by_contra several
    -- both pages are new, and only `first` is written
    have isWritten : ∀ page, start ≤ page → page < start + pages →
        page = first := by
      intro page lower upper
      by_contra different
      obtain ⟨clear, set⟩ := (marks page).1 ⟨lower, upper⟩
      rw [written, Bitmap.bits_write_of_ne _ _ _ different, clear] at set
      exact Bool.noConfusion set
    have here := isWritten start (Nat.le_refl _) (by omega)
    have there := isWritten (start + 1) (by omega) (by omega)
    omega
  · rintro rfl
    refine ⟨first, address, fun page => ⟨fun inside => ?_, fun outside => ?_⟩⟩
    · have same : page = first := by omega
      rw [written, same]
      exact ⟨isFirst.clear (Nat.le_refl 1), Bitmap.bits_write_self ..⟩
    · have different : page ≠ first := by omega
      rw [written, Bitmap.bits_write_of_ne _ _ _ different]

/-- Every block took its frames, and is marked as a whole exactly when it is a
single page. -/
private def GrantsKnown (s : UserUse) : Prop :=
  ∀ grant ∈ s.grants,
    TakesFrames grant.before.userPool.poolBitmap
        grant.after.userPool.poolBitmap grant.pages ∧
      (grant.Exact ↔ grant.pages = 1)

private theorem userRun_grantsKnown {mm : MmState} {last : UserUse}
    {trace : List (UserEvent × UserUse)}
    (run : Run UserStep ⟨mm, []⟩ trace last) : GrantsKnown last := by
  have start : GrantsKnown ⟨mm, []⟩ := by
    intro grant member
    exact absurd member List.not_mem_nil
  refine run.invariant start ?_
  intro s event s' known step grant member
  obtain ⟨pages, vaddr, positive, taken, grants⟩ := step.taken
  rw [grants] at member
  rcases List.mem_cons.mp member with rfl | old
  · exact ⟨taken.frames,
      (and_iff_right taken.frames).trans (taken.marksRange_iff positive)⟩
  · exact known grant old

/-- The single pages of a process, in the order of its bitmap: `count` of them
are taken, and no address has wrapped. -/
structure SinglePages (vmStart bytes count : Nat) (s : UserUse) : Prop where
  start : s.mm.curTask.userprogVaddr.vmStart = vmStart
  bytes : s.mm.curTask.userprogVaddr.vmBitmap.bitmapBytesLen = bytes
  marked : ∀ page, page < s.mm.curTask.userprogVaddr.vmBitmap.bitCount →
    s.mm.curTask.userprogVaddr.vmBitmap.bits page = decide (page < count)
  grants : ∀ grant ∈ s.grants, grant.pages = 1 ∧
    ∃ page, page < count ∧ grant.vaddr = u32 vmStart + 4096 * page
  apart : s.grants.Pairwise UserGrant.Apart
  below : count = 0 ∨ u32 vmStart + 4096 * count < 0xc0000000

namespace SinglePages

variable {vmStart bytes count : Nat} {s s' : UserUse}

private theorem next (single : SinglePages vmStart bytes count s) {vaddr : Nat}
    (taken : UserPagesTaken s.mm 1 vaddr s'.mm)
    (grants : s'.grants = ⟨1, vaddr, s.mm, s'.mm⟩ :: s.grants) :
    SinglePages vmStart bytes (count + 1) s' := by
  obtain ⟨first, isFirst, address, written⟩ := taken.virtual
  have room := isFirst.run.1
  have clear := isFirst.clear (Nat.le_refl 1)
  have sameCount : s'.mm.curTask.userprogVaddr.vmBitmap.bitCount =
      s.mm.curTask.userprogVaddr.vmBitmap.bitCount := by
    rw [written, Bitmap.bitCount_write]
  have isNext : first = count := by
    have behind : ¬ first < count := by
      intro before
      rw [single.marked first (by omega), decide_eq_true before] at clear
      exact Bool.noConfusion clear
    by_contra different
    refine isFirst.first count (by omega) ⟨by omega, fun tested low high => ?_⟩
    rw [single.marked tested (by omega)]
    exact decide_eq_false (by omega)
  subst first
  -- the page before lies below the limit, so this address does not wrap
  have start : s.mm.curTask.userprogVaddr.vmStart = vmStart := single.start
  have position : vaddr = u32 vmStart + 4096 * count := by
    rw [address, start]
    have below := single.below
    unfold u32 at *
    omega
  have limit := taken.below
  refine ⟨?_, ?_, ?_, ?_, ?_, ?_⟩
  · rw [written]
    exact start
  · rw [written]
    exact single.bytes
  · intro page inside
    rw [sameCount] at inside
    rw [written, Bitmap.bits_write]
    by_cases same : page = count
    · rw [if_pos same]
      exact (decide_eq_true (by omega)).symm
    · rw [if_neg same, single.marked page inside]
      exact decide_eq_decide.mpr (by omega)
  · intro grant member
    rw [grants] at member
    rcases List.mem_cons.mp member with rfl | old
    · exact ⟨rfl, count, Nat.lt_succ_self count, position⟩
    · obtain ⟨one, page, earlier, place⟩ := single.grants grant old
      exact ⟨one, page, by omega, place⟩
  · rw [grants]
    refine List.pairwise_cons.mpr ⟨?_, single.apart⟩
    intro grant member
    obtain ⟨one, page, earlier, place⟩ := single.grants grant member
    unfold UserGrant.Apart RangesApart
    simp only [one, place, position]
    omega
  · right
    omega

end SinglePages

private def SinglesCounted (mm : MmState) (s : UserUse) : Prop :=
  (∀ grant ∈ s.grants, grant.pages = 1) →
    ∃ count, SinglePages mm.curTask.userprogVaddr.vmStart
      mm.curTask.userprogVaddr.vmBitmap.bitmapBytesLen count s

private theorem userRun_singlesCounted {mm : MmState} {last : UserUse}
    {trace : List (UserEvent × UserUse)} (fresh : FreshProcess mm)
    (run : Run UserStep ⟨mm, []⟩ trace last) : SinglesCounted mm last := by
  have start : SinglesCounted mm ⟨mm, []⟩ := by
    intro _
    refine ⟨0, rfl, rfl, ?_, by simp, List.Pairwise.nil, Or.inl rfl⟩
    intro page inside
    rw [fresh page inside]
    rfl
  refine run.invariant start ?_
  intro s event s' earlier step ones
  obtain ⟨pages, vaddr, -, taken, grants⟩ := step.taken
  rw [grants] at ones
  have one : pages = 1 := ones _ List.mem_cons_self
  subst pages
  obtain ⟨count, counted⟩ := earlier fun grant member =>
    ones grant (List.mem_cons_of_mem _ member)
  exact ⟨count + 1, counted.next taken grants⟩

/-- The blocks of a run lie apart, with exactly their frames and their pages
marked, exactly when every block is a single page. -/
theorem userRun_exact_iff {mm : MmState} {last : UserUse}
    {trace : List (UserEvent × UserUse)} (fresh : FreshProcess mm)
    (run : Run UserStep ⟨mm, []⟩ trace last) :
    (last.grants.Pairwise UserGrant.Apart ∧
        ∀ grant ∈ last.grants, grant.Exact) ↔
      ∀ grant ∈ last.grants, grant.pages = 1 := by
  have known := userRun_grantsKnown run
  constructor
  · intro exactly grant member
    exact (known grant member).2.mp (exactly.2 grant member)
  · intro single
    obtain ⟨count, counted⟩ := userRun_singlesCounted fresh run single
    exact ⟨counted.apart, fun grant member =>
      (known grant member).2.mpr (single grant member)⟩

/-- A machine with one byte of bitmap for the user pool and one for the
process. -/
def smallProcess : MmState :=
  { coldMm with
    userPool := ⟨⟨1, 0xc007e100, fun _ => 0⟩, 0x1100000, 0x8000, lockInit⟩
    curTask := ⟨0xc1000000, 0xc1001000,
      ⟨⟨1, 0xc1002000, fun _ => 0⟩, 0x8048000⟩, 0xc1000054⟩ }

private theorem twoThenOne_run :
    ∃ last : UserUse, ∃ trace : List (UserEvent × UserUse),
      Run UserStep ⟨smallProcess, []⟩ trace last ∧
      ∃ before middle after, last.grants =
        [⟨1, 0x8049000, middle, after⟩, ⟨2, 0x8048000, before, middle⟩] := by
  have computed : (do
      let two ← pageAlloc smallProcess .pfUser 2
      let one ← pageAlloc two.2 .pfUser 1
      return (two.1, one.1) : Call (Nat × Nat)) =
      .ok (0x8048000, 0x8049000) := by
    decide +kernel
  simp only [Call.bind_eq_ok_iff, Call.pure_eq_ok, Except.ok.injEq,
    Prod.mk.injEq, Prod.exists] at computed
  obtain ⟨first, middle, taken, second, after, taken', rfl, rfl⟩ := computed
  have twoPages : UserStep ⟨smallProcess, []⟩ (.pageAlloc 2 0x8048000)
      ⟨middle, [⟨2, 0x8048000, smallProcess, middle⟩]⟩ :=
    .pageAlloc (by decide) (by decide) taken (by decide)
  have onePage : UserStep
      ⟨middle, [⟨2, 0x8048000, smallProcess, middle⟩]⟩
      (.pageAlloc 1 0x8049000)
      ⟨after, [⟨1, 0x8049000, middle, after⟩,
        ⟨2, 0x8048000, smallProcess, middle⟩]⟩ :=
    .pageAlloc (by decide) (by decide) taken' (by decide)
  exact ⟨_, _, (Run.start.next twoPages).next onePage, _, _, _, rfl⟩

/-- The statement at that run. -/
theorem userRun_exact_iff_twoThenOne :
    ∃ last : UserUse, ∃ trace : List (UserEvent × UserUse),
      Run UserStep ⟨smallProcess, []⟩ trace last ∧
      ((last.grants.Pairwise UserGrant.Apart ∧
          ∀ grant ∈ last.grants, grant.Exact) ↔
        ∀ grant ∈ last.grants, grant.pages = 1) := by
  obtain ⟨last, trace, run, -⟩ := twoThenOne_run
  have fresh : FreshProcess smallProcess := by
    intro page inside
    simp [smallProcess, Bitmap.bits, Library.getBit]
  exact ⟨last, trace, run, userRun_exact_iff fresh run⟩

/-- The page allocated behind a block of two is the second page of the
block. -/
theorem pageAlloc_user_overlap :
    ∃ last : UserUse, ∃ trace : List (UserEvent × UserUse),
      Run UserStep ⟨smallProcess, []⟩ trace last ∧
      ¬ last.grants.Pairwise UserGrant.Apart := by
  obtain ⟨last, trace, run, before, middle, after, grants⟩ := twoThenOne_run
  refine ⟨last, trace, run, fun apart => ?_⟩
  rw [grants, List.pairwise_cons] at apart
  have disjoint := apart.1 _ List.mem_cons_self
  unfold UserGrant.Apart RangesApart at disjoint
  simp only at disjoint
  omega

end Simos
