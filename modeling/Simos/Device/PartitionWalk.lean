import Simos.Device.PartitionStores
import Simos.Library.LinkWalk

/-!
# The scan follows the links (`device/ide.c`)

The extended entries of the tables are links between sectors.  Once
`ext_lba_base` is set, by an earlier disk or by the first extended entry, the
links do not change any more.

* `ScanFinds` is the walk along these links with the entries it meets;
* `scanEntries_outcome` says what a scan does where the walk ends;
* `scanEntries_follows` says that a scan that returns without a store behind
  the logical partitions has made the whole walk;
* `scanEntries_more` says that a deeper bound on the recursion changes nothing
  for a scan that has ended.
-/

namespace Simos

open Simos.Library

/-! ## Links -/

def linkTarget (base : Nat) (pt : PartitionTable) : Nat :=
  if base ≠ 0 then u32 (pt.startLba + base) else pt.startLba

/-- `ext_lba_base` behind an extended entry. -/
def linkBase (base : Nat) (pt : PartitionTable) : Nat :=
  if base ≠ 0 then base else pt.startLba

/-- The entries of a table as cells, with `ext_lba_base` before the first. -/
def linkCells (base lba : Nat) :
    List PartitionTable → List (LinkCell Nat Found)
  | [] => []
  | pt :: rest =>
      if pt.fsType = 0x5 then
        .link (linkTarget base pt) :: linkCells (linkBase base pt) lba rest
      else if pt.fsType ≠ 0 then
        .item (lba, pt) :: linkCells base lba rest
      else
        .empty :: linkCells base lba rest

/-- `ext_lba_base` once an extended entry of the table was met. -/
def extBase (base : Nat) : List PartitionTable → Nat
  | [] => base
  | pt :: rest =>
      if pt.fsType = 0x5 then linkBase base pt else extBase base rest

def HdDisk.cells (d : HdDisk) (base lba : Nat) : List (LinkCell Nat Found) :=
  linkCells base lba (d.partitionTableArray lba)

/-- The cells of the sectors behind the first extended entry of the disk. -/
def HdDisk.linked (d : HdDisk) (base : Nat) :
    Nat → List (LinkCell Nat Found) :=
  d.cells (extBase base (d.partitionTableArray 0))

/-- The entries that the walk along the links of a disk meets. -/
def ScanFinds (d : HdDisk) (base : Nat) (found : List Found) : Prop :=
  Walked (d.linked base) (d.cells base 0) found

/-- No chain of links from sector 0 goes on for ever. -/
def NoEndlessLinks (d : HdDisk) (base : Nat) : Prop :=
  NoEndlessChain (d.linked base) (d.cells base 0)

/-- Behind the first extended entry of the table, if there is one,
`ext_lba_base` is `bound`. -/
def Leads (bound base : Nat) : List PartitionTable → Prop
  | [] => True
  | pt :: rest =>
      if pt.fsType = 0x5 then linkBase base pt = bound
      else Leads bound base rest

private theorem leads_extBase (base : Nat) (entries : List PartitionTable) :
    Leads (extBase base entries) base entries := by
  induction entries with
  | nil =>
      trivial
  | cons pt rest inductionHypothesis =>
      unfold Leads extBase
      by_cases extended : pt.fsType = 0x5
      · rw [if_pos extended, if_pos extended]
      · rw [if_neg extended, if_neg extended]
        exact inductionHypothesis

private theorem leads_of_none {bound base : Nat} {entries : List PartitionTable}
    (none : ¬ ∃ pt ∈ entries, pt.fsType = 0x5) :
    Leads bound base entries := by
  induction entries with
  | nil =>
      trivial
  | cons pt rest inductionHypothesis =>
      unfold Leads
      rw [if_neg fun extended => none ⟨pt, List.mem_cons_self, extended⟩]
      refine inductionHypothesis ?_
      rintro ⟨later, member, extended⟩
      exact none ⟨later, List.mem_cons_of_mem pt member, extended⟩

private theorem leads_self {bound : Nat} (nonzero : bound ≠ 0)
    (entries : List PartitionTable) : Leads bound bound entries := by
  induction entries with
  | nil =>
      trivial
  | cons pt rest inductionHypothesis =>
      unfold Leads
      split
      · exact if_pos nonzero
      · exact inductionHypothesis

private theorem linkCells_eq_cons {base lba : Nat}
    {entries : List PartitionTable}
    {cell : LinkCell Nat Found} {cells : List (LinkCell Nat Found)}
    (shape : linkCells base lba entries = cell :: cells) :
    ∃ pt rest, entries = pt :: rest ∧
      ((pt.fsType = 0x5 ∧ cell = .link (linkTarget base pt) ∧
          cells = linkCells (linkBase base pt) lba rest) ∨
        (pt.fsType ≠ 0x5 ∧ pt.fsType ≠ 0 ∧ cell = .item (lba, pt) ∧
          cells = linkCells base lba rest) ∨
        (pt.fsType = 0 ∧ cell = .empty ∧ cells = linkCells base lba rest)) := by
  cases entries with
  | nil =>
      cases shape
  | cons pt rest =>
      refine ⟨pt, rest, rfl, ?_⟩
      rw [linkCells] at shape
      by_cases extended : pt.fsType = 0x5
      · rw [if_pos extended] at shape
        cases shape
        exact Or.inl ⟨extended, rfl, rfl⟩
      · rw [if_neg extended] at shape
        by_cases used : pt.fsType ≠ 0
        · rw [if_pos used] at shape
          cases shape
          exact Or.inr (Or.inl ⟨extended, used, rfl, rfl⟩)
        · rw [if_neg used] at shape
          cases shape
          exact Or.inr (Or.inr ⟨not_not.mp used, rfl, rfl⟩)

private theorem linkCells_eq_nil {base lba : Nat}
    {entries : List PartitionTable}
    (shape : linkCells base lba entries = []) : entries = [] := by
  cases entries with
  | nil =>
      rfl
  | cons pt rest =>
      rw [linkCells] at shape
      split at shape
      · cases shape
      · split at shape <;> cases shape

section Tables

variable {scan : Nat → ScanState → Call ScanState} {d : HdDisk}
  {lba base bound : Nat} {pt : PartitionTable} {rest : List PartitionTable}
  {s : ScanState}

private theorem linkBase_of_leads (extended : pt.fsType = 0x5)
    (leads : Leads bound base (pt :: rest)) : linkBase base pt = bound := by
  unfold Leads at leads
  rwa [if_pos extended] at leads

private theorem leads_of_not_extended (plain : pt.fsType ≠ 0x5)
    (leads : Leads bound base (pt :: rest)) : Leads bound base rest := by
  unfold Leads at leads
  rwa [if_neg plain] at leads

/-- At an extended entry the scan sets `ext_lba_base` and enters the sector
that the entry leads to. -/
theorem scanEntries_extended (extended : pt.fsType = 0x5) :
    scanEntries scan d lba (pt :: rest) s =
      (scan (linkTarget s.extLbaBase pt)
        (s.withBase (linkBase s.extLbaBase pt)) >>=
          scanEntries scan d lba rest) := by
  rw [scanEntries, if_pos extended]
  unfold linkTarget linkBase
  by_cases isSet : s.extLbaBase ≠ 0
  · simp only [if_pos isSet]
    rfl
  · simp only [if_neg isSet]
    rfl

/-- At the entry of a partition the scan stores it, and goes on when the check
behind the stores lets it. -/
theorem scanEntries_partition (plain : pt.fsType ≠ 0x5)
    (used : pt.fsType ≠ 0) :
    scanEntries scan d lba (pt :: rest) s =
      if (s.place d (lba, pt)).Passes (lba, pt) then
        scanEntries scan d lba rest (s.place d (lba, pt))
      else if lba = 0 then
        .error .assertFailed
      else
        .ok (s.place d (lba, pt)) := by
  rw [scanEntries, if_neg plain, if_pos used]
  unfold ScanState.place ScanState.Passes
  by_cases primary : lba = 0
  · simp only [if_pos primary]
    by_cases few : (s.storePrim d lba pt).prim.no < 4
    · rw [if_pos few, Call.assert_of few]
      rfl
    · rw [if_neg few, Call.assert_of_not few]
      rfl
  · simp only [if_neg primary]
    by_cases full : (s.storeLogic d lba pt).logic.no > 8
    · rw [if_pos full, if_neg (by omega)]
    · rw [if_neg full, if_pos (by omega)]

theorem scanEntries_empty (unused : pt.fsType = 0) :
    scanEntries scan d lba (pt :: rest) s = scanEntries scan d lba rest s := by
  rw [scanEntries, if_neg (by rw [unused]; decide), if_neg (by simp [unused])]

end Tables

/-! ## Outcomes -/

/-- The outcome of a scan from `s` on, where the walk meets the entries
`found` and the links have the base `bound`. -/
structure ScanOutcome (d : HdDisk) (bound : Nat) (s : ScanState)
    (found : List Found) (r : Call ScanState) : Prop where
  ends : r ≠ .error .diverges
  base : s.extLbaBase = bound → ∀ s', r = .ok s' → s'.extLbaBase = bound
  placed : s.Quiet d found →
    ∃ base, r = .ok ((s.placeAll d found).withBase base)
  stopped : ¬ s.Quiet d found → s.logic.Room (logicFound found).length 8 →
    r = .error .assertFailed

namespace ScanOutcome

variable {d : HdDisk} {bound : Nat} {s : ScanState}
  {found inner later : List Found} {r : Call ScanState}

private theorem nil : ScanOutcome d bound s [] (.ok s) where
  ends := by simp
  base := by
    rintro same s' returned
    cases returned
    exact same
  placed := fun _ => ⟨s.extLbaBase, rfl⟩
  stopped := fun notQuiet => absurd trivial notQuiet

private theorem item {entry : Found} (passes : (s.place d entry).Passes entry)
    (outcome : ScanOutcome d bound (s.place d entry) found r) :
    ScanOutcome d bound s (entry :: found) r where
  ends := outcome.ends
  base := fun same =>
    outcome.base ((ScanState.place_extLbaBase entry).trans same)
  placed := fun quiet => outcome.placed quiet.2
  stopped := by
    intro notQuiet room
    refine outcome.stopped (fun quiet => notQuiet ⟨passes, quiet⟩) ?_
    by_cases primary : entry.1 = 0
    · rw [logicFound_of_zero found primary] at room
      rw [ScanState.place_of_zero primary]
      exact room
    · rw [logicFound_of_ne found primary, List.length_cons] at room
      rw [ScanState.place_of_ne primary]
      exact (PartArray.room_of_cons (by decide) room d _ _ 5).2

theorem refused {entry : Found} (fails : ¬ (s.place d entry).Passes entry) :
    ScanOutcome d bound s (entry :: found)
      (if entry.1 = 0 then .error .assertFailed else .ok (s.place d entry))
    where
  ends := by split <;> simp
  base := by
    intro same s' returned
    by_cases primary : entry.1 = 0
    · rw [if_pos primary] at returned
      cases returned
    · rw [if_neg primary] at returned
      cases returned
      exact (ScanState.place_extLbaBase entry).trans same
  placed := fun quiet => absurd quiet.1 fails
  stopped := by
    intro _ room
    by_cases primary : entry.1 = 0
    · rw [if_pos primary]
    · rw [logicFound_of_ne found primary, List.length_cons] at room
      have next :=
        (PartArray.room_of_cons (by decide) room d entry.1 entry.2 5).1
      have few := room.resolve_left (Nat.succ_ne_zero _)
      refine absurd ?_ fails
      rw [ScanState.passes_of_ne primary, ScanState.place_of_ne primary]
      exact next.trans_le (by omega)

theorem link {entered : Call ScanState} (rest : ScanState → Call ScanState)
    (first : ScanOutcome d bound (s.withBase bound) inner entered)
    (second : ∀ s', s'.extLbaBase = bound → entered = .ok s' →
      ScanOutcome d bound s' later (rest s')) :
    ScanOutcome d bound s (inner ++ later) (entered >>= rest) := by
  have innerQuiet : s.Quiet d (inner ++ later) → s.Quiet d inner :=
    fun quiet => (ScanState.quiet_append.mp quiet).1
  have innerRoom : s.logic.Room (logicFound (inner ++ later)).length 8 →
      s.logic.Room (logicFound inner).length 8 := by
    intro room
    rw [logicFound_append, List.length_append] at room
    exact room.left
  cases entered with
  | error stop =>
      constructor
      case ends =>
        simpa using first.ends
      case base =>
        intro _ s' returned
        cases returned
      case placed =>
        intro quiet
        obtain ⟨base, returned⟩ := first.placed
          (ScanState.quiet_withBase.mpr (innerQuiet quiet))
        cases returned
      case stopped =>
        intro _ room
        by_cases quiet : s.Quiet d inner
        · obtain ⟨base, returned⟩ := first.placed
            (ScanState.quiet_withBase.mpr quiet)
          cases returned
        · have failed := first.stopped
            (fun quiet' => quiet (ScanState.quiet_withBase.mp quiet'))
            (innerRoom room)
          cases failed
          rfl
  | ok s' =>
      have outcome := second s' (first.base rfl s' rfl) rfl
      constructor
      case ends =>
        exact outcome.ends
      case base =>
        intro _
        exact outcome.base (first.base rfl s' rfl)
      case placed =>
        intro quiet
        obtain ⟨quietInner, quietLater⟩ := ScanState.quiet_append.mp quiet
        obtain ⟨base, returned⟩ := first.placed
          (ScanState.quiet_withBase.mpr quietInner)
        cases returned
        obtain ⟨base', returned⟩ := outcome.placed (by simpa using quietLater)
        refine ⟨base', returned.trans ?_⟩
        simp [ScanState.placeAll_append]
      case stopped =>
        intro notQuiet room
        by_cases quietInner : s.Quiet d inner
        · obtain ⟨base, returned⟩ := first.placed
            (ScanState.quiet_withBase.mpr quietInner)
          cases returned
          refine outcome.stopped ?_ ?_
          · intro quietLater
            refine notQuiet (ScanState.quiet_append.mpr ⟨quietInner, ?_⟩)
            simpa using quietLater
          · rw [logicFound_append, List.length_append] at room
            simp only [ScanState.placeAll_withBase,
              ScanState.withBase_withBase]
            rw [ScanState.placeAll_eq]
            exact PartArray.room_storeAll (by decide) room
        · have failed := first.stopped
            (fun quiet' => quietInner (ScanState.quiet_withBase.mp quiet'))
            (innerRoom room)
          cases failed

end ScanOutcome

/-- Where the walk ends the scan has an outcome, from some bound on its depth
on. -/
theorem scanEntries_outcome {d : HdDisk} {bound : Nat} (nonzero : bound ≠ 0)
    {cells : List (LinkCell Nat Found)} {found : List Found}
    (walked : Walked (d.cells bound) cells found) :
    ∀ (entries : List PartitionTable) (lba : Nat) (s : ScanState),
      linkCells s.extLbaBase lba entries = cells →
      Leads bound s.extLbaBase entries →
      ∃ depth r,
        (∀ deeper, depth ≤ deeper →
          scanEntries (partitionScan d deeper) d lba entries s = r) ∧
        ScanOutcome d bound s found r := by
  induction walked with
  | nil =>
      intro entries lba s shape _
      rw [linkCells_eq_nil shape]
      exact ⟨0, _, fun _ _ => rfl, .nil⟩
  | empty _ inductionHypothesis =>
      intro entries lba s shape leads
      obtain ⟨pt, rest, rfl, ⟨_, same, _⟩ | ⟨_, _, same, _⟩ |
        ⟨unused, -, rfl⟩⟩ := linkCells_eq_cons shape
      · cases same
      · cases same
      · obtain ⟨depth, r, reached, outcome⟩ := inductionHypothesis rest
          lba s rfl (leads_of_not_extended (by simp [unused]) leads)
        refine ⟨depth, r, ?_, outcome⟩
        intro deeper enough
        rw [scanEntries_empty unused]
        exact reached deeper enough
  | item met _ inductionHypothesis =>
      intro entries lba s shape leads
      obtain ⟨pt, rest, rfl, ⟨_, same, _⟩ | ⟨plain, used, same, rfl⟩ |
        ⟨_, same, _⟩⟩ := linkCells_eq_cons shape
      · cases same
      · cases same
        by_cases passes : (s.place d (lba, pt)).Passes (lba, pt)
        · have base := ScanState.place_extLbaBase (s := s) (d := d) (lba, pt)
          obtain ⟨depth, r, reached, outcome⟩ :=
            inductionHypothesis rest lba (s.place d (lba, pt)) (by rw [base])
              (by rw [base]; exact leads_of_not_extended plain leads)
          refine ⟨depth, r, ?_, outcome.item passes⟩
          intro deeper enough
          rw [scanEntries_partition plain used, if_pos passes]
          exact reached deeper enough
        · refine ⟨0, _, ?_, .refused passes⟩
          intro deeper _
          rw [scanEntries_partition plain used, if_neg passes]
      · cases same
  | link _ _ innerHypothesis restHypothesis =>
      intro entries lba s shape leads
      obtain ⟨pt, rest, rfl, ⟨extended, same, rfl⟩ | ⟨_, _, same, _⟩ |
        ⟨_, same, _⟩⟩ := linkCells_eq_cons shape
      · cases same
        have base := linkBase_of_leads extended leads
        obtain ⟨innerDepth, entered, reached, first⟩ :=
          innerHypothesis
            (d.partitionTableArray (linkTarget s.extLbaBase pt))
            (linkTarget s.extLbaBase pt) (s.withBase bound) rfl
            (leads_self nonzero _)
        have enters : ∀ deeper, innerDepth + 1 ≤ deeper →
            partitionScan d deeper (linkTarget s.extLbaBase pt)
              (s.withBase bound) = entered := by
          intro deeper enough
          obtain ⟨deeper, rfl⟩ :=
            Nat.exists_eq_add_of_le' (Nat.le_of_add_left_le enough)
          exact reached deeper (Nat.le_of_succ_le_succ enough)
        have scans : ∀ deeper, innerDepth + 1 ≤ deeper →
            scanEntries (partitionScan d deeper) d lba (pt :: rest) s =
              (entered >>= scanEntries (partitionScan d deeper) d lba rest) := by
          intro deeper enough
          rw [scanEntries_extended extended, base, enters deeper enough]
        cases entered with
        | error stop =>
            refine ⟨innerDepth + 1, _, scans,
              .link (fun s' => .ok s') first fun s' _ returned => ?_⟩
            cases returned
        | ok s' =>
            have sameBase := first.base rfl s' rfl
            obtain ⟨restDepth, r, goesOn, second⟩ := restHypothesis rest lba
              s' (by rw [sameBase, base])
              (by rw [sameBase]; exact leads_self nonzero rest)
            refine ⟨max (innerDepth + 1) restDepth, r, ?_,
              .link (fun _ => r) first ?_⟩
            · intro deeper enough
              rw [scans deeper ((le_max_left _ _).trans enough)]
              exact goesOn deeper ((le_max_right _ _).trans enough)
            · intro s'' _ returned
              cases returned
              exact second
      · cases same
      · cases same

/-! ## Scans that return -/

/-- What a scan from `s` to `s'` has done with the cells of a table: it has
stored behind the logical partitions, or it has made the whole walk. -/
structure ScanFollows (d : HdDisk) (bound : Nat) (s : ScanState)
    (cells : List (LinkCell Nat Found)) (s' : ScanState) : Prop where
  base : s.extLbaBase = bound → s'.extLbaBase = bound
  stored : s.logic.stored <+: s'.logic.stored
  followed : (∃ index ∈ s'.logic.stored, 8 ≤ index) ∨
    ∃ found, Walked (d.cells bound) cells found ∧ s.Quiet d found ∧
      ∃ base, s' = (s.placeAll d found).withBase base

namespace ScanFollows

variable {d : HdDisk} {bound : Nat} {s middle s' : ScanState}
  {cells : List (LinkCell Nat Found)}

private theorem nil : ScanFollows d bound s [] s where
  base := id
  stored := List.prefix_rfl
  followed := Or.inr ⟨[], .nil, trivial, s.extLbaBase, rfl⟩

private theorem empty (follows : ScanFollows d bound s cells s') :
    ScanFollows d bound s (.empty :: cells) s' where
  base := follows.base
  stored := follows.stored
  followed := by
    rcases follows.followed with behind | ⟨found, walked, placed⟩
    · exact Or.inl behind
    · exact Or.inr ⟨found, walked.empty, placed⟩

private theorem item {entry : Found} (passes : (s.place d entry).Passes entry)
    (follows : ScanFollows d bound (s.place d entry) cells s') :
    ScanFollows d bound s (.item entry :: cells) s' where
  base := fun same =>
    follows.base ((ScanState.place_extLbaBase entry).trans same)
  stored := (ScanState.place_stored entry).trans follows.stored
  followed := by
    rcases follows.followed with behind | ⟨found, walked, quiet, placed⟩
    · exact Or.inl behind
    · exact Or.inr ⟨entry :: found, walked.item entry, ⟨passes, quiet⟩, placed⟩

/-- The early return comes after a store behind the logical partitions. -/
theorem refused {entry : Found} (logical : entry.1 ≠ 0)
    (fails : ¬ (s.place d entry).Passes entry) :
    ScanFollows d bound s (.item entry :: cells) (s.place d entry) where
  base := fun same => (ScanState.place_extLbaBase entry).trans same
  stored := ScanState.place_stored entry
  followed := by
    left
    rw [ScanState.passes_of_ne logical] at fails
    rw [ScanState.place_of_ne logical] at fails ⊢
    refine ⟨s.logic.no, List.mem_append_right _ List.mem_cons_self, ?_⟩
    have wraps : (s.storeLogic d entry.1 entry.2).logic.no ≤
        s.logic.no + 1 := Nat.mod_le _ _
    omega

private theorem link {target : Nat}
    (first : ScanFollows d bound (s.withBase bound) (d.cells bound target)
      middle)
    (second : ScanFollows d bound middle cells s') :
    ScanFollows d bound s (.link target :: cells) s' where
  base := fun _ => second.base (first.base rfl)
  stored := first.stored.trans second.stored
  followed := by
    rcases first.followed with ⟨index, member, large⟩ |
      ⟨inner, entered, quietInner, base, rfl⟩
    · exact Or.inl ⟨index, second.stored.subset member, large⟩
    · rcases second.followed with behind |
        ⟨later, walked, quietLater, base', rfl⟩
      · exact Or.inl behind
      · refine Or.inr ⟨inner ++ later, entered.link walked, ?_, base', ?_⟩
        · rw [ScanState.quiet_withBase] at quietInner
          refine ScanState.quiet_append.mpr ⟨quietInner, ?_⟩
          simpa using quietLater
        · simp [ScanState.placeAll_append]

end ScanFollows

/-- A scan of a table follows the links when the scans of sectors do. -/
theorem scanEntries_follows {scan : Nat → ScanState → Call ScanState}
    {d : HdDisk} {bound : Nat} (nonzero : bound ≠ 0)
    (scans : ∀ lba s s', s.extLbaBase = bound → scan lba s = .ok s' →
      ScanFollows d bound s (d.cells bound lba) s')
    {entries : List PartitionTable} {lba : Nat} {s s' : ScanState}
    (leads : Leads bound s.extLbaBase entries)
    (returned : scanEntries scan d lba entries s = .ok s') :
    ScanFollows d bound s (linkCells s.extLbaBase lba entries) s' := by
  induction entries generalizing s with
  | nil =>
      cases returned
      exact .nil
  | cons pt rest inductionHypothesis =>
      rw [linkCells]
      by_cases extended : pt.fsType = 0x5
      · have base := linkBase_of_leads extended leads
        rw [if_pos extended, base]
        rw [scanEntries_extended extended, base, Call.bind_eq_ok_iff]
          at returned
        obtain ⟨middle, entered, goesOn⟩ := returned
        have first := scans _ _ _ rfl entered
        have sameBase := first.base rfl
        have second := inductionHypothesis
          (by rw [sameBase]; exact leads_self nonzero rest) goesOn
        rw [sameBase] at second
        exact first.link second
      · have leadsRest := leads_of_not_extended extended leads
        rw [if_neg extended]
        by_cases used : pt.fsType ≠ 0
        · have base := ScanState.place_extLbaBase (s := s) (d := d) (lba, pt)
          rw [if_pos used]
          rw [scanEntries_partition extended used] at returned
          by_cases passes : (s.place d (lba, pt)).Passes (lba, pt)
          · rw [if_pos passes] at returned
            have follows := inductionHypothesis (by rwa [base]) returned
            rw [base] at follows
            exact follows.item passes
          · rw [if_neg passes] at returned
            by_cases primary : lba = 0
            · rw [if_pos primary] at returned
              cases returned
            · rw [if_neg primary] at returned
              cases returned
              exact .refused primary passes
        · rw [if_neg used]
          rw [scanEntries_empty (not_not.mp used)] at returned
          exact (inductionHypothesis leadsRest returned).empty

private theorem partitionScan_follows {d : HdDisk} {bound : Nat}
    (nonzero : bound ≠ 0) {depth lba : Nat} {s s' : ScanState}
    (leads : Leads bound s.extLbaBase (d.partitionTableArray lba))
    (returned : partitionScan d depth lba s = .ok s') :
    ScanFollows d bound s (d.cells s.extLbaBase lba) s' := by
  induction depth generalizing lba s s' with
  | zero =>
      cases returned
  | succ depth inductionHypothesis =>
      refine scanEntries_follows nonzero ?_ leads returned
      intro lba s s' same entered
      have follows := inductionHypothesis
        (by rw [same]; exact leads_self nonzero _) entered
      rwa [same] at follows

/-! ## Deeper bounds -/

theorem scanEntries_more {scan deeper : Nat → ScanState → Call ScanState}
    {d : HdDisk}
    (more : ∀ lba s, scan lba s ≠ .error .diverges →
      deeper lba s = scan lba s)
    {entries : List PartitionTable} {lba : Nat} {s : ScanState}
    (ended : scanEntries scan d lba entries s ≠ .error .diverges) :
    scanEntries deeper d lba entries s = scanEntries scan d lba entries s := by
  induction entries generalizing s with
  | nil =>
      rfl
  | cons pt rest inductionHypothesis =>
      by_cases extended : pt.fsType = 0x5
      · rw [scanEntries_extended extended] at ended
        rw [scanEntries_extended extended, scanEntries_extended extended]
        have enters : scan (linkTarget s.extLbaBase pt)
            (s.withBase (linkBase s.extLbaBase pt)) ≠ .error .diverges := by
          intro diverges
          rw [diverges] at ended
          exact ended rfl
        rw [more _ _ enters]
        cases entered : scan (linkTarget s.extLbaBase pt)
            (s.withBase (linkBase s.extLbaBase pt)) with
        | error stop =>
            rfl
        | ok middle =>
            rw [entered] at ended
            exact inductionHypothesis ended
      · by_cases used : pt.fsType ≠ 0
        · rw [scanEntries_partition extended used] at ended
          rw [scanEntries_partition extended used,
            scanEntries_partition extended used]
          by_cases passes : (s.place d (lba, pt)).Passes (lba, pt)
          · rw [if_pos passes] at ended
            rw [if_pos passes, if_pos passes]
            exact inductionHypothesis ended
          · rw [if_neg passes, if_neg passes]
        · have unused := not_not.mp used
          rw [scanEntries_empty unused] at ended
          rw [scanEntries_empty unused, scanEntries_empty unused]
          exact inductionHypothesis ended

theorem partitionScan_more {d : HdDisk} {depth deeper lba : Nat}
    {s : ScanState} (enough : depth ≤ deeper)
    (ended : partitionScan d depth lba s ≠ .error .diverges) :
    partitionScan d deeper lba s = partitionScan d depth lba s := by
  induction depth generalizing deeper lba s with
  | zero =>
      exact absurd rfl ended
  | succ depth inductionHypothesis =>
      obtain ⟨deeper, rfl⟩ := Nat.exists_eq_add_of_le' (Nat.le_of_add_left_le
        enough)
      exact scanEntries_more
        (fun _ _ => inductionHypothesis (Nat.le_of_succ_le_succ enough)) ended

theorem partitionScan_unique {d : HdDisk} {depth depth' lba : Nat}
    {s s' s'' : ScanState}
    (returned : partitionScan d depth lba s = .ok s')
    (returnedAgain : partitionScan d depth' lba s = .ok s'') : s' = s'' := by
  have deep : partitionScan d (max depth depth') lba s = .ok s' := by
    rw [partitionScan_more (le_max_left depth depth') (by simp [returned]),
      returned]
  rw [partitionScan_more (le_max_right depth depth')
    (by simp [returnedAgain]), returnedAgain] at deep
  exact (Except.ok.inj deep).symm

/-! ## Scans of a disk -/

section Disks

variable {d : HdDisk} {base : Nat}

private theorem link_mem_iff {lba : Nat} {entries : List PartitionTable} :
    (∃ target, .link target ∈ linkCells base lba entries) ↔
      ∃ pt ∈ entries, pt.fsType = 0x5 := by
  induction entries generalizing base with
  | nil =>
      simp [linkCells]
  | cons pt rest inductionHypothesis =>
      rw [linkCells]
      by_cases extended : pt.fsType = 0x5
      · simp [extended]
      · rw [if_neg extended]
        split <;> simp [extended, inductionHypothesis]

/-- `ext_lba_base` stays 0 only where the first extended entry is one of
sector 0. -/
theorem link_zero_mem {lba : Nat} {entries : List PartitionTable}
    (extended : ∃ pt ∈ entries, pt.fsType = 0x5)
    (zero : extBase 0 entries = 0) :
    .link 0 ∈ linkCells 0 lba entries := by
  induction entries with
  | nil =>
      simp at extended
  | cons pt rest inductionHypothesis =>
      rw [linkCells]
      rw [extBase] at zero
      by_cases first : pt.fsType = 0x5
      · have start : pt.startLba = 0 := by
          simpa [first, linkBase] using zero
        simp [first, linkTarget, start]
      · rw [if_neg first] at zero ⊢
        have later := inductionHypothesis (by simpa [first] using extended)
          zero
        split
        · exact List.mem_cons_of_mem _ later
        · exact List.mem_cons_of_mem _ later

private theorem extBase_of_ne {entries : List PartitionTable}
    (isSet : base ≠ 0) :
    extBase base entries = base := by
  induction entries with
  | nil =>
      rfl
  | cons pt rest inductionHypothesis =>
      unfold extBase
      split
      · exact if_pos isSet
      · exact inductionHypothesis

/-- Sector 0 links to itself, or the links behind it have a base. -/
theorem linked_cases (d : HdDisk) (base : Nat) :
    (base = 0 ∧ extBase 0 (d.partitionTableArray 0) = 0 ∧
      ∃ pt ∈ d.partitionTableArray 0, pt.fsType = 0x5) ∨
    ∃ bound, bound ≠ 0 ∧ Leads bound base (d.partitionTableArray 0) ∧
      ∀ found, ScanFinds d base found ↔
        Walked (d.cells bound) (d.cells base 0) found := by
  by_cases isSet : extBase base (d.partitionTableArray 0) = 0
  · have zero : base = 0 := by
      by_contra isSet'
      rw [extBase_of_ne isSet'] at isSet
      exact isSet' isSet
    subst zero
    by_cases extended : ∃ pt ∈ d.partitionTableArray 0, pt.fsType = 0x5
    · exact Or.inl ⟨rfl, isSet, extended⟩
    · have noLink : ∀ target, .link target ∉ d.cells 0 0 := by
        intro target linked
        exact extended (link_mem_iff.mp ⟨target, linked⟩)
      exact Or.inr ⟨1, by decide, leads_of_none extended, fun _ =>
        ⟨fun walked => walked.of_no_link noLink,
          fun walked => walked.of_no_link noLink⟩⟩
  · exact Or.inr ⟨_, isSet, leads_extBase base _, fun _ => Iff.rfl⟩

/-- A sector 0 that leads to itself is entered again and again. -/
theorem scanEntries_again {scan : Nat → ScanState → Call ScanState}
    (never : ∀ s s', s.extLbaBase = 0 → scan 0 s ≠ .ok s')
    {entries : List PartitionTable} {s : ScanState} (s' : ScanState)
    (extended : ∃ pt ∈ entries, pt.fsType = 0x5)
    (zero : extBase 0 entries = 0) (start : s.extLbaBase = 0) :
    scanEntries scan d 0 entries s ≠ .ok s' := by
  induction entries generalizing s with
  | nil =>
      simp at extended
  | cons pt rest inductionHypothesis =>
      rw [extBase] at zero
      by_cases first : pt.fsType = 0x5
      · have toZero : pt.startLba = 0 := by
          simpa [first, linkBase] using zero
        rw [scanEntries_extended first]
        intro returned
        obtain ⟨middle, entered, _⟩ := Call.bind_eq_ok_iff.mp returned
        rw [linkTarget, linkBase, if_neg (by simp [start]),
          if_neg (by simp [start]), toZero] at entered
        exact never _ _ rfl entered
      · rw [if_neg first] at zero
        have later : ∃ pt ∈ rest, pt.fsType = 0x5 := by
          simpa [first] using extended
        by_cases used : pt.fsType ≠ 0
        · rw [scanEntries_partition first used]
          split
          · exact inductionHypothesis later zero
              ((ScanState.place_extLbaBase _).trans start)
          · rw [if_pos rfl]
            simp
        · rw [scanEntries_empty (not_not.mp used)]
          exact inductionHypothesis later zero start

private theorem partitionScan_again (depth : Nat) {s : ScanState}
    (s' : ScanState)
    (extended : ∃ pt ∈ d.partitionTableArray 0, pt.fsType = 0x5)
    (zero : extBase 0 (d.partitionTableArray 0) = 0)
    (start : s.extLbaBase = 0) :
    partitionScan d depth 0 s ≠ .ok s' := by
  induction depth generalizing s s' with
  | zero =>
      simp [partitionScan]
  | succ depth inductionHypothesis =>
      exact scanEntries_again (fun _ s' start => inductionHypothesis s' start)
        s' extended zero start

/-- Where the walk along the links of a disk ends, the scan of the disk has an
outcome. -/
theorem partitionScan_outcome {s : ScanState} {found : List Found}
    (finds : ScanFinds d s.extLbaBase found) :
    ∃ depth r bound,
      (∀ deeper, depth ≤ deeper → partitionScan d deeper 0 s = r) ∧
      ScanOutcome d bound s found r := by
  rcases linked_cases d s.extLbaBase with ⟨start, zero, extended⟩ |
    ⟨bound, nonzero, leads, same⟩
  · have itself : .link 0 ∈ d.cells 0 0 := link_zero_mem extended zero
    unfold ScanFinds HdDisk.linked at finds
    rw [start, zero] at finds
    exact absurd itself (finds.not_self itself)
  · obtain ⟨depth, r, reached, outcome⟩ := scanEntries_outcome nonzero
      ((same found).mp finds) (d.partitionTableArray 0) 0 s rfl leads
    refine ⟨depth + 1, r, bound, ?_, outcome⟩
    intro deeper enough
    obtain ⟨deeper, rfl⟩ := Nat.exists_eq_add_of_le' (Nat.le_of_add_left_le
      enough)
    exact reached deeper (Nat.le_of_succ_le_succ enough)

/-- A scan of a disk that returns has stored behind the logical partitions, or
it has placed what the walk along the links meets. -/
theorem partitionScan_returns {depth : Nat} {s s' : ScanState}
    (returned : partitionScan d depth 0 s = .ok s') :
    (∃ index ∈ s'.logic.stored, 8 ≤ index) ∨
      ∃ found, ScanFinds d s.extLbaBase found ∧ s.Quiet d found ∧
        ∃ base, s' = (s.placeAll d found).withBase base := by
  rcases linked_cases d s.extLbaBase with ⟨start, zero, extended⟩ |
    ⟨bound, nonzero, leads, same⟩
  · exact absurd returned
      (partitionScan_again depth s' extended zero start)
  · rcases (partitionScan_follows nonzero leads returned).followed with
      behind | ⟨found, walked, placed⟩
    · exact Or.inl behind
    · exact Or.inr ⟨found, (same found).mpr walked, placed⟩

end Disks

end Simos
