import Simos.Device.Partition

/-!
# What a scan stores (`device/ide.c`)

The entries that a scan finds are placed one after another in the two arrays
of the disk.  `placeAll` is this without the checks of `partition_scan`;
`Quiet` says that none of the checks stops the scan.

* `Filled` is what an array looks like after its stores;
* `filled_storeAll` shows it as long as the index does not wrap around;
* `room_of_stored` says that stores inside an array never wrap around.
-/

namespace Simos

/-- An entry with the sector that it was found in. -/
abbrev Found : Type :=
  Nat × PartitionTable

/-- The entries of sector 0, which go to the primary partitions. -/
def primFound (found : List Found) : List Found :=
  found.filter fun entry => entry.1 = 0

def logicFound (found : List Found) : List Found :=
  found.filter fun entry => entry.1 ≠ 0

theorem primFound_append (found later : List Found) :
    primFound (found ++ later) = primFound found ++ primFound later :=
  List.filter_append _ _

theorem logicFound_append (found later : List Found) :
    logicFound (found ++ later) = logicFound found ++ logicFound later :=
  List.filter_append _ _

section Sorted

variable {entry : Found} (rest : List Found)

private theorem primFound_of_zero (primary : entry.1 = 0) :
    primFound (entry :: rest) = entry :: primFound rest := by
  simp [primFound, primary]

private theorem primFound_of_ne (logical : entry.1 ≠ 0) :
    primFound (entry :: rest) = primFound rest := by
  simp [primFound, logical]

theorem logicFound_of_zero (primary : entry.1 = 0) :
    logicFound (entry :: rest) = logicFound rest := by
  simp [logicFound, primary]

theorem logicFound_of_ne (logical : entry.1 ≠ 0) :
    logicFound (entry :: rest) = entry :: logicFound rest := by
  simp [logicFound, logical]

end Sorted

/-! ## One array -/

namespace PartArray

variable {a : PartArray} {d : HdDisk} {found : List Found} {first : Nat}

def storeAll (a : PartArray) (d : HdDisk) (found : List Found)
    (first : Nat) : PartArray :=
  found.foldl (fun a entry => a.store d entry.1 entry.2 first) a

def Room (a : PartArray) (count limit : Nat) : Prop :=
  count = 0 ∨ a.no + count ≤ limit

def extent (a : PartArray) (index : Nat) : Nat × Nat :=
  ((a.parts index).startLba, (a.parts index).sectorCnt)

/-- The array `a'` is `a` with the entries stored from its index on. -/
structure Filled (a a' : PartArray) (found : List Found) : Prop where
  no : a'.no = a.no + found.length
  cnt : a'.cnt = a.cnt + found.length
  stored : a'.stored = a.stored ++ List.range' a.no found.length
  extents : (List.range' a.no found.length).map a'.extent =
    found.map fun entry => (u32 (entry.1 + entry.2.startLba), entry.2.sectorCnt)
  before : ∀ index, index < a.no → a'.parts index = a.parts index

@[simp]
theorem storeAll_nil : a.storeAll d [] first = a :=
  rfl

@[simp]
theorem storeAll_cons (entry : Found) :
    a.storeAll d (entry :: found) first =
      (a.store d entry.1 entry.2 first).storeAll d found first :=
  rfl

theorem room_of_cons {count limit : Nat} (small : limit ≤ 255)
    (room : a.Room (count + 1) limit) (d : HdDisk) (extLba : Nat)
    (pt : PartitionTable) (first : Nat) :
    (a.store d extLba pt first).no = a.no + 1 ∧
      (a.store d extLba pt first).Room count limit := by
  rcases room with none | room
  · exact absurd none (Nat.succ_ne_zero count)
  · have next : (a.store d extLba pt first).no = a.no + 1 :=
      Nat.mod_eq_of_lt (by omega)
    exact ⟨next, Or.inr (by omega)⟩

theorem Room.left {count more limit : Nat}
    (room : a.Room (count + more) limit) : a.Room count limit := by
  rcases room with none | room
  · exact Or.inl (by omega)
  · exact Or.inr (by omega)

theorem room_storeAll {count limit : Nat} (small : limit ≤ 255)
    (room : a.Room (found.length + count) limit) :
    (a.storeAll d found first).Room count limit := by
  induction found generalizing a with
  | nil =>
      rwa [List.length_nil, Nat.zero_add] at room
  | cons entry rest inductionHypothesis =>
      rw [List.length_cons, Nat.add_right_comm] at room
      obtain ⟨-, roomAfter⟩ := room_of_cons small room d entry.1 entry.2 first
      exact inductionHypothesis roomAfter

theorem filled_storeAll (d : HdDisk) (first : Nat)
    (room : a.Room found.length 255)
    (counter : a.cnt + found.length ≤ 255) :
    Filled a (a.storeAll d found first) found := by
  induction found generalizing a with
  | nil =>
      exact ⟨rfl, rfl, (List.append_nil _).symm, rfl, fun _ _ => rfl⟩
  | cons entry rest inductionHypothesis =>
      rw [List.length_cons] at room counter
      obtain ⟨next, roomAfter⟩ :=
        room_of_cons (Nat.le_refl 255) room d entry.1 entry.2 first
      have count : (a.store d entry.1 entry.2 first).cnt = a.cnt + 1 :=
        Nat.mod_eq_of_lt (by omega)
      have filled := inductionHypothesis roomAfter (by omega)
      rw [storeAll_cons]
      constructor
      case no =>
        rw [filled.no, next, List.length_cons]
        omega
      case cnt =>
        rw [filled.cnt, count, List.length_cons]
        omega
      case stored =>
        rw [filled.stored, next, List.length_cons, List.range'_succ]
        exact List.append_assoc _ _ _
      case extents =>
        have extents := filled.extents
        have head := filled.before a.no (by omega)
        rw [next] at extents
        rw [List.length_cons, List.range'_succ, List.map_cons, extents,
          List.map_cons]
        congr 1
        simp only [extent, head]
        simp [store]
      case before =>
        intro index below
        rw [filled.before index (by omega)]
        exact Function.update_of_ne (Nat.ne_of_lt below) _ _

private theorem storeAll_stored (found : List Found) :
    a.stored <+: (a.storeAll d found first).stored := by
  induction found generalizing a with
  | nil =>
      exact List.prefix_rfl
  | cons entry rest inductionHypothesis =>
      have stored := inductionHypothesis (a := a.store d entry.1 entry.2 first)
      exact (List.prefix_append a.stored [a.no]).trans stored

theorem room_of_stored {limit : Nat} (small : limit ≤ 255)
    (inside : ∀ index ∈ (a.storeAll d found first).stored, index < limit) :
    a.Room found.length limit := by
  induction found generalizing a with
  | nil =>
      exact Or.inl rfl
  | cons entry rest inductionHypothesis =>
      right
      have stored : (a.store d entry.1 entry.2 first).stored =
          a.stored ++ [a.no] := rfl
      have here : a.no < limit := by
        apply inside
        refine (storeAll_stored rest).subset ?_
        rw [stored]
        simp
      have next : (a.store d entry.1 entry.2 first).no = a.no + 1 :=
        Nat.mod_eq_of_lt (by omega)
      have after : (a.store d entry.1 entry.2 first).Room rest.length limit :=
        inductionHypothesis inside
      rw [List.length_cons]
      rcases after with none | room
      · omega
      · omega

end PartArray

/-! ## Both arrays -/

namespace ScanState

variable {s : ScanState} {d : HdDisk} {found later : List Found} {base : Nat}

def withBase (s : ScanState) (base : Nat) : ScanState :=
  { s with extLbaBase := base }

def place (s : ScanState) (d : HdDisk) (entry : Found) : ScanState :=
  if entry.1 = 0 then
    s.storePrim d entry.1 entry.2
  else
    s.storeLogic d entry.1 entry.2

def placeAll (s : ScanState) (d : HdDisk) (found : List Found) : ScanState :=
  found.foldl (fun s entry => s.place d entry) s

/-- The check behind the stores for an entry lets the scan go on. -/
def Passes (s : ScanState) (entry : Found) : Prop :=
  if entry.1 = 0 then s.prim.no < 4 else s.logic.no ≤ 8

instance (s : ScanState) (entry : Found) : Decidable (s.Passes entry) :=
  inferInstanceAs
    (Decidable (if entry.1 = 0 then s.prim.no < 4 else s.logic.no ≤ 8))

def Quiet (d : HdDisk) : ScanState → List Found → Prop
  | _, [] => True
  | s, entry :: rest =>
      (s.place d entry).Passes entry ∧ Quiet d (s.place d entry) rest

@[simp]
theorem placeAll_nil : s.placeAll d [] = s :=
  rfl

@[simp]
theorem placeAll_cons (entry : Found) :
    s.placeAll d (entry :: found) = (s.place d entry).placeAll d found :=
  rfl

theorem placeAll_append :
    s.placeAll d (found ++ later) = (s.placeAll d found).placeAll d later :=
  List.foldl_append

@[simp]
theorem withBase_withBase (other : Nat) :
    (s.withBase other).withBase base = s.withBase base :=
  rfl

theorem place_of_zero {entry : Found} (primary : entry.1 = 0) :
    s.place d entry = s.storePrim d entry.1 entry.2 :=
  if_pos primary

theorem place_of_ne {entry : Found} (logical : entry.1 ≠ 0) :
    s.place d entry = s.storeLogic d entry.1 entry.2 :=
  if_neg logical

private theorem passes_of_zero {entry : Found} (primary : entry.1 = 0) :
    s.Passes entry ↔ s.prim.no < 4 :=
  iff_of_eq (if_pos primary)

theorem passes_of_ne {entry : Found} (logical : entry.1 ≠ 0) :
    s.Passes entry ↔ s.logic.no ≤ 8 :=
  iff_of_eq (if_neg logical)

private theorem place_withBase (entry : Found) :
    (s.withBase base).place d entry = (s.place d entry).withBase base := by
  unfold place
  split <;> rfl

@[simp]
theorem placeAll_withBase :
    (s.withBase base).placeAll d found = (s.placeAll d found).withBase base := by
  induction found generalizing s with
  | nil =>
      rfl
  | cons entry rest inductionHypothesis =>
      rw [placeAll_cons, place_withBase, inductionHypothesis, placeAll_cons]

theorem place_extLbaBase (entry : Found) :
    (s.place d entry).extLbaBase = s.extLbaBase := by
  unfold place
  split <;> rfl

theorem place_stored (entry : Found) :
    s.logic.stored <+: (s.place d entry).logic.stored := by
  unfold place
  split
  · exact List.prefix_rfl
  · exact List.prefix_append _ _

@[simp]
theorem quiet_withBase :
    Quiet d (s.withBase base) found ↔ Quiet d s found := by
  induction found generalizing s with
  | nil =>
      exact Iff.rfl
  | cons entry rest inductionHypothesis =>
      unfold Quiet
      rw [place_withBase, inductionHypothesis]
      rfl

theorem quiet_append :
    Quiet d s (found ++ later) ↔
      Quiet d s found ∧ Quiet d (s.placeAll d found) later := by
  induction found generalizing s with
  | nil =>
      simp [Quiet]
  | cons entry rest inductionHypothesis =>
      simp only [List.cons_append, Quiet, inductionHypothesis,
        placeAll_cons, and_assoc]

theorem placeAll_eq :
    s.placeAll d found =
      ⟨s.extLbaBase, s.prim.storeAll d (primFound found) 1,
        s.logic.storeAll d (logicFound found) 5⟩ := by
  induction found generalizing s with
  | nil =>
      rfl
  | cons entry rest inductionHypothesis =>
      rw [placeAll_cons, inductionHypothesis]
      by_cases primary : entry.1 = 0
      · rw [place_of_zero primary, primFound_of_zero rest primary,
          logicFound_of_zero rest primary]
        rfl
      · rw [place_of_ne primary, primFound_of_ne rest primary,
          logicFound_of_ne rest primary]
        rfl

theorem quiet_of_room (prim : s.prim.Room (primFound found).length 3)
    (logic : s.logic.Room (logicFound found).length 8) :
    Quiet d s found := by
  induction found generalizing s with
  | nil =>
      trivial
  | cons entry rest inductionHypothesis =>
      unfold Quiet
      by_cases primary : entry.1 = 0
      · rw [primFound_of_zero rest primary, List.length_cons] at prim
        rw [logicFound_of_zero rest primary] at logic
        obtain ⟨next, room⟩ :=
          PartArray.room_of_cons (by decide) prim d entry.1 entry.2 1
        rw [place_of_zero primary, passes_of_zero primary]
        refine ⟨?_, inductionHypothesis room logic⟩
        have few := prim.resolve_left (Nat.succ_ne_zero _)
        exact next.trans_lt (by omega)
      · rw [logicFound_of_ne rest primary, List.length_cons] at logic
        rw [primFound_of_ne rest primary] at prim
        obtain ⟨next, room⟩ :=
          PartArray.room_of_cons (by decide) logic d entry.1 entry.2 5
        rw [place_of_ne primary, passes_of_ne primary]
        refine ⟨?_, inductionHypothesis prim room⟩
        have few := logic.resolve_left (Nat.succ_ne_zero _)
        exact next.trans_le (by omega)

/-- A scan that is not stopped stores at most three primary partitions. -/
theorem primRoom_of_quiet (quiet : Quiet d s found) (few : s.prim.no < 4) :
    s.prim.Room (primFound found).length 3 := by
  induction found generalizing s with
  | nil =>
      exact Or.inl rfl
  | cons entry rest inductionHypothesis =>
      obtain ⟨passes, quiet⟩ := quiet
      by_cases primary : entry.1 = 0
      · rw [place_of_zero primary] at passes quiet
        rw [passes_of_zero primary] at passes
        have next : (s.storePrim d entry.1 entry.2).prim.no =
            s.prim.no + 1 := Nat.mod_eq_of_lt (by omega)
        rw [primFound_of_zero rest primary, List.length_cons]
        right
        rcases inductionHypothesis quiet passes with none | room
        · omega
        · omega
      · rw [place_of_ne primary] at quiet
        have after : (s.storeLogic d entry.1 entry.2).prim.Room
            (primFound rest).length 3 := inductionHypothesis quiet few
        rw [primFound_of_ne rest primary]
        exact after

end ScanState

end Simos
