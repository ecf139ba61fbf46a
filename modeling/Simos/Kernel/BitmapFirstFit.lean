import Mathlib.Data.Nat.Find
import Simos.Kernel.BitmapSearch

/-!
# What `bitmap_apply` finds

As long as the bitmap has a clear run of the wanted length, `__base_idx` never
passes the first one, because every set bit that the window meets lies in
front of it.  This decides the whole call: `bitmapApply_of_first` says what it
does, by the place of the first run alone.

* `bitmapApply_firstFit`: an index that is returned starts the first run;
* `bitmapApply_finds_iff`: a run is found when one ends before the last bit.
-/

namespace Simos

namespace Bitmap

/-- `index` starts the first run of `nbits` clear bits. -/
structure FirstRun (bitmap : Bitmap) (nbits index : Nat) : Prop where
  run : bitmap.ClearRun index nbits
  first : ∀ smaller, smaller < index → ¬ bitmap.ClearRun smaller nbits

variable {bitmap : Bitmap} {nbits index : Nat}

theorem ClearRun.exists_first (run : bitmap.ClearRun index nbits) :
    ∃ first, bitmap.FirstRun nbits first ∧ first ≤ index := by
  classical
  have exists_run : ∃ start, bitmap.ClearRun start nbits := ⟨index, run⟩
  exact ⟨Nat.find exists_run,
    ⟨Nat.find_spec exists_run, fun smaller => Nat.find_min exists_run⟩,
    Nat.find_min' exists_run run⟩

theorem FirstRun.le (first : bitmap.FirstRun nbits index) {start : Nat}
    (run : bitmap.ClearRun start nbits) : index ≤ start :=
  Nat.not_lt.mp fun before => first.first start before run

theorem FirstRun.clear (first : bitmap.FirstRun nbits index)
    (positive : 1 ≤ nbits) : bitmap.bits index = false :=
  first.run.2 index (Nat.le_refl index) (by omega)

/-- A set bit less than `nbits` behind a bit in front of the run lies in front
of the run, too. -/
theorem FirstRun.lt_of_set (first : bitmap.FirstRun nbits index)
    {base top : Nat} (before : base ≤ index) (near : top < base + nbits)
    (isSet : bitmap.bits top = true) : top < index := by
  by_contra behind
  have clear := first.run.2 top (by omega) (by omega)
  rw [isSet] at clear
  exact Bool.noConfusion clear

end Bitmap

/-- What `bitmap_apply` does when the first run starts at `first`: a run that
touches the last bit is missed, and a single bit there fails the `ASSERT` of
`find_next_bit`. -/
def appliedTo (bitmap : Bitmap) (nbits first : Nat) : Call Int :=
  if first + nbits < bitmap.bitCount then .ok first
  else if nbits = 1 then .error .assertFailed
  else .ok (-1)

private theorem appliedTo_eq_ok {bitmap : Bitmap} {nbits first : Nat}
    {result : Int} (returned : appliedTo bitmap nbits first = .ok result)
    (found : result ≠ -1) :
    result = first ∧ first + nbits < bitmap.bitCount := by
  unfold appliedTo at returned
  split at returned
  · rename_i inside
    cases returned
    exact ⟨rfl, inside⟩
  · split at returned
    · cases returned
    · cases returned
      exact absurd rfl found

section Search

variable {bitmap : Bitmap} {nbits first : Nat}

theorem findNextZeroBit_le (pointer : bitmap.bitmap ≠ 0)
    (isFirst : bitmap.FirstRun nbits first) (positive : 1 ≤ nbits)
    {offest : Nat} (before : offest ≤ first) :
    ∃ base : Nat, findNextZeroBit bitmap offest = .ok (base : Int) ∧
      offest ≤ base ∧ base ≤ first ∧ bitmap.bits base = false := by
  have room := isFirst.run.1
  have clear := isFirst.clear positive
  have inside : offest < bitmap.bitCount := by omega
  unfold findNextZeroBit
  rw [Call.assert_of pointer, Call.assert_of inside]
  rcases findNextZeroBitLoop_spec bitmap (bitmap.bitCount - offest) offest
      inside (by omega) with
    ⟨-, allSet⟩ | ⟨base, found, lower, -, baseClear, earlierSet⟩
  · have set := allSet first before (by omega)
    rw [clear] at set
    exact Bool.noConfusion set
  · refine ⟨base, by rw [found]; rfl, lower, ?_, baseClear⟩
    by_contra passed
    have set := earlierSet first before (by omega)
    rw [clear] at set
    exact Bool.noConfusion set

/-- One round from a clear bit: the bit is the last one, or all bits of the
window are clear, or the walk meets a set bit. -/
theorem bitmapApplyLoop_round (pointer : bitmap.bitmap ≠ 0)
    (positive : 1 ≤ nbits) (bound : nbits < 4294967296) {base : Nat}
    (inside : base < bitmap.bitCount) (clear : bitmap.bits base = false)
    (fuel : Nat) (topIdx : Int) :
    (base + 1 = bitmap.bitCount ∧
        bitmapApplyLoop bitmap nbits (fuel + 1) base topIdx =
          .error .assertFailed) ∨
      (base + 1 < bitmap.bitCount ∧
        (∀ tested, base ≤ tested → tested < bitmap.bitCount →
          tested < base + nbits → bitmap.bits tested = false) ∧
        bitmapApplyLoop bitmap nbits (fuel + 1) base topIdx =
          .ok (if base + nbits < bitmap.bitCount then base else -1)) ∨
      ∃ top, base < top ∧ top < bitmap.bitCount ∧
        top < base + max 2 nbits ∧ bitmap.bits top = true ∧
        (∀ tested, base ≤ tested → tested < top →
          bitmap.bits tested = false) ∧
        bitmapApplyLoop bitmap nbits (fuel + 1) base topIdx =
          if nbits = 1 then .ok (base : Int)
          else findNextZeroBit bitmap (top + 1) >>= fun baseIdx =>
            bitmapApplyLoop bitmap nbits fuel baseIdx top := by
  have countBound := bitmap.bitCount_lt
  have enter : toU64 base < bitmap.bitCount ∨
      toU64 topIdx < bitmap.bitCount := by
    left
    unfold toU64
    omega
  have offset : toU32 ((base : Int) + 1) = base + 1 := by
    unfold toU32
    omega
  have less : sub32 nbits 1 = nbits - 1 := sub32_of_le positive bound
  have stay : ∀ tested, base ≤ tested →
      (base + 1 ≤ tested → bitmap.bits tested = false) →
      bitmap.bits tested = false := by
    intro tested lower later
    rcases Nat.eq_or_lt_of_le lower with same | greater
    · rw [← same]
      exact clear
    · exact later greater
  rw [bitmapApplyLoop, if_pos enter, findNextBit, Call.assert_of pointer,
    offset, less]
  by_cases next : base + 1 < bitmap.bitCount
  · rw [Call.assert_of next]
    simp only [Call.ok_bind, Call.pure_eq_ok]
    rcases findNextBitLoop_spec bitmap (nbits - 1)
        (bitmap.bitCount - (base + 1)) (base + 1) 0 next (by omega) with
      ⟨missed, allClear⟩ | ⟨top, found, lower, upper, near, isSet, before⟩
    · have room : toU64 ((bitmap.bitCount : Int) - 1 - base) ≥ nbits ↔
          base + nbits < bitmap.bitCount := by
        unfold toU64
        omega
      rw [if_pos missed]
      refine Or.inr (Or.inl ⟨next, ?_, ?_⟩)
      · intro tested low high window
        exact stay tested low fun later =>
          allClear tested later high (by omega)
      · simp only [room]
        split <;> rfl
    · have onwards : toU32 ((top : Int) + 1) = top + 1 := by
        unfold toU32
        omega
      -- only a window of one bit is passed by the set bit
      have wide : (top : Int) - base ≥ nbits ↔ nbits = 1 := by omega
      rw [found, if_neg (by omega), onwards]
      refine Or.inr (Or.inr ⟨top, lower, upper, by omega, isSet, ?_, ?_⟩)
      · intro tested low high
        exact stay tested low fun later => before tested later high
      · simp only [wide]
  · left
    refine ⟨by omega, ?_⟩
    rw [Call.assert_of_not next]
    rfl

private theorem bitmapApplyLoop_of_first (pointer : bitmap.bitmap ≠ 0)
    (positive : 1 ≤ nbits) (bound : nbits < 4294967296)
    (isFirst : bitmap.FirstRun nbits first) :
    ∀ (fuel base : Nat) (topIdx : Int),
      bitmap.bits base = false → base ≤ first → first < fuel + base →
      bitmapApplyLoop bitmap nbits fuel base topIdx =
        appliedTo bitmap nbits first
  | 0, base, _, _, before, enough => by
      omega
  | fuel + 1, base, topIdx, clear, before, enough => by
      have room := isFirst.run.1
      -- a run at the base is the first one
      have here : bitmap.ClearRun base nbits → base = first := fun run =>
        Nat.le_antisymm before (isFirst.le run)
      rcases bitmapApplyLoop_round pointer positive bound
          (by omega : base < bitmap.bitCount) clear fuel topIdx with
        ⟨atEnd, result⟩ | ⟨next, window, result⟩ |
          ⟨top, lower, upper, near, isSet, between, result⟩
      · rw [result, appliedTo, if_neg (by omega), if_pos (by omega)]
      · rw [result, appliedTo]
        by_cases fits : base + nbits < bitmap.bitCount
        · have same := here ⟨by omega, fun tested low high =>
            window tested low (by omega) high⟩
          rw [if_pos fits, if_pos (same ▸ fits), same]
        · rw [if_neg fits, if_neg (by omega), if_neg (by omega)]
      · rw [result]
        by_cases single : nbits = 1
        · have same := here ⟨by omega, fun tested low high =>
            between tested low (by omega)⟩
          rw [if_pos single, appliedTo, if_pos (by omega), same]
        · have passed : top < first :=
            isFirst.lt_of_set before (by omega) isSet
          obtain ⟨base', searched, later, before', clear'⟩ :=
            findNextZeroBit_le pointer isFirst positive
              (Nat.succ_le_of_lt passed)
          rw [if_neg single, searched, Call.ok_bind]
          exact bitmapApplyLoop_of_first pointer positive bound isFirst fuel
            base' top clear' before' (by omega)

/-- What a call does to a bitmap with a run, by its first run. -/
theorem bitmapApply_of_first (pointer : bitmap.bitmap ≠ 0)
    (positive : 1 ≤ nbits) (bound : nbits < 4294967296)
    (isFirst : bitmap.FirstRun nbits first) :
    bitmapApply bitmap nbits = appliedTo bitmap nbits first := by
  have room := isFirst.run.1
  obtain ⟨base, searched, -, before, clear⟩ :=
    findNextZeroBit_le pointer isFirst positive (Nat.zero_le first)
  rw [bitmapApply, Call.assert_of pointer, Call.ok_bind, searched,
    Call.ok_bind, if_neg (by omega)]
  exact bitmapApplyLoop_of_first pointer positive bound isFirst _ base 0 clear
    before (by omega)

private theorem bitmapApply_pointer {result : Int}
    (returned : bitmapApply bitmap nbits = .ok result) :
    bitmap.bitmap ≠ 0 := by
  simp only [bitmapApply, Call.bind_eq_ok_iff, Call.assert_eq_ok_iff,
    exists_const] at returned
  exact returned.1

/-- An index that is returned is that of the first run, and the run ends
before the last bit. -/
theorem bitmapApply_eq_ok {result : Int} (positive : 1 ≤ nbits)
    (bound : nbits < 4294967296)
    (returned : bitmapApply bitmap nbits = .ok result)
    (found : result ≠ -1) :
    ∃ start : Nat, result = start ∧ bitmap.FirstRun nbits start ∧
      start + nbits < bitmap.bitCount := by
  rcases bitmapApply_isApplied positive bound returned with
    none | ⟨index, -, run⟩
  · exact absurd none found
  obtain ⟨start, isFirst, -⟩ := run.exists_first
  rw [bitmapApply_of_first (bitmapApply_pointer returned) positive bound
    isFirst] at returned
  obtain ⟨same, inside⟩ := appliedTo_eq_ok returned found
  exact ⟨start, same, isFirst, inside⟩

end Search

private theorem Bitmap.bitCount_of_lt {bitmap : Bitmap}
    (small : bitmap.bitmapBytesLen < 536870912) :
    bitmap.bitCount = 8 * bitmap.bitmapBytesLen := by
  unfold Bitmap.bitCount
  rw [u32_of_lt (by omega)]
  omega

/-- A returned index starts a run of clear bits inside the bitmap, and no
smaller index does. -/
theorem bitmapApply_firstFit {bitmap : Bitmap} {nbits : Nat} {idx : Int}
    (bytes : 1 ≤ bitmap.bitmapBytesLen ∧ bitmap.bitmapBytesLen < 536870912)
    (positive : 1 ≤ nbits) (bound : nbits < 4294967296)
    (returned : bitmapApply bitmap nbits = .ok idx) (found : idx ≠ -1) :
    0 ≤ idx ∧ idx + nbits ≤ 8 * bitmap.bitmapBytesLen ∧
      (∀ tested : Nat, idx ≤ tested → tested < idx + nbits →
        bitmap.bits tested = false) ∧
      ∀ smaller : Nat, smaller < idx →
        ¬ (smaller + nbits ≤ 8 * bitmap.bitmapBytesLen ∧
          ∀ tested, smaller ≤ tested → tested < smaller + nbits →
            bitmap.bits tested = false) := by
  obtain ⟨start, rfl, isFirst, inside⟩ :=
    bitmapApply_eq_ok positive bound returned found
  have count := Bitmap.bitCount_of_lt bytes.2
  refine ⟨by omega, by omega, ?_, ?_⟩
  · intro tested lower upper
    exact isFirst.run.2 tested (by omega) (by omega)
  · intro smaller before run
    refine isFirst.first smaller (by omega) ⟨?_, run.2⟩
    rw [count]
    exact run.1

def byteBitmap (content : BitVec 8) : Bitmap :=
  ⟨1, 4096, fun _ => content⟩

/-- The first fit for three bits in a byte with the bits `01100001`. -/
theorem bitmapApply_firstFit_three :
    0 ≤ (1 : Int) ∧ (1 : Int) + (3 : Nat) ≤ 8 * (1 : Nat) ∧
      (∀ tested : Nat, (1 : Int) ≤ tested → (tested : Int) < 1 + (3 : Nat) →
        (byteBitmap 0x61).bits tested = false) ∧
      ∀ smaller : Nat, (smaller : Int) < 1 →
        ¬ (smaller + 3 ≤ 8 * 1 ∧
          ∀ tested, smaller ≤ tested → tested < smaller + 3 →
            (byteBitmap 0x61).bits tested = false) :=
  @bitmapApply_firstFit (byteBitmap 0x61) 3 1 (by decide) (by decide)
    (by decide) (by decide +kernel) (by decide)

/-- A run of clear bits is found exactly when there is one that ends before
the last bit. -/
theorem bitmapApply_finds_iff {bitmap : Bitmap} {nbits : Nat}
    (pointer : bitmap.bitmap ≠ 0) (positive : 1 ≤ nbits)
    (bound : nbits < 4294967296) :
    (∃ start : Nat, bitmapApply bitmap nbits = .ok (start : Int) ∧
        bitmap.ClearRun start nbits) ↔
      ∃ start, bitmap.ClearRun start nbits ∧
        start + nbits < bitmap.bitCount := by
  constructor
  · rintro ⟨start, returned, run⟩
    obtain ⟨index, same, -, inside⟩ :=
      bitmapApply_eq_ok positive bound returned (by omega)
    have equal : start = index := by omega
    exact ⟨start, run, equal ▸ inside⟩
  · rintro ⟨start, run, inside⟩
    obtain ⟨first, isFirst, before⟩ := run.exists_first
    refine ⟨first, ?_, isFirst.run⟩
    rw [bitmapApply_of_first pointer positive bound isFirst, appliedTo,
      if_pos (by omega)]

theorem bitmapApply_finds_iff_byte :
    (∃ start : Nat,
        bitmapApply (byteBitmap 0x6f) 1 = .ok (start : Int) ∧
        (byteBitmap 0x6f).ClearRun start 1) ↔
      ∃ start, (byteBitmap 0x6f).ClearRun start 1 ∧
        start + 1 < (byteBitmap 0x6f).bitCount :=
  bitmapApply_finds_iff (by decide) (by decide) (by decide)

/-- Two free bits at the end of a byte are not found, and a single one stops
the machine. -/
theorem bitmapApply_misses_tail :
    (byteBitmap 0x3f).ClearRun 6 2 ∧
      bitmapApply (byteBitmap 0x3f) 2 = .ok (-1) ∧
      (byteBitmap 0x7f).ClearRun 7 1 ∧
      bitmapApply (byteBitmap 0x7f) 1 = .error .assertFailed := by
  have two : (byteBitmap 0x3f).ClearRun 6 2 := by
    refine ⟨by decide, fun tested lower upper => ?_⟩
    have cases : tested = 6 ∨ tested = 7 := by omega
    rcases cases with rfl | rfl <;> decide
  have one : (byteBitmap 0x7f).ClearRun 7 1 := by
    refine ⟨by decide, fun tested lower upper => ?_⟩
    have same : tested = 7 := by omega
    rw [same]
    decide
  exact ⟨two, by decide +kernel, one, by decide +kernel⟩

end Simos
