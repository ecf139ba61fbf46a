import Simos.Kernel.Bitmap

/-!
# What a returning bitmap search has found

`bitmap_apply` alternates two scans and may restart from index `-1`.  The
invariant of its loop is that `__base_idx` is `-1` or the index of a clear bit
of the bitmap; with it every returning path yields `-1` or the start of a
run of clear bits that lies inside the bitmap.
-/

namespace Simos

namespace Bitmap

/-- `index` starts a run of `nbits` clear bits inside the bitmap. -/
def ClearRun (bitmap : Bitmap) (index nbits : Nat) : Prop :=
  index + nbits ≤ bitmap.bitCount ∧
    ∀ tested, index ≤ tested → tested < index + nbits →
      bitmap.bits tested = false

end Bitmap

theorem findNextZeroBitLoop_spec (bitmap : Bitmap) :
    ∀ fuel offest : Nat,
      offest < bitmap.bitCount → bitmap.bitCount ≤ fuel + offest →
      (findNextZeroBitLoop bitmap fuel offest = -1 ∧
          ∀ tested, offest ≤ tested → tested < bitmap.bitCount →
            bitmap.bits tested = true) ∨
        ∃ index : Nat, findNextZeroBitLoop bitmap fuel offest = index ∧
          offest ≤ index ∧ index < bitmap.bitCount ∧
          bitmap.bits index = false ∧
          ∀ tested, offest ≤ tested → tested < index →
            bitmap.bits tested = true
  | 0, offest, inside, enough => by
      omega
  | fuel + 1, offest, inside, enough => by
      rw [findNextZeroBitLoop, testBit_eq_bits]
      cases here : bitmap.bits offest with
      | false =>
          refine Or.inr ⟨offest, by simp, Nat.le_refl _, inside, here, ?_⟩
          intro tested lower upper
          omega
      | true =>
          have stay : ∀ tested, offest ≤ tested →
              (offest + 1 ≤ tested → bitmap.bits tested = true) →
              bitmap.bits tested = true := by
            intro tested lower later
            rcases Nat.eq_or_lt_of_le lower with equal | greater
            · rw [← equal]
              exact here
            · exact later greater
          by_cases more : offest + 1 < bitmap.bitCount
          · simp only [Bool.not_true, Bool.false_eq_true, if_false, more,
              if_true]
            rcases findNextZeroBitLoop_spec bitmap fuel (offest + 1) more
                (by omega) with
              ⟨missed, allSet⟩ | ⟨index, found, lower, upper, clear, before⟩
            · refine Or.inl ⟨missed, fun tested low high => ?_⟩
              exact stay tested low fun later => allSet tested later high
            · refine Or.inr ⟨index, found, by omega, upper, clear, ?_⟩
              intro tested low high
              exact stay tested low fun later => before tested later high
          · simp only [Bool.not_true, Bool.false_eq_true, if_false, more]
            refine Or.inl ⟨trivial, fun tested low high => ?_⟩
            exact stay tested low fun later => by omega

/-- `find_next_bit` stops at the first set bit of its window, which has at
least one bit. -/
theorem findNextBitLoop_spec (bitmap : Bitmap) (maxOffest : Nat) :
    ∀ fuel offest count : Nat,
      offest < bitmap.bitCount → bitmap.bitCount ≤ fuel + offest →
      (findNextBitLoop bitmap maxOffest fuel offest count = -1 ∧
          ∀ tested, offest ≤ tested → tested < bitmap.bitCount →
            tested < offest + max 1 (maxOffest - count) →
            bitmap.bits tested = false) ∨
        ∃ index : Nat,
          findNextBitLoop bitmap maxOffest fuel offest count = index ∧
          offest ≤ index ∧ index < bitmap.bitCount ∧
          index < offest + max 1 (maxOffest - count) ∧
          bitmap.bits index = true ∧
          ∀ tested, offest ≤ tested → tested < index →
            bitmap.bits tested = false
  | 0, offest, count, inside, enough => by
      omega
  | fuel + 1, offest, count, inside, enough => by
      rw [findNextBitLoop, testBit_eq_bits]
      cases here : bitmap.bits offest with
      | true =>
          refine Or.inr ⟨offest, by simp, Nat.le_refl _, inside, by omega,
            here, ?_⟩
          intro tested lower upper
          omega
      | false =>
          have stay : ∀ tested, offest ≤ tested →
              (offest + 1 ≤ tested → bitmap.bits tested = false) →
              bitmap.bits tested = false := by
            intro tested lower later
            rcases Nat.eq_or_lt_of_le lower with equal | greater
            · rw [← equal]
              exact here
            · exact later greater
          by_cases more : offest + 1 < bitmap.bitCount ∧ count + 1 < maxOffest
          · simp only [Bool.false_eq_true, if_false, if_pos more]
            rcases findNextBitLoop_spec bitmap maxOffest fuel (offest + 1)
                (count + 1) more.1 (by omega) with
              ⟨missed, allClear⟩ |
                ⟨index, found, lower, upper, window, isSet, before⟩
            · refine Or.inl ⟨missed, fun tested low high near => ?_⟩
              exact stay tested low fun later =>
                allClear tested later high (by omega)
            · refine Or.inr ⟨index, found, by omega, upper, by omega, isSet, ?_⟩
              intro tested low high
              exact stay tested low fun later => before tested later high
          · simp only [Bool.false_eq_true, if_false, if_neg more]
            refine Or.inl ⟨trivial, fun tested low high near => ?_⟩
            exact stay tested low fun later => by omega

/-- The positions `__base_idx` takes: `-1` or a clear bit of the bitmap. -/
def IsBase (bitmap : Bitmap) (baseIdx : Int) : Prop :=
  baseIdx = -1 ∨
    ∃ index : Nat, baseIdx = index ∧ index < bitmap.bitCount ∧
      bitmap.bits index = false

def IsApplied (bitmap : Bitmap) (nbits : Nat) (result : Int) : Prop :=
  result = -1 ∨
    ∃ index : Nat, result = index ∧ bitmap.ClearRun index nbits

private theorem findNextZeroBit_isBase {bitmap : Bitmap} {offest : Nat}
    {result : Int} (returned : findNextZeroBit bitmap offest = .ok result) :
    IsBase bitmap result := by
  simp only [findNextZeroBit, Call.bind_eq_ok_iff, Call.assert_eq_ok_iff,
    Call.pure_eq_ok, Except.ok.injEq, exists_const] at returned
  obtain ⟨-, inside, rfl⟩ := returned
  rcases findNextZeroBitLoop_spec bitmap (bitmap.bitCount - offest) offest
      inside (by omega) with ⟨missed, _⟩ | ⟨index, found, _, upper, clear, _⟩
  · exact Or.inl missed
  · exact Or.inr ⟨index, found, upper, clear⟩

private theorem isApplied_of_window {bitmap : Bitmap} {nbits : Nat}
    {baseIdx : Int} (isBase : IsBase bitmap baseIdx)
    (room : ∀ index : Nat, baseIdx = index → index + nbits ≤ bitmap.bitCount)
    (window : ∀ index tested : Nat, baseIdx = index → index + 1 ≤ tested →
      tested < index + nbits → bitmap.bits tested = false) :
    IsApplied bitmap nbits baseIdx := by
  rcases isBase with restart | ⟨index, equal, inside, clear⟩
  · exact Or.inl restart
  · refine Or.inr ⟨index, equal, room index equal, ?_⟩
    intro tested lower upper
    rcases Nat.eq_or_lt_of_le lower with same | greater
    · rw [← same]
      exact clear
    · exact window index tested equal greater upper

private theorem bitmapApplyLoop_isApplied {bitmap : Bitmap} {nbits : Nat}
    (positive : 1 ≤ nbits) (bound : nbits < 4294967296) :
    ∀ (fuel : Nat) (baseIdx topIdx result : Int),
      IsBase bitmap baseIdx →
      bitmapApplyLoop bitmap nbits fuel baseIdx topIdx = .ok result →
      IsApplied bitmap nbits result
  | 0, _, _, _, _, returned => by
      simp [bitmapApplyLoop] at returned
  | fuel + 1, baseIdx, topIdx, result, isBase, returned => by
      have countBound := bitmap.bitCount_lt
      rw [bitmapApplyLoop] at returned
      by_cases enter : toU64 baseIdx < bitmap.bitCount ∨
          toU64 topIdx < bitmap.bitCount
      · simp only [if_pos enter, Call.bind_eq_ok_iff] at returned
        obtain ⟨top, scanned, returned⟩ := returned
        simp only [findNextBit, Call.bind_eq_ok_iff, Call.assert_eq_ok_iff,
          Call.pure_eq_ok, Except.ok.injEq, exists_const] at scanned
        obtain ⟨-, inside, scanned⟩ := scanned
        have less : sub32 nbits 1 = nbits - 1 := sub32_of_le positive bound
        have scan := findNextBitLoop_spec bitmap (sub32 nbits 1)
          (bitmap.bitCount - toU32 (baseIdx + 1)) (toU32 (baseIdx + 1)) 0
          inside (by omega)
        rw [scanned, less] at scan
        -- a clear window after a base that is a bit index
        have offset : ∀ index : Nat, baseIdx = index →
            toU32 (baseIdx + 1) = index + 1 := by
          intro index equal
          rcases isBase with restart | ⟨index', equal', inside', _⟩
          · omega
          · unfold toU32
            omega
        rcases scan with ⟨missed, allClear⟩ |
            ⟨index, found, lower, upper, near, isSet, before⟩
        · rw [if_pos missed] at returned
          by_cases fits : toU64 (bitmap.bitCount - 1 - baseIdx) ≥ nbits
          · simp only [if_pos fits, Call.pure_eq_ok, Except.ok.injEq] at returned
            subst result
            have room : ∀ index : Nat, baseIdx = index →
                index + nbits ≤ bitmap.bitCount := by
              intro index equal
              rcases isBase with restart | ⟨index', equal', inside', _⟩
              · omega
              · unfold toU64 at fits
                omega
            apply isApplied_of_window isBase room
            intro index tested equal lower upper
            have start := offset index equal
            have enough := room index equal
            exact allClear tested (by omega) (by omega) (by omega)
          · simp only [if_neg fits, Call.pure_eq_ok, Except.ok.injEq] at returned
            exact Or.inl returned.symm
        · rw [if_neg (by omega)] at returned
          by_cases wide : top - baseIdx ≥ nbits
          · simp only [if_pos wide, Call.pure_eq_ok, Except.ok.injEq] at returned
            subst result
            -- the window has at most `nbits - 1` bits, so this is `nbits = 1`
            apply isApplied_of_window isBase
            · intro base equal
              have start := offset base equal
              omega
            · intro base tested equal lower upper
              have start := offset base equal
              omega
          · simp only [if_neg wide, Call.bind_eq_ok_iff] at returned
            obtain ⟨base, searched, returned⟩ := returned
            exact bitmapApplyLoop_isApplied positive bound fuel base top result
              (findNextZeroBit_isBase searched) returned
      · simp only [if_neg enter, Call.pure_eq_ok, Except.ok.injEq] at returned
        exact Or.inl returned.symm

/-- A returning `bitmap_apply` gives `-1` or the start of a clear run. -/
theorem bitmapApply_isApplied {bitmap : Bitmap} {nbits : Nat} {result : Int}
    (positive : 1 ≤ nbits) (bound : nbits < 4294967296)
    (returned : bitmapApply bitmap nbits = .ok result) :
    IsApplied bitmap nbits result := by
  simp only [bitmapApply, Call.bind_eq_ok_iff, Call.assert_eq_ok_iff,
    exists_const] at returned
  obtain ⟨-, base, searched, returned⟩ := returned
  by_cases none : base = -1
  · simp only [if_pos none, Call.pure_eq_ok, Except.ok.injEq] at returned
    exact Or.inl returned.symm
  · rw [if_neg none] at returned
    exact bitmapApplyLoop_isApplied positive bound _ base 0 result
      (findNextZeroBit_isBase searched) returned

end Simos
