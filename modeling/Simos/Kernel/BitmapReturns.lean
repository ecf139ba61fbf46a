import Simos.Kernel.BitmapFirstFit

/-!
# When `bitmap_apply` comes back

With a run to find, the walk over the bitmap stops at the first one.  Without
one it visits every clear stretch, and the two bits at the end of the bitmap
decide how it goes on: behind a clear stretch that ends one bit before the last
the next search starts outside the bitmap, and behind two set bits the search
yields `-1`, with which the walk starts again from the front.

* `bitmapApplyLoop_round_of_noRun` and `bitmapApplyLoop_restart` say what one
  round does without a run, from a bit of the bitmap and from `-1`;
* `bitmapApply_comesBack_iff` gives the bitmaps on which a call returns.
-/

namespace Simos

namespace Bitmap

/-- The bitmaps on which a search for `nbits` bits has an end. -/
def Settles (bitmap : Bitmap) (nbits : Nat) : Prop :=
  (∀ index, index < bitmap.bitCount → bitmap.bits index = true) ∨
    (∃ start, bitmap.ClearRun start nbits ∧ start + 1 < bitmap.bitCount) ∨
    (bitmap.bits (bitmap.bitCount - 1) = false ∧
      bitmap.bits (bitmap.bitCount - 2) = false) ∨
    (bitmap.bits (bitmap.bitCount - 1) = true ∧
      bitmap.bits (bitmap.bitCount - 2) = true ∧
      ∀ index, index < nbits - 1 → bitmap.bits index = false)

variable {bitmap : Bitmap}

private theorem two_le_bitCount (positive : 0 < bitmap.bitCount) :
    2 ≤ bitmap.bitCount := by
  unfold bitCount u32 at *
  omega

end Bitmap

section Walk

variable {bitmap : Bitmap} {nbits : Nat}

private theorem findNextZeroBit_outside (pointer : bitmap.bitmap ≠ 0)
    {offest : Nat} (outside : bitmap.bitCount ≤ offest) :
    findNextZeroBit bitmap offest = .error .assertFailed := by
  rw [findNextZeroBit, Call.assert_of pointer, Call.ok_bind,
    Call.assert_of_not (by omega), Call.error_bind]

theorem findNextZeroBit_inside (pointer : bitmap.bitmap ≠ 0) {offest : Nat}
    (inside : offest < bitmap.bitCount) :
    (findNextZeroBit bitmap offest = .ok (-1) ∧
        ∀ tested, offest ≤ tested → tested < bitmap.bitCount →
          bitmap.bits tested = true) ∨
      ∃ index : Nat, findNextZeroBit bitmap offest = .ok (index : Int) ∧
        offest ≤ index ∧ index < bitmap.bitCount ∧
        bitmap.bits index = false ∧
        ∀ tested, offest ≤ tested → tested < index →
          bitmap.bits tested = true := by
  rw [findNextZeroBit, Call.assert_of pointer, Call.assert_of inside]
  rcases findNextZeroBitLoop_spec bitmap (bitmap.bitCount - offest) offest
      inside (by omega) with ⟨missed, allSet⟩ | ⟨index, found, rest⟩
  · left
    exact ⟨by rw [missed]; rfl, allSet⟩
  · right
    exact ⟨index, by rw [found]; rfl, rest⟩

theorem findNextZeroBit_of_clear (pointer : bitmap.bitmap ≠ 0)
    {offest clear : Nat} (lower : offest ≤ clear)
    (upper : clear < bitmap.bitCount) (isClear : bitmap.bits clear = false) :
    ∃ index : Nat, findNextZeroBit bitmap offest = .ok (index : Int) ∧
      offest ≤ index ∧ index ≤ clear ∧ bitmap.bits index = false ∧
      ∀ tested, offest ≤ tested → tested < index →
        bitmap.bits tested = true := by
  rcases findNextZeroBit_inside pointer (Nat.lt_of_le_of_lt lower upper) with
    ⟨-, allSet⟩ | ⟨index, found, low, -, indexClear, before⟩
  · have isSet := allSet clear lower upper
    rw [isClear] at isSet
    exact Bool.noConfusion isSet
  · refine ⟨index, found, low, ?_, indexClear, before⟩
    by_contra passed
    have isSet := before clear lower (by omega)
    rw [isClear] at isSet
    exact Bool.noConfusion isSet

/-- Behind clear bits the first set bit lies before the last bit, when the last
but one is set. -/
theorem before_last_of_set {base top : Nat}
    (secondLast : bitmap.bits (bitmap.bitCount - 2) = true)
    (two : 2 ≤ bitmap.bitCount) (lower : base ≤ bitmap.bitCount - 2)
    (between : ∀ tested, base ≤ tested → tested < top →
      bitmap.bits tested = false) : top + 1 < bitmap.bitCount := by
  by_contra behind
  have clear := between (bitmap.bitCount - 2) lower (by omega)
  rw [secondLast] at clear
  exact Bool.noConfusion clear

/-- A clear bit lies before the last two bits, when these are set. -/
theorem before_last_two_of_clear {base : Nat}
    (last : bitmap.bits (bitmap.bitCount - 1) = true)
    (secondLast : bitmap.bits (bitmap.bitCount - 2) = true)
    (inside : base < bitmap.bitCount) (clear : bitmap.bits base = false) :
    base + 2 < bitmap.bitCount := by
  have notLast : base ≠ bitmap.bitCount - 1 := by
    intro same
    rw [same, last] at clear
    exact Bool.noConfusion clear
  have notSecondLast : base ≠ bitmap.bitCount - 2 := by
    intro same
    rw [same, secondLast] at clear
    exact Bool.noConfusion clear
  omega

variable (pointer : bitmap.bitmap ≠ 0) (several : 2 ≤ nbits)
  (bound : nbits < 4294967296)

include pointer several bound

/-- One round from a clear bit, when there is no run: the bit is the last one,
or only clear bits follow, or the walk goes on behind the next set bit. -/
theorem bitmapApplyLoop_round_of_noRun
    (noRun : ∀ start, ¬ bitmap.ClearRun start nbits)
    {base : Nat} (inside : base < bitmap.bitCount)
    (clear : bitmap.bits base = false) (fuel : Nat) (topIdx : Int) :
    (base + 1 = bitmap.bitCount ∧
        bitmapApplyLoop bitmap nbits (fuel + 1) base topIdx =
          .error .assertFailed) ∨
      (base + 1 < bitmap.bitCount ∧
        (∀ tested, base ≤ tested → tested < bitmap.bitCount →
          bitmap.bits tested = false) ∧
        bitmapApplyLoop bitmap nbits (fuel + 1) base topIdx = .ok (-1)) ∨
      ∃ top, base < top ∧ top < bitmap.bitCount ∧ bitmap.bits top = true ∧
        (∀ tested, base ≤ tested → tested < top →
          bitmap.bits tested = false) ∧
        bitmapApplyLoop bitmap nbits (fuel + 1) base topIdx =
          (findNextZeroBit bitmap (top + 1) >>= fun baseIdx =>
            bitmapApplyLoop bitmap nbits fuel baseIdx top) := by
  rcases bitmapApplyLoop_round pointer (by omega) bound inside clear fuel
      topIdx with
    atEnd | ⟨next, window, result⟩ |
      ⟨top, lower, upper, -, isSet, between, result⟩
  · exact Or.inl atEnd
  · -- without a run the window reaches the end of the bitmap
    have short : bitmap.bitCount < base + nbits := by
      by_contra wide
      exact noRun base ⟨by omega, fun tested low high =>
        window tested low (by omega) high⟩
    rw [if_neg (by omega)] at result
    exact Or.inr (Or.inl ⟨next, fun tested low high =>
      window tested low high (by omega), result⟩)
  · rw [if_neg (by omega)] at result
    exact Or.inr (Or.inr ⟨top, lower, upper, isSet, between, result⟩)

/-- One round from `-1` behind a set bit of the bitmap. -/
theorem bitmapApplyLoop_restart (fuel : Nat) {topIdx : Nat}
    (topInside : topIdx < bitmap.bitCount) :
    ((∀ tested, tested < bitmap.bitCount → tested < nbits - 1 →
          bitmap.bits tested = false) ∧
        bitmapApplyLoop bitmap nbits (fuel + 1) (-1) topIdx = .ok (-1)) ∨
      ∃ top, top < bitmap.bitCount ∧ top < nbits - 1 ∧
        bitmap.bits top = true ∧
        (∀ tested, tested < top → bitmap.bits tested = false) ∧
        bitmapApplyLoop bitmap nbits (fuel + 1) (-1) topIdx =
          (findNextZeroBit bitmap (top + 1) >>= fun baseIdx =>
            bitmapApplyLoop bitmap nbits fuel baseIdx top) := by
  have countBound := bitmap.bitCount_lt
  have enter : toU64 (-1) < bitmap.bitCount ∨
      toU64 topIdx < bitmap.bitCount := by
    right
    unfold toU64
    omega
  have offset : toU32 ((-1 : Int) + 1) = 0 := by
    decide
  have less : sub32 nbits 1 = nbits - 1 := sub32_of_le (by omega) bound
  have next : 0 < bitmap.bitCount := by
    omega
  rw [bitmapApplyLoop, if_pos enter, findNextBit, Call.assert_of pointer,
    offset, less, Call.assert_of next]
  simp only [Call.ok_bind, Call.pure_eq_ok]
  rcases findNextBitLoop_spec bitmap (nbits - 1) (bitmap.bitCount - 0) 0 0
      next (by omega) with
    ⟨missed, allClear⟩ | ⟨top, found, lower, upper, near, isSet, before⟩
  · left
    rw [if_pos missed]
    refine ⟨fun tested high near => ?_, by split <;> rfl⟩
    exact allClear tested (Nat.zero_le tested) high (by omega)
  · right
    have onwards : toU32 ((top : Int) + 1) = top + 1 := by
      unfold toU32
      omega
    rw [found, if_neg (by omega), if_neg (by omega), onwards]
    exact ⟨top, upper, by omega, isSet,
      fun tested => before tested (Nat.zero_le tested), rfl⟩

/-- Two clear bits at the end: the walk stops in the stretch they belong to. -/
theorem bitmapApplyLoop_openTail
    (noRun : ∀ start, ¬ bitmap.ClearRun start nbits)
    (last : bitmap.bits (bitmap.bitCount - 1) = false)
    (secondLast : bitmap.bits (bitmap.bitCount - 2) = false) :
    ∀ (fuel base : Nat) (topIdx : Int),
      base < bitmap.bitCount → bitmap.bits base = false →
      (base = 0 ∨ bitmap.bits (base - 1) = true) →
      2 ≤ bitmap.bitCount → bitmap.bitCount ≤ fuel + base →
      bitmapApplyLoop bitmap nbits fuel base topIdx = .ok (-1)
  | 0, base, _, inside, _, _, _, enough => by
      omega
  | fuel + 1, base, topIdx, inside, clear, starts, two, enough => by
      rcases bitmapApplyLoop_round_of_noRun pointer several bound noRun inside
          clear fuel topIdx with
        ⟨atEnd, -⟩ | ⟨-, -, result⟩ | ⟨top, later, upper, isSet, -, result⟩
      · -- a stretch does not start at the last bit
        have before : base - 1 = bitmap.bitCount - 2 := by
          omega
        rw [before, secondLast] at starts
        rcases starts with zero | isSet
        · omega
        · exact Bool.noConfusion isSet
      · exact result
      · have beforeLast : top ≠ bitmap.bitCount - 1 := by
          intro same
          rw [same, last] at isSet
          exact Bool.noConfusion isSet
        obtain ⟨index, searched, low, high, indexClear, between⟩ :=
          @findNextZeroBit_of_clear bitmap pointer (top + 1) _ (by omega)
            (by omega) last
        rw [result, searched, Call.ok_bind]
        apply bitmapApplyLoop_openTail noRun last secondLast fuel index top
          (by omega) indexClear _ two (by omega)
        right
        rcases Nat.eq_or_lt_of_le low with same | passed
        · rw [← same]
          exact isSet
        · exact between (index - 1) (by omega) (by omega)

/-- One of the last two bits clear: the walk leaves the bitmap. -/
theorem bitmapApplyLoop_leaves
    (noRun : ∀ start, ¬ bitmap.ClearRun start nbits)
    (differ : bitmap.bits (bitmap.bitCount - 1) ≠
      bitmap.bits (bitmap.bitCount - 2)) :
    ∀ (fuel base : Nat) (topIdx : Int),
      base < bitmap.bitCount → bitmap.bits base = false →
      bitmap.bitCount ≤ fuel + base →
      bitmapApplyLoop bitmap nbits fuel base topIdx = .error .assertFailed
  | 0, base, _, inside, _, enough => by
      omega
  | fuel + 1, base, topIdx, inside, clear, enough => by
      rcases bitmapApplyLoop_round_of_noRun pointer several bound noRun inside
          clear fuel topIdx with
        ⟨-, result⟩ | ⟨next, allClear, -⟩ |
          ⟨top, later, upper, isSet, -, result⟩
      · exact result
      · have last := allClear (bitmap.bitCount - 1) (by omega) (by omega)
        have secondLast := allClear (bitmap.bitCount - 2) (by omega) (by omega)
        exact absurd (last.trans secondLast.symm) differ
      · by_cases atEnd : top + 1 = bitmap.bitCount
        · rw [result, findNextZeroBit_outside pointer (by omega),
            Call.error_bind]
        · -- the clear one of the last two bits is still ahead
          have ahead : ∃ clear, top + 1 ≤ clear ∧ clear < bitmap.bitCount ∧
              bitmap.bits clear = false := by
            cases last : bitmap.bits (bitmap.bitCount - 1) with
            | false =>
                exact ⟨bitmap.bitCount - 1, by omega, by omega, last⟩
            | true =>
                have secondLast :
                    bitmap.bits (bitmap.bitCount - 2) = false := by
                  rw [last] at differ
                  simpa using differ.symm
                have passed : top ≠ bitmap.bitCount - 2 := by
                  intro same
                  rw [same, secondLast] at isSet
                  exact Bool.noConfusion isSet
                exact ⟨bitmap.bitCount - 2, by omega, by omega, secondLast⟩
          obtain ⟨ahead, aheadLow, aheadHigh, aheadClear⟩ := ahead
          obtain ⟨index, searched, low, high, indexClear, -⟩ :=
            findNextZeroBit_of_clear pointer aheadLow aheadHigh aheadClear
          rw [result, searched, Call.ok_bind]
          exact bitmapApplyLoop_leaves noRun differ fuel index top
            (by omega) indexClear (by omega)

section SetTail

variable (last : bitmap.bits (bitmap.bitCount - 1) = true)
  (secondLast : bitmap.bits (bitmap.bitCount - 2) = true)

include last secondLast

/-- Two set bits at the end: a round from a clear bit goes on inside the
bitmap. -/
theorem bitmapApplyLoop_setTail
    (noRun : ∀ start, ¬ bitmap.ClearRun start nbits)
    {base : Nat} (inside : base < bitmap.bitCount)
    (clear : bitmap.bits base = false) (fuel : Nat) (topIdx : Int) :
    ∃ top, base < top ∧ top + 1 < bitmap.bitCount ∧
      bitmapApplyLoop bitmap nbits (fuel + 1) base topIdx =
        (findNextZeroBit bitmap (top + 1) >>= fun baseIdx =>
          bitmapApplyLoop bitmap nbits fuel baseIdx top) := by
  have early := before_last_two_of_clear last secondLast inside clear
  rcases bitmapApplyLoop_round_of_noRun pointer several bound noRun inside
      clear fuel topIdx with
    ⟨atEnd, -⟩ | ⟨-, allClear, -⟩ | ⟨top, later, upper, -, between, result⟩
  · omega
  · have lastClear := allClear (bitmap.bitCount - 1) (by omega) (by omega)
    rw [last] at lastClear
    exact Bool.noConfusion lastClear
  · exact ⟨top, later, before_last_of_set secondLast (by omega) (by omega)
      between, result⟩

/-- Two set bits at the end and a clear front: the walk comes to `-1` and
returns it. -/
theorem bitmapApplyLoop_clearFront
    (noRun : ∀ start, ¬ bitmap.ClearRun start nbits)
    (front : ∀ index, index < nbits - 1 → bitmap.bits index = false) :
    ∀ (fuel base : Nat) (topIdx : Int),
      base < bitmap.bitCount → bitmap.bits base = false →
      bitmap.bitCount < fuel + base →
      bitmapApplyLoop bitmap nbits fuel base topIdx = .ok (-1)
  | 0, base, _, inside, _, enough => by
      omega
  | fuel + 1, base, topIdx, inside, clear, enough => by
      obtain ⟨top, later, upper, result⟩ := bitmapApplyLoop_setTail pointer
        several bound last secondLast noRun inside clear fuel topIdx
      rw [result]
      rcases findNextZeroBit_inside pointer upper with
        ⟨searched, -⟩ | ⟨index, searched, low, high, indexClear, -⟩
      · rw [searched, Call.ok_bind]
        obtain ⟨fuel, rfl⟩ : ∃ less, fuel = less + 1 :=
          ⟨fuel - 1, by omega⟩
        have topInside : top < bitmap.bitCount := by omega
        rcases bitmapApplyLoop_restart pointer several bound fuel
            topInside with
          ⟨-, returned⟩ | ⟨next, -, near, isSet, -, -⟩
        · exact returned
        · rw [front next near] at isSet
          exact Bool.noConfusion isSet
      · rw [searched, Call.ok_bind]
        exact bitmapApplyLoop_clearFront noRun front fuel index top high
          indexClear (by omega)

/-- Two set bits at the end and a set bit in the front: the walk starts again
and again. -/
theorem bitmapApplyLoop_endless
    (noRun : ∀ start, ¬ bitmap.ClearRun start nbits)
    {front : Nat} (near : front < nbits - 1)
    (frontInside : front < bitmap.bitCount)
    (frontSet : bitmap.bits front = true) (two : 2 ≤ bitmap.bitCount) :
    ∀ (fuel : Nat) (baseIdx : Int) (topIdx : Nat),
      IsBase bitmap baseIdx → topIdx < bitmap.bitCount →
      bitmapApplyLoop bitmap nbits fuel baseIdx topIdx = .error .diverges
  | 0, _, _, _, _ => rfl
  | fuel + 1, baseIdx, topIdx, isBase, topInside => by
      have step : ∃ top, top + 1 < bitmap.bitCount ∧
          bitmapApplyLoop bitmap nbits (fuel + 1) baseIdx topIdx =
            (findNextZeroBit bitmap (top + 1) >>= fun baseIdx =>
              bitmapApplyLoop bitmap nbits fuel baseIdx top) := by
        rcases isBase with rfl | ⟨base, rfl, inside, clear⟩
        · rcases bitmapApplyLoop_restart pointer several bound fuel topInside
            with ⟨allClear, -⟩ | ⟨top, -, -, -, before, result⟩
          · have frontClear := allClear front frontInside near
            rw [frontSet] at frontClear
            exact Bool.noConfusion frontClear
          · exact ⟨top, before_last_of_set secondLast two (Nat.zero_le _)
              fun tested _ => before tested, result⟩
        · obtain ⟨top, -, upper, result⟩ := bitmapApplyLoop_setTail pointer
            several bound last secondLast noRun inside clear fuel topIdx
          exact ⟨top, upper, result⟩
      obtain ⟨top, upper, result⟩ := step
      rw [result]
      rcases findNextZeroBit_inside pointer upper with
        ⟨searched, -⟩ | ⟨index, searched, -, high, indexClear, -⟩
      · rw [searched, Call.ok_bind]
        exact bitmapApplyLoop_endless noRun near frontInside frontSet two fuel
          (-1) top (Or.inl rfl) (by omega)
      · rw [searched, Call.ok_bind]
        exact bitmapApplyLoop_endless noRun near frontInside frontSet two fuel
          index top (Or.inr ⟨index, rfl, high, indexClear⟩) (by omega)

end SetTail

end Walk

section Call

variable {bitmap : Bitmap} {nbits : Nat}

/-- With a run to find, a call returns unless the run is the last bit alone. -/
theorem bitmapApply_returns_of_run (pointer : bitmap.bitmap ≠ 0)
    (positive : 1 ≤ nbits) (bound : nbits < 4294967296)
    (hasRun : ∃ start, bitmap.ClearRun start nbits) :
    (∃ result, bitmapApply bitmap nbits = .ok result) ↔
      ∃ start, bitmap.ClearRun start nbits ∧ start + 1 < bitmap.bitCount := by
  obtain ⟨start, run⟩ := hasRun
  obtain ⟨first, isFirst, -⟩ := run.exists_first
  have room := isFirst.run.1
  rw [bitmapApply_of_first pointer positive bound isFirst, appliedTo]
  constructor
  · rintro ⟨result, returned⟩
    refine ⟨first, isFirst.run, ?_⟩
    by_contra atEnd
    rw [if_neg (by omega), if_pos (by omega)] at returned
    cases returned
  · rintro ⟨other, otherRun, inside⟩
    have before := isFirst.le otherRun
    by_cases fits : first + nbits < bitmap.bitCount
    · exact ⟨first, if_pos fits⟩
    · exact ⟨-1, by rw [if_neg fits, if_neg (by omega)]⟩

theorem bitmapApply_empty (pointer : bitmap.bitmap ≠ 0)
    (empty : bitmap.bitCount = 0) :
    bitmapApply bitmap nbits = .error .assertFailed := by
  rw [bitmapApply, Call.assert_of pointer, Call.ok_bind,
    findNextZeroBit_outside pointer (by omega), Call.error_bind]

theorem bitmapApply_full (pointer : bitmap.bitmap ≠ 0)
    (nonempty : 0 < bitmap.bitCount)
    (full : ∀ index, index < bitmap.bitCount → bitmap.bits index = true) :
    bitmapApply bitmap nbits = .ok (-1) := by
  rw [bitmapApply, Call.assert_of pointer, Call.ok_bind]
  rcases findNextZeroBit_inside pointer nonempty with
    ⟨searched, -⟩ | ⟨index, -, -, inside, clear, -⟩
  · rw [searched]
    rfl
  · rw [full index inside] at clear
    exact Bool.noConfusion clear

theorem bitmapApply_eq_loop (pointer : bitmap.bitmap ≠ 0) {clear : Nat}
    (inside : clear < bitmap.bitCount) (isClear : bitmap.bits clear = false) :
    ∃ base : Nat, base < bitmap.bitCount ∧ bitmap.bits base = false ∧
      (base = 0 ∨ bitmap.bits (base - 1) = true) ∧
      bitmapApply bitmap nbits =
        bitmapApplyLoop bitmap nbits (bitmap.bitCount + 2) base 0 := by
  obtain ⟨base, searched, -, upper, baseClear, before⟩ :=
    findNextZeroBit_of_clear pointer (Nat.zero_le clear) inside isClear
  refine ⟨base, by omega, baseClear, ?_, ?_⟩
  · rcases Nat.eq_zero_or_pos base with zero | positive
    · exact Or.inl zero
    · exact Or.inr (before (base - 1) (Nat.zero_le _) (by omega))
  · rw [bitmapApply, Call.assert_of pointer, Call.ok_bind, searched,
      Call.ok_bind, if_neg (by omega)]

/-- Without a run to find, the two bits at the end and the front decide. -/
theorem bitmapApply_returns_of_noRun (pointer : bitmap.bitmap ≠ 0)
    (several : 2 ≤ nbits) (bound : nbits < 4294967296)
    (two : 2 ≤ bitmap.bitCount)
    (noRun : ∀ start, ¬ bitmap.ClearRun start nbits)
    {clear : Nat} (inside : clear < bitmap.bitCount)
    (isClear : bitmap.bits clear = false) :
    (∃ result, bitmapApply bitmap nbits = .ok result) ↔
      (bitmap.bits (bitmap.bitCount - 1) = false ∧
        bitmap.bits (bitmap.bitCount - 2) = false) ∨
      (bitmap.bits (bitmap.bitCount - 1) = true ∧
        bitmap.bits (bitmap.bitCount - 2) = true ∧
        ∀ index, index < nbits - 1 → bitmap.bits index = false) := by
  obtain ⟨base, baseInside, baseClear, starts, call⟩ :=
    @bitmapApply_eq_loop bitmap nbits pointer _ inside isClear
  rw [call]
  by_cases differ : bitmap.bits (bitmap.bitCount - 1) =
      bitmap.bits (bitmap.bitCount - 2)
  · cases last : bitmap.bits (bitmap.bitCount - 1) with
    | false =>
        rw [last] at differ
        rw [bitmapApplyLoop_openTail pointer several bound noRun last
          differ.symm _ base 0 baseInside baseClear starts two (by omega)]
        exact ⟨fun _ => Or.inl ⟨rfl, differ.symm⟩, fun _ => ⟨-1, rfl⟩⟩
    | true =>
        rw [last] at differ
        by_cases front : ∀ index, index < nbits - 1 → bitmap.bits index = false
        · rw [bitmapApplyLoop_clearFront pointer several bound last
            differ.symm noRun front _ base 0 baseInside baseClear (by omega)]
          exact ⟨fun _ => Or.inr ⟨rfl, differ.symm, front⟩, fun _ => ⟨-1, rfl⟩⟩
        · constructor
          · rintro ⟨result, returned⟩
            -- a set bit in the front, at the latest the last bit
            have setFront : ∃ set, set < nbits - 1 ∧
                set < bitmap.bitCount ∧ bitmap.bits set = true := by
              push Not at front
              obtain ⟨set, near, isSet⟩ := front
              by_cases setInside : set < bitmap.bitCount
              · exact ⟨set, near, setInside, by simpa using isSet⟩
              · exact ⟨bitmap.bitCount - 1, by omega, by omega, last⟩
            obtain ⟨set, near, setInside, isSet⟩ := setFront
            have endless := bitmapApplyLoop_endless pointer several bound last
              differ.symm noRun near setInside isSet two
              (bitmap.bitCount + 2) base 0
              (Or.inr ⟨base, rfl, baseInside, baseClear⟩) (by omega)
            cases endless.symm.trans returned
          · rintro (⟨clearLast, -⟩ | ⟨-, -, clearFront⟩)
            · cases clearLast
            · exact absurd clearFront front
  · rw [bitmapApplyLoop_leaves pointer several bound noRun differ _ base 0
      baseInside baseClear (by omega)]
    constructor
    · rintro ⟨result, returned⟩
      cases returned
    · rintro (⟨last, secondLast⟩ | ⟨last, secondLast, -⟩)
      · exact absurd (last.trans secondLast.symm) differ
      · exact absurd (last.trans secondLast.symm) differ

theorem bitmapApply_returns_iff (pointer : bitmap.bitmap ≠ 0)
    (positive : 1 ≤ nbits) (bound : nbits < 4294967296) :
    (∃ result, bitmapApply bitmap nbits = .ok result) ↔
      0 < bitmap.bitCount ∧ bitmap.Settles nbits := by
  rcases Nat.eq_zero_or_pos bitmap.bitCount with empty | nonempty
  · rw [bitmapApply_empty pointer empty]
    constructor
    · rintro ⟨result, returned⟩
      cases returned
    · rintro ⟨nonempty, -⟩
      omega
  have two := Bitmap.two_le_bitCount nonempty
  by_cases full : ∀ index, index < bitmap.bitCount → bitmap.bits index = true
  · rw [bitmapApply_full pointer nonempty full]
    exact ⟨fun _ => ⟨nonempty, Or.inl full⟩, fun _ => ⟨-1, rfl⟩⟩
  have someClear : ∃ clear, clear < bitmap.bitCount ∧
      bitmap.bits clear = false := by
    push Not at full
    obtain ⟨clear, inside, isClear⟩ := full
    exact ⟨clear, inside, by simpa using isClear⟩
  obtain ⟨clear, inside, isClear⟩ := someClear
  by_cases hasRun : ∃ start, bitmap.ClearRun start nbits
  · rw [bitmapApply_returns_of_run pointer positive bound hasRun]
    obtain ⟨start, run⟩ := hasRun
    have room := run.1
    have startClear := run.2 start (Nat.le_refl start) (by omega)
    constructor
    · intro early
      exact ⟨nonempty, Or.inr (Or.inl early)⟩
    · rintro ⟨-, allSet | early | ⟨-, secondLast⟩ | ⟨last, -, -⟩⟩
      · exact absurd allSet full
      · exact early
      · by_cases atEnd : start + 1 = bitmap.bitCount
        · -- the run is one bit, so the bit before is a run, too
          refine ⟨bitmap.bitCount - 2, ⟨by omega, ?_⟩, by omega⟩
          intro tested lower upper
          have same : tested = bitmap.bitCount - 2 := by
            omega
          rw [same]
          exact secondLast
        · exact ⟨start, run, by omega⟩
      · have notLast : start ≠ bitmap.bitCount - 1 := by
          intro same
          rw [same, last] at startClear
          exact Bool.noConfusion startClear
        exact ⟨start, run, by omega⟩
  · have noRun : ∀ start, ¬ bitmap.ClearRun start nbits :=
      fun start run => hasRun ⟨start, run⟩
    have several : 2 ≤ nbits := by
      by_contra few
      have single : nbits = 1 := by
        omega
      refine noRun clear ⟨by omega, fun tested lower upper => ?_⟩
      have same : tested = clear := by
        omega
      rw [same]
      exact isClear
    rw [bitmapApply_returns_of_noRun pointer several bound two noRun inside
      isClear]
    constructor
    · intro ends
      exact ⟨nonempty, Or.inr (Or.inr ends)⟩
    · rintro ⟨-, allSet | ⟨start, run, -⟩ | ends⟩
      · exact absurd allSet full
      · exact absurd run (noRun start)
      · exact ends

end Call

/-- A call comes back, and with `-1` when there is no run in the memory of the
bitmap, exactly on the bitmaps of `Settles`. -/
theorem bitmapApply_comesBack_iff {bitmap : Bitmap} {nbits : Nat}
    (pointer : bitmap.bitmap ≠ 0) (positive : 1 ≤ nbits)
    (bound : nbits < 4294967296) :
    (∃ result, bitmapApply bitmap nbits = .ok result ∧
        ((∀ start, ¬ (start + nbits ≤ 8 * bitmap.bitmapBytesLen ∧
            ∀ tested, start ≤ tested → tested < start + nbits →
              bitmap.bits tested = false)) → result = -1)) ↔
      0 < bitmap.bitCount ∧ bitmap.Settles nbits := by
  rw [← bitmapApply_returns_iff pointer positive bound]
  constructor
  · rintro ⟨result, returned, -⟩
    exact ⟨result, returned⟩
  · rintro ⟨result, returned⟩
    refine ⟨result, returned, fun noRun => ?_⟩
    rcases bitmapApply_isApplied positive bound returned with
      missed | ⟨index, -, room, clear⟩
    · exact missed
    · have counted : bitmap.bitCount ≤ 8 * bitmap.bitmapBytesLen := by
        unfold Bitmap.bitCount u32
        omega
      exact absurd ⟨by omega, clear⟩ (noRun index)

/-- Three bits in a byte with the bits `11010000`. -/
theorem bitmapApply_comesBack_iff_byte :
    (∃ result, bitmapApply (byteBitmap 0xd0) 3 = .ok result ∧
        ((∀ start, ¬ (start + 3 ≤ 8 * (byteBitmap 0xd0).bitmapBytesLen ∧
            ∀ tested, start ≤ tested → tested < start + 3 →
              (byteBitmap 0xd0).bits tested = false)) → result = -1)) ↔
      0 < (byteBitmap 0xd0).bitCount ∧ (byteBitmap 0xd0).Settles 3 :=
  bitmapApply_comesBack_iff (by decide) (by decide) (by decide)

/-- A byte with one clear bit, the last, fails an `ASSERT`, and one whose only
clear bit is the second is searched for ever. -/
theorem bitmapApply_stays :
    bitmapApply (byteBitmap 0x7f) 1 = .error .assertFailed ∧
      bitmapApply (byteBitmap 0xfd) 2 = .error .diverges := by
  constructor <;> decide +kernel

end Simos
