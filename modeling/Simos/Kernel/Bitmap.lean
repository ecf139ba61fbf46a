import Simos.Kernel.Call
import Simos.Library.PackedBits

/-!
# Bitmaps (`lib/kernel/bitmap.c`)

A `struct bitmap` is its length in bytes, its pointer and the bytes found
from the pointer on.  The functions follow the source statement by statement;
`bits` is the reading of a bitmap as a family of booleans that the theorems
speak about.
-/

namespace Simos

open Simos.Library

/-- `struct bitmap`, with the memory its pointer leads to. -/
structure Bitmap where
  bitmapBytesLen : Nat
  bitmap : Nat
  bytes : Nat → BitVec 8

inductive BitStatus where
  | bitClear
  | bitSet
  deriving DecidableEq, Repr

namespace BitStatus

def toBool : BitStatus → Bool
  | .bitClear => false
  | .bitSet => true

@[simp]
theorem toBool_bitClear : bitClear.toBool = false :=
  rfl

@[simp]
theorem toBool_bitSet : bitSet.toBool = true :=
  rfl

end BitStatus

namespace Bitmap

/-- `bitmap_bytes_len * BIT_PER_LONG`, computed in `uint32_t`. -/
def bitCount (bitmap : Bitmap) : Nat :=
  u32 (bitmap.bitmapBytesLen * 8)

def bits (bitmap : Bitmap) (index : Nat) : Bool :=
  getBit bitmap.bytes index

end Bitmap

/-- `bitmap_zero` clears one byte even when the bitmap has none. -/
def bitmapZero (bitmap : Bitmap) : Call Bitmap := do
  Call.assert (bitmap.bitmap ≠ 0)
  if bitmap.bitmapBytesLen = 0 then
    return { bitmap with bytes := Function.update bitmap.bytes 0 0 }
  else
    return { bitmap with
      bytes := fun index =>
        if index < bitmap.bitmapBytesLen then 0 else bitmap.bytes index }

def testBit (bitmap : Bitmap) (bitIdx : Nat) : Bool :=
  bitmap.bytes (bitIdx / 8) &&& 1#8 <<< (bitIdx % 8) != 0#8

def bitmapTestBit (bitmap : Bitmap) (bitIdx : Nat) : Call Bool := do
  Call.assert (bitmap.bitmap ≠ 0)
  Call.assert (bitIdx < bitmap.bitCount)
  return bitmap.bytes (bitIdx / 8) &&& 1#8 <<< (bitIdx % 8) != 0#8

def bitmapSetBit (bitmap : Bitmap) (bitIdx : Nat) (bit : BitStatus) :
    Call Bitmap := do
  Call.assert (bitmap.bitmap ≠ 0)
  Call.assert (bitIdx < bitmap.bitCount)
  let old := bitmap.bytes (bitIdx / 8)
  if bit.toBool then
    return { bitmap with
      bytes := Function.update bitmap.bytes (bitIdx / 8)
        (old ||| 1#8 <<< (bitIdx % 8)) }
  else
    return { bitmap with
      bytes := Function.update bitmap.bytes (bitIdx / 8)
        (old &&& ~~~(1#8 <<< (bitIdx % 8))) }

/-- `bitmap_set_bits`: the loop counts from `bit_idx` up to
`bit_idx + nbits`, and its body sets bit `bit_idx` on every round. -/
def bitmapSetBits (bitmap : Bitmap) (bitIdx nbits : Nat) (bit : BitStatus) :
    Call Bitmap :=
  (List.range' bitIdx (u32 (bitIdx + nbits) - bitIdx)).foldlM
    (fun bitmap _ => bitmapSetBit bitmap bitIdx bit) bitmap

/-- The loop of `find_next_zero_bit`; an offset inside the bitmap does not
wrap when it is advanced. -/
def findNextZeroBitLoop (bitmap : Bitmap) : Nat → Nat → Int
  | 0, _ => -1
  | fuel + 1, offest =>
      if !testBit bitmap offest then
        offest
      else if offest + 1 < bitmap.bitCount then
        findNextZeroBitLoop bitmap fuel (offest + 1)
      else
        -1

def findNextZeroBit (bitmap : Bitmap) (offest : Nat) : Call Int := do
  Call.assert (bitmap.bitmap ≠ 0)
  Call.assert (offest < bitmap.bitCount)
  return findNextZeroBitLoop bitmap (bitmap.bitCount - offest) offest

/-- The loop of `find_next_bit`: the bit at `offest` is looked at before the
number of rounds is compared with `max_offest`. -/
def findNextBitLoop (bitmap : Bitmap) (maxOffest : Nat) :
    Nat → Nat → Nat → Int
  | 0, _, _ => -1
  | fuel + 1, offest, count =>
      if testBit bitmap offest then
        offest
      else if offest + 1 < bitmap.bitCount ∧ count + 1 < maxOffest then
        findNextBitLoop bitmap maxOffest fuel (offest + 1) (count + 1)
      else
        -1

def findNextBit (bitmap : Bitmap) (offest maxOffest : Nat) : Call Int := do
  Call.assert (bitmap.bitmap ≠ 0)
  Call.assert (offest < bitmap.bitCount)
  return findNextBitLoop bitmap maxOffest (bitmap.bitCount - offest) offest 0

/-- The loop of `bitmap_apply`.  Its next round depends on `__base_idx` only,
which lies between `-1` and the last bit, so a run of more rounds than there
are such values repeats itself and has no end. -/
def bitmapApplyLoop (bitmap : Bitmap) (nbits : Nat) :
    Nat → Int → Int → Call Int
  | 0, _, _ => .error .diverges
  | fuel + 1, baseIdx, topIdx => do
      let btmpBits := bitmap.bitCount
      if toU64 baseIdx < btmpBits ∨ toU64 topIdx < btmpBits then
        let topIdx ← findNextBit bitmap (toU32 (baseIdx + 1)) (sub32 nbits 1)
        if topIdx = -1 then
          if toU64 (btmpBits - 1 - baseIdx) ≥ nbits then
            return baseIdx
          else
            return -1
        else if topIdx - baseIdx ≥ nbits then
          return baseIdx
        else
          let baseIdx ← findNextZeroBit bitmap (toU32 (topIdx + 1))
          bitmapApplyLoop bitmap nbits fuel baseIdx topIdx
      else
        return -1

def bitmapApply (bitmap : Bitmap) (nbits : Nat) : Call Int := do
  Call.assert (bitmap.bitmap ≠ 0)
  let baseIdx ← findNextZeroBit bitmap 0
  if baseIdx = -1 then
    return -1
  else
    bitmapApplyLoop bitmap nbits (bitmap.bitCount + 2) baseIdx 0

/-! ## Reading and writing single bits -/

theorem testBit_eq_bits (bitmap : Bitmap) (bitIdx : Nat) :
    testBit bitmap bitIdx = bitmap.bits bitIdx := by
  have small : bitIdx % 8 < 8 := Nat.mod_lt bitIdx (by decide)
  have mask := and_mask_ne_zero_iff (bitmap.bytes (bitIdx / 8)) small
  unfold testBit Bitmap.bits getBit
  rw [Bool.eq_iff_iff, bne_iff_ne]
  exact mask

namespace Bitmap

def write (bitmap : Bitmap) (index : Nat) (value : Bool) : Bitmap :=
  { bitmap with bytes := setBit bitmap.bytes index value }

variable (bitmap : Bitmap) (index : Nat) (value : Bool)

@[simp]
theorem bitmapBytesLen_write :
    (bitmap.write index value).bitmapBytesLen = bitmap.bitmapBytesLen :=
  rfl

@[simp]
theorem bitmap_write : (bitmap.write index value).bitmap = bitmap.bitmap :=
  rfl

@[simp]
theorem bitCount_write :
    (bitmap.write index value).bitCount = bitmap.bitCount :=
  rfl

theorem bits_write (tested : Nat) :
    (bitmap.write index value).bits tested =
      if tested = index then value else bitmap.bits tested :=
  getBit_setBit bitmap.bytes (by decide) index tested value

@[simp]
theorem bits_write_self : (bitmap.write index value).bits index = value := by
  rw [bits_write, if_pos rfl]

theorem bits_write_of_ne {tested : Nat} (different : tested ≠ index) :
    (bitmap.write index value).bits tested = bitmap.bits tested := by
  rw [bits_write, if_neg different]

theorem bitCount_lt : bitmap.bitCount < 4294967296 :=
  u32_lt _

/-- The bitmap with `count` bits from `start` on replaced, one by one. -/
def writeRange (bitmap : Bitmap) (start count : Nat) (value : Bool) : Bitmap :=
  (List.range count).foldl
    (fun bitmap i => bitmap.write (start + i) value) bitmap

theorem writeRange_succ (start count : Nat) :
    bitmap.writeRange start (count + 1) value =
      (bitmap.writeRange start count value).write (start + count) value := by
  simp [writeRange, List.range_succ]

@[simp]
theorem bitmapBytesLen_writeRange (start count : Nat) :
    (bitmap.writeRange start count value).bitmapBytesLen =
      bitmap.bitmapBytesLen := by
  induction count with
  | zero => rfl
  | succ count inductionHypothesis =>
      rw [writeRange_succ, bitmapBytesLen_write, inductionHypothesis]

@[simp]
theorem bitCount_writeRange (start count : Nat) :
    (bitmap.writeRange start count value).bitCount = bitmap.bitCount := by
  unfold bitCount
  rw [bitmapBytesLen_writeRange]

@[simp]
theorem bitmap_writeRange (start count : Nat) :
    (bitmap.writeRange start count value).bitmap = bitmap.bitmap := by
  induction count with
  | zero => rfl
  | succ count inductionHypothesis =>
      rw [writeRange_succ, bitmap_write, inductionHypothesis]

theorem bits_writeRange (start count tested : Nat) :
    (bitmap.writeRange start count value).bits tested =
      if start ≤ tested ∧ tested < start + count then value
      else bitmap.bits tested := by
  induction count with
  | zero =>
      rw [if_neg (by omega)]
      rfl
  | succ count inductionHypothesis =>
      rw [writeRange_succ, bits_write, inductionHypothesis]
      by_cases last : tested = start + count
      · rw [if_pos last, if_pos (by omega)]
      · rw [if_neg last]
        by_cases inside : start ≤ tested ∧ tested < start + count
        · rw [if_pos inside, if_pos (by omega)]
        · rw [if_neg inside, if_neg (by omega)]

end Bitmap

theorem bitmapZero_returns {bitmap : Bitmap} (pointer : bitmap.bitmap ≠ 0) :
    ∃ bitmap', bitmapZero bitmap = .ok bitmap' := by
  unfold bitmapZero
  rw [Call.assert_of pointer, Call.ok_bind]
  split
  · exact ⟨_, rfl⟩
  · exact ⟨_, rfl⟩

theorem bitmapZero_ok {bitmap bitmap' : Bitmap}
    (cleared : bitmapZero bitmap = .ok bitmap') :
    bitmap.bitmap ≠ 0 ∧ bitmap'.bitmap = bitmap.bitmap ∧
      bitmap'.bitmapBytesLen = bitmap.bitmapBytesLen ∧
      ∀ index, index < 8 * bitmap.bitmapBytesLen →
        bitmap'.bits index = false := by
  simp only [bitmapZero, Call.bind_eq_ok_iff, Call.assert_eq_ok_iff,
    exists_const] at cleared
  obtain ⟨pointer, cleared⟩ := cleared
  by_cases empty : bitmap.bitmapBytesLen = 0
  · simp only [if_pos empty, Call.pure_eq_ok, Except.ok.injEq] at cleared
    subst bitmap'
    exact ⟨pointer, rfl, rfl, fun index bound => by omega⟩
  · simp only [if_neg empty, Call.pure_eq_ok, Except.ok.injEq] at cleared
    subst bitmap'
    refine ⟨pointer, rfl, rfl, fun index bound => ?_⟩
    have inside : index / 8 < bitmap.bitmapBytesLen := by omega
    simp [Bitmap.bits, getBit, inside]

/-- `bitmap_set_bit` writes one bit or fails an `ASSERT`. -/
theorem bitmapSetBit_eq_ok_iff {bitmap bitmap' : Bitmap} {bitIdx : Nat}
    {bit : BitStatus} :
    bitmapSetBit bitmap bitIdx bit = .ok bitmap' ↔
      bitmap.bitmap ≠ 0 ∧ bitIdx < bitmap.bitCount ∧
        bitmap' = bitmap.write bitIdx bit.toBool := by
  unfold bitmapSetBit Bitmap.write setBit writeMask
  cases bit with
  | bitSet => simp [@eq_comm Bitmap bitmap']
  | bitClear => simp [@eq_comm Bitmap bitmap']

/-- The rounds of `bitmap_set_bits` all write the same bit. -/
private theorem foldlM_bitmapSetBit {bitIdx : Nat} {bit : BitStatus} :
    ∀ (rounds : List Nat) (bitmap bitmap' : Bitmap),
      rounds ≠ [] →
      (rounds.foldlM (fun bitmap _ => bitmapSetBit bitmap bitIdx bit) bitmap =
          .ok bitmap' ↔
        bitmap.bitmap ≠ 0 ∧ bitIdx < bitmap.bitCount ∧
          bitmap' = bitmap.write bitIdx bit.toBool)
  | [], _, _, nonempty => by
      exact (nonempty rfl).elim
  | [round], bitmap, bitmap', _ => by
      rw [List.foldlM_cons]
      simp only [List.foldlM_nil, bind_pure]
      exact bitmapSetBit_eq_ok_iff
  | round :: round' :: rounds, bitmap, bitmap', _ => by
      rw [List.foldlM_cons, Call.bind_eq_ok_iff]
      have again : (bitmap.write bitIdx bit.toBool).write bitIdx bit.toBool =
          bitmap.write bitIdx bit.toBool := by
        unfold Bitmap.write setBit writeMask
        cases bit.toBool with
        | true => simp [BitVec.or_assoc]
        | false => simp [BitVec.and_assoc]
      constructor
      · rintro ⟨middle, first, later⟩
        obtain ⟨pointer, inside, rfl⟩ := bitmapSetBit_eq_ok_iff.mp first
        obtain ⟨_, _, result⟩ :=
          (foldlM_bitmapSetBit (round' :: rounds) _ bitmap' (by simp)).mp later
        exact ⟨pointer, inside, result.trans again⟩
      · rintro ⟨pointer, inside, result⟩
        refine ⟨bitmap.write bitIdx bit.toBool,
          bitmapSetBit_eq_ok_iff.mpr ⟨pointer, inside, rfl⟩, ?_⟩
        exact (foldlM_bitmapSetBit (round' :: rounds) _ bitmap' (by simp)).mpr
          ⟨pointer, inside, result.trans again.symm⟩

/-- `bitmap_set_bits` writes the first bit of its range only. -/
theorem bitmapSetBits_eq_ok_iff {bitmap bitmap' : Bitmap} {bitIdx nbits : Nat}
    {bit : BitStatus} (positive : 1 ≤ nbits)
    (bound : bitIdx + nbits < 4294967296) :
    bitmapSetBits bitmap bitIdx nbits bit = .ok bitmap' ↔
      bitmap.bitmap ≠ 0 ∧ bitIdx < bitmap.bitCount ∧
        bitmap' = bitmap.write bitIdx bit.toBool := by
  unfold bitmapSetBits
  rw [u32_of_lt bound, Nat.add_sub_cancel_left]
  apply foldlM_bitmapSetBit
  intro empty
  have lengths := congrArg List.length empty
  simp only [List.length_range', List.length_nil] at lengths
  omega

/-! ## Ranges of bits -/

/-- `bitmap_test_bit` reads the bit or fails an `ASSERT`. -/
theorem bitmapTestBit_eq {bitmap : Bitmap} (pointer : bitmap.bitmap ≠ 0)
    (index : Nat) :
    bitmapTestBit bitmap index =
      if index < bitmap.bitCount then .ok (bitmap.bits index)
      else .error .assertFailed := by
  rw [bitmapTestBit, Call.assert_of pointer, Call.ok_bind]
  by_cases inside : index < bitmap.bitCount
  · rw [Call.assert_of inside, if_pos inside, ← testBit_eq_bits]
    rfl
  · rw [Call.assert_of_not inside, if_neg inside]
    rfl

/-- A call of `bitmap_set_bits` returns, and `bitmap_test_bit` then gives the
value for the range and what it gave before for every other index. -/
def SetsRange (bitmap : Bitmap) (bitIdx nbits : Nat) (bit : BitStatus) :
    Prop :=
  ∃ bitmap', bitmapSetBits bitmap bitIdx nbits bit = .ok bitmap' ∧
    (∀ index, bitIdx ≤ index → index < bitIdx + nbits →
      bitmapTestBit bitmap' index = .ok bit.toBool) ∧
    ∀ index, index < bitIdx ∨ bitIdx + nbits ≤ index →
      bitmapTestBit bitmap' index = bitmapTestBit bitmap index

private theorem bitmapSetBits_zero (bitmap : Bitmap) {bitIdx : Nat}
    (bit : BitStatus) (bound : bitIdx < 4294967296) :
    bitmapSetBits bitmap bitIdx 0 bit = .ok bitmap := by
  rw [bitmapSetBits, Nat.add_zero, u32_of_lt bound, Nat.sub_self]
  rfl

/-- The range is set exactly when the bits behind its first one have the value
already, since every round writes the first one. -/
theorem bitmapSetBits_exact_iff {bitmap : Bitmap} {bitIdx nbits : Nat}
    {bit : BitStatus} (pointer : bitmap.bitmap ≠ 0)
    (bound : bitIdx + nbits < 2147483648) :
    SetsRange bitmap bitIdx nbits bit ↔
      nbits = 0 ∨
        bitIdx + nbits ≤ bitmap.bitCount ∧
          ∀ index, bitIdx < index → index < bitIdx + nbits →
            bitmap.bits index = bit.toBool := by
  rcases Nat.eq_zero_or_pos nbits with none | positive
  · rw [none]
    refine iff_of_true ⟨bitmap, ?_, ?_, ?_⟩ (Or.inl rfl)
    · exact bitmapSetBits_zero bitmap bit (by omega)
    · intro index lower upper
      omega
    · intro index _
      rfl
  have read : ∀ index, bitmapTestBit (bitmap.write bitIdx bit.toBool) index =
      if index < bitmap.bitCount then
        .ok (if index = bitIdx then bit.toBool else bitmap.bits index)
      else .error .assertFailed := by
    intro index
    rw [bitmapTestBit_eq (bitmap.bitmap_write bitIdx bit.toBool ▸ pointer),
      Bitmap.bitCount_write, Bitmap.bits_write]
  constructor
  · rintro ⟨bitmap', returned, range, -⟩
    obtain ⟨-, first, rfl⟩ :=
      (bitmapSetBits_eq_ok_iff positive (by omega)).mp returned
    have inside : ∀ index, bitIdx ≤ index → index < bitIdx + nbits →
        index < bitmap.bitCount ∧
          (index ≠ bitIdx → bitmap.bits index = bit.toBool) := by
      intro index lower upper
      have value := range index lower upper
      rw [read] at value
      split at value
      next small =>
        refine ⟨small, fun other => ?_⟩
        rw [if_neg other] at value
        exact Except.ok.inj value
      next => cases value
    refine Or.inr ⟨?_, ?_⟩
    · have last := (inside (bitIdx + nbits - 1) (by omega) (by omega)).1
      omega
    · intro index lower upper
      exact (inside index (by omega) upper).2 (by omega)
  · rintro (none | ⟨room, already⟩)
    · omega
    refine ⟨bitmap.write bitIdx bit.toBool, ?_, ?_, ?_⟩
    · exact (bitmapSetBits_eq_ok_iff positive (by omega)).mpr
        ⟨pointer, by omega, rfl⟩
    · intro index lower upper
      rw [read, if_pos (by omega)]
      by_cases first : index = bitIdx
      · rw [if_pos first]
      · rw [if_neg first, already index (by omega) upper]
    · intro index outside
      have other : index ≠ bitIdx := by omega
      rw [read, bitmapTestBit_eq pointer, if_neg other]

/-- Bits 1 and 2 of the byte are set, so that setting bits 0 to 2 works. -/
theorem bitmapSetBits_exact_iff_byte :
    SetsRange ⟨1, 0xc009a000, fun _ => 6⟩ 0 3 .bitSet := by
  apply (bitmapSetBits_exact_iff (by decide) (by decide)).mpr
  refine Or.inr ⟨by decide, fun index lower upper => ?_⟩
  have two : index = 1 ∨ index = 2 := by omega
  rcases two with same | same
  · rw [same]
    decide
  · rw [same]
    decide

/-- Two bits of a clear byte: the second one stays clear. -/
theorem bitmapSetBits_first_only :
    ¬ SetsRange ⟨1, 0xc009a000, fun _ => 0⟩ 0 2 .bitSet := by
  rintro ⟨bitmap', returned, range, -⟩
  obtain ⟨-, -, rfl⟩ :=
    (bitmapSetBits_eq_ok_iff (by decide) (by decide)).mp returned
  exact absurd (range 1 (by decide) (by decide)) (by decide)

end Simos
