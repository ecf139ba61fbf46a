import Simos.Stdio.Expansion

/-!
# The end of the text that `vsprintf` leaves

`vsprintf` stores no zero byte of its own: one stands behind the text when the
last thing in the format is `%s`, since `strcpy` has left it there, or when
the buffer had one at that place.  Only then is the length returned that of
the text.
-/

namespace Simos

open Simos.Library

/-- A call returns and leaves the text with a zero byte behind it, and the
value returned is the length of the text. -/
def LeavesString (run : Nat → Call (ByteMemory × Nat)) (resBuf : Nat)
    (text : List (BitVec 8)) : Prop :=
  ∃ after, Returns run (after, text.length) ∧
    after.Holds resBuf (text ++ [0])

private theorem digitChar_ne_zero {digit : Nat} (small : digit < 16) :
    digitChar digit ≠ 0 := by
  decide +revert

private theorem numeralChars_nonzero {radix value : Nat} {digits : List Nat}
    (shown : IsNumeral radix value digits) (small : radix ≤ 16) :
    0 ∉ digits.map digitChar := by
  rw [List.mem_map]
  rintro ⟨digit, member, equal⟩
  have below := shown.below digit member
  exact digitChar_ne_zero (by omega) equal

/-- A specifier shows no zero byte unless it is `%c` with one. -/
theorem Converts.nonzero {memory : ByteMemory} {low high slot : Nat}
    {letter : BitVec 8} {arg : Argument} {shown : List (BitVec 8)}
    (converts : Converts letter arg shown)
    (inSlot : arg.InSlot memory low high slot)
    (visible : ∀ ch, arg = .character ch → ch ≠ 0) : 0 ∉ shown := by
  cases converts with
  | hex numeral | decimal _ numeral =>
      exact numeralChars_nonzero numeral (by decide)
  | string =>
      exact inSlot.2.1.nonzero
  | character ch =>
      intro member
      exact visible ch rfl (List.mem_singleton.mp member).symm
  | negative _ numeral =>
      intro member
      rcases List.mem_cons.mp member with sign | digit
      · exact absurd sign (by decide)
      · exact numeralChars_nonzero numeral (by decide) digit

theorem Expands.nonzero {memory : ByteMemory} {low high ap : Nat}
    {format text : List (BitVec 8)} {args : List Argument}
    (expands : Expands format args text) (literals : 0 ∉ format)
    (passed : ArgumentsPassed memory low high ap args)
    (visible : ∀ ch, Argument.character ch ∈ args → ch ≠ 0) :
    0 ∉ text := by
  induction expands generalizing ap with
  | nil =>
      exact literals
  | literal _ _ inductionHypothesis =>
      rw [List.mem_cons, not_or] at literals ⊢
      exact ⟨literals.1, inductionHypothesis literals.2 passed visible⟩
  | specifier converts _ inductionHypothesis =>
      obtain ⟨_, _, inSlot, passed⟩ := passed
      rw [List.mem_append, not_or]
      constructor
      · apply converts.nonzero inSlot
        intro ch equal
        apply visible ch
        rw [equal]
        exact List.mem_cons_self
      · apply inductionHypothesis _ passed
        · intro ch member
          exact visible ch (List.mem_cons_of_mem _ member)
        · intro member
          apply literals
          exact List.mem_cons_of_mem _ (List.mem_cons_of_mem _ member)

namespace FormatCall

variable {memory : ByteMemory} {resBuf size formatPtr ap : Nat}
  {format : List (BitVec 8)} {args : List Argument}

/-- The byte behind the text is that of the last `%s` or the old one. -/
theorem byte_behind (memory : ByteMemory) (resBuf : Nat)
    (format text : List (BitVec 8)) :
    (memory.storeBytes resBuf (text ++ terminator format)).byte
        (resBuf + text.length) = 0 ↔
      EndsInString format ∨ memory.byte (resBuf + text.length) = 0 := by
  by_cases ends : EndsInString format
  · have held := ByteMemory.holds_append.mp (ByteMemory.holds_storeBytes
      memory resBuf (text ++ terminator format))
    rw [terminator, if_pos ends] at held ⊢
    exact iff_of_true held.2.1 (Or.inl ends)
  · rw [terminator, if_neg ends, List.append_nil,
      ByteMemory.byte_storeBytes_of_outside (Or.inr (Nat.le_refl _))]
    exact ⟨Or.inr, fun either => either.resolve_left ends⟩

theorem leavesString_iff
    (call : FormatCall memory resBuf size formatPtr ap format args)
    (visible : ∀ ch, Argument.character ch ∈ args → ch ≠ 0) :
    ∃ text, Expands format args text ∧
      (LeavesString (fun fuel => vsprintf fuel memory resBuf formatPtr ap)
          resBuf text ↔
        EndsInString format ∨ memory.byte (resBuf + text.length) = 0) := by
  obtain ⟨text, length, expands, measured, returned⟩ := call.returns
  refine ⟨text, expands, ?_⟩
  rw [← byte_behind]
  constructor
  · rintro ⟨after, returned', held⟩
    have same := (Prod.mk.inj (returned'.unique returned)).1
    rw [same] at held
    exact (ByteMemory.holds_append.mp held).2.1
  · intro behind
    have fits := call.fits text expands
    have inSpace := call.inSpace
    have held := (ByteMemory.holds_append.mp (ByteMemory.holds_storeBytes
      memory resBuf (text ++ terminator format))).1
    have string : (memory.storeBytes resBuf
        (text ++ terminator format)).CString resBuf text :=
      ⟨ByteMemory.holds_append.mpr ⟨held, behind, True.intro⟩,
        expands.nonzero call.string.nonzero call.passed visible, by omega⟩
    have counted : Returns (fun fuel => strlen fuel
        (memory.storeBytes resBuf (text ++ terminator format)) resBuf)
        text.length :=
      ⟨text.length + 1, fun fuel enough =>
        strlen_eq string call.notNull enough⟩
    rw [measured.unique counted] at returned
    exact ⟨_, returned, string.holds⟩

end FormatCall

/-- `vsprintf` and `sprintf` leave a proper string and return its length
exactly when the format ends in `%s` or the buffer already had a zero byte
behind the place of the text. -/
theorem sprintf_leavesString_iff {memory : ByteMemory}
    {resBuf size formatPtr ap : Nat} {format : List (BitVec 8)}
    {args : List Argument}
    (call : FormatCall memory resBuf size formatPtr ap format args)
    (visible : ∀ ch, Argument.character ch ∈ args → ch ≠ 0) :
    ∃ text, Expands format args text ∧
      (LeavesString (fun fuel => vsprintf fuel memory resBuf formatPtr ap)
          resBuf text ↔
        EndsInString format ∨ memory.byte (resBuf + text.length) = 0) ∧
      (memory.loadWord ap = formatPtr →
        (LeavesString (fun fuel => sprintf fuel memory resBuf ap)
            resBuf text ↔
          EndsInString format ∨
            memory.byte (resBuf + text.length) = 0)) := by
  obtain ⟨text, expands, leaves⟩ := call.leavesString_iff visible
  refine ⟨text, expands, leaves, fun first => ?_⟩
  unfold sprintf
  rw [first]
  exact leaves

/-- `"a"` at address 100, its address in the slot at 200, and a buffer at
1000 that holds no zero byte. -/
def dirtyBuffer : ByteMemory where
  byte address :=
    if address = 100 then ascii 'a'
    else if address = 200 then 100
    else if 1000 ≤ address then 1
    else 0

private theorem dirtyBuffer_call :
    FormatCall dirtyBuffer 1000 8 100 200 [ascii 'a'] [] where
  notNull := by decide
  inSpace := by decide
  string := ⟨⟨rfl, rfl, True.intro⟩, by decide, by decide⟩
  outside := Or.inl (by decide)
  wellFormed := WellFormed.nil.literal (by decide)
  kinds := .nil
  passed := True.intro
  fits := by
    intro text expands
    cases expands with
    | literal _ rest =>
        cases rest
        decide

theorem sprintf_leavesString_iff_dirtyBuffer :
    ∃ text, Expands [ascii 'a'] [] text ∧
      (LeavesString (fun fuel => vsprintf fuel dirtyBuffer 1000 100 200)
          1000 text ↔
        EndsInString [ascii 'a'] ∨
          dirtyBuffer.byte (1000 + text.length) = 0) ∧
      (dirtyBuffer.loadWord 200 = 100 →
        (LeavesString (fun fuel => sprintf fuel dirtyBuffer 1000 200)
            1000 text ↔
          EndsInString [ascii 'a'] ∨
            dirtyBuffer.byte (1000 + text.length) = 0)) :=
  sprintf_leavesString_iff dirtyBuffer_call
    (fun _ member => absurd member List.not_mem_nil)

/-- `sprintf(buf, "a")` leaves the old byte behind the `a`. -/
theorem sprintf_unterminated :
    FormatCall dirtyBuffer 1000 8 100 200 [ascii 'a'] [] ∧
      dirtyBuffer.loadWord 200 = 100 ∧
      Expands [ascii 'a'] [] [ascii 'a'] ∧
      ¬ LeavesString (fun fuel => sprintf fuel dirtyBuffer 1000 200) 1000
        [ascii 'a'] := by
  refine ⟨dirtyBuffer_call, by decide, .literal (by decide) .nil, ?_⟩
  obtain ⟨text, expands, leaves⟩ := dirtyBuffer_call.leavesString_iff
    (fun _ member => absurd member List.not_mem_nil)
  cases expands with
  | literal _ rest =>
      cases rest
      exact mt leaves.mp (by decide)

end Simos
