import Simos.Stdio.Vsprintf

/-!
# What `vsprintf` writes

The loop of `vsprintf` writes the text that the format stands for, and behind
it a zero byte when the last thing in the format is `%s`; every zero byte that
an earlier `%s` leaves is covered by what comes after it.

* `itoa_eq`, `Vsprintf.convert_eq`: one number, one specifier;
* `Vsprintf.loop_eq`: a whole format;
* `vsprintf_expands`: a call.
-/

namespace Simos

open Simos.Library

/-! ## Numbers -/

theorem digitChar_eq {digit : Nat} (small : digit < 16) :
    BitVec.ofNat 8
        (if digit < 10 then digit + '0'.toNat else digit - 10 + 'A'.toNat) =
      digitChar digit := by
  decide +revert

/-- `itoa` writes the numeral of its argument. -/
theorem itoa_eq {radix : Nat} (base : 1 < radix) (small : radix ≤ 16)
    {fuel value : Nat} (memory : ByteMemory) {buf : Nat}
    (enough : (numeral radix value).length ≤ fuel)
    (room : buf + (numeral radix value).length < 4294967296) :
    itoa fuel memory value buf radix =
      .ok (memory.storeBytes buf ((numeral radix value).map digitChar),
        buf + (numeral radix value).length) := by
  induction fuel generalizing value with
  | zero =>
      exact absurd (List.eq_nil_of_length_eq_zero (Nat.le_zero.mp enough))
        (numeral_ne_nil radix value)
  | succ fuel inductionHypothesis =>
      have digit : value % radix < radix := Nat.mod_lt value (by omega)
      rw [itoa]
      simp only []
      rw [digitChar_eq (by omega)]
      by_cases more : value / radix = 0
      · have below : value < radix :=
          (Nat.div_eq_zero_iff_lt (by omega)).mp more
        rw [numeral_of_lt below, List.length_singleton] at room
        rw [if_neg (fun nonzero => nonzero more), numeral_of_lt below,
          Nat.mod_eq_of_lt below]
        simp only [Call.pure_eq_ok, Call.ok_bind]
        rw [u32_of_lt room]
        rfl
      · have split := numeral_of_div_ne_zero base more
        rw [split, List.length_append, List.length_singleton] at room enough
        rw [if_pos more, inductionHypothesis (by omega) (by omega), split,
          List.map_append, ByteMemory.storeBytes_append, List.length_append,
          List.length_map]
        simp only [Call.pure_eq_ok, Call.ok_bind]
        rw [u32_of_lt (by omega)]
        rfl

/-! ## Formats -/

private theorem WellFormed.tail {ch : BitVec 8} {format : List (BitVec 8)}
    (wellFormed : WellFormed (ch :: format)) : WellFormed format := by
  intro before rest split
  apply wellFormed (ch :: before) rest
  rw [split, List.cons_append]

theorem WellFormed.nil : WellFormed [] := by
  intro before rest split
  have impossible := congrArg List.length split
  rw [List.length_append, List.length_cons, List.length_nil] at impossible
  omega

theorem WellFormed.literal {ch : BitVec 8} {format : List (BitVec 8)}
    (wellFormed : WellFormed format) (other : ch ≠ ascii '%') :
    WellFormed (ch :: format) := by
  intro before rest split
  cases before with
  | nil =>
      exact absurd (List.cons.inj split).1 other
  | cons first before =>
      exact wellFormed before rest (List.cons.inj split).2

theorem WellFormed.specifier {letter : BitVec 8} {format : List (BitVec 8)}
    (wellFormed : WellFormed format)
    (isLetter : letter ∈ [ascii 'x', ascii 's', ascii 'c', ascii 'd']) :
    WellFormed (ascii '%' :: letter :: format) := by
  intro before rest split
  cases before with
  | nil =>
      exact ⟨letter, format, (List.cons.inj split).2.symm, isLetter⟩
  | cons first before =>
      have behind := (List.cons.inj split).2
      have other : letter ≠ ascii '%' := by
        rintro rfl
        exact absurd isLetter (by decide)
      exact wellFormed.literal other before rest behind

private theorem WellFormed.letter {format : List (BitVec 8)}
    (wellFormed : WellFormed (ascii '%' :: format)) :
    ∃ letter after, format = letter :: after ∧
      letter ∈ [ascii 'x', ascii 's', ascii 'c', ascii 'd'] :=
  wellFormed [] format rfl

private theorem letter_ne_percent {letter : BitVec 8}
    (isLetter : letter ∈ [ascii 'x', ascii 's', ascii 'c', ascii 'd']) :
    letter ≠ ascii '%' := by
  intro equal
  rw [equal] at isLetter
  exact absurd isLetter (by decide)

private theorem Argument.Matches.exists_converts {letter : BitVec 8}
    {arg : Argument}
    (kind : arg.Matches letter) : ∃ shown, Converts letter arg shown := by
  cases kind with
  | hex value =>
      exact ⟨_, .hex (isNumeral_numeral (by decide) value.toNat)⟩
  | string characters =>
      exact ⟨_, .string characters⟩
  | character ch =>
      exact ⟨_, .character ch⟩
  | decimal value =>
      have shown := isNumeral_numeral (by decide : 1 < 10) value.toInt.natAbs
      by_cases sign : value.toInt < 0
      · exact ⟨_, .negative sign shown⟩
      · exact ⟨_, .decimal (Int.not_lt.mp sign) shown⟩

/-- A well-formed format with matching arguments stands for a text. -/
theorem exists_expands :
    ∀ {format : List (BitVec 8)} {args : List Argument},
      WellFormed format →
      List.Forall₂ (fun letter arg => arg.Matches letter)
        (specifiers format) args →
      ∃ text, Expands format args text
  | [], args, _, kinds => by
      rw [specifiers, List.forall₂_nil_left_iff] at kinds
      rw [kinds]
      exact ⟨[], .nil⟩
  | ch :: format, args, wellFormed, kinds => by
      by_cases percent : ch = ascii '%'
      · rw [percent] at wellFormed
        obtain ⟨letter, after, rfl, isLetter⟩ := wellFormed.letter
        rw [specifiers, if_pos percent, specifiers,
          if_neg (letter_ne_percent isLetter)] at kinds
        cases kinds with
        | cons kind kinds =>
            obtain ⟨shown, converts⟩ := kind.exists_converts
            obtain ⟨text, expands⟩ :=
              exists_expands wellFormed.tail.tail kinds
            rw [percent]
            exact ⟨_, .specifier converts expands⟩
      · rw [specifiers, if_neg percent] at kinds
        obtain ⟨text, expands⟩ := exists_expands wellFormed.tail kinds
        exact ⟨_, .literal percent expands⟩

/-! ## Arguments -/

/-- The bytes do not overlap the buffer, which reaches from `low` up to
`high`. -/
def OutsideBuffer (low high address length : Nat) : Prop :=
  address + length ≤ low ∨ high ≤ address

/-- The argument stands in a slot of the stack; a string is passed by its
address. -/
def Argument.InSlot (memory : ByteMemory) (low high slot : Nat) :
    Argument → Prop
  | .number value => memory.loadWord slot = value.toNat
  | .character ch => memory.byte slot = ch
  | .text characters =>
      memory.loadWord slot ≠ 0 ∧
        memory.CString (memory.loadWord slot) characters ∧
        OutsideBuffer low high (memory.loadWord slot)
          (characters.length + 1)

/-- The arguments stand in the slots above the one `ap` points to. -/
def ArgumentsPassed (memory : ByteMemory) (low high : Nat) :
    Nat → List Argument → Prop
  | _, [] => True
  | ap, arg :: args =>
      ap + 8 ≤ 4294967296 ∧ OutsideBuffer low high (ap + 4) 4 ∧
        arg.InSlot memory low high (ap + 4) ∧
        ArgumentsPassed memory low high (ap + 4) args

section Frame

variable {memory other : ByteMemory} {low high : Nat}
  (agree : ∀ address, address < low ∨ high ≤ address →
    other.byte address = memory.byte address)

include agree

private theorem loadWord_of_outsideBuffer {slot : Nat}
    (outside : OutsideBuffer low high slot 4) :
    other.loadWord slot = memory.loadWord slot := by
  apply ByteMemory.loadWord_congr
  intro offset small
  apply agree
  unfold OutsideBuffer at outside
  omega

theorem cString_of_outsideBuffer {address : Nat}
    {characters : List (BitVec 8)}
    (string : memory.CString address characters)
    (outside : OutsideBuffer low high address (characters.length + 1)) :
    other.CString address characters := by
  apply string.congr
  intro index inside
  apply agree
  unfold OutsideBuffer at outside
  omega

private theorem Argument.InSlot.congr {arg : Argument} {slot : Nat}
    (inSlot : arg.InSlot memory low high slot)
    (outside : OutsideBuffer low high slot 4) :
    arg.InSlot other low high slot := by
  have word := loadWord_of_outsideBuffer agree outside
  cases arg with
  | number value =>
      exact word.trans inSlot
  | character ch =>
      refine (agree slot ?_).trans inSlot
      unfold OutsideBuffer at outside
      omega
  | text characters =>
      obtain ⟨notNull, string, apart⟩ := inSlot
      rw [InSlot, word]
      exact ⟨notNull, cString_of_outsideBuffer agree string apart, apart⟩

theorem ArgumentsPassed.congr {args : List Argument} {ap : Nat}
    (passed : ArgumentsPassed memory low high ap args) :
    ArgumentsPassed other low high ap args := by
  induction args generalizing ap with
  | nil =>
      exact True.intro
  | cons arg args inductionHypothesis =>
      obtain ⟨inSpace, outside, inSlot, rest⟩ := passed
      exact ⟨inSpace, outside, inSlot.congr agree outside,
        inductionHypothesis rest⟩

end Frame

/-! ## One specifier -/

private theorem natAbs_of_nonnegative {value : BitVec 32}
    (nonnegative : 0 ≤ value.toInt) :
    value.toNat < 2147483648 ∧ value.toInt.natAbs = value.toNat := by
  have bound := value.isLt
  rw [BitVec.toInt_eq_toNat_cond] at nonnegative ⊢
  split at nonnegative <;> omega

/-- The absolute value of the most negative number is not an `int32_t`, but
it is a `uint32_t`. -/
theorem natAbs_of_negative {value : BitVec 32}
    (negative : value.toInt < 0) :
    2147483648 ≤ value.toNat ∧
      value.toInt.natAbs = sub32 0 value.toNat := by
  have bound := value.isLt
  unfold sub32 u32
  rw [BitVec.toInt_eq_toNat_cond] at negative ⊢
  split at negative <;> omega

namespace Vsprintf

private theorem putNumber_eq {s : Vsprintf} {fuel value radix : Nat}
    {digits : List Nat} (base : 1 < radix) (small : radix ≤ 16)
    (shown : IsNumeral radix value digits) (enough : digits.length ≤ fuel)
    (room : s.bufPtr + digits.length < 4294967296) :
    s.putNumber fuel value radix =
      .ok { s with
        memory := s.memory.storeBytes s.bufPtr (digits.map digitChar)
        bufPtr := s.bufPtr + digits.length } := by
  rw [shown.eq_numeral base] at enough room ⊢
  rw [putNumber, itoa_eq base small s.memory enough room]
  rfl

private def terminatorOf (letter : BitVec 8) : List (BitVec 8) :=
  if letter = ascii 's' then [0] else []

private theorem terminatorOf_of_ne {letter : BitVec 8}
    (other : letter ≠ ascii 's') : terminatorOf letter = [] :=
  if_neg other

private def wrote (s : Vsprintf) (letter : BitVec 8) (shown : List (BitVec 8)) :
    Vsprintf :=
  { s with
    memory := s.memory.storeBytes s.bufPtr (shown ++ terminatorOf letter)
    bufPtr := s.bufPtr + shown.length
    ap := s.ap + 4 }

variable {s : Vsprintf} {low high fuel : Nat}

/-- `%s` copies the string with its terminator, and the string is as it was
when `strlen` measures it. -/
theorem convert_string {shown : List (BitVec 8)}
    (current : s.indexChar = ascii 's')
    (inSlot : (Argument.text shown).InSlot s.memory low high (s.ap + 4))
    (inSpace : s.ap + 8 ≤ 4294967296) (inBuffer : 0 < low ∧ low ≤ s.bufPtr)
    (room : s.bufPtr + shown.length < high) (top : high ≤ 4294967296)
    (enough : shown.length < fuel) :
    s.convert fuel = .ok (s.wrote (ascii 's') shown).next := by
  have advanced : u32 (s.ap + 4) = s.ap + 4 := u32_of_lt (by omega)
  obtain ⟨notNull, string, apart⟩ := inSlot
  unfold OutsideBuffer at apart
  have notNull' : s.bufPtr ≠ 0 := by omega
  have copied := strcpy_eq string ⟨notNull', notNull⟩ enough (by omega)
    (by omega)
  have kept : (s.memory.storeBytes s.bufPtr (shown ++ [0])).CString
      (s.memory.loadWord (s.ap + 4)) shown := by
    apply string.congr
    intro index inside
    apply ByteMemory.byte_storeBytes_of_outside
    rw [List.length_append, List.length_singleton]
    omega
  have measured := strlen_eq kept notNull enough
  rw [convert, current, if_neg (by decide), if_pos rfl, wrote,
    terminatorOf, if_pos rfl]
  simp only [vaArg, advanced, copied, measured, Call.ok_bind,
    Call.pure_eq_ok]
  rw [u32_of_lt (by omega)]

/-- A specifier writes what it makes of its argument. -/
theorem convert_eq {letter : BitVec 8} {arg : Argument}
    {shown : List (BitVec 8)} (converts : Converts letter arg shown)
    (current : s.indexChar = letter)
    (inSlot : arg.InSlot s.memory low high (s.ap + 4))
    (inSpace : s.ap + 8 ≤ 4294967296) (inBuffer : 0 < low ∧ low ≤ s.bufPtr)
    (room : s.bufPtr + shown.length < high) (top : high ≤ 4294967296)
    (enough : shown.length < fuel) :
    s.convert fuel = .ok (s.wrote letter shown).next := by
  have advanced : u32 (s.ap + 4) = s.ap + 4 := u32_of_lt (by omega)
  cases converts with
  | @hex value digits numeral =>
      rw [List.length_map] at room enough
      have space : s.bufPtr + digits.length < 4294967296 := by omega
      have word : s.memory.loadWord (s.ap + 4) = value.toNat := inSlot
      have put := @putNumber_eq { s with ap := s.ap + 4 } fuel _ 16 _
        (by decide) (by decide) numeral (by omega) space
      rw [convert, if_pos current, wrote,
        terminatorOf_of_ne (by decide), List.append_nil, List.length_map]
      simp only [vaArg, advanced, word, put, Call.ok_bind, Call.pure_eq_ok]
  | string =>
      exact convert_string current inSlot inSpace inBuffer room top enough
  | character ch =>
      have byte : s.memory.byte (s.ap + 4) = ch := inSlot
      rw [List.length_singleton] at room
      rw [convert, current, if_neg (by decide), if_neg (by decide),
        if_pos rfl, wrote, terminatorOf_of_ne (by decide)]
      simp only [vaArg, advanced, put, byte, Call.pure_eq_ok]
      rw [u32_of_lt (by omega)]
      rfl
  | @decimal value digits nonnegative numeral =>
      rw [List.length_map] at room enough
      have space : s.bufPtr + digits.length < 4294967296 := by omega
      have word : s.memory.loadWord (s.ap + 4) = value.toNat := inSlot
      obtain ⟨small, magnitude⟩ := natAbs_of_nonnegative nonnegative
      rw [magnitude] at numeral
      have put := @putNumber_eq { s with ap := s.ap + 4 } fuel _ 10 _
        (by decide) (by decide) numeral (by omega) space
      rw [convert, current, if_neg (by decide), if_neg (by decide),
        if_neg (by decide), if_pos rfl, wrote,
        terminatorOf_of_ne (by decide), List.append_nil, List.length_map]
      simp only [vaArg, advanced, word]
      rw [if_neg (Nat.not_le.mpr small), put]
      rfl
  | @negative value digits negative numeral =>
      rw [List.length_cons, List.length_map] at room enough
      have space : s.bufPtr + 1 + digits.length < 4294967296 := by omega
      have word : s.memory.loadWord (s.ap + 4) = value.toNat := inSlot
      obtain ⟨large, magnitude⟩ := natAbs_of_negative negative
      rw [magnitude] at numeral
      have signed : u32 (s.bufPtr + 1) = s.bufPtr + 1 :=
        u32_of_lt (by omega)
      have put := @putNumber_eq
        { s with
          memory := s.memory.storeByte s.bufPtr (ascii '-')
          bufPtr := s.bufPtr + 1
          ap := s.ap + 4 } fuel _ 10 _
        (by decide) (by decide) numeral (by omega) space
      rw [convert, current, if_neg (by decide), if_neg (by decide),
        if_neg (by decide), if_pos rfl, wrote,
        terminatorOf_of_ne (by decide), List.append_nil, List.length_cons,
        List.length_map]
      simp only [vaArg, advanced, word, Vsprintf.put, signed]
      rw [if_pos large, put, Nat.add_comm digits.length, ← Nat.add_assoc]
      rfl

/-! ## A whole format -/

/-- The loop stands in front of the rest of the format; neither it nor the
arguments left overlap the buffer, and the text left fits. -/
structure Ready (low high : Nat) (s : Vsprintf) (format : List (BitVec 8))
    (args : List Argument) (text : List (BitVec 8)) : Prop where
  string : s.memory.CString s.indexPtr format
  outside : OutsideBuffer low high s.indexPtr (format.length + 1)
  current : s.indexChar = s.memory.byte s.indexPtr
  passed : ArgumentsPassed s.memory low high s.ap args
  inBuffer : 0 < low ∧ low ≤ s.bufPtr
  room : s.bufPtr + text.length < high
  top : high ≤ 4294967296

variable {ch : BitVec 8} {format text : List (BitVec 8)}
  {args : List Argument}

private theorem Ready.head (ready : Ready low high s (ch :: format) args text) :
    s.indexChar = ch :=
  ready.current.trans ready.string.head

private theorem Ready.next (ready : Ready low high s (ch :: format) args text) :
    Ready low high s.next format args text := by
  have inSpace := ready.string.inSpace
  have outside := ready.outside
  rw [List.length_cons] at inSpace outside
  unfold OutsideBuffer at outside
  have advanced : u32 (s.indexPtr + 1) = s.indexPtr + 1 :=
    u32_of_lt (by omega)
  constructor
  · rw [Vsprintf.next, advanced]
    exact ready.string.tail
  · rw [Vsprintf.next, advanced]
    have apart : OutsideBuffer low high (s.indexPtr + 1)
        (format.length + 1) := by
      unfold OutsideBuffer
      omega
    exact apart
  · rfl
  · exact ready.passed
  · exact ready.inBuffer
  · exact ready.room
  · exact ready.top

theorem Ready.write (ready : Ready low high s format args text)
    {written text' : List (BitVec 8)} {args' : List Argument} {count ap : Nat}
    (passed : ArgumentsPassed s.memory low high ap args')
    (inside : s.bufPtr + written.length ≤ high)
    (room : s.bufPtr + count + text'.length < high) :
    Ready low high
      { s with
        memory := s.memory.storeBytes s.bufPtr written
        bufPtr := s.bufPtr + count
        ap }
      format args' text' := by
  have inBuffer := ready.inBuffer
  have agree : ∀ address, address < low ∨ high ≤ address →
      (s.memory.storeBytes s.bufPtr written).byte address =
        s.memory.byte address := by
    intro address outside
    apply ByteMemory.byte_storeBytes_of_outside
    omega
  have outside := ready.outside
  constructor
  · exact cString_of_outsideBuffer agree ready.string ready.outside
  · exact ready.outside
  · rw [ready.current]
    refine (agree s.indexPtr ?_).symm
    unfold OutsideBuffer at outside
    omega
  · exact passed.congr agree
  · exact ⟨inBuffer.1, Nat.le_add_right_of_le inBuffer.2⟩
  · exact room
  · exact ready.top

end Vsprintf

/-- The last thing in the format is `%s`. -/
def EndsInString (format : List (BitVec 8)) : Prop :=
  [ascii '%', ascii 's'] <:+ format

instance (format : List (BitVec 8)) : Decidable (EndsInString format) :=
  inferInstanceAs (Decidable (_ <:+ _))

def terminator (format : List (BitVec 8)) : List (BitVec 8) :=
  if EndsInString format then [0] else []

section Terminator

variable {ch letter : BitVec 8} {format text : List (BitVec 8)}
  {args : List Argument}

private theorem terminator_literal (literal : ch ≠ ascii '%') :
    terminator (ch :: format) = terminator format := by
  have same : EndsInString (ch :: format) ↔ EndsInString format := by
    rw [EndsInString, List.suffix_cons_iff, List.cons_eq_cons]
    constructor
    · rintro (⟨equal, _⟩ | suffix)
      · exact absurd equal.symm literal
      · exact suffix
    · exact Or.inr
  simp only [terminator, same]

private theorem terminator_letter (isLetter : letter ≠ ascii '%')
    (more : format ≠ []) :
    terminator (ascii '%' :: letter :: format) = terminator format := by
  have same : EndsInString (ascii '%' :: letter :: format) ↔
      EndsInString (letter :: format) := by
    rw [EndsInString, List.suffix_cons_iff, List.cons_eq_cons,
      List.cons_eq_cons]
    constructor
    · rintro (⟨_, _, nil⟩ | suffix)
      · exact absurd nil.symm more
      · exact suffix
    · exact Or.inr
  calc
    terminator (ascii '%' :: letter :: format) =
        terminator (letter :: format) := by simp only [terminator, same]
    _ = terminator format := terminator_literal isLetter

private theorem terminator_last (letter : BitVec 8) :
    terminator [ascii '%', letter] = Vsprintf.terminatorOf letter := by
  have same : EndsInString [ascii '%', letter] ↔ letter = ascii 's' := by
    rw [EndsInString]
    constructor
    · intro suffix
      have equal := suffix.eq_of_length rfl
      exact (List.cons.inj (List.cons.inj equal).2).1.symm
    · intro equal
      rw [equal]
  simp only [terminator, Vsprintf.terminatorOf, same]

private theorem length_terminatorOf_le (letter : BitVec 8) :
    (Vsprintf.terminatorOf letter).length ≤ 1 := by
  unfold Vsprintf.terminatorOf
  split
  · exact Nat.le_refl 1
  · exact Nat.zero_le 1

private theorem Converts.letter_ne_percent {arg : Argument}
    {shown : List (BitVec 8)}
    (converts : Converts letter arg shown) : letter ≠ ascii '%' := by
  cases converts <;> decide

private theorem Converts.shown_pos {arg : Argument} {shown : List (BitVec 8)}
    (converts : Converts letter arg shown) :
    0 < (shown ++ Vsprintf.terminatorOf letter).length := by
  cases converts with
  | hex numeral | decimal _ numeral =>
      have digit := List.length_pos_iff.mpr numeral.nonempty
      rw [List.length_append, List.length_map]
      omega
  | string | character | negative =>
      simp [Vsprintf.terminatorOf]

private theorem Expands.written_pos (expands : Expands format args text)
    (nonempty : format ≠ []) : 0 < (text ++ terminator format).length := by
  induction expands with
  | nil =>
      exact absurd rfl nonempty
  | literal =>
      exact Nat.succ_pos _
  | @specifier letter arg shown format args text converts expands
      inductionHypothesis =>
      by_cases last : format = []
      · rw [last, terminator_last, List.length_append, List.length_append]
        have positive := converts.shown_pos
        rw [List.length_append] at positive
        omega
      · rw [terminator_letter converts.letter_ne_percent last]
        have positive := inductionHypothesis last
        rw [List.length_append] at positive
        rw [List.length_append, List.length_append]
        omega

/-- The text behind a specifier covers the zero byte of its string. -/
theorem Expands.covers (expands : Expands format args text) {arg : Argument}
    {shown : List (BitVec 8)} (converts : Converts letter arg shown)
    (memory : ByteMemory) (bufPtr : Nat) :
    (memory.storeBytes bufPtr
        (shown ++ Vsprintf.terminatorOf letter)).storeBytes
      (bufPtr + shown.length) (text ++ terminator format) =
    memory.storeBytes bufPtr
      (shown ++ text ++ terminator (ascii '%' :: letter :: format)) := by
  by_cases last : format = []
  · rw [last] at expands ⊢
    cases expands
    rw [terminator_last, List.append_nil]
    rfl
  · have covers : (Vsprintf.terminatorOf letter).length ≤
        (text ++ terminator format).length :=
      (length_terminatorOf_le letter).trans (expands.written_pos last)
    rw [terminator_letter converts.letter_ne_percent last,
      ByteMemory.storeBytes_append memory bufPtr shown,
      ByteMemory.storeBytes_covers _ _ covers, List.append_assoc,
      ← ByteMemory.storeBytes_append]

end Terminator

namespace Vsprintf

variable {s : Vsprintf} {low high : Nat} {format text : List (BitVec 8)}
  {args : List Argument}

/-- The loop runs to the end of the format and writes the whole text.  The
induction is on the format as it expands: a literal takes one round, and so
does a specifier. -/
theorem loop_eq (expands : Expands format args text) {fuel : Nat}
    (ready : Ready low high s format args text)
    (enough : format.length + text.length < fuel) :
    ∃ after, loop fuel s = .ok after ∧
      after.memory =
        s.memory.storeBytes s.bufPtr (text ++ terminator format) := by
  induction expands generalizing s fuel with
  | nil =>
      obtain ⟨fuel, rfl⟩ :=
        Nat.exists_eq_add_one.mpr (Nat.zero_lt_of_lt enough)
      have atEnd : s.indexChar = 0 :=
        ready.current.trans ready.string.terminator
      exact ⟨s, by rw [loop, if_pos atEnd], rfl⟩
  | @literal ch format args text literal _ inductionHypothesis =>
      rw [List.length_cons, List.length_cons] at enough
      obtain ⟨fuel, rfl⟩ :=
        Nat.exists_eq_add_one.mpr (Nat.zero_lt_of_lt enough)
      have room := ready.room
      have top := ready.top
      rw [List.length_cons] at room
      have advanced : u32 (s.bufPtr + 1) = s.bufPtr + 1 :=
        u32_of_lt (by omega)
      have nonzero : ch ≠ 0 := by
        intro equal
        apply ready.string.nonzero
        rw [equal]
        exact List.mem_cons_self
      have written := @Ready.write s low high _ _ _ ready [ch] text args 1 s.ap
        ready.passed (by rw [List.length_singleton]; omega) (by omega)
      obtain ⟨after, returned, memory⟩ :=
        @inductionHypothesis _ fuel written.next (by omega)
      refine ⟨after, ?_, ?_⟩
      · rw [loop, ready.head, if_neg nonzero, if_pos literal, Vsprintf.put,
          advanced]
        exact returned
      · rw [memory, terminator_literal literal]
        rfl
  | @specifier letter arg shown format args text converts expands
      inductionHypothesis =>
      rw [List.length_cons, List.length_cons, List.length_append] at enough
      obtain ⟨fuel, rfl⟩ :=
        Nat.exists_eq_add_one.mpr (Nat.zero_lt_of_lt enough)
      obtain ⟨inSpace, _, inSlot, passed⟩ := ready.passed
      have room := ready.room
      rw [List.length_append] at room
      have converted := convert_eq converts ready.next.head inSlot inSpace
        ready.inBuffer (by exact (by omega :
          s.bufPtr + shown.length < high)) ready.top
        (by omega : shown.length < fuel)
      have length : (shown ++ terminatorOf letter).length ≤
          shown.length + 1 := by
        rw [List.length_append]
        exact Nat.add_le_add_left (length_terminatorOf_le letter) _
      have written := @Ready.write s.next low high _ _ _ ready.next
        (shown ++ terminatorOf letter) text args shown.length (s.ap + 4)
        passed (by exact (by omega : s.bufPtr +
          (shown ++ terminatorOf letter).length ≤ high))
        (by exact (by omega : s.bufPtr + shown.length + text.length < high))
      obtain ⟨after, returned, memory⟩ :=
        @inductionHypothesis _ fuel written.next (by omega)
      refine ⟨after, ?_, ?_⟩
      · rw [loop, ready.head, if_neg (by decide), if_neg (fun other =>
          other rfl), converted, Call.ok_bind]
        exact returned
      · rw [memory]
        exact expands.covers converts s.memory s.bufPtr

end Vsprintf

/-! ## A call -/

/-- A call of `vsprintf`: the buffer of `size` bytes has room for the text
and a zero byte, the format is well formed, the arguments match it, and none
of what is read overlaps the buffer. -/
structure FormatCall (memory : ByteMemory)
    (resBuf size formatPtr ap : Nat) (format : List (BitVec 8))
    (args : List Argument) : Prop where
  notNull : resBuf ≠ 0
  inSpace : resBuf + size ≤ 4294967296
  string : memory.CString formatPtr format
  outside :
    OutsideBuffer resBuf (resBuf + size) formatPtr (format.length + 1)
  wellFormed : WellFormed format
  kinds :
    List.Forall₂ (fun letter arg => arg.Matches letter) (specifiers format)
      args
  passed : ArgumentsPassed memory resBuf (resBuf + size) ap args
  fits : ∀ text, Expands format args text → text.length < size

namespace FormatCall

variable {memory : ByteMemory} {resBuf size formatPtr ap : Nat}
  {format : List (BitVec 8)} {args : List Argument}

/-- The loop of a call comes to its end, and what it has written is the text
with the zero byte that may be behind it. -/
theorem loop_returns
    (call : FormatCall memory resBuf size formatPtr ap format args) :
    ∃ text, Expands format args text ∧
      ∀ fuel, format.length + text.length < fuel → ∃ after,
        Vsprintf.loop fuel
          ⟨memory, resBuf, formatPtr, memory.byte formatPtr, ap⟩ =
            .ok after ∧
        after.memory =
          memory.storeBytes resBuf (text ++ terminator format) := by
  obtain ⟨text, expands⟩ := exists_expands call.wellFormed call.kinds
  refine ⟨text, expands, fun fuel enough => ?_⟩
  have positive := Nat.pos_of_ne_zero call.notNull
  have room := Nat.add_lt_add_left (call.fits text expands) resBuf
  have ready : Vsprintf.Ready resBuf (resBuf + size)
      ⟨memory, resBuf, formatPtr, memory.byte formatPtr, ap⟩ format args
      text :=
    ⟨call.string, call.outside, rfl, call.passed,
      ⟨positive, Nat.le_refl resBuf⟩, room, call.inSpace⟩
  exact Vsprintf.loop_eq expands ready enough

private theorem length_written_le
    (call : FormatCall memory resBuf size formatPtr ap format args)
    {text : List (BitVec 8)} (expands : Expands format args text) :
    (text ++ terminator format).length ≤ size := by
  have fits := call.fits text expands
  have short : (terminator format).length ≤ 1 := by
    unfold terminator
    split
    · exact Nat.le_refl 1
    · exact Nat.zero_le 1
  rw [List.length_append]
  omega

/-- The zero byte of the format is still there when `strlen` looks for one. -/
theorem terminated
    (call : FormatCall memory resBuf size formatPtr ap format args)
    {text : List (BitVec 8)} (expands : Expands format args text) :
    (memory.storeBytes resBuf (text ++ terminator format)).byte
      (formatPtr + format.length) = 0 := by
  rw [← call.string.terminator]
  apply ByteMemory.byte_storeBytes_of_outside
  have inside := call.length_written_le expands
  have outside := call.outside
  unfold OutsideBuffer at outside
  omega

/-- The call returns with what the loop has written and the place of the
first zero byte. -/
theorem returns
    (call : FormatCall memory resBuf size formatPtr ap format args) :
    ∃ text length, Expands format args text ∧
      Returns (fun fuel => strlen fuel
        (memory.storeBytes resBuf (text ++ terminator format)) resBuf)
        length ∧
      Returns (fun fuel => vsprintf fuel memory resBuf formatPtr ap)
        (memory.storeBytes resBuf (text ++ terminator format), length) := by
  obtain ⟨text, expands, always⟩ := call.loop_returns
  have fits := call.fits text expands
  have inSpace := call.inSpace
  obtain ⟨length, bound, measured⟩ :=
    strlen_returns (call.terminated expands) call.notNull
      (by omega : resBuf < 4294967296) call.string.inSpace
  refine ⟨text, length, expands, ⟨bound, measured⟩,
    bound + format.length + text.length + 1, fun fuel enough => ?_⟩
  obtain ⟨after, returned, written⟩ := always fuel (by omega)
  have found := measured fuel (by omega)
  simp only [vsprintf, returned, written, found, Call.ok_bind,
    Call.pure_eq_ok]

end FormatCall

/-- `vsprintf` returns, whatever the buffer held, and then the text that the
format stands for with its arguments is at the start of the buffer. -/
theorem vsprintf_expands {memory : ByteMemory}
    {resBuf size formatPtr ap : Nat} {format : List (BitVec 8)}
    {args : List Argument}
    (call : FormatCall memory resBuf size formatPtr ap format args) :
    ∃ text after length, Expands format args text ∧
      Returns (fun fuel => vsprintf fuel memory resBuf formatPtr ap)
        (after, length) ∧
      after.Holds resBuf text := by
  obtain ⟨text, length, expands, _, returned⟩ := call.returns
  refine ⟨text, _, length, expands, returned, ?_⟩
  exact (ByteMemory.holds_append.mp (ByteMemory.holds_storeBytes memory
    resBuf (text ++ terminator format))).1

/-- `"%d"` at address 100, and in the slot at 204 the most negative number. -/
def mostNegative : ByteMemory where
  byte address :=
    if address = 100 then ascii '%'
    else if address = 101 then ascii 'd'
    else if address = 207 then 128
    else 0

theorem wellFormed_single {letter : BitVec 8}
    (isLetter : letter ∈ [ascii 'x', ascii 's', ascii 'c', ascii 'd']) :
    WellFormed [ascii '%', letter] :=
  WellFormed.nil.specifier isLetter

private theorem numeral_mostNegative :
    numeral 10 2147483648 = [2, 1, 4, 7, 4, 8, 3, 6, 4, 8] := by
  have shown :
      IsNumeral 10 2147483648 [2, 1, 4, 7, 4, 8, 3, 6, 4, 8] := by
    refine ⟨by decide, by decide, by decide, ?_⟩
    simp [Nat.ofDigits_cons]
  exact (shown.eq_numeral (by decide)).symm

/-- A format that is one specifier stands for what that makes of its
argument. -/
theorem Expands.single {letter : BitVec 8} {arg : Argument}
    {text : List (BitVec 8)}
    (expands : Expands [ascii '%', letter] [arg] text) :
    Converts letter arg text := by
  cases expands with
  | literal other =>
      exact absurd rfl other
  | specifier converts rest =>
      cases rest
      rw [List.append_nil]
      exact converts

theorem Converts.hex_eq {letter : BitVec 8} {arg : Argument}
    {shown : List (BitVec 8)} {value : BitVec 32}
    (converts : Converts letter arg shown) (isHex : letter = ascii 'x')
    (isNumber : arg = .number value) :
    shown = (numeral 16 value.toNat).map digitChar := by
  cases converts with
  | hex shown =>
      cases isNumber
      rw [shown.eq_numeral (by decide)]
  | string | character | decimal | negative =>
      exact absurd isHex (by decide)

theorem Converts.string_eq {letter : BitVec 8} {arg : Argument}
    {shown characters : List (BitVec 8)}
    (converts : Converts letter arg shown)
    (isText : arg = .text characters) : shown = characters := by
  cases converts with
  | string =>
      cases isText
      rfl
  | hex | character | decimal | negative =>
      cases isText

theorem Converts.negative_eq {letter : BitVec 8} {arg : Argument}
    {shown : List (BitVec 8)} {value : BitVec 32}
    (converts : Converts letter arg shown) (isDecimal : letter = ascii 'd')
    (isNumber : arg = .number value) (sign : value.toInt < 0) :
    shown =
      ascii '-' :: (numeral 10 value.toInt.natAbs).map digitChar := by
  cases converts with
  | hex | string | character =>
      exact absurd isDecimal (by decide)
  | decimal nonnegative =>
      cases isNumber
      omega
  | negative _ shown =>
      cases isNumber
      rw [shown.eq_numeral (by decide)]

private theorem expands_mostNegative {text : List (BitVec 8)}
    (expands : Expands [ascii '%', ascii 'd'] [.number 0x80000000#32] text) :
    text = ['-', '2', '1', '4', '7', '4', '8', '3', '6', '4', '8'].map
      ascii := by
  have magnitude : (0x80000000#32).toInt.natAbs = 2147483648 := by decide
  rw [expands.single.negative_eq rfl rfl (by decide), magnitude,
    numeral_mostNegative]
  decide

/-- The most negative number comes out as `-2147483648`. -/
theorem vsprintf_expands_mostNegative :
    ∃ after length,
      Returns (fun fuel => vsprintf fuel mostNegative 1000 100 200)
        (after, length) ∧
      after.Holds 1000
        (['-', '2', '1', '4', '7', '4', '8', '3', '6', '4', '8'].map
          ascii) := by
  have word : mostNegative.loadWord 204 = 2147483648 := by decide
  obtain ⟨text, after, length, expands, returned, held⟩ :=
    @vsprintf_expands mostNegative 1000 12 100 200 [ascii '%', ascii 'd']
      [.number 0x80000000#32]
      { notNull := by decide
        inSpace := by decide
        string := ⟨⟨rfl, rfl, rfl, True.intro⟩, by decide, by decide⟩
        outside := Or.inl (by decide)
        wellFormed := wellFormed_single (by decide)
        kinds := .cons (.decimal _) .nil
        passed := ⟨by decide, Or.inl (by decide), word, True.intro⟩
        fits := by
          intro text expands
          rw [expands_mostNegative expands]
          decide }
  rw [expands_mostNegative expands] at held
  exact ⟨after, length, returned, held⟩

end Simos
