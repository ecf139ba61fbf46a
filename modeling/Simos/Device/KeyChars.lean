import Simos.Device.KeyStatus

/-!
# The characters of the keyboard (`device/keyboard.c`, `key_output`)

`keyboard_service` calls `key_output` for every byte below `0x80`, in whatever
state, and `key_output` reads the row of that byte and appends what it finds.

* `keyboardService_eq` splits the service into the change of the status and the
  call of `key_output`;
* `keysTyped_exact_iff`: the bytes for which the characters are those of the
  table.
-/

namespace Simos

open Simos.Library

/-- The character that a make code stands for: its row of `keymap`, read in the
column that shift and caps lock choose. -/
def keymapEntry (shift capsLock : Bool) (code : Nat) : Option UInt8 :=
  match keymap[code]? with
  | some (plain, shifted) =>
      let ch := if shift = capsLock then plain else shifted
      if ch = 0 then none else some ch
  | none => none

def hasCharacter (code : Nat) : Bool :=
  match keymap[code]? with
  | some (plain, _) => plain ≠ 0
  | none => false

def expectedChars : BitVec 8 → List Nat → List UInt8
  | _, [] => []
  | status, byte :: bytes =>
      (if byte < 0x80 then
        (keymapEntry (status.getLsbD 0 || status.getLsbD 3) (status.getLsbD 6)
          byte).toList
      else
        []) ++ expectedChars (statusAfter status byte) bytes

/-- The code with which `keyboard_service` calls `key_output`. -/
def outputCode (status : BitVec 8) (byte : Nat) : Option Nat :=
  if byte = 0xe0 then
    none
  else
    let scancode := if status &&& 0x80 ≠ 0 then byte + 0xe000 else byte
    if (scancode &&& 0x00ff) >>> 7 = 0 then some (scancode &&& 0x00ff) else none

private theorem outputCode_eq (status : BitVec 8) {byte : Nat}
    (isByte : byte < 256) :
    outputCode status byte = if byte < 0x80 then some byte else none := by
  have decoded : ∀ byte < 256, ∀ pending : Bool,
      (if byte = 0xe0 then
        none
      else
        let scancode := if pending then byte + 0xe000 else byte
        if (scancode &&& 0x00ff) >>> 7 = 0 then some (scancode &&& 0x00ff)
        else none) = if byte < 0x80 then some byte else none := by
    decide +kernel
  have here := decoded byte isByte (decide (status &&& 0x80 ≠ 0))
  simp only [decide_eq_true_eq] at here
  exact here

/-- The service is the change of the status and the call of `key_output`. -/
theorem keyboardService_eq {beyond : Nat → Nat → UInt8} (s : KbdUse)
    (cur : Nat) {byte : Nat} :
    keyboardService beyond s cur byte =
      match outputCode s.gKeyStatus byte with
      | none => .ok ⟨statusAfter s.gKeyStatus byte, s.kbdBuff⟩
      | some keyCode => do
          let kbdBuff ← keyOutput beyond s.kbdBuff cur keyCode
            (statusAfter s.gKeyStatus byte)
          return ⟨statusAfter s.gKeyStatus byte, kbdBuff⟩ := by
  have decoded : ∀ (status : BitVec 8) (scancode : Nat),
      scancodeService beyond ⟨status, s.kbdBuff⟩ cur scancode =
        match (if (scancode &&& 0x00ff) >>> 7 = 0 then
          some (scancode &&& 0x00ff) else none) with
        | none => .ok ⟨keySwitch status scancode, s.kbdBuff⟩
        | some keyCode => do
            let kbdBuff ← keyOutput beyond s.kbdBuff cur keyCode
              (keySwitch status scancode)
            return ⟨keySwitch status scancode, kbdBuff⟩ := by
    intro status scancode
    unfold scancodeService
    by_cases make : (scancode &&& 0x00ff) >>> 7 = 0
    · simp only [if_pos make]
    · simp only [if_neg make]
      rfl
  unfold keyboardService outputCode statusAfter
  by_cases isPrefix : byte = 0xe0
  · simp only [if_pos isPrefix]
    rfl
  · simp only [if_neg isPrefix]
    by_cases pending : s.gKeyStatus &&& 0x80 ≠ 0
    · simp only [if_pos pending]
      exact decoded _ _
    · simp only [if_neg pending]
      exact decoded _ _

/-! ## One byte -/

theorem getBit_flags (status : BitVec 8) :
    (getBit status 0 ||| getBit status 3 ≠ 0 ↔
        (status.getLsbD 0 || status.getLsbD 3) = true) ∧
      (getBit status 6 ≠ 0 ↔ status.getLsbD 6 = true) := by
  revert status
  decide +kernel

/-- Every row of the table has a character in both columns or in none. -/
theorem keymap_rows (row : UInt8 × UInt8) (member : row ∈ keymap) :
    row.1 ≠ 0 ↔ row.2 ≠ 0 := by
  have all : keymap.all (fun row => decide (row.1 ≠ 0 ↔ row.2 ≠ 0)) = true := by
    decide
  exact of_decide_eq_true (List.all_eq_true.mp all row member)

private theorem not_hasCharacter_modifiers :
    hasCharacter ctrlLMake = false ∧ hasCharacter altLMake = false ∧
      hasCharacter shiftLMake = false ∧ hasCharacter shiftRMake = false ∧
      hasCharacter capsLockMake = false := by
  decide

private theorem keymapEntry_isSome (shift capsLock : Bool) (code : Nat) :
    (keymapEntry shift capsLock code).isSome = hasCharacter code := by
  unfold keymapEntry hasCharacter
  cases found : keymap[code]? with
  | none => rfl
  | some row =>
      obtain ⟨plain, shifted⟩ := row
      have both := keymap_rows (plain, shifted) (List.mem_of_getElem? found)
      simp only at both
      by_cases column : shift = capsLock
      · by_cases empty : plain = 0 <;> simp [column, empty]
      · by_cases empty : shifted = 0
        · have plainEmpty : plain = 0 := by
            by_contra nonzero
            exact both.mp nonzero empty
          simp [column, empty, plainEmpty]
        · simp [column, empty, both.mpr empty]

theorem keyChar_eq {beyond : Nat → Nat → UInt8} {status : BitVec 8}
    {code : Nat} (character : hasCharacter code = true) :
    keymapEntry (status.getLsbD 0 || status.getLsbD 3) (status.getLsbD 6)
      code = some (keyChar beyond code status) := by
  obtain ⟨shift, capsLock⟩ := getBit_flags status
  unfold keyChar keymapEntry keymapAt
  unfold hasCharacter at character
  simp only [shift, capsLock]
  cases found : keymap[code]? with
  | none => simp [found] at character
  | some row =>
      obtain ⟨plain, shifted⟩ := row
      have plainChar : plain ≠ 0 := by
        simpa [found] using character
      have shiftedChar : shifted ≠ 0 :=
        (keymap_rows (plain, shifted) (List.mem_of_getElem? found)).mp plainChar
      simp only
      cases (status.getLsbD 0 || status.getLsbD 3) <;>
        cases status.getLsbD 6 <;> simp [plainChar, shiftedChar]

theorem hasCharacter_lt {code : Nat} (character : hasCharacter code = true) :
    code < keymap.length := by
  unfold hasCharacter at character
  cases found : keymap[code]? with
  | none => simp [found] at character
  | some row => exact (List.getElem?_eq_some_iff.mp found).1

private theorem keySwitch_hasCharacter (status : BitVec 8) {byte scancode : Nat}
    (character : hasCharacter byte = true)
    (low : scancode &&& 0x00ff = byte) :
    keySwitch status scancode = status := by
  have inside : byte < 0x54 := hasCharacter_lt character
  obtain ⟨ctrl, alt, left, right, caps⟩ := not_hasCharacter_modifiers
  have apart : ∀ code, hasCharacter code = false → byte ≠ code := by
    rintro code empty rfl
    rw [character] at empty
    cases empty
  unfold keySwitch
  simp only [low]
  rw [if_neg (apart _ ctrl), if_neg (apart _ alt), if_neg (apart _ left),
    if_neg (apart _ right), if_neg (apart _ caps)]
  unfold ctrlLBreak altLBreak shiftLBreak shiftRBreak
  rw [if_neg (by omega), if_neg (by omega), if_neg (by omega),
    if_neg (by omega)]

theorem statusAfter_flags {status : BitVec 8} {byte tested : Nat}
    (character : hasCharacter byte = true) (inside : tested < 7) :
    (statusAfter status byte).getLsbD tested = status.getLsbD tested := by
  have small : byte < 0x54 := hasCharacter_lt character
  have low : ∀ byte < 0x54, byte &&& 0x00ff = byte ∧
      (byte + 0xe000) &&& 0x00ff = byte := by
    decide
  unfold statusAfter
  rw [if_neg (by omega)]
  split
  · rw [keySwitch_hasCharacter _ character (low byte small).2,
      getLsbD_clearBit _ (by omega)]
    have notPrefix : tested ≠ 7 := by
      omega
    simp [notPrefix]
  · rw [keySwitch_hasCharacter _ character (low byte small).1]

/-! ## Sequences of bytes -/

def KeyInterrupt.HasRoom (interrupt : KeyInterrupt) : Prop :=
  interrupt.kbdBuff.ioq.Inside ∧ ioqFull interrupt.kbdBuff.ioq = false

/-- A sequence of interrupts reads these rows of `keymap` and appends these
characters to the buffer. -/
inductive KeysTyped (beyond : Nat → Nat → UInt8) :
    BitVec 8 → List KeyInterrupt → List Nat → List UInt8 → Prop
  | stop (status : BitVec 8) : KeysTyped beyond status [] [] []
  | next {status : BitVec 8} {interrupt : KeyInterrupt}
      {interrupts : List KeyInterrupt} {s' : KbdUse} {rows : List Nat}
      {typed chars : List UInt8} :
      keyboardService beyond ⟨status, interrupt.kbdBuff⟩ interrupt.cur
        interrupt.byte = .ok s' →
      s'.kbdBuff.ioq.stored = interrupt.kbdBuff.ioq.stored ++ typed →
      KeysTyped beyond s'.gKeyStatus interrupts rows chars →
      KeysTyped beyond status (interrupt :: interrupts)
        ((outputCode status interrupt.byte).toList ++ rows) (typed ++ chars)

section Typed

variable {beyond : Nat → Nat → UInt8}

theorem keyboardService_types {status : BitVec 8} {interrupt : KeyInterrupt}
    {s' : KbdUse} (room : interrupt.HasRoom)
    (served : keyboardService beyond ⟨status, interrupt.kbdBuff⟩ interrupt.cur
      interrupt.byte = .ok s') :
    s'.gKeyStatus = statusAfter status interrupt.byte ∧
      s'.kbdBuff.ioq.stored = interrupt.kbdBuff.ioq.stored ++
        if interrupt.byte < 0x80 then
          [keyChar beyond interrupt.byte (statusAfter status interrupt.byte)]
        else
          [] := by
  have status' := keyboardService_status served
  refine ⟨status', ?_⟩
  rw [keyboardService_eq] at served
  simp only [outputCode_eq status interrupt.isByte] at served
  by_cases make : interrupt.byte < 0x80
  · simp only [if_pos make, Call.bind_eq_ok_iff, Call.pure_eq_ok,
      Except.ok.injEq] at served
    obtain ⟨kbdBuff, output, rfl⟩ := served
    unfold keyOutput at output
    simp only [if_pos room.2, Call.bind_eq_ok_iff, Call.pure_eq_ok,
      Except.ok.injEq] at output
    obtain ⟨⟨next, ending⟩, put, rfl⟩ := output
    have moved := IoqUse.callFrom_moves room.1 put
    have ended : ending = .putchar (keyChar beyond interrupt.byte
        (statusAfter status interrupt.byte)) := by
      simp only [IoqUse.ioqPutchar, IoqUse.callFrom, IoqUse.fromTest,
        Ioqueue.mustWait, room.2, Bool.false_eq_true, if_false, IoqUse.callEnd,
        IoqUse.putcharEnd, Call.bind_eq_ok_iff, Call.pure_eq_ok,
        Except.ok.injEq, Prod.mk.injEq] at put
      obtain ⟨-, -, -, ended⟩ := put
      exact ended.symm
    rw [if_pos make]
    have stored := moved.2
    rw [ended] at stored
    exact stored
  · simp only [if_neg make, Except.ok.injEq] at served
    rw [← served, if_neg make, List.append_nil]

theorem KeysTyped.rows_eq {status : BitVec 8} {interrupts : List KeyInterrupt}
    {rows : List Nat} {chars : List UInt8}
    (typed : KeysTyped beyond status interrupts rows chars) :
    rows = (interrupts.map KeyInterrupt.byte).filter (· < 0x80) := by
  induction typed with
  | stop status => rfl
  | @next status interrupt interrupts s' rows typed chars _ _ _
      inductionHypothesis =>
      rw [inductionHypothesis, outputCode_eq _ interrupt.isByte, List.map_cons]
      by_cases make : interrupt.byte < 0x80 <;> simp [make]

theorem KeysTyped.length {status : BitVec 8} {interrupts : List KeyInterrupt}
    {rows : List Nat} {chars : List UInt8}
    (typed : KeysTyped beyond status interrupts rows chars)
    (room : ∀ interrupt ∈ interrupts, interrupt.HasRoom) :
    chars.length =
      ((interrupts.map KeyInterrupt.byte).filter (· < 0x80)).length := by
  induction typed with
  | stop status => rfl
  | @next status interrupt interrupts s' rows typed chars served stored _
      inductionHypothesis =>
      have rest := inductionHypothesis fun later member =>
        room later (List.mem_cons_of_mem _ member)
      have appended :=
        (keyboardService_types (room interrupt List.mem_cons_self) served).2
      rw [stored, List.append_cancel_left_eq] at appended
      rw [appended, List.map_cons, List.length_append, rest]
      by_cases make : interrupt.byte < 0x80
      · simp [make]
        omega
      · simp [make]

/-- The expected characters are those of the make codes that have one. -/
theorem expectedChars_length (bytes : List Nat) (status : BitVec 8) :
    (expectedChars status bytes).length =
      (bytes.filter (· < 0x80)).countP hasCharacter := by
  induction bytes generalizing status with
  | nil => rfl
  | cons byte bytes inductionHypothesis =>
      rw [expectedChars, List.length_append, inductionHypothesis]
      by_cases make : byte < 0x80
      · have entry := keymapEntry_isSome
          (status.getLsbD 0 || status.getLsbD 3) (status.getLsbD 6) byte
        rw [if_pos make, List.filter_cons_of_pos (by simpa using make),
          List.countP_cons, ← entry]
        cases keymapEntry (status.getLsbD 0 || status.getLsbD 3)
          (status.getLsbD 6) byte with
        | none => simp
        | some ch =>
            simp
            omega
      · rw [if_neg make, List.filter_cons_of_neg (by simpa using make)]
        simp

/-- When every make code has a character, the characters are those of the
table. -/
theorem KeysTyped.chars_eq {status : BitVec 8} {interrupts : List KeyInterrupt}
    {rows : List Nat} {chars : List UInt8}
    (typed : KeysTyped beyond status interrupts rows chars)
    (room : ∀ interrupt ∈ interrupts, interrupt.HasRoom)
    (character : ∀ interrupt ∈ interrupts,
      interrupt.byte < 0x80 → hasCharacter interrupt.byte = true) :
    chars = expectedChars status (interrupts.map KeyInterrupt.byte) := by
  induction typed with
  | stop status => rfl
  | @next status interrupt interrupts s' rows typed chars served stored _
      inductionHypothesis =>
      obtain ⟨status', appended⟩ :=
        keyboardService_types (room interrupt List.mem_cons_self) served
      have rest := inductionHypothesis
        (fun later member => room later (List.mem_cons_of_mem _ member))
        (fun later member => character later (List.mem_cons_of_mem _ member))
      rw [stored, List.append_cancel_left_eq] at appended
      rw [appended, rest, status', List.map_cons, expectedChars]
      by_cases make : interrupt.byte < 0x80
      · have hasOne := character interrupt List.mem_cons_self make
        have flags := fun {tested : Nat} (inside : tested < 7) =>
          @statusAfter_flags status _ _ hasOne inside
        have entry := @keyChar_eq beyond
          (statusAfter status interrupt.byte) _ hasOne
        rw [flags (by decide), flags (by decide), flags (by decide)] at entry
        rw [if_pos make, if_pos make, entry]
        rfl
      · rw [if_neg make, if_neg make]

theorem keysTyped_exists :
    ∀ (interrupts : List KeyInterrupt) (status : BitVec 8),
      (∀ interrupt ∈ interrupts, interrupt.HasRoom) →
      (∀ interrupt ∈ interrupts, interrupt.kbdBuff.ReaderSleeps) →
      ∃ rows chars, KeysTyped beyond status interrupts rows chars
  | [], status, _, _ => ⟨[], [], .stop status⟩
  | interrupt :: interrupts, status, room, sleeps => by
      obtain ⟨s', served⟩ := @keyboardService_returns beyond
        ⟨status, interrupt.kbdBuff⟩ (sleeps interrupt (by simp))
        interrupt.cur interrupt.byte
      obtain ⟨rows, chars, rest⟩ := keysTyped_exists interrupts s'.gKeyStatus
        (fun later member => room later (by simp [member]))
        (fun later member => sleeps later (by simp [member]))
      exact ⟨_, _, .next served
        (keyboardService_types (room interrupt (by simp)) served).2 rest⟩

end Typed

/-- The rows are those of the table and the characters are the expected ones
exactly when every make code that arrives has a character. -/
theorem keysTyped_exact_iff {beyond : Nat → Nat → UInt8} {status : BitVec 8}
    {interrupts : List KeyInterrupt} {rows : List Nat} {chars : List UInt8}
    (room : ∀ interrupt ∈ interrupts, interrupt.HasRoom)
    (typed : KeysTyped beyond status interrupts rows chars) :
    ((∀ row ∈ rows, row < keymap.length) ∧
        chars = expectedChars status (interrupts.map KeyInterrupt.byte)) ↔
      ∀ interrupt ∈ interrupts,
        interrupt.byte < 0x80 → hasCharacter interrupt.byte = true := by
  constructor
  · rintro ⟨-, same⟩ interrupt member make
    -- as many make codes with a character as there are make codes
    have counted := congrArg List.length same
    rw [typed.length room, expectedChars_length] at counted
    have all := List.countP_eq_length.mp counted.symm
    exact all interrupt.byte (List.mem_filter.mpr
      ⟨List.mem_map_of_mem member, by simpa using make⟩)
  · intro character
    refine ⟨fun row member => ?_, typed.chars_eq room character⟩
    rw [typed.rows_eq] at member
    obtain ⟨arrived, make⟩ := List.mem_filter.mp member
    obtain ⟨interrupt, here, rfl⟩ := List.mem_map.mp arrived
    exact hasCharacter_lt (character interrupt here (by simpa using make))

section Keys

variable (bytes : List { byte : Nat // byte < 256 })

def idleInterrupts : List KeyInterrupt :=
  bytes.map fun byte => idleInterrupt byte.1 byte.2

private theorem idleInterrupts_room :
    ∀ interrupt ∈ idleInterrupts bytes, interrupt.HasRoom := by
  intro interrupt member
  obtain ⟨byte, -, rfl⟩ := List.mem_map.mp member
  exact ⟨Ioqueue.init_inside _, rfl⟩

private theorem idleInterrupts_typed (status : BitVec 8) :
    ∃ rows chars, KeysTyped (fun _ _ => 0) status (idleInterrupts bytes) rows
      chars := by
  apply keysTyped_exists _ _ (idleInterrupts_room bytes)
  intro interrupt member
  obtain ⟨byte, -, rfl⟩ := List.mem_map.mp member
  intro registered
  exact absurd rfl registered

end Keys

def shiftedKey : List KeyInterrupt :=
  idleInterrupts [⟨0x2a, by decide⟩, ⟨0x1e, by decide⟩]

/-- The statement at these keys. -/
theorem keysTyped_exact_iff_shifted :
    ∃ rows chars, KeysTyped (fun _ _ => 0) 0 shiftedKey rows chars ∧
      (((∀ row ∈ rows, row < keymap.length) ∧
          chars = expectedChars 0 (shiftedKey.map KeyInterrupt.byte)) ↔
        ∀ interrupt ∈ shiftedKey,
          interrupt.byte < 0x80 → hasCharacter interrupt.byte = true) := by
  obtain ⟨rows, chars, typed⟩ := idleInterrupts_typed _ 0
  exact ⟨rows, chars, typed,
    keysTyped_exact_iff (idleInterrupts_room _) typed⟩

/-- Shift and `a` append two characters, where `A` is expected, and F11 reads a
row behind the table. -/
theorem keysTyped_nul_and_beyond :
    (∃ rows chars, KeysTyped (fun _ _ => 0) 0 shiftedKey rows chars ∧
        chars.length = 2 ∧
        expectedChars 0 (shiftedKey.map KeyInterrupt.byte) = [65]) ∧
      ∃ rows chars,
        KeysTyped (fun _ _ => 0) 0 (idleInterrupts [⟨0x57, by decide⟩]) rows
          chars ∧
        0x57 ∈ rows ∧ keymap.length ≤ 0x57 := by
  obtain ⟨rows, chars, typed⟩ :=
    idleInterrupts_typed [⟨0x2a, by decide⟩, ⟨0x1e, by decide⟩] 0
  obtain ⟨rows', chars', typed'⟩ :=
    idleInterrupts_typed [⟨0x57, by decide⟩] 0
  refine ⟨⟨rows, chars, typed, ?_, by decide +kernel⟩, rows', chars', typed',
    ?_, by decide⟩
  · rw [typed.length (idleInterrupts_room _)]
    rfl
  · rw [typed'.rows_eq]
    decide

end Simos
