import Mathlib.Data.List.TakeWhile
import Simos.Stdio.Terminator

/-!
# `printk` and `printf` (`lib/kernel/kstdio.c`, `lib/stdio.c`)

Both format into a buffer on the stack that starts out as zeros, and print the
string that is then in it: `printk` with `console_str`, `printf` with the
system call `write`.  What the console gets is the list of the characters that
`put_str` passes to `put_char`.

The zeros make up for the terminator that `vsprintf` does not store:
`printf_prints` needs no condition on the format but that its text fits.
-/

namespace Simos

open Simos.Library

@[irreducible] def maxBuffer : Nat := 1024

/-- The loop of `put_str`: the characters that it passes to `put_char`. -/
def putStr (memory : ByteMemory) : Nat → Nat → Call (List (BitVec 8))
  | 0, _ => .error .diverges
  | fuel + 1, str => do
      if memory.byte str = 0 then
        return []
      else
        let rest ← putStr memory fuel (u32 (str + 1))
        return memory.byte str :: rest

/-- `sys_write`: what it prints and the value it returns. -/
def sysWrite (fuel : Nat) (memory : ByteMemory) (str : Nat) :
    Call (List (BitVec 8) × Nat) := do
  let printed ← putStr memory fuel str
  let length ← strlen fuel memory str
  return (printed, length)

/-- `char res_buf[MAX_BUFFER] = {0}` -/
def zeroBuffer (memory : ByteMemory) (resBuf : Nat) : ByteMemory :=
  memory.storeBytes resBuf (List.replicate maxBuffer 0)

/-- The part that `printk` and `printf` share: the memory with the formatted
text.  `args` points to the parameter `format` on the stack. -/
def formatBuffer (fuel : Nat) (memory : ByteMemory) (resBuf args : Nat) :
    Call ByteMemory := do
  let (memory, _) ←
    vsprintf fuel (zeroBuffer memory resBuf) resBuf (memory.loadWord args) args
  return memory

/-- `printk`: what it prints. -/
def printk (fuel : Nat) (memory : ByteMemory) (resBuf args : Nat) :
    Call (List (BitVec 8)) := do
  let memory ← formatBuffer fuel memory resBuf args
  putStr memory fuel resBuf

/-- `printf`: what it prints and the value it returns. -/
def printf (fuel : Nat) (memory : ByteMemory) (resBuf args : Nat) :
    Call (List (BitVec 8) × Nat) := do
  let memory ← formatBuffer fuel memory resBuf args
  sysWrite fuel memory resBuf

/-! ## Strings in the buffer -/

section Strings

variable {memory : ByteMemory} {text : List (BitVec 8)}

private theorem cString_takeWhile {address : Nat}
    (holds : memory.Holds address (text ++ [0]))
    (inSpace : address + text.length < 4294967296) :
    memory.CString address (text.takeWhile (· ≠ 0)) := by
  induction text generalizing address with
  | nil =>
      exact ⟨holds, List.not_mem_nil, inSpace⟩
  | cons value rest inductionHypothesis =>
      rw [List.length_cons] at inSpace
      by_cases zero : value = 0
      · subst zero
        have stops : (0 :: rest : List (BitVec 8)).takeWhile (· ≠ 0) = [] := by
          simp
        rw [stops]
        exact ⟨⟨holds.1, trivial⟩, List.not_mem_nil, by simp; omega⟩
      · have string := inductionHypothesis holds.2 (by omega)
        have goesOn : (value :: rest).takeWhile (· ≠ 0) =
            value :: rest.takeWhile (· ≠ 0) :=
          List.takeWhile_cons_of_pos (decide_eq_true zero)
        rw [goesOn]
        refine ⟨⟨holds.1, string.holds⟩, ?_, ?_⟩
        · rw [List.mem_cons, not_or]
          exact ⟨Ne.symm zero, string.nonzero⟩
        · have rest := string.inSpace
          rw [List.length_cons]
          omega

theorem putStr_eq {fuel str : Nat} (string : memory.CString str text)
    (enough : text.length < fuel) : putStr memory fuel str = .ok text := by
  induction text generalizing fuel str with
  | nil =>
      obtain ⟨fuel, rfl⟩ := Nat.exists_eq_succ_of_ne_zero (by omega : fuel ≠ 0)
      have ends : memory.byte str = 0 := string.terminator
      rw [putStr, if_pos ends]
      rfl
  | cons value rest inductionHypothesis =>
      obtain ⟨fuel, rfl⟩ := Nat.exists_eq_succ_of_ne_zero (by omega : fuel ≠ 0)
      rw [List.length_cons] at enough
      have bound := string.inSpace
      rw [List.length_cons] at bound
      have goesOn : memory.byte str ≠ 0 := by
        rw [string.head]
        exact fun same => string.nonzero (by simp [same])
      have later := inductionHypothesis string.tail
        (show rest.length < fuel by omega)
      rw [putStr, if_neg goesOn, u32_of_lt (by omega), later, string.head]
      rfl

end Strings

/-! ## A call -/

private theorem byte_zeroBuffer_of_outside {memory : ByteMemory}
    {resBuf address : Nat}
    (outside : address < resBuf ∨ resBuf + maxBuffer ≤ address) :
    (zeroBuffer memory resBuf).byte address = memory.byte address := by
  unfold zeroBuffer
  generalize isZeros : List.replicate maxBuffer (0 : BitVec 8) = zeros
  have length : zeros.length = maxBuffer := by
    rw [← isZeros, List.length_replicate]
  apply ByteMemory.byte_storeBytes_of_outside
  rwa [length]

private theorem byte_zeroBuffer {memory : ByteMemory} {resBuf index : Nat}
    (inside : index < maxBuffer) :
    (zeroBuffer memory resBuf).byte (resBuf + index) = 0 := by
  have zeros := ByteMemory.holds_storeBytes memory resBuf
    (List.replicate maxBuffer (0 : BitVec 8))
  have zero := zeros.byte_eq (by rwa [List.length_replicate])
  rwa [List.getElem_replicate] at zero

private theorem FormatCall.zeroed {memory : ByteMemory}
    {resBuf formatPtr ap : Nat} {format : List (BitVec 8)}
    {args : List Argument}
    (call : FormatCall memory resBuf maxBuffer formatPtr ap format args) :
    FormatCall (zeroBuffer memory resBuf) resBuf maxBuffer formatPtr ap format
      args := by
  have agree : ∀ address, address < resBuf ∨ resBuf + maxBuffer ≤ address →
      (zeroBuffer memory resBuf).byte address = memory.byte address :=
    fun address outside => byte_zeroBuffer_of_outside outside
  exact { call with
    string := cString_of_outsideBuffer agree call.string call.outside
    passed := call.passed.congr agree }

private theorem formatBuffer_holds {memory : ByteMemory} {resBuf ap : Nat}
    {format : List (BitVec 8)} {args : List Argument}
    (call : FormatCall memory resBuf maxBuffer (memory.loadWord ap) ap format
      args) :
    ∃ text after, Expands format args text ∧ text.length < maxBuffer ∧
      Returns (fun fuel => formatBuffer fuel memory resBuf ap) after ∧
      after.Holds resBuf (text ++ [0]) := by
  obtain ⟨text, length, expands, -, bound, returned⟩ := call.zeroed.returns
  have fits := call.fits text expands
  have returned : ∀ fuel, bound ≤ fuel →
      vsprintf fuel (zeroBuffer memory resBuf) resBuf (memory.loadWord ap) ap =
        .ok ((zeroBuffer memory resBuf).storeBytes resBuf
          (text ++ terminator format), length) := returned
  refine ⟨text, (zeroBuffer memory resBuf).storeBytes resBuf
    (text ++ terminator format), expands, fits, ⟨bound, ?_⟩, ?_⟩
  · intro fuel enough
    simp only [formatBuffer, returned fuel enough]
    rfl
  · rw [ByteMemory.holds_append]
    constructor
    · exact (ByteMemory.holds_append.mp
        (ByteMemory.holds_storeBytes _ resBuf (text ++ terminator format))).1
    · refine ⟨?_, trivial⟩
      rw [FormatCall.byte_behind]
      exact Or.inr (byte_zeroBuffer fits)

/-- `printk` and `printf` print the text that the format stands for with its
arguments, up to the first zero byte that a `%c` may have put into it, and
`printf` returns the number of these characters. -/
theorem printf_prints {memory : ByteMemory} {resBuf ap : Nat}
    {format : List (BitVec 8)} {args : List Argument}
    (call : FormatCall memory resBuf maxBuffer (memory.loadWord ap) ap format
      args) :
    ∃ text, Expands format args text ∧
      Returns (fun fuel => printk fuel memory resBuf ap)
        (text.takeWhile (· ≠ 0)) ∧
      Returns (fun fuel => printf fuel memory resBuf ap)
        (text.takeWhile (· ≠ 0), (text.takeWhile (· ≠ 0)).length) ∧
      ((∀ ch, Argument.character ch ∈ args → ch ≠ 0) →
        text.takeWhile (· ≠ 0) = text) := by
  obtain ⟨text, after, expands, fits, ⟨bound, formats⟩, holds⟩ :=
    formatBuffer_holds call
  have inSpace := call.inSpace
  have string := cString_takeWhile holds (by omega)
  have short := (List.takeWhile_sublist (fun ch : BitVec 8 => decide (ch ≠ 0))
    (l := text)).length_le
  have prints : ∀ fuel, bound + maxBuffer ≤ fuel →
      putStr after fuel resBuf = .ok (text.takeWhile (· ≠ 0)) := by
    intro fuel enough
    exact putStr_eq string (by omega)
  refine ⟨text, expands, ⟨bound + maxBuffer, ?_⟩, ⟨bound + maxBuffer, ?_⟩, ?_⟩
  · intro fuel enough
    simp only [printk, formats fuel (by omega), Call.ok_bind,
      prints fuel enough]
  · intro fuel enough
    simp only [printf, sysWrite, formats fuel (by omega), Call.ok_bind,
      prints fuel enough, strlen_eq string call.notNull
        (show (text.takeWhile (· ≠ 0)).length < fuel by omega),
      Call.pure_eq_ok]
  · intro visible
    have nonzero := expands.nonzero call.string.nonzero call.passed visible
    rw [List.takeWhile_eq_self_iff]
    intro ch member
    exact decide_eq_true fun zero => nonzero (zero ▸ member)

/-- `"%d-%s"` at address 100, its address at 200 and the arguments -12 and
`"ok"` above it; the buffer at 1000 holds no zero byte. -/
def dirtyStack : ByteMemory where
  byte address :=
    if 1000 ≤ address then 1
    else if 300 ≤ address then
      (['o', 'k'].map ascii).getD (address - 300) 0
    else if 200 ≤ address then
      ([100, 0, 0, 0, 0xf4, 0xff, 0xff, 0xff, 0x2c, 1] :
        List (BitVec 8)).getD (address - 200) 0
    else if 100 ≤ address then
      (['%', 'd', '-', '%', 's'].map ascii).getD (address - 100) 0
    else 0

private theorem expands_dirtyStack {text : List (BitVec 8)}
    (expands : Expands (['%', 'd', '-', '%', 's'].map ascii)
      [.number (-12), .text (['o', 'k'].map ascii)] text) :
    text = ['-', '1', '2', '-', 'o', 'k'].map ascii := by
  have twelve : numeral 10 12 = [1, 2] := by
    have shown : IsNumeral 10 12 [1, 2] := by
      refine ⟨by decide, by decide, by decide, ?_⟩
      simp [Nat.ofDigits_cons]
    exact (shown.eq_numeral (by decide)).symm
  cases expands with
  | literal percent => exact absurd rfl percent
  | specifier number rest =>
      cases rest with
      | literal _ rest =>
          cases rest with
          | literal percent => exact absurd rfl percent
          | specifier word rest =>
              cases rest
              have sign : (-12 : BitVec 32).toInt < 0 := by decide
              have magnitude : (-12 : BitVec 32).toInt.natAbs = 12 := by
                decide
              rw [number.negative_eq rfl rfl sign, word.string_eq rfl,
                magnitude, twelve]
              decide

private theorem dirtyStack_call :
    FormatCall dirtyStack 1000 maxBuffer (dirtyStack.loadWord 200) 200
      (['%', 'd', '-', '%', 's'].map ascii)
      [.number (-12), .text (['o', 'k'].map ascii)] where
  notNull := by decide
  inSpace := by
    rw [maxBuffer]
    decide
  string := ⟨⟨rfl, rfl, rfl, rfl, rfl, rfl, True.intro⟩, by decide, by decide⟩
  outside := Or.inl (by decide)
  wellFormed := ((WellFormed.nil.specifier (by decide)).literal
    (by decide)).specifier (by decide)
  kinds := .cons (.decimal _) (.cons (.string _) .nil)
  passed := by
    have number : dirtyStack.loadWord 204 = (-12 : BitVec 32).toNat := by
      decide
    have word : dirtyStack.loadWord 208 = 300 := by decide
    refine ⟨by decide, Or.inl (by decide), number, by decide,
      Or.inl (by decide), ?_, True.intro⟩
    rw [Argument.InSlot, word]
    exact ⟨by decide, ⟨⟨rfl, rfl, rfl, True.intro⟩, by decide, by decide⟩,
      Or.inl (by decide)⟩
  fits := by
    intro text expands
    rw [expands_dirtyStack expands, maxBuffer]
    decide

theorem printf_prints_dirtyStack :
    Returns (fun fuel => printk fuel dirtyStack 1000 200)
        (['-', '1', '2', '-', 'o', 'k'].map ascii) ∧
      Returns (fun fuel => printf fuel dirtyStack 1000 200)
        (['-', '1', '2', '-', 'o', 'k'].map ascii, 6) := by
  obtain ⟨text, expands, printkReturns, printfReturns, whole⟩ :=
    printf_prints dirtyStack_call
  have visible := whole (by simp)
  rw [visible, expands_dirtyStack expands] at printkReturns printfReturns
  exact ⟨printkReturns, printfReturns⟩

end Simos
