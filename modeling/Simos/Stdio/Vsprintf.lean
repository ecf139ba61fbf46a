import Simos.Library.Numerals
import Simos.Stdio.Strings

/-!
# `vsprintf` (`lib/stdio.c`)

`itoa`, `vsprintf` and `sprintf` on a memory of bytes.  The local variables of
`vsprintf` are the fields of `Vsprintf`; a run of its loop carries fuel, as do
the recursion of `itoa` and the loops of `strcpy` and `strlen`.
-/

namespace Simos

open Simos.Library

def ascii (ch : Char) : BitVec 8 :=
  BitVec.ofNat 8 ch.toNat

/-- `itoa` is called with the radix 10 and 16 only, so the division does not
trap.  The result is the memory and `*buf`. -/
def itoa : Nat → ByteMemory → Nat → Nat → Nat → Call (ByteMemory × Nat)
  | 0, _, _, _, _ => .error .diverges
  | fuel + 1, memory, value, buf, radix => do
      let m := value % radix
      let i := value / radix
      let (memory, buf) ←
        if i ≠ 0 then itoa fuel memory i buf radix else pure (memory, buf)
      let ch := if m < 10 then m + '0'.toNat else m - 10 + 'A'.toNat
      return (memory.storeByte buf (BitVec.ofNat 8 ch), u32 (buf + 1))

structure Vsprintf where
  memory : ByteMemory
  bufPtr : Nat
  indexPtr : Nat
  indexChar : BitVec 8
  ap : Nat

namespace Vsprintf

/-- `index_char = *(++index_ptr)` -/
def next (s : Vsprintf) : Vsprintf :=
  { s with
    indexPtr := u32 (s.indexPtr + 1)
    indexChar := s.memory.byte (u32 (s.indexPtr + 1)) }

/-- `*(buf_ptr++) = ch` -/
def put (s : Vsprintf) (ch : BitVec 8) : Vsprintf :=
  { s with
    memory := s.memory.storeByte s.bufPtr ch
    bufPtr := u32 (s.bufPtr + 1) }

/-- `ap += 4`, the first half of `va_arg`. -/
def vaArg (s : Vsprintf) : Vsprintf :=
  { s with ap := u32 (s.ap + 4) }

/-- `itoa(value, &buf_ptr, radix)` -/
def putNumber (s : Vsprintf) (fuel value radix : Nat) : Call Vsprintf := do
  let (memory, bufPtr) ← itoa fuel s.memory value s.bufPtr radix
  return { s with memory, bufPtr }

/-- The `switch` on the character behind `%`. -/
def convert (s : Vsprintf) (fuel : Nat) : Call Vsprintf :=
  if s.indexChar = ascii 'x' then do
    let s := s.vaArg
    let s ← s.putNumber fuel (s.memory.loadWord s.ap) 16
    return s.next
  else if s.indexChar = ascii 's' then do
    let s := s.vaArg
    let argStr := s.memory.loadWord s.ap
    let memory ← strcpy fuel s.memory s.bufPtr argStr
    let length ← strlen fuel memory argStr
    return { s with memory, bufPtr := u32 (s.bufPtr + length) }.next
  else if s.indexChar = ascii 'c' then
    let s := s.vaArg
    return (s.put (s.memory.byte s.ap)).next
  else if s.indexChar = ascii 'd' then
    let s := s.vaArg
    let argInt := s.memory.loadWord s.ap
    -- the word is a negative `int32_t`
    if 2147483648 ≤ argInt then do
      let s ← (s.put (ascii '-')).putNumber fuel (sub32 0 argInt) 10
      return s.next
    else do
      let s ← s.putNumber fuel argInt 10
      return s.next
  else
    return s

def loop : Nat → Vsprintf → Call Vsprintf
  | 0, _ => .error .diverges
  | fuel + 1, s =>
      if s.indexChar = 0 then
        .ok s
      else if s.indexChar ≠ ascii '%' then
        loop fuel (s.put s.indexChar).next
      else do
        let s ← s.next.convert fuel
        loop fuel s

end Vsprintf

/-- `vsprintf`: the memory afterwards and the value returned. -/
def vsprintf (fuel : Nat) (memory : ByteMemory) (resBuf format ap : Nat) :
    Call (ByteMemory × Nat) := do
  let s ← Vsprintf.loop fuel ⟨memory, resBuf, format, memory.byte format, ap⟩
  let length ← strlen fuel s.memory resBuf
  return (s.memory, length)

/-- `sprintf`; `args` points to the parameter `format` on the stack, which
`va_start` takes the address of. -/
def sprintf (fuel : Nat) (memory : ByteMemory) (resBuf args : Nat) :
    Call (ByteMemory × Nat) :=
  vsprintf fuel memory resBuf (memory.loadWord args) args

/-! ## Formats and their expansions -/

def digitChar (digit : Nat) : BitVec 8 :=
  ascii (['0', '1', '2', '3', '4', '5', '6', '7', '8', '9', 'A', 'B', 'C',
    'D', 'E', 'F'].getD digit '0')

inductive Argument where
  | number (value : BitVec 32)
  | text (characters : List (BitVec 8))
  | character (ch : BitVec 8)

/-- The characters that a format specifier makes of its argument. -/
inductive Converts : BitVec 8 → Argument → List (BitVec 8) → Prop
  | hex {value : BitVec 32} {digits : List Nat} :
      IsNumeral 16 value.toNat digits →
      Converts (ascii 'x') (.number value) (digits.map digitChar)
  | string (characters : List (BitVec 8)) :
      Converts (ascii 's') (.text characters) characters
  | character (ch : BitVec 8) : Converts (ascii 'c') (.character ch) [ch]
  | decimal {value : BitVec 32} {digits : List Nat} :
      0 ≤ value.toInt → IsNumeral 10 value.toInt.natAbs digits →
      Converts (ascii 'd') (.number value) (digits.map digitChar)
  | negative {value : BitVec 32} {digits : List Nat} :
      value.toInt < 0 → IsNumeral 10 value.toInt.natAbs digits →
      Converts (ascii 'd') (.number value) (ascii '-' :: digits.map digitChar)

/-- The text that a format stands for with its arguments. -/
inductive Expands :
    List (BitVec 8) → List Argument → List (BitVec 8) → Prop
  | nil : Expands [] [] []
  | literal {ch : BitVec 8} {format : List (BitVec 8)}
      {args : List Argument} {text : List (BitVec 8)} :
      ch ≠ ascii '%' → Expands format args text →
      Expands (ch :: format) args (ch :: text)
  | specifier {letter : BitVec 8} {arg : Argument}
      {shown format : List (BitVec 8)} {args : List Argument}
      {text : List (BitVec 8)} :
      Converts letter arg shown → Expands format args text →
      Expands (ascii '%' :: letter :: format) (arg :: args) (shown ++ text)

/-- Each `%` is followed by one of `x`, `s`, `c` and `d`. -/
def WellFormed (format : List (BitVec 8)) : Prop :=
  ∀ before rest, format = before ++ ascii '%' :: rest →
    ∃ letter after, rest = letter :: after ∧
      letter ∈ [ascii 'x', ascii 's', ascii 'c', ascii 'd']

def specifiers : List (BitVec 8) → List (BitVec 8)
  | [] => []
  | ch :: format =>
      if ch = ascii '%' then format.take 1 ++ specifiers format
      else specifiers format

inductive Argument.Matches : BitVec 8 → Argument → Prop
  | hex (value : BitVec 32) : Matches (ascii 'x') (.number value)
  | string (characters : List (BitVec 8)) :
      Matches (ascii 's') (.text characters)
  | character (ch : BitVec 8) : Matches (ascii 'c') (.character ch)
  | decimal (value : BitVec 32) : Matches (ascii 'd') (.number value)

end Simos
