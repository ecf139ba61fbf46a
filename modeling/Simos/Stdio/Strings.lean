import Simos.Kernel.Call
import Simos.Library.ByteStrings

/-!
# `strcpy` and `strlen` (`lib/string.c`)

Every address of the 32-bit space can be read and written, and pointers wrap
around at its end.  The loops carry fuel for so many rounds; `Returns` is a
run that comes back with enough of it.
-/

namespace Simos

open Simos.Library

def strcpyLoop : Nat → ByteMemory → Nat → Nat → Call ByteMemory
  | 0, _, _, _ => .error .diverges
  | fuel + 1, memory, tmp, src =>
      let ch := memory.byte src
      let memory := memory.storeByte tmp ch
      if ch ≠ 0 then
        strcpyLoop fuel memory (u32 (tmp + 1)) (u32 (src + 1))
      else
        .ok memory

def strcpy (fuel : Nat) (memory : ByteMemory) (dst src : Nat) :
    Call ByteMemory := do
  Call.assert (dst ≠ 0 ∧ src ≠ 0)
  strcpyLoop fuel memory dst src

def strlenLoop (memory : ByteMemory) : Nat → Nat → Nat → Call Nat
  | 0, _, _ => .error .diverges
  | fuel + 1, str, count =>
      if memory.byte str ≠ 0 then
        strlenLoop memory fuel (u32 (str + 1)) (u32 (count + 1))
      else
        .ok count

def strlen (fuel : Nat) (memory : ByteMemory) (str : Nat) : Call Nat := do
  Call.assert (str ≠ 0)
  strlenLoop memory fuel str 0

/-- With enough fuel the call returns this result. -/
def Returns {α : Type} (run : Nat → Call α) (result : α) : Prop :=
  ∃ bound, ∀ fuel, bound ≤ fuel → run fuel = .ok result

theorem Returns.unique {α : Type} {run : Nat → Call α} {first second : α}
    (returnsFirst : Returns run first) (returnsSecond : Returns run second) :
    first = second := by
  obtain ⟨bound, always⟩ := returnsFirst
  obtain ⟨bound', always'⟩ := returnsSecond
  have same := always (bound + bound') (by omega)
  rw [always' (bound + bound') (by omega)] at same
  exact (Except.ok.inj same).symm

variable {memory : ByteMemory} {text : List (BitVec 8)}

/-- `strcpy` copies a string with its terminator to a place apart from it. -/
theorem strcpyLoop_eq {fuel tmp src : Nat}
    (string : memory.CString src text) (enough : text.length < fuel)
    (room : tmp + text.length < 4294967296)
    (apart : src + text.length < tmp ∨ tmp + text.length < src) :
    strcpyLoop fuel memory tmp src =
      .ok (memory.storeBytes tmp (text ++ [0])) := by
  induction text generalizing fuel memory tmp src with
  | nil =>
      obtain ⟨fuel, rfl⟩ :=
        Nat.exists_eq_add_one.mpr (Nat.zero_lt_of_lt enough)
      have last : memory.byte src = 0 := string.terminator
      rw [strcpyLoop, last, if_neg (fun nonzero => nonzero rfl)]
      rfl
  | cons ch rest inductionHypothesis =>
      rw [List.length_cons] at enough room apart
      obtain ⟨fuel, rfl⟩ :=
        Nat.exists_eq_add_one.mpr (Nat.zero_lt_of_lt enough)
      have nonzero : ch ≠ 0 := by
        intro zero
        rw [zero] at string
        exact string.nonzero List.mem_cons_self
      have inSpace := string.inSpace
      rw [List.length_cons] at inSpace
      have copied : (memory.storeByte tmp ch).CString (src + 1) rest := by
        apply string.tail.congr
        intro index inside
        rw [ByteMemory.byte_storeByte, if_neg (by omega)]
      rw [strcpyLoop, string.head, if_pos nonzero, u32_of_lt (by omega),
        u32_of_lt (by omega)]
      exact inductionHypothesis copied (by omega) (by omega) (by omega)

theorem strcpy_eq {fuel dst src : Nat}
    (string : memory.CString src text) (notNull : dst ≠ 0 ∧ src ≠ 0)
    (enough : text.length < fuel) (room : dst + text.length < 4294967296)
    (apart : src + text.length < dst ∨ dst + text.length < src) :
    strcpy fuel memory dst src =
      .ok (memory.storeBytes dst (text ++ [0])) := by
  rw [strcpy, Call.assert_of notNull, Call.ok_bind]
  exact strcpyLoop_eq string enough room apart

private theorem strlenLoop_eq {fuel str count : Nat}
    (string : memory.CString str text) (enough : text.length < fuel)
    (bound : count + text.length < 4294967296) :
    strlenLoop memory fuel str count = .ok (count + text.length) := by
  induction text generalizing fuel str count with
  | nil =>
      obtain ⟨fuel, rfl⟩ :=
        Nat.exists_eq_add_one.mpr (Nat.zero_lt_of_lt enough)
      have last : memory.byte str = 0 := string.terminator
      rw [strlenLoop, if_neg (fun nonzero => nonzero last)]
      rfl
  | cons ch rest inductionHypothesis =>
      rw [List.length_cons] at enough bound
      obtain ⟨fuel, rfl⟩ :=
        Nat.exists_eq_add_one.mpr (Nat.zero_lt_of_lt enough)
      have nonzero : memory.byte str ≠ 0 := by
        intro zero
        apply string.nonzero
        rw [← string.head, zero]
        exact List.mem_cons_self
      have inSpace := string.inSpace
      rw [List.length_cons] at inSpace
      rw [strlenLoop, if_pos nonzero, u32_of_lt (by omega),
        u32_of_lt (by omega),
        inductionHypothesis string.tail (by omega) (by omega),
        List.length_cons, Nat.add_assoc, Nat.add_comm 1]

private theorem strlen_of_notNull (fuel : Nat) (memory : ByteMemory) {str : Nat}
    (notNull : str ≠ 0) :
    strlen fuel memory str = strlenLoop memory fuel str 0 := by
  rw [strlen, Call.assert_of notNull, Call.ok_bind]

theorem strlen_eq {fuel str : Nat} (string : memory.CString str text)
    (notNull : str ≠ 0) (enough : text.length < fuel) :
    strlen fuel memory str = .ok text.length := by
  have inSpace := string.inSpace
  rw [strlen_of_notNull fuel memory notNull,
    strlenLoop_eq string enough (by omega), Nat.zero_add]

/-- A walk of `strlen` comes to its end when there is a zero byte anywhere:
it wraps around at the end of the address space. -/
theorem strlenLoop_returns {distance str count : Nat}
    (ahead : memory.byte (u32 (str + distance)) = 0)
    (inSpace : str < 4294967296) :
    ∃ length, ∀ fuel, distance < fuel →
      strlenLoop memory fuel str count = .ok length := by
  induction distance generalizing str count with
  | zero =>
      rw [Nat.add_zero, u32_of_lt inSpace] at ahead
      refine ⟨count, fun fuel enough => ?_⟩
      obtain ⟨fuel, rfl⟩ :=
        Nat.exists_eq_add_one.mpr (Nat.zero_lt_of_lt enough)
      rw [strlenLoop, if_neg (fun nonzero => nonzero ahead)]
  | succ distance inductionHypothesis =>
      by_cases here : memory.byte str = 0
      · refine ⟨count, fun fuel enough => ?_⟩
        obtain ⟨fuel, rfl⟩ :=
          Nat.exists_eq_add_one.mpr (Nat.zero_lt_of_lt enough)
        rw [strlenLoop, if_neg (fun nonzero => nonzero here)]
      · have later :
            memory.byte (u32 (u32 (str + 1) + distance)) = 0 := by
          rw [← ahead]
          congr 1
          unfold u32
          omega
        obtain ⟨length, always⟩ :=
          @inductionHypothesis _ (u32 (count + 1)) later (u32_lt _)
        refine ⟨length, fun fuel enough => ?_⟩
        obtain ⟨fuel, rfl⟩ :=
          Nat.exists_eq_add_one.mpr (Nat.zero_lt_of_lt enough)
        rw [strlenLoop, if_pos here]
        exact always fuel (by omega)

theorem strlen_returns {nul str : Nat} (terminated : memory.byte nul = 0)
    (notNull : str ≠ 0) (inSpace : str < 4294967296)
    (inSpace' : nul < 4294967296) :
    ∃ length, Returns (fun fuel => strlen fuel memory str) length := by
  have ahead :
      memory.byte (u32 (str + (nul + 4294967296 - str))) = 0 := by
    rw [← terminated]
    congr 1
    unfold u32
    omega
  obtain ⟨length, always⟩ :=
    @strlenLoop_returns memory _ str 0 ahead inSpace
  refine ⟨length, nul + 4294967296 - str + 1, fun fuel enough => ?_⟩
  exact (strlen_of_notNull fuel memory notNull).trans (always fuel enough)

end Simos
