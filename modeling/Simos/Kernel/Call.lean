import Mathlib.Data.Nat.ModEq
import Mathlib.Tactic.Common

/-!
# Calls into the kernel

A kernel function returns a value or does not come back at all.  `Stop` lists
the ways of not coming back: a failed `ASSERT` ends in the endless loop of
`debug_out`, a loop of the function itself may have no end, a page fault ends
in the endless loop of `ignore_intr_handler`, and a lone thread that waits for
a semaphore waits for ever.

`uint32_t` values are natural numbers; `u32` and `sub32` are the wrapping
operations wherever the C expression can leave the range.
-/

namespace Simos

/-- Why a call does not return. -/
inductive Stop where
  | assertFailed
  | diverges
  | pageFault
  | blocked
  deriving DecidableEq, Repr

/-- The outcome of a call. -/
abbrev Call (α : Type) : Type :=
  Except Stop α

def Call.assert (condition : Prop) [Decidable condition] : Call Unit :=
  if condition then .ok () else .error .assertFailed

def u32 (value : Nat) : Nat :=
  value % 4294967296

def sub32 (left right : Nat) : Nat :=
  u32 (left + 4294967296 - u32 right)

/-- The `uint32_t` with the bits of a signed value. -/
def toU32 (value : Int) : Nat :=
  (value % 4294967296).toNat

/-- The `uint64_t` with the bits of a signed value. -/
def toU64 (value : Int) : Nat :=
  (value % 18446744073709551616).toNat

namespace Call

variable {α β : Type}

@[simp]
theorem assert_eq_ok_iff {condition : Prop} [Decidable condition]
    {result : Unit} :
    assert condition = .ok result ↔ condition := by
  unfold assert
  split <;> simp_all

theorem assert_of {condition : Prop} [Decidable condition]
    (holds : condition) : assert condition = .ok () :=
  assert_eq_ok_iff.mpr holds

theorem assert_of_not {condition : Prop} [Decidable condition]
    (fails : ¬ condition) : assert condition = .error .assertFailed := by
  rw [assert, if_neg fails]

@[simp]
theorem bind_eq_ok_iff {call : Call α} {rest : α → Call β} {result : β} :
    call >>= rest = .ok result ↔
      ∃ value, call = .ok value ∧ rest value = .ok result := by
  cases call with
  | error stop =>
      constructor
      · intro equal
        cases equal
      · rintro ⟨value, equal, _⟩
        cases equal
  | ok value =>
      constructor
      · intro equal
        exact ⟨value, rfl, equal⟩
      · rintro ⟨value', equal, returned⟩
        cases equal
        exact returned

/-- A sequence returns when its first part does and the rest does after it. -/
theorem returns_bind {call : Call α} {rest : α → Call β}
    (returns : ∃ value, call = .ok value)
    (restReturns : ∀ value, ∃ result, rest value = .ok result) :
    ∃ result, call >>= rest = .ok result := by
  obtain ⟨value, returned⟩ := returns
  obtain ⟨result, restReturned⟩ := restReturns value
  exact ⟨result, bind_eq_ok_iff.mpr ⟨value, returned, restReturned⟩⟩

@[simp]
theorem ok_bind (value : α) (rest : α → Call β) :
    (Except.ok value : Call α) >>= rest = rest value := by
  simp only [bind, Except.bind]

@[simp]
theorem error_bind (stop : Stop) (rest : α → Call β) :
    (Except.error stop : Call α) >>= rest = .error stop := by
  simp only [bind, Except.bind]

@[simp]
theorem pure_eq_ok (value : α) : (pure value : Call α) = .ok value := by
  simp only [pure, Except.pure]

end Call

theorem u32_lt (value : Nat) : u32 value < 4294967296 :=
  Nat.mod_lt value (by decide)

theorem u32_of_lt {value : Nat} (bound : value < 4294967296) :
    u32 value = value :=
  Nat.mod_eq_of_lt bound

theorem sub32_of_le {left right : Nat} (ordered : right ≤ left)
    (bound : left < 4294967296) : sub32 left right = left - right := by
  unfold sub32 u32
  omega

end Simos
