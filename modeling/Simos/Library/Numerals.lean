import Mathlib.Data.Nat.Digits.Lemmas
import Mathlib.Tactic.Common

/-!
# Numerals

The numeral of a number in a radix is its list of digits, the highest first,
without leading zeros; zero has the one digit `0`.  `IsNumeral` says what a
numeral is, and `numeral` is the only one.
-/

namespace Simos.Library

/-- `digits` is the numeral of `value`: it reads back as `value`, and it
starts with a zero only when it is `0` itself. -/
structure IsNumeral (radix value : Nat) (digits : List Nat) : Prop where
  nonempty : digits ≠ []
  below : ∀ digit ∈ digits, digit < radix
  noLeadingZero : digits.head? = some 0 → digits = [0]
  reads : Nat.ofDigits radix digits.reverse = value

def numeral (radix value : Nat) : List Nat :=
  if value = 0 then [0] else (Nat.digits radix value).reverse

variable {radix value : Nat} {digits : List Nat}

theorem numeral_of_lt (small : value < radix) :
    numeral radix value = [value] := by
  by_cases zero : value = 0
  · rw [numeral, if_pos zero, zero]
  · rw [numeral, if_neg zero, Nat.digits_of_lt radix value zero small]
    exact List.reverse_singleton

theorem numeral_of_div_ne_zero (base : 1 < radix)
    (more : value / radix ≠ 0) :
    numeral radix value =
      numeral radix (value / radix) ++ [value % radix] := by
  have positive : value ≠ 0 := by
    intro zero
    rw [zero, Nat.zero_div] at more
    exact more rfl
  rw [numeral, numeral, if_neg positive, if_neg more,
    Nat.digits_eq_cons_digits_div base positive, List.reverse_cons]

theorem numeral_ne_nil (radix value : Nat) :
    numeral radix value ≠ [] := by
  by_cases zero : value = 0
  · rw [numeral, if_pos zero]
    exact List.cons_ne_nil 0 []
  · rw [numeral, if_neg zero, ne_eq, List.reverse_eq_nil_iff]
    exact Nat.digits_ne_nil_iff_ne_zero.mpr zero

theorem isNumeral_numeral (base : 1 < radix) (value : Nat) :
    IsNumeral radix value (numeral radix value) := by
  by_cases zero : value = 0
  · rw [numeral, if_pos zero, zero]
    constructor
    · exact List.cons_ne_nil 0 []
    · intro digit member
      rw [List.mem_singleton.mp member]
      omega
    · intro _
      rfl
    · simp
  · rw [numeral, if_neg zero]
    have digitsNonempty : Nat.digits radix value ≠ [] :=
      Nat.digits_ne_nil_iff_ne_zero.mpr zero
    constructor
    · rw [ne_eq, List.reverse_eq_nil_iff]
      exact digitsNonempty
    · intro digit member
      exact Nat.digits_lt_base base (List.mem_reverse.mp member)
    · intro leading
      rw [List.head?_reverse, List.getLast?_eq_some_getLast digitsNonempty]
        at leading
      exact absurd (Option.some.inj leading)
        (Nat.getLast_digit_ne_zero radix zero)
    · rw [List.reverse_reverse]
      exact Nat.ofDigits_digits radix value

theorem IsNumeral.eq_numeral (base : 1 < radix)
    (shown : IsNumeral radix value digits) : digits = numeral radix value := by
  by_cases leading : digits.head? = some 0
  · have single := shown.noLeadingZero leading
    have zero : value = 0 := by
      rw [← shown.reads, single]
      simp
    rw [single, numeral, if_pos zero]
  · have reversed : digits.reverse ≠ [] := by
      rw [ne_eq, List.reverse_eq_nil_iff]
      exact shown.nonempty
    have significant : digits.reverse.getLast reversed ≠ 0 := by
      intro last
      apply leading
      rw [← List.reverse_reverse digits, List.head?_reverse,
        List.getLast?_eq_some_getLast reversed, last]
    have unique := Nat.digits_ofDigits radix base digits.reverse
      (fun digit member => shown.below digit (List.mem_reverse.mp member))
      (fun _ => significant)
    rw [shown.reads] at unique
    have positive : value ≠ 0 := by
      intro zero
      rw [zero, Nat.digits_zero] at unique
      exact reversed unique.symm
    rw [numeral, if_neg positive, unique, List.reverse_reverse]

theorem numeral_eq_map (base : 1 < radix) {count : Nat}
    (low : radix ^ count ≤ value) (high : value < radix ^ (count + 1)) :
    numeral radix value =
      (List.range (count + 1)).map
        fun index => value / radix ^ (count - index) % radix := by
  induction count generalizing value with
  | zero =>
      rw [Nat.zero_add, Nat.pow_one] at high
      rw [numeral_of_lt high]
      simp [Nat.mod_eq_of_lt high]
  | succ count inductionHypothesis =>
      have positive : 0 < radix := by omega
      have low' : radix ^ count ≤ value / radix :=
        (Nat.le_div_iff_mul_le positive).mpr low
      have high' : value / radix < radix ^ (count + 1) :=
        Nat.div_lt_of_lt_mul (by rwa [Nat.mul_comm, ← Nat.pow_succ])
      have more : value / radix ≠ 0 :=
        Nat.ne_of_gt (lt_of_lt_of_le (Nat.pow_pos positive) low')
      rw [numeral_of_div_ne_zero base more, inductionHypothesis low' high',
        List.range_succ (n := count + 1), List.map_append]
      congr 1
      · apply List.map_congr_left
        intro index member
        have inside := List.mem_range.mp member
        have place : count + 1 - index = count - index + 1 := by omega
        rw [place, Nat.pow_succ', Nat.div_div_eq_div_mul]
      · simp

end Simos.Library
