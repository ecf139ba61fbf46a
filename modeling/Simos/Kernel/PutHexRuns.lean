import Simos.Kernel.PutHex
import Simos.Stdio.Expansion

/-!
# `put_hex` prints what `%x` shows

`put_hex` fills eight digits from the right, passes over the zeros at the
left and prints the rest.

* `fill_steps`, `skip_steps` and `print_steps` are its three loops;
* `prints_numeral` is a whole call;
* `putHex_eq_vsprintf` compares it with `vsprintf`.
-/

namespace Simos

open Simos.Library

namespace PutHex

private def Filled (buffer value : Nat) (memory : ByteMemory) : Prop :=
  ∀ index, index < 8 →
    memory.byte ((buffer + index) % 4294967296) =
      digitChar (value / 16 ^ (7 - index) % 16)

variable {arg buffer : Nat}

/-! ## Filling the buffer -/

private theorem letter_sum {digit : Nat} (small : digit < 16)
    (large : 10 ≤ digit) :
    (digit + (4294967296 - 10)) % 4294967296 = digit - 10 ∧
      (digit - 10 + 0x41) % 4294967296 = digit - 10 + 0x41 := by
  omega

private theorem figure_sum {digit : Nat} (small : digit < 16) :
    (digit + 0x30) % 4294967296 = digit + 0x30 := by
  omega

private theorem less_nine {digit : Nat} (small : digit < 16) :
    ¬ (2147483648 ≤ digit ∨ digit < 9) ∧ digit ≠ 9 ↔ 10 ≤ digit := by
  omega

private theorem digit_steps (run : Activation) :
    ∃ edx left right,
      Steps arg buffer { run with rest := based4Bits }
        { run with
          regs := { run.regs with edx }
          left, right
          rest := store } ∧
      BitVec.ofNat 8 edx = digitChar (run.regs.edx % 16) := by
  have masked : run.regs.edx &&& 15 = run.regs.edx % 16 :=
    Nat.and_two_pow_sub_one_eq_mod run.regs.edx 4
  have small : run.regs.edx % 16 < 16 := Nat.mod_lt _ (by decide)
  have char := digitChar_eq small
  generalize run.regs.edx % 16 = digit at masked small char
  have compared : stepTimes (exec arg buffer) 3
      { run with rest := based4Bits } =
      some { run with
        regs := { run.regs with edx := digit }
        left := digit
        right := 9
        rest := if 10 ≤ digit then isA2F
          else .addEdx 0x30 :: .jmp .store :: isA2F } := by
    simp only [stepTimes, exec, based4Bits, List.cons_append,
      List.nil_append, Instr.exec, Activation.withRegs, Activation.compare,
      Activation.jump, Activation.Less, Option.bind_some, masked,
      less_nine small, Label.code]
  by_cases low : digit < 10
  · rw [if_neg (Nat.not_le.mpr low)] at compared
    rw [if_pos low] at char
    have added : stepTimes (exec arg buffer) 2
        { run with
          regs := { run.regs with edx := digit }
          left := digit
          right := 9
          rest := .addEdx 0x30 :: .jmp .store :: isA2F } =
        some { run with
          regs := { run.regs with edx := digit + 0x30 }
          left := digit
          right := 9
          rest := store } := by
      simp only [stepTimes, exec, Instr.exec, Activation.withRegs,
        Activation.jump, Option.bind_some, figure_sum small, if_true,
        Label.code]
    exact ⟨_, _, _,
      (stepTimes_steps compared).trans (stepTimes_steps added), char⟩
  · rw [if_pos (Nat.not_lt.mp low)] at compared
    rw [if_neg low] at char
    obtain ⟨lowered, raised⟩ := letter_sum small (Nat.not_lt.mp low)
    have added : stepTimes (exec arg buffer) 2
        { run with
          regs := { run.regs with edx := digit }
          left := digit
          right := 9
          rest := isA2F } =
        some { run with
          regs := { run.regs with edx := digit - 10 + 0x41 }
          left := digit
          right := 9
          rest := store } := by
      simp only [stepTimes, exec, isA2F, List.cons_append, List.nil_append,
        Instr.exec, Activation.withRegs, Option.bind_some, lowered, raised]
    exact ⟨_, _, _,
      (stepTimes_steps compared).trans (stepTimes_steps added), char⟩

private theorem store_steps (run : Activation) {left : Nat} (few : left < 8)
    (ecx : run.regs.ecx = left + 1) :
    Steps arg buffer { run with rest := store }
      { run with
        regs := { run.regs with
          eax := run.regs.eax / 2 ^ 4
          edx := run.regs.eax / 2 ^ 4
          ecx := left
          edi := (run.regs.edi + 4294967295) % 4294967296 }
        memory := run.memory.storeByte
          ((run.regs.ebx + run.regs.edi) % 4294967296)
          (BitVec.ofNat 8 run.regs.edx)
        rest := if left = 0 then readyToPrint else based4Bits } := by
  have fewer : (left + 1 + 4294967295) % 4294967296 = left := by omega
  have computed : stepTimes (exec arg buffer) 5 { run with rest := store } =
      some { run with
        regs := { run.regs with
          eax := run.regs.eax / 2 ^ 4
          edx := run.regs.eax / 2 ^ 4
          ecx := left
          edi := (run.regs.edi + 4294967295) % 4294967296 }
        memory := run.memory.storeByte
          ((run.regs.ebx + run.regs.edi) % 4294967296)
          (BitVec.ofNat 8 run.regs.edx)
        rest := if left = 0 then readyToPrint else based4Bits } := by
    simp only [stepTimes, exec, store, List.cons_append, List.nil_append,
      Instr.exec, Activation.withRegs, Option.bind_some, ecx, fewer,
      Label.code]
  exact stepTimes_steps computed

structure Keeps (run run' : Activation) : Prop where
  saved : run'.saved = run.saved
  stack : run'.stack = run.stack
  printed : run'.printed = run.printed

private theorem Keeps.trans {first second third : Activation}
    (one : Keeps first second) (two : Keeps second third) :
    Keeps first third where
  saved := two.saved.trans one.saved
  stack := two.stack.trans one.stack
  printed := two.printed.trans one.printed

/-- A round of the loop at `.16based_4bits`, with so many rounds to come. -/
structure Round (buffer last : Nat) (run run' : Activation) : Prop where
  eax : run'.regs.eax = run.regs.eax / 16
  edx : run'.regs.edx = run.regs.eax / 16
  ecx : run'.regs.ecx = last
  edi : run'.regs.edi = (last + 4294967295) % 4294967296
  ebx : run'.regs.ebx = buffer
  kept : Keeps run run'
  memory :
    run'.memory = run.memory.storeByte ((buffer + last) % 4294967296)
      (digitChar (run.regs.eax % 16))

private theorem round_steps (run : Activation) {last : Nat} (few : last < 8)
    (edx : run.regs.edx = run.regs.eax) (ecx : run.regs.ecx = last + 1)
    (edi : run.regs.edi = last) (ebx : run.regs.ebx = buffer) :
    ∃ run', Steps arg buffer { run with rest := based4Bits }
        { run' with rest := if last = 0 then readyToPrint else based4Bits } ∧
      Round buffer last run run' := by
  obtain ⟨char, left, right, digit, isChar⟩ := @digit_steps arg buffer run
  rw [edx] at isChar
  let shown : Activation :=
    { run with regs := { run.regs with edx := char }, left, right }
  have stored := @store_steps arg buffer shown last few ecx
  let run' : Activation :=
    { shown with
      regs := { run.regs with
        eax := run.regs.eax / 2 ^ 4
        edx := run.regs.eax / 2 ^ 4
        ecx := last
        edi := (run.regs.edi + 4294967295) % 4294967296 }
      memory := run.memory.storeByte
        ((run.regs.ebx + run.regs.edi) % 4294967296)
        (BitVec.ofNat 8 char) }
  refine ⟨run', digit.trans stored, ?_⟩
  constructor
  · rfl
  · rfl
  · rfl
  · simp only [run', edi]
  · exact ebx
  · exact ⟨rfl, rfl, rfl⟩
  · simp only [run', edi, ebx, isChar]

/-- The loop that fills the buffer from the right; the place of a digit is
below the number of rounds left. -/
theorem fill_steps (run : Activation) {last : Nat} (few : last < 8)
    (edx : run.regs.edx = run.regs.eax) (ecx : run.regs.ecx = last + 1)
    (edi : run.regs.edi = last) (ebx : run.regs.ebx = buffer) :
    ∃ run', Steps arg buffer { run with rest := based4Bits }
        { run' with rest := readyToPrint } ∧
      run'.regs.edi = 4294967295 ∧ Keeps run run' ∧
      (∀ index, index ≤ last →
        run'.memory.byte ((buffer + index) % 4294967296) =
          digitChar (run.regs.eax / 16 ^ (last - index) % 16)) ∧
      ∀ index, last < index → index < 8 →
        run'.memory.byte ((buffer + index) % 4294967296) =
          run.memory.byte ((buffer + index) % 4294967296) := by
  induction last generalizing run with
  | zero =>
      obtain ⟨run', steps, round⟩ :=
        @round_steps arg buffer run 0 few edx ecx edi ebx
      rw [if_pos rfl] at steps
      refine ⟨run', steps, round.edi, round.kept, ?_, ?_⟩
      · intro index inside
        rw [round.memory, Nat.le_zero.mp inside, ByteMemory.byte_storeByte,
          if_pos rfl, Nat.sub_self, Nat.pow_zero, Nat.div_one]
      · intro index outside inside
        rw [round.memory, ByteMemory.byte_storeByte, if_neg (by omega)]
  | succ last inductionHypothesis =>
      obtain ⟨middle, steps, round⟩ :=
        @round_steps arg buffer run (last + 1) few edx ecx edi ebx
      rw [if_neg (Nat.succ_ne_zero last)] at steps
      have lower : middle.regs.edi = last := by
        rw [round.edi]
        omega
      obtain ⟨run', filled, edi', kept, written, others⟩ :=
        inductionHypothesis middle (by omega)
          (round.edx.trans round.eax.symm) round.ecx lower round.ebx
      refine ⟨run', steps.trans filled, edi', round.kept.trans kept, ?_, ?_⟩
      · intro index inside
        by_cases here : index = last + 1
        · rw [here, others (last + 1) (Nat.lt_succ_self last) few,
            round.memory, ByteMemory.byte_storeByte, if_pos rfl,
            Nat.sub_self, Nat.pow_zero, Nat.div_one]
        · have place : last + 1 - index = last - index + 1 := by omega
          rw [written index (by omega), place, Nat.pow_succ',
            ← Nat.div_div_eq_div_mul, round.eax]
      · intro index outside inside
        rw [others index (by omega) inside, round.memory,
          ByteMemory.byte_storeByte, if_neg (by omega)]

/-! ## Printing -/

theorem pass_steps (run : Activation) {place : Nat}
    (edi : run.regs.edi = place) (small : place ≤ 8) :
    ∃ run' : Activation, Steps arg buffer { run with rest := putEachNum }
        { run' with
          rest := if place + 1 < 8 then putEachNum else [.popad, .ret] } ∧
      run'.regs.edi = place + 1 ∧
      run'.regs.ecx % 256 =
        (run.memory.byte ((buffer + (place + 1)) % 4294967296)).toNat ∧
      run'.memory = run.memory ∧ run'.saved = run.saved ∧
      run'.stack = run.stack ∧
      run'.printed = run.printed ++ [BitVec.ofNat 8 run.regs.ecx] := by
  have next : (place + 1) % 4294967296 = place + 1 := by omega
  have less : (2147483648 ≤ place + 1 ∨ place + 1 < 8) ↔ place + 1 < 8 := by
    omega
  let run' : Activation :=
    { run with
      regs := { run.regs with
        edi := place + 1
        ecx := run.regs.ecx / 256 * 256 +
          (run.memory.byte ((buffer + (place + 1)) % 4294967296)).toNat }
      left := place + 1
      right := 8
      printed := run.printed ++ [BitVec.ofNat 8 run.regs.ecx] }
  have computed : stepTimes (exec arg buffer) 7
      { run with rest := putEachNum } =
      some { run' with
        rest := if place + 1 < 8 then putEachNum else [.popad, .ret] } := by
    simp only [stepTimes, exec, putEachNum, Instr.exec, Activation.withRegs,
      Activation.compare, Activation.jump, Activation.Less, Option.bind_some,
      edi, next, less, List.drop_succ_cons, List.drop_zero, Label.code, run']
  refine ⟨run', stepTimes_steps computed, rfl, ?_, rfl, rfl, rfl, rfl⟩
  have byte :=
    (run.memory.byte ((buffer + (place + 1)) % 4294967296)).isLt
  simp only [run']
  omega

theorem end_steps (run : Activation) :
    Steps arg buffer { run with rest := [.popad, .ret] }
      { run with regs := run.saved, rest := [] } := by
  have computed : stepTimes (exec arg buffer) 2
      { run with rest := [.popad, .ret] } =
      some { run with regs := run.saved, rest := [] } := rfl
  exact stepTimes_steps computed

/-- From a place in the loop that prints, the call comes to its end and has
printed this. -/
private def Ends (arg buffer : Nat) (run : Activation) (code : List Instr)
    (text : List (BitVec 8)) : Prop :=
  ∃ last, Steps arg buffer { run with rest := code } last ∧
    last.rest = [] ∧ last.regs = run.saved ∧ last.stack = run.stack ∧
    last.printed = run.printed ++ text

private theorem char_of_cl {ecx : Nat} {ch : BitVec 8}
    (cl : ecx % 256 = ch.toNat) :
    BitVec.ofNat 8 ecx = ch :=
  BitVec.eq_of_toNat_eq ((BitVec.toNat_ofNat ecx 8).trans cl)

private theorem digits_succ (value left : Nat) :
    (List.range (left + 2)).map
        (fun index => digitChar (value / 16 ^ (left + 1 - index) % 16)) =
      digitChar (value / 16 ^ (left + 1) % 16) ::
        (List.range (left + 1)).map
          fun index => digitChar (value / 16 ^ (left - index) % 16) := by
  rw [List.range_succ_eq_map, List.map_cons, List.map_map, Nat.sub_zero]
  congr 1
  apply List.map_congr_left
  intro index _
  simp only [Function.comp_apply, Nat.succ_eq_add_one,
    Nat.add_sub_add_right]

/-- The loop that prints what is left of the digits. -/
theorem print_steps (run : Activation) {value left : Nat}
    (filled : Filled buffer value run.memory) (few : left < 8)
    (edi : run.regs.edi = 7 - left)
    (cl : run.regs.ecx % 256 =
      (digitChar (value / 16 ^ left % 16)).toNat) :
    Ends arg buffer run putEachNum
      ((List.range (left + 1)).map
        fun index => digitChar (value / 16 ^ (left - index) % 16)) := by
  induction left generalizing run with
  | zero =>
      obtain ⟨run', pass, -, -, -, saved, stack, printed⟩ :=
        @pass_steps arg buffer run 7 edi (by decide)
      rw [if_neg (by decide)] at pass
      refine ⟨_, pass.trans (end_steps run'), rfl, saved, stack, ?_⟩
      rw [printed, char_of_cl cl]
      rfl
  | succ left inductionHypothesis =>
      have place : 7 - (left + 1) + 1 = 7 - left := by omega
      obtain ⟨run', pass, edi', cl', memory, saved, stack, printed⟩ :=
        @pass_steps arg buffer run (7 - (left + 1)) edi (by omega)
      have below : 7 - (7 - left) = left := by omega
      rw [place, filled (7 - left) (by omega), below] at cl'
      rw [place] at edi'
      rw [if_pos (by omega)] at pass
      rw [← memory] at filled
      obtain ⟨last, steps, rest, regs, stack', printed'⟩ :=
        inductionHypothesis run' filled (by omega) edi' cl'
      refine ⟨last, pass.trans steps, rest, regs.trans saved,
        stack'.trans stack, ?_⟩
      rw [printed', printed, char_of_cl cl, List.append_assoc,
        digits_succ value left]
      rfl

private theorem digitChar_eq_figure {digit : Nat} (small : digit < 16) :
    (digitChar digit).toNat = 0x30 ↔ digit = 0 := by
  decide +revert

theorem Ends.head {run run' : Activation} {code code' : List Instr}
    {text : List (BitVec 8)}
    (steps : Steps arg buffer { run with rest := code }
      { run' with rest := code' })
    (kept : Keeps run run') (ends : Ends arg buffer run' code' text) :
    Ends arg buffer run code text := by
  obtain ⟨last, later, rest, regs, stack, printed⟩ := ends
  refine ⟨last, steps.trans later, rest, regs.trans kept.saved,
    stack.trans kept.stack, ?_⟩
  rw [printed, kept.printed]

private theorem full0_steps (run : Activation) (edi : run.regs.edi = 8) :
    Ends arg buffer run skipPrefix0 [digitChar 0] := by
  let full : Activation :=
    { run with
      regs := { run.regs with ecx := run.regs.ecx / 256 * 256 + 0x30 }
      left := 8
      right := 8 }
  have computed : stepTimes (exec arg buffer) 3
      { run with rest := skipPrefix0 } =
      some { full with rest := putEachNum } := by
    simp only [stepTimes, exec, skipPrefix0, full0, List.cons_append,
      List.nil_append, Instr.exec, Activation.withRegs,
      Activation.compare, Activation.jump, Option.bind_some, edi, if_true,
      Label.code, full]
  have char : full.regs.ecx % 256 = (digitChar 0).toNat :=
    Nat.mul_add_mod' (run.regs.ecx / 256) 256 0x30
  obtain ⟨run', pass, -, -, -, saved, stack, printed⟩ :=
    @pass_steps arg buffer full 8 edi (Nat.le_refl 8)
  rw [if_neg (by decide)] at pass
  refine ⟨_, (stepTimes_steps computed).trans
    (pass.trans (end_steps run')), rfl, saved, stack, ?_⟩
  rw [printed, char_of_cl char]

private theorem look_steps (run : Activation) {place digit : Nat}
    (inside : place < 8) (edi : run.regs.edi = place) (small : digit < 16)
    (byte : run.memory.byte ((buffer + place) % 4294967296) =
      digitChar digit) :
    ∃ run' : Activation, Steps arg buffer { run with rest := skipPrefix0 }
        { run' with
          rest := if digit = 0 then skipPrefix0
            else .decEdi :: .jmp .putEachNum :: full0 } ∧
      run'.regs.edi = place + 1 ∧
      run'.regs.ecx % 256 = (digitChar digit).toNat ∧
      run'.memory = run.memory ∧ Keeps run run' := by
  have notEnd : ¬ place = 8 := by omega
  have next : (place + 1) % 4294967296 = place + 1 := by omega
  have cl : (run.regs.ecx / 256 * 256 + (digitChar digit).toNat) % 256 =
      (digitChar digit).toNat := by
    have bound := (digitChar digit).isLt
    omega
  let run' : Activation :=
    { run with
      regs := { run.regs with
        ecx := run.regs.ecx / 256 * 256 + (digitChar digit).toNat
        edi := place + 1 }
      left := (digitChar digit).toNat
      right := 0x30 }
  have computed : stepTimes (exec arg buffer) 6
      { run with rest := skipPrefix0 } =
      some { run' with
        rest := if digit = 0 then skipPrefix0
          else .decEdi :: .jmp .putEachNum :: full0 } := by
    simp only [stepTimes, exec, skipPrefix0, goOnSkip, List.cons_append,
      List.nil_append, Instr.exec, Activation.withRegs,
      Activation.compare, Activation.jump, Option.bind_some, edi,
      if_neg notEnd, byte, next, cl, digitChar_eq_figure small,
      Label.code, run']
  exact ⟨run', stepTimes_steps computed, rfl, cl, rfl, ⟨rfl, rfl, rfl⟩⟩

private theorem back_steps (run : Activation) {place : Nat} (inside : place < 8)
    (edi : run.regs.edi = place + 1) :
    Steps arg buffer
      { run with rest := .decEdi :: .jmp .putEachNum :: full0 }
      { run with regs := { run.regs with edi := place }
                 rest := putEachNum } := by
  have back : (place + 1 + 4294967295) % 4294967296 = place := by omega
  have computed : stepTimes (exec arg buffer) 2
      { run with rest := .decEdi :: .jmp .putEachNum :: full0 } =
      some { run with regs := { run.regs with edi := place }
                      rest := putEachNum } := by
    simp only [stepTimes, exec, Instr.exec, Activation.withRegs,
      Activation.jump, Option.bind_some, edi, back, if_true, Label.code]
  exact stepTimes_steps computed

/-- Passing over the zeros at the left: `count` digits are left, and the value
has no more. -/
theorem skip_steps (run : Activation) {value count : Nat}
    (filled : Filled buffer value run.memory) (few : count ≤ 8)
    (bound : value < 16 ^ count) (edi : run.regs.edi = 8 - count) :
    Ends arg buffer run skipPrefix0
      ((numeral 16 value).map digitChar) := by
  induction count generalizing run with
  | zero =>
      have zero : value = 0 := Nat.lt_one_iff.mp bound
      rw [zero, numeral_of_lt (by decide)]
      exact full0_steps run edi
  | succ count inductionHypothesis =>
      have place : 8 - (count + 1) = 7 - count := by omega
      have digit : value / 16 ^ count < 16 :=
        Nat.div_lt_of_lt_mul (by rwa [← Nat.pow_succ])
      have byte := filled (7 - count) (by omega)
      have below : 7 - (7 - count) = count := by omega
      rw [below, Nat.mod_eq_of_lt digit] at byte
      obtain ⟨run', looked, edi', cl, memory, kept⟩ :=
        @look_steps arg buffer run (7 - count) _ (by omega) (edi.trans place)
          digit byte
      rw [← memory] at filled
      by_cases isZero : value / 16 ^ count = 0
      · rw [if_pos isZero] at looked
        have fewer : value < 16 ^ count :=
          (Nat.div_eq_zero_iff_lt (Nat.pow_pos (by decide))).mp isZero
        apply Ends.head looked kept
        exact inductionHypothesis run' filled (by omega) fewer (by omega)
      · rw [if_neg isZero] at looked
        have low : 16 ^ count ≤ value := by
          by_contra small
          exact isZero (Nat.div_eq_of_lt (Nat.not_le.mp small))
        rw [← Nat.mod_eq_of_lt digit] at cl
        rw [numeral_eq_map (by decide) low bound, List.map_map]
        let first : Activation :=
          { run' with regs := { run'.regs with edi := 7 - count } }
        have kept' : Keeps run first := ⟨kept.saved, kept.stack, kept.printed⟩
        have back : Steps arg buffer { run with rest := skipPrefix0 }
            { first with rest := putEachNum } :=
          looked.trans (back_steps run' (by omega) edi')
        have prints : Ends arg buffer first putEachNum _ :=
          print_steps first filled (by omega) rfl cl
        exact prints.head back kept'

/-- A call prints the numeral of its argument. -/
theorem prints_numeral (buffer : Nat) (run : Activation)
    (bound : arg < 4294967296) :
    Prints arg buffer run ((numeral 16 arg).map digitChar) := by
  let entered : Activation :=
    { run with
      regs := ⟨arg, buffer, 8, arg, 7⟩
      saved := run.regs }
  have starts : stepTimes (exec arg buffer) 6 { run with rest := putHex } =
      some { entered with rest := based4Bits } := rfl
  obtain ⟨full, fills, edi, kept, written, -⟩ :=
    @fill_steps arg buffer entered 7 (by decide) rfl rfl rfl rfl
  let ready : Activation :=
    { full with regs := { full.regs with edi := 0 } }
  have readies : stepTimes (exec arg buffer) 1
      { full with rest := readyToPrint } =
      some { ready with rest := skipPrefix0 } := by
    simp only [stepTimes, exec, readyToPrint, List.cons_append,
      List.nil_append, Instr.exec, Activation.withRegs, Option.bind_some, edi,
      Nat.reduceAdd, Nat.mod_self, ready]
  have filled : Filled buffer arg ready.memory :=
    fun index inside => written index (Nat.le_of_lt_succ inside)
  obtain ⟨last, prints, rest, regs, stack, printed⟩ :=
    @skip_steps arg buffer ready arg 8 filled (Nat.le_refl 8) bound rfl
  refine ⟨last, (stepTimes_steps starts).trans (fills.trans
    ((stepTimes_steps readies).trans prints)), rest, regs.trans kept.saved,
    stack.trans kept.stack, ?_⟩
  rw [printed]
  exact congrArg (· ++ _) kept.printed

end PutHex

/-- `put_hex` passes to `put_char` the characters that `vsprintf` leaves for
`%x` with the same argument. -/
theorem putHex_eq_vsprintf (value : BitVec 32) (buffer : Nat)
    (run : PutHex.Activation) {memory : ByteMemory}
    {resBuf size formatPtr ap : Nat}
    (call : FormatCall memory resBuf size formatPtr ap
      [ascii '%', ascii 'x'] [.number value]) :
    ∃ text after length,
      Expands [ascii '%', ascii 'x'] [.number value] text ∧
      Returns (fun fuel => vsprintf fuel memory resBuf formatPtr ap)
        (after, length) ∧
      after.Holds resBuf text ∧
      PutHex.Prints value.toNat buffer run text := by
  obtain ⟨text, length, expands, -, returned⟩ := call.returns
  have held := (ByteMemory.holds_append.mp (ByteMemory.holds_storeBytes memory
    resBuf (text ++ terminator [ascii '%', ascii 'x']))).1
  have prints := PutHex.prints_numeral buffer run value.isLt
  rw [← expands.single.hex_eq rfl rfl] at prints
  exact ⟨text, _, length, expands, returned, held, prints⟩

def beef : ByteMemory where
  byte address :=
    if address = 100 then ascii '%'
    else if address = 101 then ascii 'x'
    else if address = 204 then 0xef
    else if address = 205 then 0xbe
    else 0

private theorem expands_beef {text : List (BitVec 8)}
    (expands : Expands [ascii '%', ascii 'x'] [.number 0xbeef#32] text) :
    text = ['B', 'E', 'E', 'F'].map ascii := by
  have shown : IsNumeral 16 48879 [11, 14, 14, 15] := by
    refine ⟨by decide, by decide, by decide, ?_⟩
    simp [Nat.ofDigits_cons]
  have value : (0xbeef#32).toNat = 48879 := by decide
  rw [expands.single.hex_eq rfl rfl, value, ← shown.eq_numeral (by decide)]
  decide

/-- Both show the word `0xbeef` as `BEEF`. -/
theorem putHex_eq_vsprintf_beef :
    ∃ after length,
      Returns (fun fuel => vsprintf fuel beef 1000 100 200)
        (after, length) ∧
      after.Holds 1000 (['B', 'E', 'E', 'F'].map ascii) ∧
      PutHex.Prints 0xbeef 5000
        ⟨⟨0, 0, 0, 0, 0⟩, ⟨0, 0, 0, 0, 0⟩, 0, 0, beef, [], [], []⟩
        (['B', 'E', 'E', 'F'].map ascii) := by
  have word : beef.loadWord 204 = 48879 := by decide
  obtain ⟨text, after, length, expands, returned, held, prints⟩ :=
    @putHex_eq_vsprintf 0xbeef#32 5000
      ⟨⟨0, 0, 0, 0, 0⟩, ⟨0, 0, 0, 0, 0⟩, 0, 0, beef, [], [], []⟩
      beef 1000 12 100 200
      { notNull := by decide
        inSpace := by decide
        string := ⟨⟨rfl, rfl, rfl, True.intro⟩, by decide, by decide⟩
        outside := Or.inl (by decide)
        wellFormed := wellFormed_single (by decide)
        kinds := .cons (.hex _) .nil
        passed := ⟨by decide, Or.inl (by decide), word, True.intro⟩
        fits := by
          intro text expands
          rw [expands_beef expands]
          decide }
  rw [expands_beef expands] at held prints
  exact ⟨after, length, returned, held, prints⟩

end Simos
