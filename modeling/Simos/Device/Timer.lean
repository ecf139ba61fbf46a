import Mathlib.Data.List.Induction
import Mathlib.Order.Bounds.Defs
import Simos.Kernel.Call

/-!
# Sleeping (`device/timer.c`)

`timer_init` programs the counter of the 8253 with two bytes, and `mil_sleep`
counts clock interrupts.  Between two tests of the loop in `ticks_to_sleep` the
other threads run, and any number of clock interrupts may come.

* `MilSleep.proceeded_iff`: when the caller goes on, for every schedule;
* `milSleep_never`: for no argument is that the time asked for, because the
  high byte of the reload value is lost and the milliseconds are multiplied
  by ten.
-/

namespace Simos

/-! ## The counter -/

def irq0Frequency : Nat := 100

def inputFrequency : Nat := 1193180

def counter0Value : Nat := inputFrequency / irq0Frequency

def contrer0Port : Nat := 0x40

def counter0No : Nat := 0

def counterMode : Nat := 2

def readWriteLatch : Nat := 3

def pitControlPort : Nat := 0x43

def millisecondPerIntr : Nat := 1000 / irq0Frequency

def u8 (value : Nat) : Nat :=
  value % 256

/-- The writes of `frequency_set`, each a port and a byte.  The cast in the last
one comes before the shift. -/
def frequencySet (counterPort counterNo rwl counterMode counterValue : Nat) :
    List (Nat × Nat) :=
  [(pitControlPort, u8 (counterNo <<< 6 ||| rwl <<< 4 ||| counterMode <<< 1)),
    (counterPort, u8 counterValue),
    (counterPort, u8 counterValue >>> 8)]

def timerInit : List (Nat × Nat) :=
  frequencySet contrer0Port counter0No readWriteLatch counterMode counter0Value

/-- The reload value after two writes to the counter port, the low byte first;
zero stands for `65536`. -/
def reloadValue (writes : List (Nat × Nat)) : Nat :=
  match writes.filter fun write => write.1 = contrer0Port with
  | [(_, low), (_, high)] =>
      if low + 256 * high = 0 then 65536 else low + 256 * high
  | _ => 0

private theorem reloadValue_timerInit : reloadValue timerInit = 155 := by
  decide

/-! ## The sleep -/

/-- `DIV_ROUND_UP`, in `uint32_t` -/
def divRoundUp (x step : Nat) : Nat :=
  u32 (u32 x + step - 1) / step

/-- A call of `mil_sleep` that is in the loop of `ticks_to_sleep`, or behind
it. -/
structure MilSleep where
  ticks : Nat
  startTicks : Nat
  sleepTicks : Nat
  proceeded : Bool

/-- `mil_sleep` up to the loop. -/
def milSleep (mSecond ticks : Nat) : Call MilSleep := do
  let sleepTicks := divRoundUp (u32 (mSecond * 100)) millisecondPerIntr
  Call.assert (sleepTicks > 0)
  return ⟨ticks, ticks, sleepTicks, false⟩

/-- A clock interrupt, or the caller gets the processor and tests the condition
of its loop. -/
inductive SleepEvent where
  | clock
  | test
  deriving DecidableEq, Repr

namespace MilSleep

/-- A failed test is followed by `thread_yield`. -/
def step (s : MilSleep) : SleepEvent → MilSleep
  | .clock => { s with ticks := u32 (s.ticks + 1) }
  | .test =>
      if sub32 s.ticks s.startTicks < s.sleepTicks then s
      else { s with proceeded := true }

def run (s : MilSleep) (events : List SleepEvent) : MilSleep :=
  events.foldl step s

end MilSleep

def clocks (events : List SleepEvent) : Nat :=
  events.count .clock

/-- The caller was tested after `wanted` clock interrupts or more. -/
def SleptEnough (wanted : Nat) (events : List SleepEvent) : Prop :=
  ∃ before after, events = before ++ .test :: after ∧ wanted ≤ clocks before

/-- The numbers of interrupts that cover the time asked for:
`m / 1000 ≤ k * r / 1193180`, multiplied out. -/
def Covers (reload mSecond wanted : Nat) : Prop :=
  mSecond * 1193180 ≤ wanted * reload * 1000

/-- `mil_sleep` lets the caller go on at the first test after the least number
of interrupts that cover the time, in every schedule in which the tick counter
does not come around. -/
def SleepsAsAsked (mSecond ticks : Nat) : Prop :=
  ∃ s wanted, milSleep mSecond ticks = .ok s ∧
    IsLeast {count | Covers (reloadValue timerInit) mSecond count} wanted ∧
    ∀ events, clocks events < 4294967296 →
      ((s.run events).proceeded = true ↔ SleptEnough wanted events)

private theorem clocks_append (before after : List SleepEvent) :
    clocks (before ++ after) = clocks before + clocks after :=
  List.count_append

private theorem sleptEnough_append {wanted : Nat} (events : List SleepEvent)
    (event : SleepEvent) :
    SleptEnough wanted (events ++ [event]) ↔
      SleptEnough wanted events ∨
        (event = .test ∧ wanted ≤ clocks events) := by
  constructor
  · rintro ⟨before, after, split, enough⟩
    rcases List.eq_nil_or_concat after with rfl | ⟨earlier, last, rfl⟩
    · obtain ⟨rfl, same⟩ := List.append_inj' split rfl
      simp only [List.cons.injEq, and_true] at same
      exact Or.inr ⟨same, enough⟩
    · have shape : events ++ [event] =
          (before ++ SleepEvent.test :: earlier) ++ [last] := by
        simp [split]
      obtain ⟨rfl, -⟩ := List.append_inj' shape rfl
      exact Or.inl ⟨before, earlier, rfl, enough⟩
  · rintro (⟨before, after, rfl, enough⟩ | ⟨rfl, enough⟩)
    · exact ⟨before, after ++ [event], by simp, enough⟩
    · exact ⟨events, [], rfl, enough⟩

namespace MilSleep

/-- What a schedule does to a call: the tick counter has gone on, and the caller
has gone on if a test found enough ticks. -/
structure After (first : MilSleep) (events : List SleepEvent) (s : MilSleep) :
    Prop where
  ticks : s.ticks % 4294967296 = (first.ticks + clocks events) % 4294967296
  startTicks : s.startTicks = first.ticks
  sleepTicks : s.sleepTicks = first.sleepTicks
  proceeded : s.proceeded = true ↔ SleptEnough first.sleepTicks events

private theorem After.step {first s : MilSleep} {events : List SleepEvent}
    (known : After first events s)
    (bound : clocks events < 4294967296) (event : SleepEvent) :
    After first (events ++ [event]) (s.step event) := by
  obtain ⟨ticks, startTicks, sleepTicks, proceeded⟩ := known
  cases event with
  | clock =>
      refine ⟨?_, startTicks, sleepTicks, ?_⟩
      · rw [clocks_append]
        change u32 (s.ticks + 1) % 4294967296 =
          (first.ticks + (clocks events + 1)) % 4294967296
        unfold u32
        omega
      · rw [sleptEnough_append]
        change s.proceeded = true ↔ _
        simp [proceeded]
  | test =>
      have passed : sub32 s.ticks s.startTicks = clocks events := by
        rw [startTicks]
        unfold sub32 u32
        omega
      have counted : clocks (events ++ [.test]) = clocks events := by
        rw [clocks_append]
        rfl
      unfold MilSleep.step
      simp only [passed, sleepTicks]
      by_cases early : clocks events < first.sleepTicks
      · rw [if_pos early]
        refine ⟨by rw [counted]; exact ticks, startTicks, sleepTicks, ?_⟩
        rw [sleptEnough_append, proceeded]
        simp [early]
      · rw [if_neg early]
        refine ⟨by rw [counted]; exact ticks, startTicks, rfl, ?_⟩
        rw [sleptEnough_append]
        simp only [true_and, true_iff]
        exact Or.inr (by omega)

theorem after_run {first : MilSleep} (start : first.startTicks = first.ticks)
    (waits : first.proceeded = false) :
    ∀ events, clocks events < 4294967296 →
      After first events (first.run events) := by
  intro events
  induction events using List.reverseRecOn with
  | nil =>
      intro _
      refine ⟨rfl, start, rfl, ?_⟩
      constructor
      · intro proceeded
        rw [run, List.foldl_nil, waits] at proceeded
        cases proceeded
      · rintro ⟨before, after, split, -⟩
        simp at split
  | append_singleton events event inductionHypothesis =>
      intro bound
      rw [clocks_append] at bound
      have earlier := inductionHypothesis (by omega)
      have later := earlier.step (by omega) event
      rw [run, List.foldl_append]
      exact later

end MilSleep

theorem milSleep_proceeded_iff {mSecond ticks : Nat} {s : MilSleep}
    (called : milSleep mSecond ticks = .ok s) :
    s.sleepTicks = (mSecond * 100 + 9) % 4294967296 / 10 ∧ 0 < s.sleepTicks ∧
      ∀ events, clocks events < 4294967296 →
        ((s.run events).proceeded = true ↔
          SleptEnough s.sleepTicks events) := by
  simp only [milSleep, Call.bind_eq_ok_iff, Call.assert_eq_ok_iff,
    Call.pure_eq_ok, Except.ok.injEq, exists_const] at called
  obtain ⟨positive, rfl⟩ := called
  refine ⟨?_, positive, fun events bound =>
    (MilSleep.after_run rfl rfl events bound).proceeded⟩
  simp only [divRoundUp, u32, millisecondPerIntr, irq0Frequency]
  omega

/-- The schedule in which the caller is tested once, after so many
interrupts. -/
def testedAfter (count : Nat) : List SleepEvent :=
  List.replicate count .clock ++ [.test]

private theorem clocks_replicate (count : Nat) :
    clocks (List.replicate count .clock) = count :=
  List.count_replicate_self

private theorem sleptEnough_testedAfter (wanted count : Nat) :
    SleptEnough wanted (testedAfter count) ↔ wanted ≤ count := by
  rw [testedAfter, sleptEnough_append, clocks_replicate]
  constructor
  · rintro (⟨before, after, split, -⟩ | ⟨-, enough⟩)
    · have member : SleepEvent.test ∈ List.replicate count .clock := by
        rw [split]
        simp
      exact SleepEvent.noConfusion (List.eq_of_mem_replicate member)
    · exact enough
  · intro enough
    exact Or.inr ⟨rfl, enough⟩

/-- The number of ticks that `mil_sleep` waits never is the one that covers the
time. -/
theorem sleepTicks_ne {mSecond wanted : Nat} (positive : 1 ≤ mSecond)
    (bound : mSecond < 4294967296)
    (least : IsLeast {count | Covers 155 mSecond count} wanted) :
    (mSecond * 100 + 9) % 4294967296 / 10 ≠ wanted := by
  have covers : mSecond * 1193180 ≤ wanted * 155 * 1000 := least.1
  have before : ¬ mSecond * 1193180 ≤ (wanted - 1) * 155 * 1000 := by
    intro earlier
    have smallest : wanted ≤ wanted - 1 := least.2 earlier
    omega
  have parts := Nat.div_add_mod (mSecond * 100 + 9) 4294967296
  have small := Nat.mod_lt (mSecond * 100 + 9) (by decide : 0 < 4294967296)
  generalize (mSecond * 100 + 9) / 4294967296 = wraps at parts
  generalize (mSecond * 100 + 9) % 4294967296 = rest at parts small ⊢
  intro same
  -- without a wrap ten ticks are counted for a millisecond, and after a wrap
  -- there are too few left
  rcases Nat.eq_zero_or_pos wraps with zero | wrapped
  · omega
  · omega

/-- For no argument does `mil_sleep` wait for the time asked for. -/
theorem milSleep_never {mSecond ticks : Nat} (positive : 1 ≤ mSecond)
    (bound : mSecond < 4294967296) : ¬ SleepsAsAsked mSecond ticks := by
  rintro ⟨s, wanted, called, least, asAsked⟩
  obtain ⟨sleepTicks, -, proceeded⟩ := milSleep_proceeded_iff called
  rw [reloadValue_timerInit] at least
  have different := sleepTicks_ne positive bound least
  rw [← sleepTicks] at different
  -- a test after the smaller of the two numbers tells them apart
  have small : s.sleepTicks < 4294967296 := by
    omega
  have counted : clocks (testedAfter (min s.sleepTicks wanted)) <
      4294967296 := by
    rw [testedAfter, clocks_append, clocks_replicate]
    change min s.sleepTicks wanted + 0 < 4294967296
    omega
  have agree := (proceeded _ counted).symm.trans (asAsked _ counted)
  rw [sleptEnough_testedAfter, sleptEnough_testedAfter] at agree
  omega

theorem milSleep_never_second : ¬ SleepsAsAsked 1000 0xffffffff :=
  milSleep_never (by decide) (by decide)

/-- A second is over after 7698 interrupts, and a caller that is tested then
does not go on. -/
theorem milSleep_second_late :
    IsLeast {count | Covers (reloadValue timerInit) 1000 count} 7698 ∧
      ∃ s, milSleep 1000 0xffffffff = .ok s ∧
        SleptEnough 7698 (testedAfter 7698) ∧
        (s.run (testedAfter 7698)).proceeded = false := by
  rw [reloadValue_timerInit]
  have covered : Covers 155 1000 7698 :=
    (by decide : 1000 * 1193180 ≤ 7698 * 155 * 1000)
  refine ⟨⟨covered, ?_⟩, ⟨0xffffffff, 0xffffffff, 10000, false⟩, rfl,
    (sleptEnough_testedAfter 7698 7698).mpr (Nat.le_refl 7698), ?_⟩
  · intro count covers
    have enough : 1000 * 1193180 ≤ count * 155 * 1000 := covers
    omega
  · have counted : clocks (testedAfter 7698) < 4294967296 := by
      rw [testedAfter, clocks_append, clocks_replicate]
      decide
    have known := @MilSleep.after_run
      ⟨0xffffffff, 0xffffffff, 10000, false⟩ rfl rfl _ counted
    rw [← Bool.not_eq_true, known.proceeded, sleptEnough_testedAfter]
    decide

end Simos
