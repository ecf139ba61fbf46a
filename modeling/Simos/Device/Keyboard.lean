import Simos.Device.IoqueueSleep

/-!
# The keyboard (`device/keyboard.c`)

`keyboard_service` reads one byte, keeps the modifier keys in `g_key_status`
and puts the character of a make code into `kbd_buff`.  Boot never calls
`ioqueue_init` for `kbd_buff`, so that its lock starts out taken by nobody.

* `kbd_reader_awake`: a reader that never finds the buffer empty never sleeps;
* `kbd_reader_sleeps`: one that does sleeps for ever, whatever is typed.
-/

namespace Simos

open Simos.Library

/-! ## Scancodes -/

def ctrlLMake : Nat := 0x1d
def ctrlLBreak : Nat := 0x9d
def altLMake : Nat := 0x38
def altLBreak : Nat := 0xb8
def shiftRMake : Nat := 0x36
def shiftRBreak : Nat := 0xb6
def shiftLMake : Nat := 0x2a
def shiftLBreak : Nat := 0xaa
def capsLockMake : Nat := 0x3a

/-- `keymap`: the character without and with shift. -/
def keymap : List (UInt8 × UInt8) :=
  [
    -- 0x00
    (0, 0), (27, 27), (49, 33), (50, 64),
    (51, 35), (52, 36), (53, 37), (54, 94),
    -- 0x08
    (55, 38), (56, 42), (57, 40), (48, 41),
    (45, 95), (61, 43), (8, 8), (9, 9),
    -- 0x10
    (113, 81), (119, 87), (101, 69), (114, 82),
    (116, 84), (121, 89), (117, 85), (105, 73),
    -- 0x18
    (111, 79), (112, 80), (91, 123), (93, 125),
    (13, 13), (0, 0), (97, 65), (115, 83),
    -- 0x20
    (100, 68), (102, 70), (103, 71), (104, 72),
    (106, 74), (107, 75), (108, 76), (59, 58),
    -- 0x28
    (39, 34), (96, 126), (0, 0), (92, 124),
    (122, 90), (120, 88), (99, 67), (118, 86),
    -- 0x30
    (98, 66), (110, 78), (109, 77), (44, 60),
    (46, 62), (47, 63), (0, 0), (42, 42),
    -- 0x38
    (0, 0), (32, 32), (0, 0), (0, 0),
    (0, 0), (0, 0), (0, 0), (0, 0),
    -- 0x40
    (0, 0), (0, 0), (0, 0), (0, 0),
    (0, 0), (0, 0), (0, 0), (55, 55),
    -- 0x48
    (56, 56), (57, 57), (45, 45), (52, 52),
    (53, 53), (54, 54), (43, 43), (49, 49),
    -- 0x50
    (50, 50), (51, 51), (48, 48), (46, 46) ]

/-- `keymap[keyCode][column]`; `beyond` is what lies behind the table. -/
def keymapAt (beyond : Nat → Nat → UInt8) (keyCode column : Nat) : UInt8 :=
  match keymap[keyCode]? with
  | some (plain, shifted) => if column = 0 then plain else shifted
  | none => beyond keyCode column

/-- `SET_BIT`, stored into an `int8_t` -/
def setBit (operand : BitVec 8) (nbit : Nat) : BitVec 8 :=
  operand ||| BitVec.ofNat 8 (1 <<< nbit)

/-- `CLEAR_BIT`, stored into an `int8_t` -/
def clearBit (operand : BitVec 8) (nbit : Nat) : BitVec 8 :=
  operand &&& ~~~ BitVec.ofNat 8 (1 <<< nbit)

def getBit (operand : BitVec 8) (nbit : Nat) : Nat :=
  ((operand &&& BitVec.ofNat 8 (1 <<< nbit)) >>> nbit).toNat

/-- The `switch` of `keyboard_service`.  The case of the left control key goes
on into that of the left alt key when the key is released. -/
def keySwitch (status : BitVec 8) (scancode : Nat) : BitVec 8 :=
  let code := scancode &&& 0x00ff
  let extended := scancode &&& 0xff00 ≠ 0
  if code = ctrlLMake then
    setBit status (if extended then 4 else 1)
  else if code = altLMake then
    setBit status (if extended then 5 else 2)
  else if code = shiftLMake then
    setBit status 0
  else if code = shiftRMake then
    setBit status 3
  else if code = capsLockMake then
    if status &&& 0x40 ≠ 0 then clearBit status 6 else setBit status 6
  else if code = ctrlLBreak then
    let status := clearBit status (if extended then 4 else 1)
    clearBit status (if extended then 5 else 2)
  else if code = altLBreak then
    clearBit status (if extended then 5 else 2)
  else if code = shiftLBreak then
    clearBit status 0
  else if code = shiftRBreak then
    clearBit status 3
  else
    status

def keyChar (beyond : Nat → Nat → UInt8) (keyCode : Nat)
    (status : BitVec 8) : UInt8 :=
  let shift := getBit status 0 ||| getBit status 3
  let capsLock := getBit status 6
  if capsLock ≠ 0 then
    keymapAt beyond keyCode (if shift ≠ 0 then 0 else 1)
  else
    keymapAt beyond keyCode (if shift ≠ 0 then 1 else 0)

/-- `key_output` by the interrupt handler of the running task `cur`, without
the echo on the screen. -/
def keyOutput (beyond : Nat → Nat → UInt8) (kbdBuff : IoqUse) (cur : Nat)
    (keyCode : Nat) (status : BitVec 8) : Call IoqUse := do
  let curKey := keyChar beyond keyCode status
  if ioqFull kbdBuff.ioq = false then
    let (kbdBuff, _) ← kbdBuff.ioqPutchar cur curKey none
    return kbdBuff
  else
    return kbdBuff

/-- `g_key_status`, `kbd_buff` and the threads that use the buffer. -/
structure KbdUse where
  gKeyStatus : BitVec 8
  kbdBuff : IoqUse

/-- `keyboard_service` once the scancode is complete. -/
def scancodeService (beyond : Nat → Nat → UInt8) (s : KbdUse) (cur : Nat)
    (scancode : Nat) : Call KbdUse := do
  let status := keySwitch s.gKeyStatus scancode
  if (scancode &&& 0x00ff) >>> 7 = 0 then
    let kbdBuff ← keyOutput beyond s.kbdBuff cur (scancode &&& 0x00ff) status
    return ⟨status, kbdBuff⟩
  else
    return { s with gKeyStatus := status }

/-- `keyboard_service` for the byte that the keyboard port holds. -/
def keyboardService (beyond : Nat → Nat → UInt8) (s : KbdUse) (cur : Nat)
    (byte : Nat) : Call KbdUse :=
  if byte = 0xe0 then
    return { s with gKeyStatus := setBit s.gKeyStatus 7 }
  else if s.gKeyStatus &&& 0x80 ≠ 0 then
    scancodeService beyond { s with gKeyStatus := clearBit s.gKeyStatus 7 } cur
      (byte + 0xe000)
  else
    scancodeService beyond s cur byte

/-! ## One reader -/

/-- A keyboard interrupt, or a piece of `ioq_getchar` by the reader. -/
inductive KbdEvent where
  | key (cur byte : Nat)
  | getchar (ending : IoqEnd)

/-- The interrupt comes while some task is running outside of the calls; the
reader runs when it is not blocked. -/
inductive KbdStep (beyond : Nat → Nat → UInt8) (reader : Nat) :
    KbdUse → KbdEvent → KbdUse → Prop
  | key {s s' : KbdUse} {cur byte : Nat} :
      cur ≠ 0 → byte < 256 → s.kbdBuff.mode cur = .outside →
      keyboardService beyond s cur byte = .ok s' →
      KbdStep beyond reader s (.key cur byte) s'
  | getchar {s : KbdUse} {kbdBuff : IoqUse} {place : Option IoqPlace}
      {ending : IoqEnd} :
      reader ≠ 0 → (s.kbdBuff.mode reader).Ready .getchar place →
      (s.kbdBuff.goto reader .outside).ioqGetchar reader place =
        .ok (kbdBuff, ending) →
      KbdStep beyond reader s (.getchar ending) ⟨s.gKeyStatus, kbdBuff⟩

/-- The statics of the keyboard after boot: nothing has initialised
`kbd_buff`. -/
def kbdBoot : KbdUse :=
  ⟨0, ioqUse ⟨⟨0, ⟨0, []⟩, 0⟩, 0, 0, fun _ => 0, 0, 0⟩⟩

/-- The buffer holds a character and the reader sleeps. -/
def MissedKey (reader : Nat) (s : KbdUse) : Prop :=
  ioqEmpty s.kbdBuff.ioq = false ∧ (s.kbdBuff.mode reader).Asleep

/-- A call of `ioq_getchar` starts only while the buffer holds a
character. -/
def FindsChar (reader : Nat) (s : KbdUse) : KbdEvent → Prop
  | .key _ _ => True
  | .getchar _ =>
      s.kbdBuff.mode reader = .outside → ioqEmpty s.kbdBuff.ioq = false

/-- What holds in every run from boot: nobody owns the lock of the buffer, and
nobody can take it. -/
structure KbdOk (reader : Nat) (s : KbdUse) : Prop where
  producer : s.kbdBuff.ioq.producer = 0
  consumer : s.kbdBuff.ioq.consumer = 0
  holder : s.kbdBuff.ioq.lock.holder = 0
  taken : s.kbdBuff.ioq.lock.semaphore.value = 0
  inside : s.kbdBuff.ioq.Inside
  mode : s.kbdBuff.mode reader = .outside ∨
    s.kbdBuff.mode reader = .blocked .getchar .lock

/-- `key_output` leaves the buffer alone or puts one character. -/
theorem keyOutput_ok {beyond : Nat → Nat → UInt8} {kbdBuff kbdBuff' : IoqUse}
    {cur keyCode : Nat} {status : BitVec 8}
    (returned : keyOutput beyond kbdBuff cur keyCode status = .ok kbdBuff') :
    kbdBuff' = kbdBuff ∨
      ∃ ending, kbdBuff.ioq.mustWait (.putchar 0) = false ∧
        kbdBuff.putcharEnd cur (keyChar beyond keyCode status) =
          .ok (kbdBuff', ending) := by
  unfold keyOutput at returned
  by_cases space : ioqFull kbdBuff.ioq = false
  · simp only [if_pos space, Call.bind_eq_ok_iff, Call.pure_eq_ok,
      Except.ok.injEq] at returned
    obtain ⟨⟨next, ending⟩, put, rfl⟩ := returned
    refine Or.inr ⟨ending, space, ?_⟩
    rw [← put]
    simp [IoqUse.ioqPutchar, IoqUse.callFrom, IoqUse.fromTest,
      Ioqueue.mustWait, space, IoqUse.callEnd]
  · simp only [if_neg space, Call.pure_eq_ok, Except.ok.injEq] at returned
    exact Or.inl returned.symm

/-- A keyboard interrupt leaves the buffer alone or puts one character. -/
theorem keyboardService_ok {beyond : Nat → Nat → UInt8} {s s' : KbdUse}
    {cur byte : Nat} (returned : keyboardService beyond s cur byte = .ok s') :
    s'.kbdBuff = s.kbdBuff ∨
      ∃ ch ending, s.kbdBuff.ioq.mustWait (.putchar 0) = false ∧
        s.kbdBuff.putcharEnd cur ch = .ok (s'.kbdBuff, ending) := by
  have decoded : ∀ {s : KbdUse} {scancode : Nat},
      scancodeService beyond s cur scancode = .ok s' →
      s'.kbdBuff = s.kbdBuff ∨
        ∃ ch ending, s.kbdBuff.ioq.mustWait (.putchar 0) = false ∧
          s.kbdBuff.putcharEnd cur ch = .ok (s'.kbdBuff, ending) := by
    intro s scancode returned
    unfold scancodeService at returned
    split at returned
    · simp only [Call.bind_eq_ok_iff, Call.pure_eq_ok,
        Except.ok.injEq] at returned
      obtain ⟨kbdBuff, output, rfl⟩ := returned
      rcases keyOutput_ok output with same | ⟨ending, space, put⟩
      · exact Or.inl same
      · exact Or.inr ⟨_, ending, space, put⟩
    · simp only [Call.pure_eq_ok, Except.ok.injEq] at returned
      exact Or.inl (returned ▸ rfl)
  unfold keyboardService at returned
  split at returned
  · simp only [Call.pure_eq_ok, Except.ok.injEq] at returned
    exact Or.inl (returned ▸ rfl)
  · split at returned
    · have changed := decoded returned
      exact changed
    · exact decoded returned

namespace KbdOk

variable {beyond : Nat → Nat → UInt8} {reader : Nat} {s s' : KbdUse}

private theorem start (reader : Nat) : KbdOk reader kbdBoot :=
  ⟨rfl, rfl, rfl, rfl, ⟨Nat.zero_lt_succ 63, Nat.zero_lt_succ 63⟩, Or.inl rfl⟩

/-- A keyboard interrupt wakes nobody. -/
theorem key (ok : KbdOk reader s) {cur byte : Nat}
    (running : s.kbdBuff.mode cur = .outside)
    (returned : keyboardService beyond s cur byte = .ok s') :
    KbdOk reader s' ∧
      s'.kbdBuff.mode reader = s.kbdBuff.mode reader := by
  rcases keyboardService_ok returned with same | ⟨ch, ending, space, put⟩
  · obtain ⟨producer, consumer, holder, taken, inside, mode⟩ := ok
    rw [← same] at producer consumer holder taken inside mode
    exact ⟨⟨producer, consumer, holder, taken, inside, mode⟩, by rw [same]⟩
  · have moved := IoqUse.callEnd_moves (.putchar ch) ok.inside space put
    simp only [IoqUse.putcharEnd, IoqUse.wakeRegistered, Ioqueue.waiter,
      ok.consumer, ne_eq, not_true_eq_false, if_false, Call.pure_eq_ok,
      Call.ok_bind, Except.ok.injEq, Prod.mk.injEq] at put
    obtain ⟨put, _⟩ := put
    have sameMode : s'.kbdBuff.mode reader = s.kbdBuff.mode reader := by
      rw [← put]
      by_cases isReader : reader = cur
      · simp [IoqUse.goto, isReader, running]
      · simp [IoqUse.goto, isReader]
    refine ⟨⟨?_, ?_, ?_, ?_, moved.1, ?_⟩, sameMode⟩
    · rw [← put]
      exact ok.producer
    · rw [← put]
      rfl
    · rw [← put]
      exact ok.holder
    · rw [← put]
      exact ok.taken
    · rw [sameMode]
      exact ok.mode

/-- The reader takes a character, or it finds the buffer empty and goes to
sleep for the lock. -/
theorem getchar (ok : KbdOk reader s) (nonNull : reader ≠ 0)
    {place : Option IoqPlace} {kbdBuff : IoqUse} {ending : IoqEnd}
    (ready : (s.kbdBuff.mode reader).Ready .getchar place)
    (returned : (s.kbdBuff.goto reader .outside).ioqGetchar reader place =
      .ok (kbdBuff, ending)) :
    KbdOk reader ⟨s.gKeyStatus, kbdBuff⟩ ∧
      s.kbdBuff.mode reader = .outside ∧
      (kbdBuff.mode reader = .outside ↔ ioqEmpty s.kbdBuff.ioq = false) := by
  have outside : s.kbdBuff.mode reader = .outside := by
    rcases ok.mode with outside | blocked
    · exact outside
    · rw [blocked] at ready
      cases ready
  have stays : s.kbdBuff.goto reader .outside = s.kbdBuff := by
    rw [IoqUse.goto, ← outside, Function.update_eq_self]
  rw [outside] at ready
  cases ready with
  | call =>
      rw [stays] at returned
      have moved := IoqUse.fromTest_moves ok.inside returned
      simp only [IoqUse.ioqGetchar, IoqUse.callFrom,
        IoqUse.fromTest] at returned
      by_cases empty : s.kbdBuff.ioq.mustWait .getchar = true
      · have notHolder : s.kbdBuff.ioq.lock.holder ≠ reader := by
          rw [ok.holder]
          exact nonNull.symm
        rw [if_pos empty, Call.bind_eq_ok_iff] at returned
        obtain ⟨⟨lock, waits⟩, acquired, blocked⟩ := returned
        obtain ⟨rfl, rfl⟩ :=
          lockAcquire_of_zero notHolder ok.taken acquired
        simp only [IoqUse.afterRound, if_true, Call.pure_eq_ok,
          Except.ok.injEq, Prod.mk.injEq] at blocked
        obtain ⟨rfl, _⟩ := blocked
        refine ⟨⟨ok.producer, ok.consumer, ok.holder, rfl, ok.inside,
          Or.inr ?_⟩, outside, ?_⟩
        · simp [IoqUse.goto]
        · simpa [IoqUse.goto, Ioqueue.mustWait] using empty
      · simp only [if_neg empty, IoqUse.callEnd, IoqUse.getcharEnd,
          IoqUse.wakeRegistered, Ioqueue.waiter, ok.producer, ne_eq,
          not_true_eq_false, if_false, Call.pure_eq_ok, Call.ok_bind,
          Except.ok.injEq, Prod.mk.injEq] at returned
        obtain ⟨rfl, _⟩ := returned
        refine ⟨⟨rfl, ok.consumer, ok.holder, ok.taken, moved.1,
          Or.inl ?_⟩, outside, ?_⟩
        · simp [IoqUse.goto]
        · simpa [IoqUse.goto, Ioqueue.mustWait] using empty

theorem of_run {trace : List (KbdEvent × KbdUse)}
    (run : Run (KbdStep beyond reader) kbdBoot trace s) : KbdOk reader s := by
  refine run.invariant (start reader) ?_
  intro state event next ok taken
  cases taken with
  | key _ _ running returned =>
      exact (ok.key running returned).1
  | getchar nonNull ready returned =>
      exact (ok.getchar nonNull ready returned).1

end KbdOk

/-- A reader that finds the buffer empty once sleeps for ever: no key and no
other call wakes it. -/
theorem kbd_reader_sleeps {beyond : Nat → Nat → UInt8} {reader : Nat}
    {trace later : List (KbdEvent × KbdUse)} {middle last : KbdUse}
    (run : Run (KbdStep beyond reader) kbdBoot trace middle)
    (asleep : (middle.kbdBuff.mode reader).Asleep)
    (rest : Run (KbdStep beyond reader) middle later last) :
    (last.kbdBuff.mode reader).Asleep := by
  have preserved : ∀ state event next,
      KbdOk reader state ∧ (state.kbdBuff.mode reader).Asleep →
      KbdStep beyond reader state event next →
      KbdOk reader next ∧ (next.kbdBuff.mode reader).Asleep := by
    intro state event next held taken
    obtain ⟨ok, asleep⟩ := held
    cases taken with
    | key _ _ running returned =>
        have moved := ok.key running returned
        exact ⟨moved.1, moved.2 ▸ asleep⟩
    | getchar nonNull ready returned =>
        have outside := (ok.getchar nonNull ready returned).2.1
        rw [outside] at asleep
        exact (IoqMode.not_asleep_outside asleep).elim
  exact (rest.invariant ⟨KbdOk.of_run run, asleep⟩ preserved).2

/-- When every call of `ioq_getchar` finds a character, the reader never
sleeps, so that it misses no key. -/
theorem kbd_missedKey_free {beyond : Nat → Nat → UInt8} {reader : Nat}
    {trace : List (KbdEvent × KbdUse)} {last : KbdUse}
    (run : Run (Guarded (KbdStep beyond reader) (FindsChar reader)) kbdBoot
      trace last) :
    ∀ event state, (event, state) ∈ trace → ¬ MissedKey reader state := by
  have preserved : ∀ state event next,
      KbdOk reader state ∧ state.kbdBuff.mode reader = .outside →
      Guarded (KbdStep beyond reader) (FindsChar reader) state event next →
      KbdOk reader next ∧ next.kbdBuff.mode reader = .outside := by
    intro state event next held taken
    obtain ⟨ok, outside⟩ := held
    obtain ⟨taken, finds⟩ := taken
    cases taken with
    | key _ _ running returned =>
        have moved := ok.key running returned
        exact ⟨moved.1, moved.2.trans outside⟩
    | getchar nonNull ready returned =>
        have moved := ok.getchar nonNull ready returned
        exact ⟨moved.1, moved.2.2.mpr (finds outside)⟩
  have kept := run.forall_mem preserved ⟨KbdOk.start reader, rfl⟩
  intro event state member missed
  have asleep := missed.2
  rw [(kept event state member).2] at asleep
  exact IoqMode.not_asleep_outside asleep

/-- The statement at a key that comes before the call. -/
theorem kbd_missedKey_free_one :
    ∃ trace last,
      Run (Guarded (KbdStep (fun _ _ => 0) 1) (FindsChar 1)) kbdBoot trace
          last ∧
        trace.length = 2 ∧
        ∀ event state, (event, state) ∈ trace → ¬ MissedKey 1 state := by
  have typed := Run.start.next
    (show Guarded (KbdStep (fun _ _ => 0) 1) (FindsChar 1) kbdBoot
        (.key 2 0x1e) _ from
      ⟨.key (by decide) (by decide) rfl rfl, trivial⟩)
  have taken := typed.next
    (show Guarded (KbdStep (fun _ _ => 0) 1) (FindsChar 1) _
        (.getchar (.getchar 97)) _ from
      ⟨.getchar (by decide) (.call .getchar) rfl, fun _ => rfl⟩)
  exact ⟨_, _, taken, rfl, kbd_missedKey_free taken⟩

/-- The reader 1 calls `ioq_getchar` before the first key; the key is stored
while the interrupted task is 2, and the reader goes on sleeping. -/
theorem kbd_missedKey :
    ∃ trace last, Run (KbdStep (fun _ _ => 0) 1) kbdBoot trace last ∧
      trace.map Prod.fst = [.getchar .blocked, .key 2 0x1e] ∧
      MissedKey 1 last := by
  have waits := Run.start.next
    (show KbdStep (fun _ _ => 0) 1 kbdBoot (.getchar .blocked) _ from
      .getchar (by decide) (.call .getchar) rfl)
  have typed := waits.next
    (show KbdStep (fun _ _ => 0) 1 _ (.key 2 0x1e) _ from
      .key (by decide) (by decide) rfl rfl)
  exact ⟨_, _, typed, rfl, rfl, ⟨.getchar, .lock, rfl⟩⟩

end Simos
