import Simos.Library.Ia32

/-!
# The stack as a list of words

Stack instructions are run a second time on a list, the words from the stack
pointer upwards, in place of the memory.  On symbolic registers such a run
computes, and `runCode_view` carries its result over to the memory:

* `View m words` says that the stack of `m` begins with `words`;
* `Instr.onStack` and `runOnStack` are the instructions on lists;
* `deliver_view` and `iret_view` are the same for interrupt gates.
-/

namespace Simos.Library.Ia32

/-- The words of a list stand in memory from `base` upwards. -/
def Holds (memory : ByteMemory) : Nat → List (BitVec 32) → Prop
  | _, [] => True
  | base, value :: values =>
      word memory base = value ∧ Holds memory (base + 4) values

section Words

variable {memory memory' : ByteMemory} {base : Nat} {values : List (BitVec 32)}

/-- The memories agree on the bytes of a range. -/
def AgreeOn (memory memory' : ByteMemory) (bottom top : Nat) : Prop :=
  ∀ address, bottom ≤ address → address < top →
    memory'.byte address = memory.byte address

theorem AgreeOn.mono {bottom top bottom' top' : Nat}
    (agree : AgreeOn memory memory' bottom top) (low : bottom ≤ bottom')
    (high : top' ≤ top) : AgreeOn memory memory' bottom' top' :=
  fun address above below => agree address (by omega) (by omega)

theorem word_congr {bottom top address : Nat}
    (agree : AgreeOn memory memory' bottom top)
    (inside : bottom ≤ address ∧ address + 4 ≤ top) :
    word memory' address = word memory address := by
  unfold word
  rw [ByteMemory.loadWord_congr fun offset small =>
    agree (address + offset) (by omega) (by omega)]

theorem word_storeWord (memory : ByteMemory) (address : Nat)
    (value : BitVec 32) :
    word (storeWord memory address value) address = value := by
  unfold word storeWord
  rw [ByteMemory.loadWord_storeWord_self _ _ value.isLt, BitVec.ofNat_toNat,
    BitVec.setWidth_eq]

theorem AgreeOn.storeWord (memory : ByteMemory) {bottom top address : Nat}
    (value : BitVec 32) (outside : top ≤ address ∨ address + 4 ≤ bottom) :
    AgreeOn memory (storeWord memory address value) bottom top :=
  fun tested above below =>
    ByteMemory.byte_storeWord_of_outside memory value.toNat (by omega)

theorem Holds.congr (holds : Holds memory base values)
    (agree : AgreeOn memory memory' base (base + 4 * values.length)) :
    Holds memory' base values := by
  induction values generalizing base with
  | nil =>
      trivial
  | cons value values inductionHypothesis =>
      simp only [List.length_cons] at agree
      refine ⟨?_, inductionHypothesis holds.2 (agree.mono (by omega) (by omega))⟩
      rw [word_congr agree (by omega)]
      exact holds.1

theorem holds_append {later : List (BitVec 32)} :
    Holds memory base (values ++ later) ↔
      Holds memory base values ∧
        Holds memory (base + 4 * values.length) later := by
  induction values generalizing base with
  | nil =>
      simp [Holds]
  | cons value values inductionHypothesis =>
      have shift : base + 4 * (value :: values).length =
          base + 4 + 4 * values.length := by
        rw [List.length_cons]
        omega
      rw [List.cons_append, Holds, Holds, inductionHypothesis, shift,
        and_assoc]

theorem Holds.word_eq (holds : Holds memory base values) {index : Nat}
    (inside : index < values.length) :
    word memory (base + 4 * index) = values[index] := by
  induction values generalizing base index with
  | nil =>
      exact absurd inside (Nat.not_lt_zero index)
  | cons value values inductionHypothesis =>
      cases index with
      | zero =>
          exact holds.1
      | succ index =>
          have next := inductionHypothesis holds.2
            (Nat.lt_of_succ_lt_succ inside)
          rw [List.getElem_cons_succ, ← next]
          congr 1
          omega

theorem Holds.set (holds : Holds memory base values) (index : Nat)
    (value : BitVec 32) :
    Holds (storeWord memory (base + 4 * index) value) base
      (values.set index value) := by
  induction values generalizing base index with
  | nil =>
      trivial
  | cons first values inductionHypothesis =>
      cases index with
      | zero =>
          refine ⟨word_storeWord _ _ _, holds.2.congr ?_⟩
          exact .storeWord _ _ (Or.inr (by omega))
      | succ index =>
          have next := inductionHypothesis holds.2 index
          rw [show base + 4 * (index + 1) = base + 4 + 4 * index by omega,
            List.set_cons_succ]
          have agree : AgreeOn memory
              (storeWord memory (base + 4 + 4 * index) value) base (base + 4) :=
            .storeWord memory value (Or.inl (by omega))
          refine ⟨?_, next⟩
          rw [word_congr agree (by omega)]
          exact holds.1

def wordsAt (memory : ByteMemory) (base : Nat) : Nat → List (BitVec 32)
  | 0 => []
  | count + 1 => word memory base :: wordsAt memory (base + 4) count

theorem length_wordsAt (memory : ByteMemory) (base count : Nat) :
    (wordsAt memory base count).length = count := by
  induction count generalizing base with
  | zero =>
      rfl
  | succ count inductionHypothesis =>
      rw [wordsAt, List.length_cons, inductionHypothesis]

theorem holds_wordsAt (memory : ByteMemory) (base count : Nat) :
    Holds memory base (wordsAt memory base count) := by
  induction count generalizing base with
  | zero =>
      trivial
  | succ count inductionHypothesis =>
      exact ⟨rfl, inductionHypothesis (base + 4)⟩

end Words

/-! ## Instructions on lists -/

@[simp]
def Cpu.popped (cpu : Cpu) (words : List (BitVec 32)) : Cpu :=
  { cpu with
    edi := words.getD 0 0
    esi := words.getD 1 0
    ebp := words.getD 2 0
    ebx := words.getD 4 0
    edx := words.getD 5 0
    ecx := words.getD 6 0
    eax := words.getD 7 0 }

namespace Instr

def pushed : Instr → Nat
  | .push _ | .pushImm _ | .pushSeg _ => 1
  | .pushad => 8
  | _ => 0

/-- One instruction on the words from the stack pointer upwards. -/
@[simp]
def onStack (cpu : Cpu) (words : List (BitVec 32)) :
    Instr → Option (Cpu × List (BitVec 32))
  | .push source =>
      some (cpu.withEsp (cpu.esp - 4), cpu.get source :: words)
  | .pushImm value =>
      some (cpu.withEsp (cpu.esp - 4), value :: words)
  | .pushSeg source =>
      some (cpu.withEsp (cpu.esp - 4),
        (cpu.getSeg source).setWidth 32 :: words)
  | .pushad =>
      some (cpu.withEsp (cpu.esp - 32),
        cpu.edi :: cpu.esi :: cpu.ebp :: cpu.esp :: cpu.ebx :: cpu.edx ::
          cpu.ecx :: cpu.eax :: words)
  | .pop target =>
      if target = .esp ∨ words.length < 1 then none
      else some ((cpu.withEsp (cpu.esp + 4)).set (words.getD 0 0) target,
        words.drop 1)
  | .popSeg target =>
      if words.length < 1 then none
      else some ((cpu.withEsp (cpu.esp + 4)).setSeg
        ((words.getD 0 0).setWidth 16) target, words.drop 1)
  | .popad =>
      if words.length < 8 then none
      else some ((cpu.withEsp (cpu.esp + 32)).popped words, words.drop 8)
  | .addEsp amount =>
      if amount.toNat % 4 ≠ 0 ∨ words.length < amount.toNat / 4 then none
      else some ({ cpu with
        esp := cpu.esp + amount
        eflags := addFlags cpu.eflags cpu.esp amount },
        words.drop (amount.toNat / 4))
  | .loadSp target offset =>
      if target = .esp ∨ offset % 4 ≠ 0 ∨ words.length ≤ offset / 4 then none
      else some (cpu.set (words.getD (offset / 4) 0) target, words)
  | .storeSp offset source =>
      if offset % 4 ≠ 0 ∨ words.length ≤ offset / 4 then none
      else some (cpu, words.set (offset / 4) (cpu.get source))
  | .loadAt _ _ | .storeAt _ _ =>
      none
  | .movAl value =>
      some ({ cpu with
        eax := (cpu.eax &&& ~~~0xff#32) ||| value.setWidth 32 }, words)
  | .out _ | .jmp =>
      some (cpu, words)

end Instr

/-- Straight-line code on lists. -/
@[simp]
def runOnStack : List Instr → Cpu → List (BitVec 32) →
    Option (Cpu × List (BitVec 32))
  | [], cpu, words => some (cpu, words)
  | instr :: code, cpu, words => do
      let next ← instr.onStack cpu words
      runOnStack code next.1 next.2

/-- The stack of the machine begins with `words` and does not wrap. -/
structure View (m : Machine) (words : List (BitVec 32)) : Prop where
  holds : Holds m.memory m.cpu.esp.toNat words
  below : m.cpu.esp.toNat + 4 * words.length < 4294967296

/-- Only the bytes of a range differ. -/
def WrittenIn (memory memory' : ByteMemory) (bottom top : Nat) : Prop :=
  ∀ address, address < bottom ∨ top ≤ address →
    memory'.byte address = memory.byte address

theorem WrittenIn.mono {memory memory' : ByteMemory} {bottom top : Nat}
    (written : WrittenIn memory memory' bottom top) {bottom' top' : Nat}
    (low : bottom' ≤ bottom) (high : top ≤ top') :
    WrittenIn memory memory' bottom' top' :=
  fun address outside => written address (by omega)

theorem WrittenIn.trans {memory memory' third : ByteMemory} {bottom top : Nat}
    (first : WrittenIn memory memory' bottom top)
    (second : WrittenIn memory' third bottom top) :
    WrittenIn memory third bottom top :=
  fun address outside =>
    (second address outside).trans (first address outside)

theorem WrittenIn.storeWord (memory : ByteMemory) {bottom top address : Nat}
    (value : BitVec 32) (inside : bottom ≤ address ∧ address + 4 ≤ top) :
    WrittenIn memory (storeWord memory address value) bottom top :=
  fun tested outside =>
    ByteMemory.byte_storeWord_of_outside memory value.toNat (by omega)

theorem WrittenIn.agreeOn {memory memory' : ByteMemory}
    {bottom top low high : Nat}
    (written : WrittenIn memory memory' bottom top)
    (apart : high ≤ bottom ∨ top ≤ low) : AgreeOn memory memory' low high :=
  fun address above below => written address (by omega)

/-- What one instruction does to the stack of a machine, by its run on the
list. -/
structure Follows (m m' : Machine) (words words' : List (BitVec 32))
    (cpu' : Cpu) (pushed : Nat) : Prop where
  cpu : m'.cpu = cpu'
  view : View m' words'
  top : cpu'.esp.toNat + 4 * words'.length =
    m.cpu.esp.toNat + 4 * words.length
  low : m.cpu.esp.toNat ≤ cpu'.esp.toNat + 4 * pushed
  written : WrittenIn m.memory m'.memory (m.cpu.esp.toNat - 4 * pushed)
    (m.cpu.esp.toNat + 4 * words.length)

section Stack

variable {m : Machine} {words : List (BitVec 32)}

private theorem toNat_sub_four {esp : BitVec 32} (room : 4 ≤ esp.toNat) :
    (esp - 4).toNat = esp.toNat - 4 := by
  have small : (4 : BitVec 32).toNat = 4 := rfl
  rw [BitVec.toNat_sub, small]
  omega

theorem toNat_add_four {esp : BitVec 32} (room : esp.toNat + 4 < 4294967296) :
    (esp + 4).toNat = esp.toNat + 4 := by
  have small : (4 : BitVec 32).toNat = 4 := rfl
  rw [BitVec.toNat_add, small]
  omega

theorem View.push (view : View m words) (value : BitVec 32)
    (room : 4 ≤ m.cpu.esp.toNat) :
    Follows m (m.push value) words (value :: words)
      (m.cpu.withEsp (m.cpu.esp - 4)) 1 := by
  have below := view.below
  have esp := toNat_sub_four room
  have holds : Holds (storeWord m.memory (m.cpu.esp - 4).toNat value)
      (m.cpu.esp - 4).toNat (value :: words) := by
    refine ⟨word_storeWord _ _ _, ?_⟩
    rw [esp, show m.cpu.esp.toNat - 4 + 4 = m.cpu.esp.toNat by omega]
    exact view.holds.congr (.storeWord _ _ (Or.inr (by omega)))
  constructor
  case cpu => rfl
  case view =>
    refine ⟨holds, ?_⟩
    simp only [Machine.push, Cpu.withEsp_esp, List.length_cons]
    omega
  case top =>
    simp only [Cpu.withEsp_esp, List.length_cons]
    omega
  case low =>
    simp only [Cpu.withEsp_esp]
    omega
  case written =>
    exact .storeWord _ _ (by omega)

theorem Follows.refl (view : View m words) :
    Follows m m words words m.cpu 0 where
  cpu := rfl
  view := view
  top := rfl
  low := Nat.le_refl _
  written := fun _ _ => rfl

theorem Follows.trans {m' m'' : Machine} {words' words'' : List (BitVec 32)}
    {cpu' cpu'' : Cpu} {pushed pushed' : Nat}
    (first : Follows m m' words words' cpu' pushed)
    (second : Follows m' m'' words' words'' cpu'' pushed') :
    Follows m m'' words words'' cpu'' (pushed + pushed') := by
  have top := first.top
  have low := first.low
  have top' := second.top
  have low' := second.low
  have written' := second.written
  rw [first.cpu] at top' low' written'
  constructor
  case cpu => exact second.cpu
  case view => exact second.view
  case top => omega
  case low => omega
  case written =>
    exact (first.written.mono (by omega) (by omega)).trans
      (written'.mono (by omega) (by omega))

theorem toNat_add_words {esp : BitVec 32} {count : Nat}
    (room : esp.toNat + 4 * count < 4294967296) :
    (esp + BitVec.ofNat 32 (4 * count)).toNat = esp.toNat + 4 * count := by
  rw [BitVec.toNat_add, BitVec.toNat_ofNat]
  omega

theorem View.peek (view : View m words) {index : Nat}
    (inside : index < words.length) : m.peek index = words.getD index 0 := by
  have below := view.below
  rw [Machine.peek, toNat_add_words (by omega), view.holds.word_eq inside]
  simp [inside]

theorem peek_zero (m : Machine) : m.peek 0 = word m.memory m.cpu.esp.toNat := by
  simp [Machine.peek]

theorem View.drop (view : View m words) {count : Nat}
    (inside : count ≤ words.length) {cpu' : Cpu}
    (esp : cpu'.esp = m.cpu.esp + BitVec.ofNat 32 (4 * count)) :
    Follows m { m with cpu := cpu' } words (words.drop count) cpu' 0 := by
  have below := view.below
  have up : cpu'.esp.toNat = m.cpu.esp.toNat + 4 * count := by
    rw [esp]
    exact toNat_add_words (by omega)
  have split := view.holds
  rw [← List.take_append_drop count words, holds_append,
    List.length_take_of_le inside, ← up] at split
  have length : 4 * (words.drop count).length = 4 * words.length - 4 * count := by
    rw [List.length_drop]
    omega
  constructor
  case cpu => rfl
  case view => exact ⟨split.2, by simp only; omega⟩
  case top => omega
  case low => omega
  case written => exact fun _ _ => rfl

theorem View.pushAll (view : View m words) (values : List (BitVec 32))
    (room : 4 * values.length ≤ m.cpu.esp.toNat) :
    Follows m (pushAll m values) words (values.reverse ++ words)
      (m.cpu.withEsp (m.cpu.esp - BitVec.ofNat 32 (4 * values.length)))
      values.length := by
  induction values generalizing m words with
  | nil =>
      have same : m.cpu.esp - BitVec.ofNat 32 (4 * 0) = m.cpu.esp := by simp
      simp only [List.length_nil, same]
      exact Follows.refl view
  | cons value values inductionHypothesis =>
      simp only [List.length_cons] at room
      have first := view.push value (by omega)
      have esp : (m.push value).cpu.esp.toNat = m.cpu.esp.toNat - 4 :=
        toNat_sub_four (by omega)
      have rest := first.trans
        (inductionHypothesis first.view (by omega))
      have shift : m.cpu.esp - 4 - BitVec.ofNat 32 (4 * values.length) =
          m.cpu.esp - BitVec.ofNat 32 (4 * (value :: values).length) := by
        rw [List.length_cons, Nat.mul_succ, BitVec.ofNat_add, sub_sub,
          add_comm]
        rfl
      simp only [Machine.push, Cpu.withEsp_withEsp, Cpu.withEsp_esp,
        shift] at rest
      rw [Nat.add_comm] at rest
      rw [List.reverse_cons, List.append_assoc, List.singleton_append]
      exact rest

/-- What `pushad` leaves on the stack. -/
theorem execPushad_view (view : View m words) (room : 32 ≤ m.cpu.esp.toNat) :
    Follows m (execPushad m) words
      (m.cpu.edi :: m.cpu.esi :: m.cpu.ebp :: m.cpu.esp :: m.cpu.ebx ::
        m.cpu.edx :: m.cpu.ecx :: m.cpu.eax :: words)
      (m.cpu.withEsp (m.cpu.esp - 32)) 8 :=
  view.pushAll [m.cpu.eax, m.cpu.ecx, m.cpu.edx, m.cpu.ebx, m.cpu.esp,
    m.cpu.ebp, m.cpu.esi, m.cpu.edi] room

theorem Cpu.set_esp (cpu : Cpu) (value : BitVec 32) {target : Reg}
    (different : target ≠ .esp) : (cpu.set value target).esp = cpu.esp := by
  cases target with
  | esp => exact absurd rfl different
  | _ => rfl

theorem Cpu.setSeg_esp (cpu : Cpu) (value : BitVec 16) (target : SegReg) :
    (cpu.setSeg value target).esp = cpu.esp := by
  cases target <;> rfl

theorem View.setCpu (view : View m words) {cpu' : Cpu}
    (esp : cpu'.esp = m.cpu.esp) :
    Follows m { m with cpu := cpu' } words words cpu' 0 := by
  have same : cpu'.esp = m.cpu.esp + BitVec.ofNat 32 (4 * 0) := by
    rw [esp]
    simp
  exact view.drop (Nat.zero_le _) same

theorem View.storeSp (view : View m words) {index : Nat}
    (inside : index < words.length) (value : BitVec 32) :
    Follows m
      ⟨m.cpu, storeWord m.memory
        (m.cpu.esp + BitVec.ofNat 32 (4 * index)).toNat value⟩
      words (words.set index value) m.cpu 0 := by
  have below := view.below
  rw [toNat_add_words (by omega)]
  constructor
  case cpu => rfl
  case view =>
    refine ⟨view.holds.set index value, ?_⟩
    rw [List.length_set]
    exact below
  case top => rw [List.length_set]
  case low => exact Nat.le_refl _
  case written => exact .storeWord _ _ (by omega)

theorem onStack_view (instr : Instr) (view : View m words)
    (room : 4 * instr.pushed ≤ m.cpu.esp.toNat) {cpu' : Cpu}
    {words' : List (BitVec 32)}
    (taken : instr.onStack m.cpu words = some (cpu', words')) :
    Follows m (instr.exec m) words words' cpu' instr.pushed := by
  cases instr with
  | push source =>
      obtain ⟨rfl, rfl⟩ := Prod.mk.inj (Option.some.inj taken)
      exact view.push _ room
  | pushImm value =>
      obtain ⟨rfl, rfl⟩ := Prod.mk.inj (Option.some.inj taken)
      exact view.push _ room
  | pushSeg source =>
      obtain ⟨rfl, rfl⟩ := Prod.mk.inj (Option.some.inj taken)
      exact view.push _ room
  | pushad =>
      obtain ⟨rfl, rfl⟩ := Prod.mk.inj (Option.some.inj taken)
      exact execPushad_view view room
  | pop target =>
      simp only [Instr.onStack, Option.ite_none_left_eq_some, not_or, not_lt,
        Option.some.injEq, Prod.mk.injEq] at taken
      obtain ⟨⟨notEsp, inside⟩, rfl, rfl⟩ := taken
      simp only [Instr.exec, view.peek inside]
      exact view.drop inside (Cpu.set_esp _ _ notEsp)
  | popSeg target =>
      simp only [Instr.onStack, Option.ite_none_left_eq_some, not_lt,
        Option.some.injEq, Prod.mk.injEq] at taken
      obtain ⟨inside, rfl, rfl⟩ := taken
      simp only [Instr.exec, view.peek inside]
      exact view.drop inside (Cpu.setSeg_esp _ _ _)
  | popad =>
      simp only [Instr.onStack, Option.ite_none_left_eq_some, not_lt,
        Option.some.injEq, Prod.mk.injEq] at taken
      obtain ⟨inside, rfl, rfl⟩ := taken
      have popped : execPopad m = { m with
          cpu := (m.cpu.withEsp (m.cpu.esp + 32)).popped words } := by
        have value (index : Nat) (small : index < 8) :
            m.peek index = words.getD index 0 :=
          view.peek (Nat.lt_of_lt_of_le small inside)
        simp only [execPopad, value 0 (by decide), value 1 (by decide),
          value 2 (by decide), value 4 (by decide), value 5 (by decide),
          value 6 (by decide), value 7 (by decide)]
        rfl
      rw [Instr.exec, popped]
      exact view.drop inside rfl
  | addEsp amount =>
      simp only [Instr.onStack, Option.ite_none_left_eq_some,
        Option.some.injEq, Prod.mk.injEq, not_or, not_lt, not_not] at taken
      obtain ⟨⟨aligned, inside⟩, rfl, rfl⟩ := taken
      have amount_eq : BitVec.ofNat 32 (4 * (amount.toNat / 4)) = amount := by
        rw [Nat.mul_div_cancel' (Nat.dvd_of_mod_eq_zero aligned),
          BitVec.ofNat_toNat, BitVec.setWidth_eq]
      exact view.drop inside (by rw [amount_eq])
  | loadSp target offset =>
      simp only [Instr.onStack, Option.ite_none_left_eq_some, not_or, not_not,
        not_le, Option.some.injEq, Prod.mk.injEq] at taken
      obtain ⟨⟨notEsp, aligned, inside⟩, rfl, rfl⟩ := taken
      have loaded := view.peek inside
      rw [Machine.peek, Nat.mul_div_cancel' (Nat.dvd_of_mod_eq_zero aligned)]
        at loaded
      simp only [Instr.exec, loaded]
      exact view.setCpu (Cpu.set_esp _ _ notEsp)
  | storeSp offset source =>
      simp only [Instr.onStack, Option.ite_none_left_eq_some, not_or, not_not,
        not_le, Option.some.injEq, Prod.mk.injEq] at taken
      obtain ⟨⟨aligned, inside⟩, rfl, rfl⟩ := taken
      have stored := view.storeSp inside (m.cpu.get source)
      rwa [Nat.mul_div_cancel' (Nat.dvd_of_mod_eq_zero aligned)] at stored
  | loadAt target base => cases taken
  | storeAt base source => cases taken
  | movAl value =>
      obtain ⟨rfl, rfl⟩ := Prod.mk.inj (Option.some.inj taken)
      exact view.setCpu rfl
  | out port =>
      obtain ⟨rfl, rfl⟩ := Prod.mk.inj (Option.some.inj taken)
      exact .refl view
  | jmp =>
      obtain ⟨rfl, rfl⟩ := Prod.mk.inj (Option.some.inj taken)
      exact .refl view

def pushedBy (code : List Instr) : Nat :=
  (code.map Instr.pushed).sum

/-- Straight-line code does to the stack what it does to the list. -/
theorem runCode_view (code : List Instr) (view : View m words)
    (room : 4 * pushedBy code ≤ m.cpu.esp.toNat) {cpu' : Cpu}
    {words' : List (BitVec 32)}
    (taken : runOnStack code m.cpu words = some (cpu', words')) :
    Follows m (runCode code m) words words' cpu' (pushedBy code) := by
  induction code generalizing m words with
  | nil =>
      obtain ⟨rfl, rfl⟩ := Prod.mk.inj (Option.some.inj taken)
      exact .refl view
  | cons instr code inductionHypothesis =>
      have length : pushedBy (instr :: code) = instr.pushed + pushedBy code :=
        List.sum_cons
      rw [length] at room ⊢
      obtain ⟨⟨middle, between⟩, first, rest⟩ :=
        Option.bind_eq_some_iff.mp taken
      have one := onStack_view instr view (by omega) first
      have low := one.low
      rw [← one.cpu] at low rest
      exact one.trans (inductionHypothesis one.view (by omega) rest)

end Stack

/-! ## Calls and gates on lists -/

theorem onStack_withEip (instr : Instr) (cpu : Cpu) (words : List (BitVec 32))
    (eip : BitVec 32) :
    instr.onStack (cpu.withEip eip) words =
      (instr.onStack cpu words).map fun next => (next.1.withEip eip, next.2) := by
  cases instr with
  | push source => cases source <;> rfl
  | pushSeg source => cases source <;> rfl
  | pop target =>
      simp only [Instr.onStack]
      split
      · rfl
      · cases target <;> rfl
  | popSeg target =>
      simp only [Instr.onStack]
      split
      · rfl
      · cases target <;> rfl
  | loadSp target offset =>
      simp only [Instr.onStack]
      split
      · rfl
      · cases target <;> rfl
  | storeSp offset source =>
      simp only [Instr.onStack]
      split
      · rfl
      · cases source <;> rfl
  | popad | addEsp =>
      simp only [Instr.onStack]
      split <;> rfl
  | _ => rfl

def retOnStack (cpu : Cpu) (words : List (BitVec 32)) : Cpu :=
  { cpu with esp := cpu.esp + 4, eip := words.getD 0 0 }

def iretOnStack (cpu : Cpu) (words : List (BitVec 32)) : Option Cpu :=
  let cs := (words.getD 1 0).setWidth 16
  let eip := words.getD 0 0
  let eflags := words.getD 2 0
  if words.length < 3 then none
  else if rpl cs = rpl cpu.cs then
    some { cpu with esp := cpu.esp + 12, eip, cs, eflags }
  else if words.length < 5 then none
  else
    some { cpu with
      esp := words.getD 3 0
      ss := (words.getD 4 0).setWidth 16
      eip, cs, eflags }

/-- The registers in the handler. -/
def gateCpu (gate : Gate) (cpu : Cpu) : Cpu :=
  let start := gateStart gate cpu
  { start with
    esp :=
      start.esp - BitVec.ofNat 32 (4 * (gateWords gate cpu).length)
    cs := gate.cs
    eip := gate.entry
    eflags := gateFlags cpu.eflags }

section Gates

variable {m : Machine} {words : List (BitVec 32)}

theorem ret_view (view : View m words) (inside : 1 ≤ words.length) :
    Follows m (ret m) words (words.drop 1) (retOnStack m.cpu words) 0 := by
  rw [ret, view.peek inside]
  exact view.drop inside rfl

theorem call_view (view : View m words) (room : 4 ≤ m.cpu.esp.toNat)
    (target returnAddress : BitVec 32) :
    Follows m (call m target returnAddress) words (returnAddress :: words)
      { m.cpu with esp := m.cpu.esp - 4, eip := target } 1 := by
  have pushed := view.push returnAddress room
  have esp : { m.cpu with esp := m.cpu.esp - 4, eip := target }.esp =
      (m.push returnAddress).cpu.esp := rfl
  exact pushed.trans (pushed.view.setCpu esp)

theorem iret_view (view : View m words) {cpu' : Cpu}
    (taken : iretOnStack m.cpu words = some cpu') :
    iret m = ⟨cpu', m.memory⟩ := by
  simp only [iretOnStack, Option.ite_none_left_eq_some, not_lt] at taken
  obtain ⟨three, taken⟩ := taken
  have value (index : Nat) (inside : index < words.length) :
      m.peek index = words.getD index 0 :=
    view.peek inside
  simp only [iret, value 0 (by omega), value 1 (by omega), value 2 (by omega)]
  by_cases same : rpl ((words.getD 1 0).setWidth 16) = rpl m.cpu.cs
  · rw [if_pos same, Option.some.injEq] at taken
    rw [if_pos same, ← taken]
    rfl
  · rw [if_neg same, Option.ite_none_left_eq_some, not_lt,
      Option.some.injEq] at taken
    rw [if_neg same, ← taken.2, value 3 (by omega), value 4 (by omega)]
    rfl

/-- Entering a gate, on the stack of its privilege level. -/
theorem deliver_view (gate : Gate) (m : Machine)
    (room : 20 ≤ (gateStart gate m.cpu).esp.toNat) :
    Follows ⟨gateStart gate m.cpu, m.memory⟩ (deliver gate m) []
      (gateWords gate m.cpu).reverse (gateCpu gate m.cpu)
      (gateWords gate m.cpu).length := by
  have view : View ⟨gateStart gate m.cpu, m.memory⟩ [] :=
    ⟨trivial, (gateStart gate m.cpu).esp.isLt⟩
  have few : 4 * (gateWords gate m.cpu).length ≤
      (gateStart gate m.cpu).esp.toNat := by
    unfold gateWords
    split <;> simp only [List.length_append, List.length_cons,
      List.length_nil] <;> omega
  have pushes := view.pushAll (gateWords gate m.cpu) few
  rw [List.append_nil] at pushes
  have start : deliver gate m =
      ⟨gateCpu gate m.cpu,
        (pushAll ⟨gateStart gate m.cpu, m.memory⟩
          (gateWords gate m.cpu)).memory⟩ := by
    rw [deliver, pushes.cpu]
    rfl
  rw [start]
  exact pushes.trans (pushes.view.setCpu (by rw [pushes.cpu]; rfl))

end Gates

end Simos.Library.Ia32
