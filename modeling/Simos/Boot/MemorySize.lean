import Simos.Boot.MemoryMap
import Simos.Boot.ReadDisk

/-!
# The other ways to the size of the memory (`boot/loader.S`)

When a call of function `E820` fails, the loader asks function `E801`, and
when that fails too, function `88`; without any of them it goes to
`.error_hlt`.  The `hlt` there is the end only while interrupts are off: an
interrupt of the machine leads behind it, to code that is not for this mode.

* `e820Exit` is the first loop with both of its exits, and
  `e820Exit_eq_some_iff` relates it to the path on which nothing fails;
* `loaderMemory_fallback`: for a machine whose memory has no holes above 1 MiB,
  the size that `E801` leads to is the true one, rounded down.  At most twelve
  calls of `E820` come before it: a thirteenth entry is stored over `ards_nr`
  and the code behind it.
-/

namespace Simos

open Simos.Library

structure E801Answer where
  ax : BitVec 16
  bx : BitVec 16
  cx : BitVec 16
  dx : BitVec 16
  carry : Bool
  deriving DecidableEq, Repr

structure Int88Answer where
  ax : BitVec 16
  carry : Bool
  deriving DecidableEq, Repr

/-- `.e820_mem_get_loop` with both exits: `true` for a carry. -/
def e820Exit : List E820Answer → Loader → Option (Bool × Loader)
  | [], _ => none
  | answer :: answers, s =>
      let s := { s with eax := 0xe820, ecx := 20 }
      let s := s.int15 answer
      if answer.carry then
        some (true, s)
      else
        let s := { s with di := (s.di + s.ecx % 65536) % 65536 }
        let s := { s with
          memory := storeHalf s.memory ardsNr
            ((loadHalf s.memory ardsNr + 1) % 65536) }
        if s.ebx = 0 then some (false, s) else e820Exit answers s

def Loader.mul16 (s : Loader) (factor : Nat) : Loader :=
  let product := s.eax % 65536 * (factor % 65536)
  { s with
    eax := putPart 65536 s.eax product
    edx := putPart 65536 s.edx (product / 65536) }

/-- `.e820_failed_so_try_e801`, up to the test of the carry. -/
def Loader.intE801 (s : Loader) (answer : E801Answer) : Loader :=
  let s := { s with eax := putPart 65536 s.eax 0xe801 }
  { s with
    eax := putPart 65536 s.eax answer.ax.toNat
    ebx := putPart 65536 s.ebx answer.bx.toNat
    ecx := putPart 65536 s.ecx answer.cx.toNat
    edx := putPart 65536 s.edx answer.dx.toNat }

def Loader.sizeE801 (s : Loader) : Loader :=
  let s := { s with ecx := putPart 65536 s.ecx 0x400 }
  let s := s.mul16 s.ecx
  let s := { s with edx := u32 (s.edx <<< 16) }
  let s := { s with eax := s.eax &&& 0xffff }
  let s := { s with edx := s.edx ||| s.eax }
  let s := { s with edx := u32 (s.edx + 0x100000) }
  let esi := s.edx
  let s := { s with eax := 0 }
  let s := { s with eax := putPart 65536 s.eax s.ebx }
  let s := { s with ecx := 0x10000 }
  let product := s.eax * s.ecx
  let s := { s with eax := u32 product, edx := product / 4294967296 }
  let esi := u32 (esi + s.eax)
  { s with edx := esi }

/-- `.e801_failed_so_try88`, up to the test of the carry. -/
def Loader.int88 (s : Loader) (answer : Int88Answer) : Loader :=
  let s := { s with
    eax := putPart 65536 s.eax (0x88 * 256 + s.eax % 256) }
  { s with eax := putPart 65536 s.eax answer.ax.toNat }

def Loader.size88 (s : Loader) : Loader :=
  let s := { s with eax := s.eax &&& 0xffff }
  let s := { s with ecx := putPart 65536 s.ecx 0x400 }
  let s := s.mul16 s.ecx
  let s := { s with edx := u32 (s.edx <<< 16) }
  let s := { s with edx := s.edx ||| s.eax }
  { s with edx := u32 (s.edx + 0x100000) }

def Loader.memGetOk (s : Loader) : Loader :=
  { s with memory := s.memory.storeWord totalMemBytes s.edx }

/-- `.e820_failed_so_try_e801` up to `.mem_get_ok`; `none` is `.error_hlt`. -/
def e820FailedSoTryE801 (e801 : E801Answer) (int88 : Int88Answer)
    (s : Loader) : Option Loader :=
  let s := s.intE801 e801
  if e801.carry then
    let s := s.int88 int88
    if int88.carry then none else some s.size88
  else
    some s.sizeE801

/-- `loader_start` up to `.mem_get_ok`. -/
def loaderMemory (answers : List E820Answer) (e801 : E801Answer)
    (int88 : Int88Answer) (s : Loader) : Option Loader := do
  let s := { s with ebx := 0, edx := 0x534d4150, di := ardsBuf }
  let (failed, s) ← e820Exit answers s
  if failed then
    let s ← e820FailedSoTryE801 e801 int88 s
    return s.memGetOk
  else
    let cx := loadHalf s.memory ardsNr
    let edx := findMaxMemArea s.memory (loopRounds cx) ardsBuf 0
    return { s with edx }.memGetOk

/-! ## The exit of the first loop -/

/-- The answers of a BIOS that gives up: a call fails, and the ones before it
were not the last. -/
inductive Failing : List E820Answer → Prop
  | now {answer : E820Answer} {answers : List E820Answer} :
      answer.carry = true → Failing (answer :: answers)
  | later {answer : E820Answer} {answers : List E820Answer} :
      answer.carry = false → answer.continuation ≠ 0 → Failing answers →
      Failing (answer :: answers)

/-- The memory outside of `ards_buf` and `ards_nr` is the same. -/
def ListKept (memory memory' : ByteMemory) : Prop :=
  ∀ address, address < ardsBuf ∨ 0xc00 ≤ address →
    memory'.byte address = memory.byte address

section List

variable {memory : ByteMemory} {answers : List E820Answer} {s s' : Loader}

private theorem storeArds_kept {address : Nat} (ards : Ards)
    (inside : ardsBuf ≤ address ∧ address + 20 ≤ 0xc00) :
    ListKept memory (storeArds memory address ards) := by
  intro tested outside
  unfold storeArds
  iterate 5
    rw [ByteMemory.byte_storeWord_of_outside _ _ (by omega)]

private theorem storeHalf_ardsNr_kept (value : Nat) :
    ListKept memory (storeHalf memory ardsNr value) := by
  intro tested outside
  have place : ardsBuf ≤ ardsNr ∧ ardsNr + 2 ≤ 0xc00 := by decide
  unfold storeHalf
  rw [ByteMemory.byte_storeByte, if_neg (by omega), ByteMemory.byte_storeByte,
    if_neg (by omega)]

private theorem e820Exit_kept :
    ∀ {s : Loader} {count : Nat} {failed : Bool},
      s.di = ardsBuf + 20 * count → count + answers.length ≤ 12 →
      e820Exit answers s = some (failed, s') → ListKept s.memory s'.memory := by
  induction answers with
  | nil =>
      intro s count failed _ _ exit
      simp [e820Exit] at exit
  | cons answer answers inductionHypothesis =>
      intro s count failed place room exit
      rw [List.length_cons] at room
      have buffer : ardsBuf = 0xb0a := rfl
      have entry : ListKept s.memory (storeArds s.memory s.di answer.entry) :=
        storeArds_kept answer.entry (by omega)
      have next : (s.di + 20 % 65536) % 65536 = ardsBuf + 20 * (count + 1) := by
        omega
      have round : ListKept s.memory (s.listed answer) := by
        intro address outside
        rw [Loader.listed, storeHalf_ardsNr_kept _ address outside]
        exact entry address outside
      rw [e820Exit] at exit
      by_cases carry : answer.carry = true
      · rw [if_pos carry] at exit
        have same := (Prod.mk.inj (Option.some.inj exit)).2
        rw [← same]
        exact entry
      · rw [if_neg carry] at exit
        by_cases last : answer.continuation.toNat = 0
        · have same := (Prod.mk.inj (Option.some.inj
            ((if_pos last).symm.trans exit))).2
          rw [← same]
          exact round
        · have later := @inductionHypothesis _ (count + 1) failed next
            (by omega) ((if_neg last).symm.trans exit)
          intro address outside
          rw [later address outside]
          exact round address outside

/-- A BIOS that gives up leaves the loop with a carry. -/
theorem e820Exit_failing (failing : Failing answers) :
    ∀ s : Loader, ∃ s', e820Exit answers s = some (true, s') := by
  induction failing with
  | now carry =>
      intro s
      exact ⟨_, if_pos carry⟩
  | @later answer answers noCarry onwards _ inductionHypothesis =>
      intro s
      have more : ¬ answer.continuation.toNat = 0 := by
        intro zero
        exact onwards (BitVec.eq_of_toNat_eq zero)
      have noCarry' : ¬ answer.carry = true := by
        rw [noCarry]
        exact Bool.false_ne_true
      obtain ⟨s', exit⟩ := inductionHypothesis
        { (s.int15 answer) with
          di := (s.di + 20 % 65536) % 65536
          memory := s.listed answer }
      refine ⟨s', ?_⟩
      rw [e820Exit, if_neg noCarry']
      exact (if_neg more).trans exit

end List

/-! ## The computed sizes -/

/-- A product of 16-bit values is put together from its two halves. -/
theorem mul16_shl_or (s : Loader) {register left right : Nat}
    (operand : s.eax % 65536 = left) (factor : register % 65536 = right)
    (small : left * right < 4294967296) :
    (u32 ((s.mul16 register).edx <<< 16) |||
        (s.mul16 register).eax &&& 0xffff) =
      left * right := by
  have high : (s.mul16 register).edx % 65536 = left * right / 65536 := by
    show putPart 65536 s.edx (s.eax % 65536 * (register % 65536) / 65536) %
      65536 = _
    rw [putPart_mod, operand, factor]
    omega
  have low : (s.mul16 register).eax &&& 0xffff = left * right % 65536 := by
    rw [Nat.and_two_pow_sub_one_eq_mod _ 16]
    show putPart 65536 s.eax (s.eax % 65536 * (register % 65536)) % 65536 = _
    rw [putPart_mod, operand, factor]
  have shifted : u32 ((s.mul16 register).edx <<< 16) =
      (left * right / 65536) <<< 16 := by
    rw [Nat.shiftLeft_eq, Nat.shiftLeft_eq, u32, ← high]
    omega
  rw [shifted, low, ← Nat.shiftLeft_add_eq_or_of_lt (Nat.mod_lt _ (by decide)),
    Nat.shiftLeft_eq]
  omega

private theorem sizeE801_eq (s : Loader) :
    s.sizeE801.edx =
      let multiplied := Loader.mul16
        { s with ecx := putPart 65536 s.ecx 0x400 } (putPart 65536 s.ecx 0x400)
      u32 (u32 ((u32 (multiplied.edx <<< 16) ||| multiplied.eax &&& 0xffff) +
        0x100000) + u32 (putPart 65536 0 s.ebx * 0x10000)) := by
  cases s
  rfl

private theorem size88_eq (s : Loader) :
    s.size88.edx =
      let multiplied := Loader.mul16
        { s with eax := s.eax &&& 0xffff, ecx := putPart 65536 s.ecx 0x400 }
        (putPart 65536 s.ecx 0x400)
      u32 ((u32 (multiplied.edx <<< 16) ||| multiplied.eax) + 0x100000) := by
  rw [Loader.size88]

theorem sizeE801_edx (s : Loader) (answer : E801Answer) :
    (s.intE801 answer).sizeE801.edx =
      u32 (1024 * answer.ax.toNat + 0x100000 + 65536 * answer.bx.toNat) := by
  have axSmall := answer.ax.isLt
  have bxSmall := answer.bx.isLt
  have low : (s.intE801 answer).eax % 65536 = answer.ax.toNat := by
    show putPart 65536 _ _ % 65536 = _
    rw [putPart_mod, Nat.mod_eq_of_lt axSmall]
  have ebx : (s.intE801 answer).ebx % 65536 = answer.bx.toNat := by
    show putPart 65536 _ _ % 65536 = _
    rw [putPart_mod, Nat.mod_eq_of_lt bxSmall]
  generalize s.intE801 answer = asked at low ebx
  have product := mul16_shl_or
    { asked with ecx := putPart 65536 asked.ecx 0x400 } low
    (putPart_mod 65536 asked.ecx 0x400) (by omega)
  rw [sizeE801_eq]
  simp only [product]
  unfold putPart u32
  omega

theorem size88_edx (s : Loader) (answer : Int88Answer) :
    (s.int88 answer).size88.edx = 1024 * answer.ax.toNat + 0x100000 := by
  have axSmall := answer.ax.isLt
  have low : (s.int88 answer).eax % 65536 = answer.ax.toNat := by
    show putPart 65536 _ _ % 65536 = _
    rw [putPart_mod, Nat.mod_eq_of_lt axSmall]
  generalize s.int88 answer = asked at low
  have masked : (asked.eax &&& 0xffff) % 65536 = answer.ax.toNat := by
    rw [Nat.and_two_pow_sub_one_eq_mod _ 16, Nat.mod_mod, low]
  have upper : (asked.eax &&& 0xffff) / 65536 = 0 := by
    rw [Nat.and_two_pow_sub_one_eq_mod _ 16]
    omega
  have product := mul16_shl_or
    { asked with
      eax := asked.eax &&& 0xffff
      ecx := putPart 65536 asked.ecx 0x400 } masked
    (putPart_mod 65536 asked.ecx 0x400) (by omega)
  rw [size88_eq]
  generalize multiplied : Loader.mul16
    { asked with
      eax := asked.eax &&& 0xffff
      ecx := putPart 65536 asked.ecx 0x400 }
    (putPart 65536 asked.ecx 0x400) = after at product
  have clean : after.eax &&& 0xffff = after.eax := by
    rw [Nat.and_two_pow_sub_one_eq_mod _ 16, ← multiplied]
    apply Nat.mod_eq_of_lt
    show putPart 65536 (asked.eax &&& 0xffff) _ < 65536
    rw [putPart, upper]
    omega
  rw [clean] at product
  simp only [product]
  unfold u32
  omega

/-! ## What is stored -/

/-- Only `total_mem_bytes` and the list are written. -/
def LoaderKept (memory memory' : ByteMemory) : Prop :=
  ∀ address, address < totalMemBytes ∨
      (totalMemBytes + 4 ≤ address ∧ address < ardsBuf) ∨ 0xc00 ≤ address →
    memory'.byte address = memory.byte address

/-- What a BIOS says to function `E801` when the memory of `size` bytes has no
holes above 1 MiB. -/
structure ReportsE801 (size : Nat) (answer : E801Answer) : Prop where
  carry : answer.carry = false
  ax : answer.ax.toNat = min (size - 0x100000) 0xf00000 / 1024
  bx : answer.bx.toNat = (size - 0x1000000) / 65536

/-- What it says to function `88`, which knows of 64 MiB. -/
structure Reports88 (size : Nat) (answer : Int88Answer) : Prop where
  carry : answer.carry = false
  ax : answer.ax.toNat = min (size - 0x100000) 0x3f00000 / 1024

section Stored

variable {answers : List E820Answer} {e801 : E801Answer}
  {int88 : Int88Answer} {s s' : Loader}

private theorem intE801_memory (s : Loader) (answer : E801Answer) :
    (s.intE801 answer).memory = s.memory ∧
      (s.intE801 answer).sizeE801.memory = s.memory := by
  cases s
  exact ⟨rfl, rfl⟩

private theorem int88_size88_memory (s : Loader) (answer : Int88Answer) :
    (s.int88 answer).size88.memory = s.memory := by
  cases s
  rfl

private theorem e820FailedSoTryE801_memory
    (found : e820FailedSoTryE801 e801 int88 s = some s') :
    s'.memory = s.memory := by
  rw [e820FailedSoTryE801] at found
  by_cases first : e801.carry = true
  · by_cases second : int88.carry = true
    · simp [first, second] at found
    · simp only [first, second, if_true, Bool.false_eq_true, if_false,
        Option.some.injEq] at found
      rw [← found, int88_size88_memory]
      exact (intE801_memory s e801).1
  · simp only [first, Bool.false_eq_true, if_false, Option.some.injEq] at found
    rw [← found]
    exact (intE801_memory s e801).2

private theorem memGetOk_kept (s : Loader) (kept : ListKept memory s.memory) :
    LoaderKept memory s.memGetOk.memory := by
  have place : totalMemBytes + 4 ≤ ardsBuf ∧ ardsBuf ≤ 0xc00 := by decide
  intro address outside
  rw [Loader.memGetOk]
  show (s.memory.storeWord totalMemBytes s.edx).byte address = _
  rw [ByteMemory.byte_storeWord_of_outside _ _ (by omega)]
  exact kept address (by omega)

theorem loaderMemory_kept (room : answers.length ≤ 12)
    (found : loaderMemory answers e801 int88 s = some s') :
    LoaderKept s.memory s'.memory := by
  rw [loaderMemory, Option.bind_eq_bind, Option.bind_eq_some_iff] at found
  obtain ⟨⟨failed, listed⟩, exit, rest⟩ := found
  have kept := @e820Exit_kept answers _ _ 0 failed rfl (by omega) exit
  cases failed with
  | false =>
      simp only [Bool.false_eq_true, if_false] at rest
      rw [← Option.some.inj rest]
      exact memGetOk_kept _ kept
  | true =>
      simp only [if_true, Option.bind_eq_bind, Option.bind_eq_some_iff] at rest
      obtain ⟨sized, asked, stored⟩ := rest
      rw [← Option.some.inj stored]
      apply memGetOk_kept
      rw [e820FailedSoTryE801_memory asked]
      exact kept

theorem loaderMemory_of_failing (failing : Failing answers) :
    ∃ listed, loaderMemory answers e801 int88 s =
      (e820FailedSoTryE801 e801 int88 listed).map Loader.memGetOk := by
  obtain ⟨listed, exit⟩ := e820Exit_failing failing
    { s with ebx := 0, edx := 0x534d4150, di := ardsBuf }
  refine ⟨listed, ?_⟩
  simp only [loaderMemory, exit, Option.bind_eq_bind, Option.bind_some, if_true]
  cases e820FailedSoTryE801 e801 int88 listed <;> rfl

theorem memGetOk_word (s : Loader) (word : s.edx < 4294967296) :
    s.memGetOk.memory.loadWord totalMemBytes = s.edx :=
  ByteMemory.loadWord_storeWord_self _ _ word

/-- When `E820` fails, only the list and the size are stored, and the size is
the true one: rounded down to 64 KiB, or to 1 KiB below 16 MiB, by function
`E801`; rounded down to 1 KiB and at most 64 MiB by function `88`.  Without both
of them the loader goes to `.error_hlt`. -/
theorem loaderMemory_fallback {size : Nat} (failing : Failing answers)
    (room : answers.length ≤ 12) (low : 0x100000 ≤ size)
    (high : size < 0x100000000) :
    (ReportsE801 size e801 →
      ∃ s', loaderMemory answers e801 int88 s = some s' ∧
        LoaderKept s.memory s'.memory ∧
        s'.memory.loadWord totalMemBytes =
          if size < 0x1000000 then size / 1024 * 1024
          else size / 65536 * 65536) ∧
    (e801.carry = true → Reports88 size int88 →
      ∃ s', loaderMemory answers e801 int88 s = some s' ∧
        LoaderKept s.memory s'.memory ∧
        s'.memory.loadWord totalMemBytes =
          min (size / 1024 * 1024) 0x4000000) ∧
    (e801.carry = true → int88.carry = true →
      loaderMemory answers e801 int88 s = none) := by
  have kept := fun s' => @loaderMemory_kept answers e801 int88 s s' room
  obtain ⟨listed, found⟩ :=
    @loaderMemory_of_failing answers e801 int88 s failing
  simp only [found, e820FailedSoTryE801] at kept ⊢
  refine ⟨?_, ?_, ?_⟩
  · intro reports
    have edx := sizeE801_edx listed e801
    simp only [reports.carry, Bool.false_eq_true, if_false, Option.map_some]
      at kept ⊢
    refine ⟨_, rfl, kept _ rfl, ?_⟩
    rw [memGetOk_word _ (by rw [edx]; exact u32_lt _), edx, reports.ax,
      reports.bx, u32]
    split <;> omega
  · intro carry reports
    have edx := size88_edx (listed.intE801 e801) int88
    simp only [carry, reports.carry, if_true, Bool.false_eq_true, if_false,
      Option.map_some] at kept ⊢
    refine ⟨_, rfl, kept _ rfl, ?_⟩
    rw [memGetOk_word _ (by rw [edx, reports.ax]; omega), edx, reports.ax]
    omega
  · intro first second
    simp only [first, second, if_true, Option.map_none]

end Stored

/-- A machine with 32 MiB whose BIOS has no function `E820`. -/
theorem loaderMemory_fallback_thirtyTwo :
    ∃ s', loaderMemory [⟨⟨0, 0, 0, 0, 0⟩, 0, true⟩]
        ⟨0x3c00, 0x100, 0x3c00, 0x100, false⟩ ⟨0, true⟩ coldLoader =
          some s' ∧
      LoaderKept coldLoader.memory s'.memory ∧
      s'.memory.loadWord totalMemBytes =
        if 0x2000000 < 0x1000000 then 0x2000000 / 1024 * 1024
        else 0x2000000 / 65536 * 65536 :=
  (loaderMemory_fallback (.now rfl) (by decide) (by decide) (by decide)).1
    ⟨rfl, by decide, by decide⟩

end Simos
