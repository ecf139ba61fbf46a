import Mathlib.Order.Bounds.Defs
import Simos.Kernel.Call
import Simos.Library.ByteMemory

/-!
# The size of the memory (`boot/loader.S`)

The loader asks the BIOS for the memory map, entry by entry, and then looks for
the largest end of a range.  The comparison ends in `jge`, which takes both
sides as signed numbers.

* `e820MemGetLoop_ok`: the entries stand in `ards_buf`, and `ards_nr` counts
  them;
* `loader_top_iff`: the stored size is the largest end exactly when all ranges
  end below 2 GB.
-/

namespace Simos

open Simos.Library

def totalMemBytes : Nat := 0xb00

def ardsBuf : Nat := 0xb0a

def ardsNr : Nat := 0xbfe

structure Ards where
  baseAddLow : BitVec 32
  baseAddHigh : BitVec 32
  lengthLow : BitVec 32
  lengthHigh : BitVec 32
  type : BitVec 32
  deriving DecidableEq, Repr

/-- The end of a range, by the low words. -/
def Ards.top (ards : Ards) : Nat :=
  ards.baseAddLow.toNat + ards.lengthLow.toNat

/-- The answer of the BIOS to one call of function `E820`: the entry, the
continuation value in `ebx`, and the carry flag. -/
structure E820Answer where
  entry : Ards
  continuation : BitVec 32
  carry : Bool
  deriving DecidableEq, Repr

structure Loader where
  eax : Nat
  ebx : Nat
  ecx : Nat
  edx : Nat
  di : Nat
  memory : ByteMemory

def loadHalf (memory : ByteMemory) (address : Nat) : Nat :=
  (memory.byte address).toNat + 256 * (memory.byte (address + 1)).toNat

def storeHalf (memory : ByteMemory) (address value : Nat) : ByteMemory :=
  (memory.storeByte address (BitVec.ofNat 8 value)).storeByte (address + 1)
    (BitVec.ofNat 8 (value / 256))

def storeArds (memory : ByteMemory) (address : Nat) (ards : Ards) :
    ByteMemory :=
  ((((memory.storeWord address ards.baseAddLow.toNat).storeWord (address + 4)
    ards.baseAddHigh.toNat).storeWord (address + 8)
    ards.lengthLow.toNat).storeWord (address + 12)
    ards.lengthHigh.toNat).storeWord (address + 16) ards.type.toNat

/-- `int 0x15` with function `E820` stores the entry at `es:di`. -/
def Loader.int15 (s : Loader) (answer : E820Answer) : Loader :=
  { s with
    eax := 0x534d4150
    ebx := answer.continuation.toNat
    ecx := 20
    memory := storeArds s.memory s.di answer.entry }

/-- `.e820_mem_get_loop`, with the answers of the BIOS; a carry leaves for
`.e820_failed_so_try_e801`. -/
def e820MemGetLoop : List E820Answer → Loader → Option Loader
  | [], _ => none
  | answer :: answers, s =>
      let s := { s with eax := 0xe820, ecx := 20 }
      let s := s.int15 answer
      if answer.carry then
        none
      else
        let s := { s with di := (s.di + s.ecx % 65536) % 65536 }
        let s := { s with
          memory := storeHalf s.memory ardsNr
            ((loadHalf s.memory ardsNr + 1) % 65536) }
        if s.ebx = 0 then some s else e820MemGetLoop answers s

def signed (word : Nat) : Int :=
  if word < 2147483648 then word else (word : Int) - 4294967296

/-- `.find_max_mem_area`, by the rounds that are left; the result is `edx`. -/
def findMaxMemArea (memory : ByteMemory) : Nat → Nat → Nat → Nat
  | 0, _, edx => edx
  | rounds + 1, ebx, edx =>
      let eax := u32 (memory.loadWord ebx + memory.loadWord (ebx + 8))
      let ebx := u32 (ebx + 20)
      if signed edx ≥ signed eax then
        findMaxMemArea memory rounds ebx edx
      else
        findMaxMemArea memory rounds ebx eax

/-- The rounds of a loop closed by `loop`, which counts `cx` down before it
tests it. -/
def loopRounds (cx : Nat) : Nat :=
  if cx = 0 then 65536 else cx

/-- `loader_start` up to `.mem_get_ok`, on the path of function `E820`. -/
def loaderStart (answers : List E820Answer) (s : Loader) : Option Loader := do
  let s := { s with ebx := 0, edx := 0x534d4150, di := ardsBuf }
  let s ← e820MemGetLoop answers s
  let cx := loadHalf s.memory ardsNr
  let edx := findMaxMemArea s.memory (loopRounds cx) ardsBuf 0
  return { s with edx, memory := s.memory.storeWord totalMemBytes edx }

/-- The answers of a BIOS that lists its ranges: the continuation value is zero
with the last one, and no call fails. -/
inductive Listing : List E820Answer → Prop
  | last {answer : E820Answer} :
      answer.carry = false → answer.continuation = 0 → Listing [answer]
  | more {answer : E820Answer} {answers : List E820Answer} :
      answer.carry = false → answer.continuation ≠ 0 → Listing answers →
      Listing (answer :: answers)

/-! ## The list in memory -/

section Memory

variable (memory : ByteMemory)

theorem loadHalf_storeHalf (address : Nat) {value : Nat}
    (bound : value < 65536) :
    loadHalf (storeHalf memory address value) address = value := by
  unfold loadHalf storeHalf
  rw [ByteMemory.byte_storeByte, if_neg (by omega), ByteMemory.byte_storeByte,
    if_pos rfl, ByteMemory.byte_storeByte, if_pos rfl]
  simp only [BitVec.toNat_ofNat]
  omega

theorem loadWord_storeHalf {address tested : Nat} (value : Nat)
    (disjoint : tested + 4 ≤ address ∨ address + 2 ≤ tested) :
    (storeHalf memory address value).loadWord tested =
      memory.loadWord tested := by
  unfold storeHalf
  rw [ByteMemory.loadWord_storeByte_of_outside _ _ (by omega),
    ByteMemory.loadWord_storeByte_of_outside _ _ (by omega)]

theorem loadHalf_storeWord {address tested : Nat} (value : Nat)
    (disjoint : tested + 2 ≤ address ∨ address + 4 ≤ tested) :
    loadHalf (memory.storeWord address value) tested =
      loadHalf memory tested := by
  unfold loadHalf
  rw [ByteMemory.byte_storeWord_of_outside _ _ (by omega),
    ByteMemory.byte_storeWord_of_outside _ _ (by omega)]

private theorem loadWord_storeArds {address tested : Nat} (ards : Ards)
    (disjoint : tested + 4 ≤ address ∨ address + 20 ≤ tested) :
    (storeArds memory address ards).loadWord tested =
      memory.loadWord tested := by
  unfold storeArds
  iterate 5
    rw [ByteMemory.loadWord_storeWord_of_disjoint _ _ (by omega)]

private theorem loadHalf_storeArds {address tested : Nat} (ards : Ards)
    (disjoint : tested + 2 ≤ address ∨ address + 20 ≤ tested) :
    loadHalf (storeArds memory address ards) tested =
      loadHalf memory tested := by
  unfold storeArds
  iterate 5
    rw [loadHalf_storeWord _ _ (by omega)]

private theorem loadWord_storeArds_self (address : Nat) (ards : Ards) :
    (storeArds memory address ards).loadWord address =
        ards.baseAddLow.toNat ∧
      (storeArds memory address ards).loadWord (address + 8) =
        ards.lengthLow.toNat := by
  unfold storeArds
  constructor
  · iterate 4
      rw [ByteMemory.loadWord_storeWord_of_disjoint _ _ (by omega)]
    exact ByteMemory.loadWord_storeWord_self _ _ ards.baseAddLow.isLt
  · iterate 2
      rw [ByteMemory.loadWord_storeWord_of_disjoint _ _ (by omega)]
    exact ByteMemory.loadWord_storeWord_self _ _ ards.lengthLow.isLt

end Memory

/-- The low words of the entries stand one after the other from an address
on. -/
def HoldsEntries (memory : ByteMemory) : Nat → List E820Answer → Prop
  | _, [] => True
  | address, answer :: answers =>
      memory.loadWord address = answer.entry.baseAddLow.toNat ∧
        memory.loadWord (address + 8) = answer.entry.lengthLow.toNat ∧
        HoldsEntries memory (address + 20) answers

def Loader.listed (s : Loader) (answer : E820Answer) : ByteMemory :=
  storeHalf (storeArds s.memory s.di answer.entry) ardsNr
    ((loadHalf (storeArds s.memory s.di answer.entry) ardsNr + 1) % 65536)

/-- One round stores an entry behind those that are there, and counts it. -/
theorem Loader.listed_words {s : Loader} {count : Nat} (answer : E820Answer)
    (place : s.di = ardsBuf + 20 * count)
    (counted : loadHalf s.memory ardsNr = count) (room : count < 12) :
    loadHalf (s.listed answer) ardsNr = count + 1 ∧
      (s.listed answer).loadWord (ardsBuf + 20 * count) =
        answer.entry.baseAddLow.toNat ∧
      (s.listed answer).loadWord (ardsBuf + 20 * count + 8) =
        answer.entry.lengthLow.toNat ∧
      ∀ address, address + 4 ≤ ardsBuf + 20 * count →
        (s.listed answer).loadWord address = s.memory.loadWord address := by
  have below : ardsBuf + 20 * count + 20 ≤ ardsNr := by
    unfold ardsBuf ardsNr
    omega
  obtain ⟨base, length⟩ := loadWord_storeArds_self s.memory s.di answer.entry
  have kept : ∀ address, address + 4 ≤ ardsNr →
      (s.listed answer).loadWord address =
        (storeArds s.memory s.di answer.entry).loadWord address :=
    fun address early => loadWord_storeHalf _ _ (by omega)
  rw [place] at base length
  refine ⟨?_, ?_, ?_, ?_⟩
  · unfold listed
    rw [loadHalf_storeHalf _ _ (by omega), place,
      loadHalf_storeArds _ _ (by omega), counted]
    omega
  · rw [kept _ (by omega), place]
    exact base
  · rw [kept _ (by omega), place]
    exact length
  · intro address early
    rw [kept _ (by omega), place, loadWord_storeArds _ _ (by omega)]

theorem e820MemGetLoop_cons {answer : E820Answer} {answers : List E820Answer}
    {s : Loader} {count : Nat} (noCarry : answer.carry = false)
    (place : s.di = ardsBuf + 20 * count) (room : count < 12) :
    e820MemGetLoop (answer :: answers) s =
      (if answer.continuation = 0 then some else e820MemGetLoop answers)
        { s with
          eax := 0x534d4150
          ebx := answer.continuation.toNat
          ecx := 20
          di := ardsBuf + 20 * (count + 1)
          memory := s.listed answer } := by
  have next : (s.di + 20 % 65536) % 65536 = ardsBuf + 20 * (count + 1) := by
    rw [place]
    unfold ardsBuf
    omega
  have ended : answer.continuation.toNat = 0 ↔ answer.continuation = 0 :=
    BitVec.toNat_eq (y := 0).symm
  rw [e820MemGetLoop]
  simp only [Loader.int15, noCarry, Bool.false_eq_true, if_false, next, ended,
    Loader.listed]
  split <;> rfl

/-- The list is read and counted. -/
theorem e820MemGetLoop_ok {answers : List E820Answer}
    (listing : Listing answers) :
    ∀ {s : Loader} {count : Nat}, s.di = ardsBuf + 20 * count →
      loadHalf s.memory ardsNr = count → count + answers.length ≤ 12 →
      ∃ s', e820MemGetLoop answers s = some s' ∧
        loadHalf s'.memory ardsNr = count + answers.length ∧
        HoldsEntries s'.memory (ardsBuf + 20 * count) answers ∧
        ∀ address, address + 4 ≤ ardsBuf + 20 * count →
          s'.memory.loadWord address = s.memory.loadWord address := by
  induction listing with
  | @last answer noCarry final =>
      intro s count place counted room
      rw [List.length_singleton] at room
      obtain ⟨half, base, length, kept⟩ :=
        Loader.listed_words answer place counted (by omega)
      rw [e820MemGetLoop_cons noCarry place (by omega), if_pos final]
      exact ⟨_, rfl, half, ⟨base, length, trivial⟩, kept⟩
  | @more answer answers noCarry onwards rest inductionHypothesis =>
      intro s count place counted room
      rw [List.length_cons] at room
      obtain ⟨half, base, length, kept⟩ :=
        Loader.listed_words answer place counted (by omega)
      rw [e820MemGetLoop_cons noCarry place (by omega), if_neg onwards]
      obtain ⟨s', returned, half', held, kept'⟩ := inductionHypothesis
        (s := { s with
          eax := 0x534d4150
          ebx := answer.continuation.toNat
          ecx := 20
          di := ardsBuf + 20 * (count + 1)
          memory := s.listed answer }) rfl half (by omega)
      refine ⟨s', returned, ?_, ⟨?_, ?_, held⟩, ?_⟩
      · rw [half', List.length_cons]
        omega
      · rw [kept' _ (by omega)]
        exact base
      · rw [kept' _ (by omega)]
        exact length
      · intro address early
        rw [kept' _ (by omega)]
        exact kept address early

/-! ## The largest end -/

def signedTop (edx : Nat) (answers : List E820Answer) : Nat :=
  answers.foldl (fun edx answer =>
    if signed edx ≥ signed answer.entry.top then edx else answer.entry.top) edx

theorem findMaxMemArea_eq {memory : ByteMemory} :
    ∀ {answers : List E820Answer} {ebx : Nat} (edx : Nat),
      HoldsEntries memory ebx answers →
      ebx + 20 * answers.length < 4294967296 →
      (∀ answer ∈ answers, answer.entry.top < 4294967296) →
      findMaxMemArea memory answers.length ebx edx = signedTop edx answers
  | [], _, _, _, _, _ => rfl
  | answer :: answers, ebx, edx, held, room, low => by
      obtain ⟨base, length, later⟩ := held
      rw [List.length_cons] at room ⊢
      have sum : u32 (memory.loadWord ebx + memory.loadWord (ebx + 8)) =
          answer.entry.top := by
        rw [base, length]
        exact u32_of_lt (low answer List.mem_cons_self)
      have next : u32 (ebx + 20) = ebx + 20 := u32_of_lt (by omega)
      have rest := fun edx => findMaxMemArea_eq edx later (by omega)
        fun other member => low other (List.mem_cons_of_mem _ member)
      rw [findMaxMemArea, signedTop, List.foldl_cons]
      simp only [sum, next, rest]
      split <;> rfl

private theorem signed_of_lt {word : Nat} (small : word < 2147483648) :
    signed word = word :=
  if_pos small

private theorem signed_of_le {word : Nat} (large : 2147483648 ≤ word)
    (bound : word < 4294967296) : signed word < 0 := by
  unfold signed
  rw [if_neg (by omega)]
  omega

/-- The result stays below 2 GB, and ranges that end behind are passed over. -/
theorem signedTop_spec :
    ∀ {answers : List E820Answer} {edx : Nat}, edx < 2147483648 →
      (∀ answer ∈ answers, answer.entry.top < 4294967296) →
      signedTop edx answers < 2147483648 ∧
        edx ≤ signedTop edx answers ∧
        (signedTop edx answers = edx ∨
          ∃ answer ∈ answers, signedTop edx answers = answer.entry.top) ∧
        ∀ answer ∈ answers, answer.entry.top < 2147483648 →
          answer.entry.top ≤ signedTop edx answers
  | [], edx, small, _ => ⟨small, Nat.le_refl edx, Or.inl rfl, by simp⟩
  | answer :: answers, edx, small, low => by
      have own := low answer List.mem_cons_self
      have others := fun other member =>
        low other (List.mem_cons_of_mem answer member)
      rw [signedTop, List.foldl_cons]
      by_cases taken : signed edx ≥ signed answer.entry.top
      · rw [if_pos taken]
        obtain ⟨bound, above, reached, upper⟩ :=
          @signedTop_spec answers edx small others
        rw [signedTop] at bound above reached upper
        refine ⟨bound, above, ?_, ?_⟩
        · rcases reached with same | ⟨other, member, same⟩
          · exact Or.inl same
          · exact Or.inr ⟨other, List.mem_cons_of_mem _ member, same⟩
        · intro other member early
          rcases List.mem_cons.mp member with rfl | later
          · rw [signed_of_lt small, signed_of_lt early] at taken
            omega
          · exact upper other later early
      · have ownSmall : answer.entry.top < 2147483648 := by
          by_contra large
          have negative := signed_of_le (by omega) own
          rw [signed_of_lt small] at taken
          omega
        rw [if_neg taken]
        rw [signed_of_lt small, signed_of_lt ownSmall] at taken
        obtain ⟨bound, above, reached, upper⟩ :=
          @signedTop_spec answers answer.entry.top ownSmall others
        rw [signedTop] at bound above reached upper
        refine ⟨bound, by omega, Or.inr ?_, ?_⟩
        · rcases reached with same | ⟨other, member, same⟩
          · exact ⟨answer, List.mem_cons_self, same⟩
          · exact ⟨other, List.mem_cons_of_mem _ member, same⟩
        · intro other member early
          rcases List.mem_cons.mp member with rfl | later
          · exact above
          · exact upper other later early

/-- The stored size is the largest end of a range exactly when all ranges end
below 2 GB. -/
theorem loader_top_iff {answers : List E820Answer} {s : Loader}
    (listing : Listing answers) (room : answers.length ≤ 12)
    (low : ∀ answer ∈ answers, answer.entry.top < 4294967296)
    (fresh : loadHalf s.memory ardsNr = 0) :
    ∃ s', loaderStart answers s = some s' ∧
      (IsGreatest {top | ∃ answer ∈ answers, top = answer.entry.top}
          (s'.memory.loadWord totalMemBytes) ↔
        ∀ answer ∈ answers, answer.entry.top < 2147483648) := by
  obtain ⟨listed, returned, half, held, -⟩ :=
    @e820MemGetLoop_ok answers listing
      { s with ebx := 0, edx := 0x534d4150, di := ardsBuf }
      0 rfl fresh (by omega)
  have nonempty : answers.length ≠ 0 := by
    cases listing <;> simp
  have edx : findMaxMemArea listed.memory
      (loopRounds (loadHalf listed.memory ardsNr)) ardsBuf 0 =
      signedTop 0 answers := by
    rw [half, Nat.zero_add, loopRounds, if_neg nonempty]
    apply findMaxMemArea_eq 0 held _ low
    unfold ardsBuf
    omega
  obtain ⟨bound, -, reached, upper⟩ :=
    @signedTop_spec answers 0 (by decide) low
  refine ⟨{ listed with
    edx := signedTop 0 answers
    memory := listed.memory.storeWord totalMemBytes (signedTop 0 answers) },
    ?_, ?_⟩
  · simp only [loaderStart, returned, edx, Option.bind_eq_bind,
      Option.bind_some]
    rfl
  · rw [ByteMemory.loadWord_storeWord_self _ _ (by omega)]
    constructor
    · rintro ⟨-, greatest⟩ answer member
      have below : answer.entry.top ≤ signedTop 0 answers :=
        greatest ⟨answer, member, rfl⟩
      omega
    · intro small
      refine ⟨?_, ?_⟩
      · rcases reached with zero | ⟨answer, member, same⟩
        · -- all ends are zero
          obtain ⟨answer, member⟩ := List.exists_mem_of_length_pos
            (Nat.pos_of_ne_zero nonempty)
          have least := upper answer member (small answer member)
          exact ⟨answer, member, by omega⟩
        · exact ⟨answer, member, same⟩
      · rintro top ⟨answer, member, rfl⟩
        exact upper answer member (small answer member)

/-- A machine with 3 GB: the memory below 640 KB and that above 1 MB. -/
def threeGigabytes : List E820Answer :=
  [⟨⟨0, 0, 0x9fc00, 0, 1⟩, 1, false⟩,
    ⟨⟨0x100000, 0, 0xbff00000, 0, 1⟩, 0, false⟩]

def coldLoader : Loader :=
  ⟨0, 0, 0, 0, 0, ⟨fun _ => 0⟩⟩

theorem loader_top_iff_threeGigabytes :
    ∃ s', loaderStart threeGigabytes coldLoader = some s' ∧
      (IsGreatest {top | ∃ answer ∈ threeGigabytes, top = answer.entry.top}
          (s'.memory.loadWord totalMemBytes) ↔
        ∀ answer ∈ threeGigabytes, answer.entry.top < 2147483648) :=
  loader_top_iff (.more rfl (by decide) (.last rfl rfl)) (by decide)
    (by decide) rfl

/-- The loader stores the end of the first range. -/
theorem loader_top_missed :
    ∃ s', loaderStart threeGigabytes coldLoader = some s' ∧
      s'.memory.loadWord totalMemBytes = 0x9fc00 ∧
      IsGreatest {top | ∃ answer ∈ threeGigabytes, top = answer.entry.top}
        0xc0000000 := by
  have computed : (loaderStart threeGigabytes coldLoader).map
      (fun s => s.memory.loadWord totalMemBytes) = some 0x9fc00 := by
    decide +kernel
  obtain ⟨s', returned, stored⟩ := Option.map_eq_some_iff.mp computed
  refine ⟨s', returned, stored, ⟨_, List.mem_cons_of_mem _ List.mem_cons_self,
    rfl⟩, ?_⟩
  rintro top ⟨answer, member, rfl⟩
  have small : ∀ answer ∈ threeGigabytes, answer.entry.top ≤ 0xc0000000 := by
    decide
  exact small answer member

end Simos
