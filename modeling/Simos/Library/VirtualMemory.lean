import Simos.Library.Paging

/-!
# Loads and stores through page tables

An access is translated byte by byte, and one that meets an absent entry is a
fault.  The processor here runs at the level that may write to every page.

* `Window` says that a range of addresses leads to a range of the memory, and
  goes on doing so whatever is stored there: the tables themselves lie
  outside;
* `readWord_of_window`, `writeWord_of_window` and `repMovsb_of_window` are the
  accesses through a window;
* `StoresIn` is a computation that stores constants into a range, and
  `StoresIn.writeAll` runs it through a window.
-/

namespace Simos.Library

def readVirtual (directory : Nat) (memory : ByteMemory) (address : Nat) :
    Option (BitVec 8) :=
  (translateAddr memory directory address).map memory.byte

def writeVirtual (directory : Nat) (memory : ByteMemory) (address : Nat)
    (value : BitVec 8) : Option ByteMemory :=
  (translateAddr memory directory address).map fun physical =>
    memory.storeByte physical value

def readWord (directory : Nat) (memory : ByteMemory) (address : Nat) :
    Option Nat := do
  let byte0 ← readVirtual directory memory address
  let byte1 ← readVirtual directory memory (address + 1)
  let byte2 ← readVirtual directory memory (address + 2)
  let byte3 ← readVirtual directory memory (address + 3)
  return byte0.toNat + 256 * byte1.toNat + 65536 * byte2.toNat +
    16777216 * byte3.toNat

def writeWord (directory : Nat) (memory : ByteMemory) (address value : Nat) :
    Option ByteMemory := do
  let memory ← writeVirtual directory memory address (BitVec.ofNat 8 value)
  let memory ← writeVirtual directory memory (address + 1)
    (BitVec.ofNat 8 (value / 256))
  let memory ← writeVirtual directory memory (address + 2)
    (BitVec.ofNat 8 (value / 65536))
  writeVirtual directory memory (address + 3)
    (BitVec.ofNat 8 (value / 16777216))

/-- `rep movsb` upwards, by the count that is left. -/
def repMovsb (directory : Nat) :
    Nat → ByteMemory → Nat → Nat → Option ByteMemory
  | 0, memory, _, _ => some memory
  | count + 1, memory, source, target => do
      let value ← readVirtual directory memory source
      let memory ← writeVirtual directory memory target value
      repMovsb directory count memory ((source + 1) % 4294967296)
        ((target + 1) % 4294967296)

def ByteMemory.copied (memory : ByteMemory) (source target count : Nat) :
    ByteMemory where
  byte tested :=
    if target ≤ tested ∧ tested < target + count then
      memory.byte (source + (tested - target))
    else
      memory.byte tested

theorem ByteMemory.byte_copied (memory : ByteMemory)
    (source target count tested : Nat) :
    (memory.copied source target count).byte tested =
      if target ≤ tested ∧ tested < target + count then
        memory.byte (source + (tested - target))
      else
        memory.byte tested :=
  rfl

theorem ByteMemory.copied_zero (memory : ByteMemory) (source target : Nat) :
    memory.copied source target 0 = memory := by
  apply ByteMemory.ext
  funext tested
  rw [ByteMemory.byte_copied, if_neg (by omega)]

theorem ByteMemory.copied_succ (memory : ByteMemory)
    {source target count : Nat}
    (apart : source + (count + 1) ≤ target ∨ target + (count + 1) ≤ source) :
    (memory.storeByte target (memory.byte source)).copied (source + 1)
        (target + 1) count =
      memory.copied source target (count + 1) := by
  apply ByteMemory.ext
  funext tested
  rw [ByteMemory.byte_copied, ByteMemory.byte_copied]
  by_cases first : tested = target
  · have same : source + (tested - target) = source := by omega
    rw [if_neg (by omega), if_pos (by omega), ByteMemory.byte_storeByte,
      if_pos first, same]
  by_cases inside : target + 1 ≤ tested ∧ tested < target + 1 + count
  · have same : source + 1 + (tested - (target + 1)) =
        source + (tested - target) := by
      omega
    rw [if_pos inside, if_pos (by omega), ByteMemory.byte_storeByte,
      if_neg (by omega), same]
  · rw [if_neg inside, if_neg (by omega), ByteMemory.byte_storeByte,
      if_neg first]

/-- The memories agree outside of a range. -/
def AgreeOutside (memory memory' : ByteMemory) (physical size : Nat) : Prop :=
  ∀ address, address < physical ∨ physical + size ≤ address →
    memory'.byte address = memory.byte address

theorem AgreeOutside.refl (memory : ByteMemory) (physical size : Nat) :
    AgreeOutside memory memory physical size :=
  fun _ _ => rfl

theorem AgreeOutside.trans {memory memory' memory'' : ByteMemory}
    {physical size : Nat}
    (first : AgreeOutside memory memory' physical size)
    (second : AgreeOutside memory' memory'' physical size) :
    AgreeOutside memory memory'' physical size := by
  intro address outside
  rw [second address outside, first address outside]

theorem AgreeOutside.storeByte (memory : ByteMemory)
    {physical size address : Nat} (value : BitVec 8)
    (inside : physical ≤ address ∧ address < physical + size) :
    AgreeOutside memory (memory.storeByte address value) physical size := by
  intro tested outside
  rw [ByteMemory.byte_storeByte, if_neg (by omega)]

/-- The addresses from `virtual` on lead to the memory from `physical` on,
whatever is stored there. -/
def Window (directory virtual physical size : Nat) (memory : ByteMemory) :
    Prop :=
  ∀ memory', AgreeOutside memory memory' physical size →
    ∀ offset, offset < size →
      translateAddr memory' directory (virtual + offset) =
        some (physical + offset)

namespace Window

variable {directory virtual physical size : Nat} {memory memory' : ByteMemory}

theorem congr (window : Window directory virtual physical size memory)
    (agree : AgreeOutside memory memory' physical size) :
    Window directory virtual physical size memory' :=
  fun later agree' => window later (agree.trans agree')

theorem sub (window : Window directory virtual physical size memory)
    {start size' : Nat} (inside : start + size' ≤ size) :
    Window directory (virtual + start) (physical + start) size' memory := by
  intro later agree offset small
  have part := window later
    (fun address outside => agree address (by omega)) (start + offset)
    (by omega)
  rwa [← Nat.add_assoc, ← Nat.add_assoc] at part

theorem translate (window : Window directory virtual physical size memory)
    {offset : Nat} (inside : offset < size) :
    translateAddr memory directory (virtual + offset) =
      some (physical + offset) :=
  window memory (AgreeOutside.refl memory physical size) offset inside

theorem readVirtual (window : Window directory virtual physical size memory)
    {offset : Nat} (inside : offset < size) :
    readVirtual directory memory (virtual + offset) =
      some (memory.byte (physical + offset)) := by
  rw [Library.readVirtual, window.translate inside]
  rfl

theorem writeVirtual (window : Window directory virtual physical size memory)
    {offset : Nat} (inside : offset < size) (value : BitVec 8) :
    writeVirtual directory memory (virtual + offset) value =
      some (memory.storeByte (physical + offset) value) := by
  rw [Library.writeVirtual, window.translate inside]
  rfl

theorem storeByte (window : Window directory virtual physical size memory)
    {offset : Nat} (inside : offset < size) (value : BitVec 8) :
    Window directory virtual physical size
      (memory.storeByte (physical + offset) value) :=
  window.congr (AgreeOutside.storeByte memory value (by omega))

theorem readWord (window : Window directory virtual physical size memory)
    {offset : Nat} (inside : offset + 4 ≤ size) :
    readWord directory memory (virtual + offset) =
      some (memory.loadWord (physical + offset)) := by
  have byte0 := window.readVirtual (show offset < size by omega)
  have byte1 := window.readVirtual (show offset + 1 < size by omega)
  have byte2 := window.readVirtual (show offset + 2 < size by omega)
  have byte3 := window.readVirtual (show offset + 3 < size by omega)
  simp only [← Nat.add_assoc] at byte1 byte2 byte3
  simp only [Library.readWord, byte0, byte1, byte2, byte3,
    Option.bind_eq_bind, Option.bind_some]
  rfl

end Window

theorem ByteMemory.storeWord_eq (memory : ByteMemory) (address value : Nat) :
    (((memory.storeByte address (BitVec.ofNat 8 value)).storeByte
      (address + 1) (BitVec.ofNat 8 (value / 256))).storeByte (address + 2)
      (BitVec.ofNat 8 (value / 65536))).storeByte (address + 3)
      (BitVec.ofNat 8 (value / 16777216)) = memory.storeWord address value := by
  apply ByteMemory.ext
  funext tested
  simp only [ByteMemory.byte_storeByte, ByteMemory.storeWord]
  by_cases third : tested = address + 3
  · simp [third]
  · by_cases second : tested = address + 2
    · simp [second]
    · by_cases first : tested = address + 1
      · simp [first]
      · simp [third, second, first]

namespace Window

variable {directory virtual physical size : Nat} {memory : ByteMemory}

theorem writeWord (window : Window directory virtual physical size memory)
    {offset : Nat} (inside : offset + 4 ≤ size) (value : Nat) :
    writeWord directory memory (virtual + offset) value =
        some (memory.storeWord (physical + offset) value) ∧
      Window directory virtual physical size
        (memory.storeWord (physical + offset) value) := by
  have inside0 : offset < size := by omega
  have inside1 : offset + 1 < size := by omega
  have inside2 : offset + 2 < size := by omega
  have inside3 : offset + 3 < size := by omega
  have window1 := window.storeByte inside0 (BitVec.ofNat 8 value)
  have window2 := window1.storeByte inside1 (BitVec.ofNat 8 (value / 256))
  have window3 := window2.storeByte inside2 (BitVec.ofNat 8 (value / 65536))
  have window4 := window3.storeByte inside3 (BitVec.ofNat 8 (value / 16777216))
  have write0 := window.writeVirtual inside0 (BitVec.ofNat 8 value)
  have write1 := window1.writeVirtual inside1 (BitVec.ofNat 8 (value / 256))
  have write2 := window2.writeVirtual inside2 (BitVec.ofNat 8 (value / 65536))
  have write3 :=
    window3.writeVirtual inside3 (BitVec.ofNat 8 (value / 16777216))
  simp only [← Nat.add_assoc] at write1 write2 write3 window4
  rw [ByteMemory.storeWord_eq] at window4
  refine ⟨?_, window4⟩
  simp only [Library.writeWord, write0, write1, write2, write3,
    Option.bind_eq_bind, Option.bind_some, ByteMemory.storeWord_eq]

theorem repMovsb {virtual' : Nat} :
    ∀ {count source target : Nat} {memory : ByteMemory},
      Window directory virtual physical size memory →
      Window directory virtual' physical size memory →
      source + count ≤ size → target + count ≤ size →
      source + count ≤ target ∨ target + count ≤ source →
      virtual + size < 4294967296 → virtual' + size < 4294967296 →
      repMovsb directory count memory (virtual + source) (virtual' + target) =
        some (memory.copied (physical + source) (physical + target) count) := by
  intro count
  induction count with
  | zero =>
      intro source target memory _ _ _ _ _ _ _
      rw [Library.repMovsb, ByteMemory.copied_zero]
  | succ count inductionHypothesis =>
      intro source target memory reads writes room room' apart low low'
      have byte := reads.readVirtual (show source < size by omega)
      have stored := writes.writeVirtual (show target < size by omega)
        (memory.byte (physical + source))
      have later := @inductionHypothesis (source + 1) (target + 1) _
        (reads.storeByte (show target < size by omega)
          (memory.byte (physical + source)))
        (writes.storeByte (show target < size by omega)
          (memory.byte (physical + source)))
        (by omega) (by omega) (by omega) low low'
      have nextSource : (virtual + source + 1) % 4294967296 =
          virtual + (source + 1) := by
        rw [Nat.mod_eq_of_lt (by omega)]
        omega
      have nextTarget : (virtual' + target + 1) % 4294967296 =
          virtual' + (target + 1) := by
        rw [Nat.mod_eq_of_lt (by omega)]
        omega
      simp only [Library.repMovsb, byte, stored, Option.bind_eq_bind,
        Option.bind_some, nextSource, nextTarget, later]
      congr 1
      exact ByteMemory.copied_succ memory (by omega)

end Window

/-! ## Computations that store constants -/

/-- Bytes are stored one after the other, by their distances from `base`. -/
def storeAll (base : Nat) (memory : ByteMemory)
    (stores : List (Nat × BitVec 8)) : ByteMemory :=
  stores.foldl (fun memory store => memory.storeByte (base + store.1) store.2)
    memory

def writeAll (directory base : Nat) :
    ByteMemory → List (Nat × BitVec 8) → Option ByteMemory
  | memory, [] => some memory
  | memory, store :: stores => do
      let memory ← writeVirtual directory memory (base + store.1) store.2
      writeAll directory base memory stores

/-- All that a computation does is to store constants into a range. -/
def StoresIn (base size : Nat) (run : ByteMemory → ByteMemory) : Prop :=
  ∃ stores : List (Nat × BitVec 8), (∀ store ∈ stores, store.1 < size) ∧
    ∀ memory, run memory = storeAll base memory stores

namespace StoresIn

variable {base size : Nat}

theorem refl (base size : Nat) : StoresIn base size fun memory => memory :=
  ⟨[], by simp, fun _ => rfl⟩

theorem comp {first second : ByteMemory → ByteMemory}
    (stores : StoresIn base size first) (later : StoresIn base size second) :
    StoresIn base size fun memory => second (first memory) := by
  obtain ⟨early, earlyInside, earlyEq⟩ := stores
  obtain ⟨late, lateInside, lateEq⟩ := later
  refine ⟨early ++ late, ?_, ?_⟩
  · intro store member
    rcases List.mem_append.mp member with inEarly | inLate
    · exact earlyInside store inEarly
    · exact lateInside store inLate
  · intro memory
    show second (first memory) = storeAll base memory (early ++ late)
    rw [earlyEq, lateEq, storeAll, storeAll, storeAll, List.foldl_append]

theorem storeByte {address : Nat} (value : BitVec 8)
    (inside : base ≤ address ∧ address < base + size) :
    StoresIn base size fun memory => memory.storeByte address value := by
  refine ⟨[(address - base, value)], ?_, ?_⟩
  · intro store member
    rw [List.mem_singleton.mp member]
    show address - base < size
    omega
  · intro memory
    have place : base + (address - base) = address := by omega
    rw [storeAll, List.foldl_cons, List.foldl_nil, place]

theorem storeWord {address : Nat} (value : Nat)
    (inside : base ≤ address ∧ address + 4 ≤ base + size) :
    StoresIn base size fun memory => memory.storeWord address value := by
  have bytes := (((storeByte (BitVec.ofNat 8 value)
    (show base ≤ address ∧ address < base + size by omega)).comp
    (storeByte (BitVec.ofNat 8 (value / 256))
      (show base ≤ address + 1 ∧ address + 1 < base + size by omega))).comp
    (storeByte (BitVec.ofNat 8 (value / 65536))
      (show base ≤ address + 2 ∧ address + 2 < base + size by omega))).comp
    (storeByte (BitVec.ofNat 8 (value / 16777216))
      (show base ≤ address + 3 ∧ address + 3 < base + size by omega))
  simpa only [ByteMemory.storeWord_eq] using bytes

theorem fill {start : Nat} (value : BitVec 8) {count : Nat}
    (inside : base ≤ start ∧ start + count ≤ base + size) :
    StoresIn base size fun memory => memory.fill start value count := by
  induction count with
  | zero =>
      have unchanged : (fun memory : ByteMemory => memory.fill start value 0) =
          fun memory => memory := by
        funext memory
        apply ByteMemory.ext
        funext tested
        rw [ByteMemory.byte_fill, if_neg (by omega)]
      rw [unchanged]
      exact refl base size
  | succ count inductionHypothesis =>
      have bytes := (inductionHypothesis (by omega)).comp
        (storeByte value
          (show base ≤ start + count ∧ start + count < base + size by omega))
      have same : (fun memory : ByteMemory =>
          (memory.fill start value count).storeByte (start + count) value) =
          fun memory => memory.fill start value (count + 1) := by
        funext memory
        apply ByteMemory.ext
        funext tested
        rw [ByteMemory.byte_storeByte, ByteMemory.byte_fill,
          ByteMemory.byte_fill]
        by_cases last : tested = start + count
        · rw [if_pos last, if_pos (by omega)]
        · by_cases inside : start ≤ tested ∧ tested < start + count
          · rw [if_neg last, if_pos inside, if_pos (by omega)]
          · rw [if_neg last, if_neg inside, if_neg (by omega)]
      rwa [same] at bytes

theorem storeWords {start count : Nat} (value : Nat → Nat)
    (inside : base ≤ start ∧ start + 4 * count ≤ base + size) :
    StoresIn base size fun memory =>
      memory.storeWords start value count := by
  induction count with
  | zero => exact refl base size
  | succ count inductionHypothesis =>
      exact (inductionHypothesis (by omega)).comp
        (storeWord (value count)
          (show base ≤ start + 4 * count ∧
            start + 4 * count + 4 ≤ base + size by omega))

theorem agreeOutside {run : ByteMemory → ByteMemory}
    (stores : StoresIn base size run) (memory : ByteMemory) :
    AgreeOutside memory (run memory) base size := by
  obtain ⟨list, inside, eq⟩ := stores
  rw [eq]
  clear eq
  induction list generalizing memory with
  | nil => exact AgreeOutside.refl memory base size
  | cons store list inductionHypothesis =>
      have own := inside store List.mem_cons_self
      exact (AgreeOutside.storeByte memory store.2
        (show base ≤ base + store.1 ∧ base + store.1 < base + size by
          omega)).trans
        (inductionHypothesis _ fun other member =>
          inside other (List.mem_cons_of_mem store member))

/-- The stores through a window. -/
theorem writeAll {directory virtual : Nat} {run : ByteMemory → ByteMemory}
    (stores : StoresIn base size run) :
    ∃ list : List (Nat × BitVec 8),
      (∀ memory, run memory = storeAll base memory list) ∧
      ∀ memory, Window directory virtual base size memory →
        writeAll directory virtual memory list = some (run memory) := by
  obtain ⟨list, inside, eq⟩ := stores
  refine ⟨list, eq, ?_⟩
  intro memory window
  rw [eq]
  clear eq
  induction list generalizing memory with
  | nil => rfl
  | cons store list inductionHypothesis =>
      have own := inside store List.mem_cons_self
      have later := inductionHypothesis
        (fun other member => inside other (List.mem_cons_of_mem store member))
        _ (window.storeByte own store.2)
      rw [Library.writeAll, window.writeVirtual own]
      exact later

end StoresIn

end Simos.Library
