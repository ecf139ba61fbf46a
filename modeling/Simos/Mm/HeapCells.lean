import Simos.Mm.Malloc
import Simos.Mm.PageSpec

/-!
# Where the heap keeps its words

Headers, descriptors and free blocks all begin with an eight-byte cell of two
words.  Distinct cells are disjoint, so that the list functions satisfy their
laws on them.  The block addresses of an arena are `slotAddr page cls index`.
-/

namespace Simos

open Simos.Library LinkHeap

def classSize (cls : Nat) : Nat :=
  16 * 2 ^ cls

def classBlocks (cls : Nat) : Nat :=
  (pageSize - arenaSize) / classSize cls

def slotAddr (page cls index : Nat) : Nat :=
  pageAddr page + arenaSize + index * classSize cls

def OnPage (page address : Nat) : Prop :=
  pageAddr page ≤ address ∧ address < pageAddr page + pageSize

instance (page address : Nat) : Decidable (OnPage page address) :=
  inferInstanceAs (Decidable (_ ∧ _))

/-- `kernel_block_desc_array` stands in the kernel image, below the heap. -/
def DescArrayPlaced (descArray : Nat) : Prop :=
  pageOffest ≤ descArray ∧
    descArray + memDescCnt * memBlockDescSize ≤ kernelHeapBase

/-- The aligned pairs of words that the heap may use. -/
def IsCell (descArray address : Nat) : Prop :=
  (∃ index, index < 2 * memDescCnt ∧ address = descArray + 8 * index) ∨
    kernelHeapBase ≤ address ∧ address % 8 = 0 ∧ address < selfMapBase

def SameCell (memory memory' : ByteMemory) (address : Nat) : Prop :=
  memory'.loadWord address = memory.loadWord address ∧
    memory'.loadWord (address + 4) = memory.loadWord (address + 4)

/-! ## Blocks of an arena -/

theorem classSize_ge (cls : Nat) : 16 ≤ classSize cls := by
  have positive := Nat.one_le_two_pow (n := cls)
  unfold classSize
  omega

private theorem classSize_mod (cls : Nat) : classSize cls % 8 = 0 := by
  unfold classSize
  omega

theorem classBlocks_lt (cls : Nat) : classBlocks cls < 256 := by
  have large := classSize_ge cls
  unfold classBlocks
  rw [Nat.div_lt_iff_lt_mul (by omega)]
  unfold pageSize arenaSize
  omega

theorem classBlocks_pos {cls : Nat} (inside : cls < 7) :
    0 < classBlocks cls := by
  have small : classSize cls ≤ 1024 := by
    have power : 2 ^ cls ≤ 2 ^ 6 := Nat.pow_le_pow_right (by decide) (by omega)
    unfold classSize
    omega
  exact Nat.div_pos (Nat.le_trans small (by decide))
    (Nat.lt_of_lt_of_le (by decide) (classSize_ge cls))

theorem slotAddr_eq (page cls index : Nat) :
    slotAddr page cls index =
      0xc1000000 + 4096 * page + 8 + index * classSize cls :=
  rfl

theorem slotAddr_end (page : Nat) {cls index : Nat}
    (inside : index < classBlocks cls) :
    slotAddr page cls index + classSize cls ≤ pageAddr page + 4096 := by
  have whole : (index + 1) * classSize cls ≤ 4088 := by
    have filled : classBlocks cls * classSize cls ≤ 4088 :=
      Nat.div_mul_le_self 4088 (classSize cls)
    exact Nat.le_trans (Nat.mul_le_mul_right _ inside) filled
  rw [Nat.succ_mul] at whole
  rw [slotAddr_eq, pageAddr_eq]
  omega

theorem slotAddr_mod (page cls index : Nat) :
    slotAddr page cls index % 8 = 0 := by
  have aligned : (index * classSize cls) % 8 = 0 := by
    rw [Nat.mul_mod, classSize_mod, Nat.mul_zero, Nat.zero_mod]
  rw [slotAddr_eq]
  omega

theorem slotAddr_apart (page cls : Nat) {left right : Nat} (less : left < right) :
    slotAddr page cls left + classSize cls ≤ slotAddr page cls right := by
  have steps : (left + 1) * classSize cls ≤ right * classSize cls :=
    Nat.mul_le_mul_right _ less
  rw [Nat.succ_mul] at steps
  rw [slotAddr_eq, slotAddr_eq]
  omega

theorem slotAddr_onPage (page : Nat) {cls index : Nat}
    (inside : index < classBlocks cls) :
    OnPage page (slotAddr page cls index) := by
  have ends := slotAddr_end page inside
  have large := classSize_ge cls
  have low := slotAddr_eq page cls index
  constructor
  · rw [pageAddr_eq]
    omega
  · unfold pageSize
    omega

theorem OnPage.unique {page page' address : Nat} (first : OnPage page address)
    (second : OnPage page' address) : page = page' := by
  unfold OnPage pageSize at first second
  rw [pageAddr_eq] at first second
  omega

theorem slotAddr_injective {page cls left right : Nat}
    (equal : slotAddr page cls left = slotAddr page cls right) :
    left = right := by
  have large := classSize_ge cls
  rcases Nat.lt_trichotomy left right with less | same | greater
  · have apart := slotAddr_apart page cls less
    omega
  · exact same
  · have apart := slotAddr_apart page cls greater
    omega

/-! ## Masking a block address -/

theorem block2Arena_eq {block : Nat} (bound : block < 4294967296) :
    block2Arena block = block / 4096 * 4096 := by
  have mask : pageMask = (2 ^ 20 - 1) <<< 12 := by decide
  have shifted : block / 4096 * 4096 = (block >>> 12) <<< 12 := by
    rw [Nat.shiftLeft_eq, Nat.shiftRight_eq_div_pow]
  rw [block2Arena, mask, shifted]
  apply Nat.eq_of_testBit_eq
  intro index
  rw [Nat.testBit_and, Nat.testBit_shiftLeft, Nat.testBit_shiftLeft,
    Nat.testBit_two_pow_sub_one, Nat.testBit_shiftRight]
  by_cases low : 12 ≤ index
  · have same : 12 + (index - 12) = index := by omega
    rw [same]
    by_cases high : index < 32
    · have inMask : index - 12 < 20 := by omega
      simp [low, inMask]
    · have beyond : block.testBit index = false := by
        apply Nat.testBit_lt_two_pow
        calc
          block < 2 ^ 32 := bound
          _ ≤ 2 ^ index := Nat.pow_le_pow_right (by decide) (by omega)
      simp [beyond]
  · simp [low]

theorem block2Arena_of_onPage {page block : Nat} (inside : page < 258048)
    (onPage : OnPage page block) : block2Arena block = pageAddr page := by
  unfold OnPage pageSize at onPage
  rw [pageAddr_eq] at onPage ⊢
  rw [block2Arena_eq (by omega)]
  omega

/-! ## Cells -/

theorem IsCell.lt {descArray address : Nat} (placed : DescArrayPlaced descArray)
    (cell : IsCell descArray address) : address < selfMapBase := by
  unfold DescArrayPlaced memDescCnt memBlockDescSize kernelHeapBase at placed
  rcases cell with ⟨index, inside, rfl⟩ | ⟨_, _, below⟩
  · unfold memDescCnt at inside
    unfold selfMapBase
    omega
  · exact below

theorem IsCell.apart {descArray left right : Nat}
    (placed : DescArrayPlaced descArray) (leftCell : IsCell descArray left)
    (rightCell : IsCell descArray right) (different : left ≠ right) :
    left + 8 ≤ right ∨ right + 8 ≤ left := by
  unfold DescArrayPlaced memDescCnt memBlockDescSize kernelHeapBase at placed
  unfold IsCell memDescCnt kernelHeapBase at leftCell rightCell
  rcases leftCell with ⟨i, insideLeft, rfl⟩ | leftHeap
  · rcases rightCell with ⟨j, insideRight, rfl⟩ | rightHeap
    · omega
    · omega
  · rcases rightCell with ⟨j, insideRight, rfl⟩ | rightHeap
    · omega
    · omega

theorem cells_lawful {descArray : Nat} (placed : DescArrayPlaced descArray) :
    LawfulOn ByteMemory (IsCell descArray) (· < 4294967296) where
  next_setNext_self memory _ _ _ bound :=
    memory.loadWord_storeWord_self _ bound
  next_setNext_of_ne memory _ value _ node other different :=
    memory.loadWord_storeWord_of_disjoint value
      (by have apart := IsCell.apart placed other node different; omega)
  prev_setNext memory node value other isNode isOther := by
    apply memory.loadWord_storeWord_of_disjoint value
    by_cases same : other = node
    · omega
    · have apart := IsCell.apart placed isOther isNode same
      omega
  prev_setPrev_self memory _ _ _ bound :=
    memory.loadWord_storeWord_self _ bound
  prev_setPrev_of_ne memory _ value _ node other different :=
    memory.loadWord_storeWord_of_disjoint value
      (by have apart := IsCell.apart placed other node different; omega)
  next_setPrev memory node value other isNode isOther := by
    apply memory.loadWord_storeWord_of_disjoint value
    by_cases same : other = node
    · omega
    · have apart := IsCell.apart placed isOther isNode same
      omega

namespace SameCell

variable {memory memory' memory'' : ByteMemory} {address : Nat}

theorem refl (memory : ByteMemory) (address : Nat) :
    SameCell memory memory address :=
  ⟨rfl, rfl⟩

theorem trans (first : SameCell memory memory' address)
    (second : SameCell memory' memory'' address) :
    SameCell memory memory'' address :=
  ⟨second.1.trans first.1, second.2.trans first.2⟩

theorem fill {start count : Nat} {value : BitVec 8}
    (disjoint : address + 8 ≤ start ∨ start + count ≤ address) :
    SameCell memory (memory.fill start value count) address :=
  ⟨memory.loadWord_fill_of_disjoint value (by omega),
    memory.loadWord_fill_of_disjoint value (by omega)⟩

theorem storeWord {target value : Nat}
    (disjoint : address + 8 ≤ target ∨ target + 4 ≤ address) :
    SameCell memory (memory.storeWord target value) address :=
  ⟨memory.loadWord_storeWord_of_disjoint value (by omega),
    memory.loadWord_storeWord_of_disjoint value (by omega)⟩

theorem storeByte {target : Nat} {value : BitVec 8}
    (outside : target < address ∨ address + 8 ≤ target) :
    SameCell memory (memory.storeByte target value) address :=
  ⟨memory.loadWord_storeByte_of_outside value (by omega),
    memory.loadWord_storeByte_of_outside value (by omega)⟩

end SameCell

end Simos
