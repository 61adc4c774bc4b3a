import Mathlib.Logic.Function.Basic
import Mathlib.Data.Set.Basic
import Mathlib.Data.List.Basic
import Mathlib.Algebra.Ring.Nat

/-!
A byte-addressed memory with little-endian words, and blocks of bytes in it: what a write leaves
at each address, and what a read of the block then gives.
-/

namespace Neetan.ByteMemory

abbrev Memory := ℕ → UInt8

def readByte (mem : Memory) (address : ℕ) : UInt8 := mem address

def writeByte (mem : Memory) (address : ℕ) (value : UInt8) : Memory :=
  Function.update mem address value

def readWord (mem : Memory) (address : ℕ) : ℕ :=
  (mem address).toNat + 256 * (mem (address + 1)).toNat

def writeWord (mem : Memory) (address value : ℕ) : Memory :=
  writeByte (writeByte mem address (UInt8.ofNat value)) (address + 1) (UInt8.ofNat (value / 256))

/-- The bytes from an address on. -/
def readBlock (mem : Memory) (address length : ℕ) : List UInt8 :=
  (List.range length).map fun i => mem (address + i)

def writeBlock (mem : Memory) (address : ℕ) : List UInt8 → Memory
  | [] => mem
  | b :: bs => writeBlock (writeByte mem address b) (address + 1) bs

variable {mem mem' mem'' : Memory}

@[simp] lemma readByte_writeByte (mem : Memory) (a b : ℕ) (v : UInt8) :
    readByte (writeByte mem a v) b = if b = a then v else readByte mem b :=
  Function.update_apply mem a v b

lemma readWord_eq (mem : Memory) (a : ℕ) :
    readWord mem a = (readByte mem a).toNat + 256 * (readByte mem (a + 1)).toNat := rfl

lemma readWord_writeWord_same {a v : ℕ} (h : v < 2 ^ 16) : readWord (writeWord mem a v) a = v := by
  rw [readWord_eq, writeWord]
  simp only [readByte_writeByte, if_true, if_neg (show a ≠ a + 1 by omega)]
  rw [UInt8.toNat_ofNat', UInt8.toNat_ofNat']
  omega

lemma readWord_writeWord_of_ne {a b v : ℕ} (h : b + 1 < a ∨ a + 1 < b) :
    readWord (writeWord mem a v) b = readWord mem b := by
  rw [readWord_eq, readWord_eq, writeWord]
  simp only [readByte_writeByte]
  rw [if_neg (by omega), if_neg (by omega), if_neg (by omega), if_neg (by omega)]

lemma readWord_writeByte_of_ne {a b : ℕ} {v : UInt8} (h : b + 1 < a ∨ a < b) :
    readWord (writeByte mem a v) b = readWord mem b := by
  rw [readWord_eq, readWord_eq]
  simp only [readByte_writeByte]
  rw [if_neg (by omega), if_neg (by omega)]

lemma readByte_writeWord_of_ne {a b v : ℕ} (h : b < a ∨ a + 1 < b) :
    readByte (writeWord mem a v) b = readByte mem b := by
  rw [writeWord]
  simp only [readByte_writeByte]
  rw [if_neg (by omega), if_neg (by omega)]

/-! ### Frames -/

/-- Only bytes of the given 16-byte paragraphs differ. -/
def ChangesOnly (mem mem' : Memory) (paragraphs : Set ℕ) : Prop :=
  ∀ a, a / 16 ∉ paragraphs → mem' a = mem a

lemma ChangesOnly.refl (mem : Memory) (s : Set ℕ) : ChangesOnly mem mem s := fun _ _ => rfl

lemma ChangesOnly.mono {s t : Set ℕ} (h : ChangesOnly mem mem' s) (hst : s ⊆ t) :
    ChangesOnly mem mem' t := fun a ha => h a fun hs => ha (hst hs)

lemma ChangesOnly.trans {s : Set ℕ} (h : ChangesOnly mem mem' s) (h' : ChangesOnly mem' mem'' s) :
    ChangesOnly mem mem'' s := fun a ha => (h' a ha).trans (h a ha)

lemma changesOnly_writeByte {a p : ℕ} (v : UInt8) (h : a / 16 = p) :
    ChangesOnly mem (writeByte mem a v) {p} := by
  intro b hb
  have hne : b ≠ a := fun hba => hb (by rw [hba, h]; rfl)
  exact (readByte_writeByte mem a b v).trans (if_neg hne)

lemma changesOnly_writeWord {a p v : ℕ} (h : a / 16 = p) (h' : (a + 1) / 16 = p) :
    ChangesOnly mem (writeWord mem a v) {p} :=
  (changesOnly_writeByte _ h).trans (changesOnly_writeByte _ h')

/-! ### Blocks -/

lemma writeBlock_append (mem : Memory) (address : ℕ) (xs ys : List UInt8) :
    writeBlock mem address (xs ++ ys) =
      writeBlock (writeBlock mem address xs) (address + xs.length) ys := by
  induction xs generalizing mem address with
  | nil => rfl
  | cons x xs ih =>
    rw [List.cons_append, writeBlock, ih, writeBlock, List.length_cons, Nat.add_assoc,
      Nat.add_comm 1]

lemma writeBlock_outside (mem : Memory) {address a : ℕ} (bytes : List UInt8)
    (outside : a < address ∨ address + bytes.length ≤ a) :
    writeBlock mem address bytes a = mem a := by
  induction bytes generalizing mem address with
  | nil => rfl
  | cons b bytes ih =>
    rw [List.length_cons] at outside
    rw [writeBlock, ih _ (by omega)]
    exact (readByte_writeByte mem address a b).trans (if_neg (by omega))

lemma writeBlock_inside (mem : Memory) {address i : ℕ} {bytes : List UInt8}
    (inside : i < bytes.length) : writeBlock mem address bytes (address + i) = bytes[i] := by
  induction bytes generalizing mem address i with
  | nil => exact absurd inside (Nat.not_lt_zero i)
  | cons b bytes ih =>
    rw [writeBlock]
    cases i with
    | zero =>
      rw [writeBlock_outside _ _ (.inl (by omega))]
      exact (readByte_writeByte mem address address b).trans (if_pos rfl)
    | succ i =>
      rw [List.length_cons] at inside
      rw [show address + (i + 1) = address + 1 + i by omega, ih _ (by omega)]
      rfl

@[simp] lemma length_readBlock (mem : Memory) (address length : ℕ) :
    (readBlock mem address length).length = length := by
  rw [readBlock, List.length_map, List.length_range]

lemma getElem_readBlock (mem : Memory) (address : ℕ) {length i : ℕ}
    (inside : i < (readBlock mem address length).length) :
    (readBlock mem address length)[i] = mem (address + i) := by
  simp [readBlock]

/-- **A block that was written is read back**, with what was behind it. -/
theorem readBlock_writeBlock (mem : Memory) (address : ℕ) {bytes : List UInt8} {length : ℕ}
    (fits : bytes.length ≤ length) :
    readBlock (writeBlock mem address bytes) address length =
      bytes ++ (readBlock mem address length).drop bytes.length := by
  refine List.ext_getElem ?_ fun i inside _ => ?_
  · rw [length_readBlock, List.length_append, List.length_drop, length_readBlock]
    omega
  · rw [getElem_readBlock, List.getElem_append]
    split
    · rename_i written
      exact writeBlock_inside mem written
    · rw [List.getElem_drop, getElem_readBlock, writeBlock_outside _ _ (.inr (by omega))]
      congr 1
      omega

end Neetan.ByteMemory
