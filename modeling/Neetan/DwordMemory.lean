import Mathlib.Tactic.Common

/-!
Byte-addressed memories with 32-bit addresses, and their little-endian doublewords.

Two aligned doublewords are the same or do not overlap.
-/

namespace Neetan.DwordMemory

abbrev Address : Type := BitVec 32

abbrev Dword : Type := BitVec 32

abbrev Memory : Type := Address → BitVec 8

def readDword (mem : Memory) (addr : Address) : Dword :=
  mem (addr + 3) ++ mem (addr + 2) ++ mem (addr + 1) ++ mem addr

def writeDword (mem : Memory) (addr : Address) (value : Dword) : Memory := fun a =>
  if a - addr < 4 then value.extractLsb' (8 * (a - addr).toNat) 8 else mem a

def Aligned (addr : Address) : Prop := addr &&& 3 = 0

lemma Aligned.toNat_mod {addr : Address} (h : Aligned addr) : addr.toNat % 4 = 0 := by
  have hand := congrArg BitVec.toNat h
  rw [BitVec.toNat_and] at hand
  exact (Nat.and_two_pow_sub_one_eq_mod addr.toNat 2).symm.trans hand

lemma append_bytes (v : Dword) : v.extractLsb' 24 8 ++ v.extractLsb' 16 8 ++ v.extractLsb' 8 8 ++
    v.extractLsb' 0 8 = v := by
  refine BitVec.eq_of_getLsbD_eq fun i hi => ?_
  simp only [BitVec.getLsbD_append, BitVec.getLsbD_extractLsb']
  split_ifs with h1 h2 h3
  · simp [h1]
  · simp [h2, show 8 + (i - 8) = i by omega]
  · simp [h3, show 16 + (i - 8 - 8) = i by omega]
  · simp [show i - 8 - 8 - 8 < 8 by omega, show 24 + (i - 8 - 8 - 8) = i by omega]

lemma readDword_writeDword (mem : Memory) (addr : Address) (value : Dword) :
    readDword (writeDword mem addr value) addr = value := by
  have hsub : ∀ i : Address, addr + i - addr = i := fun i => by bv_omega
  have hbyte : ∀ i : Address, i < 4 →
      writeDword mem addr value (addr + i) = value.extractLsb' (8 * i.toNat) 8 := fun i hi => by
    rw [writeDword, hsub, if_pos hi]
  have h0 := hbyte 0 (by decide)
  rw [show addr + 0 = addr from BitVec.add_zero addr] at h0
  rw [readDword, hbyte 3 (by decide), hbyte 2 (by decide), hbyte 1 (by decide), h0]
  exact append_bytes value

lemma readDword_writeDword_of_ne {mem : Memory} {addr other : Address} {value : Dword}
    (ha : Aligned addr) (ho : Aligned other) (h : other ≠ addr) :
    readDword (writeDword mem addr value) other = readDword mem other := by
  have h1 := ha.toNat_mod
  have h2 := ho.toNat_mod
  have hbyte : ∀ i : Address, i < 4 → writeDword mem addr value (other + i) = mem (other + i) := by
    intro i hi
    refine if_neg ?_
    bv_omega
  have h0 := hbyte 0 (by decide)
  rw [show other + 0 = other from BitVec.add_zero other] at h0
  rw [readDword, readDword, hbyte 3 (by decide), hbyte 2 (by decide), hbyte 1 (by decide), h0]

end Neetan.DwordMemory
