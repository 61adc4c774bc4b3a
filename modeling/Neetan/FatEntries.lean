import Neetan.FatVolume
import Mathlib.Tactic.NormNum

/-!
The entries of a FAT: what is read back of a write to one of them, and of all the others.

Two entries of twelve bits share a byte, so a write has to keep the nibble of the neighbour.
-/

namespace Neetan.Fat

/-! ### Pairs of Bytes -/

variable {vol : FatVolume} {bytes : List UInt8} {cluster : ℕ}

lemma getD_set_same {i : ℕ} (h : i < bytes.length) (b : UInt8) :
    (bytes.set i b).getD i 0 = b := by
  simp [List.getD_eq_getElem?_getD, h]

lemma getD_set_ne {i j : ℕ} (h : i ≠ j) (b : UInt8) :
    (bytes.set i b).getD j 0 = bytes.getD j 0 := by
  simp [List.getD_eq_getElem?_getD, List.getElem?_set_ne h]

@[simp] lemma length_setPair (bytes : List UInt8) (offset value : ℕ) :
    (setPair bytes offset value).length = bytes.length := by
  simp [setPair]

lemma getD_setPair_fst {offset : ℕ} (h : offset + 1 < bytes.length) (value : ℕ) :
    ((setPair bytes offset value).getD offset 0).toNat = value % 256 := by
  rw [setPair, getD_set_ne (by omega), getD_set_same (by omega), UInt8.toNat_ofNat']

lemma getD_setPair_snd {offset : ℕ} (h : offset + 1 < bytes.length) (value : ℕ) :
    ((setPair bytes offset value).getD (offset + 1) 0).toNat = value / 256 % 256 := by
  rw [setPair, getD_set_same (by simpa using h), UInt8.toNat_ofNat']

lemma getD_setPair_ne {offset i : ℕ} (h : i ≠ offset) (h' : i ≠ offset + 1) (value : ℕ) :
    (setPair bytes offset value).getD i 0 = bytes.getD i 0 := by
  rw [setPair, getD_set_ne (Ne.symm h'), getD_set_ne (Ne.symm h)]

lemma pairAt_lt (bytes : List UInt8) (offset : ℕ) : pairAt bytes offset < 65536 := by
  have h := (bytes.getD offset 0).toNat_lt
  have h' := (bytes.getD (offset + 1) 0).toNat_lt
  unfold pairAt
  omega

/-! ### Nibbles -/

lemma land_fff (x : ℕ) : x &&& 0x0FFF = x % 4096 := Nat.and_two_pow_sub_one_eq_mod x 12

lemma land_f (x : ℕ) : x &&& 0x000F = x % 16 := Nat.and_two_pow_sub_one_eq_mod x 4

lemma land_f000 (x : ℕ) : x &&& 0xF000 = 4096 * (x / 4096 % 16) := by
  apply Nat.eq_of_testBit_eq
  intro i
  rw [Nat.testBit_and, show 0xF000 = (2 ^ 4 - 1) <<< 12 from rfl, Nat.testBit_shiftLeft,
    Nat.testBit_two_pow_sub_one, show 4096 = 2 ^ 12 from rfl, Nat.testBit_two_pow_mul,
    show 16 = 2 ^ 4 from rfl, Nat.testBit_mod_two_pow, Nat.testBit_div_two_pow]
  by_cases h : 12 ≤ i
  · have hi : i - 12 + 12 = i := by omega
    by_cases h' : i - 12 < 4 <;> simp [h, h', hi]
  · simp [h]

lemma upper_nibbles (x v : ℕ) :
    x &&& 0x000F ||| (v &&& 0x0FFF) <<< 4 = x % 16 + 16 * (v % 4096) := by
  rw [land_f, land_fff, Nat.shiftLeft_eq, Nat.lor_comm, Nat.mul_comm,
    ← Nat.two_pow_add_eq_or_of_lt (Nat.mod_lt x (by norm_num : 0 < 2 ^ 4))]
  omega

lemma lower_nibbles (x v : ℕ) :
    x &&& 0xF000 ||| v &&& 0x0FFF = 4096 * (x / 4096 % 16) + v % 4096 := by
  rw [land_f000, land_fff, show 4096 = 2 ^ 12 from rfl,
    Nat.two_pow_add_eq_or_of_lt (Nat.mod_lt v (by norm_num : 0 < 2 ^ 12))]

namespace FatVolume

/-! ### Reading What Was Written -/

/-- The offset of the pair that holds an entry. -/
def entryOffset (vol : FatVolume) (cluster : ℕ) : ℕ :=
  if vol.isFat16 then cluster * 2 else cluster * 3 / 2

/-- The FAT has an entry for the cluster. -/
def Holds (vol : FatVolume) (cluster : ℕ) : Prop :=
  vol.entryOffset cluster + 1 < vol.fatCache.length

/-- The entries that can be stored. -/
def entryLimit (vol : FatVolume) : ℕ := if vol.isFat16 then 65536 else 4096

/-- Two volumes differ in their FAT at most. -/
structure SameLayout (before after : FatVolume) : Prop where
  deviceId : after.deviceId = before.deviceId
  partitionOffset : after.partitionOffset = before.partitionOffset
  bpb : after.bpb = before.bpb
  firstRootSector : after.firstRootSector = before.firstRootSector
  firstDataSector : after.firstDataSector = before.firstDataSector
  dataClusterCount : after.dataClusterCount = before.dataClusterCount
  isFat16 : after.isFat16 = before.isFat16
  fatLength : after.fatCache.length = before.fatCache.length
  sectorRatio : after.sectorRatio = before.sectorRatio
  human68k : after.human68k = before.human68k

lemma SameLayout.refl (vol : FatVolume) : SameLayout vol vol :=
  ⟨rfl, rfl, rfl, rfl, rfl, rfl, rfl, rfl, rfl, rfl⟩

lemma SameLayout.trans {first second third : FatVolume} (h : SameLayout first second)
    (h' : SameLayout second third) : SameLayout first third :=
  ⟨h'.deviceId.trans h.deviceId, h'.partitionOffset.trans h.partitionOffset, h'.bpb.trans h.bpb,
    h'.firstRootSector.trans h.firstRootSector, h'.firstDataSector.trans h.firstDataSector,
    h'.dataClusterCount.trans h.dataClusterCount, h'.isFat16.trans h.isFat16,
    h'.fatLength.trans h.fatLength, h'.sectorRatio.trans h.sectorRatio,
    h'.human68k.trans h.human68k⟩

lemma SameLayout.mounted {vol' : FatVolume} {size : ℕ} (h : SameLayout vol vol')
    (hm : vol.Mounted size) : vol'.Mounted size := by
  refine ⟨?_, ?_, ?_, ?_, ?_, ?_, ?_⟩
  · rw [h.sectorRatio, h.bpb, hm.ratio]
  · rw [h.bpb]
    exact hm.bytesPerSector
  · rw [h.bpb]
    exact hm.sectorsPerCluster
  · rw [h.firstRootSector, h.bpb, hm.firstRootSector]
  · rw [h.firstDataSector, h.bpb, hm.firstDataSector]
  · rw [h.dataClusterCount, h.bpb, hm.dataClusterCount]
  · rw [h.isFat16, h.bpb, hm.isFat16]

lemma sameLayout_writeFatEntry (vol : FatVolume) (cluster value : ℕ) :
    SameLayout vol (vol.writeFatEntry cluster value) := by
  unfold writeFatEntry
  constructor <;> dsimp only <;> split_ifs <;> simp

lemma readFatEntry_of_holds (h : vol.Holds cluster) :
    vol.readFatEntry cluster =
      let pair := pairAt vol.fatCache (vol.entryOffset cluster)
      if vol.isFat16 then pair else if cluster % 2 ≠ 0 then pair / 16 else pair % 4096 := by
  unfold Holds entryOffset at h
  unfold readFatEntry entryOffset
  cases hf : vol.isFat16 with
  | true =>
    simp only [hf, if_true] at h ⊢
    rw [if_neg (by omega)]
  | false =>
    simp only [hf, Bool.false_eq_true, if_false] at h ⊢
    rw [if_neg (by omega), Nat.shiftRight_eq_div_pow, land_fff]

/-- The pair that a write stores. -/
def storedPair (vol : FatVolume) (cluster value : ℕ) : ℕ :=
  let existing := pairAt vol.fatCache (vol.entryOffset cluster)
  if vol.isFat16 then value
  else if cluster % 2 ≠ 0 then existing % 16 + 16 * (value % 4096)
  else 4096 * (existing / 4096 % 16) + value % 4096

lemma fatCache_writeFatEntry (h : vol.Holds cluster) (value : ℕ) :
    (vol.writeFatEntry cluster value).fatCache =
      setPair vol.fatCache (vol.entryOffset cluster) (vol.storedPair cluster value) := by
  unfold Holds entryOffset at h
  unfold writeFatEntry entryOffset storedPair entryOffset
  cases hf : vol.isFat16 with
  | true =>
    simp only [hf, if_true] at h ⊢
    rw [if_neg (by omega)]
  | false =>
    simp only [hf, Bool.false_eq_true, if_false] at h ⊢
    rw [if_neg (by omega)]
    dsimp only
    split_ifs
    · rw [upper_nibbles]
    · rw [lower_nibbles]

lemma holds_writeFatEntry {other value : ℕ} :
    (vol.writeFatEntry cluster value).Holds other ↔ vol.Holds other := by
  have h := sameLayout_writeFatEntry vol cluster value
  unfold Holds entryOffset
  rw [h.isFat16, h.fatLength]

lemma readFatEntry_writeFatEntry_same {value : ℕ} (h : vol.Holds cluster)
    (hv : value < vol.entryLimit) :
    (vol.writeFatEntry cluster value).readFatEntry cluster = value := by
  have hs := sameLayout_writeFatEntry vol cluster value
  rw [readFatEntry_of_holds (holds_writeFatEntry.mpr h)]
  have hoffset : (vol.writeFatEntry cluster value).entryOffset cluster =
      vol.entryOffset cluster := by
    unfold entryOffset
    rw [hs.isFat16]
  have hpair := pairAt_lt vol.fatCache (vol.entryOffset cluster)
  rw [hoffset, hs.isFat16, fatCache_writeFatEntry h]
  unfold pairAt
  rw [getD_setPair_fst h, getD_setPair_snd h]
  unfold storedPair
  unfold entryLimit at hv
  dsimp only
  split_ifs at hv ⊢ <;> omega

lemma readFatEntry_writeFatEntry_ne {other value : ℕ} (h : vol.Holds cluster)
    (hne : other ≠ cluster) :
    (vol.writeFatEntry cluster value).readFatEntry other = vol.readFatEntry other := by
  have hs := sameLayout_writeFatEntry vol cluster value
  by_cases hother : vol.Holds other
  · rw [readFatEntry_of_holds (holds_writeFatEntry.mpr hother), readFatEntry_of_holds hother]
    have hoffset : (vol.writeFatEntry cluster value).entryOffset other =
        vol.entryOffset other := by
      unfold entryOffset
      rw [hs.isFat16]
    rw [hoffset, hs.isFat16, fatCache_writeFatEntry h]
    unfold Holds at h
    cases hf : vol.isFat16 with
    | true =>
      have h1 : vol.entryOffset other = other * 2 := by simp [entryOffset, hf]
      have h2 : vol.entryOffset cluster = cluster * 2 := by simp [entryOffset, hf]
      simp only [if_true]
      unfold pairAt
      rw [getD_setPair_ne (by omega) (by omega), getD_setPair_ne (by omega) (by omega)]
    | false =>
      have h1 : vol.entryOffset other = other * 3 / 2 := by simp [entryOffset, hf]
      have h2 : vol.entryOffset cluster = cluster * 3 / 2 := by simp [entryOffset, hf]
      have hfst := getD_setPair_fst h (vol.storedPair cluster value)
      have hsnd := getD_setPair_snd h (vol.storedPair cluster value)
      have hstored : vol.storedPair cluster value =
          if cluster % 2 ≠ 0 then
            pairAt vol.fatCache (vol.entryOffset cluster) % 16 + 16 * (value % 4096)
          else 4096 * (pairAt vol.fatCache (vol.entryOffset cluster) / 4096 % 16) +
            value % 4096 := by
        simp [storedPair, hf]
      have hfst' := (vol.fatCache.getD (vol.entryOffset cluster) 0).toNat_lt
      have hsnd' := (vol.fatCache.getD (vol.entryOffset cluster + 1) 0).toNat_lt
      have hother' := (vol.fatCache.getD (vol.entryOffset other) 0).toNat_lt
      simp only [Bool.false_eq_true, if_false]
      unfold pairAt at hstored ⊢
      generalize vol.storedPair cluster value = stored at *
      by_cases hnext : vol.entryOffset other = vol.entryOffset cluster + 1
      · -- the two entries meet in the second byte of the one that is written
        have hodd : other % 2 ≠ 0 ∧ cluster % 2 = 0 := by omega
        have hkept := @getD_setPair_ne vol.fatCache (vol.entryOffset cluster)
          (vol.entryOffset cluster + 1 + 1) (by omega) (by omega) stored
        rw [if_neg (by omega)] at hstored
        rw [if_pos hodd.1, if_pos hodd.1, hnext, hkept, hsnd]
        omega
      by_cases hlast : vol.entryOffset other + 1 = vol.entryOffset cluster
      · -- the two entries meet in the first byte of the one that is written
        have hodd : cluster % 2 ≠ 0 ∧ ¬ other % 2 ≠ 0 := by omega
        have hkept := @getD_setPair_ne vol.fatCache (vol.entryOffset cluster)
          (vol.entryOffset other) (by omega) (by omega) stored
        rw [if_pos hodd.1] at hstored
        rw [if_neg hodd.2, if_neg hodd.2, hkept, hlast, hfst]
        omega
      · rw [getD_setPair_ne (by omega) (by omega), getD_setPair_ne (by omega) (by omega)]
  · have houtside : ∀ vol : FatVolume, ¬ vol.Holds other →
        vol.readFatEntry other = if vol.isFat16 then 0xFFFF else 0xFFF := by
      intro vol hvol
      unfold Holds entryOffset at hvol
      unfold readFatEntry
      dsimp only
      split_ifs at hvol ⊢ <;> first | rfl | omega
    rw [houtside _ hother, houtside _ (mt holds_writeFatEntry.mp hother), hs.isFat16]

end FatVolume

end Neetan.Fat
