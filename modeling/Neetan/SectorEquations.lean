import Neetan.SectorFrame
import Neetan.SectorParity

/-!
The equations of Mode 1 frames.

The header holds the address, the checksum is that of what stands in front of it, every parity
vector is clean, and no single byte can change without leaving one that is not.
-/

namespace Neetan.SectorFrame

open LittleEndian BinaryPolynomials Polynomial

/-! ### The Bytes of a Frame -/

/-- Some bytes of a frame. -/
def bytesAt (frame : Frame) (offset n : ℕ) : List UInt8 :=
  (List.range n).map fun i => byteAt frame (offset + i)

lemma bytesAt_zero (frame : Frame) {n : ℕ} (hn : n ≤ frameSize) :
    bytesAt frame 0 n = frame.toList.take n := by
  have hlength : frame.toList.length = frameSize := Vector.length_toList
  refine List.ext_getElem ?_ fun i hi hi' => ?_
  · rw [bytesAt, List.length_map, List.length_range, List.length_take, hlength, min_eq_left hn]
  · rw [bytesAt, List.length_map, List.length_range] at hi
    have hlt : i < frameSize := hi.trans_le hn
    simp only [bytesAt, List.getElem_map, List.getElem_range, List.getElem_take, byteAt,
      Nat.zero_add, Vector.getElem?_eq_getElem hlt, Option.getD_some, Vector.getElem_toList]

lemma bytesAt_congr {frame frame' : Frame} {offset n : ℕ}
    (h : ∀ i < n, byteAt frame (offset + i) = byteAt frame' (offset + i)) :
    bytesAt frame offset n = bytesAt frame' offset n :=
  List.map_congr_left fun i hi => h i (List.mem_range.mp hi)

/-- The checksum that is stored in a frame. -/
def storedEdc (frame : Frame) : BitVec 32 := BitVec.ofNat 32 (fromLe (bytesAt frame edcOffset 4))

/-- The number of two decimal digits. -/
def bcdValue (byte : UInt8) : ℕ := byte.toNat / 16 * 10 + byte.toNat % 16

lemma bcdValue_toBcd {value : ℕ} (h : value < 100) : bcdValue (toBcd value) = value := by
  revert value
  decide +kernel

/-! ### Vectors -/

/-- The bytes of a P vector: a column of the header, the data and the P parity. -/
def pPosition (vector m : ℕ) : ℕ := headerOffset + 86 * m + vector

/-- The bytes of a Q vector: a diagonal of what the P vectors cover, and the Q parity. -/
def qPosition (vector m : ℕ) : ℕ :=
  if m < 43 then headerOffset + (88 * m + 86 * (vector / 2)) % 2236 + vector % 2
  else eccQOffset + 52 * (m - 43) + vector

def pVectors : ℕ := 86
def qVectors : ℕ := 52
def pLength : ℕ := 26
def qLength : ℕ := 45

/-- Some vector has a syndrome that does not vanish. -/
def Detected (frame : Frame) : Prop :=
  (∃ vector < pVectors, ¬ Clean frame pLength (pPosition vector)) ∨
    ∃ vector < qVectors, ¬ Clean frame qLength (qPosition vector)

lemma EccShape.start_eq (shape : EccShape) (major : ℕ) :
    shape.start major = major / 2 * shape.majorStep + major % 2 := by
  rw [EccShape.start, Nat.shiftRight_eq_div_pow, pow_one, Nat.and_one_is_mod]

lemma fits_eccP : eccP.Fits where
  step := by decide
  start := by
    intro major hmajor
    rw [EccShape.start_eq]
    simp only [eccP] at hmajor ⊢
    omega
  data := by decide
  parity := by decide

lemma fits_eccQ : eccQ.Fits where
  step := by decide
  start := by
    intro major hmajor
    rw [EccShape.start_eq]
    simp only [eccQ] at hmajor ⊢
    omega
  data := by decide
  parity := by decide

lemma pPosition_eq {vector m : ℕ} (hvector : vector < pVectors) (hm : m < pLength) :
    pPosition vector m = eccP.position vector m := by
  unfold pVectors at hvector
  unfold pLength at hm
  unfold pPosition EccShape.position
  rw [EccShape.start_eq]
  by_cases hdata : m < eccP.minorCount
  · rw [if_pos hdata]
    simp only [eccP, headerOffset] at hdata ⊢
    rw [Nat.mod_eq_of_lt (by omega)]
    omega
  · rw [if_neg hdata]
    simp only [eccP, eccPOffset, headerOffset] at hdata ⊢
    omega

lemma qPosition_eq (vector m : ℕ) : qPosition vector m = eccQ.position vector m := by
  unfold qPosition EccShape.position
  rw [EccShape.start_eq]
  by_cases hdata : m < 43
  · rw [if_pos hdata, if_pos (show m < eccQ.minorCount from hdata)]
    simp only [eccQ, headerOffset]
    omega
  · rw [if_neg hdata, if_neg (show ¬ m < eccQ.minorCount from hdata)]
    simp only [eccQ, eccQOffset]
    omega

lemma Clean.congr {frame frame' : Frame} {n : ℕ} {position position' : ℕ → ℕ}
    (h : Clean frame n position)
    (heq : ∀ m < n, byteAt frame' (position' m) = byteAt frame (position m)) :
    Clean frame' n position' := by
  obtain ⟨hplain, hweighted⟩ := h
  constructor
  · rw [← hplain]
    exact Finset.sum_congr rfl fun m hm => by rw [heq m (Finset.mem_range.mp hm)]
  · rw [← hweighted]
    exact Finset.sum_congr rfl fun m hm => by rw [heq m (Finset.mem_range.mp hm)]

lemma clean_pVector (frame : Frame) {vector : ℕ} (h : vector < pVectors) :
    Clean (eccBlock eccQ (eccBlock eccP frame)) pLength (pPosition vector) := by
  refine (fits_eccP.clean frame h).congr fun m hm => ?_
  rw [← pPosition_eq h hm]
  have hlt : pPosition vector m < eccQOffset := by
    unfold pVectors at h
    change m < 26 at hm
    unfold pPosition headerOffset eccQOffset
    omega
  exact byteAt_eccBlock hlt (hlt.trans (by decide))

lemma clean_qVector (frame : Frame) {vector : ℕ} (h : vector < qVectors) :
    Clean (eccBlock eccQ frame) qLength (qPosition vector) :=
  (fits_eccQ.clean frame h).congr fun m _ => by rw [qPosition_eq vector m]

lemma detected_of_change {frame : Frame}
    (hp : ∀ vector < pVectors, Clean frame pLength (pPosition vector))
    (hq : ∀ vector < qVectors, Clean frame qLength (qPosition vector)) {o : ℕ} {byte : UInt8}
    (hlow : headerOffset ≤ o) (hhigh : o < frameSize) (hne : byte ≠ byteAt frame o) :
    Detected (frame.setIfInBounds o byte) := by
  unfold headerOffset at hlow
  unfold frameSize at hhigh
  by_cases hdata : o < eccQOffset
  · unfold eccQOffset at hdata
    have hvector : (o - 12) % 86 < pVectors := Nat.mod_lt _ (by decide)
    refine .inl ⟨(o - 12) % 86, hvector, not_clean_of_change (m := (o - 12) / 86)
      (hp _ hvector) ?_ ?_ ?_ hne⟩
    · intro i hi
      unfold pLength at hi
      unfold pPosition headerOffset frameSize
      omega
    · unfold pLength
      omega
    · intro i hi
      unfold pPosition headerOffset
      omega
  · unfold eccQOffset at hdata
    have hvector : (o - 2248) % 52 < qVectors := Nat.mod_lt _ (by decide)
    refine .inr ⟨(o - 2248) % 52, hvector, not_clean_of_change (m := 43 + (o - 2248) / 52)
      (hq _ hvector) ?_ ?_ ?_ hne⟩
    · intro i hi
      unfold qLength at hi
      unfold qPosition headerOffset eccQOffset frameSize
      split_ifs <;> omega
    · unfold qLength
      omega
    · intro i hi
      unfold qPosition headerOffset eccQOffset
      split_ifs <;> omega

/-! ### The Frame -/

/-- A frame satisfies the equations of its sector. -/
structure Satisfies (lba : ℕ) (userData : List UInt8) (frame : Frame) : Prop where
  data : bytesAt frame headerEnd userDataSize = userData
  address : bcdValue (byteAt frame headerOffset) * (secondsPerMinute * framesPerSecond) +
    bcdValue (byteAt frame (headerOffset + 1)) * framesPerSecond +
    bcdValue (byteAt frame (headerOffset + 2)) = lba + leadInSectors
  edc : bitPolynomial (storedEdc frame).reverse =
    X ^ 32 * messagePolynomial (bytesAt frame 0 edcOffset) %ₘ edcGenerator
  pVectors : ∀ vector < pVectors, Clean frame pLength (pPosition vector)
  qVectors : ∀ vector < qVectors, Clean frame qLength (qPosition vector)
  detects : ∀ offset byte, headerOffset ≤ offset → offset < frameSize →
    byte ≠ byteAt frame offset → Detected (frame.setIfInBounds offset byte)

/-- The frame in front of the checksum. -/
def headedFrame (lba : ℕ) (userData : List UInt8) (frame : Frame) : Frame :=
  copyAt (copyAt (copyAt frame 0 rawSectorSync) headerOffset (mode1Header lba)) headerEnd userData

/-- The frame in front of the parity. -/
def summedFrame (lba : ℕ) (userData : List UInt8) (frame : Frame) : Frame :=
  let headed := headedFrame lba userData frame
  copyAt (copyAt headed edcOffset (toLe 4 (edc (headed.toList.take edcOffset)).toNat)) zeroOffset
    (List.replicate (eccPOffset - zeroOffset) 0)

lemma buildMode1Frame_eq (lba : ℕ) (userData : List UInt8) (frame : Frame) :
    buildMode1Frame lba userData frame =
      eccBlock eccQ (eccBlock eccP (summedFrame lba userData frame)) := rfl

lemma byteAt_summed (lba : ℕ) (userData : List UInt8) (frame : Frame) {o : ℕ}
    (ho : o < eccPOffset) : byteAt (buildMode1Frame lba userData frame) o =
      byteAt (summedFrame lba userData frame) o := by
  unfold eccPOffset at ho
  have hlt : o < frameSize := ho.trans (by decide)
  rw [buildMode1Frame_eq, byteAt_eccBlock (show o < 2248 by omega) hlt,
    byteAt_eccBlock (show o < 2076 from ho) hlt]

lemma byteAt_headed (lba : ℕ) (userData : List UInt8) (frame : Frame) {o : ℕ}
    (ho : o < edcOffset) : byteAt (buildMode1Frame lba userData frame) o =
      byteAt (headedFrame lba userData frame) o := by
  unfold edcOffset at ho
  have hlt : o < frameSize := ho.trans (by decide)
  rw [byteAt_summed lba userData frame (show o < 2076 by omega), summedFrame, byteAt_copyAt hlt,
    if_neg (fun h => absurd h.1 (by unfold zeroOffset; omega)), byteAt_copyAt hlt,
    if_neg (fun h => absurd h.1 (by unfold edcOffset; omega))]

lemma storedEdc_buildMode1Frame (lba : ℕ) (userData : List UInt8) (frame : Frame) :
    storedEdc (buildMode1Frame lba userData frame) =
      edc (bytesAt (buildMode1Frame lba userData frame) 0 edcOffset) := by
  have hfront : bytesAt (buildMode1Frame lba userData frame) 0 edcOffset =
      (headedFrame lba userData frame).toList.take edcOffset := by
    rw [← bytesAt_zero _ (by decide)]
    exact bytesAt_congr fun i hi => byteAt_headed lba userData frame (by omega)
  obtain ⟨checksum, hchecksum⟩ : ∃ checksum, checksum =
    edc ((headedFrame lba userData frame).toList.take edcOffset) := ⟨_, rfl⟩
  have hbytes : bytesAt (buildMode1Frame lba userData frame) edcOffset 4 =
      toLe 4 checksum.toNat := by
    refine List.ext_getElem (by rw [bytesAt, List.length_map, List.length_range, length_toLe])
      fun i hi hi' => ?_
    rw [length_toLe] at hi'
    have ho : edcOffset + i < 2068 := by
      unfold edcOffset
      omega
    have hlt : edcOffset + i < frameSize := ho.trans (by decide)
    simp only [bytesAt, List.getElem_map, List.getElem_range]
    rw [byteAt_summed lba userData frame (ho.trans (by decide)), summedFrame, byteAt_copyAt hlt,
      if_neg (fun h => absurd h.1 (by unfold zeroOffset; omega)), byteAt_copyAt hlt,
      if_pos ⟨Nat.le_add_right _ _, by rw [length_toLe]; omega⟩, Nat.add_sub_cancel_left,
      ← hchecksum, List.getElem?_eq_getElem (by rw [length_toLe]; exact hi'), Option.getD_some]
  rw [hfront, ← hchecksum, storedEdc, hbytes, fromLe_toLe_of_lt (by
    have := checksum.isLt
    norm_num at this ⊢
    exact this), BitVec.ofNat_toNat, BitVec.setWidth_eq]

lemma bytesAt_userData {lba : ℕ} {userData : List UInt8} (frame : Frame)
    (h : userData.length = userDataSize) :
    bytesAt (buildMode1Frame lba userData frame) headerEnd userDataSize = userData := by
  refine List.ext_getElem (by rw [bytesAt, List.length_map, List.length_range, h])
    fun i hi hi' => ?_
  simp only [bytesAt, List.getElem_map, List.getElem_range]
  rw [byteAt_buildMode1Frame h (h ▸ hi'), List.getElem?_eq_getElem hi', Option.getD_some]

lemma address_buildMode1Frame {lba : ℕ} {userData : List UInt8} (frame : Frame)
    (h : lba + leadInSectors < 100 * (secondsPerMinute * framesPerSecond)) :
    let built := buildMode1Frame lba userData frame
    bcdValue (byteAt built headerOffset) * (secondsPerMinute * framesPerSecond) +
      bcdValue (byteAt built (headerOffset + 1)) * framesPerSecond +
      bcdValue (byteAt built (headerOffset + 2)) = lba + leadInSectors := by
  intro built
  have hbyte : ∀ i < 3, byteAt built (headerOffset + i) = (mode1Header lba)[i]?.getD 0 := by
    intro i hi
    have ho : headerOffset + i < 16 := by
      unfold headerOffset
      omega
    have hlt : headerOffset + i < frameSize := ho.trans (by decide)
    have hlength : (mode1Header lba).length = 4 := rfl
    rw [byteAt_headed lba userData frame (ho.trans (by decide)), headedFrame, byteAt_copyAt hlt,
      if_neg (fun h => absurd h.1 (by unfold headerEnd; omega)), byteAt_copyAt hlt,
      if_pos ⟨Nat.le_add_right _ _, by omega⟩, Nat.add_sub_cancel_left]
  have hwrap : (lba + leadInSectors) % 2 ^ 32 = lba + leadInSectors := by
    rw [Nat.mod_eq_of_lt (h.trans (by decide))]
  have hminute := hbyte 0 (by norm_num)
  have hsecond := hbyte 1 (by norm_num)
  have hframe := hbyte 2 (by norm_num)
  simp only [mode1Header, hwrap, Nat.add_zero, List.getElem?_cons_zero, List.getElem?_cons_succ,
    Option.getD_some] at hminute hsecond hframe
  unfold secondsPerMinute framesPerSecond at h
  rw [hminute, hsecond, hframe, bcdValue_toBcd, bcdValue_toBcd, bcdValue_toBcd]
  · unfold secondsPerMinute framesPerSecond
    omega
  · unfold framesPerSecond
    omega
  · unfold secondsPerMinute framesPerSecond
    omega
  · unfold secondsPerMinute framesPerSecond
    omega

/-- **A Mode 1 frame satisfies its equations, and shows the change of any byte behind the sync
pattern.** -/
theorem buildMode1Frame_satisfies {lba : ℕ} {userData : List UInt8} (frame : Frame)
    (hdata : userData.length = userDataSize)
    (hlba : lba + leadInSectors < 100 * (secondsPerMinute * framesPerSecond)) :
    Satisfies lba userData (buildMode1Frame lba userData frame) := by
  have hp : ∀ vector < pVectors,
      Clean (buildMode1Frame lba userData frame) pLength (pPosition vector) := fun vector h =>
    clean_pVector _ h
  have hq : ∀ vector < qVectors,
      Clean (buildMode1Frame lba userData frame) qLength (qPosition vector) := fun vector h =>
    clean_qVector _ h
  refine ⟨bytesAt_userData frame hdata, address_buildMode1Frame frame hlba, ?_, hp, hq,
    fun offset byte hlow hhigh hne => detected_of_change hp hq hlow hhigh hne⟩
  rw [storedEdc_buildMode1Frame]
  exact edc_eq_modByMonic _

/-- The frame of the last sector with an address. -/
theorem buildMode1Frame_satisfies_last : Satisfies 449849 (List.replicate 2048 0xFF)
    (buildMode1Frame 449849 (List.replicate 2048 0xFF) (Vector.replicate frameSize 0)) :=
  buildMode1Frame_satisfies _ (List.length_replicate) (by decide)

end Neetan.SectorFrame
