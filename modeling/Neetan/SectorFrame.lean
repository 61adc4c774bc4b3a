import Neetan.LittleEndian
import Neetan.BinaryPolynomials

/-!
Mode 1 sector frames: sync, header, user data, error detection code and parity.

A frame is built by writes at fixed offsets; the user data is written once and not touched by
the writes behind it. The error detection code is a polynomial remainder; bit strings are read
with their lowest bit as the highest coefficient, as the code shifts to the right.
-/

namespace Neetan.SectorFrame

open LittleEndian

def frameSize : ℕ := 2352
def userDataSize : ℕ := 2048
def framesPerSecond : ℕ := 75
def secondsPerMinute : ℕ := 60
def leadInSectors : ℕ := 150
def edcPolynomial : BitVec 32 := 0xD8018001
def eccPolynomial : BitVec 16 := 0x11D
def headerOffset : ℕ := 12
def headerEnd : ℕ := 16
def edcOffset : ℕ := 2064
def zeroOffset : ℕ := 2068
def eccPOffset : ℕ := 2076
def eccQOffset : ℕ := 2248
def mode1 : UInt8 := 1

def rawSectorSync : List UInt8 :=
  [0x00, 0xFF, 0xFF, 0xFF, 0xFF, 0xFF, 0xFF, 0xFF, 0xFF, 0xFF, 0xFF, 0x00]

abbrev Frame : Type := Vector UInt8 frameSize

/-- The byte at an offset, which is within the frame wherever it is used. -/
def byteAt (frame : Frame) (offset : ℕ) : UInt8 := frame[offset]?.getD 0

/-- The bytes are copied into the frame from an offset on. -/
def copyAt (frame : Frame) : ℕ → List UInt8 → Frame
  | _, [] => frame
  | offset, byte :: bytes => copyAt (frame.setIfInBounds offset byte) (offset + 1) bytes

/-! ### The Error Detection Code -/

/-- One bit of a table entry. -/
def edcStep (value : BitVec 32) : BitVec 32 :=
  if value &&& 1 ≠ 0 then value >>> 1 ^^^ edcPolynomial else value >>> 1

/-- The table entry of a byte value. -/
def edcTable (index : BitVec 8) : BitVec 32 := edcStep^[8] (index.setWidth 32)

def edc (bytes : List UInt8) : BitVec 32 :=
  bytes.foldl (fun crc byte =>
    crc >>> 8 ^^^ edcTable ((crc ^^^ byte.toBitVec.setWidth 32).setWidth 8)) 0

/-! ### The Parity -/

/-- Multiplication by two in the field. -/
def gfDouble (value : BitVec 8) : BitVec 8 :=
  let doubled := value.setWidth 16 <<< 1
  (if doubled &&& 0x100 ≠ 0 then doubled ^^^ eccPolynomial else doubled).setWidth 8

/-- The table that maps a value's triple back to it. -/
def gfDivideByThreeTable : Vector (BitVec 8) 256 :=
  (List.range 256).foldl (fun table index =>
    table.setIfInBounds (BitVec.ofNat 8 index ^^^ gfDouble (BitVec.ofNat 8 index)).toNat
      (BitVec.ofNat 8 index)) (Vector.replicate 256 0)

def gfDivideByThree (value : BitVec 8) : BitVec 8 := gfDivideByThreeTable[value.toNat]?.getD 0

/-- The shape of a block of parity vectors. -/
structure EccShape where
  majorCount : ℕ
  minorCount : ℕ
  majorStep : ℕ
  minorStep : ℕ
  parityOffset : ℕ

def eccP : EccShape := ⟨86, 24, 2, 86, eccPOffset⟩
def eccQ : EccShape := ⟨52, 43, 86, 88, eccQOffset⟩

/-- The weighted and the plain sum of a vector, byte by byte. -/
def eccVector (frame : Frame) (shape : EccShape) : ℕ → ℕ → BitVec 8 × BitVec 8 → BitVec 8 × BitVec 8
  | 0, _, sums => sums
  | fuel + 1, index, (weighted, sum) =>
    let byte := (byteAt frame (headerOffset + index)).toBitVec
    let next := index + shape.minorStep
    let size := shape.majorCount * shape.minorCount
    eccVector frame shape fuel (if next ≥ size then next - size else next)
      (gfDouble (weighted ^^^ byte), sum ^^^ byte)

/-- The parity bytes of one vector. -/
def eccMajor (shape : EccShape) (frame : Frame) (major : ℕ) : Frame :=
  let (weighted, sum) :=
    eccVector frame shape shape.minorCount ((major >>> 1) * shape.majorStep + (major &&& 1)) (0, 0)
  let first := gfDivideByThree (gfDouble weighted ^^^ sum)
  (frame.setIfInBounds (shape.parityOffset + major) ⟨first⟩).setIfInBounds
    (shape.parityOffset + major + shape.majorCount) ⟨first ^^^ sum⟩

def eccBlock (shape : EccShape) (frame : Frame) : Frame :=
  (List.range shape.majorCount).foldl (eccMajor shape) frame

/-! ### The Frame -/

def toBcd (value : ℕ) : UInt8 := UInt8.ofNat ((value / 10) <<< 4 ||| value % 10)

/-- The address of the sector, and the mode. -/
def mode1Header (lba : ℕ) : List UInt8 :=
  let address := (lba + leadInSectors) % 2 ^ 32
  [toBcd (address / (framesPerSecond * secondsPerMinute)),
    toBcd (address / framesPerSecond % secondsPerMinute), toBcd (address % framesPerSecond), mode1]

def buildMode1Frame (lba : ℕ) (userData : List UInt8) (frame : Frame) : Frame :=
  let frame := copyAt frame 0 rawSectorSync
  let frame := copyAt frame headerOffset (mode1Header lba)
  let frame := copyAt frame headerEnd userData
  let checksum := edc (frame.toList.take edcOffset)
  let frame := copyAt frame edcOffset (toLe 4 checksum.toNat)
  let frame := copyAt frame zeroOffset (List.replicate (eccPOffset - zeroOffset) 0)
  let frame := eccBlock eccP frame
  eccBlock eccQ frame

/-! ### The User Data -/

variable {frame : Frame} {offset : ℕ}

lemma byteAt_set {other : ℕ} {byte : UInt8} (h : other < frameSize) :
    byteAt (frame.setIfInBounds offset byte) other =
      if offset = other then byte else byteAt frame other := by
  unfold byteAt
  rw [Vector.getElem?_setIfInBounds]
  split_ifs with he hlt
  · rfl
  · exact absurd (he ▸ h) hlt
  · rfl

lemma byteAt_copyAt {other : ℕ} {bytes : List UInt8} (h : other < frameSize) :
    byteAt (copyAt frame offset bytes) other =
      if offset ≤ other ∧ other < offset + bytes.length then bytes[other - offset]?.getD 0
      else byteAt frame other := by
  induction bytes generalizing frame offset with
  | nil =>
    rw [if_neg]
    · rfl
    · rintro ⟨hle, hlt⟩
      exact absurd hle (Nat.not_le.mpr hlt)
  | cons byte bytes ih =>
    rw [copyAt, ih, byteAt_set h, List.length_cons]
    by_cases he : offset = other
    · subst he
      rw [if_neg (fun hin => absurd hin.1 (by omega)), if_pos rfl, if_pos ⟨le_rfl, by omega⟩,
        Nat.sub_self]
      rfl
    · rw [if_neg he]
      by_cases hin : offset + 1 ≤ other ∧ other < offset + 1 + bytes.length
      · rw [if_pos hin, if_pos ⟨by omega, by omega⟩,
          show other - offset = other - (offset + 1) + 1 by omega]
        rfl
      · rw [if_neg hin, if_neg (fun hlt => hin ⟨by omega, by omega⟩)]

lemma byteAt_foldl_eccMajor {shape : EccShape} (majors : List ℕ) (h : offset < shape.parityOffset)
    (hlt : offset < frameSize) :
    byteAt (majors.foldl (eccMajor shape) frame) offset = byteAt frame offset := by
  induction majors generalizing frame with
  | nil => rfl
  | cons major majors ih =>
    rw [List.foldl_cons, ih]
    unfold eccMajor
    dsimp only
    rw [byteAt_set hlt, if_neg (by omega), byteAt_set hlt, if_neg (by omega)]

lemma byteAt_eccBlock {shape : EccShape} (h : offset < shape.parityOffset)
    (hlt : offset < frameSize) :
    byteAt (eccBlock shape frame) offset = byteAt frame offset :=
  byteAt_foldl_eccMajor (List.range shape.majorCount) h hlt

lemma byteAt_buildMode1Frame {lba : ℕ} {userData : List UInt8} {i : ℕ}
    (hlength : userData.length = userDataSize) (hi : i < userDataSize) :
    byteAt (buildMode1Frame lba userData frame) (headerEnd + i) = userData[i]?.getD 0 := by
  have hsize : userDataSize = 2048 := rfl
  have hend : headerEnd = 16 := rfl
  have hlt : headerEnd + i < frameSize := by
    have hframe : frameSize = 2352 := rfl
    omega
  have hp : headerEnd + i < eccPOffset := by
    have hoff : eccPOffset = 2076 := rfl
    omega
  have hq : headerEnd + i < eccQOffset := by
    have hoff : eccQOffset = 2248 := rfl
    omega
  have hzero : ¬ zeroOffset ≤ headerEnd + i := by
    have hoff : zeroOffset = 2068 := rfl
    omega
  have hedc : ¬ edcOffset ≤ headerEnd + i := by
    have hoff : edcOffset = 2064 := rfl
    omega
  unfold buildMode1Frame
  dsimp only
  rw [byteAt_eccBlock hq hlt, byteAt_eccBlock hp hlt, byteAt_copyAt hlt,
    if_neg (fun h => hzero h.1), byteAt_copyAt hlt, if_neg (fun h => hedc h.1), byteAt_copyAt hlt,
    if_pos ⟨by omega, by omega⟩, Nat.add_sub_cancel_left]

open BinaryPolynomials Polynomial

/-- The polynomial of the error detection code. -/
noncomputable def edcGenerator : (ZMod 2)[X] :=
  X ^ 32 + X ^ 31 + X ^ 16 + X ^ 15 + X ^ 4 + X ^ 3 + X + 1

/-- The polynomial of a byte string, with the lowest bit of the first byte as the highest
coefficient. -/
noncomputable def messagePolynomial (bytes : List UInt8) : (ZMod 2)[X] :=
  bytes.foldl (fun p byte => p * X ^ 8 + bitPolynomial byte.toBitVec.reverse) 0

/-- The residue of a checksum. -/
noncomputable def edcElement (crc : BitVec 32) : AdjoinRoot edcGenerator :=
  residue edcGenerator crc.reverse

lemma edcGenerator_eq : edcGenerator = X ^ 32 + bitPolynomial edcPolynomial.reverse := by
  have hbits : edcPolynomial.reverse = BitVec.twoPow 32 31 ^^^ BitVec.twoPow 32 16 ^^^
      BitVec.twoPow 32 15 ^^^ BitVec.twoPow 32 4 ^^^ BitVec.twoPow 32 3 ^^^
      BitVec.twoPow 32 1 ^^^ BitVec.twoPow 32 0 := by decide +kernel
  rw [hbits]
  simp only [bitPolynomial_xor]
  rw [bitPolynomial_twoPow (by norm_num), bitPolynomial_twoPow (by norm_num),
    bitPolynomial_twoPow (by norm_num), bitPolynomial_twoPow (by norm_num),
    bitPolynomial_twoPow (by norm_num), bitPolynomial_twoPow (by norm_num),
    bitPolynomial_twoPow (by norm_num), edcGenerator, pow_zero, pow_one]
  ring

/-! ### Reversed Bits -/

lemma getLsbD_reverse_of_lt {w i : ℕ} (a : BitVec w) (h : i < w) :
    a.reverse.getLsbD i = a.getLsbD (w - 1 - i) := by
  rw [BitVec.getLsbD_reverse, BitVec.getMsbD_eq_getLsbD, decide_eq_true h, Bool.true_and]

lemma reverse_xor {w : ℕ} (a b : BitVec w) : (a ^^^ b).reverse = a.reverse ^^^ b.reverse := by
  refine BitVec.eq_of_getLsbD_eq fun i hi => ?_
  rw [BitVec.getLsbD_xor, getLsbD_reverse_of_lt _ hi, getLsbD_reverse_of_lt _ hi,
    getLsbD_reverse_of_lt _ hi, BitVec.getLsbD_xor]

lemma edcElement_xor (a b : BitVec 32) : edcElement (a ^^^ b) = edcElement a + edcElement b := by
  rw [edcElement, reverse_xor, residue_xor]
  rfl

lemma reverse_shiftRight {w : ℕ} (a : BitVec w) (k : ℕ) :
    (a >>> k).reverse = a.reverse <<< k := by
  refine BitVec.eq_of_getLsbD_eq fun i hi => ?_
  rw [getLsbD_reverse_of_lt _ hi, BitVec.getLsbD_ushiftRight, BitVec.getLsbD_shiftLeft,
    decide_eq_true hi, Bool.true_and]
  by_cases hk : i < k
  · rw [decide_eq_true hk, Bool.not_true, Bool.false_and]
    exact BitVec.getLsbD_of_ge a _ (by omega)
  · rw [decide_eq_false hk, Bool.not_false, Bool.true_and, getLsbD_reverse_of_lt _ (by omega)]
    congr 1
    omega

lemma edcStep_reverse (value : BitVec 32) :
    (edcStep value).reverse = timesRoot edcPolynomial.reverse value.reverse := by
  have hlow : value &&& 1 ≠ 0 ↔ value.reverse.msb = true := by
    rw [BitVec.msb_reverse]
    have hbit : value &&& 1 = if value.getLsbD 0 then 1 else 0 := by
      refine BitVec.eq_of_getLsbD_eq fun i hi => ?_
      rw [BitVec.getLsbD_and]
      cases i with
      | zero => cases value.getLsbD 0 <;> rfl
      | succ i => cases value.getLsbD 0 <;> simp
    rw [hbit]
    cases value.getLsbD 0 <;> decide
  unfold edcStep timesRoot
  by_cases h : value &&& 1 ≠ 0
  · rw [if_pos h, if_pos (hlow.mp h), reverse_xor, reverse_shiftRight]
  · rw [if_neg h, if_neg (mt hlow.mpr h), reverse_shiftRight]

lemma edcElement_iterate_edcStep (value : BitVec 32) (n : ℕ) :
    edcElement (edcStep^[n] value) = AdjoinRoot.root edcGenerator ^ n * edcElement value := by
  have hreverse : (edcStep^[n] value).reverse =
      (timesRoot edcPolynomial.reverse)^[n] value.reverse := by
    induction n with
    | zero => rfl
    | succ n ih =>
      rw [Function.iterate_succ_apply', edcStep_reverse, ih, Function.iterate_succ_apply']
  unfold edcElement
  rw [hreverse]
  exact residue_iterate_timesRoot edcGenerator_eq _ n

/-- Reversed bits without their highest ones move to the left without a loss. -/
lemma X_pow_mul_reverse {w k : ℕ} (a : BitVec w) (h : ∀ i < k, a.getLsbD i = false) :
    X ^ k * bitPolynomial a.reverse = bitPolynomial (a >>> k).reverse := by
  ext i
  rw [mul_comm, coeff_mul_X_pow', coeff_bitPolynomial, coeff_bitPolynomial, reverse_shiftRight,
    BitVec.getLsbD_shiftLeft]
  by_cases hk : k ≤ i
  · rw [if_pos hk, decide_eq_false (not_lt.mpr hk), Bool.not_false, Bool.and_true]
    by_cases hi : i < w
    · rw [decide_eq_true hi, Bool.true_and]
    · rw [decide_eq_false hi, Bool.false_and]
      by_cases hlow : i - k < w
      · rw [getLsbD_reverse_of_lt _ hlow, h _ (by omega)]
      · rw [BitVec.getLsbD_of_ge _ _ (not_lt.mp hlow)]
  · rw [if_neg hk, decide_eq_true (not_le.mp hk)]
    simp

lemma reverse_setWidth (byte : BitVec 8) :
    bitPolynomial (byte.setWidth 32).reverse = X ^ 24 * bitPolynomial byte.reverse := by
  ext i
  rw [mul_comm, coeff_mul_X_pow', coeff_bitPolynomial, coeff_bitPolynomial]
  by_cases hi : i < 32
  · rw [getLsbD_reverse_of_lt _ hi, BitVec.getLsbD_setWidth, decide_eq_true (by omega),
      Bool.true_and]
    by_cases hk : 24 ≤ i
    · rw [if_pos hk, getLsbD_reverse_of_lt byte (by omega),
        show 32 - 1 - i = 8 - 1 - (i - 24) by omega]
    · rw [if_neg hk, BitVec.getLsbD_of_ge _ _ (by omega)]
      rfl
  · rw [BitVec.getLsbD_of_ge (byte.setWidth 32).reverse i (by omega),
      BitVec.getLsbD_of_ge byte.reverse (i - 24) (by omega), if_pos (show 24 ≤ i by omega)]

/-! ### The Checksum of a Byte String -/

lemma edcElement_step (crc : BitVec 32) (byte : BitVec 8) :
    edcElement (crc >>> 8 ^^^ edcTable ((crc ^^^ byte.setWidth 32).setWidth 8)) =
      AdjoinRoot.root edcGenerator ^ 8 * (edcElement crc + edcElement (byte.setWidth 32)) := by
  obtain ⟨whole, hwhole⟩ : ∃ whole, whole = crc ^^^ byte.setWidth 32 := ⟨_, rfl⟩
  obtain ⟨low, hlow⟩ : ∃ low : BitVec 32, low = (whole.setWidth 8).setWidth 32 := ⟨_, rfl⟩
  -- the bits above the byte are not touched by it
  have hbits : ∀ i < 8, (whole ^^^ low).getLsbD i = false := by
    intro i hi
    rw [BitVec.getLsbD_xor, hlow, BitVec.getLsbD_setWidth, BitVec.getLsbD_setWidth,
      decide_eq_true (show i < 32 by omega), decide_eq_true hi, Bool.true_and, Bool.true_and,
      Bool.xor_self]
  have hhigh : (whole ^^^ low) >>> 8 = crc >>> 8 := by
    refine BitVec.eq_of_getLsbD_eq fun i hi => ?_
    rw [BitVec.getLsbD_ushiftRight, BitVec.getLsbD_ushiftRight, BitVec.getLsbD_xor, hlow, hwhole,
      BitVec.getLsbD_setWidth, BitVec.getLsbD_setWidth, BitVec.getLsbD_xor,
      BitVec.getLsbD_setWidth, decide_eq_false (show ¬ 8 + i < 8 by omega),
      BitVec.getLsbD_of_ge byte _ (by omega)]
    simp
  have hshift : edcElement (crc >>> 8) =
      AdjoinRoot.root edcGenerator ^ 8 * edcElement (whole ^^^ low) := by
    unfold edcElement residue
    rw [← hhigh, ← X_pow_mul_reverse _ hbits, map_mul, map_pow, AdjoinRoot.mk_X]
  have htable : edcElement (edcTable (whole.setWidth 8)) =
      AdjoinRoot.root edcGenerator ^ 8 * edcElement low := by
    rw [hlow]
    exact edcElement_iterate_edcStep _ 8
  have hsplit : edcElement (whole ^^^ low) + edcElement low = edcElement whole := by
    rw [← edcElement_xor, BitVec.xor_assoc, BitVec.xor_self, BitVec.xor_zero]
  rw [← hwhole, edcElement_xor, hshift, htable, ← mul_add, hsplit, hwhole, edcElement_xor]

/-- The checksum of a byte string is the residue of its polynomial behind 32 places. -/
lemma edcElement_edc (bytes : List UInt8) :
    edcElement (edc bytes) = AdjoinRoot.mk edcGenerator (X ^ 32 * messagePolynomial bytes) := by
  unfold edc messagePolynomial
  have hzero : edcElement 0 = AdjoinRoot.mk edcGenerator (X ^ 32 * 0) := by
    rw [mul_zero, map_zero, edcElement, show (0 : BitVec 32).reverse = 0 by decide +kernel,
      residue_zero]
  generalize (0 : BitVec 32) = crc, (0 : (ZMod 2)[X]) = p at hzero
  induction bytes generalizing crc p with
  | nil => exact hzero
  | cons byte bytes ih =>
    rw [List.foldl_cons, List.foldl_cons]
    refine ih _ _ ?_
    have hbyte : edcElement (byte.toBitVec.setWidth 32) =
        AdjoinRoot.mk edcGenerator (X ^ 24 * bitPolynomial byte.toBitVec.reverse) := by
      unfold edcElement residue
      rw [reverse_setWidth]
    have hroot : AdjoinRoot.root edcGenerator ^ 8 = AdjoinRoot.mk edcGenerator (X ^ 8) := by
      rw [map_pow, AdjoinRoot.mk_X]
    rw [edcElement_step, hzero, hbyte, hroot, ← map_add (AdjoinRoot.mk edcGenerator),
      ← map_mul (AdjoinRoot.mk edcGenerator)]
    exact congrArg (AdjoinRoot.mk edcGenerator) (by ring)

lemma edc_eq_modByMonic (bytes : List UInt8) :
    bitPolynomial (edc bytes).reverse = X ^ 32 * messagePolynomial bytes %ₘ edcGenerator :=
  bitPolynomial_eq_modByMonic edcGenerator_eq (edcElement_edc bytes)

end Neetan.SectorFrame
