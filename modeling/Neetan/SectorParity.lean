import Neetan.BinaryPolynomials
import Neetan.SectorFrame

/-!
The parity of sector frames.

The two sums of a vector are sums over the field, and the two bytes behind it are what makes both
syndromes of the vector vanish.
-/

namespace Neetan.SectorFrame

open BinaryPolynomials Polynomial

/-- The polynomial of the field of 256 elements. -/
noncomputable def fieldPolynomial : (ZMod 2)[X] := X ^ 8 + X ^ 4 + X ^ 3 + X ^ 2 + 1

/-- The element that generates the weights. -/
noncomputable def alpha : AdjoinRoot fieldPolynomial := AdjoinRoot.root fieldPolynomial

/-- The element a byte stands for. -/
noncomputable def element (byte : BitVec 8) : AdjoinRoot fieldPolynomial :=
  residue fieldPolynomial byte

lemma fieldPolynomial_eq : fieldPolynomial = X ^ 8 + bitPolynomial (0x1D : BitVec 8) := by
  have hbits : (0x1D : BitVec 8) = BitVec.twoPow 8 4 ^^^ BitVec.twoPow 8 3 ^^^
      BitVec.twoPow 8 2 ^^^ BitVec.twoPow 8 0 := by decide
  rw [hbits]
  simp only [bitPolynomial_xor]
  rw [bitPolynomial_twoPow (by norm_num), bitPolynomial_twoPow (by norm_num),
    bitPolynomial_twoPow (by norm_num), bitPolynomial_twoPow (by norm_num), fieldPolynomial,
    pow_zero]
  ring

lemma element_xor (a b : BitVec 8) : element (a ^^^ b) = element a + element b := residue_xor a b

lemma element_injective : Function.Injective element := residue_injective fieldPolynomial_eq

lemma gfDouble_eq (a : BitVec 8) : gfDouble a = timesRoot 0x1D a := by
  revert a
  decide +kernel

lemma element_gfDouble (a : BitVec 8) : element (gfDouble a) = alpha * element a := by
  rw [gfDouble_eq]
  exact residue_timesRoot fieldPolynomial_eq a

/-! ### Division by three -/

/-- The product with the inverse of three, `0xF4`. -/
def third (a : BitVec 8) : BitVec 8 :=
  let a₂ := gfDouble (gfDouble a)
  let a₄ := gfDouble (gfDouble a₂)
  let a₅ := gfDouble a₄
  let a₆ := gfDouble a₅
  a₂ ^^^ a₄ ^^^ a₅ ^^^ a₆ ^^^ gfDouble a₆

lemma third_triple (a : BitVec 8) : third (a ^^^ gfDouble a) = a := by
  revert a
  decide +kernel

lemma triple_third (a : BitVec 8) : third a ^^^ gfDouble (third a) = a := by
  revert a
  decide +kernel

lemma table_triple (n : ℕ) {j : ℕ} (hj : j < n) :
    ((List.range n).foldl (fun (table : Vector (BitVec 8) 256) index =>
      table.setIfInBounds (BitVec.ofNat 8 index ^^^ gfDouble (BitVec.ofNat 8 index)).toNat
        (BitVec.ofNat 8 index)) (Vector.replicate 256 0))[
          (BitVec.ofNat 8 j ^^^ gfDouble (BitVec.ofNat 8 j)).toNat]?.getD 0 = BitVec.ofNat 8 j := by
  induction n with
  | zero => omega
  | succ n ih =>
    rw [List.range_succ, List.foldl_append, List.foldl_cons, List.foldl_nil,
      Vector.getElem?_setIfInBounds]
    by_cases heq : (BitVec.ofNat 8 n ^^^ gfDouble (BitVec.ofNat 8 n)).toNat =
        (BitVec.ofNat 8 j ^^^ gfDouble (BitVec.ofNat 8 j)).toNat
    · -- equal triples are triples of one value
      have hsame := congrArg third (BitVec.toNat_inj.mp heq)
      rw [third_triple, third_triple] at hsame
      rw [if_pos heq, if_pos (BitVec.isLt _), Option.getD_some, hsame]
    · have hne : j ≠ n := fun h => heq (h ▸ rfl)
      rw [if_neg heq]
      exact ih (by omega)

lemma gfDivideByThree_xor (a : BitVec 8) :
    gfDouble (gfDivideByThree a) ^^^ gfDivideByThree a = a := by
  have hthird : gfDivideByThree a = third a := by
    have htable := table_triple 256 (third a).isLt
    rw [BitVec.ofNat_toNat, BitVec.setWidth_eq, triple_third] at htable
    exact htable
  rw [hthird, BitVec.xor_comm, triple_third]

/-! ### Sums over the Field -/

variable {frame : Frame} {major : ℕ}

lemma eccVector_congr {shape : EccShape} {frame' : Frame}
    (h : ∀ i < shape.majorCount * shape.minorCount,
      byteAt frame (headerOffset + i) = byteAt frame' (headerOffset + i))
    (hstep : shape.minorStep ≤ shape.majorCount * shape.minorCount) {fuel index : ℕ}
    (hindex : index < shape.majorCount * shape.minorCount) (sums : BitVec 8 × BitVec 8) :
    eccVector frame shape fuel index sums = eccVector frame' shape fuel index sums := by
  induction fuel generalizing index sums with
  | zero => rfl
  | succ fuel ih =>
    obtain ⟨weighted, sum⟩ := sums
    unfold eccVector
    dsimp only
    rw [h index hindex]
    refine ih ?_ _
    split_ifs <;> omega

/-- The byte of a vector that is read in a step. -/
def EccShape.dataAt (shape : EccShape) (frame : Frame) (index step : ℕ) : BitVec 8 :=
  (byteAt frame (headerOffset +
    (index + step * shape.minorStep) % (shape.majorCount * shape.minorCount))).toBitVec

lemma EccShape.dataAt_succ (shape : EccShape) (frame : Frame) {index next : ℕ} (step : ℕ)
    (h : next = (index + shape.minorStep) % (shape.majorCount * shape.minorCount)) :
    shape.dataAt frame index (step + 1) = shape.dataAt frame next step := by
  unfold EccShape.dataAt
  rw [h, Nat.mod_add_mod, Nat.succ_mul, Nat.add_assoc, Nat.add_comm shape.minorStep]

/-- The plain sum of a vector, and the sum with the powers of the generator as weights. -/
lemma eccVector_sums {shape : EccShape} (frame : Frame)
    (hstep : shape.minorStep ≤ shape.majorCount * shape.minorCount) {fuel index : ℕ}
    (hindex : index < shape.majorCount * shape.minorCount) (weighted sum : BitVec 8) :
    element (eccVector frame shape fuel index (weighted, sum)).1 =
        alpha ^ fuel * element weighted +
          ∑ i ∈ Finset.range fuel, alpha ^ (fuel - i) * element (shape.dataAt frame index i) ∧
      element (eccVector frame shape fuel index (weighted, sum)).2 =
        element sum + ∑ i ∈ Finset.range fuel, element (shape.dataAt frame index i) := by
  induction fuel generalizing index weighted sum with
  | zero => simp [eccVector]
  | succ fuel ih =>
    obtain ⟨next, hnext⟩ : ∃ next, next =
        (index + shape.minorStep) % (shape.majorCount * shape.minorCount) := ⟨_, rfl⟩
    have hlt : next < shape.majorCount * shape.minorCount := by
      rw [hnext]
      exact Nat.mod_lt _ (by omega)
    have hif : (if index + shape.minorStep ≥ shape.majorCount * shape.minorCount then
        index + shape.minorStep - shape.majorCount * shape.minorCount
        else index + shape.minorStep) = next := by
      rw [hnext]
      split_ifs with hge
      · rw [Nat.mod_eq_sub_mod hge, Nat.mod_eq_of_lt (by omega)]
      · rw [Nat.mod_eq_of_lt (by omega)]
    have hzero : shape.dataAt frame index 0 = (byteAt frame (headerOffset + index)).toBitVec := by
      unfold EccShape.dataAt
      rw [Nat.zero_mul, Nat.add_zero, Nat.mod_eq_of_lt hindex]
    have hsucc := fun i => shape.dataAt_succ frame i hnext
    unfold eccVector
    dsimp only
    rw [hif, (ih hlt _ _).1, (ih hlt _ _).2, element_gfDouble, element_xor, element_xor]
    constructor
    · rw [Finset.sum_range_succ', hzero, Nat.sub_zero]
      simp only [hsucc, Nat.succ_sub_succ]
      ring
    · rw [Finset.sum_range_succ', hzero]
      simp only [hsucc]
      ring

/-! ### Parity -/

/-- The first index of a vector. -/
def EccShape.start (shape : EccShape) (major : ℕ) : ℕ :=
  (major >>> 1) * shape.majorStep + (major &&& 1)

/-- The two parity bytes of a vector. -/
def EccShape.parity (shape : EccShape) (frame : Frame) (major : ℕ) : BitVec 8 × BitVec 8 :=
  let (weighted, sum) :=
    eccVector frame shape shape.minorCount (shape.start major) (0, 0)
  let first := gfDivideByThree (gfDouble weighted ^^^ sum)
  (first, first ^^^ sum)

/-- The vectors of a block lie between the header and the parity, which fits the frame. -/
structure EccShape.Fits (shape : EccShape) : Prop where
  step : shape.minorStep ≤ shape.majorCount * shape.minorCount
  start : ∀ major < shape.majorCount, shape.start major < shape.majorCount * shape.minorCount
  data : headerOffset + shape.majorCount * shape.minorCount ≤ shape.parityOffset
  parity : shape.parityOffset + 2 * shape.majorCount ≤ frameSize

variable {shape : EccShape}

lemma EccShape.Fits.parity_congr (h : shape.Fits) {frame' : Frame}
    (hmajor : major < shape.majorCount)
    (heq : ∀ o < shape.parityOffset, byteAt frame o = byteAt frame' o) :
    shape.parity frame major = shape.parity frame' major := by
  have hdata := h.data
  unfold EccShape.parity
  rw [eccVector_congr (fun i hi => heq _ (by omega)) h.step (h.start major hmajor)]

lemma byteAt_eccMajor {o : ℕ} (ho : o < frameSize) :
    byteAt (eccMajor shape frame major) o =
      if shape.parityOffset + major + shape.majorCount = o then
        ⟨(shape.parity frame major).2⟩
      else if shape.parityOffset + major = o then ⟨(shape.parity frame major).1⟩
      else byteAt frame o := by
  unfold eccMajor
  dsimp only
  rw [byteAt_set ho, byteAt_set ho]
  rfl

lemma EccShape.Fits.parity_done (h : shape.Fits) (frame : Frame) {n : ℕ} (hn : n ≤ shape.majorCount)
    (hmajor : major < n) :
    byteAt ((List.range n).foldl (eccMajor shape) frame) (shape.parityOffset + major) =
        ⟨(shape.parity frame major).1⟩ ∧
      byteAt ((List.range n).foldl (eccMajor shape) frame)
        (shape.parityOffset + major + shape.majorCount) = ⟨(shape.parity frame major).2⟩ := by
  have hparity := h.parity
  induction n with
  | zero => exact absurd hmajor (Nat.not_lt_zero _)
  | succ n ih =>
    rw [List.range_succ, List.foldl_append, List.foldl_cons, List.foldl_nil,
      byteAt_eccMajor (by omega), byteAt_eccMajor (by omega)]
    rcases Nat.lt_succ_iff_lt_or_eq.mp hmajor with hlt | rfl
    · rw [if_neg (by omega), if_neg (by omega), if_neg (by omega), if_neg (by omega)]
      exact ih (by omega) hlt
    · have hsame : shape.parity ((List.range major).foldl (eccMajor shape) frame) major =
          shape.parity frame major :=
        h.parity_congr (by omega) fun o ho => byteAt_foldl_eccMajor _ ho (by omega)
      rw [if_neg (by omega), if_pos rfl, if_pos rfl, hsame]
      exact ⟨rfl, rfl⟩

/-! ### Syndromes -/

/-- The first syndrome of the bytes at some positions. -/
noncomputable def plainSyndrome (frame : Frame) (n : ℕ) (position : ℕ → ℕ) :
    AdjoinRoot fieldPolynomial :=
  ∑ m ∈ Finset.range n, element (byteAt frame (position m)).toBitVec

/-- The second syndrome: the last byte has the weight one. -/
noncomputable def weightedSyndrome (frame : Frame) (n : ℕ) (position : ℕ → ℕ) :
    AdjoinRoot fieldPolynomial :=
  ∑ m ∈ Finset.range n, alpha ^ (n - 1 - m) * element (byteAt frame (position m)).toBitVec

/-- Both syndromes of a vector vanish. -/
def Clean (frame : Frame) (n : ℕ) (position : ℕ → ℕ) : Prop :=
  plainSyndrome frame n position = 0 ∧ weightedSyndrome frame n position = 0

/-- The positions of a vector: its data, and its parity behind it. -/
def EccShape.position (shape : EccShape) (major m : ℕ) : ℕ :=
  if m < shape.minorCount then
    headerOffset + (shape.start major + m * shape.minorStep) %
      (shape.majorCount * shape.minorCount)
  else shape.parityOffset + major + (m - shape.minorCount) * shape.majorCount

lemma EccShape.Fits.clean (h : shape.Fits) (frame : Frame) (hmajor : major < shape.majorCount) :
    Clean (eccBlock shape frame) (shape.minorCount + 2) (shape.position major) := by
  have hsize := h.data
  have hframe := h.parity
  obtain ⟨weighted, hweighted⟩ : ∃ weighted, weighted =
    (eccVector frame shape shape.minorCount (shape.start major) (0, 0)).1 := ⟨_, rfl⟩
  obtain ⟨sum, hsum⟩ : ∃ sum, sum =
    (eccVector frame shape shape.minorCount (shape.start major) (0, 0)).2 := ⟨_, rfl⟩
  obtain ⟨hw, hs⟩ := @eccVector_sums shape frame h.step shape.minorCount _
    (h.start major hmajor) 0 0
  have hnil : element 0 = 0 := residue_zero
  rw [← hweighted, hnil, mul_zero, zero_add] at hw
  rw [← hsum, hnil, zero_add] at hs
  -- the bytes of the block
  have hdata : ∀ m < shape.minorCount,
      (byteAt (eccBlock shape frame) (shape.position major m)).toBitVec =
        shape.dataAt frame (shape.start major) m := by
    intro m hm
    have hlt := Nat.mod_lt (shape.start major + m * shape.minorStep)
      (show 0 < shape.majorCount * shape.minorCount by
        have := h.start major hmajor
        omega)
    unfold EccShape.position EccShape.dataAt
    rw [if_pos hm, byteAt_eccBlock (by omega) (by omega)]
  obtain ⟨hfirst, hsecond⟩ := h.parity_done frame le_rfl hmajor
  obtain ⟨first, hfirst'⟩ : ∃ first, first = gfDivideByThree (gfDouble weighted ^^^ sum) :=
    ⟨_, rfl⟩
  have hparity : shape.parity frame major = (first, first ^^^ sum) := by
    rw [hfirst', hweighted, hsum]
    rfl
  have hbyte : (byteAt (eccBlock shape frame) (shape.position major shape.minorCount)).toBitVec =
      first := by
    unfold EccShape.position eccBlock
    rw [if_neg (lt_irrefl _), Nat.sub_self, Nat.zero_mul, Nat.add_zero, hfirst, hparity]
  have hbyte' : (byteAt (eccBlock shape frame)
      (shape.position major (shape.minorCount + 1))).toBitVec = first ^^^ sum := by
    unfold EccShape.position eccBlock
    rw [if_neg (by omega), Nat.add_sub_cancel_left, Nat.one_mul, hsecond, hparity]
  -- the first parity byte is the quotient of the sums
  have hquotient :
      alpha * element first + element first = alpha * element weighted + element sum := by
    rw [← element_gfDouble, ← element_gfDouble, ← element_xor, ← element_xor, hfirst',
      gfDivideByThree_xor]
  have htwo : (2 : AdjoinRoot fieldPolynomial) = 0 := two_eq_zero
  constructor
  · unfold plainSyndrome
    rw [Finset.sum_range_succ, Finset.sum_range_succ, hbyte, hbyte', element_xor,
      Finset.sum_congr rfl (fun m hm => by rw [hdata m (Finset.mem_range.mp hm)]), ← hs]
    linear_combination (element sum + element first) * htwo
  · have hterms : ∑ m ∈ Finset.range shape.minorCount, alpha ^ (shape.minorCount + 2 - 1 - m) *
        element (byteAt (eccBlock shape frame) (shape.position major m)).toBitVec =
        alpha * element weighted := by
      rw [hw, Finset.mul_sum]
      refine Finset.sum_congr rfl fun m hm => ?_
      have hlt := Finset.mem_range.mp hm
      rw [hdata m hlt, show shape.minorCount + 2 - 1 - m = shape.minorCount - m + 1 by omega]
      ring
    unfold weightedSyndrome
    rw [Finset.sum_range_succ, Finset.sum_range_succ, hterms, hbyte, hbyte', element_xor,
      show shape.minorCount + 2 - 1 - shape.minorCount = 1 by omega,
      show shape.minorCount + 2 - 1 - (shape.minorCount + 1) = 0 by omega]
    linear_combination (alpha * element weighted + element sum) * htwo + hquotient

/-! ### A Changed Byte -/

/-- A change of one byte at one place of a vector changes the first syndrome. -/
lemma not_clean_of_change {n m o : ℕ} {position : ℕ → ℕ} {byte : UInt8} (h : Clean frame n position)
    (hfits : ∀ i < n, position i < frameSize) (hm : m < n)
    (hplace : ∀ i < n, position i = o ↔ i = m) (hne : byte ≠ byteAt frame o) :
    ¬ Clean (frame.setIfInBounds o byte) n position := by
  intro hclean
  have hm' := Finset.mem_range.mpr hm
  have hat : position m = o := (hplace m hm).mpr rfl
  have hrest : ∑ i ∈ (Finset.range n).erase m,
      element (byteAt (frame.setIfInBounds o byte) (position i)).toBitVec =
      ∑ i ∈ (Finset.range n).erase m, element (byteAt frame (position i)).toBitVec := by
    refine Finset.sum_congr rfl fun i hi => ?_
    obtain ⟨hne', hi'⟩ := Finset.mem_erase.mp hi
    have hlt := Finset.mem_range.mp hi'
    rw [byteAt_set (hfits i hlt), if_neg fun heq => hne' ((hplace i hlt).mp heq.symm)]
  have hsum := h.1
  have hsum' := hclean.1
  unfold plainSyndrome at hsum hsum'
  rw [← Finset.add_sum_erase _ _ hm', hat] at hsum hsum'
  rw [hrest, byteAt_set (hat ▸ hfits m hm), if_pos rfl, ← hsum, add_left_inj] at hsum'
  exact hne (UInt8.toBitVec_inj.mp (element_injective hsum'))

end Neetan.SectorFrame
