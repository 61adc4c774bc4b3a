import Neetan.Fp80Theorems

/-!
Numbers in supported encodings, and the conversions of 80-bit numbers to integers and back.

Rounding and packing may start from bits with leading zeros, as those of a denormal are. A number
that is rounded to an integer is split at its point: the integer part, and whether the fraction is
rounded up.
-/

namespace Neetan.SoftFloat

open MachineInt RealRounding

/-! ### Exact Bits -/

lemma roundAndPack_shift {sign : Bool} {e : ℤ} {n : ℕ} (hpos : 0 < n) (hn : n < 2 ^ 128)
    (rc : RoundingMode) (pc : Precision) (ef : ExceptionFlags) :
    Fp80.roundAndPack sign e n rc pc ef = Fp80.roundAndPack sign (e - leadingZeros 128 n)
      (n * 2 ^ leadingZeros 128 n) rc pc ef := by
  obtain ⟨hlow, hhigh⟩ := shl_leadingZeros hpos hn
  have hne : n * 2 ^ leadingZeros 128 n ≠ 0 := (hlow.trans_lt' (Nat.two_pow_pos _)).ne'
  have hzero : leadingZeros 128 (n * 2 ^ leadingZeros 128 n) = 0 := by
    have := leadingZeros_le hlow
    omega
  have hshift := checkedShl_of_lt (leadingZeros_lt hpos hn) hhigh
  have hshift' : checkedShl 128 (n * 2 ^ leadingZeros 128 n) 0 =
      some (n * 2 ^ leadingZeros 128 n) := by
    rw [checkedShl_of_lt (by norm_num) (by simpa using hhigh), pow_zero, mul_one]
  unfold Fp80.roundAndPack
  simp only [if_neg hpos.ne', if_neg hne, hzero, hshift, hshift', Nat.cast_zero, sub_zero]

lemma roundAndPack_delivers {e : ℤ} {n : ℕ} (sign : Bool) (hpos : 0 < n) (hn : n < 2 ^ 128)
    (rc : RoundingMode) (pc : Precision) (ef : ExceptionFlags) :
    ∃ r ef', Fp80.roundAndPack sign e n rc pc ef = some (r, ef') ∧
      Delivers rc pc (signed sign (n * 2 ^ (e - 127))) ef r ef' := by
  rw [roundAndPack_shift hpos hn]
  refine (rounds_normalized hpos hn ?_).roundAndPack rc pc ef
  push_cast
  exact Alike.refl _ _

namespace Fp80

variable {a b : Fp80}

lemma toReal_scaled (a : Fp80) (t : ℤ) : a.toReal * 2 ^ t =
    signed a.sign (((a.significand.toNat * 2 ^ 64 : ℕ) : ℝ) *
      2 ^ (a.trueExponent + t - 127)) := by
  unfold toReal magnitude
  rw [signed_mul, mul_assoc, ← zpow_add₀ two_ne_zero]
  congr 1
  rw [Nat.cast_mul, Nat.cast_pow, Nat.cast_ofNat, mul_assoc, ← zpow_natCast,
    ← zpow_add₀ two_ne_zero]
  congr 2
  rw [Nat.cast_ofNat]
  ring

lemma roundToPrecision_delivers (ha : a.Operand) (rc : RoundingMode) (pc : Precision)
    (ef : ExceptionFlags) : ∃ r ef', a.roundToPrecision rc pc ef = some (r, ef') ∧
      Delivers rc pc a.toReal ef r ef' := by
  have hpos := ha.significand_pos
  have hlt := a.significand.isLt
  have hwide := widened_lt hlt
  have hexact := a.toReal_scaled 0
  rw [zpow_zero, mul_one, add_zero] at hexact
  unfold roundToPrecision
  rw [checkedShl_of_lt (by norm_num) hwide, hexact, Option.bind_eq_bind, Option.bind_some]
  exact roundAndPack_delivers a.sign (Nat.mul_pos hpos (Nat.two_pow_pos 64)) hwide rc pc ef

/-! ### Numbers -/

/-- A number in a supported encoding. -/
def Numeric (a : Fp80) : Prop := a.isUnsupported = false ∧ a.isNan = false

lemma isZero_iff : a.isZero = true ↔ a.exponent = 0 ∧ a.significand = 0 := by
  rw [isZero, Bool.and_eq_true, decide_eq_true_iff, decide_eq_true_iff]

lemma isInfinity_iff : a.isInfinity = true ↔
    a.exponent = 0x7FFF ∧ a.significand = 0x8000000000000000 := by
  rw [isInfinity, Bool.and_eq_true, decide_eq_true_iff, decide_eq_true_iff]

lemma isPseudoDenormal_iff : a.isPseudoDenormal = true ↔
    a.exponent = 0 ∧ 2 ^ 63 ≤ a.significand.toNat := by
  rw [isPseudoDenormal, Bool.and_eq_true, decide_eq_true_iff, jBit_eq, decide_eq_true_iff]

lemma Numeric.significand_le (h : a.Numeric) (hexp : a.exponent ≠ 0) :
    2 ^ 63 ≤ a.significand.toNat := by
  by_contra hlt
  have hj : a.jBit = false := by
    rw [jBit_eq, decide_eq_false hlt]
  have hunsupported := h.1
  unfold isUnsupported isUnnormal at hunsupported
  have hbound := a.exponent_lt
  rw [hj] at hunsupported
  by_cases hmax : a.exponent = 0x7FFF
  · by_cases hfraction : a.fraction = 0 <;> simp [hmax, hfraction] at hunsupported
  · have hlow : 1 ≤ a.exponent := Nat.pos_of_ne_zero hexp
    have hhigh : a.exponent ≤ 0x7FFE := by omega
    simp [hlow, hhigh] at hunsupported

lemma Numeric.isInfinity (h : a.Numeric) (hexp : a.exponent = 0x7FFF) : a.isInfinity = true := by
  have hlow := h.significand_le (by rw [hexp]; decide)
  have hnan := h.2
  unfold isNan at hnan
  rw [hexp, decide_eq_true rfl, Bool.true_and, decide_eq_false_iff_not, not_not] at hnan
  have hmod := congrArg BitVec.toNat hnan
  rw [BitVec.toNat_and] at hmod
  change a.significand.toNat &&& (2 ^ 63 - 1) = 0 at hmod
  rw [Nat.and_two_pow_sub_one_eq_mod] at hmod
  have hlt := a.significand.isLt
  refine isInfinity_iff.2 ⟨hexp, BitVec.eq_of_toNat_eq ?_⟩
  change a.significand.toNat = 2 ^ 63
  omega

lemma Numeric.cases (h : a.Numeric) :
    a.isZero = true ∨ a.Operand ∨ a.isInfinity = true := by
  by_cases hmax : a.exponent = 0x7FFF
  · exact .inr (.inr (h.isInfinity hmax))
  have hbound := a.exponent_lt
  by_cases hexp : a.exponent = 0
  · by_cases hsig : a.significand = 0
    · exact .inl (isZero_iff.2 ⟨hexp, hsig⟩)
    · right; left
      by_cases hj : 2 ^ 63 ≤ a.significand.toNat
      · exact .inr (.inr (isPseudoDenormal_iff.2 ⟨hexp, hj⟩))
      · right; left
        have hfraction : a.fraction ≠ 0 := fun hf => by
          have hnat := congrArg BitVec.toNat hf
          rw [fraction_toNat, Nat.mod_eq_of_lt (not_le.1 hj)] at hnat
          exact hsig (BitVec.eq_of_toNat_eq hnat)
        unfold isDenormal
        rw [jBit_eq, decide_eq_false hj, hexp, decide_eq_true hfraction]
        rfl
  · right; left; left
    unfold isNormal
    rw [jBit_eq, decide_eq_true (h.significand_le hexp),
      decide_eq_true (show 0x0001 ≤ a.exponent by omega),
      decide_eq_true (show a.exponent ≤ 0x7FFE by omega)]
    rfl

lemma Operand.numeric (h : a.Operand) : a.Numeric := ⟨h.plain.1, h.plain.2.1⟩

lemma numeric_of_isZero (h : a.isZero = true) : a.Numeric := by
  obtain ⟨hexp, hsig⟩ := isZero_iff.1 h
  unfold Numeric isUnsupported isUnnormal isNan
  rw [hexp]
  exact ⟨rfl, rfl⟩

lemma numeric_of_isInfinity (h : a.isInfinity = true) : a.Numeric := by
  obtain ⟨hexp, hsig⟩ := isInfinity_iff.1 h
  unfold Numeric isUnsupported isUnnormal isNan jBit fraction
  rw [hexp, hsig]
  decide

lemma toReal_of_isZero (h : a.isZero = true) : a.toReal = 0 := by
  unfold toReal magnitude
  rw [(isZero_iff.1 h).2]
  simp [signed]

end Fp80

/-! ### Rounding Decisions -/

/-- Whether a mode rounds a fraction away from zero, given what rounding to nearest does. -/
def RoundingMode.roundsUp (rc : RoundingMode) (sign nearest : Bool) : Bool :=
  match rc with
  | .nearestEven => nearest
  | .up => !sign
  | .down => sign
  | .zero => false

/-- Whether a size below one is rounded to one. -/
def roundsToOne (sign : Bool) (trueExp : ℤ) (sig : ℕ) (rc : RoundingMode) : Bool :=
  rc.roundsUp sign (if trueExp = -1 then 0x8000000000000000 < sig else false)

/-- The integer part after the rounding, whether there is a fraction, and whether it is rounded
up. -/
def splitInteger (sign : Bool) (trueExp : ℤ) (sig : ℕ) (rc : RoundingMode) :
    Option (ℕ × Bool × Bool) := do
  let shiftRight := (63 - trueExp).toNat
  let integerPart := sig >>> shiftRight
  let fraction := if shiftRight < 64 then sig &&& (1 <<< shiftRight - 1) else 0
  let hasFraction : Bool := fraction ≠ 0
  let halfway := 1 <<< (shiftRight - 1)
  let roundUp := hasFraction &&
    rc.roundsUp sign (halfway < fraction || (fraction = halfway && integerPart &&& 1 ≠ 0))
  let magnitude ← if roundUp then checkedAdd 64 integerPart 1 else some integerPart
  return (magnitude, hasFraction, roundUp)

def wrappingNeg (w : ℕ) (v : ℤ) : ℤ := (-v).bmod (2 ^ w)

/-- The flags of a rounding. -/
def ExceptionFlags.rounding (ef : ExceptionFlags) (hasFraction roundUp : Bool) : ExceptionFlags :=
  if hasFraction then { ef with precision := true, roundedUp := ef.roundedUp || roundUp } else ef

namespace Fp80

/-! ### Integers -/

/-- An integer of 64 bits, which a significand holds. -/
def fromI64 (v : ℤ) : Fp80 :=
  if v = 0 then zero
  else
    let sign : Bool := v < 0
    let magnitude := if sign then ((-v) % 2 ^ 64).toNat else v.toNat
    let leading := leadingZeros 64 magnitude
    let significand := BitVec.ofNat 64 (magnitude <<< leading)
    let biasedExponent := BitVec.ofNat 16 (16383 + 63 - leading)
    ⟨significand, if sign then 0x8000 ||| biasedExponent else biasedExponent⟩

def toIntegerGeneric (a : Fp80) (rc : RoundingMode) (ef : ExceptionFlags) (maxBit : ℕ) :
    Option (ℤ × ExceptionFlags) := do
  let indefinite := minValue 64 >>> (63 - maxBit)
  let (unsupported, ef) := flagUnsupportedOperands [a] ef
  if unsupported then return (indefinite, ef)
  else if a.isNan || a.isInfinity then return (indefinite, { ef with invalid := true })
  else if a.isZero then return (0, ef)
  else if (maxBit : ℤ) < a.trueExponent then return (indefinite, { ef with invalid := true })
  else if a.trueExponent < 0 then
    let ef := { ef with precision := true }
    if roundsToOne a.sign a.trueExponent a.significand.toNat rc then
      return (if a.sign then -1 else 1, { ef with roundedUp := true })
    else return (0, ef)
  else
    let (magnitude, hasFraction, roundUp) ←
      splitInteger a.sign a.trueExponent a.significand.toNat rc
    let positiveLimit := 1 <<< maxBit - 1
    let negativeLimit := 1 <<< maxBit
    let limit := if a.sign then negativeLimit else positiveLimit
    if limit < magnitude then return (indefinite, { ef with invalid := true })
    else
      let result := castSigned 64 magnitude
      return (if a.sign then wrappingNeg 64 result else result, ef.rounding hasFraction roundUp)

def toI16 (a : Fp80) (rc : RoundingMode) (ef : ExceptionFlags) : Option (ℤ × ExceptionFlags) := do
  let (result, ef) ← a.toIntegerGeneric rc ef 15
  return (result.bmod (2 ^ 16), ef)

def toI32 (a : Fp80) (rc : RoundingMode) (ef : ExceptionFlags) : Option (ℤ × ExceptionFlags) := do
  let (result, ef) ← a.toIntegerGeneric rc ef 31
  return (result.bmod (2 ^ 32), ef)

def toI64 (a : Fp80) (rc : RoundingMode) (ef : ExceptionFlags) : Option (ℤ × ExceptionFlags) :=
  a.toIntegerGeneric rc ef 63

/-- The number rounded to an integer, in the format itself. -/
def roundToInt (a : Fp80) (rc : RoundingMode) (ef : ExceptionFlags) : Fp80 × ExceptionFlags :=
  let (unsupported, ef) := flagUnsupportedOperands [a] ef
  if unsupported then (indefinite, ef)
  else if a.isSignalingNan then (a.quieten, { ef with invalid := true })
  else if a.isQuietNan then (a, ef)
  else if a.isInfinity || a.isZero then (a, ef)
  else
    let ef := a.flagDenormal ef
    let exp := a.trueExponent
    let sig := a.significand.toNat
    if 63 ≤ exp then (a, ef)
    else if exp < 0 then
      let roundUp := roundsToOne a.sign exp sig rc
      let ef := { ef with precision := true, roundedUp := ef.roundedUp || roundUp }
      (if roundUp then (if a.sign then fromBits 0xBFFF 0x8000000000000000 else one)
        else if a.sign then negZero else zero, ef)
    else
      let fractionBits := (63 - exp).toNat
      let fractionMask := 1 <<< fractionBits - 1
      let fraction := sig &&& fractionMask
      if fraction = 0 then (a, ef)
      else
        let integerPart := sig &&& complement 64 fractionMask
        let halfway := 1 <<< (fractionBits - 1)
        let roundUp := rc.roundsUp a.sign (halfway < fraction ||
          (fraction = halfway && (integerPart >>> fractionBits) &&& 1 ≠ 0))
        let ef := { ef with precision := true, roundedUp := ef.roundedUp || roundUp }
        if roundUp then
          let newSig := wrappingAdd 64 integerPart (1 <<< fractionBits)
          if newSig < integerPart then
            -- the carry goes into the exponent
            (fromBits (signBit a.sign ||| BitVec.ofNat 16 ((a.exponent + 1) &&& 0x7FFF))
              0x8000000000000000, ef)
          else (fromBits a.signExponent (BitVec.ofNat 64 newSig), ef)
        else (fromBits a.signExponent (BitVec.ofNat 64 integerPart), ef)

/-! ### Sizes of Packed Decimal Images -/

/-- The integer, whether there is a fraction, and whether it is rounded up. -/
def bcdMagnitude (a : Fp80) (rc : RoundingMode) : Option (ℕ × Bool × Bool) :=
  if a.trueExponent < 0 then
    let roundUp := roundsToOne a.sign a.trueExponent a.significand.toNat rc
    some (if roundUp then 1 else 0, true, roundUp)
  else splitInteger a.sign a.trueExponent a.significand.toNat rc

end Fp80

end Neetan.SoftFloat
