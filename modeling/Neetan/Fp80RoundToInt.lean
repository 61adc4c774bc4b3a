import Neetan.Fp80IntegerRounding

/-!
Rounding to an integer in the 80-bit format.

The bits of the fraction are cleared; an increment of the integer part may carry into the exponent.
-/

namespace Neetan.SoftFloat

open MachineInt RealRounding

namespace Fp80

variable {a : Fp80} {rc : RoundingMode} {ef : ExceptionFlags}

/-- A finite number is delivered as its value rounded to an integer, with its sign. -/
structure RoundsToInt (rc : RoundingMode) (a : Fp80) (ef : ExceptionFlags) (r : Fp80)
    (ef' : ExceptionFlags) : Prop where
  finite : r.Finite
  value : r.toReal = rc.round a.toReal
  sign : r.sign = a.sign
  flags : IntegerFlags rc a.toReal (a.flagDenormal ef) ef'

lemma finite_of_bits {r : Fp80} (hexp : r.exponent < 0x7FFF) (hsig : 2 ^ 63 ≤ r.significand.toNat)
    (hpos : r.exponent ≠ 0) : r.Finite := by
  refine Operand.finite (.inl ?_)
  unfold isNormal
  rw [jBit_eq, decide_eq_true hsig, decide_eq_true (show 1 ≤ r.exponent by omega),
    decide_eq_true (show r.exponent ≤ 0x7FFE by omega)]
  rfl

lemma roundsToInt_self (ha : a.Finite) {n : ℕ} (h : a.magnitude = n) (rc : RoundingMode)
    (ef : ExceptionFlags) : RoundsToInt rc a ef a (a.flagDenormal ef) := by
  have hround : rc.roundSize a.sign a.magnitude = n := by
    have hlow := floor_le_roundSize rc a.sign a.magnitude
    have hhigh := roundSize_le_ceil rc a.sign a.magnitude
    rw [h] at hlow hhigh ⊢
    rw [Int.floor_natCast] at hlow
    rw [Int.ceil_natCast] at hhigh
    exact le_antisymm hhigh hlow
  have hvalue : a.toReal = rc.round a.toReal := by
    rw [round_eq, hround, signed_cast, toReal, h, Int.cast_natCast]
  refine ⟨ha, hvalue, rfl, ?_, ?_, rfl⟩
  · exact (or_iff_left (not_not.2 hvalue.symm)).symm
  · rw [← hvalue]
    exact (or_iff_left (lt_irrefl _)).symm

lemma roundsToInt_of_parts {r : Fp80} {magnitude : ℕ} {roundUp : Bool}
    (h : IntegerParts rc a magnitude true roundUp) (hfinite : r.Finite) (hsign : r.sign = a.sign)
    (hmagnitude : r.magnitude = magnitude) (ef : ExceptionFlags) :
    RoundsToInt rc a ef r { a.flagDenormal ef with
      precision := true, roundedUp := (a.flagDenormal ef).roundedUp || roundUp } := by
  have hflags := h.flags (a.flagDenormal ef)
  rw [ExceptionFlags.rounding, if_pos rfl] at hflags
  refine ⟨hfinite, ?_, hsign, hflags⟩
  rw [h.value, signed_cast, toReal, hsign, hmagnitude, Int.cast_natCast]

lemma magnitude_of_large (he : 63 ≤ a.trueExponent) :
    a.magnitude = (a.significand.toNat * 2 ^ (a.trueExponent - 63).toNat : ℕ) := by
  unfold magnitude
  rw [Nat.cast_mul, Nat.cast_pow, Nat.cast_ofNat, ← zpow_natCast,
    Int.toNat_of_nonneg (by omega)]

section

variable {r : Fp80} {n shift : ℕ}

/-- The size of a number with the exponent of another one, in units of the other's integers. -/
lemma magnitude_of_shifted (he : a.trueExponent ≤ 63) (hexp : r.trueExponent = a.trueExponent)
    (hshift : (63 - a.trueExponent).toNat = shift) (hsig : r.significand.toNat = n * 2 ^ shift) :
    r.magnitude = n := by
  rw [magnitude_eq_div (by omega), hexp, hshift, hsig, Nat.cast_mul, Nat.cast_pow, Nat.cast_ofNat,
    mul_div_cancel_right₀ _ (pow_pos two_pos _).ne']

lemma magnitude_of_carry (he : a.trueExponent < 63) (hexp : r.trueExponent = a.trueExponent + 1)
    (hshift : (63 - a.trueExponent).toNat = shift) (hn : n * 2 ^ shift = 2 ^ 64)
    (hsig : r.significand.toNat = 2 ^ 63) : r.magnitude = n := by
  have hpred : (63 - (a.trueExponent + 1)).toNat = shift - 1 := by omega
  have hpow : 2 ^ shift = 2 ^ (shift - 1) * 2 := by
    rw [← pow_succ]
    congr 1
    omega
  have hhalf : n * 2 ^ (shift - 1) = 2 ^ 63 := by
    rw [hpow, ← Nat.mul_assoc] at hn
    omega
  rw [magnitude_eq_div (by omega), hexp, hpred, hsig, ← hhalf, Nat.cast_mul, Nat.cast_pow,
    Nat.cast_ofNat, mul_div_cancel_right₀ _ (pow_pos two_pos _).ne']

end

lemma Finite.exponent_lt (ha : a.Finite) : a.exponent < 0x7FFF := by
  rcases ha.cases with hzero | hoperand
  · rw [(isZero_iff.1 hzero).1]
    decide
  · exact hoperand.exponent_lt

lemma flagDenormal_of_isZero (h : a.isZero = true) (ef : ExceptionFlags) :
    a.flagDenormal ef = ef := by
  obtain ⟨hexp, hsig⟩ := isZero_iff.1 h
  have hj : a.jBit = false := by
    rw [jBit_eq, hsig]
    rfl
  have hfraction : a.fraction = 0 := by
    unfold fraction
    rw [hsig]
    rfl
  unfold flagDenormal isDenormal isPseudoDenormal
  rw [hj, decide_eq_false (not_not.2 hfraction), Bool.and_false, Bool.and_false]
  rfl

lemma roundsToInt_small {roundUp : Bool}
    (h : IntegerParts rc a (if roundUp then 1 else 0) true roundUp) (ef : ExceptionFlags) :
    RoundsToInt rc a ef
      (if roundUp then (if a.sign then fromBits 0xBFFF 0x8000000000000000 else one)
        else if a.sign then negZero else zero)
      { a.flagDenormal ef with
        precision := true, roundedUp := (a.flagDenormal ef).roundedUp || roundUp } := by
  have hone : ∀ {r : Fp80}, r.exponent = 0x3FFF → r.significand = 0x8000000000000000 →
      r.Finite ∧ r.magnitude = (1 : ℕ) := by
    intro r hexp hsig
    refine ⟨finite_of_bits (by rw [hexp]; decide) (by rw [hsig]; decide) (by rw [hexp]; decide), ?_⟩
    have htrue : r.trueExponent = 0 := by
      unfold trueExponent bias
      rw [hexp]
      decide
    have hbits : (0x8000000000000000 : BitVec 64).toNat = 2 ^ 63 := rfl
    rw [magnitude_eq_div (by omega), htrue, hsig, hbits, Nat.cast_one, Nat.cast_pow, Nat.cast_ofNat]
    exact div_self (pow_ne_zero 63 two_ne_zero)
  have hzero : ∀ {r : Fp80}, r.isZero = true → r.magnitude = (0 : ℕ) := by
    intro r hr
    unfold magnitude
    rw [(isZero_iff.1 hr).2]
    simp
  generalize hsign : a.sign = sign
  cases roundUp with
  | false =>
    cases sign with
    | false =>
      exact roundsToInt_of_parts h (finite_of_isZero (a := zero) (by decide)) hsign.symm
        (hzero (r := zero) (by decide)) ef
    | true =>
      exact roundsToInt_of_parts h (finite_of_isZero (a := negZero) (by decide)) hsign.symm
        (hzero (r := negZero) (by decide)) ef
  | true =>
    cases sign with
    | false =>
      obtain ⟨hfinite, hmagnitude⟩ := @hone one (by decide) (by decide)
      exact roundsToInt_of_parts h hfinite hsign.symm hmagnitude ef
    | true =>
      obtain ⟨hfinite, hmagnitude⟩ :=
        @hone (fromBits 0xBFFF 0x8000000000000000) (by decide) (by decide)
      exact roundsToInt_of_parts h hfinite hsign.symm hmagnitude ef

lemma roundsToInt_fraction (ha : a.Operand) (h0 : 0 ≤ a.trueExponent) (he : a.trueExponent < 63)
    {shift kept rest : ℕ} (hshift : (63 - a.trueExponent).toNat = shift)
    (hkept : a.significand.toNat / 2 ^ shift = kept)
    (hrest : a.significand.toNat % 2 ^ shift = rest) (hne : rest ≠ 0) {roundUp : Bool}
    (hup : increments a.sign rc kept rest (2 ^ (shift - 1)) = roundUp) (ef : ExceptionFlags) :
    RoundsToInt rc a ef
      (if roundUp then
        if wrappingAdd 64 (kept * 2 ^ shift) (2 ^ shift) < kept * 2 ^ shift then
          fromBits (signBit a.sign ||| BitVec.ofNat 16 ((a.exponent + 1) &&& 0x7FFF))
            0x8000000000000000
        else fromBits a.signExponent
          (BitVec.ofNat 64 (wrappingAdd 64 (kept * 2 ^ shift) (2 ^ shift)))
        else fromBits a.signExponent (BitVec.ofNat 64 (kept * 2 ^ shift)))
      { a.flagDenormal ef with
        precision := true, roundedUp := (a.flagDenormal ef).roundedUp || roundUp } := by
  have hexp : a.exponent ≠ 0 := fun hzero => by
    unfold trueExponent bias at h0
    rw [if_pos hzero] at h0
    omega
  have htrue : a.trueExponent = a.exponent - bias := if_neg hexp
  have hlow := ha.jBit hexp
  have hhigh := a.significand.isLt
  have hsplit := Nat.div_add_mod a.significand.toNat (2 ^ shift)
  have hmod := Nat.mod_lt a.significand.toNat (Nat.two_pow_pos shift)
  rw [hkept, hrest, Nat.mul_comm] at hsplit
  rw [hrest] at hmod
  -- the integer bit and the whole width are multiples of the unit
  have hwhole : 2 ^ 64 = 2 ^ (64 - shift) * 2 ^ shift := by
    rw [← pow_add]
    congr 1
    omega
  have hbit : 2 ^ 63 = 2 ^ (63 - shift) * 2 ^ shift := by
    rw [← pow_add]
    congr 1
    omega
  have hunit := Nat.two_pow_pos shift
  have hkeptlow : 2 ^ (63 - shift) ≤ kept := by
    by_contra hlt
    have hle : (kept + 1) * 2 ^ shift ≤ 2 ^ (63 - shift) * 2 ^ shift :=
      Nat.mul_le_mul_right _ (not_le.1 hlt)
    rw [Nat.add_mul, Nat.one_mul] at hle
    omega
  have hkepthigh : kept + 1 ≤ 2 ^ (64 - shift) := by
    by_contra hlt
    have hle : 2 ^ (64 - shift) * 2 ^ shift ≤ kept * 2 ^ shift := Nat.mul_le_mul_right _ (by omega)
    omega
  have hinteger : 2 ^ 63 ≤ kept * 2 ^ shift := hbit ▸ Nat.mul_le_mul_right _ hkeptlow
  have hsum : (kept + 1) * 2 ^ shift ≤ 2 ^ 64 := hwhole ▸ Nat.mul_le_mul_right _ hkepthigh
  have hparts := @integerParts_split a rc he.le _ _ _ hshift hkept hrest
  rw [hup, decide_eq_true hne] at hparts
  -- a result with the exponent of the operand
  have hsame : ∀ {n : ℕ}, 2 ^ 63 ≤ n * 2 ^ shift → n * 2 ^ shift < 2 ^ 64 →
      IntegerParts rc a n true roundUp → RoundsToInt rc a ef
        (fromBits a.signExponent (BitVec.ofNat 64 (n * 2 ^ shift)))
        { a.flagDenormal ef with
          precision := true, roundedUp := (a.flagDenormal ef).roundedUp || roundUp } := by
    intro n hn hn' hparts
    have hsig : (fromBits a.signExponent (BitVec.ofNat 64 (n * 2 ^ shift))).significand.toNat =
        n * 2 ^ shift := by
      change (BitVec.ofNat 64 (n * 2 ^ shift)).toNat = _
      rw [BitVec.toNat_ofNat, Nat.mod_eq_of_lt hn']
    generalize hr : fromBits a.signExponent (BitVec.ofNat 64 (n * 2 ^ shift)) = r at *
    have hexponent : r.exponent = a.exponent := hr ▸ rfl
    have hfinite := finite_of_bits (hexponent ▸ ha.exponent_lt) (hsig ▸ hn) (hexponent ▸ hexp)
    have htrueExponent : r.trueExponent = a.trueExponent := hr ▸ rfl
    exact roundsToInt_of_parts hparts hfinite (hr ▸ rfl)
      (magnitude_of_shifted he.le htrueExponent hshift hsig) ef
  cases roundUp with
  | false => exact hsame hinteger (by omega) hparts
  | true =>
    have hadd : kept * 2 ^ shift + 2 ^ shift = (kept + 1) * 2 ^ shift := by
      rw [Nat.add_mul, Nat.one_mul]
    rw [if_pos rfl]
    unfold wrappingAdd
    rw [hadd]
    rcases hsum.lt_or_eq with hlt | heq
    · rw [Nat.mod_eq_of_lt hlt, if_neg (by omega)]
      exact hsame (by omega) hlt hparts
    · rw [heq, Nat.mod_self, if_pos (by omega)]
      have hbound : a.exponent + 1 < 0x7FFF := by
        unfold bias at htrue
        omega
      have hmask : (a.exponent + 1) &&& 0x7FFF = a.exponent + 1 :=
        (Nat.and_two_pow_sub_one_eq_mod _ 15).trans (Nat.mod_eq_of_lt (by omega))
      have hcarried : fromBits (signBit a.sign ||| BitVec.ofNat 16 ((a.exponent + 1) &&& 0x7FFF))
          0x8000000000000000 = packed a.sign (a.exponent + 1 : ℕ) (2 ^ 63) 64 := by
        unfold packed
        rw [hmask, BitVec.ofInt_natCast, Nat.sub_self, BitVec.shiftLeft_zero]
        rfl
      rw [hcarried]
      have hexponent := @packed_exponent a.sign (a.exponent + 1) (2 ^ 63) 64 (by omega)
      have hsignificand := @packed_significand a.sign (a.exponent + 1) (2 ^ 63) 64 le_rfl
        (by norm_num)
      rw [Nat.sub_self, pow_zero, Nat.mul_one] at hsignificand
      have hcarry : (packed a.sign (a.exponent + 1 : ℕ) (2 ^ 63) 64).trueExponent =
          a.trueExponent + 1 := by
        unfold trueExponent at htrue ⊢
        rw [hexponent, htrue, if_neg (by omega)]
        push_cast
        ring
      exact roundsToInt_of_parts hparts
        (finite_of_bits (hexponent.trans_lt hbound) hsignificand.ge (by omega))
        (packed_sign (by omega)) (magnitude_of_carry he hcarry hshift heq hsignificand) ef

/-- **A finite number is rounded to an integer.** -/
theorem roundToInt_rounds (ha : a.Finite) (rc : RoundingMode) (ef : ExceptionFlags) :
    RoundsToInt rc a ef (a.roundToInt rc ef).1 (a.roundToInt rc ef).2 := by
  have hmax : decide (a.exponent = 0x7FFF) = false := decide_eq_false ha.exponent_lt.ne
  have hsignaling : a.isSignalingNan = false := by
    unfold isSignalingNan
    rw [hmax]
    rfl
  have hquiet : a.isQuietNan = false := by
    unfold isQuietNan
    rw [hmax]
    rfl
  unfold roundToInt
  rw [flagUnsupportedOperands_of_supported ha.1.1]
  simp only [hsignaling, hquiet, ha.2, Bool.false_or, Bool.false_eq_true, if_false]
  by_cases hzero : a.isZero = true
  · rw [if_pos hzero]
    have hself := @roundsToInt_self a ha 0 (by
      unfold magnitude
      rw [(isZero_iff.1 hzero).2]
      simp) rc ef
    rw [flagDenormal_of_isZero hzero] at hself
    exact hself
  rw [if_neg hzero]
  have hoperand := ha.cases.resolve_left hzero
  by_cases hlarge : 63 ≤ a.trueExponent
  · rw [if_pos hlarge]
    exact roundsToInt_self ha (magnitude_of_large hlarge) rc ef
  rw [if_neg hlarge]
  by_cases hneg : a.trueExponent < 0
  · rw [if_pos hneg]
    obtain ⟨magnitude, hasFraction, roundUp, hmagnitude, hparts⟩ :=
      hoperand.bcdMagnitude (by omega) rc
    unfold bcdMagnitude at hmagnitude
    rw [if_pos hneg] at hmagnitude
    obtain ⟨rfl, rfl, rfl⟩ : _ ∧ _ ∧ _ := by simpa using hmagnitude
    exact roundsToInt_small hparts ef
  rw [if_neg hneg]
  have hshift : (63 - a.trueExponent).toNat ≤ 64 := by omega
  have hsig := a.significand.isLt
  simp only [Nat.one_shiftLeft, Nat.and_two_pow_sub_one_eq_mod, land_complement hshift hsig]
  by_cases hrest : a.significand.toNat % 2 ^ (63 - a.trueExponent).toNat = 0
  · rw [if_pos hrest]
    have hwhole := Nat.cast_div_charZero (K := ℝ) (Nat.dvd_of_mod_eq_zero hrest)
    rw [Nat.cast_pow, Nat.cast_ofNat, ← magnitude_eq_div (by omega)] at hwhole
    exact roundsToInt_self ha hwhole.symm rc ef
  rw [if_neg hrest]
  have hincrement := increments_eq a.sign rc
    (a.significand.toNat / 2 ^ (63 - a.trueExponent).toNat)
    (a.significand.toNat % 2 ^ (63 - a.trueExponent).toNat) (2 ^ ((63 - a.trueExponent).toNat - 1))
  rw [decide_eq_true hrest, Bool.true_and] at hincrement
  rw [Nat.shiftRight_eq_div_pow, Nat.mul_div_cancel _ (Nat.two_pow_pos _), ← hincrement]
  have hdone := @roundsToInt_fraction a rc hoperand (not_lt.1 hneg) (not_le.1 hlarge) _ _ _ rfl rfl
    rfl hrest _ rfl ef
  split_ifs at hdone ⊢ <;> exact hdone

end Fp80

end Neetan.SoftFloat
