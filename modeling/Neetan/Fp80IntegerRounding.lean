import Neetan.Fp80Operands

/-!
Conversions to integers deliver the exact value rounded once.

A significand in units of its integer part is split into kept bits and a rest, for values below one
as for those above.
-/

namespace Neetan.SoftFloat

open MachineInt RealRounding

/-! ### Integer Parts -/

/-- A number is finite. -/
def Fp80.Finite (a : Fp80) : Prop := a.Numeric ∧ a.isInfinity = false

/-- The flags tell the rounding of a value to an integer. -/
structure IntegerFlags (rc : RoundingMode) (x : ℝ) (ef ef' : ExceptionFlags) : Prop where
  precision : ef'.precision = true ↔ ef.precision = true ∨ (rc.round x : ℝ) ≠ x
  roundedUp : ef'.roundedUp = true ↔ ef.roundedUp = true ∨ |x| < |(rc.round x : ℝ)|
  others : ef' = { ef with precision := ef'.precision, roundedUp := ef'.roundedUp }

/-- A number is converted to its value rounded to an integer, if that is in range, and to the
indefinite value with the invalid flag otherwise. -/
structure Converts {β : Type} (inRange : ℤ → Prop) (standsFor : β → ℤ → Prop) (indefinite : β)
    (rc : RoundingMode) (a : Fp80) (ef : ExceptionFlags) (r : β) (ef' : ExceptionFlags) :
    Prop where
  inside : a.Finite → inRange (rc.round a.toReal) →
    standsFor r (rc.round a.toReal) ∧ IntegerFlags rc a.toReal ef ef'
  outside : ¬ (a.Finite ∧ inRange (rc.round a.toReal)) →
    r = indefinite ∧ ef' = { ef with invalid := true }

/-- A size, whether there was a fraction, and whether it was rounded up are those of a number
rounded to an integer. -/
structure IntegerParts (rc : RoundingMode) (a : Fp80) (magnitude : ℕ) (hasFraction roundUp : Bool) :
    Prop where
  value : rc.round a.toReal = signed a.sign (magnitude : ℤ)
  fraction : hasFraction = true ↔ (rc.round a.toReal : ℝ) ≠ a.toReal
  up : roundUp = true ↔ |a.toReal| < |(rc.round a.toReal : ℝ)|

lemma integer_split (sig shift : ℕ) :
    Split (sig / 2 ^ shift) (sig % 2 ^ shift) (2 ^ (shift - 1)) ((sig : ℝ) / 2 ^ shift) := by
  cases shift with
  | zero =>
    rw [pow_zero, pow_zero, Nat.div_one, Nat.mod_one, div_one]
    refine ⟨Int.floor_natCast sig, iff_of_true rfl rfl, ?_, ?_⟩
    · exact iff_of_true one_pos (by linarith)
    · exact iff_of_false (Nat.not_lt_zero _) (by linarith)
  | succ k =>
    have hsplit := @split_of_alike sig (2 ^ k) (sig : ℝ) (Nat.two_pow_pos k) (Alike.refl _ _)
    rw [← pow_succ, Nat.cast_pow, Nat.cast_ofNat, ← pow_succ] at hsplit
    exact hsplit

lemma signed_cast (negative : Bool) (n : ℤ) :
    ((signed negative n : ℤ) : ℝ) = signed negative (n : ℝ) := by
  cases negative
  · rfl
  · exact Int.cast_neg n

namespace Fp80

variable {a : Fp80} {rc : RoundingMode} {ef : ExceptionFlags}

lemma Operand.finite (h : a.Operand) : a.Finite := ⟨h.numeric, h.plain.2.2.1⟩

lemma finite_of_isZero (h : a.isZero = true) : a.Finite :=
  ⟨numeric_of_isZero h, not_isInfinity (by rw [(isZero_iff.1 h).1]; decide)⟩

lemma Finite.cases (h : a.Finite) : a.isZero = true ∨ a.Operand :=
  h.1.cases.imp_right fun hor => hor.resolve_right (by rw [h.2]; exact Bool.false_ne_true)

lemma round_eq (a : Fp80) (rc : RoundingMode) :
    rc.round a.toReal = signed a.sign (rc.roundSize a.sign a.magnitude) :=
  round_signed rc a.sign a.magnitude_nonneg

lemma magnitude_eq_div (he : a.trueExponent ≤ 63) :
    a.magnitude = (a.significand.toNat : ℝ) / 2 ^ (63 - a.trueExponent).toNat := by
  have hshift : ((63 - a.trueExponent).toNat : ℤ) = 63 - a.trueExponent :=
    Int.toNat_of_nonneg (by omega)
  unfold magnitude
  rw [div_eq_mul_inv, ← zpow_natCast, ← zpow_neg, hshift, neg_sub]

lemma integerParts_split (he : a.trueExponent ≤ 63) {shift kept rest : ℕ}
    (hshift : (63 - a.trueExponent).toNat = shift) (hkept : a.significand.toNat / 2 ^ shift = kept)
    (hrest : a.significand.toNat % 2 ^ shift = rest) :
    IntegerParts rc a (kept + (increments a.sign rc kept rest (2 ^ (shift - 1))).toNat)
      (decide (rest ≠ 0)) (increments a.sign rc kept rest (2 ^ (shift - 1))) := by
  have hsplit := integer_split a.significand.toNat shift
  rw [hkept, hrest, ← hshift, ← magnitude_eq_div he, hshift] at hsplit
  have hvalue := a.round_eq rc
  rw [hsplit.roundSize a.sign rc, ← Nat.cast_add] at hvalue
  have hinexact := hsplit.inexact_iff a.sign rc
  have hup := hsplit.increment_iff a.sign rc
  generalize increments a.sign rc kept rest (2 ^ (shift - 1)) = increment at *
  have hcast :
      ((rc.round a.toReal : ℤ) : ℝ) = signed a.sign ((kept + increment.toNat : ℕ) : ℝ) := by
    rw [hvalue, signed_cast, Int.cast_natCast]
  refine ⟨hvalue, ?_, ?_⟩
  · rw [decide_eq_true_iff, hcast, toReal]
    exact hinexact.trans (signed_inj a.sign).not.symm
  · rw [hcast, toReal, abs_signed _ a.magnitude_nonneg, abs_signed _ (Nat.cast_nonneg _)]
    exact hup

lemma increments_eq (sign : Bool) (rc : RoundingMode) (kept rest half : ℕ) :
    increments sign rc kept rest half = (decide (rest ≠ 0) &&
      rc.roundsUp sign (half < rest || (rest = half && kept &&& 1 ≠ 0))) := by
  cases rc <;> rfl

lemma splitInteger_eq {sign : Bool} {e : ℤ} {sig shift : ℕ} (h0 : 0 ≤ e) (he : e ≤ 63)
    (hsig : sig < 2 ^ 64) (hshift : (63 - e).toNat = shift) :
    splitInteger sign e sig rc = some (sig / 2 ^ shift +
      (increments sign rc (sig / 2 ^ shift) (sig % 2 ^ shift) (2 ^ (shift - 1))).toNat,
      decide (sig % 2 ^ shift ≠ 0),
      increments sign rc (sig / 2 ^ shift) (sig % 2 ^ shift) (2 ^ (shift - 1))) := by
  have hlt : shift < 64 := by omega
  have hup := increments_eq sign rc (sig / 2 ^ shift) (sig % 2 ^ shift) (2 ^ (shift - 1))
  -- an increment needs a fraction, so that the integer part is short
  have hadd : increments sign rc (sig / 2 ^ shift) (sig % 2 ^ shift) (2 ^ (shift - 1)) = true →
      sig / 2 ^ shift + 1 < 2 ^ 64 := by
    intro hinc
    rw [hup, Bool.and_eq_true, decide_eq_true_iff] at hinc
    have hne : shift ≠ 0 := fun hzero => hinc.1 (by rw [hzero, pow_zero, Nat.mod_one])
    have hhalf : sig / 2 ^ shift < 2 ^ 63 := by
      rw [Nat.div_lt_iff_lt_mul (Nat.two_pow_pos shift)]
      calc sig < 2 ^ 63 * 2 := hsig.trans_eq (by norm_num)
        _ ≤ 2 ^ 63 * 2 ^ shift := Nat.mul_le_mul_left _ (Nat.le_self_pow hne 2)
    omega
  unfold splitInteger
  rw [hshift]
  simp only [if_pos hlt, Nat.one_shiftLeft, Nat.shiftRight_eq_div_pow,
    Nat.and_two_pow_sub_one_eq_mod, ← hup]
  generalize increments sign rc _ _ _ = increment at *
  cases increment
  · rfl
  · rw [if_pos rfl, checkedAdd, if_pos (hadd rfl)]
    rfl

lemma roundsToOne_eq {sign : Bool} {e : ℤ} {sig shift : ℕ} (he : e < 0) (hpos : 0 < sig)
    (hsig : sig < 2 ^ 64) (hshift : (63 - e).toNat = shift) :
    sig / 2 ^ shift = 0 ∧ sig % 2 ^ shift = sig ∧
      roundsToOne sign e sig rc = increments sign rc 0 sig (2 ^ (shift - 1)) := by
  have hlt : sig < 2 ^ shift := hsig.trans_le (Nat.pow_le_pow_right two_pos (by omega))
  refine ⟨Nat.div_eq_of_lt hlt, Nat.mod_eq_of_lt hlt, ?_⟩
  rw [increments_eq, decide_eq_true hpos.ne', Bool.true_and]
  unfold roundsToOne
  congr 1
  by_cases hone : e = -1
  · have hhalf : shift - 1 = 63 := by omega
    rw [if_pos hone, hhalf]
    simp
  · have hhalf : sig < 2 ^ (shift - 1) := hsig.trans_le (Nat.pow_le_pow_right two_pos (by omega))
    rw [if_neg hone, decide_eq_false hhalf.not_gt, decide_eq_false hhalf.ne]
    rfl

lemma Operand.bcdMagnitude (ha : a.Operand) (he : a.trueExponent ≤ 63) (rc : RoundingMode) :
    ∃ magnitude hasFraction roundUp,
      a.bcdMagnitude rc = some (magnitude, hasFraction, roundUp) ∧
        IntegerParts rc a magnitude hasFraction roundUp := by
  have hsig := a.significand.isLt
  unfold Fp80.bcdMagnitude
  split_ifs with hneg
  · obtain ⟨hkept, hrest, hone⟩ :=
      @roundsToOne_eq rc a.sign _ _ _ hneg ha.significand_pos hsig rfl
    have hparts := @integerParts_split a rc he _ _ _ rfl hkept hrest
    rw [← hone, decide_eq_true ha.significand_pos.ne'] at hparts
    refine ⟨_, _, _, rfl, ?_⟩
    convert hparts using 1
    cases roundsToOne a.sign a.trueExponent a.significand.toNat rc <;> rfl
  · exact ⟨_, _, _, splitInteger_eq (not_lt.1 hneg) he hsig rfl, integerParts_split he rfl rfl rfl⟩

end Fp80

lemma IntegerParts.flags {rc : RoundingMode} {a : Fp80} {magnitude : ℕ} {hasFraction roundUp : Bool}
    (h : IntegerParts rc a magnitude hasFraction roundUp) (ef : ExceptionFlags) :
    IntegerFlags rc a.toReal ef (ef.rounding hasFraction roundUp) := by
  have hfraction := h.fraction
  have hup := h.up
  unfold ExceptionFlags.rounding
  cases hasFraction with
  | false =>
    have hexact : (rc.round a.toReal : ℝ) = a.toReal :=
      not_not.1 (mt hfraction.2 Bool.false_ne_true)
    rw [if_neg Bool.false_ne_true]
    refine ⟨?_, ?_, rfl⟩
    · rw [hexact]
      exact (or_iff_left (fun hne => hne rfl)).symm
    · rw [hexact]
      exact (or_iff_left (lt_irrefl _)).symm
  | true =>
    rw [if_pos rfl]
    refine ⟨iff_of_true rfl (.inr (hfraction.1 rfl)), ?_, rfl⟩
    rw [← hup]
    exact Bool.or_eq_true _ _ ▸ Iff.rfl

namespace Fp80

variable {a : Fp80} {rc : RoundingMode} {ef : ExceptionFlags}

/-! ### Integers -/

lemma Operand.le_natAbs_round (ha : a.Operand) {n : ℕ} (he : (n : ℤ) ≤ a.trueExponent)
    (rc : RoundingMode) : 2 ^ n ≤ (rc.round a.toReal).natAbs := by
  have hexp : a.exponent ≠ 0 := fun hzero => by
    unfold trueExponent bias at he
    rw [if_pos hzero] at he
    omega
  have hlow : (2 : ℝ) ^ n ≤ a.magnitude := by
    have hsig : (2 : ℝ) ^ 63 ≤ a.significand.toNat := by exact_mod_cast ha.jBit hexp
    calc (2 : ℝ) ^ n = 2 ^ (n : ℤ) := (zpow_natCast _ _).symm
      _ ≤ 2 ^ a.trueExponent := zpow_le_zpow_right₀ one_le_two he
      _ = 2 ^ 63 * 2 ^ (a.trueExponent - 63) := by
        rw [← zpow_natCast, ← zpow_add₀ two_ne_zero]
        congr 1
        push_cast
        ring
      _ ≤ a.magnitude := mul_le_mul_of_nonneg_right hsig (zpow_pos two_pos _).le
  have hfloor : ((2 ^ n : ℕ) : ℤ) ≤ ⌊a.magnitude⌋ := by
    rw [Int.le_floor]
    exact_mod_cast hlow
  have hround := floor_le_roundSize rc a.sign a.magnitude
  rw [round_eq]
  generalize rc.roundSize a.sign a.magnitude = size at *
  cases a.sign
  · change 2 ^ n ≤ size.natAbs
    omega
  · change 2 ^ n ≤ (-size).natAbs
    omega

lemma round_of_isZero (h : a.isZero = true) (rc : RoundingMode) : rc.round a.toReal = 0 := by
  rw [round_eq]
  have hzero : a.magnitude = 0 := by
    unfold magnitude
    rw [(isZero_iff.1 h).2]
    exact (congrArg (· * _) Nat.cast_zero).trans (zero_mul _)
  have hround : rc.roundSize a.sign 0 = 0 := by
    have hlow := floor_le_roundSize rc a.sign 0
    have hhigh := roundSize_le_ceil rc a.sign 0
    rw [Int.floor_zero] at hlow
    rw [Int.ceil_zero] at hhigh
    exact le_antisymm hhigh hlow
  rw [hzero, hround]
  cases a.sign <;> rfl

lemma integerFlags_of_isZero (h : a.isZero = true) (rc : RoundingMode) (ef : ExceptionFlags) :
    IntegerFlags rc a.toReal ef ef := by
  have hround := round_of_isZero h rc
  rw [toReal_of_isZero h] at *
  refine ⟨?_, ?_, rfl⟩
  · rw [hround, Int.cast_zero]
    exact (or_iff_left (fun hne => hne rfl)).symm
  · rw [hround, Int.cast_zero]
    exact (or_iff_left (lt_irrefl _)).symm

section

variable {β : Type} {inRange : ℤ → Prop} {standsFor : β → ℤ → Prop} {indefinite : β}

lemma converts_outside (h : ¬ (a.Finite ∧ inRange (rc.round a.toReal))) :
    Converts inRange standsFor indefinite rc a ef indefinite { ef with invalid := true } :=
  ⟨fun hfinite hrange => absurd ⟨hfinite, hrange⟩ h, fun _ => ⟨rfl, rfl⟩⟩

lemma converts_inside {r : β} {ef' : ExceptionFlags} (hfinite : a.Finite)
    (hrange : inRange (rc.round a.toReal)) (hstands : standsFor r (rc.round a.toReal))
    (hflags : IntegerFlags rc a.toReal ef ef') :
    Converts inRange standsFor indefinite rc a ef r ef' :=
  ⟨fun _ _ => ⟨hstands, hflags⟩, fun h => absurd ⟨hfinite, hrange⟩ h⟩

end

lemma not_finite_of_special (h : a.isNan = true ∨ a.isInfinity = true) : ¬ a.Finite := by
  rintro ⟨⟨-, hnan⟩, hinfinity⟩
  rcases h with h | h
  · exact Bool.false_ne_true (hnan.symm.trans h)
  · exact Bool.false_ne_true (hinfinity.symm.trans h)

lemma flagUnsupportedOperands_of_supported (h : a.isUnsupported = false) (ef : ExceptionFlags) :
    flagUnsupportedOperands [a] ef = (false, ef) := by
  unfold flagUnsupportedOperands
  simp only [List.any_cons, List.any_nil, h, Bool.or_false]

lemma signed_magnitude {maxBit magnitude : ℕ} (hmax : maxBit ≤ 63) (sign : Bool)
    (hlimit : ¬ (if sign then 1 <<< maxBit else 1 <<< maxBit - 1) < magnitude) :
    (if sign then wrappingNeg 64 (castSigned 64 magnitude) else castSigned 64 magnitude) =
      signed sign (magnitude : ℤ) := by
  have hpow : 2 ^ maxBit ≤ 2 ^ 63 := Nat.pow_le_pow_right two_pos hmax
  have hpos := Nat.two_pow_pos maxBit
  rw [Nat.one_shiftLeft] at hlimit
  cases sign with
  | false =>
    rw [if_neg Bool.false_ne_true] at hlimit
    exact castSigned_of_lt (by omega)
  | true =>
    rw [if_pos rfl] at hlimit
    have hcast : castSigned 64 magnitude = magnitude ∨
        magnitude = 2 ^ 63 ∧ castSigned 64 magnitude = -2 ^ 63 := by
      rcases Nat.lt_or_ge magnitude (2 ^ 63) with hlt | hge
      · exact .inl (castSigned_of_lt hlt)
      · have heq : magnitude = 2 ^ 63 := by omega
        exact .inr ⟨heq, heq ▸ castSigned_min (by norm_num)⟩
    change wrappingNeg 64 (castSigned 64 magnitude) = -(magnitude : ℤ)
    unfold wrappingNeg
    rcases hcast with hcast | ⟨heq, hcast⟩
    · rw [hcast]
      exact Int.bmod_eq_of_le (by omega) (by omega)
    · rw [hcast, heq]
      decide

lemma toIntegerGeneric_converts (ha : a.isUnsupported = false) {maxBit : ℕ} (hbit : 1 ≤ maxBit)
    (hmax : maxBit ≤ 63) (rc : RoundingMode) (ef : ExceptionFlags) :
    ∃ r ef', a.toIntegerGeneric rc ef maxBit = some (r, ef') ∧
      Converts (Fits (maxBit + 1)) Eq (minValue (maxBit + 1)) rc a ef r ef' := by
  have hpow : (2 : ℤ) ^ maxBit = ((2 ^ maxBit : ℕ) : ℤ) := by push_cast; rfl
  have hindefinite : minValue 64 >>> (63 - maxBit) = minValue (maxBit + 1) := by
    have hsplit : (2 : ℤ) ^ 63 = 2 ^ maxBit * 2 ^ (63 - maxBit) := by
      rw [← pow_add]
      congr 1
      omega
    unfold minValue
    rw [Int.shiftRight_eq_div_pow, Nat.add_sub_cancel]
    change -(2 : ℤ) ^ 63 / _ = _
    rw [hsplit, ← neg_mul]
    push_cast
    exact Int.mul_ediv_cancel _ (pow_pos two_pos _).ne'
  unfold toIntegerGeneric
  rw [hindefinite, flagUnsupportedOperands_of_supported ha]
  simp only [Bool.false_eq_true, if_false]
  by_cases hspecial : (a.isNan || a.isInfinity) = true
  · rw [if_pos hspecial]
    exact ⟨_, _, rfl, converts_outside fun h =>
      not_finite_of_special (Bool.or_eq_true_iff.1 hspecial) h.1⟩
  rw [if_neg hspecial]
  have hfinite : a.Finite := by
    rw [Bool.or_eq_true, not_or, Bool.not_eq_true, Bool.not_eq_true] at hspecial
    exact ⟨⟨ha, hspecial.1⟩, hspecial.2⟩
  by_cases hzero : a.isZero = true
  · rw [if_pos hzero]
    have hround := round_of_isZero hzero rc
    refine ⟨_, _, rfl, converts_inside hfinite ?_ hround.symm (integerFlags_of_isZero hzero rc ef)⟩
    rw [hround]
    exact ⟨neg_nonpos.2 (pow_pos two_pos _).le, pow_pos two_pos _⟩
  rw [if_neg hzero]
  have hoperand := hfinite.cases.resolve_left hzero
  by_cases hlarge : (maxBit : ℤ) < a.trueExponent
  · rw [if_pos hlarge]
    refine ⟨_, _, rfl, converts_outside fun h => ?_⟩
    have hbig := @Operand.le_natAbs_round a hoperand (maxBit + 1) (by push_cast; omega) rc
    obtain ⟨hlow, hhigh⟩ := h.2
    rw [Nat.add_sub_cancel] at hlow hhigh
    rw [pow_succ] at hbig
    have := Nat.two_pow_pos maxBit
    omega
  rw [if_neg hlarge]
  obtain ⟨magnitude, hasFraction, roundUp, hmagnitude, hparts⟩ :=
    hoperand.bcdMagnitude (by omega) rc
  have hvalue := hparts.value
  unfold bcdMagnitude at hmagnitude
  by_cases hneg : a.trueExponent < 0
  · rw [if_pos hneg] at hmagnitude ⊢
    obtain ⟨rfl, rfl, rfl⟩ : _ ∧ _ ∧ _ := by simpa using hmagnitude
    have hflags := hparts.flags ef
    have hone : (2 : ℤ) ≤ 2 ^ maxBit := by
      calc (2 : ℤ) = 2 ^ 1 := (pow_one 2).symm
        _ ≤ 2 ^ maxBit := pow_le_pow_right₀ one_le_two hbit
    have hrange : Fits (maxBit + 1) (rc.round a.toReal) := by
      rw [hvalue]
      unfold Fits
      rw [Nat.add_sub_cancel]
      cases roundsToOne a.sign a.trueExponent a.significand.toNat rc <;> cases a.sign <;>
        constructor <;> simp [signed] <;> omega
    cases hup : roundsToOne a.sign a.trueExponent a.significand.toNat rc with
    | true =>
      rw [hup] at hvalue hflags
      rw [if_pos rfl]
      refine ⟨_, _, rfl, converts_inside hfinite hrange ?_ ?_⟩
      · rw [hvalue]
        cases a.sign <;> rfl
      · rw [ExceptionFlags.rounding, if_pos rfl, Bool.or_true] at hflags
        exact hflags
    | false =>
      rw [hup] at hvalue hflags
      rw [if_neg Bool.false_ne_true]
      refine ⟨_, _, rfl, converts_inside hfinite hrange ?_ ?_⟩
      · rw [hvalue]
        cases a.sign <;> rfl
      · rw [ExceptionFlags.rounding, if_pos rfl, Bool.or_false] at hflags
        exact hflags
  · rw [if_neg hneg] at hmagnitude ⊢
    rw [hmagnitude, Option.bind_eq_bind, Option.bind_some]
    dsimp only
    have hlimit : (if a.sign then 1 <<< maxBit else 1 <<< maxBit - 1) < magnitude ↔
        ¬ Fits (maxBit + 1) (rc.round a.toReal) := by
      have hpos := Nat.two_pow_pos maxBit
      rw [hvalue, Nat.one_shiftLeft]
      unfold Fits
      rw [Nat.add_sub_cancel, hpow]
      cases a.sign
      · change 2 ^ maxBit - 1 < magnitude ↔ ¬ (_ ≤ (magnitude : ℤ) ∧ (magnitude : ℤ) < _)
        omega
      · change 2 ^ maxBit < magnitude ↔ ¬ (_ ≤ -(magnitude : ℤ) ∧ -(magnitude : ℤ) < _)
        omega
    by_cases hover : (if a.sign then 1 <<< maxBit else 1 <<< maxBit - 1) < magnitude
    · rw [if_pos hover]
      exact ⟨_, _, rfl, converts_outside fun h => hlimit.1 hover h.2⟩
    · rw [if_neg hover]
      refine ⟨_, _, rfl, converts_inside hfinite (not_not.1 (mt hlimit.2 hover)) ?_
        (hparts.flags ef)⟩
      rw [hvalue]
      exact signed_magnitude hmax a.sign hover

lemma bmod_of_converts {maxBit : ℕ} {r : ℤ} {ef' : ExceptionFlags}
    (h : Converts (Fits (maxBit + 1)) Eq (minValue (maxBit + 1)) rc a ef r ef') :
    r.bmod (2 ^ (maxBit + 1)) = r := by
  have hfits : Fits (maxBit + 1) r := by
    by_cases hinside : a.Finite ∧ Fits (maxBit + 1) (rc.round a.toReal)
    · rw [(h.inside hinside.1 hinside.2).1]
      exact hinside.2
    · rw [(h.outside hinside).1]
      exact ⟨le_rfl, (neg_neg_of_pos (pow_pos two_pos _)).trans (pow_pos two_pos _)⟩
  obtain ⟨hlow, hhigh⟩ := hfits
  have hcast : (2 : ℤ) ^ maxBit = ((2 ^ maxBit : ℕ) : ℤ) := by push_cast; rfl
  rw [Nat.add_sub_cancel, hcast] at hlow hhigh
  rw [pow_succ]
  exact Int.bmod_eq_of_le (by push_cast; omega) (by push_cast; omega)

end Fp80

end Neetan.SoftFloat
