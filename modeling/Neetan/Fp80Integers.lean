import Neetan.Fp80Bcd

/-!
What the conversions to integers and to packed decimal images deliver.

An image is loaded as its integer, and stored back as itself, but for the one with a sign and no
digit other than zero: it is loaded as zero without a sign.
-/

namespace Neetan.SoftFloat

open MachineInt RealRounding

namespace Fp80

variable {a : Fp80} {rc : RoundingMode} {ef : ExceptionFlags} {bytes : Vector (BitVec 8) 10}

/-! ### Loading -/

lemma fromI64_value {v : ℤ} (hv : Fits 64 v) : (fromI64 v).Finite ∧ (fromI64 v).toReal = v := by
  obtain ⟨hlow, hhigh⟩ := hv
  change -2 ^ 63 ≤ v at hlow
  change v < 2 ^ 63 at hhigh
  unfold fromI64
  split_ifs with hzero
  · rw [hzero, Int.cast_zero]
    exact ⟨finite_of_isZero (by decide), toReal_of_isZero (by decide)⟩
  generalize hsign : decide (v < 0) = sign
  have hmagnitude : (if sign then ((-v) % 2 ^ 64).toNat else v.toNat) = v.natAbs := by
    cases sign with
    | false =>
      rw [if_neg Bool.false_ne_true]
      have := of_decide_eq_false hsign
      omega
    | true =>
      rw [if_pos rfl]
      have := of_decide_eq_true hsign
      omega
  dsimp only
  rw [hmagnitude, Nat.shiftLeft_eq]
  have hpos : 0 < v.natAbs := Int.natAbs_pos.2 hzero
  have hlt : v.natAbs < 2 ^ 64 := by omega
  obtain ⟨hbit, hwide⟩ := shl_leadingZeros hpos hlt
  have hleading := leadingZeros_lt hpos hlt
  generalize leadingZeros 64 v.natAbs = leading at *
  have hpacked : (⟨BitVec.ofNat 64 (v.natAbs * 2 ^ leading),
      if sign then 0x8000 ||| BitVec.ofNat 16 (16383 + 63 - leading)
        else BitVec.ofNat 16 (16383 + 63 - leading)⟩ : Fp80) =
      packed sign (16383 + 63 - leading : ℕ) (v.natAbs * 2 ^ leading) 64 := by
    unfold packed signBit fromBits
    rw [BitVec.ofInt_natCast, Nat.sub_self, BitVec.shiftLeft_zero]
    cases sign
    · exact congrArg (Fp80.mk _) BitVec.zero_or.symm
    · rfl
  rw [hpacked]
  have hexponent := @packed_exponent sign (16383 + 63 - leading) (v.natAbs * 2 ^ leading) 64
    (by omega)
  have hsignificand := @packed_significand sign (16383 + 63 - leading) (v.natAbs * 2 ^ leading) 64
    le_rfl hwide
  rw [Nat.sub_self, pow_zero, Nat.mul_one] at hsignificand
  refine ⟨finite_of_bits (by omega) (hsignificand.ge.trans' hbit) (by omega), ?_⟩
  have hsize : (packed sign (16383 + 63 - leading : ℕ) (v.natAbs * 2 ^ leading) 64).magnitude =
      v.natAbs := by
    rw [packed_magnitude (by omega) le_rfl hwide, max_eq_left (by omega), Nat.cast_mul,
      Nat.cast_pow, Nat.cast_ofNat, mul_assoc, ← zpow_natCast, ← zpow_add₀ two_ne_zero]
    unfold bias
    rw [show (leading : ℤ) + (((16383 + 63 - leading : ℕ) : ℤ) - 16383 + 1 - ((64 : ℕ) : ℤ)) = 0 by
      omega, zpow_zero, mul_one]
  have hvalue : signed sign (v.natAbs : ℤ) = v := by
    cases sign with
    | false =>
      have := of_decide_eq_false hsign
      change (v.natAbs : ℤ) = v
      omega
    | true =>
      have := of_decide_eq_true hsign
      change -(v.natAbs : ℤ) = v
      omega
  unfold toReal
  rw [packed_sign (by omega), hsize, ← Int.cast_natCast, ← signed_cast, hvalue]

lemma bcdDigits_eq (h : BcdImage bytes) {k value : ℕ} (hk : k ≤ 9)
    (hbound : (value + 1) * 100 ^ k ≤ 10 ^ 18) :
    bcdDigits bytes value k =
      some (Nat.ofDigits 100 ((bcdPairs bytes).take k) + 100 ^ k * value) := by
  induction k generalizing value with
  | zero => simp [bcdDigits]
  | succ k ih =>
    have hlength := length_bcdPairs bytes
    obtain ⟨byte, hbyte⟩ : ∃ byte, bytes.toList.getD k 0 = byte := ⟨_, rfl⟩
    have hpair : (bcdPairs bytes)[k] = bytePair byte := by
      rw [← hbyte]
      unfold bcdPairs
      rw [List.getElem_map, List.getElem_take, List.getD_eq_getElem _ _ (by simp; omega)]
    have hlt : bytePair byte < 100 := by
      rw [← hpair]
      exact h.pair_lt _ (List.getElem_mem _)
    have hnext : (value * 100 + bytePair byte + 1) * 100 ^ k ≤ 10 ^ 18 := by
      calc (value * 100 + bytePair byte + 1) * 100 ^ k ≤ (value + 1) * 100 * 100 ^ k :=
            Nat.mul_le_mul_right _ (by omega)
        _ = (value + 1) * 100 ^ (k + 1) := by rw [pow_succ', Nat.mul_assoc]
        _ ≤ 10 ^ 18 := hbound
    have hsmall : value * 100 + bytePair byte + 1 ≤ 10 ^ 18 :=
      (Nat.le_mul_of_pos_right _ (pow_pos (by norm_num) k)).trans hnext
    have hsteps : bcdDigits bytes value (k + 1) =
        bcdDigits bytes (value * 100 + bytePair byte) k := by
      unfold bytePair at hsmall ⊢
      rw [bcdDigits, hbyte]
      simp only [checkedMul, checkedAdd, Option.bind_eq_bind]
      rw [if_pos (by omega), Option.bind_some, if_pos (by omega), Option.bind_some,
        if_pos (by omega), Option.bind_some, Nat.add_assoc]
    rw [hsteps, ih (by omega) hnext, List.take_succ_eq_append_getElem (by omega), hpair,
      Nat.ofDigits_append, Nat.ofDigits_singleton, List.length_take, hlength,
      min_eq_left (by omega), pow_succ]
    congr 1
    ring

lemma fromBcd_value (h : BcdImage bytes) (ef : ExceptionFlags) :
    ∃ r, fromBcd bytes ef = some (r, ef) ∧ r.Finite ∧ r.toReal = bcdInteger bytes := by
  have hdigits := @bcdDigits_eq bytes h 9 0 (le_refl 9) (by norm_num)
  rw [Nat.mul_zero, Nat.add_zero, List.take_of_length_le (length_bcdPairs bytes).le] at hdigits
  have hlt := h.size_lt
  have hsign : decide (bytes[9] &&& 0x80 ≠ 0) = decide (bytes[9] = 0x80) := by
    rcases h.sign with hs | hs <;> rw [hs] <;> decide
  unfold fromBcd bcdInteger
  rw [hdigits, Option.bind_eq_bind, Option.bind_some, hsign]
  change ∃ r, (if bcdSize bytes = 0 then _ else _) = _ ∧ _
  by_cases hzero : bcdSize bytes = 0
  · rw [if_pos hzero]
    refine ⟨zero, rfl, finite_of_isZero (by decide), ?_⟩
    rw [hzero, toReal_of_isZero (by decide)]
    cases decide (bytes[9] = 0x80) <;> simp [signed]
  · rw [if_neg hzero]
    have hcast : castSigned 64 (Nat.ofDigits 100 (bcdPairs bytes)) = bcdSize bytes :=
      castSigned_of_lt (show bcdSize bytes < 2 ^ 63 by omega)
    rw [hcast]
    obtain ⟨hfinite, hvalue⟩ := @fromI64_value (bcdSize bytes : ℤ) ⟨by omega, by omega⟩
    rw [Int.cast_natCast] at hvalue
    cases decide (bytes[9] = 0x80) with
    | false =>
      refine ⟨_, rfl, hfinite, hvalue.trans ?_⟩
      exact (Int.cast_natCast _).symm
    | true =>
      have hoperand : (fromI64 (bcdSize bytes)).Operand := hfinite.cases.resolve_left fun hz => by
        rw [toReal_of_isZero hz] at hvalue
        exact hzero (Nat.cast_eq_zero.1 hvalue.symm)
      refine ⟨_, rfl, hoperand.negate.finite, ?_⟩
      rw [if_pos rfl, toReal_negate, hvalue]
      change -((bcdSize bytes : ℕ) : ℝ) = ((-(bcdSize bytes : ℤ) : ℤ) : ℝ)
      rw [Int.cast_neg, Int.cast_natCast]

/-! ### Storing -/

/-- The integers of eighteen digits. -/
def FitsBcd (n : ℤ) : Prop := n.natAbs < 10 ^ 18

lemma standsFor_zero : StandsFor (Vector.replicate 10 0) 0 := by
  obtain ⟨himage, hvalue⟩ := @bcdBytes_image 0 (by norm_num) false
  have hbytes : bcdBytes 0 0 (Vector.replicate 10 0) = Vector.replicate 10 0 := by
    rw [bcdBytes, dif_neg (by simp)]
  rw [if_neg Bool.false_ne_true, hbytes] at himage hvalue
  exact ⟨himage, hvalue, fun hsign => absurd hsign (by decide)⟩

lemma toBcd_converts (ha : a.isUnsupported = false) (rc : RoundingMode) (ef : ExceptionFlags) :
    ∃ r ef', a.toBcd rc ef = some (r, ef') ∧
      Converts FitsBcd StandsFor indefiniteBcd rc a ef r ef' := by
  unfold toBcd
  rw [flagUnsupportedOperands_of_supported ha]
  simp only [Bool.false_eq_true, if_false]
  by_cases hspecial : (a.isNan || a.isInfinity) = true
  · rw [if_pos hspecial]
    exact ⟨_, _, rfl, converts_outside fun h =>
      not_finite_of_special (Bool.or_eq_true_iff.1 hspecial) h.1⟩
  rw [if_neg hspecial]
  have hfinite : a.Finite := by
    rw [Bool.or_eq_true, not_or, Bool.not_eq_true, Bool.not_eq_true] at hspecial
    exact ⟨⟨ha, hspecial.1⟩, hspecial.2⟩
  by_cases hzero : a.isZero = true
  · rw [if_pos hzero]
    have hround := round_of_isZero hzero rc
    refine ⟨_, _, rfl, converts_inside hfinite ?_ ?_ (integerFlags_of_isZero hzero rc ef)⟩
    · rw [hround]
      exact pow_pos (by norm_num) 18
    · rw [hround]
      exact standsFor_zero
  rw [if_neg hzero]
  have hoperand := hfinite.cases.resolve_left hzero
  by_cases hlarge : 63 < a.trueExponent
  · rw [if_pos hlarge]
    refine ⟨_, _, rfl, converts_outside fun h => ?_⟩
    have hbig := @Operand.le_natAbs_round a hoperand 64 (by push_cast; omega) rc
    have hrange : (rc.round a.toReal).natAbs < 10 ^ 18 := h.2
    omega
  rw [if_neg hlarge]
  obtain ⟨magnitude, hasFraction, roundUp, hmagnitude, hparts⟩ :=
    hoperand.bcdMagnitude (not_lt.1 hlarge) rc
  have hvalue := hparts.value
  have habs : (rc.round a.toReal).natAbs = magnitude := by
    rw [hvalue]
    cases a.sign
    · exact Int.natAbs_natCast magnitude
    · exact (Int.natAbs_neg _).trans (Int.natAbs_natCast magnitude)
  rw [hmagnitude, Option.bind_eq_bind, Option.bind_some]
  dsimp only
  by_cases hmax : maxBcd < magnitude
  · rw [if_pos hmax]
    refine ⟨_, _, rfl, converts_outside fun h => ?_⟩
    have hrange : (rc.round a.toReal).natAbs < 10 ^ 18 := h.2
    unfold maxBcd at hmax
    omega
  rw [if_neg hmax]
  have hrange : (rc.round a.toReal).natAbs < 10 ^ 18 := by
    unfold maxBcd at hmax
    omega
  by_cases hnone : magnitude = 0
  · rw [if_pos hnone]
    refine ⟨_, _, rfl, converts_inside hfinite hrange ?_ (hparts.flags ef)⟩
    rw [Int.natAbs_eq_zero.1 (habs.trans hnone)]
    exact standsFor_zero
  · rw [if_neg hnone]
    refine ⟨_, _, rfl, converts_inside hfinite hrange ?_ (hparts.flags ef)⟩
    rw [hvalue]
    exact standsFor_bytes (habs ▸ hrange) hnone a.sign

lemma integerFlags_exact {x : ℝ} {n : ℤ} {ef ef' : ExceptionFlags} (h : IntegerFlags rc x ef ef')
    (hx : x = n) (hround : rc.round x = n) : ef' = ef := by
  have hprecision := h.precision
  have hup := h.roundedUp
  rw [hround, hx, ne_eq, eq_self_iff_true, not_true, or_false] at hprecision
  rw [hround, hx, or_iff_left (lt_irrefl _)] at hup
  rw [h.others, Bool.eq_iff_iff.2 hprecision, Bool.eq_iff_iff.2 hup]

lemma round_intCast (n : ℤ) (rc : RoundingMode) : rc.round (n : ℝ) = n := by
  cases rc with
  | nearestEven => exact roundEven_intCast n
  | down => exact Int.floor_intCast n
  | up => exact Int.ceil_intCast n
  | zero =>
    change truncate (n : ℝ) = n
    unfold truncate
    rw [Int.ceil_intCast, Int.floor_intCast, ite_self]

lemma toBcd_fromBcd (h : BcdImage bytes) (hne : bytes ≠ negativeZeroImage) (rc : RoundingMode)
    (ef : ExceptionFlags) :
    ∃ r, fromBcd bytes ef = some (r, ef) ∧ r.toBcd rc ef = some (bytes, ef) := by
  obtain ⟨r, hload, hfinite, hvalue⟩ := fromBcd_value h ef
  obtain ⟨stored, ef', hstore, hconverts⟩ := toBcd_converts hfinite.1.1 rc ef
  have hround : rc.round r.toReal = bcdInteger bytes := by rw [hvalue, round_intCast]
  have hrange : FitsBcd (bcdInteger bytes) := by
    have hlt := h.size_lt
    unfold FitsBcd bcdInteger
    cases decide (bytes[9] = 0x80)
    · change ((bcdSize bytes : ℕ) : ℤ).natAbs < 10 ^ 18
      omega
    · change (-((bcdSize bytes : ℕ) : ℤ)).natAbs < 10 ^ 18
      omega
  obtain ⟨hstands, hflags⟩ := hconverts.inside hfinite (by rw [hround]; exact hrange)
  rw [hround] at hstands
  have hsame : StandsFor bytes (bcdInteger bytes) := ⟨h, rfl, fun hs => bcdInteger_ne_zero h hs hne⟩
  rw [hstands.eq hsame, integerFlags_exact hflags hvalue hround] at hstore
  exact ⟨r, hload, hstore⟩

lemma fromBcd_negativeZeroImage (rc : RoundingMode) (ef : ExceptionFlags) :
    fromBcd negativeZeroImage ef = some (zero, ef) ∧
      zero.toBcd rc ef = some (Vector.replicate 10 0, ef) := by
  have hdigits : bcdDigits negativeZeroImage 0 9 = some 0 := by decide
  constructor
  · unfold fromBcd
    rw [hdigits]
    rfl
  · unfold toBcd
    rw [flagUnsupportedOperands_of_supported (by decide)]
    rfl

/-! ### Integers and Images -/

/-- What the conversions of a number to an integer deliver. -/
structure DeliversIntegers (a : Fp80) (rc : RoundingMode) (ef : ExceptionFlags) : Prop where
  toI16 : ∃ r ef', a.toI16 rc ef = some (r, ef') ∧
    Converts (Fits 16) Eq (minValue 16) rc a ef r ef'
  toI32 : ∃ r ef', a.toI32 rc ef = some (r, ef') ∧
    Converts (Fits 32) Eq (minValue 32) rc a ef r ef'
  toI64 : ∃ r ef', a.toI64 rc ef = some (r, ef') ∧
    Converts (Fits 64) Eq (minValue 64) rc a ef r ef'
  toBcd : ∃ r ef', a.toBcd rc ef = some (r, ef') ∧
    Converts FitsBcd StandsFor indefiniteBcd rc a ef r ef'
  roundToInt : a.Finite → RoundsToInt rc a ef (a.roundToInt rc ef).1 (a.roundToInt rc ef).2
  roundToInt_infinity : a.isInfinity = true → a.roundToInt rc ef = (a, ef)

/-- An image is loaded and stored back as itself without an exception. -/
def Restored (bytes : Vector (BitVec 8) 10) (rc : RoundingMode) (ef : ExceptionFlags) : Prop :=
  ∃ r, fromBcd bytes ef = some (r, ef) ∧ r.toBcd rc ef = some (bytes, ef)

lemma restored_iff (h : BcdImage bytes) (rc : RoundingMode) (ef : ExceptionFlags) :
    Restored bytes rc ef ↔ bytes ≠ negativeZeroImage := by
  refine ⟨?_, fun hne => toBcd_fromBcd h hne rc ef⟩
  rintro ⟨r, hload, hstore⟩ rfl
  obtain ⟨hload', hstore'⟩ := fromBcd_negativeZeroImage rc ef
  obtain rfl : zero = r := (Prod.mk.inj (Option.some.inj (hload'.symm.trans hload))).1
  have hbytes := (Prod.mk.inj (Option.some.inj (hstore'.symm.trans hstore))).1
  exact absurd hbytes (by decide)

lemma roundToInt_of_isInfinity (h : a.isInfinity = true) (rc : RoundingMode)
    (ef : ExceptionFlags) : a.roundToInt rc ef = (a, ef) := by
  obtain ⟨hsupported, hnan⟩ := numeric_of_isInfinity h
  obtain ⟨hexp, hsig⟩ := isInfinity_iff.1 h
  have hsignaling : a.isSignalingNan = false := by
    unfold isSignalingNan fraction
    rw [hsig, decide_eq_false (show ¬ (0x8000000000000000 &&& 0x7FFFFFFFFFFFFFFF : BitVec 64) ≠ 0 by
      decide), Bool.and_false]
  have hquiet : a.isQuietNan = false := by
    unfold isQuietNan
    rw [hsig, decide_eq_false (show ¬ (0x8000000000000000 &&& 0x4000000000000000 : BitVec 64) ≠ 0 by
      decide), Bool.and_false]
  unfold roundToInt
  rw [flagUnsupportedOperands_of_supported hsupported]
  simp only [hsignaling, hquiet, h, Bool.true_or, Bool.false_eq_true, if_false, if_true]

lemma deliversIntegers (ha : a.isUnsupported = false) (rc : RoundingMode) (ef : ExceptionFlags) :
    DeliversIntegers a rc ef := by
  have hcast : ∀ {maxBit : ℕ}, 1 ≤ maxBit → maxBit ≤ 63 → ∃ r ef',
      (a.toIntegerGeneric rc ef maxBit).bind
          (fun converted => some (converted.1.bmod (2 ^ (maxBit + 1)), converted.2)) =
        some (r, ef') ∧ Converts (Fits (maxBit + 1)) Eq (minValue (maxBit + 1)) rc a ef r ef' := by
    intro maxBit hbit hmax
    obtain ⟨r, ef', hresult, hconverts⟩ := toIntegerGeneric_converts ha hbit hmax rc ef
    refine ⟨r, ef', ?_, hconverts⟩
    rw [hresult, Option.bind_some]
    exact congrArg (fun n => some (n, ef')) (bmod_of_converts hconverts)
  exact ⟨@hcast 15 (by norm_num) (by norm_num), @hcast 31 (by norm_num) (by norm_num),
    toIntegerGeneric_converts ha (by norm_num) le_rfl rc ef, toBcd_converts ha rc ef,
    fun hfinite => roundToInt_rounds hfinite rc ef,
    fun hinfinity => roundToInt_of_isInfinity hinfinity rc ef⟩

/-- **A conversion delivers the exact value rounded to an integer in range, and an image is stored
as it was loaded exactly if it is not that of a zero with a sign.** -/
theorem integers_delivered (rc : RoundingMode) (ef : ExceptionFlags) :
    (∀ a : Fp80, a.isUnsupported = false → DeliversIntegers a rc ef) ∧
      ∀ bytes, BcdImage bytes → (Restored bytes rc ef ↔ bytes ≠ negativeZeroImage) :=
  ⟨fun _ ha => deliversIntegers ha rc ef, fun _ h => restored_iff h rc ef⟩

/-- Five halves are rounded to an even integer, and the image of `-12` is stored as it was
loaded. -/
theorem integers_delivered_fiveHalves :
    DeliversIntegers (fromBits 0x4000 0xA000000000000000) .nearestEven .default ∧
      Restored (.ofFn ![0x12, 0, 0, 0, 0, 0, 0, 0, 0, 0x80]) .nearestEven .default := by
  have himage : BcdImage (.ofFn ![0x12, 0, 0, 0, 0, 0, 0, 0, 0, 0x80]) := by
    refine ⟨?_, .inr rfl⟩
    unfold IsPacked
    decide
  obtain ⟨hdelivers, hrestored⟩ := integers_delivered .nearestEven .default
  exact ⟨hdelivers _ (by decide), (hrestored _ himage).2 (by decide)⟩

/-- An image with a sign and no digit other than zero loses its sign. -/
theorem negativeZeroImage_not_restored :
    BcdImage negativeZeroImage ∧ ¬ Restored negativeZeroImage .nearestEven .default := by
  have himage : BcdImage negativeZeroImage := by
    refine ⟨?_, .inr rfl⟩
    unfold IsPacked
    decide
  refine ⟨himage, ?_⟩
  rintro ⟨r, hload, hstore⟩
  obtain ⟨hload', hstore'⟩ := fromBcd_negativeZeroImage .nearestEven .default
  obtain rfl : zero = r := (Prod.mk.inj (Option.some.inj (hload'.symm.trans hload))).1
  exact absurd (Prod.mk.inj (Option.some.inj (hstore'.symm.trans hstore))).1 (by decide)

end Fp80

end Neetan.SoftFloat
