import Neetan.Fp80Operands
import Neetan.Fp80Differences
import Neetan.Fp80Integers
import Neetan.Fp80Response

/-!
Scaling by a power of two, and the separation of exponent and significand.

The scale is an integer of 64 bits, clamped so that the sum of the exponents fits 32 bits. Scaling
delivers the exact product, whatever the scale, and puts together what was separated: no clamp
shows, since past it all exponents are so far out of range that they give one result.
-/

namespace Neetan.SoftFloat

open MachineInt RealRounding

/-- The magnitude a scale is clamped to. -/
def scaleLimit : ℤ := 0x100000

namespace Fp80

/-- The value truncated toward zero; it saturates. -/
def truncateToInteger (value : Fp80) : ℤ :=
  if value.isZero then 0
  else
    let exp := value.trueExponent
    if exp < 0 then 0
    else if 62 ≤ exp then (if value.sign then -(2 ^ 62) else 2 ^ 62)
    else
      let integer := value.significand.toNat >>> (63 - exp).toNat
      if value.sign then -(integer : ℤ) else integer

/-- A clamped integer. -/
def clamp (low high value : ℤ) : ℤ :=
  if value < low then low else if high < value then high else value

def scale (a s : Fp80) (rc : RoundingMode) (ef : ExceptionFlags) :
    Option (Fp80 × ExceptionFlags) := do
  let (unsupported, ef) := flagUnsupportedOperands [a, s] ef
  if unsupported then return (indefinite, ef)
  else if a.isNan || s.isNan then return propagateNan a s ef
  else
    let ef := s.flagDenormal (a.flagDenormal ef)
    if a.isInfinity then
      if s.isInfinity && s.sign then return (indefinite, { ef with invalid := true })
      else return (a, ef)
    else if a.isZero then
      if s.isInfinity && !s.sign then return (indefinite, { ef with invalid := true })
      else return (a, ef)
    else if s.isInfinity then
      if s.sign then return (if a.sign then negZero else zero, ef)
      else return (if a.sign then negInfinity else infinity, ef)
    else
      let scaleInt := clamp (-scaleLimit) scaleLimit s.truncateToInteger
      let exponent := a.trueExponent + scaleInt
      let significand ← checkedShl 128 a.significand.toNat 64
      roundAndPack a.sign (exponent.bmod (2 ^ 32)) significand rc .extended ef

def extract (a : Fp80) (ef : ExceptionFlags) : (Fp80 × Fp80) × ExceptionFlags :=
  let (unsupported, ef) := flagUnsupportedOperands [a] ef
  if unsupported then ((indefinite, indefinite), ef)
  else if a.isNan then
    let ef := if a.isSignalingNan then { ef with invalid := true } else ef
    let nan := if a.isSignalingNan then a.quieten else a
    ((nan, nan), ef)
  else if a.isInfinity then ((a, infinity), ef)
  else if a.isZero then ((a, negInfinity), { ef with zeroDivide := true })
  else
    let ef := a.flagDenormal ef
    let (significand, exponent) :=
      if a.exponent = 0 && a.significand ≠ 0 then
        let (normalized, shift) := normalizeSignificand a.significand.toNat
        (BitVec.ofNat 64 normalized, a.trueExponent - shift)
      else (a.significand, a.trueExponent)
    let signExponent := if a.sign then 0xBFFF else 0x3FFF
    ((fromBits signExponent significand, fromI64 exponent), ef)

variable {a b s : Fp80}

/-! ### The Truncated Scale -/

lemma truncate_toReal (a : Fp80) : truncate a.toReal = signed a.sign ⌊a.magnitude⌋ :=
  round_signed .zero a.sign a.magnitude_nonneg

lemma truncateToInteger_of_lt (hs : s.Operand) (h : s.trueExponent < 62) :
    s.truncateToInteger = truncate s.toReal := by
  rw [truncate_toReal]
  unfold truncateToInteger
  rw [hs.plain.2.2.2, if_neg Bool.false_ne_true]
  dsimp only
  by_cases hneg : s.trueExponent < 0
  · have hlt : s.magnitude < 1 := by
      have hsig : (s.significand.toNat : ℝ) < 2 ^ 64 := by exact_mod_cast s.significand.isLt
      have hpow : (2 : ℝ) ^ (s.trueExponent - 63) ≤ 2 ^ (-64 : ℤ) :=
        zpow_le_zpow_right₀ one_le_two (by omega)
      calc s.magnitude < 2 ^ 64 * 2 ^ (s.trueExponent - 63) :=
            mul_lt_mul_of_pos_right hsig (zpow_pos two_pos _)
        _ ≤ 2 ^ 64 * 2 ^ (-64 : ℤ) := mul_le_mul_of_nonneg_left hpow (pow_pos two_pos _).le
        _ = 1 := by norm_num
    rw [if_pos hneg, Int.floor_eq_zero_iff.mpr ⟨s.magnitude_nonneg, hlt⟩]
    cases s.sign <;> rfl
  · rw [if_neg hneg, if_neg (not_le.mpr h), magnitude_eq_div (by omega),
      (integer_split s.significand.toNat (63 - s.trueExponent).toNat).floor,
      Nat.shiftRight_eq_div_pow]
    rfl

lemma truncate_of_le (hs : s.Operand) (h : 62 ≤ s.trueExponent) :
    ∃ n : ℤ, 2 ^ 62 ≤ n ∧ truncate s.toReal = signed s.sign n := by
  refine ⟨_, ?_, s.truncate_toReal⟩
  have hexp : s.exponent ≠ 0 := fun hzero => by
    unfold trueExponent bias at h
    rw [if_pos hzero] at h
    omega
  have hsig : (2 : ℝ) ^ 63 ≤ s.significand.toNat := by exact_mod_cast hs.jBit hexp
  rw [Int.le_floor, Int.cast_pow, Int.cast_ofNat]
  calc (2 : ℝ) ^ 62 = 2 ^ 63 * 2 ^ (-1 : ℤ) := by norm_num
    _ ≤ 2 ^ 63 * 2 ^ (s.trueExponent - 63) :=
      mul_le_mul_of_nonneg_left (zpow_le_zpow_right₀ one_le_two (by omega)) (pow_pos two_pos _).le
    _ ≤ s.magnitude := mul_le_mul_of_nonneg_right hsig (zpow_pos two_pos _).le

lemma clamp_truncateToInteger (hs : s.Finite) :
    clamp (-scaleLimit) scaleLimit s.truncateToInteger =
      clamp (-scaleLimit) scaleLimit (truncate s.toReal) := by
  rcases hs.cases with hzero | hs
  · have htruncate : truncate s.toReal = 0 := by
      rw [toReal_of_isZero hzero]
      exact_mod_cast round_intCast 0 .zero
    unfold truncateToInteger
    rw [if_pos hzero, htruncate]
  · by_cases h : s.trueExponent < 62
    · rw [truncateToInteger_of_lt hs h]
    · obtain ⟨n, hn, htruncate⟩ := truncate_of_le hs (not_lt.mp h)
      unfold truncateToInteger clamp scaleLimit
      rw [hs.plain.2.2.2, htruncate, if_neg Bool.false_ne_true]
      dsimp only
      rw [if_neg (by omega : ¬ s.trueExponent < 0), if_pos (not_lt.mp h)]
      cases s.sign
      · have hvalue : signed false n = n := rfl
        rw [hvalue, if_neg Bool.false_ne_true, if_neg (by norm_num), if_pos (by norm_num),
          if_neg (by omega), if_pos (by omega)]
      · have hvalue : signed true n = -n := rfl
        rw [hvalue, if_pos rfl, if_pos (by norm_num), if_pos (by omega)]

/-! ### Scaling -/

lemma Operand.trueExponent_bounds (ha : a.Operand) :
    leastExponent ≤ a.trueExponent ∧ a.trueExponent ≤ bias := by
  have hlt := ha.exponent_lt
  unfold leastExponent trueExponent bias
  split_ifs <;> omega

lemma roundAndPack_clamp {sign : Bool} {e t : ℤ} {n : ℕ} {rc : RoundingMode} {pc : Precision}
    {ef : ExceptionFlags} (hn : n < 2 ^ 128) (hlow : leastExponent ≤ e) (hhigh : e ≤ bias) :
    roundAndPack sign ((e + clamp (-scaleLimit) scaleLimit t).bmod (2 ^ 32)) n rc pc ef =
      roundAndPack sign (e + t) n rc pc ef := by
  unfold leastExponent bias at hlow
  unfold bias at hhigh
  have hrange : -scaleLimit ≤ clamp (-scaleLimit) scaleLimit t ∧
      clamp (-scaleLimit) scaleLimit t ≤ scaleLimit := by
    unfold clamp scaleLimit
    split_ifs <;> omega
  unfold scaleLimit at hrange
  have hcast : (e + clamp (-scaleLimit) scaleLimit t).bmod (2 ^ 32) =
      e + clamp (-scaleLimit) scaleLimit t := by
    unfold scaleLimit
    refine Int.bmod_eq_of_le ?_ ?_ <;> norm_num <;> omega
  rw [hcast]
  by_cases hbelow : t < -scaleLimit
  · rw [clamp, if_pos hbelow]
    unfold scaleLimit at hbelow ⊢
    exact roundAndPack_far hn (.inr ⟨by omega, by omega⟩)
  · by_cases habove : scaleLimit < t
    · rw [clamp, if_neg hbelow, if_pos habove]
      unfold scaleLimit at habove ⊢
      exact roundAndPack_far hn (.inl ⟨by omega, by omega⟩)
    · rw [clamp, if_neg hbelow, if_neg habove]

/-- **Scaling delivers the exact product.** -/
theorem scale_delivers (ha : a.Operand) (hs : s.Finite) (rc : RoundingMode)
    (ef : ExceptionFlags) : ∃ r ef', a.scale s rc ef = some (r, ef') ∧
      Delivers rc .extended (a.toReal * 2 ^ truncate s.toReal)
        (s.flagDenormal (a.flagDenormal ef)) r ef' ∧
      Signals rc .extended (a.toReal * 2 ^ truncate s.toReal)
        (s.flagDenormal (a.flagDenormal ef)) ef' := by
  obtain ⟨hsupported, hnan, hinfinity, hzero⟩ := ha.plain
  obtain ⟨⟨hsupported', hnan'⟩, hinfinity'⟩ := hs
  have hpos := ha.significand_pos
  have hlt := a.significand.isLt
  have hwide := widened_lt hlt
  obtain ⟨hlow, hhigh⟩ := ha.trueExponent_bounds
  unfold scale
  rw [flagUnsupportedOperands_none hsupported hsupported', hnan, hnan']
  dsimp only
  rw [if_neg Bool.false_ne_true, Bool.or_false, if_neg Bool.false_ne_true, hinfinity,
    if_neg Bool.false_ne_true, hzero, if_neg Bool.false_ne_true, hinfinity',
    if_neg Bool.false_ne_true, checkedShl_of_lt (by norm_num) hwide, Option.bind_eq_bind,
    Option.bind_some, clamp_truncateToInteger ⟨⟨hsupported', hnan'⟩, hinfinity'⟩,
    roundAndPack_clamp hwide hlow hhigh, toReal_scaled]
  exact roundAndPack_signals a.sign (Nat.mul_pos hpos (Nat.two_pow_pos 64)) hwide rc _ _

/-! ### Exact Values -/

lemma roundAt_multiple {x : ℝ} {n e f : ℤ} (hx : x = n * 2 ^ f) (hle : e ≤ f)
    (rc : RoundingMode) : roundAt rc.round e x = x := by
  obtain ⟨d, hd⟩ := Int.eq_ofNat_of_zero_le (sub_nonneg.mpr hle)
  have hunits : x / 2 ^ e = ((n * 2 ^ d : ℤ) : ℝ) := by
    rw [hx, Int.cast_mul, Int.cast_pow, Int.cast_ofNat, mul_div_assoc, ← zpow_sub₀ two_ne_zero,
      hd, zpow_natCast]
  unfold roundAt
  rw [hunits, round_intCast, ← hunits, div_mul_cancel₀ _ (zpow_pos two_pos _).ne']

lemma abs_toReal (a : Fp80) : |a.toReal| = a.magnitude := abs_signed a.sign a.magnitude_nonneg

lemma Operand.delivered_self (ha : a.Operand) (rc : RoundingMode) :
    delivered rc .extended a.toReal = (a.toReal : EReal) := by
  obtain ⟨hlow, hhigh⟩ := ha.trueExponent_bounds
  have hpos : (0 : ℝ) < a.significand.toNat := by exact_mod_cast ha.significand_pos
  have hsig : (a.significand.toNat : ℝ) + 1 ≤ 2 ^ 64 := by
    have hnat : a.significand.toNat + 1 ≤ 2 ^ 64 := a.significand.isLt
    exact_mod_cast hnat
  have hmultiple : a.toReal =
      ((signed a.sign (a.significand.toNat : ℤ) : ℤ) : ℝ) * 2 ^ (a.trueExponent - 63) := by
    rw [signed_cast, signed_mul, Int.cast_natCast]
    rfl
  have hlog : Int.log 2 |a.toReal| ≤ a.trueExponent := by
    have hlt : |a.toReal| < 2 ^ (a.trueExponent + 1) := by
      rw [abs_toReal]
      calc a.magnitude < 2 ^ 64 * 2 ^ (a.trueExponent - 63) :=
            mul_lt_mul_of_pos_right (by linarith) (zpow_pos two_pos _)
        _ = 2 ^ (a.trueExponent + 1) := by
          rw [← zpow_natCast, ← zpow_add₀ two_ne_zero]
          congr 1
          ring
    have hpos' : 0 < |a.toReal| := by
      rw [abs_toReal]
      exact mul_pos hpos (zpow_pos two_pos _)
    have := (Int.lt_zpow_iff_log_lt (by norm_num : 1 < 2) hpos').mp (by exact_mod_cast hlt)
    omega
  have hunbounded : unboundedResult rc .extended a.toReal = a.toReal := by
    unfold unboundedResult roundUnbounded lastPlace
    refine roundAt_multiple hmultiple ?_ rc
    change Int.log 2 |a.toReal| + 1 - 64 ≤ _
    omega
  have hover : ¬ Overflows rc .extended a.toReal := by
    unfold Overflows
    rw [hunbounded, abs_toReal, not_lt]
    change a.magnitude ≤ (2 ^ 64 - 1) * 2 ^ (bias + 1 - 64 : ℤ)
    refine mul_le_mul (by linarith) (zpow_le_zpow_right₀ one_le_two (by omega))
      (zpow_pos two_pos _).le (by linarith)
  unfold delivered
  rw [if_neg hover, EReal.coe_eq_coe_iff]
  unfold roundGradual lastPlace
  refine roundAt_multiple hmultiple ?_ rc
  change max (Int.log 2 |a.toReal| + 1 - 64) (leastExponent + 1 - 64) ≤ _
  omega

/-! ### One Encoding for a Value -/

lemma Canonical.numeric (ha : a.Canonical) : a.Numeric := by
  rcases ha with hzero | hdenormal | hnormal | hinfinity
  · exact numeric_of_isZero hzero
  · exact Operand.numeric (.inr (.inl hdenormal))
  · exact Operand.numeric (.inl hnormal)
  · exact numeric_of_isInfinity hinfinity

lemma Canonical.significand_lt (ha : a.Canonical) (hexp : a.exponent = 0) :
    a.significand.toNat < 2 ^ 63 := by
  rcases ha with hzero | hdenormal | hnormal | hinfinity
  · rw [(isZero_iff.mp hzero).2]
    decide
  · unfold isDenormal at hdenormal
    rw [jBit_eq] at hdenormal
    simp only [Bool.and_eq_true, Bool.not_eq_true', decide_eq_false_iff_not] at hdenormal
    exact not_le.mp hdenormal.1.2
  · unfold isNormal at hnormal
    rw [hexp] at hnormal
    exact absurd hnormal (by simp)
  · rw [(isInfinity_iff.mp hinfinity).1] at hexp
    exact absurd hexp (by decide)

lemma Canonical.exponent_eq_zero (ha : a.Canonical) :
    a.exponent = 0 ↔ a.significand.toNat < 2 ^ 63 :=
  ⟨ha.significand_lt, fun hlt => by
    by_contra hne
    exact absurd hlt (not_lt.mpr (ha.numeric.significand_le hne))⟩

lemma Canonical.unique (ha : a.Canonical) (hb : b.Canonical) (hsign : a.sign = b.sign)
    (hsize : a.magnitude = b.magnitude) : a = b := by
  have hplace : a.place = b.place := by
    rcases lt_trichotomy a.place b.place with hlt | heq | hgt
    · exact absurd hsize (magnitude_lt hb.numeric hlt).ne
    · exact heq
    · exact absurd hsize (magnitude_lt ha.numeric hgt).ne'
  have hsig : a.significand.toNat = b.significand.toNat := by
    rw [magnitude_eq, magnitude_eq, hplace, mul_left_inj' (zpow_pos two_pos _).ne'] at hsize
    exact_mod_cast hsize
  have hzero : a.exponent = 0 ↔ b.exponent = 0 := by
    rw [ha.exponent_eq_zero, hb.exponent_eq_zero, hsig]
  have hexp : a.exponent = b.exponent := by
    unfold place at hplace
    omega
  have hbits : a.signExponent.toNat = b.signExponent.toNat := by
    have hlt := a.signExponent.isLt
    have hlt' := b.signExponent.isLt
    rw [sign_eq, sign_eq, decide_eq_decide] at hsign
    rw [Fp80.exponent_eq, Fp80.exponent_eq] at hexp
    omega
  obtain ⟨significand, signExponent⟩ := a
  obtain ⟨significand', signExponent'⟩ := b
  have hsig' : significand = significand' := BitVec.toNat_inj.mp hsig
  have hbits' : signExponent = signExponent' := BitVec.toNat_inj.mp hbits
  rw [hsig', hbits']

/-! ### Separation and Scaling -/

lemma Operand.sign_eq (ha : a.Operand) : a.sign = decide (a.toReal < 0) := by
  have hpos : 0 < a.magnitude :=
    mul_pos (by exact_mod_cast ha.significand_pos) (zpow_pos two_pos _)
  exact (signed_lt_zero a.sign hpos).symm

/-- The parts of a finite number: its significand between one and two, and its exponent. -/
lemma extract_operand (ha : a.Operand) (ef : ExceptionFlags) :
    ∃ m k, a.extract ef = ((m, fromI64 k), a.flagDenormal ef) ∧ m.Operand ∧
      1 ≤ |m.toReal| ∧ |m.toReal| < 2 ∧ MachineInt.Fits 64 k ∧ m.toReal * 2 ^ k = a.toReal := by
  obtain ⟨hsupported, hnan, hinfinity, hzero⟩ := ha.plain
  obtain ⟨hlow, hhigh⟩ := ha.trueExponent_bounds
  obtain ⟨s, k, hcomponents, -, hs, hs', hmagnitude⟩ := ha.components
  have hsig : a.significand ≠ 0 := fun h => by
    have := ha.significand_pos
    rw [h] at this
    exact absurd this (by decide)
  have hcomponents' : a.exponent = 0 → (normalizeSignificand a.significand.toNat).1 = s ∧
      a.trueExponent - (normalizeSignificand a.significand.toNat).2 = k := by
    intro hexp
    unfold components at hcomponents
    rw [if_pos hexp] at hcomponents
    generalize normalizeSignificand a.significand.toNat = parts at hcomponents ⊢
    exact Prod.mk.inj hcomponents
  have hparts : (if a.exponent = 0 && a.significand ≠ 0 then
      (BitVec.ofNat 64 (normalizeSignificand a.significand.toNat).1,
        a.trueExponent - (normalizeSignificand a.significand.toNat).2)
      else (a.significand, a.trueExponent)) = (BitVec.ofNat 64 s, k) := by
    by_cases hexp : a.exponent = 0
    · obtain ⟨hfirst, hsecond⟩ := hcomponents' hexp
      rw [decide_eq_true hexp, decide_eq_true hsig, Bool.true_and, if_pos rfl, hfirst, hsecond]
    · unfold components at hcomponents
      rw [if_neg hexp] at hcomponents
      obtain ⟨hfirst, hsecond⟩ := Prod.mk.inj hcomponents
      rw [decide_eq_false hexp, Bool.false_and, if_neg Bool.false_ne_true, hsecond, ← hfirst,
        BitVec.ofNat_toNat, BitVec.setWidth_eq]
  have hm : fromBits (if a.sign then 0xBFFF else 0x3FFF) (BitVec.ofNat 64 s) =
      packed a.sign (0x3FFF : ℕ) s 64 := by
    unfold packed signBit
    rw [Nat.sub_self, BitVec.shiftLeft_zero]
    cases a.sign <;> rfl
  obtain ⟨m, hm'⟩ : ∃ m, m = packed a.sign (0x3FFF : ℕ) s 64 := ⟨_, rfl⟩
  have hsign : m.sign = a.sign := by
    rw [hm']
    exact packed_sign (by norm_num)
  have hsize : m.magnitude = s * 2 ^ (-63 : ℤ) := by
    rw [hm', packed_magnitude (by norm_num) le_rfl hs']
    norm_num [bias]
  have hslow : (2 : ℝ) ^ 63 ≤ s := by exact_mod_cast hs
  have hshigh : (s : ℝ) < 2 ^ 64 := by exact_mod_cast hs'
  have hpower : (0 : ℝ) < 2 ^ (-63 : ℤ) := zpow_pos two_pos _
  refine ⟨m, k, ?_, ?_, ?_, ?_, ?_, ?_⟩
  · unfold extract
    have hflags : flagUnsupportedOperands [a] ef = (false, ef) :=
      flagUnsupportedOperands_of_supported hsupported ef
    rw [hflags, hnan]
    dsimp only
    rw [if_neg Bool.false_ne_true, if_neg Bool.false_ne_true, hinfinity,
      if_neg Bool.false_ne_true, hzero, if_neg Bool.false_ne_true, hparts, hm, ← hm']
  · left
    unfold isNormal
    rw [jBit_eq, hm', packed_exponent (by norm_num), packed_significand le_rfl hs', Nat.sub_self,
      pow_zero, mul_one, decide_eq_true hs]
    rfl
  · rw [abs_toReal, hsize]
    calc (1 : ℝ) = 2 ^ 63 * 2 ^ (-63 : ℤ) := by norm_num
      _ ≤ s * 2 ^ (-63 : ℤ) := mul_le_mul_of_nonneg_right hslow hpower.le
  · rw [abs_toReal, hsize]
    calc s * 2 ^ (-63 : ℤ) < (2 : ℝ) ^ 64 * 2 ^ (-63 : ℤ) := mul_lt_mul_of_pos_right hshigh hpower
      _ = 2 := by norm_num
  · have hk : a.trueExponent - 63 ≤ k ∧ k ≤ a.trueExponent := by
      by_cases hexp : a.exponent = 0
      · have hshift : (normalizeSignificand a.significand.toNat).2 ≤ 63 := by
          have := leadingZeros_lt ha.significand_pos a.significand.isLt
          unfold normalizeSignificand
          rw [if_neg ha.significand_pos.ne']
          dsimp only
          omega
        have hsecond := (hcomponents' hexp).2
        omega
      · unfold components at hcomponents
        rw [if_neg hexp] at hcomponents
        have hsecond := (Prod.mk.inj hcomponents).2
        omega
    unfold leastExponent bias at hlow
    unfold bias at hhigh
    constructor <;> norm_num <;> omega
  · unfold toReal
    rw [hsign, hsize, hmagnitude, signed_mul, mul_assoc, ← zpow_add₀ two_ne_zero]
    congr 3
    ring

/-- A scaling by a number delivers the exact product, with its flags and its response. -/
def ScalesExactly (a s : Fp80) (rc : RoundingMode) (ef : ExceptionFlags) : Prop :=
  ∃ r ef', a.scale s rc ef = some (r, ef') ∧
    Delivers rc .extended (a.toReal * 2 ^ truncate s.toReal)
      (s.flagDenormal (a.flagDenormal ef)) r ef' ∧
    Signals rc .extended (a.toReal * 2 ^ truncate s.toReal)
      (s.flagDenormal (a.flagDenormal ef)) ef'

/-- The parts of a number are its significand and its exponent, and scaling puts them together. -/
structure Separates (a m e : Fp80) : Prop where
  operand : m.Operand
  one_le : 1 ≤ |m.toReal|
  lt_two : |m.toReal| < 2
  finite : e.Finite
  integer : ∃ k : ℤ, e.toReal = k
  restored : ∀ rc ef, ∃ r ef', m.scale e rc ef = some (r, ef') ∧ r.value = (a.toReal : EReal) ∧
    r.sign = a.sign ∧ (a.Canonical → r = a) ∧ ef'.precision = ef.precision

lemma flagDenormal_precision (a : Fp80) (ef : ExceptionFlags) :
    (a.flagDenormal ef).precision = ef.precision := (sameRounding_flagDenormal a ef).precision

lemma Operand.eq_of_value (ha : a.Operand) {r : Fp80} (hr : r.Canonical)
    (hvalue : r.value = (a.toReal : EReal)) : r.sign = a.sign ∧ (a.Canonical → r = a) := by
  have hfinite : r.isInfinity = false := by
    by_contra hinfinity
    rw [value, if_pos (Bool.eq_true_of_not_eq_false hinfinity)] at hvalue
    cases hsign : r.sign
    · rw [hsign] at hvalue
      exact EReal.coe_ne_top _ hvalue.symm
    · rw [hsign] at hvalue
      exact EReal.coe_ne_bot _ hvalue.symm
  rw [value_of_finite hfinite, EReal.coe_eq_coe_iff] at hvalue
  have hpos : 0 < a.magnitude :=
    mul_pos (by exact_mod_cast ha.significand_pos) (zpow_pos two_pos _)
  have hsize : r.magnitude = a.magnitude := by
    rw [← abs_toReal, hvalue, abs_toReal]
  have hsign : r.sign = a.sign := by
    rw [ha.sign_eq, ← hvalue]
    exact (signed_lt_zero r.sign (hsize ▸ hpos)).symm
  exact ⟨hsign, fun ha' => hr.unique ha' hsign hsize⟩

lemma separates (ha : a.Operand) (ef : ExceptionFlags) : ∃ m e,
    a.extract ef = ((m, e), a.flagDenormal ef) ∧ a.Separates m e := by
  obtain ⟨m, k, hextract, hm, hone, htwo, hk, hvalue⟩ := extract_operand ha ef
  obtain ⟨hfinite, hinteger⟩ := fromI64_value hk
  have htruncate : truncate (fromI64 k).toReal = k := by
    rw [hinteger]
    exact round_intCast k .zero
  refine ⟨m, fromI64 k, hextract, hm, hone, htwo, hfinite, ⟨k, hinteger⟩, fun rc ef => ?_⟩
  obtain ⟨r, ef', hscale, hdelivers, -⟩ := scale_delivers hm hfinite rc ef
  rw [htruncate, hvalue] at hdelivers
  have hself := hdelivers.value.trans (ha.delivered_self rc)
  obtain ⟨hsign, hunique⟩ := ha.eq_of_value hdelivers.canonical hself
  refine ⟨r, ef', hscale, hself, hsign, hunique, ?_⟩
  have hprecision := hdelivers.precision
  rw [hself, ne_eq, eq_self_iff_true, not_true, or_false, flagDenormal_precision,
    flagDenormal_precision] at hprecision
  exact Bool.eq_iff_iff.mpr hprecision

/-- **Scaling delivers the exact product in every rounding mode, and what is separated scales back
to the number.** -/
theorem scaled_and_separated (ha : a.Operand) :
    (∀ s rc ef, s.Finite → a.ScalesExactly s rc ef) ∧
      ∀ ef, ∃ m e, a.extract ef = ((m, e), a.flagDenormal ef) ∧ a.Separates m e :=
  ⟨fun _ rc ef hs => scale_delivers ha hs rc ef, fun ef => separates ha ef⟩

/-- The largest denormal. -/
theorem scaled_and_separated_denormal :
    (∀ s rc ef, s.Finite → largestDenormal.ScalesExactly s rc ef) ∧
      ∀ ef, ∃ m e, largestDenormal.extract ef = ((m, e), largestDenormal.flagDenormal ef) ∧
        largestDenormal.Separates m e :=
  scaled_and_separated (.inr (.inl (by decide)))

/-- Past the clamp a product overflows as one far below it does. -/
example :
    one.scale (fromI64 (2 ^ 61)) .up .default = one.scale (fromI64 (2 ^ 40)) .up .default := by
  decide +kernel

end Fp80

end Neetan.SoftFloat
