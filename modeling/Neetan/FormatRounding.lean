import Neetan.Fp80Round

/-!
Rounding to a binary format delivers the exact result that 128 bits are alike.

The bits are kept down to the last place of the result, or of the least exponent below it. The
format is a parameter: those of the FPU itself and those of single and double numbers are rounded
to by one function.
-/

namespace Neetan.SoftFloat

open MachineInt RealRounding

/-! ### Formats -/

/-- The bits of a significand and the bias of the exponent. -/
structure Grid where
  precision : ℕ
  bias : ℤ
  precision_low : 2 ≤ precision
  precision_high : precision ≤ 64
  range : precision ≤ 2 * bias

namespace Grid

variable (g : Grid)

/-- The least exponent of a normal number. -/
def least : ℤ := 1 - g.bias

/-- The exponent field of the infinities. -/
def maxBiased : ℤ := 2 * g.bias + 1

/-- The largest finite number. -/
noncomputable def largest : ℝ := (2 ^ g.precision - 1) * 2 ^ (g.bias + 1 - g.precision)

/-- An exact result, rounded with an unbounded exponent. -/
noncomputable def unbounded (rc : RoundingMode) (x : ℝ) : ℝ :=
  roundUnbounded rc.round g.precision x

/-- The result is not zero, and rounded with an unbounded exponent it is too small. -/
def IsTiny (rc : RoundingMode) (x : ℝ) : Prop := x ≠ 0 ∧ |g.unbounded rc x| < 2 ^ g.least

/-- The result rounded with an unbounded exponent is too large. -/
def Overflows (rc : RoundingMode) (x : ℝ) : Prop := g.largest < |g.unbounded rc x|

/-- The masked response to an overflow: an infinity, or the largest finite number. -/
noncomputable def overflowResult (rc : RoundingMode) (negative : Bool) : EReal :=
  signed negative (if rc.awayFromZero negative then ⊤ else (g.largest : EReal))

open Classical in
/-- What is delivered for an exact result. -/
noncomputable def delivered (rc : RoundingMode) (x : ℝ) : EReal :=
  if g.Overflows rc x then g.overflowResult rc (decide (x < 0))
  else (roundGradual rc.round g.precision g.least x : ℝ)

/-- The size of a rounded number. -/
noncomputable def size : Rounded → EReal
  | .finite biased significand =>
    ((significand * 2 ^ (max biased 1 - g.bias + 1 - g.precision) : ℝ) : EReal)
  | .infinity => ⊤
  | .largestFinite => (g.largest : EReal)

lemma size_finite (biased : ℤ) (significand : ℕ) : g.size (.finite biased significand) =
    ((significand * 2 ^ (max biased 1 - g.bias + 1 - g.precision) : ℝ) : EReal) := rfl

/-- A rounded number. -/
noncomputable def value (sign : Bool) (rounded : Rounded) : EReal := signed sign (g.size rounded)

/-- The fields of a rounded number are those of the format. -/
def InFormat : Rounded → Prop
  | .finite biased significand => 0 ≤ biased ∧ biased < g.maxBiased ∧
    significand < 2 ^ g.precision ∧ (biased ≠ 0 ↔ 2 ^ (g.precision - 1) ≤ significand)
  | _ => True

/-- An exact result is rounded to the format once, with the flags of the rounding. -/
structure RoundsTo (rc : RoundingMode) (sign : Bool) (x : ℝ) (ef : ExceptionFlags)
    (rounded : Rounded) (ef' : ExceptionFlags) : Prop where
  value : g.value sign rounded = g.delivered rc x
  fields : g.InFormat rounded
  precision : ef'.precision = true ↔ ef.precision = true ∨ g.value sign rounded ≠ x
  roundedUp : ef'.roundedUp = true ↔ ef.roundedUp = true ∨ ((|x| : ℝ) : EReal) < g.size rounded
  tiny : ef'.tiny = true ↔ ef.tiny = true ∨ g.IsTiny rc x
  underflow : ef'.underflow = true ↔
    ef.underflow = true ∨ g.IsTiny rc x ∧ g.value sign rounded ≠ x
  overflow : ef'.overflow = true ↔ ef.overflow = true ∨ g.Overflows rc x

end Grid

/-! ### Alike Bits -/

/-- 128 bits at an exponent, alike an exact result. -/
structure Rounds (sign : Bool) (e : ℤ) (n : ℕ) (y x : ℝ) : Prop where
  low : 2 ^ 127 ≤ n
  high : n < 2 ^ 128
  alike : Alike (2 ^ 63) (n : ℝ) y
  value : x = signed sign (y * 2 ^ (e - 127))

namespace Rounds

variable {sign : Bool} {e : ℤ} {n : ℕ} {y x : ℝ}

lemma bounds (h : Rounds sign e n y x) : 2 ^ 127 ≤ y ∧ y < 2 ^ 128 := by
  have hlow := (h.alike (2 ^ 64)).2
  have hhigh := (h.alike (2 ^ 65)).2
  have hlow' : (2 : ℝ) ^ 127 ≤ n := by exact_mod_cast h.low
  have hhigh' : (n : ℝ) < 2 ^ 128 := by exact_mod_cast h.high
  push_cast at hlow hhigh
  norm_num at hlow hhigh hlow' hhigh' ⊢
  exact ⟨not_lt.mp fun hlt => absurd (hlow.mpr hlt) (not_lt.mpr hlow'), hhigh.mp hhigh'⟩

lemma pos (h : Rounds sign e n y x) : 0 < y := (pow_pos two_pos 127).trans_le h.bounds.1

lemma abs_eq (h : Rounds sign e n y x) : |x| = y * 2 ^ (e - 127) := by
  rw [h.value]
  exact abs_signed sign (mul_pos h.pos (zpow_pos two_pos _)).le

lemma ne_zero (h : Rounds sign e n y x) : x ≠ 0 := by
  rw [← abs_pos, h.abs_eq]
  exact mul_pos h.pos (zpow_pos two_pos _)

lemma lt_zero (h : Rounds sign e n y x) : decide (x < 0) = sign := by
  rw [h.value]
  exact signed_lt_zero sign (mul_pos h.pos (zpow_pos two_pos _))

lemma log (h : Rounds sign e n y x) : Int.log 2 |x| = e := by
  have hpos : (0 : ℝ) < 2 ^ (e - 127) := zpow_pos two_pos _
  have hlow : (2 : ℝ) ^ e = 2 ^ 127 * 2 ^ (e - 127) := by
    rw [← zpow_natCast, ← zpow_add₀ two_ne_zero]
    congr 1
    push_cast
    ring
  have hhigh : (2 : ℝ) ^ (e + 1) = 2 ^ 128 * 2 ^ (e - 127) := by
    rw [← zpow_natCast, ← zpow_add₀ two_ne_zero]
    congr 1
    push_cast
    ring
  rw [h.abs_eq]
  refine log_eq ?_ ?_
  · rw [hlow]
    exact mul_le_mul_of_nonneg_right h.bounds.1 hpos.le
  · rw [hhigh]
    exact mul_lt_mul_of_pos_right h.bounds.2 hpos

lemma scaled {p : ℕ} (hp : p ≤ 64) (s : ℕ) :
    y * 2 ^ (e - 127) = y / 2 ^ (128 - p + s) * 2 ^ (e + 1 - p + s) := by
  rw [div_mul_eq_mul_div, eq_div_iff (pow_pos two_pos _).ne', mul_assoc, ← zpow_natCast,
    ← zpow_add₀ two_ne_zero]
  congr 2
  push_cast [Nat.cast_sub (show p ≤ 128 by omega)]
  ring

lemma roundAt_eq (h : Rounds sign e n y x) {p : ℕ} (hp : p ≤ 64) (s : ℕ) (rc : RoundingMode) :
    roundAt rc.round (e + 1 - p + s) x =
      signed sign ((rc.roundSize sign (y / 2 ^ (128 - p + s)) : ℝ) * 2 ^ (e + 1 - p + s)) := by
  have hcast : ∀ k : ℤ, ((signed sign k : ℤ) : ℝ) = signed sign (k : ℝ) := by
    intro k
    cases sign
    · rfl
    · exact Int.cast_neg k
  rw [h.value, scaled hp s, ← signed_mul, roundAt_mul,
    round_signed rc sign (div_nonneg h.pos.le (pow_pos two_pos _).le), hcast, signed_mul]

lemma unbounded_eq (h : Rounds sign e n y x) (g : Grid) (rc : RoundingMode) :
    g.unbounded rc x = signed sign
      ((rc.roundSize sign (y / 2 ^ (128 - g.precision)) : ℝ) * 2 ^ (e + 1 - g.precision)) := by
  have hround := h.roundAt_eq g.precision_high 0 rc
  rw [Nat.add_zero, Nat.cast_zero, add_zero] at hround
  unfold Grid.unbounded roundUnbounded lastPlace
  rw [h.log]
  exact hround

lemma gradual_eq (h : Rounds sign e n y x) (g : Grid) (rc : RoundingMode) {s : ℕ}
    (hs : s = (g.least - e).toNat) : roundGradual rc.round g.precision g.least x =
      signed sign ((rc.roundSize sign (y / 2 ^ (128 - g.precision + s)) : ℝ) *
        2 ^ (e + 1 - g.precision + s)) := by
  have hplace : max (e + 1 - (g.precision : ℤ)) (g.least + 1 - g.precision) =
      e + 1 - g.precision + s := by
    rw [hs]
    omega
  unfold roundGradual lastPlace
  rw [h.log, hplace]
  exact h.roundAt_eq g.precision_high s rc

lemma size_bounds (h : Rounds sign e n y x) {p : ℕ} (hp : p ≤ 64) (rc : RoundingMode) {kept : ℕ}
    (hkept : (kept : ℤ) = rc.roundSize sign (y / 2 ^ (128 - p))) (hp1 : 1 ≤ p) :
    2 ^ (p - 1) ≤ kept ∧ kept ≤ 2 ^ p := by
  have hpos : (0 : ℝ) < 2 ^ (128 - p) := pow_pos two_pos _
  have hlow : (2 : ℝ) ^ 127 = 2 ^ (p - 1) * 2 ^ (128 - p) := by
    rw [← pow_add]
    congr 1
    omega
  have hhigh : (2 : ℝ) ^ 128 = 2 ^ p * 2 ^ (128 - p) := by
    rw [← pow_add]
    congr 1
    omega
  constructor
  · have hfloor : ((2 ^ (p - 1) : ℕ) : ℤ) ≤ ⌊y / 2 ^ (128 - p)⌋ := by
      rw [Int.le_floor, le_div_iff₀ hpos]
      push_cast
      rw [← hlow]
      exact h.bounds.1
    have := floor_le_roundSize rc sign (y / 2 ^ (128 - p))
    omega
  · have hceil : ⌈y / 2 ^ (128 - p)⌉ ≤ ((2 ^ p : ℕ) : ℤ) := by
      rw [Int.ceil_le, div_le_iff₀ hpos]
      push_cast
      rw [← hhigh]
      exact h.bounds.2.le
    have := roundSize_le_ceil rc sign (y / 2 ^ (128 - p))
    omega

lemma finite (h : Rounds sign e n y x) {g : Grid} {rc : RoundingMode} {s kept : ℕ} {r : Rounded}
    (hs : s = (g.least - e).toNat)
    (hkept : (kept : ℤ) = rc.roundSize sign (y / 2 ^ (128 - g.precision + s)))
    (hsize : g.size r = ((kept * 2 ^ (e + 1 - g.precision + s) : ℝ) : EReal))
    (hover : ¬ g.Overflows rc x) :
    g.value sign r = g.delivered rc x ∧
      (g.value sign r ≠ x ↔ (kept : ℝ) ≠ y / 2 ^ (128 - g.precision + s)) ∧
      (((|x| : ℝ) : EReal) < g.size r ↔ y / 2 ^ (128 - g.precision + s) < kept) := by
  have hpos : (0 : ℝ) < 2 ^ (e + 1 - g.precision + s) := zpow_pos two_pos _
  have hvalue : g.value sign r =
      ((signed sign ((kept : ℝ) * 2 ^ (e + 1 - g.precision + s)) : ℝ) : EReal) := by
    unfold Grid.value
    rw [hsize]
    cases sign <;> rfl
  refine ⟨?_, ?_, ?_⟩
  · unfold Grid.delivered
    rw [if_neg hover, hvalue, h.gradual_eq g rc hs, ← hkept, Int.cast_natCast]
  · rw [hvalue, ne_eq, EReal.coe_eq_coe_iff, h.value, scaled g.precision_high s, signed_inj,
      mul_left_inj' hpos.ne']
  · rw [hsize, h.abs_eq, scaled g.precision_high s, EReal.coe_lt_coe_iff]
    exact mul_lt_mul_iff_of_pos_right hpos

end Rounds

/-! ### The Carry -/

lemma carry_spec {kept p : ℕ} (hp : 1 ≤ p) (hlow : 2 ^ (p - 1) ≤ kept) (hhigh : kept ≤ 2 ^ p) :
    ∃ (carry : Bool) (kept' : ℕ), decide (kept >>> p ≠ 0) = carry ∧
      (if carry then kept >>> 1 else kept) = kept' ∧ kept = kept' * 2 ^ carry.toNat ∧
      2 ^ (p - 1) ≤ kept' ∧ kept' < 2 ^ p := by
  have hpow : 2 ^ p = 2 ^ (p - 1) * 2 := by
    rw [← pow_succ]
    congr 1
    omega
  have hpos := Nat.two_pow_pos (p - 1)
  by_cases heq : kept = 2 ^ p
  · refine ⟨true, 2 ^ (p - 1), ?_, ?_, ?_, le_rfl, by omega⟩
    · rw [heq, Nat.shiftRight_eq_div_pow, Nat.div_self (Nat.two_pow_pos p)]
      rfl
    · rw [if_pos rfl, heq, Nat.shiftRight_eq_div_pow, hpow]
      omega
    · rw [heq, hpow]
      rfl
  · refine ⟨false, kept, ?_, if_neg Bool.false_ne_true, (Nat.mul_one _).symm, hlow, by omega⟩
    rw [Nat.shiftRight_eq_div_pow, Nat.div_eq_of_lt (by omega)]
    rfl

/-! ### Overflow -/

namespace Grid

variable (g : Grid)

lemma largest_lt : g.largest < 2 ^ (g.bias + 1) := by
  have hpos : (0 : ℝ) < 2 ^ (g.bias + 1 - g.precision) := zpow_pos two_pos _
  have hsplit : (2 : ℝ) ^ (g.bias + 1) = 2 ^ g.precision * 2 ^ (g.bias + 1 - g.precision) := by
    rw [← zpow_natCast, ← zpow_add₀ two_ne_zero]
    congr 1
    ring
  rw [hsplit]
  exact mul_lt_mul_of_pos_right (by linarith) hpos

lemma least_lt_largest : (2 : ℝ) ^ g.least < g.largest := by
  have hpos : (0 : ℝ) < 2 ^ (g.bias + 1 - g.precision) := zpow_pos two_pos _
  have hpow : (2 : ℝ) ^ 2 ≤ 2 ^ g.precision := pow_le_pow_right₀ one_le_two g.precision_low
  have hexp : g.least ≤ g.bias + 1 - g.precision := by
    have := g.range
    unfold least
    omega
  calc (2 : ℝ) ^ g.least ≤ 2 ^ (g.bias + 1 - g.precision) := zpow_le_zpow_right₀ one_le_two hexp
    _ < g.largest := (lt_mul_iff_one_lt_left hpos).mpr (by norm_num at hpow ⊢; linarith)

variable {g}

/-- A significand of the precision overflows exactly with too large an exponent. -/
lemma overflow_iff {kept : ℕ} {e : ℤ} (hlow : 2 ^ (g.precision - 1) ≤ kept)
    (hhigh : kept < 2 ^ g.precision) :
    g.largest < kept * 2 ^ (e + 1 - g.precision) ↔ g.bias < e := by
  have hp := g.precision_low
  constructor
  · intro hlt
    by_contra hle
    have hkept : (kept : ℝ) ≤ 2 ^ g.precision - 1 := by
      have hnat : kept + 1 ≤ 2 ^ g.precision := hhigh
      have hcast : (kept : ℝ) + 1 ≤ 2 ^ g.precision := by exact_mod_cast hnat
      linarith
    have hpow : (2 : ℝ) ^ (e + 1 - g.precision) ≤ 2 ^ (g.bias + 1 - g.precision) :=
      zpow_le_zpow_right₀ one_le_two (by omega)
    refine absurd hlt (not_lt.mpr ?_)
    exact mul_le_mul hkept hpow (zpow_pos two_pos _).le (by
      have := Nat.cast_nonneg (α := ℝ) kept
      linarith)
  · intro hlt
    have hkept : (2 : ℝ) ^ (g.precision - 1) ≤ kept := by exact_mod_cast hlow
    have hpos : (0 : ℝ) < 2 ^ (e + 1 - g.precision) := zpow_pos two_pos _
    calc g.largest < 2 ^ (g.bias + 1) := g.largest_lt
      _ ≤ 2 ^ e := zpow_le_zpow_right₀ one_le_two (by omega)
      _ = 2 ^ (g.precision - 1) * 2 ^ (e + 1 - g.precision) := by
        rw [← zpow_natCast, ← zpow_add₀ two_ne_zero]
        congr 1
        push_cast [Nat.cast_sub (show 1 ≤ g.precision by omega)]
        ring
      _ ≤ kept * 2 ^ (e + 1 - g.precision) := mul_le_mul_of_nonneg_right hkept hpos.le

end Grid

lemma roundSize_toward {rc : RoundingMode} {sign : Bool} (h : rc.awayFromZero sign = false)
    (u : ℝ) : rc.roundSize sign u = ⌊u⌋ := by
  cases rc with
  | nearestEven => cases sign <;> exact absurd h (by decide)
  | down => cases sign <;> [rfl; exact absurd h (by decide)]
  | up => cases sign <;> [exact absurd h (by decide); rfl]
  | zero => rfl

lemma Rounds.overflow {sign : Bool} {e : ℤ} {n : ℕ} {y x : ℝ} (h : Rounds sign e n y x)
    {g : Grid} {rc : RoundingMode} (hover : g.Overflows rc x) (ef : ExceptionFlags) :
    g.RoundsTo rc sign x ef (if rc.awayFromZero sign then .infinity else .largestFinite)
      { ef with
        overflow := true, precision := true
        roundedUp := ef.roundedUp || rc.awayFromZero sign } := by
  have hdelivered : g.delivered rc x = g.overflowResult rc sign := by
    unfold Grid.delivered
    rw [if_pos hover, h.lt_zero]
  have htiny : ¬ g.IsTiny rc x := fun hx => lt_asymm g.least_lt_largest (hover.trans hx.2)
  cases haway : rc.awayFromZero sign
  · -- the largest finite number, below the exact result
    have hbelow : g.largest < |x| := by
      have hpos : (0 : ℝ) < 2 ^ (e + 1 - g.precision) := zpow_pos two_pos _
      have hscaled := @Rounds.scaled e y g.precision g.precision_high 0
      rw [Nat.add_zero, Nat.cast_zero, add_zero] at hscaled
      have hfloor := Int.floor_le (y / 2 ^ (128 - g.precision))
      refine lt_of_lt_of_le hover ?_
      rw [h.unbounded_eq g rc, roundSize_toward haway, h.abs_eq, hscaled, abs_signed]
      · exact mul_le_mul_of_nonneg_right hfloor hpos.le
      · have hnonneg : 0 ≤ ⌊y / 2 ^ (128 - g.precision)⌋ :=
          Int.floor_nonneg.mpr (div_nonneg h.pos.le (pow_pos two_pos _).le)
        have hcast : (0 : ℝ) ≤ ⌊y / 2 ^ (128 - g.precision)⌋ := by exact_mod_cast hnonneg
        exact mul_nonneg hcast hpos.le
    rw [if_neg Bool.false_ne_true, Bool.or_false]
    have hvalue : g.value sign .largestFinite = ((signed sign g.largest : ℝ) : EReal) := by
      cases sign <;> rfl
    have hne : g.value sign .largestFinite ≠ x := by
      rw [hvalue, ne_eq, EReal.coe_eq_coe_iff]
      intro heq
      rw [← heq, abs_signed sign] at hbelow
      · exact lt_irrefl _ hbelow
      · exact g.least_lt_largest.le.trans' (zpow_pos two_pos _).le
    have hsize : ¬ ((|x| : ℝ) : EReal) < g.size .largestFinite := by
      change ¬ ((_ : ℝ) : EReal) < ((_ : ℝ) : EReal)
      rw [EReal.coe_lt_coe_iff]
      exact lt_asymm hbelow
    refine ⟨?_, trivial, ?_, ?_, ?_, ?_, ?_⟩
    · rw [hdelivered]
      unfold Grid.value Grid.overflowResult
      rw [haway]
      rfl
    · exact iff_of_true rfl (Or.inr hne)
    · exact (or_iff_left hsize).symm
    · exact (or_iff_left htiny).symm
    · exact (or_iff_left fun hx => htiny hx.1).symm
    · exact iff_of_true rfl (Or.inr hover)
  · -- an infinity
    rw [if_pos rfl, Bool.or_true]
    have hne : g.value sign .infinity ≠ x := by
      cases sign
      · exact (EReal.coe_ne_top x).symm
      · exact (EReal.coe_ne_bot x).symm
    refine ⟨?_, trivial, ?_, ?_, ?_, ?_, ?_⟩
    · rw [hdelivered]
      unfold Grid.value Grid.overflowResult
      rw [haway]
      rfl
    · exact iff_of_true rfl (Or.inr hne)
    · exact iff_of_true rfl (Or.inr (EReal.coe_lt_top _))
    · exact (or_iff_left htiny).symm
    · exact (or_iff_left fun hx => htiny hx.1).symm
    · exact iff_of_true rfl (Or.inr hover)

/-! ### Rounding to the Format -/

lemma Rounds.carried {sign : Bool} {e : ℤ} {n : ℕ} {y x : ℝ} (h : Rounds sign e n y x)
    {g : Grid} {rc : RoundingMode} {kept kept' : ℕ} {carry : Bool}
    (hkept : (kept : ℤ) = rc.roundSize sign (y / 2 ^ (128 - g.precision)))
    (hcarry : kept = kept' * 2 ^ carry.toNat) :
    |g.unbounded rc x| = kept' * 2 ^ (e + carry.toNat + 1 - g.precision) := by
  rw [h.unbounded_eq g rc, ← hkept, Int.cast_natCast, abs_signed]
  · rw [hcarry, Nat.cast_mul, Nat.cast_pow, Nat.cast_ofNat, mul_assoc, ← zpow_natCast,
      ← zpow_add₀ two_ne_zero]
    congr 2
    ring
  · exact mul_nonneg (Nat.cast_nonneg _) (zpow_pos two_pos _).le

lemma Rounds.normal {sign : Bool} {e : ℤ} {n : ℕ} {y x : ℝ} (h : Rounds sign e n y x)
    (g : Grid) (rc : RoundingMode) (ef : ExceptionFlags) (hnormal : 1 ≤ e + g.bias) :
    ∃ rounded ef', roundToFormat sign (e + g.bias) n g.precision g.maxBiased rc ef =
      some (rounded, ef') ∧ g.RoundsTo rc sign x ef rounded ef' := by
  have hbits := g.precision_low
  have hbits' := g.precision_high
  obtain ⟨kept, inexact, increment, hround, hkept, hinexact, hincrement⟩ :=
    @roundBits_spec sign n g.precision rc y h.high hbits' (h.alike.pow_mono (by omega))
  obtain ⟨hlow, hhigh⟩ := h.size_bounds hbits' rc hkept (by omega)
  obtain ⟨carry, kept', hdecide, hshift, hvalue, hlow', hhigh'⟩ :=
    carry_spec (by omega) hlow hhigh
  have hunbounded := h.carried hkept hvalue
  have hbiased : (if carry = true then e + g.bias + 1 else e + g.bias) =
      e + carry.toNat + g.bias := by
    cases carry
    · simp
    · simp only [if_true, Bool.toNat_true]
      omega
  have hover : g.Overflows rc x ↔ g.maxBiased ≤ e + carry.toNat + g.bias := by
    unfold Grid.Overflows
    rw [hunbounded, Grid.overflow_iff hlow' hhigh']
    unfold Grid.maxBiased
    omega
  unfold roundToFormat
  rw [if_pos hnormal, hround]
  simp only [Option.bind_eq_bind, Option.bind_some, hdecide, hbiased, hshift]
  by_cases hmax : g.maxBiased ≤ e + carry.toNat + g.bias
  · rw [if_pos hmax]
    have hresult := h.overflow (hover.mpr hmax) ef
    change ∃ rounded ef', (if rc.awayFromZero sign = true then _ else _) = _ ∧ _
    cases haway : rc.awayFromZero sign
    · rw [haway, Bool.or_false] at hresult
      exact ⟨_, _, rfl, hresult⟩
    · rw [haway, Bool.or_true] at hresult
      exact ⟨_, _, rfl, hresult⟩
  · rw [if_neg hmax]
    refine ⟨_, _, rfl, ?_⟩
    have hs : 0 = (g.least - e).toNat := by
      unfold Grid.least
      omega
    have hsize : g.size (.finite (e + carry.toNat + g.bias) kept') =
        ((kept * 2 ^ (e + 1 - g.precision + (0 : ℕ)) : ℝ) : EReal) := by
      rw [g.size_finite, max_eq_left (by omega), hvalue, Nat.cast_mul, Nat.cast_pow,
        Nat.cast_ofNat, mul_assoc, ← zpow_natCast (2 : ℝ) carry.toNat, ← zpow_add₀ two_ne_zero]
      congr 3
      push_cast
      ring
    obtain ⟨hdelivered, hexact, hup⟩ := h.finite hs hkept hsize (mt hover.mp hmax)
    rw [Nat.add_zero] at hexact hup
    have htiny : ¬ g.IsTiny rc x := by
      rintro ⟨-, hlt⟩
      refine absurd hlt (not_lt.mpr ?_)
      have hpow : (2 : ℝ) ^ (g.precision - 1) ≤ kept' := by exact_mod_cast hlow'
      have hpos : (0 : ℝ) < 2 ^ (e + carry.toNat + 1 - g.precision) := zpow_pos two_pos _
      rw [hunbounded]
      calc (2 : ℝ) ^ g.least ≤ 2 ^ (e + carry.toNat) := by
            refine zpow_le_zpow_right₀ one_le_two ?_
            unfold Grid.least
            omega
        _ = 2 ^ (g.precision - 1) * 2 ^ (e + carry.toNat + 1 - g.precision) := by
          rw [← zpow_natCast, ← zpow_add₀ two_ne_zero]
          congr 1
          push_cast [Nat.cast_sub (show 1 ≤ g.precision by omega)]
          ring
        _ ≤ kept' * 2 ^ (e + carry.toNat + 1 - g.precision) :=
          mul_le_mul_of_nonneg_right hpow hpos.le
    refine ⟨hdelivered, ⟨by omega, by omega, hhigh', iff_of_true (by omega) hlow'⟩, ?_, ?_, ?_, ?_,
      ?_⟩
    · rw [hexact, ← hinexact]
      exact Bool.or_eq_true_iff
    · rw [hup, ← hincrement]
      exact Bool.or_eq_true_iff
    · exact (or_iff_left htiny).symm
    · exact (or_iff_left fun hx => htiny hx.1).symm
    · exact (or_iff_left (mt hover.mp hmax)).symm

lemma gradual_flags (ef : ExceptionFlags) (tiny inexact increment : Bool) :
    ((ef.gradual tiny inexact increment).precision = true ↔ ef.precision = true ∨ inexact = true) ∧
      ((ef.gradual tiny inexact increment).roundedUp = true ↔
        ef.roundedUp = true ∨ increment = true) ∧
      ((ef.gradual tiny inexact increment).tiny = true ↔ ef.tiny = true ∨ tiny = true) ∧
      ((ef.gradual tiny inexact increment).underflow = true ↔
        ef.underflow = true ∨ tiny = true ∧ inexact = true) ∧
      (ef.gradual tiny inexact increment).overflow = ef.overflow := by
  unfold ExceptionFlags.gradual
  cases inexact <;> cases tiny <;> simp

lemma Rounds.gradual {sign : Bool} {e : ℤ} {n : ℕ} {y x : ℝ} (h : Rounds sign e n y x)
    (g : Grid) (rc : RoundingMode) (ef : ExceptionFlags) (hsmall : ¬ 1 ≤ e + g.bias) :
    ∃ rounded ef', roundToFormat sign (e + g.bias) n g.precision g.maxBiased rc ef =
      some (rounded, ef') ∧ g.RoundsTo rc sign x ef rounded ef' := by
  have hbits := g.precision_low
  have hbits' := g.precision_high
  -- the result with an unbounded exponent
  obtain ⟨full, inexact, increment, hround, hfull, -, -⟩ :=
    @roundBits_spec sign n g.precision rc y h.high hbits' (h.alike.pow_mono (by omega))
  obtain ⟨hlow, hhigh⟩ := h.size_bounds hbits' rc hfull (by omega)
  have hunbounded := @Rounds.carried _ _ _ _ _ h g rc full full false hfull (mul_one _).symm
  rw [Bool.toNat_false, Nat.cast_zero, add_zero] at hunbounded
  have hpos : (0 : ℝ) < 2 ^ (e + 1 - g.precision) := zpow_pos two_pos _
  have htop : (2 : ℝ) ^ (e + 1) = 2 ^ g.precision * 2 ^ (e + 1 - g.precision) := by
    rw [← zpow_natCast, ← zpow_add₀ two_ne_zero]
    congr 1
    ring
  have hle : |g.unbounded rc x| ≤ 2 ^ (e + 1) := by
    rw [hunbounded, htop]
    exact mul_le_mul_of_nonneg_right (by exact_mod_cast hhigh) hpos.le
  have hleast : (2 : ℝ) ^ (e + 1) ≤ 2 ^ g.least := by
    refine zpow_le_zpow_right₀ one_le_two ?_
    unfold Grid.least
    omega
  have hover : ¬ g.Overflows rc x := fun hx =>
    absurd (hle.trans (hleast.trans g.least_lt_largest.le)) (not_le.mpr hx)
  have htiny : g.IsTiny rc x ↔ e + g.bias < 0 ∨ full >>> g.precision = 0 := by
    unfold Grid.IsTiny
    rw [and_iff_right h.ne_zero, Nat.shiftRight_eq_div_pow, Nat.div_eq_zero_iff]
    by_cases hbelow : e + g.bias < 0
    · refine iff_of_true (hle.trans_lt ?_) (Or.inl hbelow)
      refine zpow_lt_zpow_right₀ one_lt_two ?_
      unfold Grid.least
      omega
    · have hexp : g.least = e + 1 := by
        unfold Grid.least
        omega
      rw [or_iff_right hbelow, or_iff_right (Nat.two_pow_pos _).ne', hunbounded, hexp, htop,
        mul_lt_mul_iff_of_pos_right hpos]
      exact_mod_cast Iff.rfl
  -- the bits down to the least place
  obtain ⟨s, hs⟩ : ∃ s, s = (g.least - e).toNat := ⟨_, rfl⟩
  have hs' : (1 - (e + g.bias)).toNat = s := by
    rw [hs]
    unfold Grid.least
    congr 1
    omega
  obtain ⟨kept, inexact', increment', hround', hkept, hinexact, hincrement⟩ :=
    @roundBits_spec sign (shiftRightSticky n s) g.precision rc (y / 2 ^ s)
      (shiftRightSticky_lt h.high) hbits' (Alike.shifted h.alike h.high (by omega))
  rw [div_div, ← pow_add, Nat.add_comm s] at hkept hinexact hincrement
  have hkept' : kept ≤ 2 ^ (g.precision - 1) := by
    have hwide : (2 : ℝ) ^ 128 ≤ 2 ^ (g.precision - 1) * 2 ^ (128 - g.precision + s) := by
      rw [← pow_add]
      refine pow_le_pow_right₀ one_le_two ?_
      unfold Grid.least at hs
      omega
    have hceil : ⌈y / 2 ^ (128 - g.precision + s)⌉ ≤ ((2 ^ (g.precision - 1) : ℕ) : ℤ) := by
      rw [Int.ceil_le, div_le_iff₀ (pow_pos two_pos _)]
      push_cast
      exact h.bounds.2.le.trans hwide
    have := roundSize_le_ceil rc sign (y / 2 ^ (128 - g.precision + s))
    omega
  have htiny' : roundsTiny sign (e + g.bias) n g.precision rc =
      some (decide (e + g.bias < 0 ∨ full >>> g.precision = 0)) := by
    unfold roundsTiny
    split_ifs with hneg
    · rw [decide_eq_true (Or.inl hneg)]
    · rw [hround]
      change some (decide (full >>> g.precision = 0)) = _
      simp only [hneg, false_or]
  unfold roundToFormat
  rw [if_neg hsmall, hs']
  simp only [htiny', hround', Option.bind_eq_bind, Option.bind_some]
  refine ⟨_, _, rfl, ?_⟩
  -- the field of the exponent
  have hshift : kept >>> (g.precision - 1) ≠ 0 ↔ 2 ^ (g.precision - 1) ≤ kept := by
    rw [Nat.shiftRight_eq_div_pow, ne_eq, Nat.div_eq_zero_iff]
    have := Nat.two_pow_pos (g.precision - 1)
    omega
  have hpow : 2 ^ g.precision = 2 ^ (g.precision - 1) * 2 := by
    rw [← pow_succ]
    congr 1
    omega
  obtain ⟨field, hfield, hrange, hnormal⟩ : ∃ field : ℤ,
      (if kept >>> (g.precision - 1) ≠ 0 then (1 : ℤ) else 0) = field ∧
        (0 ≤ field ∧ field ≤ 1) ∧ (field ≠ 0 ↔ 2 ^ (g.precision - 1) ≤ kept) := by
    by_cases hbit : kept >>> (g.precision - 1) ≠ 0
    · exact ⟨1, if_pos hbit, by norm_num, iff_of_true one_ne_zero (hshift.mp hbit)⟩
    · exact ⟨0, if_neg hbit, by norm_num, iff_of_false (not_not.mpr rfl) (mt hshift.mpr hbit)⟩
  rw [hfield]
  have hfields : g.InFormat (.finite field kept) := by
    have := Nat.two_pow_pos (g.precision - 1)
    have := g.range
    refine ⟨hrange.1, ?_, by omega, hnormal⟩
    unfold Grid.maxBiased
    omega
  have hsize : g.size (.finite field kept) =
      ((kept * 2 ^ (e + 1 - g.precision + s) : ℝ) : EReal) := by
    rw [g.size_finite, max_eq_right hrange.2]
    congr 3
    unfold Grid.least at hs
    omega
  obtain ⟨hdelivered, hexact, hup⟩ := h.finite hs hkept hsize hover
  have hinexact' := hinexact.trans hexact.symm
  have hincrement' := hincrement.trans hup.symm
  generalize htinyB : decide (e + g.bias < 0 ∨ full >>> g.precision = 0) = tiny
  have htiny'' : tiny = true ↔ g.IsTiny rc x := by
    rw [← htinyB, decide_eq_true_eq, htiny]
  obtain ⟨hprecision, hroundedUp, htinyFlag, hunderflow, hoverflow⟩ :=
    gradual_flags ef tiny inexact' increment'
  rw [hinexact'] at hprecision
  rw [hincrement'] at hroundedUp
  rw [htiny''] at htinyFlag
  rw [htiny'', hinexact'] at hunderflow
  exact ⟨hdelivered, hfields, hprecision, hroundedUp, htinyFlag, hunderflow,
    hoverflow ▸ (or_iff_left hover).symm⟩

/-- **Rounding to a format delivers the exact result that the bits are alike.** -/
theorem Rounds.roundToFormat {sign : Bool} {e : ℤ} {n : ℕ} {y x : ℝ} (h : Rounds sign e n y x)
    (g : Grid) (rc : RoundingMode) (ef : ExceptionFlags) :
    ∃ rounded ef', SoftFloat.roundToFormat sign (e + g.bias) n g.precision g.maxBiased rc ef =
      some (rounded, ef') ∧ g.RoundsTo rc sign x ef rounded ef' := by
  by_cases hnormal : 1 ≤ e + g.bias
  · exact h.normal g rc ef hnormal
  · exact h.gradual g rc ef hnormal

end Neetan.SoftFloat
