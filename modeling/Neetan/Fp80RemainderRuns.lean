import Neetan.Fp80Remainders

/-!
One step of a partial remainder, and the steps until the quotient is complete.

Sizes are divided as natural numbers, in units of the last place of the divisor or of the part of
the quotient that is taken.
-/

namespace Neetan.SoftFloat

open MachineInt RealRounding

namespace Fp80

variable {a x y r : Fp80} {nearest : Bool}

/-- The quotient of a division, truncated or to nearest. -/
noncomputable def roundQuotient (nearest : Bool) (u : ℝ) : ℤ := if nearest then roundEven u else ⌊u⌋

/-- How far the exponents are apart. -/
noncomputable def exponentDiff (x y : Fp80) : ℤ := Int.log 2 x.magnitude - Int.log 2 y.magnitude

/-- A step that takes a part of the quotient. -/
structure Incomplete (x y r : Fp80) : Prop where
  dividend : x.isZero = false
  wide : 64 ≤ exponentDiff x y
  finite : r.Finite
  sign : r.sign = x.sign
  quotient : ∃ n : ℕ, x.magnitude = y.magnitude * ((2 ^ 32 * n : ℕ) : ℝ) + r.magnitude
  closer : r.isZero = true ∨ exponentDiff r y < exponentDiff x y

/-- A step that takes the quotient. -/
structure Complete (nearest : Bool) (x y r : Fp80) (bits : ℕ) : Prop where
  finite : r.Finite
  canonical : r.Canonical
  quotient : ∃ q : ℕ, (q : ℤ) = roundQuotient nearest (x.magnitude / y.magnitude) ∧
    r.toReal = signed x.sign (x.magnitude - y.magnitude * q) ∧ bits = q % 8

/-! ### Sizes -/

lemma log_significand {s : ℕ} {e : ℤ} (hlow : 2 ^ 63 ≤ s) (hhigh : s < 2 ^ 64) :
    Int.log 2 ((s : ℝ) * 2 ^ (e - 63)) = e := by
  have hpos : (0 : ℝ) < 2 ^ (e - 63) := zpow_pos two_pos _
  have hlow' : (2 : ℝ) ^ 63 ≤ s := by exact_mod_cast hlow
  have hhigh' : (s : ℝ) < 2 ^ 64 := by exact_mod_cast hhigh
  refine log_eq ?_ ?_
  · calc (2 : ℝ) ^ e = 2 ^ 63 * 2 ^ (e - 63) := by
          rw [← zpow_natCast, ← zpow_add₀ two_ne_zero]
          congr 1
          ring
      _ ≤ s * 2 ^ (e - 63) := mul_le_mul_of_nonneg_right hlow' hpos.le
  · calc (s : ℝ) * 2 ^ (e - 63) < 2 ^ 64 * 2 ^ (e - 63) := mul_lt_mul_of_pos_right hhigh' hpos
      _ = 2 ^ (e + 1) := by
        rw [← zpow_natCast, ← zpow_add₀ two_ne_zero]
        congr 1
        ring

lemma shift_size (s k : ℕ) (e : ℤ) :
    ((s * 2 ^ k : ℕ) : ℝ) * 2 ^ (e - 63) = s * 2 ^ (e + k - 63) := by
  rw [Nat.cast_mul, Nat.cast_pow, Nat.cast_ofNat, mul_assoc, ← zpow_natCast,
    ← zpow_add₀ two_ne_zero]
  congr 2
  ring

lemma divide_units {m b j : ℕ} {size divisor u : ℝ} (hsize : size = m * u)
    (hdivisor : divisor * 2 ^ j = b * u) :
    size = divisor * ((2 ^ j * (m / b) : ℕ) : ℝ) + ((m % b : ℕ) : ℝ) * u := by
  have hsplit : ((b * (m / b) + m % b : ℕ) : ℝ) = m := by rw [Nat.div_add_mod]
  have hcast : ((2 ^ j * (m / b) : ℕ) : ℝ) = 2 ^ j * ((m / b : ℕ) : ℝ) := by
    rw [Nat.cast_mul, Nat.cast_pow, Nat.cast_ofNat]
  rw [Nat.cast_add, Nat.cast_mul] at hsplit
  rw [hcast, ← mul_assoc, hdivisor, hsize, ← hsplit]
  ring

lemma Operand.magnitude_pos (ha : a.Operand) : 0 < a.magnitude :=
  mul_pos (by exact_mod_cast ha.significand_pos) (zpow_pos two_pos _)

lemma Operand.components_le (ha : a.Operand) {s : ℕ} {e : ℤ} (h : a.components = (s, e)) :
    e ≤ bias := by
  have hle := ha.trueExponent_bounds.2
  unfold Fp80.components at h
  by_cases hexp : a.exponent = 0
  · rw [if_pos hexp] at h
    generalize normalizeSignificand a.significand.toNat = parts at h
    have := (Prod.mk.inj h).2
    omega
  · rw [if_neg hexp] at h
    have := (Prod.mk.inj h).2
    omega

/-- The components of an operand are its normalized significand and exponent. -/
lemma Operand.of_components (h : a.Operand) {s : ℕ} {e : ℤ} (hc : a.components = (s, e)) :
    2 ^ 63 ≤ s ∧ s < 2 ^ 64 ∧ a.magnitude = s * 2 ^ (e - 63) := by
  obtain ⟨s', e', hc', -, hs⟩ := h.components
  obtain ⟨rfl, rfl⟩ := Prod.mk.inj (hc.symm.trans hc')
  exact hs

/-! ### A Part of the Quotient -/

lemma isZero_of_magnitude (hr : r.Finite) (h : r.magnitude = 0) : r.isZero = true :=
  hr.cases.resolve_right fun hoperand => absurd h hoperand.magnitude_pos.ne'

lemma remainderFinite_incomplete (hx : x.Operand) (hy : y.Operand) {s t : ℕ} {e f : ℤ}
    (hxc : x.components = (s, e)) (hyc : y.components = (t, f)) (hfar : 64 ≤ e - f) :
    ∃ r, remainderFinite x y nearest = some (r, 0, false) ∧ x.Incomplete y r := by
  obtain ⟨hs, hs', hsize⟩ := hx.of_components hxc
  obtain ⟨ht, ht', hdivisor⟩ := hy.of_components hyc
  have hle := hx.components_le hxc
  -- the width of the part, and the places behind it
  obtain ⟨width, hwidth⟩ := Int.eq_ofNat_of_zero_le
    (show 0 ≤ partialQuotientMinWidth + (e - f) % partialQuotientMinWidth by
      unfold partialQuotientMinWidth
      omega)
  obtain ⟨j, hj⟩ : ∃ j : ℕ, e - f - width = 32 * (j + 1) := by
    refine ⟨((e - f) / 32 - 2).toNat, ?_⟩
    unfold partialQuotientMinWidth at hwidth
    omega
  have hwidth' : width < 64 := by
    unfold partialQuotientMinWidth at hwidth
    omega
  obtain ⟨m, hm⟩ : ∃ m, m = s * 2 ^ width := ⟨_, rfl⟩
  have hmlt : s * 2 ^ width < 2 ^ 128 := by
    calc s * 2 ^ width < 2 ^ 64 * 2 ^ width := Nat.mul_lt_mul_of_pos_right hs' (Nat.two_pow_pos _)
      _ ≤ 2 ^ 64 * 2 ^ 64 := Nat.mul_le_mul_left _ (Nat.pow_le_pow_right two_pos hwidth'.le)
      _ = 2 ^ 128 := by norm_num
  have hmod : m % t < t := Nat.mod_lt _ (by omega)
  have hresult : remainderFinite x y nearest =
      some (packRemainderU64 x.sign (e - width) (m % t), 0, false) := by
    unfold remainderFinite
    rw [hxc, hyc]
    dsimp only
    rw [if_neg (by omega), if_pos hfar, hwidth, Int.toNat_natCast,
      checkedShl_of_lt (by omega) hmlt, ← hm, Option.bind_eq_bind, Option.bind_some, checkedDiv,
      if_neg (by omega), Option.bind_some, Nat.mod_eq_of_lt (hmod.trans ht')]
    rfl
  have hunit : x.magnitude = m * 2 ^ (e - width - 63) := by
    rw [hm, shift_size, hsize]
    congr 2
    ring
  have hunit' : y.magnitude * 2 ^ (32 * (j + 1)) = t * 2 ^ (e - width - 63) := by
    rw [hdivisor, mul_assoc, ← zpow_natCast, ← zpow_add₀ two_ne_zero]
    congr 2
    push_cast
    omega
  have hdivide := divide_units hunit hunit'
  have hgrid : OnGrid (((m % t : ℕ) : ℝ) * 2 ^ (e - width - 63)) := by
    have hdifference := x.onGrid_magnitude.sub
      (y.onGrid_magnitude.mul_int ((2 ^ (32 * (j + 1)) * (m / t) : ℕ) : ℤ))
    rw [Int.cast_natCast] at hdifference
    have heq : x.magnitude - y.magnitude * ((2 ^ (32 * (j + 1)) * (m / t) : ℕ) : ℝ) =
        ((m % t : ℕ) : ℝ) * 2 ^ (e - width - 63) := by
      rw [sub_eq_iff_eq_add, add_comm]
      exact hdivide
    exact heq ▸ hdifference
  have hencodes := packRemainderU64_encodes x.sign (hmod.trans ht')
    (show e - width ≤ bias by omega) hgrid
  refine ⟨_, hresult, hx.plain.2.2.2, ?_, hencodes.finite, hencodes.sign,
    ⟨2 ^ (32 * j) * (m / t), ?_⟩, ?_⟩
  · unfold exponentDiff
    rw [hsize, hdivisor, log_significand hs hs', log_significand ht ht']
    exact hfar
  · rw [hencodes.size, ← mul_assoc, ← pow_add, show 32 + 32 * j = 32 * (j + 1) by ring]
    exact hdivide
  · by_cases hzero : m % t = 0
    · refine .inl (isZero_of_magnitude hencodes.finite ?_)
      rw [hencodes.size, hzero, Nat.cast_zero, zero_mul]
    · right
      have hmpos : (0 : ℝ) < ((m % t : ℕ) : ℝ) * 2 ^ (e - width - 63) :=
        mul_pos (by exact_mod_cast Nat.pos_of_ne_zero hzero) (zpow_pos two_pos _)
      have hbound : ((m % t : ℕ) : ℝ) * 2 ^ (e - width - 63) < 2 ^ (e - width + 1) := by
        have hcast : ((m % t : ℕ) : ℝ) < 2 ^ 64 := by exact_mod_cast hmod.trans ht'
        calc ((m % t : ℕ) : ℝ) * 2 ^ (e - width - 63) < 2 ^ 64 * 2 ^ (e - width - 63) :=
              mul_lt_mul_of_pos_right hcast (zpow_pos two_pos _)
          _ = 2 ^ (e - width + 1) := by
            rw [← zpow_natCast, ← zpow_add₀ two_ne_zero]
            congr 1
            ring
      have hlog := (Int.lt_zpow_iff_log_lt (by norm_num : 1 < 2) hmpos).mp
        (by exact_mod_cast hbound)
      unfold exponentDiff
      rw [hencodes.size, hsize, log_significand hs hs']
      unfold partialQuotientMinWidth at hwidth
      omega

/-! ### The Whole Quotient -/

/-- Whether a quotient is taken to the next integer. -/
def NextQuotient (nearest : Bool) (m b : ℕ) : Prop :=
  nearest = true ∧ (b < 2 * (m % b) ∨ (2 * (m % b) = b ∧ ¬ Even (m / b)))

open Classical in
lemma roundQuotient_natDiv {m b : ℕ} (hb : 0 < b) : roundQuotient nearest ((m : ℝ) / b) =
    ((m / b + if NextQuotient nearest m b then 1 else 0 : ℕ) : ℤ) := by
  unfold roundQuotient NextQuotient
  cases nearest
  · rw [if_neg Bool.false_ne_true, floor_natDiv, if_neg (fun h => Bool.false_ne_true h.1),
      Nat.add_zero]
  · rw [if_pos rfl, roundEven_natDiv hb]
    simp only [true_and]

lemma quotient_units {m b : ℕ} {size divisor u : ℝ} (hu : 0 < u) (hsize : size = m * u)
    (hdivisor : divisor = b * u) : size / divisor = (m : ℝ) / b := by
  rw [hsize, hdivisor, mul_div_mul_right _ _ hu.ne']

lemma complete_canonical (hx : x.Operand)
    (h : roundQuotient nearest (x.magnitude / y.magnitude) = 0) :
    x.Complete nearest y x.canonical 0 := by
  have hencodes := canonical_encodes hx
  refine ⟨hencodes.finite, hencodes.canonical, 0, h.symm, ?_, rfl⟩
  rw [hencodes.toReal, Nat.cast_zero, mul_zero, sub_zero]

lemma remainderFinite_below (hx : x.Operand) (hy : y.Operand) {s t : ℕ} {e f : ℤ}
    (hxc : x.components = (s, e)) (hyc : y.components = (t, f)) (hbelow : e < f) :
    ∃ r bits, remainderFinite x y nearest = some (r, bits, true) ∧
      x.Complete nearest y r bits := by
  obtain ⟨hs, hs', hsize⟩ := hx.of_components hxc
  obtain ⟨ht, ht', hdivisor⟩ := hy.of_components hyc
  have hle := hx.components_le hxc
  have hu : (0 : ℝ) < 2 ^ (e - 63) := zpow_pos two_pos _
  obtain ⟨k, hk⟩ : ∃ k : ℕ, f = e + (k + 1) := ⟨(f - e - 1).toNat, by omega⟩
  -- the divisor in units of the dividend
  have hunit : y.magnitude = ((t * 2 ^ (k + 1) : ℕ) : ℝ) * 2 ^ (e - 63) := by
    rw [shift_size, hdivisor, hk]
    congr 2
  have hlarge : s < t * 2 ^ (k + 1) := by
    have hpow : 2 ^ 1 ≤ 2 ^ (k + 1) := Nat.pow_le_pow_right two_pos (by omega)
    have hmul : t * 2 ^ 1 ≤ t * 2 ^ (k + 1) := Nat.mul_le_mul_left _ hpow
    omega
  have hpos : 0 < t * 2 ^ (k + 1) := by omega
  have hquotient := @roundQuotient_natDiv nearest s _ hpos
  rw [← quotient_units hu hsize hunit, Nat.div_eq_of_lt hlarge, zero_add] at hquotient
  have hnext : NextQuotient nearest s (t * 2 ^ (k + 1)) ↔ nearest = true ∧ k = 0 ∧ t < s := by
    unfold NextQuotient
    rw [Nat.div_eq_of_lt hlarge, Nat.mod_eq_of_lt hlarge]
    refine and_congr_right fun _ => ?_
    cases k with
    | zero =>
      rw [zero_add, pow_one]
      have heven : ¬ ¬ Even 0 := not_not.mpr (by decide)
      constructor
      · rintro (hlt | ⟨-, hodd⟩)
        · exact ⟨rfl, by omega⟩
        · exact absurd hodd heven
      · rintro ⟨-, hlt⟩
        exact .inl (by omega)
    | succ k =>
      have hpow : 2 ^ 2 ≤ 2 ^ (k + 1 + 1) := Nat.pow_le_pow_right two_pos (by omega)
      have hmul : t * 2 ^ 2 ≤ t * 2 ^ (k + 1 + 1) := Nat.mul_le_mul_left _ hpow
      have heven : ¬ ¬ Even 0 := not_not.mpr (by decide)
      constructor
      · rintro (hlt | ⟨-, hodd⟩)
        · omega
        · exact absurd hodd heven
      · rintro ⟨hzero, -⟩
        omega
  unfold remainderFinite
  rw [hxc, hyc]
  dsimp only
  rw [if_pos (by omega)]
  have hcondition : (nearest && decide (e - f = -1) && decide (t < s)) = true ↔
      NextQuotient nearest s (t * 2 ^ (k + 1)) := by
    rw [hnext, Bool.and_eq_true, Bool.and_eq_true, decide_eq_true_iff, decide_eq_true_iff,
      and_assoc]
    refine and_congr_right fun _ => and_congr_left fun _ => ?_
    omega
  by_cases hup : NextQuotient nearest s (t * 2 ^ (k + 1))
  · obtain ⟨-, rfl, hlt⟩ := hnext.mp hup
    rw [if_pos hup] at hquotient
    rw [zero_add, pow_one] at hunit
    have hdifference : 2 * t - s < 2 ^ 64 := by omega
    have hvalue : (((2 * t - s : ℕ) : ℝ)) * 2 ^ (e - 63) = y.magnitude - x.magnitude := by
      rw [hunit, hsize, Nat.cast_sub (by omega), Nat.mul_comm]
      ring
    have hencodes := packRemainderU64_encodes (!x.sign) hdifference hle
      (hvalue ▸ y.onGrid_magnitude.sub x.onGrid_magnitude)
    rw [if_pos (hcondition.mpr hup), checkedShl_of_lt (by norm_num) (by omega),
      Option.bind_eq_bind, Option.bind_some, checkedSub, if_pos (by omega), Option.bind_some,
      pow_one, Nat.mul_comm t 2, Nat.mod_eq_of_lt hdifference]
    refine ⟨_, _, rfl, hencodes.finite, hencodes.canonical, 1, hquotient.symm, ?_, rfl⟩
    rw [hencodes.toReal, hvalue, Nat.cast_one, mul_one]
    cases x.sign
    · exact neg_sub _ _
    · exact (neg_sub _ _).symm
  · rw [if_neg hup] at hquotient
    rw [if_neg (mt hcondition.mp hup)]
    exact ⟨_, _, rfl, complete_canonical hx hquotient⟩

lemma remainderFinite_complete (hx : x.Operand) (hy : y.Operand) {s t : ℕ} {e f : ℤ}
    (hxc : x.components = (s, e)) (hyc : y.components = (t, f)) (hbelow : f ≤ e)
    (hnear : e - f < 64) : ∃ r bits, remainderFinite x y nearest = some (r, bits, true) ∧
      x.Complete nearest y r bits := by
  obtain ⟨hs, hs', hsize⟩ := hx.of_components hxc
  obtain ⟨ht, ht', hdivisor⟩ := hy.of_components hyc
  have hle := hy.components_le hyc
  have hu : (0 : ℝ) < 2 ^ (f - 63) := zpow_pos two_pos _
  obtain ⟨d, hd⟩ := Int.eq_ofNat_of_zero_le (show 0 ≤ e - f by omega)
  obtain ⟨m, hm⟩ : ∃ m, m = s * 2 ^ d := ⟨_, rfl⟩
  have hd64 : d < 64 := by omega
  have hbound : s * 2 ^ d < 2 ^ 64 * 2 ^ 63 := by
    calc s * 2 ^ d < 2 ^ 64 * 2 ^ d := Nat.mul_lt_mul_of_pos_right hs' (Nat.two_pow_pos _)
      _ ≤ 2 ^ 64 * 2 ^ 63 := Nat.mul_le_mul_left _ (Nat.pow_le_pow_right two_pos (by omega))
  have hunit : x.magnitude = m * 2 ^ (f - 63) := by
    rw [hm, shift_size, hsize]
    congr 2
    omega
  have htpos : 0 < t := by omega
  have hmod : m % t < t := Nat.mod_lt _ htpos
  have hwide : m / t < 2 ^ 64 := by
    rw [Nat.div_lt_iff_lt_mul htpos, hm]
    exact hbound.trans_le (Nat.mul_le_mul_left _ ht)
  have hquotient := @roundQuotient_natDiv nearest m t htpos
  rw [← quotient_units hu hunit hdivisor] at hquotient
  have hunit' : y.magnitude * 2 ^ 0 = t * 2 ^ (f - 63) := by
    rw [pow_zero, mul_one, hdivisor]
  have hdivide := divide_units hunit hunit'
  rw [pow_zero, one_mul] at hdivide
  have hremainder : ((m % t : ℕ) : ℝ) * 2 ^ (f - 63) =
      x.magnitude - y.magnitude * ((m / t : ℕ) : ℝ) := by
    rw [eq_sub_iff_add_eq, add_comm]
    exact hdivide.symm
  have hcondition : (nearest && decide (m % t ≠ 0) && (decide (t < (m % t) <<< 1) ||
      (decide ((m % t) <<< 1 = t) && decide (m / t &&& 1 ≠ 0)))) = true ↔
      NextQuotient nearest m t := by
    have hodd : m / t &&& 1 ≠ 0 ↔ ¬ Even (m / t) := by
      rw [Nat.and_one_is_mod, Nat.even_iff]
    unfold NextQuotient
    rw [Bool.and_eq_true, Bool.and_eq_true, Bool.or_eq_true, Bool.and_eq_true, decide_eq_true_iff,
      decide_eq_true_iff, decide_eq_true_iff, decide_eq_true_iff, hodd, Nat.shiftLeft_eq, pow_one,
      Nat.mul_comm (m % t) 2, and_assoc]
    refine and_congr_right fun _ => and_iff_right_of_imp ?_
    rintro (hlt | ⟨heq, -⟩) <;> omega
  unfold remainderFinite
  rw [hxc, hyc]
  dsimp only
  rw [if_neg (by omega), if_neg (by omega), hd, Int.toNat_natCast,
    checkedShl_of_lt (by omega) (hbound.trans (by norm_num)), ← hm, Option.bind_eq_bind,
    Option.bind_some, checkedDiv, if_neg htpos.ne', Option.bind_some, Nat.mod_eq_of_lt hwide,
    Nat.mod_eq_of_lt (hmod.trans ht')]
  by_cases hup : NextQuotient nearest m t
  · rw [if_pos hup] at hquotient
    have hvalue : ((t - m % t : ℕ) : ℝ) * 2 ^ (f - 63) =
        y.magnitude * ((m / t + 1 : ℕ) : ℝ) - x.magnitude := by
      rw [Nat.cast_sub hmod.le, sub_mul, hremainder, ← hdivisor]
      push_cast
      ring
    have hgrid := (y.onGrid_magnitude.mul_int ((m / t + 1 : ℕ) : ℤ)).sub x.onGrid_magnitude
    rw [Int.cast_natCast, ← hvalue] at hgrid
    have hencodes := packRemainderU64_encodes (!x.sign) (show t - m % t < 2 ^ 64 by omega) hle hgrid
    rw [if_pos (hcondition.mpr hup), checkedSub, if_pos hmod.le, Option.bind_some]
    refine ⟨_, _, rfl, hencodes.finite, hencodes.canonical, m / t + 1, hquotient.symm, ?_, ?_⟩
    · rw [hencodes.toReal, hvalue]
      cases x.sign
      · exact neg_sub _ _
      · exact (neg_sub _ _).symm
    · rw [show (7 : ℕ) = 2 ^ 3 - 1 by norm_num, Nat.and_two_pow_sub_one_eq_mod, wrappingAdd]
      exact Nat.mod_mod_of_dvd _ (by norm_num)
  · rw [if_neg hup, Nat.add_zero] at hquotient
    rw [if_neg (mt hcondition.mp hup)]
    have hgrid := x.onGrid_magnitude.sub (y.onGrid_magnitude.mul_int ((m / t : ℕ) : ℤ))
    rw [Int.cast_natCast, ← hremainder] at hgrid
    have hencodes := packRemainderU64_encodes x.sign (hmod.trans ht') hle hgrid
    have hbits : m / t &&& 7 = m / t % 8 := Nat.and_two_pow_sub_one_eq_mod _ 3
    have hcomplete : x.Complete nearest y (packRemainderU64 x.sign f (m % t)) (m / t &&& 7) := by
      refine ⟨hencodes.finite, hencodes.canonical, m / t, hquotient.symm, ?_, hbits⟩
      rw [hencodes.toReal, hremainder]
    by_cases hzero : m % t = 0
    · rw [if_pos hzero]
      have hpack : packRemainderU64 x.sign f (m % t) = if x.sign then negZero else zero := by
        rw [hzero]
        exact if_pos rfl
      rw [hpack] at hcomplete
      exact ⟨_, _, rfl, hcomplete⟩
    · rw [if_neg hzero]
      exact ⟨_, _, rfl, hcomplete⟩

end Fp80

/-! ### Runs -/

namespace Fp80

variable {x y r : Fp80} {nearest : Bool} {ef : ExceptionFlags}

lemma complete_zero (hzero : x.isZero = true) : x.Complete nearest y x 0 := by
  have hsize : x.magnitude = 0 := by
    unfold magnitude
    rw [(isZero_iff.mp hzero).2]
    simp
  refine ⟨finite_of_isZero hzero, .inl hzero, 0, ?_, ?_, rfl⟩
  · rw [hsize, zero_div]
    unfold roundQuotient
    cases nearest
    · exact Int.floor_zero.symm
    · exact (by exact_mod_cast roundEven_intCast (K := ℝ) 0 : roundEven (0 : ℝ) = 0).symm
  · rw [toReal_of_isZero hzero, hsize, Nat.cast_zero, mul_zero, sub_zero]
    cases x.sign
    · rfl
    · exact neg_zero.symm

lemma remainderImpl_step (hx : x.Finite) (hy : y.Operand) (ef : ExceptionFlags) :
    ∃ r bits complete, remainderImpl x y nearest ef =
        some ((r, bits, complete), y.flagDenormal (x.flagDenormal ef)) ∧
      (complete = true → x.Complete nearest y r bits) ∧
      (complete = false → x.Incomplete y r) := by
  obtain ⟨hsupported, hnan, hinfinity, hzero⟩ := hy.plain
  unfold remainderImpl
  rw [flagUnsupportedOperands_none hx.1.1 hsupported, hx.1.2, hnan, hx.2, hzero, hinfinity]
  dsimp only
  rw [if_neg Bool.false_ne_true, Bool.or_self, if_neg Bool.false_ne_true,
    if_neg Bool.false_ne_true, if_neg Bool.false_ne_true]
  rcases hx.cases with hxzero | hx
  · rw [if_pos hxzero]
    exact ⟨_, _, _, rfl, fun _ => complete_zero hxzero, fun h => absurd h.symm Bool.false_ne_true⟩
  · rw [hx.plain.2.2.2, if_neg Bool.false_ne_true, if_neg Bool.false_ne_true]
    obtain ⟨s, e, hxc, -⟩ := hx.components
    obtain ⟨t, f, hyc, -⟩ := hy.components
    by_cases hbelow : e < f
    · obtain ⟨r, bits, hresult, hcomplete⟩ :=
        @remainderFinite_below x y nearest hx hy s t e f hxc hyc hbelow
      rw [hresult]
      exact ⟨r, bits, true, rfl, fun _ => hcomplete, fun h => absurd h.symm Bool.false_ne_true⟩
    · by_cases hfar : 64 ≤ e - f
      · obtain ⟨r, hresult, hincomplete⟩ :=
          @remainderFinite_incomplete x y nearest hx hy s t e f hxc hyc hfar
        rw [hresult]
        exact ⟨r, 0, false, rfl, fun h => absurd h Bool.false_ne_true, fun _ => hincomplete⟩
      · obtain ⟨r, bits, hresult, hcomplete⟩ :=
          @remainderFinite_complete x y nearest hx hy s t e f hxc hyc (not_lt.mp hbelow)
            (not_le.mp hfar)
        rw [hresult]
        exact ⟨r, bits, true, rfl, fun _ => hcomplete, fun h => absurd h.symm Bool.false_ne_true⟩

/-! ### Repeated Steps -/

/-- The remainder is taken of its own result until it is complete; the results of the steps before
the last one are listed. -/
inductive Repeats (nearest : Bool) (y : Fp80) :
    Fp80 → ExceptionFlags → List Fp80 → Fp80 → ℕ → ExceptionFlags → Prop where
  | last {x ef r bits ef'} :
    remainderImpl x y nearest ef = some ((r, bits, true), ef') →
      Repeats nearest y x ef [] r bits ef'
  | next {x ef r bits ef' rs r' bits' ef''} :
    remainderImpl x y nearest ef = some ((r, bits, false), ef') →
      Repeats nearest y r ef' rs r' bits' ef'' → Repeats nearest y x ef (r :: rs) r' bits' ef''

/-- A part of the quotient that was taken before does not show in the last step. -/
lemma Incomplete.complete (h : x.Incomplete y r) (hy : y.Operand) {last : Fp80} {bits : ℕ}
    (hlast : r.Complete nearest y last bits) : x.Complete nearest y last bits := by
  obtain ⟨n, hn⟩ := h.quotient
  obtain ⟨q, hq, hvalue, hbits⟩ := hlast.quotient
  have hpos := hy.magnitude_pos
  have hsum : x.magnitude / y.magnitude =
      ((2 ^ 32 * n : ℕ) : ℝ) + r.magnitude / y.magnitude := by
    rw [hn, add_div, mul_div_cancel_left₀ _ hpos.ne']
  refine ⟨hlast.finite, hlast.canonical, 2 ^ 32 * n + q, ?_, ?_, by omega⟩
  · have heven : Even ((2 ^ 32 * n : ℕ) : ℤ) := by
      rw [Int.even_coe_nat, Nat.even_mul]
      exact .inl (by decide)
    rw [hsum, Nat.cast_add, hq]
    unfold roundQuotient
    cases nearest
    · rw [if_neg Bool.false_ne_true, if_neg Bool.false_ne_true, Int.floor_natCast_add]
    · rw [if_pos rfl, if_pos rfl, ← Int.cast_natCast (R := ℝ), roundEven_even_add heven]
  · rw [hvalue, h.sign, hn]
    congr 1
    push_cast
    ring

/-- A number differs from the dividend by a multiple of the divisor. -/
def Congruent (x y r : Fp80) : Prop := ∃ k : ℤ, r.toReal = x.toReal - y.toReal * k

lemma Congruent.trans {r' : Fp80} (h : x.Congruent y r) (h' : r.Congruent y r') :
    x.Congruent y r' := by
  obtain ⟨k, hk⟩ := h
  obtain ⟨k', hk'⟩ := h'
  refine ⟨k + k', ?_⟩
  rw [hk', hk]
  push_cast
  ring

lemma signed_mul_cast (s t : Bool) (size : ℝ) (n : ℕ) :
    signed s size * ((signed (t ^^ s) (n : ℤ) : ℤ) : ℝ) = signed t (size * n) := by
  rw [signed_cast, signed_mul_signed, Int.cast_natCast]
  cases s <;> cases t <;> rfl

lemma Incomplete.congruent (h : x.Incomplete y r) : x.Congruent y r := by
  obtain ⟨n, hn⟩ := h.quotient
  refine ⟨signed (x.sign ^^ y.sign) ((2 ^ 32 * n : ℕ) : ℤ), ?_⟩
  unfold toReal
  rw [signed_mul_cast, h.sign, hn]
  cases x.sign
  · exact (add_sub_cancel_left _ _).symm
  · change -r.magnitude = -(_ + r.magnitude) - -_
    ring

/-- The next result is zero or has its exponent nearer to that of the divisor. -/
def Closer (y x r : Fp80) : Prop := r.isZero = true ∨ exponentDiff r y < exponentDiff x y

lemma exists_repeats (hy : y.Operand) (n : ℕ) : ∀ {x : Fp80} (ef : ExceptionFlags), x.Finite →
    x.isZero = true ∨ exponentDiff x y < n → ∃ rs r bits ef',
      Repeats nearest y x ef rs r bits ef' ∧ x.Complete nearest y r bits ∧
        (∀ r' ∈ rs, x.Congruent y r') ∧ List.IsChain (Closer y) (x :: rs) := by
  have hends : ∀ {x r : Fp80} {ef ef' : ExceptionFlags} {bits : ℕ},
      remainderImpl x y nearest ef = some ((r, bits, true), ef') →
      x.Complete nearest y r bits → ∃ rs r bits ef',
        Repeats nearest y x ef rs r bits ef' ∧ x.Complete nearest y r bits ∧
          (∀ r' ∈ rs, x.Congruent y r') ∧ List.IsChain (Closer y) (x :: rs) :=
    fun hstep hcomplete => ⟨[], _, _, _, .last hstep, hcomplete,
      fun _ h => absurd h List.not_mem_nil, .singleton _⟩
  induction n with
  | zero =>
    intro x ef hx hbound
    obtain ⟨r, bits, complete, hstep, hcomplete, hincomplete⟩ :=
      @remainderImpl_step x y nearest hx hy ef
    cases complete
    · have h := hincomplete rfl
      have hwide := h.wide
      rcases hbound with hzero | hlt
      · exact absurd (h.dividend.symm.trans hzero) Bool.false_ne_true
      · omega
    · exact hends hstep (hcomplete rfl)
  | succ n ih =>
    intro x ef hx hbound
    obtain ⟨r, bits, complete, hstep, hcomplete, hincomplete⟩ :=
      @remainderImpl_step x y nearest hx hy ef
    cases complete
    · have h := hincomplete rfl
      have hlt := hbound.resolve_left (by rw [h.dividend]; exact Bool.false_ne_true)
      obtain ⟨rs, last, bits', ef', hrepeats, hlast, hcongruent, hchain⟩ :=
        ih (y.flagDenormal (x.flagDenormal ef)) h.finite (h.closer.imp_right fun hcloser => by
          push_cast at hlt
          omega)
      refine ⟨r :: rs, last, bits', ef', .next hstep hrepeats, h.complete hy hlast, ?_,
        .cons_cons h.closer hchain⟩
      intro r' hr'
      rcases List.mem_cons.mp hr' with rfl | hr'
      · exact h.congruent
      · exact h.congruent.trans (hcongruent r' hr')
    · exact hends hstep (hcomplete rfl)

/-- The quotient of two numbers, truncated or to nearest. -/
noncomputable def quotientInteger (nearest : Bool) (u : ℝ) : ℤ :=
  if nearest then roundEven u else truncate u

lemma quotientInteger_div (nearest : Bool) (x y : Fp80) :
    quotientInteger nearest (x.toReal / y.toReal) =
      signed (x.sign ^^ y.sign) (roundQuotient nearest (x.magnitude / y.magnitude)) := by
  have hnonneg : 0 ≤ x.magnitude / y.magnitude := div_nonneg x.magnitude_nonneg y.magnitude_nonneg
  unfold toReal quotientInteger roundQuotient
  rw [signed_div_signed]
  cases nearest
  · rw [if_neg Bool.false_ne_true, if_neg Bool.false_ne_true]
    exact round_signed .zero _ hnonneg
  · rw [if_pos rfl, if_pos rfl]
    exact round_signed .nearestEven _ hnonneg

/-- The last result is the remainder of the division, with the low bits of its quotient. -/
structure Remainder (nearest : Bool) (x y r : Fp80) (bits : ℕ) : Prop where
  finite : r.Finite
  canonical : r.Canonical
  value : r.toReal = x.toReal - y.toReal * quotientInteger nearest (x.toReal / y.toReal)
  bits : bits = (quotientInteger nearest (x.toReal / y.toReal)).natAbs % 8

lemma Complete.remainder {bits : ℕ} (h : x.Complete nearest y r bits) :
    Remainder nearest x y r bits := by
  obtain ⟨q, hq, hvalue, hbits⟩ := h.quotient
  have hinteger := quotientInteger_div nearest x y
  rw [← hq] at hinteger
  refine ⟨h.finite, h.canonical, ?_, ?_⟩
  · rw [hinteger, hvalue]
    unfold toReal
    rw [signed_mul_cast]
    cases x.sign
    · rfl
    · change -(_ - _) = -_ - -_
      ring
  · rw [hinteger, hbits]
    congr 1
    cases x.sign ^^ y.sign
    · rfl
    · have hneg : signed true (q : ℤ) = -(q : ℤ) := rfl
      rw [hneg, Int.natAbs_neg, Int.natAbs_natCast]

/-- **Repeated partial remainders end with the exact remainder of the division.** -/
theorem remainders_end (hx : x.Finite) (hy : y.Operand) (nearest : Bool) (ef : ExceptionFlags) :
    ∃ rs r bits ef', Repeats nearest y x ef rs r bits ef' ∧ Remainder nearest x y r bits ∧
      (∀ r' ∈ rs, x.Congruent y r') ∧ List.IsChain (Closer y) (x :: rs) := by
  obtain ⟨rs, r, bits, ef', hrepeats, hcomplete, hcongruent, hchain⟩ :=
    @exists_repeats y nearest hy ((exponentDiff x y).toNat + 1) x ef hx (.inr (by omega))
  exact ⟨rs, r, bits, ef', hrepeats, hcomplete.remainder, hcongruent, hchain⟩

/-- The largest number by the largest denormal, to nearest. -/
theorem remainders_end_largest : ∃ rs r bits ef',
    Repeats true largestDenormal (Rounded.largestFinite.pack false .extended) .default rs r bits
      ef' ∧
    Remainder true (Rounded.largestFinite.pack false .extended) largestDenormal r bits ∧
    (∀ r' ∈ rs, (Rounded.largestFinite.pack false .extended).Congruent largestDenormal r') ∧
    List.IsChain (Closer largestDenormal) (Rounded.largestFinite.pack false .extended :: rs) :=
  remainders_end (Operand.finite (.inl (by decide))) (.inr (.inl (by decide))) true .default

end Fp80

end Neetan.SoftFloat
