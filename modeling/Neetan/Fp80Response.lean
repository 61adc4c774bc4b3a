import Neetan.Fp80Operands

/-!
The responses to overflows and underflows that are not masked.

A response is the result with an unbounded exponent, its exponent moved by a constant toward the
range of the format. One that is still out of range is an infinity or a zero.
-/

namespace Neetan.SoftFloat

open MachineInt RealRounding

open Classical in
/-- By how much the exponent of a result is moved. -/
noncomputable def responseShift (rc : RoundingMode) (pc : Precision) (x : ℝ) : ℤ :=
  if Overflows rc pc x then -unmaskedResponseBias else unmaskedResponseBias

/-- A number that is an infinity above the range of the format, and a zero below it. -/
noncomputable def responseValue (negative : Bool) (z : ℝ) : EReal :=
  if 2 ^ (Fp80.bias + 1) ≤ |z| then signed negative ⊤
  else if |z| < smallestNormal then 0
  else (z : EReal)

/-- The response to an exact result. -/
structure Responds (rc : RoundingMode) (pc : Precision) (x : ℝ) (response : BiasedResult) :
    Prop where
  value : response.value.value =
    responseValue (decide (x < 0)) (unboundedResult rc pc x * 2 ^ responseShift rc pc x)
  sign : response.value.sign = decide (x < 0)
  canonical : response.value.Canonical
  precision : response.precision = true ↔
    response.value.value ≠ ((x * 2 ^ responseShift rc pc x : ℝ) : EReal)
  roundedUp : response.roundedUp = true ↔
    ((|x * 2 ^ responseShift rc pc x| : ℝ) : EReal) < response.value.size

/-- Rounding an exact result leaves the other flags, with a response where the result does not
fit. -/
structure Signals (rc : RoundingMode) (pc : Precision) (x : ℝ) (ef ef' : ExceptionFlags) :
    Prop where
  invalid : ef'.invalid = ef.invalid
  denormal : ef'.denormal = ef.denormal
  zeroDivide : ef'.zeroDivide = ef.zeroDivide
  response : Overflows rc pc x ∨ IsTiny rc pc x →
    ∃ response, ef'.biased = some response ∧ Responds rc pc x response
  fits : ¬ (Overflows rc pc x ∨ IsTiny rc pc x) → ef'.biased = ef.biased

/-! ### Powers of Two -/

lemma two_zpow_le_iff {e k : ℤ} {z : ℝ} (hlow : 2 ^ e ≤ z) (hhigh : z < 2 ^ (e + 1)) :
    2 ^ k ≤ z ↔ k ≤ e := by
  constructor
  · intro hle
    have hlt := hle.trans_lt hhigh
    have := (zpow_lt_zpow_iff_right₀ (one_lt_two (α := ℝ))).mp hlt
    omega
  · intro hle
    exact (zpow_le_zpow_right₀ one_le_two hle).trans hlow

/-! ### Encodings of the Response -/

lemma response_zero (sign : Bool) : (Fp80.fromBits (signBit sign) 0).isZero = true ∧
    (Fp80.fromBits (signBit sign) 0).sign = sign := by
  cases sign <;> decide

lemma response_zero_value (sign : Bool) : (Fp80.fromBits (signBit sign) 0).value = 0 ∧
    (Fp80.fromBits (signBit sign) 0).size = 0 := by
  have hzero := (response_zero sign).1
  have hfinite : (Fp80.fromBits (signBit sign) 0).isInfinity = false := by
    cases sign <;> decide
  unfold Fp80.value Fp80.size
  rw [hfinite, Fp80.toReal_of_isZero hzero]
  refine ⟨rfl, ?_⟩
  unfold Fp80.magnitude
  rw [(Fp80.isZero_iff.mp hzero).2]
  simp

lemma response_infinity_value (sign : Bool) :
    (Rounded.infinity.pack sign .extended).value = signed sign ⊤ ∧
      (Rounded.infinity.pack sign .extended).size = ⊤ := by
  obtain ⟨hinfinity, hsign⟩ := pack_infinity sign .extended
  unfold Fp80.value Fp80.size
  rw [if_pos hinfinity, if_pos hinfinity, hsign]
  cases sign <;> exact ⟨rfl, rfl⟩

namespace Rounds

variable {sign : Bool} {e : ℤ} {n : ℕ} {y x : ℝ}

lemma unbounded_signed (h : Rounds sign e n y x) (rc : RoundingMode) (pc : Precision) :
    unboundedResult rc pc x = signed sign |unboundedResult rc pc x| := by
  have hu : 0 ≤ y / 2 ^ (128 - pc.bits) := div_nonneg h.pos.le (pow_pos two_pos _).le
  have hfloor : (0 : ℤ) ≤ rc.roundSize sign (y / 2 ^ (128 - pc.bits)) :=
    (Int.floor_nonneg.mpr hu).trans (floor_le_roundSize rc sign _)
  have hnonneg : (0 : ℝ) ≤ (rc.roundSize sign (y / 2 ^ (128 - pc.bits)) : ℝ) *
      2 ^ (e + 1 - pc.bits) :=
    mul_nonneg (by exact_mod_cast hfloor) (zpow_pos two_pos _).le
  have heq : unboundedResult rc pc x = _ := h.unbounded_eq pc.grid rc
  rw [heq]
  exact congrArg (signed sign) (abs_signed sign hnonneg).symm

lemma unbounded_compare (h : Rounds sign e n y x) (rc : RoundingMode) (pc : Precision) {kept : ℕ}
    (hkept : (kept : ℤ) = rc.roundSize sign (y / 2 ^ (128 - pc.bits))) :
    (unboundedResult rc pc x ≠ x ↔ (kept : ℝ) ≠ y / 2 ^ (128 - pc.bits)) ∧
      (|x| < |unboundedResult rc pc x| ↔ y / 2 ^ (128 - pc.bits) < kept) := by
  have hpos : (0 : ℝ) < 2 ^ (e + 1 - pc.bits) := zpow_pos two_pos _
  have hscaled := @Rounds.scaled e y pc.bits pc.bits_bounds.2 0
  rw [Nat.add_zero, Nat.cast_zero, add_zero] at hscaled
  have heq : unboundedResult rc pc x = signed sign ((kept : ℝ) * 2 ^ (e + 1 - pc.bits)) := by
    rw [← Int.cast_natCast, hkept]
    exact h.unbounded_eq pc.grid rc
  constructor
  · rw [heq, h.value, hscaled, ne_eq, signed_inj, mul_left_inj' hpos.ne']
  · rw [heq, h.abs_eq, hscaled, abs_signed _ (mul_nonneg (Nat.cast_nonneg _) hpos.le)]
    exact mul_lt_mul_iff_of_pos_right hpos

/-- **The response is the result with an unbounded exponent, moved.** -/
theorem response (h : Rounds sign e n y x) (rc : RoundingMode) (pc : Precision) {overflow : Bool}
    (hover : overflow = true ↔ Overflows rc pc x) :
    ∃ response, biasedResponse sign (e + Fp80.bias) n pc.bits rc overflow = some response ∧
      Responds rc pc x response := by
  obtain ⟨hbits, hbits'⟩ := pc.bits_bounds
  obtain ⟨kept, inexact, increment, hround, hkept, hinexact, hincrement⟩ :=
    @roundBits_spec sign n pc.bits rc y h.high hbits' (h.alike.pow_mono (by omega))
  obtain ⟨hlow, hhigh⟩ := h.size_bounds hbits' rc hkept (by omega)
  obtain ⟨carry, kept', hdecide, hshift, hvalue, hlow', hhigh'⟩ := carry_spec (by omega) hlow hhigh
  obtain ⟨hne, hup⟩ := h.unbounded_compare rc pc hkept
  have hunbounded : |unboundedResult rc pc x| = _ := @Rounds.carried _ _ _ _ _ h pc.grid rc _ _ _
    hkept hvalue
  change _ = kept' * (2 : ℝ) ^ (e + carry.toNat + 1 - pc.bits) at hunbounded
  have hsigned := h.unbounded_signed rc pc
  have hlt := h.lt_zero
  -- the move of the exponent
  have hmove : ∀ b : ℤ, (if overflow = true then b - unmaskedResponseBias
      else b + unmaskedResponseBias) = b + responseShift rc pc x := by
    intro b
    unfold responseShift
    by_cases ho : Overflows rc pc x
    · rw [if_pos (hover.mpr ho), if_pos ho]
      ring
    · rw [if_neg (mt hover.mp ho), if_neg ho]
  obtain ⟨k, hk⟩ : ∃ k, k = responseShift rc pc x := ⟨_, rfl⟩
  obtain ⟨top, htop⟩ : ∃ top, top = e + carry.toNat + k := ⟨_, rfl⟩
  have hbiased : (if carry = true then e + Fp80.bias + 1 else e + Fp80.bias) + k =
      top + Fp80.bias := by
    rw [htop]
    cases carry
    · simp only [Bool.false_eq_true, if_false, Bool.toNat_false, Nat.cast_zero]
      ring
    · simp only [if_true, Bool.toNat_true, Nat.cast_one]
      ring
  obtain ⟨z, hz⟩ : ∃ z, z = unboundedResult rc pc x * 2 ^ k := ⟨_, rfl⟩
  have hkpos : (0 : ℝ) < 2 ^ k := zpow_pos two_pos _
  have hsize : |z| = kept' * 2 ^ (top + 1 - pc.bits) := by
    rw [hz, abs_mul, abs_of_pos hkpos, hunbounded, mul_assoc, ← zpow_add₀ two_ne_zero, htop]
    congr 2
    ring
  have hz' : z = signed sign |z| := by
    rw [hz, abs_mul, abs_of_pos hkpos, ← signed_mul, ← hsigned]
  have hzlow : 2 ^ top ≤ |z| := by
    have hcast : (2 : ℝ) ^ (pc.bits - 1) ≤ kept' := by exact_mod_cast hlow'
    calc (2 : ℝ) ^ top = 2 ^ (pc.bits - 1) * 2 ^ (top + 1 - pc.bits) := by
          rw [← zpow_natCast, ← zpow_add₀ two_ne_zero]
          congr 1
          push_cast [Nat.cast_sub (show 1 ≤ pc.bits by omega)]
          ring
      _ ≤ |z| := by
        rw [hsize]
        exact mul_le_mul_of_nonneg_right hcast (zpow_pos two_pos _).le
  have hzhigh : |z| < 2 ^ (top + 1) := by
    have hcast : (kept' : ℝ) < 2 ^ pc.bits := by exact_mod_cast hhigh'
    calc |z| < 2 ^ pc.bits * 2 ^ (top + 1 - pc.bits) := by
          rw [hsize]
          exact mul_lt_mul_of_pos_right hcast (zpow_pos two_pos _)
      _ = 2 ^ (top + 1) := by
        rw [← zpow_natCast, ← zpow_add₀ two_ne_zero]
        congr 1
        ring
  have hlarge : 2 ^ (Fp80.bias + 1) ≤ |z| ↔ Fp80.bias + 1 ≤ top := two_zpow_le_iff hzlow hzhigh
  have hsmall : |z| < smallestNormal ↔ top < leastExponent := by
    rw [← not_le, smallestNormal, two_zpow_le_iff hzlow hzhigh, not_le]
  unfold biasedResponse
  rw [hround]
  simp only [Option.bind_eq_bind, Option.bind_some, hdecide, hshift, hmove, ← hk, hbiased]
  by_cases hinfinite : Fp80.bias + 1 ≤ top
  · rw [if_pos (show 0x7FFF ≤ top + Fp80.bias by unfold Fp80.bias at hinfinite ⊢; omega)]
    obtain ⟨hv, hs⟩ := response_infinity_value sign
    obtain ⟨hinfinity, hsign⟩ := pack_infinity sign .extended
    refine ⟨_, rfl, ?_, ?_, .inr (.inr (.inr hinfinity)), ?_, ?_⟩
    · rw [← hk, ← hz, responseValue, if_pos (hlarge.mpr hinfinite), hlt]
      exact hv
    · rw [hlt]
      exact hsign
    · refine iff_of_true rfl ?_
      change (Rounded.infinity.pack sign .extended).value ≠ _
      rw [hv]
      cases sign
      · exact (EReal.coe_ne_top _).symm
      · exact (EReal.coe_ne_bot _).symm
    · refine iff_of_true rfl ?_
      change _ < (Rounded.infinity.pack sign .extended).size
      rw [hs]
      exact EReal.coe_lt_top _
  · rw [if_neg (show ¬ 0x7FFF ≤ top + Fp80.bias by unfold Fp80.bias at hinfinite ⊢; omega)]
    by_cases htiny : top < leastExponent
    · rw [if_pos (show top + Fp80.bias < 1 by unfold leastExponent at htiny; omega)]
      obtain ⟨hv, hs⟩ := response_zero_value sign
      obtain ⟨hzero, hsign⟩ := response_zero sign
      have hxk : x * 2 ^ k ≠ 0 := mul_ne_zero h.ne_zero hkpos.ne'
      refine ⟨_, rfl, ?_, ?_, .inl hzero, ?_, ?_⟩
      · rw [← hk, ← hz, responseValue, if_neg (mt hlarge.mp hinfinite), if_pos (hsmall.mpr htiny)]
        exact hv
      · rw [hlt]
        exact hsign
      · refine iff_of_true rfl ?_
        rw [hv, ← hk, ← EReal.coe_zero, ne_eq, EReal.coe_eq_coe_iff]
        exact hxk.symm
      · refine iff_of_false Bool.false_ne_true ?_
        rw [hs, ← EReal.coe_zero, EReal.coe_lt_coe_iff]
        exact not_lt.mpr (abs_nonneg _)
    · rw [if_neg (show ¬ top + Fp80.bias < 1 by unfold leastExponent at htiny; omega)]
      obtain ⟨field, hfield⟩ := Int.eq_ofNat_of_zero_le
        (show 0 ≤ top + Fp80.bias by unfold leastExponent at htiny; omega)
      have hfield1 : 1 ≤ field := by
        unfold leastExponent at htiny
        omega
      have hfield2 : field < 0x7FFF := by
        unfold Fp80.bias at hinfinite hfield
        omega
      rw [hfield]
      have hfinite := @Fp80.packed_finite sign field kept' pc.bits hfield2
      have hsign := @Fp80.packed_sign sign field kept' pc.bits (by omega)
      have hmagnitude : (packed sign field kept' pc.bits).magnitude = |z| := by
        rw [Fp80.packed_magnitude (by omega) hbits' hhigh', max_eq_left hfield1, hsize]
        congr 2
        have : ((field : ℕ) : ℤ) = top + Fp80.bias := hfield.symm
        omega
      have hv : (packed sign field kept' pc.bits).value = (z : EReal) := by
        unfold Fp80.value Fp80.toReal
        rw [hfinite, hsign, hmagnitude, ← hz']
        rfl
      refine ⟨_, rfl, ?_, ?_, Fp80.canonical_packed hfield2 hbits' hhigh'
        (iff_of_true (by omega) hlow') (by omega), ?_, ?_⟩
      · rw [← hk, ← hz, responseValue, if_neg (mt hlarge.mp hinfinite),
          if_neg (mt hsmall.mp htiny)]
        exact hv
      · rw [hlt]
        exact hsign
      · change inexact = true ↔ (packed sign field kept' pc.bits).value ≠ _
        rw [hinexact, ← hne, hv, ← hk, ne_eq, ne_eq, EReal.coe_eq_coe_iff, hz,
          mul_left_inj' hkpos.ne']
      · change increment = true ↔ _ < (packed sign field kept' pc.bits).size
        unfold Fp80.size
        rw [hincrement, ← hup, hfinite, hmagnitude, ← hk, hz, abs_mul, abs_mul,
          abs_of_pos hkpos]
        change _ ↔ ((_ : ℝ) : EReal) < ((_ : ℝ) : EReal)
        rw [EReal.coe_lt_coe_iff]
        exact (mul_lt_mul_iff_of_pos_right hkpos).symm

end Rounds

/-! ### The Other Flags -/

/-- Two states of the flags with the same flags that rounding leaves. -/
structure SameOthers (ef ef' : ExceptionFlags) : Prop where
  invalid : ef'.invalid = ef.invalid
  denormal : ef'.denormal = ef.denormal
  zeroDivide : ef'.zeroDivide = ef.zeroDivide
  biased : ef'.biased = ef.biased

lemma sameOthers_gradual (ef : ExceptionFlags) (tiny inexact increment : Bool) :
    SameOthers ef (ef.gradual tiny inexact increment) := by
  unfold ExceptionFlags.gradual
  cases inexact <;> exact ⟨rfl, rfl, rfl, rfl⟩

variable {rc : RoundingMode} {ef : ExceptionFlags} {biased biased' : ℤ} {p : ℕ}

lemma roundToFormat_others {sign : Bool} {maxBiased : ℤ} {n : ℕ} {ef' : ExceptionFlags}
    {rounded : Rounded} (hn : n < 2 ^ 128) (hp : p ≤ 64)
    (h : roundToFormat sign biased n p maxBiased rc ef = some (rounded, ef')) :
    SameOthers ef ef' := by
  unfold roundToFormat at h
  by_cases hnormal : 1 ≤ biased
  · rw [if_pos hnormal, roundBits_eq hn hp] at h
    simp only [Option.bind_eq_bind, Option.bind_some] at h
    split_ifs at h <;>
      · obtain ⟨-, rfl⟩ := Prod.mk.inj (Option.some.inj h)
        exact ⟨rfl, rfl, rfl, rfl⟩
  · rw [if_neg hnormal] at h
    obtain ⟨tiny, -, h⟩ := Option.bind_eq_some_iff.1 h
    obtain ⟨⟨kept, inexact, increment⟩, -, h⟩ := Option.bind_eq_some_iff.1 h
    obtain ⟨-, rfl⟩ := Prod.mk.inj (Option.some.inj h)
    exact sameOthers_gradual ef tiny inexact increment

lemma signals_merge {pc : Precision} {x : ℝ} {flags : ExceptionFlags}
    (hothers : SameOthers .default flags) {biased : Option BiasedResult}
    (hresponse : Overflows rc pc x ∨ IsTiny rc pc x →
      ∃ response, biased = some response ∧ Responds rc pc x response)
    (hfits : ¬ (Overflows rc pc x ∨ IsTiny rc pc x) → biased = none) (ef : ExceptionFlags) :
    Signals rc pc x ef (ef.merge { flags with biased := biased }) where
  invalid := by
    change (ef.invalid || flags.invalid) = ef.invalid
    rw [hothers.invalid]
    exact Bool.or_false _
  denormal := by
    change (ef.denormal || flags.denormal) = ef.denormal
    rw [hothers.denormal]
    exact Bool.or_false _
  zeroDivide := by
    change (ef.zeroDivide || flags.zeroDivide) = ef.zeroDivide
    rw [hothers.zeroDivide]
    exact Bool.or_false _
  response hor := by
    obtain ⟨response, hsome, hresponds⟩ := hresponse hor
    refine ⟨response, ?_, hresponds⟩
    change (if biased.isSome then biased else ef.biased) = some response
    rw [hsome]
    rfl
  fits hnot := by
    change (if biased.isSome then biased else ef.biased) = ef.biased
    rw [hfits hnot]
    rfl

/-- **Rounding and packing signal what the exact result asks for.** -/
theorem Rounds.signals {sign : Bool} {e : ℤ} {n : ℕ} {y x : ℝ} (h : Rounds sign e n y x)
    (rc : RoundingMode) (pc : Precision) (ef : ExceptionFlags) :
    ∃ r ef', Fp80.roundAndPack sign e n rc pc ef = some (r, ef') ∧ Delivers rc pc x ef r ef' ∧
      Signals rc pc x ef ef' := by
  obtain ⟨r, ef', hresult, hdelivers⟩ := h.roundAndPack rc pc ef
  refine ⟨r, ef', hresult, hdelivers, ?_⟩
  obtain ⟨hpos, hleading, hshift⟩ := h.normalized
  obtain ⟨rounded, flags, hround, hrounds⟩ := h.roundToFormat pc.grid rc .default
  change SoftFloat.roundToFormat sign (e + Fp80.bias) n pc.bits 0x7FFF rc .default = _ at hround
  have hothers := roundToFormat_others h.high pc.bits_bounds.2 hround
  have hover : flags.overflow = true ↔ Overflows rc pc x :=
    hrounds.overflow.trans (or_iff_right Bool.false_ne_true)
  have htiny : flags.tiny = true ↔ IsTiny rc pc x :=
    hrounds.tiny.trans (or_iff_right Bool.false_ne_true)
  have hcondition : (flags.overflow || flags.tiny) = true ↔
      Overflows rc pc x ∨ IsTiny rc pc x := by
    rw [Bool.or_eq_true, hover, htiny]
  obtain ⟨response, hresponse, hresponds⟩ := h.response rc pc hover
  unfold Fp80.roundAndPack at hresult
  rw [if_neg hpos, hleading] at hresult
  simp only [Nat.cast_zero, sub_zero, hshift, Option.bind_eq_bind, Option.bind_some, hround]
    at hresult
  by_cases hor : (flags.overflow || flags.tiny) = true
  · rw [if_pos hor, hresponse, Option.bind_some] at hresult
    obtain ⟨-, rfl⟩ := Prod.mk.inj (Option.some.inj hresult)
    exact signals_merge hothers (fun _ => ⟨response, rfl, hresponds⟩)
      (fun hnot => absurd (hcondition.mp hor) hnot) ef
  · rw [if_neg hor] at hresult
    obtain ⟨-, rfl⟩ := Prod.mk.inj (Option.some.inj hresult)
    exact signals_merge hothers (fun hx => absurd (hcondition.mpr hx) hor)
      (fun _ => hothers.biased) ef

lemma roundAndPack_signals {e : ℤ} {n : ℕ} (sign : Bool) (hpos : 0 < n) (hn : n < 2 ^ 128)
    (rc : RoundingMode) (pc : Precision) (ef : ExceptionFlags) :
    ∃ r ef', Fp80.roundAndPack sign e n rc pc ef = some (r, ef') ∧
      Delivers rc pc (signed sign (n * 2 ^ (e - 127))) ef r ef' ∧
      Signals rc pc (signed sign (n * 2 ^ (e - 127))) ef ef' := by
  rw [roundAndPack_shift hpos hn]
  refine (rounds_normalized hpos hn ?_).signals rc pc ef
  push_cast
  exact Alike.refl _ _

/-! ### Exponents Far out of Range -/

lemma roundToFormat_large {sign : Bool} {maxBiased : ℤ} {n : ℕ} (hn : n < 2 ^ 128) (hp : p ≤ 64)
    (hmax : 1 ≤ maxBiased) (h : maxBiased ≤ biased) (h' : maxBiased ≤ biased') :
    roundToFormat sign biased n p maxBiased rc ef =
      roundToFormat sign biased' n p maxBiased rc ef := by
  have hcarry : ∀ (carry : Prop) [Decidable carry],
      maxBiased ≤ if carry then biased + 1 else biased := by
    intro carry _
    split_ifs <;> omega
  have hcarry' : ∀ (carry : Prop) [Decidable carry],
      maxBiased ≤ if carry then biased' + 1 else biased' := by
    intro carry _
    split_ifs <;> omega
  unfold roundToFormat
  rw [if_pos (hmax.trans h), if_pos (hmax.trans h'), roundBits_eq hn hp]
  simp only [Option.bind_eq_bind, Option.bind_some]
  rw [if_pos (hcarry _), if_pos (hcarry' _)]

lemma roundToFormat_small {sign : Bool} {maxBiased : ℤ} {n : ℕ} (h : biased ≤ -127)
    (h' : biased' ≤ -127) :
    roundToFormat sign biased n p maxBiased rc ef =
      roundToFormat sign biased' n p maxBiased rc ef := by
  have hshift : ∀ b : ℤ, b ≤ -127 → shiftRightSticky n (1 - b).toNat = (n ≠ 0 : Bool).toNat := by
    intro b hb
    unfold shiftRightSticky
    rw [if_neg (by omega), if_pos (by omega)]
  have htiny : ∀ b : ℤ, b ≤ -127 → roundsTiny sign b n p rc = some true := by
    intro b hb
    unfold roundsTiny
    rw [if_pos (by omega)]
  unfold roundToFormat
  rw [if_neg (by omega), if_neg (by omega), hshift _ h, hshift _ h', htiny _ h, htiny _ h']

lemma biasedResponse_large {sign overflow : Bool} {n : ℕ} (hn : n < 2 ^ 128) (hp : p ≤ 64)
    (h : 60000 ≤ biased) (h' : 60000 ≤ biased') : biasedResponse sign biased n p rc overflow =
      biasedResponse sign biased' n p rc overflow := by
  have hmoved : ∀ b : ℤ, 60000 ≤ b → ∀ (carry : Prop) [Decidable carry],
      0x7FFF ≤ if overflow = true then (if carry then b + 1 else b) - unmaskedResponseBias
        else (if carry then b + 1 else b) + unmaskedResponseBias := by
    intro b hb carry _
    unfold unmaskedResponseBias
    split_ifs <;> omega
  unfold biasedResponse
  rw [roundBits_eq hn hp]
  simp only [Option.bind_eq_bind, Option.bind_some]
  rw [if_pos (hmoved _ h _), if_pos (hmoved _ h' _)]

lemma biasedResponse_small {sign overflow : Bool} {n : ℕ} (hn : n < 2 ^ 128) (hp : p ≤ 64)
    (h : biased ≤ -30000) (h' : biased' ≤ -30000) : biasedResponse sign biased n p rc overflow =
      biasedResponse sign biased' n p rc overflow := by
  have hmoved : ∀ b : ℤ, b ≤ -30000 → ∀ (carry : Prop) [Decidable carry],
      (if overflow = true then (if carry then b + 1 else b) - unmaskedResponseBias
        else (if carry then b + 1 else b) + unmaskedResponseBias) < 1 := by
    intro b hb carry _
    unfold unmaskedResponseBias
    split_ifs <;> omega
  have hmoved' : ∀ b : ℤ, b ≤ -30000 → ∀ (carry : Prop) [Decidable carry],
      ¬ 0x7FFF ≤ if overflow = true then (if carry then b + 1 else b) - unmaskedResponseBias
        else (if carry then b + 1 else b) + unmaskedResponseBias := by
    intro b hb carry _
    have := hmoved b hb carry
    omega
  unfold biasedResponse
  rw [roundBits_eq hn hp]
  simp only [Option.bind_eq_bind, Option.bind_some]
  rw [if_neg (hmoved' _ h _), if_neg (hmoved' _ h' _), if_pos (hmoved _ h _),
    if_pos (hmoved _ h' _)]

lemma roundAndPack_far {sign : Bool} {e e' : ℤ} {n : ℕ} {pc : Precision} (hn : n < 2 ^ 128)
    (h : (100000 ≤ e ∧ 100000 ≤ e') ∨ (e ≤ -100000 ∧ e' ≤ -100000)) :
    Fp80.roundAndPack sign e n rc pc ef = Fp80.roundAndPack sign e' n rc pc ef := by
  have hp := pc.bits_bounds.2
  by_cases hzero : n = 0
  · unfold Fp80.roundAndPack
    rw [if_pos hzero, if_pos hzero]
  have hpos := Nat.pos_of_ne_zero hzero
  have hleading := leadingZeros_lt hpos hn
  have hhigh := (shl_leadingZeros hpos hn).2
  have hshift := checkedShl_of_lt hleading hhigh
  obtain ⟨leading, hleading'⟩ : ∃ leading, leadingZeros 128 n = leading := ⟨_, rfl⟩
  rw [hleading'] at hleading hhigh hshift
  obtain ⟨b, hb⟩ : ∃ b, b = e - leading + Fp80.bias := ⟨_, rfl⟩
  obtain ⟨b', hb'⟩ : ∃ b', b' = e' - leading + Fp80.bias := ⟨_, rfl⟩
  have hsides : (60000 ≤ b ∧ 60000 ≤ b') ∨ (b ≤ -30000 ∧ b' ≤ -30000) := by
    unfold Fp80.bias at hb hb'
    omega
  have hround : roundToFormat sign b (n * 2 ^ leading) pc.bits 0x7FFF rc .default =
      roundToFormat sign b' (n * 2 ^ leading) pc.bits 0x7FFF rc .default := by
    rcases hsides with ⟨h1, h2⟩ | ⟨h1, h2⟩
    · exact roundToFormat_large hhigh hp (by norm_num) (by omega) (by omega)
    · exact roundToFormat_small (by omega) (by omega)
  have hresponse : ∀ overflow, biasedResponse sign b (n * 2 ^ leading) pc.bits rc overflow =
      biasedResponse sign b' (n * 2 ^ leading) pc.bits rc overflow := by
    intro overflow
    rcases hsides with ⟨h1, h2⟩ | ⟨h1, h2⟩
    · exact biasedResponse_large hhigh hp h1 h2
    · exact biasedResponse_small hhigh hp h1 h2
  unfold Fp80.roundAndPack
  simp only [if_neg hzero, hleading', hshift, ← hb, ← hb', Option.bind_eq_bind, Option.bind_some,
    hround, hresponse]

end Neetan.SoftFloat
