import Neetan.Fp80Binary

/-!
Narrowing to a single or a double number.

The value is rounded once, and the flags are those of the rounding; a zero keeps its sign.
-/

namespace Neetan.SoftFloat

open MachineInt RealRounding

/-! ### Narrowing -/

/-- A finite number is narrowed to a number, its value rounded once, with the flags of the
rounding. -/
structure Narrows (fmt : BinaryFormat) (h : fmt.Standard) (rc : RoundingMode) (a : Fp80)
    (ef : ExceptionFlags) (bits : ℕ) (ef' : ExceptionFlags) : Prop where
  width : bits < 2 ^ fmt.width
  number : fmt.IsNumber bits
  sign : fmt.sign bits = a.sign
  value : fmt.value bits = (fmt.grid h).delivered rc a.toReal
  precision : ef'.precision = true ↔ ef.precision = true ∨ fmt.value bits ≠ a.toReal
  roundedUp : ef'.roundedUp = true ↔
    ef.roundedUp = true ∨ ((|a.toReal| : ℝ) : EReal) < fmt.size bits
  underflow : ef'.underflow = true ↔
    ef.underflow = true ∨ (fmt.grid h).IsTiny rc a.toReal ∧ fmt.value bits ≠ a.toReal
  overflow : ef'.overflow = true ↔ ef.overflow = true ∨ (fmt.grid h).Overflows rc a.toReal

namespace Grid

variable (g : Grid)

lemma unbounded_zero (rc : RoundingMode) : g.unbounded rc 0 = 0 := by
  have hround : rc.round (0 : ℝ) = 0 := by
    have hcast := Fp80.round_intCast 0 rc
    rwa [Int.cast_zero] at hcast
  unfold unbounded roundUnbounded roundAt
  rw [zero_div, hround, Int.cast_zero, zero_mul]

lemma not_overflows_zero (rc : RoundingMode) : ¬ g.Overflows rc 0 := by
  unfold Overflows
  rw [g.unbounded_zero, abs_zero, not_lt]
  exact g.least_lt_largest.le.trans' (zpow_pos two_pos _).le

lemma delivered_zero (rc : RoundingMode) : g.delivered rc 0 = 0 := by
  have hround : rc.round (0 : ℝ) = 0 := by
    have hcast := Fp80.round_intCast 0 rc
    rwa [Int.cast_zero] at hcast
  unfold delivered roundGradual roundAt
  rw [if_neg (g.not_overflows_zero rc), zero_div, hround, Int.cast_zero, zero_mul]
  rfl

end Grid

namespace Fp80

variable {a : Fp80} {fmt : BinaryFormat}

lemma flagDenormal_flags (a : Fp80) (ef : ExceptionFlags) :
    (a.flagDenormal ef).precision = ef.precision ∧ (a.flagDenormal ef).roundedUp = ef.roundedUp ∧
      (a.flagDenormal ef).underflow = ef.underflow ∧
        (a.flagDenormal ef).overflow = ef.overflow := by
  unfold flagDenormal
  split_ifs <;> exact ⟨rfl, rfl, rfl, rfl⟩

lemma Operand.rounds (ha : a.Operand) : ∃ s shift n,
    normalizeSignificand a.significand.toNat = (s, shift) ∧ checkedShl 128 s 64 = some n ∧
      Rounds a.sign (a.trueExponent - shift) n n a.toReal := by
  have hpos := ha.significand_pos
  have hlt := a.significand.isLt
  obtain ⟨hlow, hhigh⟩ := shl_leadingZeros hpos hlt
  have hnormalize : normalizeSignificand a.significand.toNat =
      (a.significand.toNat * 2 ^ leadingZeros 64 a.significand.toNat,
        leadingZeros 64 a.significand.toNat) := by
    unfold normalizeSignificand
    rw [if_neg hpos.ne']
    dsimp only
    rw [Nat.mod_eq_of_lt hhigh]
  generalize leadingZeros 64 a.significand.toNat = shift at *
  have hwide := widened_lt hhigh
  refine ⟨_, _, _, hnormalize, checkedShl_of_lt (by norm_num) hwide, ?_, hwide, Alike.refl _ _, ?_⟩
  · calc 2 ^ 127 = 2 ^ (64 - 1) * 2 ^ 64 := by norm_num
      _ ≤ a.significand.toNat * 2 ^ shift * 2 ^ 64 := Nat.mul_le_mul_right _ hlow
  · unfold toReal magnitude
    rw [Nat.cast_mul, Nat.cast_mul, Nat.cast_pow, Nat.cast_pow, Nat.cast_ofNat, mul_assoc,
      mul_assoc, ← zpow_natCast, ← zpow_natCast, ← zpow_add₀ two_ne_zero,
      ← zpow_add₀ two_ne_zero]
    congr 3
    push_cast
    ring

lemma Operand.roundToBinary_narrows (ha : a.Operand) (h : fmt.Standard) (rc : RoundingMode)
    (ef : ExceptionFlags) : ∃ bits ef', a.roundToBinary fmt rc ef = some (bits, ef') ∧
      Narrows fmt h rc a ef bits ef' := by
  obtain ⟨s, shift, n, hnormalize, hwide, hrounds⟩ := ha.rounds
  obtain ⟨rounded, ef', hround, hto⟩ := hrounds.roundToFormat (fmt.grid h) rc ef
  rw [BinaryFormat.maxBiased_grid] at hround
  obtain ⟨hnumber, hsign, hsize, hwidth⟩ := BinaryFormat.encodes_packBinary h a.sign hto.fields
  have hvalue : fmt.value (packBinary fmt a.sign rounded) = (fmt.grid h).value a.sign rounded := by
    unfold BinaryFormat.value Grid.value
    rw [hsign, hsize]
  have hprecision := hto.precision
  have hroundedUp := hto.roundedUp
  have hunderflow := hto.underflow
  rw [← hvalue] at hprecision hunderflow
  rw [← hsize] at hroundedUp
  refine ⟨_, ef', ?_, hwidth, hnumber, hsign, hvalue.trans hto.value, hprecision, hroundedUp,
    hunderflow, hto.overflow⟩
  unfold roundToBinary
  rw [hnormalize]
  dsimp only
  rw [hwide, Option.bind_eq_bind, Option.bind_some]
  change (roundToFormat a.sign (a.trueExponent - shift + (fmt.grid h).bias) n
    (fmt.grid h).precision fmt.allOnes rc ef).bind _ = _
  rw [hround]
  rfl

lemma zero_narrows (hzero : a.isZero = true) (h : fmt.Standard) (rc : RoundingMode)
    (ef : ExceptionFlags) : Narrows fmt h rc a ef (fmt.signBits a.sign) ef := by
  have hpos := Nat.two_pow_pos fmt.fractionBits
  have hpos' := Nat.two_pow_pos fmt.exponentBits
  have hbits : fmt.signBits a.sign = fmt.joined a.sign 0 0 := by
    rw [← BinaryFormat.or_eq_joined hpos' hpos, Nat.zero_shiftLeft, Nat.or_zero, Nat.or_zero]
  have hones : 0 < fmt.allOnes := by
    have := h.allOnes_eq
    have := h.range
    omega
  have hsize : fmt.size (fmt.signBits a.sign) = 0 := by
    rw [hbits, BinaryFormat.size_joined hones hpos, if_pos rfl, Nat.cast_zero, zero_mul]
    rfl
  have hvalue : fmt.value (fmt.signBits a.sign) = 0 := by
    unfold BinaryFormat.value
    rw [hsize]
    cases fmt.sign (fmt.signBits a.sign)
    · rfl
    · exact neg_zero
  have hreal := toReal_of_isZero hzero
  have hexact : ¬ fmt.value (fmt.signBits a.sign) ≠ a.toReal := by
    rw [hvalue, hreal]
    exact fun hne => hne rfl
  refine ⟨hbits ▸ BinaryFormat.joined_lt hpos' hpos,
    hbits ▸ BinaryFormat.isNumber_joined hones hpos, ?_, ?_, ?_, ?_, ?_, ?_⟩
  · rw [hbits, BinaryFormat.sign_joined hpos' hpos]
  · rw [hvalue, hreal, Grid.delivered_zero]
  · exact (or_iff_left hexact).symm
  · rw [hsize, hreal, abs_zero]
    exact (or_iff_left (lt_irrefl _)).symm
  · exact (or_iff_left fun hx => hexact hx.2).symm
  · rw [hreal]
    exact (or_iff_left (Grid.not_overflows_zero _ rc)).symm

lemma toBinary_narrows (ha : a.Finite) (h : fmt.Standard) (rc : RoundingMode)
    (ef : ExceptionFlags) : ∃ bits ef', a.toBinary fmt rc ef = some (bits, ef') ∧
      Narrows fmt h rc a ef bits ef' := by
  rw [toBinary_of_supported ha.1.1, narrow]
  simp only [ha.1.2, ha.2, Bool.false_eq_true, if_false]
  by_cases hzero : a.isZero = true
  · rw [if_pos hzero]
    exact ⟨_, _, rfl, zero_narrows hzero h rc ef⟩
  · rw [if_neg hzero]
    have hoperand := ha.cases.resolve_left hzero
    obtain ⟨hprecision, hroundedUp, hunderflow, hoverflow⟩ := a.flagDenormal_flags ef
    obtain ⟨bits, ef', hround, hnarrows⟩ :=
      hoperand.roundToBinary_narrows h rc (a.flagDenormal ef)
    refine ⟨bits, ef', hround, hnarrows.width, hnarrows.number, hnarrows.sign, hnarrows.value,
      ?_, ?_, ?_, ?_⟩
    · rw [← hprecision]
      exact hnarrows.precision
    · rw [← hroundedUp]
      exact hnarrows.roundedUp
    · rw [← hunderflow]
      exact hnarrows.underflow
    · rw [← hoverflow]
      exact hnarrows.overflow

end Fp80

end Neetan.SoftFloat
