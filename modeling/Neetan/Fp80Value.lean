import Neetan.Fp80
import Neetan.RealRounding
import Mathlib.Data.EReal.Operations
import Mathlib.Data.Nat.Bitwise

/-!
The numbers that encodings stand for.

A finite number is a sign and a size, the significand in units of the last place.
-/

namespace Neetan.SoftFloat

open MachineInt RealRounding

/-! ### Bits -/

lemma and_pow_ne_zero {i x : ℕ} (h : x < 2 ^ (i + 1)) : x &&& 2 ^ i ≠ 0 ↔ 2 ^ i ≤ x := by
  have hpow : 2 ^ (i + 1) = 2 ^ i * 2 := pow_succ 2 i
  have hpos := Nat.two_pow_pos i
  have hdiv : x / 2 ^ i < 2 := (Nat.div_lt_iff_lt_mul hpos).mpr (by omega)
  have hle : 1 ≤ x / 2 ^ i ↔ 2 ^ i ≤ x := by
    rw [Nat.le_div_iff_mul_le hpos, one_mul]
  rw [Nat.and_two_pow, Nat.testBit_eq_decide_div_mod_eq, ← hle]
  generalize x / 2 ^ i = quotient at hdiv
  by_cases hx : quotient % 2 = 1
  · rw [decide_eq_true hx, Bool.toNat_true, one_mul]
    exact iff_of_true hpos.ne' (by omega)
  · rw [decide_eq_false hx, Bool.toNat_false, zero_mul]
    exact iff_of_false (fun hne => hne rfl) (by omega)

namespace Fp80

lemma sign_eq (a : Fp80) : a.sign = decide (2 ^ 15 ≤ a.signExponent.toNat) := by
  have hne : a.signExponent &&& 0x8000 ≠ 0 ↔ a.signExponent.toNat &&& 2 ^ 15 ≠ 0 := by
    rw [ne_eq, ← BitVec.toNat_inj, BitVec.toNat_and]
    rfl
  exact decide_eq_decide.mpr (hne.trans (and_pow_ne_zero a.signExponent.isLt))

lemma exponent_eq (a : Fp80) : a.exponent = a.signExponent.toNat % 2 ^ 15 := by
  unfold exponent
  rw [BitVec.toNat_and]
  exact Nat.and_two_pow_sub_one_eq_mod a.signExponent.toNat 15

lemma jBit_eq (a : Fp80) : a.jBit = decide (2 ^ 63 ≤ a.significand.toNat) := by
  have hne : a.significand &&& 0x8000000000000000 ≠ 0 ↔ a.significand.toNat &&& 2 ^ 63 ≠ 0 := by
    rw [ne_eq, ← BitVec.toNat_inj, BitVec.toNat_and]
    rfl
  exact decide_eq_decide.mpr (hne.trans (and_pow_ne_zero a.significand.isLt))

lemma fraction_toNat (a : Fp80) : a.fraction.toNat = a.significand.toNat % 2 ^ 63 := by
  unfold fraction
  rw [BitVec.toNat_and]
  exact Nat.and_two_pow_sub_one_eq_mod a.significand.toNat 63

lemma exponent_lt (a : Fp80) : a.exponent < 2 ^ 15 := by
  rw [exponent_eq]
  exact Nat.mod_lt _ (Nat.two_pow_pos 15)

/-! ### Values -/

/-- The size of a finite number. -/
noncomputable def magnitude (a : Fp80) : ℝ := a.significand.toNat * 2 ^ (a.trueExponent - 63)

lemma magnitude_nonneg (a : Fp80) : 0 ≤ a.magnitude :=
  mul_nonneg (Nat.cast_nonneg _) (zpow_pos two_pos _).le

/-- A finite number. -/
noncomputable def toReal (a : Fp80) : ℝ := signed a.sign a.magnitude

/-- The size of a number. -/
noncomputable def size (a : Fp80) : EReal := if a.isInfinity then ⊤ else (a.magnitude : EReal)

/-- A number. -/
noncomputable def value (a : Fp80) : EReal :=
  if a.isInfinity then (if a.sign then ⊥ else ⊤) else (a.toReal : EReal)

/-- The encodings the FPU delivers for numbers. -/
def Canonical (a : Fp80) : Prop :=
  a.isZero = true ∨ a.isDenormal = true ∨ a.isNormal = true ∨ a.isInfinity = true

/-- A finite number other than zero in a supported encoding. -/
def Operand (a : Fp80) : Prop :=
  a.isNormal = true ∨ a.isDenormal = true ∨ a.isPseudoDenormal = true

lemma not_isInfinity {a : Fp80} (h : a.exponent ≠ 0x7FFF) : a.isInfinity = false := by
  unfold isInfinity
  rw [decide_eq_false h, Bool.false_and]

/-! ### Packed Numbers -/

lemma toNat_signBit_or (sign : Bool) {n : ℕ} (hn : n < 2 ^ 15) :
    (signBit sign ||| BitVec.ofNat 16 n).toNat = (if sign then 2 ^ 15 else 0) + n := by
  have hmod : (BitVec.ofNat 16 n).toNat = n := by
    rw [BitVec.toNat_ofNat]
    exact Nat.mod_eq_of_lt (by omega)
  rw [BitVec.toNat_or, hmod]
  cases sign
  · exact (Nat.zero_or n).trans (Nat.zero_add n).symm
  · exact (Nat.two_pow_add_eq_or_of_lt hn 1).symm

section

variable {sign : Bool} {n kept p : ℕ}

lemma packed_signExponent (hn : n < 2 ^ 15) :
    (packed sign n kept p).signExponent.toNat = (if sign then 2 ^ 15 else 0) + n := by
  rw [← toNat_signBit_or sign hn, ← BitVec.ofInt_natCast]
  rfl

lemma packed_sign (hn : n < 2 ^ 15) : (packed sign n kept p).sign = sign := by
  rw [sign_eq, packed_signExponent hn]
  cases sign
  · exact decide_eq_false (by simp; omega)
  · exact decide_eq_true (by simp)

lemma packed_exponent (hn : n < 2 ^ 15) : (packed sign n kept p).exponent = n := by
  rw [exponent_eq, packed_signExponent hn]
  cases sign
  · simp only [Bool.false_eq_true, if_false]
    omega
  · simp only [if_true]
    omega

lemma packed_significand (hp : p ≤ 64) (hkept : kept < 2 ^ p) :
    (packed sign n kept p).significand.toNat = kept * 2 ^ (64 - p) := by
  have hlt : kept * 2 ^ (64 - p) < 2 ^ 64 := by
    calc kept * 2 ^ (64 - p) < 2 ^ p * 2 ^ (64 - p) :=
          Nat.mul_lt_mul_of_pos_right hkept (Nat.two_pow_pos _)
      _ = 2 ^ 64 := by rw [← pow_add]; congr 1; omega
  have hkept' : kept < 2 ^ 64 := hkept.trans_le (Nat.pow_le_pow_right two_pos hp)
  change (BitVec.ofNat 64 kept <<< (64 - p)).toNat = _
  rw [BitVec.toNat_shiftLeft, BitVec.toNat_ofNat, Nat.mod_eq_of_lt hkept', Nat.shiftLeft_eq,
    Nat.mod_eq_of_lt hlt]

lemma packed_magnitude (hn : n < 2 ^ 15) (hp : p ≤ 64) (hkept : kept < 2 ^ p) :
    (packed sign n kept p).magnitude = kept * 2 ^ ((max n 1 : ℕ) - bias + 1 - p : ℤ) := by
  have hexp : (packed sign n kept p).trueExponent = (max n 1 : ℕ) - bias := by
    unfold trueExponent
    rw [packed_exponent hn]
    split_ifs with h0
    · rw [h0]
      rfl
    · rw [max_eq_left (by omega)]
  unfold magnitude
  rw [hexp, packed_significand hp hkept, Nat.cast_mul, Nat.cast_pow, Nat.cast_ofNat, mul_assoc,
    ← zpow_natCast, ← zpow_add₀ two_ne_zero]
  congr 2
  push_cast [Nat.cast_sub hp]
  ring

lemma packed_finite (hn : n < 0x7FFF) : (packed sign n kept p).isInfinity = false := by
  refine not_isInfinity ?_
  rw [packed_exponent (by omega)]
  omega

lemma canonical_packed (hn : n < 0x7FFF) (hp : p ≤ 64) (hkept : kept < 2 ^ p)
    (hnormal : n ≠ 0 ↔ 2 ^ (p - 1) ≤ kept) (hp1 : 1 ≤ p) : (packed sign n kept p).Canonical := by
  have hexp := @packed_exponent sign n kept p (by omega)
  have hsig := @packed_significand sign n kept p hp hkept
  have hj : (packed sign n kept p).jBit = decide (n ≠ 0) := by
    rw [jBit_eq, hsig]
    refine decide_eq_decide.mpr ?_
    rw [hnormal]
    have e : 2 ^ 63 = 2 ^ (p - 1) * 2 ^ (64 - p) := by
      rw [← pow_add]
      congr 1
      omega
    rw [e]
    exact Nat.mul_le_mul_right_iff (Nat.two_pow_pos _)
  by_cases hn0 : n = 0
  · by_cases hk : kept = 0
    · refine Or.inl ?_
      have hz : (packed sign n kept p).significand = 0 := by
        refine BitVec.toNat_inj.mp ?_
        rw [hsig, hk, Nat.zero_mul]
        rfl
      unfold isZero
      rw [hexp, hz, hn0]
      rfl
    · refine Or.inr (Or.inl ?_)
      have hlt : kept * 2 ^ (64 - p) < 2 ^ 63 := by
        rw [jBit_eq, hsig] at hj
        have := decide_eq_decide.mp hj
        omega
      have hf : (packed sign n kept p).fraction ≠ 0 := by
        intro hf
        have hnat := congrArg BitVec.toNat hf
        rw [fraction_toNat, hsig, Nat.mod_eq_of_lt hlt] at hnat
        have hpos := Nat.mul_pos (Nat.pos_of_ne_zero hk) (Nat.two_pow_pos (64 - p))
        exact hpos.ne' hnat
      unfold isDenormal
      rw [hexp, hj, decide_eq_true hf, hn0]
      rfl
  · refine Or.inr (Or.inr (Or.inl ?_))
    unfold isNormal
    rw [hexp, hj, decide_eq_true hn0, decide_eq_true (by omega), decide_eq_true (by omega)]
    rfl

end

end Fp80

end Neetan.SoftFloat
