import Neetan.Fp80
import Neetan.Fp80Scaling

/-!
The partial remainder of a division, truncated or to nearest.

A step whose exponents are far apart takes a part of the quotient only, and says so. Partial
remainders are exact, and repeated they end with the remainder of the division: what a step that
does not end leaves out of the quotient is a multiple of 2^32, so that it changes neither the low
bits nor which quotient is even.
-/

namespace Neetan.SoftFloat

open MachineInt RealRounding

/-- The smallest quotient width of an incomplete step. -/
def partialQuotientMinWidth : ℤ := 32

namespace Fp80

/-- A pseudo-denormal with the exponent field that gives its value. -/
def canonical (a : Fp80) : Fp80 :=
  if a.isPseudoDenormal then ⟨a.significand, a.signExponent ||| 0x0001⟩ else a

def packRemainderU64 (sign : Bool) (exponent : ℤ) (significand : ℕ) : Fp80 :=
  if significand = 0 then (if sign then negZero else zero)
  else
    let leading := leadingZeros 64 significand
    let normSig := significand <<< leading % 2 ^ 64
    let biased := exponent - leading + bias
    if biased ≤ 0 then
      let shiftRight := (1 - biased).toNat
      if 64 ≤ shiftRight then (if sign then negZero else zero)
      else fromBits (if sign then 0x8000 else 0x0000) (BitVec.ofNat 64 (normSig >>> shiftRight))
    else
      let field := BitVec.ofInt 16 biased
      fromBits (if sign then 0x8000 ||| field else field) (BitVec.ofNat 64 normSig)

/-- The remainder of two finite numbers, the low bits of the quotient, and whether this was the
last step. -/
def remainderFinite (dividend divisor : Fp80) (roundNearest : Bool) : Option (Fp80 × ℕ × Bool) := do
  let sign := dividend.sign
  let (dividendSig, dividendExp) := dividend.components
  let (divisorSig, divisorExp) := divisor.components
  let expDiff := dividendExp - divisorExp
  if expDiff < 0 then
    if roundNearest && expDiff = -1 && divisorSig < dividendSig then
      let doubled ← checkedShl 128 divisorSig 1
      let difference ← checkedSub doubled dividendSig
      return (packRemainderU64 (!sign) dividendExp (difference % 2 ^ 64), 1, true)
    else return (dividend.canonical, 0, true)
  else if 64 ≤ expDiff then
    let quotientWidth := partialQuotientMinWidth + expDiff % partialQuotientMinWidth
    let scaled ← checkedShl 128 dividendSig quotientWidth.toNat
    let _ ← checkedDiv scaled divisorSig
    return (packRemainderU64 sign (dividendExp - quotientWidth) (scaled % divisorSig % 2 ^ 64), 0,
      false)
  else
    let scaled ← checkedShl 128 dividendSig expDiff.toNat
    let wide ← checkedDiv scaled divisorSig
    let quotient := wide % 2 ^ 64
    let remainder := scaled % divisorSig % 2 ^ 64
    let doubled := remainder <<< 1
    if roundNearest && remainder ≠ 0 &&
        (divisorSig < doubled || (doubled = divisorSig && quotient &&& 1 ≠ 0)) then
      let flipped ← checkedSub divisorSig remainder
      return (packRemainderU64 (!sign) divisorExp flipped, wrappingAdd 64 quotient 1 &&& 7, true)
    else if remainder = 0 then return (if sign then negZero else zero, quotient &&& 7, true)
    else return (packRemainderU64 sign divisorExp remainder, quotient &&& 7, true)

def remainderImpl (dividend divisor : Fp80) (roundNearest : Bool) (ef : ExceptionFlags) :
    Option ((Fp80 × ℕ × Bool) × ExceptionFlags) := do
  let (unsupported, ef) := flagUnsupportedOperands [dividend, divisor] ef
  if unsupported then return ((indefinite, 0, true), ef)
  else if dividend.isNan || divisor.isNan then
    let (nan, ef) := propagateNan dividend divisor ef
    return ((nan, 0, true), ef)
  else if dividend.isInfinity then return ((indefinite, 0, true), { ef with invalid := true })
  else if divisor.isZero then return ((indefinite, 0, true), { ef with invalid := true })
  else
    let ef := divisor.flagDenormal (dividend.flagDenormal ef)
    if dividend.isZero then return ((dividend, 0, true), ef)
    else if divisor.isInfinity then return ((dividend.canonical, 0, true), ef)
    else
      let result ← remainderFinite dividend divisor roundNearest
      return (result, ef)

/-- The remainder of the truncated quotient. -/
def partialRemainder (dividend divisor : Fp80) (ef : ExceptionFlags) :
    Option ((Fp80 × ℕ × Bool) × ExceptionFlags) :=
  remainderImpl dividend divisor false ef

/-- The remainder of the quotient to nearest. -/
def ieeeRemainder (dividend divisor : Fp80) (ef : ExceptionFlags) :
    Option ((Fp80 × ℕ × Bool) × ExceptionFlags) :=
  remainderImpl dividend divisor true ef

end Fp80

/-! ### Encodings of a Remainder -/

lemma OnGrid.mul_int {x : ℝ} (hx : OnGrid x) (n : ℤ) : OnGrid (x * n) := by
  obtain ⟨m, rfl⟩ := hx
  refine ⟨m * n, ?_⟩
  push_cast
  ring

namespace Fp80

variable {a x y r : Fp80} {nearest : Bool}

lemma onGrid_magnitude (a : Fp80) : OnGrid a.magnitude := by
  have hgrid := a.onGrid_toReal
  unfold toReal at hgrid
  cases hsign : a.sign
  · rw [hsign] at hgrid
    exact hgrid
  · rw [hsign] at hgrid
    exact neg_neg a.magnitude ▸ hgrid.neg

/-- A finite number with a sign and a size. -/
structure Encodes (r : Fp80) (sign : Bool) (size : ℝ) : Prop where
  finite : r.Finite
  canonical : r.Canonical
  sign : r.sign = sign
  size : r.magnitude = size

lemma Encodes.toReal {sign : Bool} {size : ℝ} (h : r.Encodes sign size) :
    r.toReal = signed sign size := by
  rw [Fp80.toReal, h.sign, h.size]

lemma encodes_zero (sign : Bool) : (if sign then negZero else zero).Encodes sign 0 := by
  have hzero : (if sign then negZero else zero).isZero = true := by
    cases sign <;> decide
  refine ⟨finite_of_isZero hzero, .inl hzero, by cases sign <;> decide, ?_⟩
  unfold magnitude
  rw [(isZero_iff.mp hzero).2]
  simp

lemma encodes_packed (sign : Bool) {n kept : ℕ} (hn : n < 0x7FFF) (hkept : kept < 2 ^ 64)
    (hnormal : n ≠ 0 ↔ 2 ^ 63 ≤ kept) : (packed sign n kept 64).Encodes sign
      (kept * 2 ^ ((max n 1 : ℕ) - bias + 1 - (64 : ℕ) : ℤ)) := by
  have hcanonical := @canonical_packed sign n kept 64 hn le_rfl hkept hnormal (by norm_num)
  exact ⟨⟨hcanonical.numeric, packed_finite hn⟩, hcanonical, packed_sign (by omega),
    packed_magnitude (by omega) le_rfl hkept⟩

lemma packRemainderU64_encodes (sign : Bool) {e : ℤ} {n : ℕ} (hn : n < 2 ^ 64) (he : e ≤ bias)
    (hgrid : OnGrid (n * 2 ^ (e - 63))) :
    (packRemainderU64 sign e n).Encodes sign (n * 2 ^ (e - 63)) := by
  unfold packRemainderU64
  by_cases hzero : n = 0
  · rw [if_pos hzero, hzero, Nat.cast_zero, zero_mul]
    exact encodes_zero sign
  have hpos := Nat.pos_of_ne_zero hzero
  obtain ⟨hlow, hhigh⟩ := shl_leadingZeros hpos hn
  have hleading := leadingZeros_lt hpos hn
  rw [if_neg hzero]
  dsimp only
  generalize leadingZeros 64 n = leading at *
  rw [Nat.shiftLeft_eq, Nat.mod_eq_of_lt hhigh]
  obtain ⟨wide, hwide⟩ : ∃ wide, wide = n * 2 ^ leading := ⟨_, rfl⟩
  rw [← hwide] at hlow hhigh ⊢
  have hvalue : (n : ℝ) * 2 ^ (e - 63) = wide * 2 ^ (e - leading - 63) := by
    rw [hwide, Nat.cast_mul, Nat.cast_pow, Nat.cast_ofNat, mul_assoc, ← zpow_natCast,
      ← zpow_add₀ two_ne_zero]
    congr 2
    ring
  unfold bias at he
  by_cases hsmall : e - leading + bias ≤ 0
  · rw [if_pos hsmall]
    obtain ⟨s, hs⟩ : ∃ s, (1 - (e - leading + bias)).toNat = s := ⟨_, rfl⟩
    unfold bias at hsmall hs
    -- the bits behind the least place are zeros
    obtain ⟨m, hm⟩ : ∃ m, wide = m * 2 ^ s := by
      obtain ⟨m, hm⟩ := hgrid
      have hexp : (e - leading - 63 : ℤ) = leastExponent - 63 + -(s : ℤ) := by
        unfold leastExponent bias
        omega
      have hreal : (wide : ℝ) = m * 2 ^ s := by
        have hunit : (2 : ℝ) ^ (leastExponent - 63) ≠ 0 := (zpow_pos two_pos _).ne'
        have hpow : (2 : ℝ) ^ s ≠ 0 := (pow_pos two_pos _).ne'
        rw [hvalue, hexp, zpow_add₀ two_ne_zero, zpow_neg, zpow_natCast] at hm
        field_simp at hm
        exact hm.trans (mul_comm _ _)
      have hint : (wide : ℤ) = m * 2 ^ s := by exact_mod_cast hreal
      have hnonneg : 0 ≤ m := by
        by_contra hneg
        have := mul_neg_of_neg_of_pos (not_le.mp hneg) (pow_pos (two_pos (α := ℤ)) s)
        omega
      refine ⟨m.toNat, ?_⟩
      rw [← Int.toNat_of_nonneg hnonneg] at hint
      exact_mod_cast hint
    have hmpos : 0 < m := by
      refine Nat.pos_of_ne_zero fun h => ?_
      rw [h, zero_mul] at hm
      rw [hm] at hlow
      exact absurd hlow (by norm_num)
    have hs64 : ¬ 64 ≤ s := fun hle => by
      have h2 : 2 ^ 64 ≤ 2 ^ s := Nat.pow_le_pow_right two_pos hle
      have h3 : 2 ^ s ≤ m * 2 ^ s := Nat.le_mul_of_pos_left _ hmpos
      omega
    have hs1 : 1 ≤ s := by omega
    have hm63 : m < 2 ^ 63 := by
      have h2 : 2 ^ 1 ≤ 2 ^ s := Nat.pow_le_pow_right two_pos hs1
      have h3 : m * 2 ^ 1 ≤ m * 2 ^ s := Nat.mul_le_mul_left _ h2
      omega
    have hbits : fromBits (if sign then 0x8000 else 0x0000) (BitVec.ofNat 64 (wide >>> s)) =
        packed sign (0 : ℕ) m 64 := by
      rw [hm, Nat.shiftRight_eq_div_pow, Nat.mul_div_cancel _ (Nat.two_pow_pos s)]
      unfold packed signBit
      rw [Nat.sub_self, BitVec.shiftLeft_zero]
      cases sign <;> rfl
    unfold bias
    rw [hs, if_neg hs64, hbits, hvalue]
    have hencodes := encodes_packed sign (n := 0) (by norm_num) (show m < 2 ^ 64 by omega)
      (iff_of_false (by norm_num) (by omega))
    have hsize : (m : ℝ) * 2 ^ ((max 0 1 : ℕ) - bias + 1 - (64 : ℕ) : ℤ) =
        wide * 2 ^ (e - leading - 63) := by
      have hcast : ((m * 2 ^ s : ℕ) : ℝ) = m * 2 ^ s := by push_cast; ring
      rw [hm, hcast, mul_assoc, ← zpow_natCast (2 : ℝ) s, ← zpow_add₀ two_ne_zero]
      congr 2
      unfold bias
      push_cast
      omega
    rw [hsize] at hencodes
    exact hencodes
  · rw [if_neg hsmall]
    obtain ⟨field, hfield⟩ := Int.eq_ofNat_of_zero_le (show 0 ≤ e - leading + bias by omega)
    have hbits : fromBits (if sign then 0x8000 ||| BitVec.ofInt 16 (e - leading + bias)
        else BitVec.ofInt 16 (e - leading + bias)) (BitVec.ofNat 64 wide) =
        packed sign (field : ℕ) wide 64 := by
      unfold packed signBit
      rw [hfield, Nat.sub_self, BitVec.shiftLeft_zero]
      cases sign
      · exact congrArg (fun se => fromBits se _) BitVec.zero_or.symm
      · rfl
    have hrange : 1 ≤ field ∧ field < 0x7FFF := by
      unfold bias at hsmall hfield
      omega
    rw [hbits, hvalue]
    have hencodes := encodes_packed sign hrange.2 hhigh (iff_of_true (by omega) hlow)
    have hsize : (wide : ℝ) * 2 ^ ((max field 1 : ℕ) - bias + 1 - (64 : ℕ) : ℤ) =
        wide * 2 ^ (e - leading - 63) := by
      rw [max_eq_left hrange.1]
      congr 2
      push_cast
      omega
    rw [hsize] at hencodes
    exact hencodes

lemma canonical_encodes (ha : a.Operand) : a.canonical.Encodes a.sign a.magnitude := by
  unfold canonical
  by_cases hpseudo : a.isPseudoDenormal = true
  · obtain ⟨hexp, hsig⟩ := isPseudoDenormal_iff.mp hpseudo
    have hlt := a.significand.isLt
    have hbits : (⟨a.significand, a.signExponent ||| 0x0001⟩ : Fp80) =
        packed a.sign (1 : ℕ) a.significand.toNat 64 := by
      have hse : a.signExponent = signBit a.sign := by
        have hfull := a.signExponent.isLt
        rw [Fp80.exponent_eq] at hexp
        have hsign := Fp80.sign_eq a
        refine BitVec.eq_of_toNat_eq ?_
        cases h : a.sign
        · rw [h] at hsign
          have := of_decide_eq_false hsign.symm
          change _ = 0
          omega
        · rw [h] at hsign
          have := of_decide_eq_true hsign.symm
          change _ = 2 ^ 15
          omega
      unfold packed
      rw [hse, Nat.sub_self, BitVec.shiftLeft_zero, BitVec.ofNat_toNat, BitVec.setWidth_eq]
      rfl
    have hencodes := encodes_packed a.sign (n := 1) (by norm_num) hlt
      (iff_of_true (by norm_num) hsig)
    rw [if_pos hpseudo, hbits]
    have hsize : (a.significand.toNat : ℝ) * 2 ^ ((max 1 1 : ℕ) - bias + 1 - (64 : ℕ) : ℤ) =
        a.magnitude := by
      unfold magnitude trueExponent
      rw [if_pos hexp]
      congr 2
    rw [hsize] at hencodes
    exact hencodes
  · have hcanonical : a.Canonical := by
      rcases ha with hnormal | hdenormal | hp
      · exact .inr (.inr (.inl hnormal))
      · exact .inr (.inl hdenormal)
      · exact absurd hp hpseudo
    rw [if_neg hpseudo]
    exact ⟨ha.finite, hcanonical, rfl, rfl⟩

end Fp80

end Neetan.SoftFloat
