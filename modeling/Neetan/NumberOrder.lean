import Neetan.NumberExact
import Mathlib.Order.Compare

/-!
The comparison of reals of the Scheme runtime, against the order of the rational numbers.

Two fractions are compared by their continued fractions, term by term; a term that is equal
on both sides leaves the reciprocals of the rests, whose order is the reverse one.
-/

namespace Neetan.Number

open Neetan.MachineInt

/-- An `i128` as the `u128` with its bits. -/
def asU128 (v : ℤ) : ℕ := (v % 2 ^ 128).toNat

/-- An ordering, turned round when the flag is set. -/
def reverseIf (reverse : Bool) (ordering : Ordering) : Ordering :=
  if reverse then ordering.swap else ordering

/-- The loop over the terms of both continued fractions; a zero denominator panics. -/
def compareUnsignedLoop (leftNumerator leftDenominator rightNumerator rightDenominator : ℕ)
    (reverse : Bool) : Outcome Ordering :=
  if _h : leftDenominator = 0 ∨ rightDenominator = 0 then .error .panic else
  let ordering := compare (leftNumerator / leftDenominator) (rightNumerator / rightDenominator)
  if ordering ≠ .eq then .ok (reverseIf reverse ordering) else
  let leftRemainder := leftNumerator % leftDenominator
  let rightRemainder := rightNumerator % rightDenominator
  match decide (leftRemainder = 0), decide (rightRemainder = 0) with
  | true, true => .ok .eq
  | true, false => .ok (reverseIf reverse .lt)
  | false, true => .ok (reverseIf reverse .gt)
  | false, false =>
    compareUnsignedLoop leftDenominator leftRemainder rightDenominator rightRemainder (!reverse)
termination_by leftDenominator
decreasing_by exact Nat.mod_lt _ (Nat.pos_of_ne_zero fun hl => _h (.inl hl))

def compareUnsignedFractions
    (leftNumerator leftDenominator rightNumerator rightDenominator : ℕ) : Outcome Ordering :=
  compareUnsignedLoop leftNumerator leftDenominator rightNumerator rightDenominator false

def compareFractions (left right : ℤ × ℤ) : Outcome Ordering :=
  match decide (left.1 < 0), decide (right.1 < 0) with
  | true, false => .ok .lt
  | false, true => .ok .gt
  | negative, _ => do
    let ordering ← compareUnsignedFractions left.1.natAbs (asU128 left.2) right.1.natAbs
      (asU128 right.2)
    return reverseIf negative ordering

def floatRangeMessage : String := "exact floating-point value exceeds the supported range"
def notFiniteMessage : String := "cannot convert infinity or NaN to an exact number"

def signedMagnitude (magnitude : ℕ) (negative : Bool) : Outcome ℤ :=
  if negative ∧ magnitude = 2 ^ 127 then .ok (minValue 128) else do
    let value ← okOr (checked 128 magnitude) floatRangeMessage
    return if negative then -value else value

/-- The significand and the exponent in the bits of a finite value. -/
def floatParts (bits : ℕ) : ℕ × ℤ :=
  let exponentBits : ℕ := bits / 2 ^ 52 % 2 ^ 11
  let fraction : ℕ := bits % 2 ^ 52
  if exponentBits = 0 then (fraction, -1022 - 52)
  else (2 ^ 52 + fraction, (exponentBits : ℤ) - 1023 - 52)

/-- Trailing zero bits of the significand, as far as the exponent is negative, go to the
exponent. -/
def removeZeros (significand : ℕ) (exponent : ℤ) : ℕ × ℤ :=
  if exponent < 0 then
    let removable := min (BitVec.ofNat 128 significand).ctz.toNat (-exponent).toNat
    (significand / 2 ^ removable, exponent + removable)
  else (significand, exponent)

def exactFloat (value : Float) : Outcome Real :=
  if value == 0 then .ok (.exactInteger 0) else
  let bits := value.toBits.toNat
  let negative := bits / 2 ^ 63 ≠ 0
  let parts := floatParts bits
  let (significand, exponent) := removeZeros parts.1 parts.2
  if 0 ≤ exponent then do
    let factor ← okOr (checkedShl 128 1 exponent.toNat) floatRangeMessage
    let magnitude ← okOr (checkedMul 128 significand factor) floatRangeMessage
    checkedRational (← signedMagnitude magnitude negative) 1
  else do
    let numerator ← signedMagnitude significand negative
    let denominator ← okOr ((checkedShl 128 1 (-exponent).toNat).bind fun v => checked 128 v)
      floatRangeMessage
    checkedRational numerator denominator

def Real.exact : Real → Outcome Real
  | .exactInteger value => .ok (.exactInteger value)
  | .exactRational value => .ok (.exactRational value)
  | .inexact value => if value.isFinite then exactFloat value else .error (.message notFiniteMessage)

/-- The fraction a real is compared by; a failed conversion gives none. -/
def comparisonFraction (value : Real) : Outcome (Option (ℤ × ℤ)) :=
  match fraction value with
  | some parts => .ok (some parts)
  | none =>
    match value.exact with
    | .ok exact => .ok (fraction exact)
    | .error (.message _) => .ok none
    | .error .panic => .error .panic

def realEqual (left right : Real) : Outcome Bool :=
  match left, right with
  | .exactInteger left, .exactInteger right => .ok (decide (left = right))
  | .inexact left, .inexact right => .ok (left == right)
  | left, right => do
    match ← comparisonFraction left, ← comparisonFraction right with
    | some left, some right => return decide ((← compareFractions left right) = .eq)
    | _, _ => return toF64 left == toF64 right

def realCompare (left right : Real) : Outcome (Option Ordering) :=
  match left, right with
  | .exactInteger left, .exactInteger right => .ok (some (compare left right))
  | .inexact left, .inexact right => .ok (partialCmp left right)
  | left, right => do
    match ← comparisonFraction left, ← comparisonFraction right with
    | some left, some right => return some (← compareFractions left right)
    | _, _ => return partialCmp (toF64 left) (toF64 right)

end Neetan.Number

namespace Neetan.NumberOrder

open Neetan.MachineInt Neetan.Number Neetan.NumberExact

/-! ### One term of the continued fractions -/

lemma compare_congr {α β : Type} [LinearOrder α] [LinearOrder β] {a b : α} {c d : β}
    (hlt : a < b ↔ c < d) (hgt : b < a ↔ d < c) : compare a b = compare c d := by
  rcases lt_trichotomy a b with h | h | h
  · rw [compare_lt_iff_lt.mpr h, compare_lt_iff_lt.mpr (hlt.mp h)]
  · have hcd : c = d := le_antisymm (not_lt.mp fun hc => (hgt.mpr hc).ne h.symm)
      (not_lt.mp fun hc => (hlt.mpr hc).ne h)
    rw [compare_eq_iff_eq.mpr h, compare_eq_iff_eq.mpr hcd]
  · rw [compare_gt_iff_gt.mpr h, compare_gt_iff_gt.mpr (hgt.mp h)]

/-- Numbers in one base are ordered by their higher digit, and then by the lower one. -/
lemma compare_digits {base l r m n : ℕ} (hm : m < base) (hn : n < base) :
    compare (base * l + m) (base * r + n) = (compare l r).then (compare m n) := by
  rcases lt_trichotomy l r with h | rfl | h
  · have hle : base * l + base ≤ base * r := Nat.mul_succ base l ▸ Nat.mul_le_mul_left base h
    rw [compare_lt_iff_lt.mpr h, Ordering.lt_then]
    exact compare_lt_iff_lt.mpr (by omega)
  · rw [compare_eq_iff_eq.mpr rfl, Ordering.eq_then]
    exact compare_congr (Nat.add_lt_add_iff_left) (Nat.add_lt_add_iff_left)
  · have hle : base * r + base ≤ base * l := Nat.mul_succ base r ▸ Nat.mul_le_mul_left base h
    rw [compare_gt_iff_gt.mpr h, Ordering.gt_then]
    exact compare_gt_iff_gt.mpr (show _ < _ by omega)

lemma compare_cross {a b c d : ℕ} (hb : 0 < b) (hd : 0 < d) :
    compare (a * d) (c * b) =
      (compare (a / b) (c / d)).then (compare (a % b * d) (c % d * b)) := by
  have ha : a * d = b * d * (a / b) + a % b * d := by
    rw [mul_right_comm, ← add_mul, Nat.div_add_mod]
  have hc : c * b = b * d * (c / d) + c % d * b := by
    rw [mul_assoc, mul_comm b, ← add_mul, Nat.div_add_mod]
  have hrest : c % d * b < b * d := by
    rw [mul_comm b]
    exact Nat.mul_lt_mul_of_pos_right (Nat.mod_lt c hd) hb
  rw [ha, hc]
  exact compare_digits (Nat.mul_lt_mul_of_pos_right (Nat.mod_lt a hb) hd) hrest

lemma compare_cross_of_eq {a b c d : ℕ} (hb : 0 < b) (hd : 0 < d)
    (h : compare (a / b) (c / d) = .eq) :
    compare (a * d) (c * b) = compare (a % b * d) (c % d * b) := by
  rw [compare_cross hb hd, h, Ordering.eq_then]

lemma reverseIf_not (reverse : Bool) (ordering : Ordering) :
    reverseIf (!reverse) ordering = reverseIf reverse ordering.swap := by
  cases reverse with
  | false => rfl
  | true => exact Ordering.swap_swap.symm

/-- **The loop compares the fractions**, in the order that the flag says. -/
theorem compareUnsignedLoop_eq (a b c d : ℕ) (reverse : Bool) (hb : 0 < b) (hd : 0 < d) :
    compareUnsignedLoop a b c d reverse = .ok (reverseIf reverse (compare (a * d) (c * b))) := by
  fun_induction compareUnsignedLoop a b c d reverse with
  | case1 a b c d reverse hzero => omega
  | case2 a b c d reverse hzero ordering hne =>
    have hterm : ordering = .lt ∨ ordering = .gt := by
      cases hcase : ordering with
      | lt => exact .inl rfl
      | eq => exact absurd hcase hne
      | gt => exact .inr rfl
    have hcross := compare_cross (a := a) (c := c) hb hd
    rcases hterm with h | h
    · rw [hcross, show compare (a / b) (c / d) = .lt from h, h, Ordering.lt_then]
    · rw [hcross, show compare (a / b) (c / d) = .gt from h, h, Ordering.gt_then]
  | case3 a b c d reverse hzero ordering heq leftRemainder rightRemainder hr hl =>
    have hcross := compare_cross_of_eq hb hd (not_not.mp heq)
    have hrests : a % b = 0 ∧ c % d = 0 := ⟨of_decide_eq_true hl, of_decide_eq_true hr⟩
    rw [hcross, hrests.1, hrests.2, zero_mul, zero_mul, compare_eq_iff_eq.mpr rfl]
    cases reverse <;> rfl
  | case4 a b c d reverse hzero ordering heq leftRemainder rightRemainder hr hl =>
    have hcross := compare_cross_of_eq hb hd (not_not.mp heq)
    have hpos : 0 < c % d * b := Nat.mul_pos (Nat.pos_of_ne_zero (of_decide_eq_false hr)) hb
    rw [hcross, show a % b = 0 from of_decide_eq_true hl, zero_mul, compare_lt_iff_lt.mpr hpos]
  | case5 a b c d reverse hzero ordering heq leftRemainder rightRemainder hr hl =>
    have hcross := compare_cross_of_eq hb hd (not_not.mp heq)
    have hpos : 0 < a % b * d := Nat.mul_pos (Nat.pos_of_ne_zero (of_decide_eq_false hl)) hd
    rw [hcross, show c % d = 0 from of_decide_eq_true hr, zero_mul, compare_gt_iff_gt.mpr hpos]
  | case6 a b c d reverse hzero ordering heq leftRemainder rightRemainder hr hl ih =>
    -- the reciprocals of both rests
    have hcross := compare_cross_of_eq hb hd (not_not.mp heq)
    rw [ih (Nat.pos_of_ne_zero (of_decide_eq_false hl))
      (Nat.pos_of_ne_zero (of_decide_eq_false hr)), reverseIf_not, hcross,
      ← Std.OrientedOrd.eq_swap, mul_comm d, mul_comm b]

/-! ### Fractions as rational numbers -/

lemma asU128_of_fits {v : ℤ} (hv : Fits 128 v) (h0 : 0 < v) : (asU128 v : ℤ) = v := by
  have hlt : v < 2 ^ 128 := lt_trans hv.2 (by norm_num)
  rw [asU128, Int.toNat_of_nonneg (Int.emod_nonneg v (by norm_num)),
    Int.emod_eq_of_lt h0.le hlt]

lemma compare_div {a b c d : ℤ} (hb : 0 < b) (hd : 0 < d) :
    compare ((a : ℚ) / b) (c / d) = compare (a * d) (c * b) := by
  have hb' : (0 : ℚ) < b := Int.cast_pos.mpr hb
  have hd' : (0 : ℚ) < d := Int.cast_pos.mpr hd
  refine compare_congr ?_ ?_
  · rw [div_lt_div_iff₀ hb' hd']
    exact_mod_cast Iff.rfl
  · rw [div_lt_div_iff₀ hd' hb']
    exact_mod_cast Iff.rfl

/-- The magnitudes of two fractions of one sign compare as the fractions do, or the other way
round. -/
lemma compare_natAbs {a c : ℤ} (b d : ℕ) (h : a < 0 ↔ c < 0) :
    reverseIf (decide (a < 0)) (compare (a.natAbs * d) (c.natAbs * b)) =
      compare (a * d) (c * b) := by
  by_cases ha : a < 0
  · rw [reverseIf, if_pos (decide_eq_true ha), ← Std.OrientedOrd.eq_swap]
    refine compare_congr ?_ ?_ <;> zify
    · rw [abs_of_neg ha, abs_of_neg (h.mp ha), neg_mul, neg_mul, neg_lt_neg_iff]
    · rw [abs_of_neg ha, abs_of_neg (h.mp ha), neg_mul, neg_mul, neg_lt_neg_iff]
  · have hc : ¬ c < 0 := fun hc => ha (h.mpr hc)
    rw [reverseIf, if_neg (by simpa using ha)]
    refine compare_congr ?_ ?_ <;> zify
    · rw [abs_of_nonneg (not_lt.mp ha), abs_of_nonneg (not_lt.mp hc)]
    · rw [abs_of_nonneg (not_lt.mp ha), abs_of_nonneg (not_lt.mp hc)]

/-- **The comparison of fractions** gives the order of the rationals, and never panics. -/
theorem compareFractions_eq {a b c d : ℤ} (hb : Fits 128 b) (hb0 : 0 < b) (hd : Fits 128 d)
    (hd0 : 0 < d) : compareFractions (a, b) (c, d) = .ok (compare ((a : ℚ) / b) (c / d)) := by
  have hbn := asU128_of_fits hb hb0
  have hdn := asU128_of_fits hd hd0
  have hunsigned : compareUnsignedFractions a.natAbs (asU128 b) c.natAbs (asU128 d) =
      .ok (compare (a.natAbs * asU128 d) (c.natAbs * asU128 b)) :=
    compareUnsignedLoop_eq _ _ _ _ false (by omega) (by omega)
  have hsame : (a < 0 ↔ c < 0) → reverseIf (decide (a < 0))
      (compare (a.natAbs * asU128 d) (c.natAbs * asU128 b)) = compare (a * d) (c * b) := by
    intro h
    rw [compare_natAbs _ _ h, hbn, hdn]
  rw [compare_div hb0 hd0, compareFractions, hunsigned]
  by_cases ha : a < 0 <;> by_cases hc : c < 0
  · rw [← hsame (iff_of_true ha hc), decide_eq_true ha, decide_eq_true hc]
    rfl
  · have hneg : a * d < c * b :=
      (mul_neg_of_neg_of_pos ha hd0).trans_le (mul_nonneg (not_lt.mp hc) hb0.le)
    rw [decide_eq_true ha, decide_eq_false hc, compare_lt_iff_lt.mpr hneg]
  · have hneg : c * b < a * d :=
      (mul_neg_of_neg_of_pos hc hb0).trans_le (mul_nonneg (not_lt.mp ha) hd0.le)
    rw [decide_eq_false ha, decide_eq_true hc, compare_gt_iff_gt.mpr hneg]
  · rw [← hsame (iff_of_false ha hc), decide_eq_false ha, decide_eq_false hc]
    rfl

/-! ### Exact reals -/

lemma comparisonFraction_of_isExact {r : Number.Real} (h : IsExact r) :
    comparisonFraction r = .ok (fraction r) := by
  obtain ⟨n, d, hf, -⟩ := fraction_of_isExact h
  rw [comparisonFraction, hf]

lemma compareParts_eq {l r : Number.Real} (hl : IsExact l) (hr : IsExact r) :
    ∃ left right, comparisonFraction l = .ok (some left) ∧
      comparisonFraction r = .ok (some right) ∧
      compareFractions left right = .ok (compare (toRat l) (toRat r)) := by
  obtain ⟨a, b, hfl, hvl, hb0, hb, -⟩ := fraction_of_isExact hl
  obtain ⟨c, d, hfr, hvr, hd0, hd, -⟩ := fraction_of_isExact hr
  refine ⟨_, _, (comparisonFraction_of_isExact hl).trans (congrArg _ hfl),
    (comparisonFraction_of_isExact hr).trans (congrArg _ hfr), ?_⟩
  rw [compareFractions_eq (fits_mono (by norm_num) hb) hb0 (fits_mono (by norm_num) hd) hd0,
    hvl, hvr]

lemma realCompare_eq {l r : Number.Real} (hl : IsExact l) (hr : IsExact r) :
    realCompare l r = .ok (some (compare (toRat l) (toRat r))) := by
  obtain ⟨left, right, hleft, hright, hcompare⟩ := compareParts_eq hl hr
  cases l with
  | inexact v => exact hl.elim
  | exactRational u =>
    simp only [realCompare, hleft, hright, bind, Except.bind, hcompare]
    rfl
  | exactInteger v =>
    cases r with
    | inexact u => exact hr.elim
    | exactInteger u =>
      rw [realCompare, toRat, toRat, compare_congr Int.cast_lt Int.cast_lt]
    | exactRational u =>
      simp only [realCompare, hleft, hright, bind, Except.bind, hcompare]
      rfl

lemma realEqual_eq {l r : Number.Real} (hl : IsExact l) (hr : IsExact r) :
    realEqual l r = .ok (decide (toRat l = toRat r)) := by
  obtain ⟨left, right, hleft, hright, hcompare⟩ := compareParts_eq hl hr
  have hdecide : decide (compare (toRat l) (toRat r) = .eq) = decide (toRat l = toRat r) :=
    decide_eq_decide.mpr compare_eq_iff_eq
  cases l with
  | inexact v => exact hl.elim
  | exactRational u =>
    simp only [realEqual, hleft, hright, bind, Except.bind, hcompare, hdecide]
    rfl
  | exactInteger v =>
    cases r with
    | inexact u => exact hr.elim
    | exactInteger u =>
      rw [realEqual, toRat, toRat, decide_eq_decide.mpr Int.cast_inj]
    | exactRational u =>
      simp only [realEqual, hleft, hright, bind, Except.bind, hcompare, hdecide]
      rfl

/-- The left real is not above the right one. -/
def AtMost (l r : ExactReal) : Prop :=
  ∃ ordering, realCompare l.1 r.1 = .ok (some ordering) ∧ ordering ≠ .gt

lemma atMost_iff {l r : ExactReal} : AtMost l r ↔ toRat l.1 ≤ toRat r.1 := by
  rw [AtMost, realCompare_eq l.2 r.2, ← not_lt, ← compare_gt_iff_gt (a := toRat l.1)]
  constructor
  · rintro ⟨ordering, heq, hne⟩ hgt
    exact hne ((Option.some.inj (Except.ok.inj heq)).symm.trans hgt)
  · exact fun h => ⟨_, rfl, h⟩

/-- **Exact reals are compared as rational numbers**: fractions with positive denominators are
ordered as rationals are, without a panic, and so the comparison of exact reals is a total order
and their equality is the equality of this order. -/
theorem comparison_is_rational_order :
    (∀ a b c d : ℤ, Fits 128 a → Fits 128 b → Fits 128 c → Fits 128 d → 0 < b → 0 < d →
      compareFractions (a, b) (c, d) = .ok (compare ((a : ℚ) / b) (c / d))) ∧
    (∀ l r : ExactReal,
      realCompare l.1 r.1 = .ok (some (compare (toRat l.1) (toRat r.1))) ∧
      realEqual l.1 r.1 = .ok (decide (toRat l.1 = toRat r.1))) ∧
    (∀ l r s : ExactReal, AtMost l r → AtMost r s → AtMost l s) ∧
    (∀ l r : ExactReal, AtMost l r ∨ AtMost r l) ∧
    (∀ l r : ExactReal, realEqual l.1 r.1 = .ok true ↔ AtMost l r ∧ AtMost r l) := by
  refine ⟨fun a b c d _ hb _ hd hb0 hd0 => compareFractions_eq hb hb0 hd hd0,
    fun l r => ⟨realCompare_eq l.2 r.2, realEqual_eq l.2 r.2⟩, fun l r s hlr hrs => ?_,
    fun l r => ?_, fun l r => ?_⟩
  · exact atMost_iff.mpr ((atMost_iff.mp hlr).trans (atMost_iff.mp hrs))
  · rw [atMost_iff, atMost_iff]
    exact le_total _ _
  · rw [atMost_iff, atMost_iff, ← le_antisymm_iff, realEqual_eq l.2 r.2]
    exact ⟨fun h => of_decide_eq_true (Except.ok.inj h), fun h => congrArg _ (decide_eq_true h)⟩

theorem comparison_is_rational_order_min :
    compareFractions (-2 ^ 127, 3) (-2 ^ 127, 5) =
      .ok (compare (((-2 ^ 127 : ℤ) : ℚ) / (3 : ℤ)) ((-2 ^ 127 : ℤ) / (5 : ℤ))) :=
  comparison_is_rational_order.1 _ _ _ _ (by decide) (by decide) (by decide) (by decide)
    (by decide) (by decide)

end Neetan.NumberOrder
