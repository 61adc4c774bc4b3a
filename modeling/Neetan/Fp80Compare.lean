import Neetan.Fp80Operands

/-!
Comparisons of the x87 FPU.

The fields of two numbers of one sign are compared, the exponent field first. A pseudo-denormal
has the value of exponent field 1, so that two of its fields may lie.
-/

namespace Neetan.SoftFloat

open MachineInt RealRounding

inductive FpOrdering where
  | less
  | equal
  | greater
  | unordered
  deriving DecidableEq, Repr

def FpOrdering.reverse : FpOrdering → FpOrdering
  | .less => .greater
  | .greater => .less
  | order => order

namespace Fp80

/-- The exponent fields are compared, then the significands. -/
def compareFields (a b : Fp80) : FpOrdering :=
  if b.exponent < a.exponent then .greater
  else if a.exponent < b.exponent then .less
  else if b.significand < a.significand then .greater
  else if a.significand < b.significand then .less
  else .equal

def compareValues (a b : Fp80) : FpOrdering :=
  if a.isZero && b.isZero then .equal
  else if a.sign ≠ b.sign then if a.sign then .less else .greater
  else if a.sign then (a.compareFields b).reverse
  else a.compareFields b

def compare (a b : Fp80) (ef : ExceptionFlags) : FpOrdering × ExceptionFlags :=
  let (unsupported, ef) := flagUnsupportedOperands [a, b] ef
  if unsupported then (.unordered, ef)
  else if a.isNan || b.isNan then (.unordered, { ef with invalid := true })
  else (a.compareValues b, b.flagDenormal (a.flagDenormal ef))

def compareQuiet (a b : Fp80) (ef : ExceptionFlags) : FpOrdering × ExceptionFlags :=
  let (unsupported, ef) := flagUnsupportedOperands [a, b] ef
  if unsupported then (.unordered, ef)
  else
    let ef := if a.isSignalingNan || b.isSignalingNan then { ef with invalid := true } else ef
    if a.isNan || b.isNan then (.unordered, ef)
    else (a.compareValues b, b.flagDenormal (a.flagDenormal ef))

end Fp80

/-! ### The Order of Values -/

section

variable {α β : Type*} [LinearOrder α] [LinearOrder β]

/-- The order of two values. -/
def order (x y : α) : FpOrdering := if x < y then .less else if y < x then .greater else .equal

lemma order_congr {x y : α} {x' y' : β} (hlt : x < y ↔ x' < y') (hgt : y < x ↔ y' < x') :
    order x y = order x' y' := by
  unfold order
  simp only [hlt, hgt]

lemma order_less {x y : α} : order x y = .less ↔ x < y := by
  unfold order
  split_ifs with hlt hgt
  · exact iff_of_true rfl hlt
  · exact iff_of_false (by simp) hlt
  · exact iff_of_false (by simp) hlt

lemma order_greater {x y : α} : order x y = .greater ↔ y < x := by
  unfold order
  split_ifs with hlt hgt
  · exact iff_of_false (by simp) hlt.asymm
  · exact iff_of_true rfl hgt
  · exact iff_of_false (by simp) hgt

lemma order_equal {x y : α} : order x y = .equal ↔ x = y := by
  unfold order
  split_ifs with hlt hgt
  · exact iff_of_false (by simp) hlt.ne
  · exact iff_of_false (by simp) hgt.ne'
  · exact iff_of_true rfl (le_antisymm (not_lt.1 hgt) (not_lt.1 hlt))

lemma order_swap (x y : α) : order y x = (order x y).reverse := by
  rcases lt_trichotomy x y with h | h | h
  · rw [order_less.2 h, order_greater.2 h, FpOrdering.reverse]
  · rw [order_equal.2 h, order_equal.2 h.symm]
    rfl
  · rw [order_greater.2 h, order_less.2 h, FpOrdering.reverse]

end

lemma FpOrdering.reverse_inj {o o' : FpOrdering} : o.reverse = o'.reverse ↔ o = o' := by
  cases o <;> cases o' <;> simp [FpOrdering.reverse]

namespace Fp80

variable {a b : Fp80}

/-! ### Sizes -/

/-- The exponent field that gives a number its value. -/
def place (a : Fp80) : ℕ := max a.exponent 1

lemma magnitude_eq (a : Fp80) :
    a.magnitude = a.significand.toNat * 2 ^ ((a.place : ℤ) - bias - 63) := by
  unfold magnitude trueExponent place
  split_ifs with h
  · rw [h]
    rfl
  · rw [max_eq_left (Nat.pos_of_ne_zero h)]

lemma magnitude_lt (hb : b.Numeric) (h : a.place < b.place) : a.magnitude < b.magnitude := by
  have hone : 1 ≤ a.place := le_max_right _ _
  have hexp : b.exponent ≠ 0 := fun hzero => by
    unfold place at h hone
    omega
  have hlow : ((2 : ℝ) ^ 63) ≤ b.significand.toNat := by
    exact_mod_cast hb.significand_le hexp
  have hhigh : (a.significand.toNat : ℝ) < 2 ^ 64 := by
    exact_mod_cast a.significand.isLt
  rw [magnitude_eq, magnitude_eq]
  calc (a.significand.toNat : ℝ) * 2 ^ ((a.place : ℤ) - bias - 63)
      < 2 ^ 64 * 2 ^ ((a.place : ℤ) - bias - 63) :=
        mul_lt_mul_of_pos_right hhigh (zpow_pos two_pos _)
    _ = 2 ^ 63 * 2 ^ ((a.place : ℤ) + 1 - bias - 63) := by
        rw [← zpow_natCast, ← zpow_natCast, ← zpow_add₀ two_ne_zero, ← zpow_add₀ two_ne_zero]
        congr 1
        push_cast
        ring
    _ ≤ 2 ^ 63 * 2 ^ ((b.place : ℤ) - bias - 63) := by
        refine mul_le_mul_of_nonneg_left (zpow_le_zpow_right₀ one_le_two ?_) (by positivity)
        omega
    _ ≤ b.significand.toNat * 2 ^ ((b.place : ℤ) - bias - 63) :=
        mul_le_mul_of_nonneg_right hlow (zpow_nonneg two_pos.le _)

lemma order_magnitude (h : a.place = b.place) :
    order a.magnitude b.magnitude = order a.significand.toNat b.significand.toNat := by
  rw [magnitude_eq, magnitude_eq, h]
  have hpos : (0 : ℝ) < 2 ^ ((b.place : ℤ) - bias - 63) := zpow_pos two_pos _
  refine order_congr ?_ ?_ <;>
    rw [mul_lt_mul_iff_left₀ hpos, Nat.cast_lt]

/-- A pseudo-denormal that is not below a number with exponent field 1. -/
def Confused (a b : Fp80) : Prop :=
  a.isPseudoDenormal = true ∧ b.exponent = 1 ∧ b.significand ≤ a.significand

lemma compareFields_swap (a b : Fp80) : b.compareFields a = (a.compareFields b).reverse := by
  unfold compareFields
  rcases lt_trichotomy a.exponent b.exponent with h | h | h
  · rw [if_pos h, if_neg h.asymm, if_pos h, FpOrdering.reverse]
  · rw [h, if_neg (lt_irrefl _), if_neg (lt_irrefl _), if_neg (lt_irrefl _), if_neg (lt_irrefl _)]
    rcases BitVec.lt_trichotomy a.significand b.significand with hs | hs | hs
    · rw [if_pos hs, if_neg (BitVec.not_lt.2 (BitVec.le_of_lt hs)), if_pos hs, FpOrdering.reverse]
    · rw [hs, if_neg (BitVec.lt_irrefl _), if_neg (BitVec.lt_irrefl _)]
      rfl
    · rw [if_pos hs, if_neg (BitVec.not_lt.2 (BitVec.le_of_lt hs)), if_pos hs, FpOrdering.reverse]
  · rw [if_pos h, if_neg h.asymm, if_pos h, FpOrdering.reverse]

/-- The fields tell the order of the sizes but for a confused pair; of the smaller exponent. -/
lemma compareFields_iff_of_le (hb : b.Numeric) (h : a.exponent ≤ b.exponent) :
    a.compareFields b = order a.magnitude b.magnitude ↔ ¬ (Confused a b ∨ Confused b a) := by
  have hnot : ¬ Confused b a := fun hc => by
    have := (isPseudoDenormal_iff.1 hc.1).1
    have := hc.2.1
    omega
  rw [or_iff_left hnot]
  rcases h.lt_or_eq with hlt | heq
  · have hfields : a.compareFields b = .less := by
      rw [compareFields, if_neg hlt.asymm, if_pos hlt]
    by_cases hplace : a.place < b.place
    · rw [hfields, order_less.2 (magnitude_lt hb hplace)]
      refine iff_of_true rfl fun hc => ?_
      have hzero := (isPseudoDenormal_iff.1 hc.1).1
      have hone := hc.2.1
      unfold place at hplace
      omega
    · -- the exponent fields are 0 and 1
      have hfield : a.exponent = 0 ∧ b.exponent = 1 := by
        unfold place at hplace
        omega
      have hlow := hb.significand_le (by omega)
      rw [hfields, order_magnitude (by unfold place; omega), eq_comm, order_less]
      refine ⟨fun hs hc => absurd (BitVec.le_def.1 hc.2.2) (not_le.2 hs), fun hc => ?_⟩
      by_contra hs
      exact hc ⟨isPseudoDenormal_iff.2 ⟨hfield.1, hlow.trans (not_lt.1 hs)⟩, hfield.2,
        BitVec.le_def.2 (not_lt.1 hs)⟩
  · refine iff_of_true ?_ fun hc => ?_
    · rw [compareFields, heq, if_neg (lt_irrefl _), if_neg (lt_irrefl _),
        order_magnitude (by unfold place; omega)]
      rcases lt_trichotomy a.significand.toNat b.significand.toNat with hs | hs | hs
      · rw [if_neg (BitVec.not_lt.2 (BitVec.le_def.2 hs.le)), if_pos (BitVec.lt_def.2 hs),
          order_less.2 hs]
      · rw [BitVec.eq_of_toNat_eq hs, if_neg (BitVec.lt_irrefl _), if_neg (BitVec.lt_irrefl _),
          order_equal.2 rfl]
      · rw [if_pos (BitVec.lt_def.2 hs), order_greater.2 hs]
    · have := (isPseudoDenormal_iff.1 hc.1).1
      have := hc.2.1
      omega

lemma compareFields_iff (ha : a.Numeric) (hb : b.Numeric) :
    a.compareFields b = order a.magnitude b.magnitude ↔ ¬ (Confused a b ∨ Confused b a) := by
  rcases le_total a.exponent b.exponent with h | h
  · exact compareFields_iff_of_le hb h
  · rw [compareFields_swap b a, order_swap b.magnitude, FpOrdering.reverse_inj, or_comm]
    exact compareFields_iff_of_le ha h

/-! ### Values -/

lemma magnitude_pos (ha : a.Numeric) (h : a.isZero = false) : 0 < a.magnitude := by
  refine mul_pos (Nat.cast_pos.2 (Nat.pos_of_ne_zero fun hzero => ?_)) (zpow_pos two_pos _)
  by_cases hexp : a.exponent = 0
  · rw [isZero_iff.2 ⟨hexp, BitVec.eq_of_toNat_eq hzero⟩] at h
    cases h
  · have := ha.significand_le hexp
    omega

lemma value_lt_iff (ha : a.Numeric) (hb : b.Numeric) : a.value < b.value ↔ a.toReal < b.toReal := by
  have hsmall : ∀ {x y : Fp80}, x.Numeric → y.Numeric → x.isInfinity = false →
      y.isInfinity = true → x.magnitude < y.magnitude := by
    intro x y hx hy hfinite hinf
    refine magnitude_lt hy ?_
    have hmax := (isInfinity_iff.1 hinf).1
    have hne : x.exponent ≠ 0x7FFF := fun he => by
      rw [hx.isInfinity he] at hfinite
      cases hfinite
    have := x.exponent_lt
    unfold place
    omega
  have hsame : a.isInfinity = true → b.isInfinity = true → a.magnitude = b.magnitude := by
    intro h h'
    rw [magnitude_eq, magnitude_eq, place, place, (isInfinity_iff.1 h).1, (isInfinity_iff.1 h').1,
      (isInfinity_iff.1 h).2, (isInfinity_iff.1 h').2]
  have hna := a.magnitude_nonneg
  have hnb := b.magnitude_nonneg
  unfold value toReal
  cases hia : a.isInfinity <;> cases hib : b.isInfinity
  · exact EReal.coe_lt_coe_iff
  · have hlt := hsmall ha hb hia hib
    cases b.sign
    · refine iff_of_true (EReal.coe_lt_top _) ?_
      cases a.sign
      · exact hlt
      · exact (neg_nonpos.2 hna).trans_lt (hna.trans_lt hlt)
    · refine iff_of_false not_lt_bot (not_lt.2 ?_)
      cases a.sign
      · exact (neg_nonpos.2 hnb).trans hna
      · exact neg_le_neg hlt.le
  · have hlt := hsmall hb ha hib hia
    cases a.sign
    · refine iff_of_false not_top_lt (not_lt.2 ?_)
      cases b.sign
      · exact hlt.le
      · exact (neg_nonpos.2 hnb).trans hna
    · refine iff_of_true (EReal.bot_lt_coe _) ?_
      cases b.sign
      · exact (neg_neg_of_pos (hnb.trans_lt hlt)).trans_le hnb
      · exact neg_lt_neg hlt
  · have heq := hsame hia hib
    have hpos : 0 < b.magnitude := by
      refine magnitude_pos hb (Bool.eq_false_iff.2 fun hz => ?_)
      have := (isZero_iff.1 hz).1
      rw [(isInfinity_iff.1 hib).1] at this
      cases this
    rw [heq]
    cases a.sign <;> cases b.sign
    · exact iff_of_false (lt_irrefl _) (lt_irrefl _)
    · exact iff_of_false not_top_lt (not_lt.2 ((neg_neg_of_pos hpos).trans hpos).le)
    · exact iff_of_true bot_lt_top ((neg_neg_of_pos hpos).trans hpos)
    · exact iff_of_false (lt_irrefl _) (lt_irrefl _)

/-- **The comparison of two numbers is that of their values but for a confused pair of one
sign.** -/
theorem compareValues_iff (ha : a.Numeric) (hb : b.Numeric) :
    a.compareValues b = order a.value b.value ↔
      ¬ (a.sign = b.sign ∧ (Confused a b ∨ Confused b a)) := by
  rw [order_congr (value_lt_iff ha hb) (value_lt_iff hb ha)]
  have hna := a.magnitude_nonneg
  have hnb := b.magnitude_nonneg
  have hconfused : ∀ {x y : Fp80}, x.isZero = true ∨ y.isZero = true → ¬ Confused x y := by
    rintro x y hzero ⟨hp, hone, _⟩
    rcases hzero with hz | hz
    · have hsig := (isPseudoDenormal_iff.1 hp).2
      rw [(isZero_iff.1 hz).2] at hsig
      exact absurd hsig (by decide)
    · rw [(isZero_iff.1 hz).1] at hone
      cases hone
  unfold compareValues
  by_cases hzero : (a.isZero && b.isZero) = true
  · rw [if_pos hzero]
    rw [Bool.and_eq_true] at hzero
    refine iff_of_true ?_ fun hc => ?_
    · rw [toReal_of_isZero hzero.1, toReal_of_isZero hzero.2, order_equal.2 rfl]
    · exact hc.2.elim (hconfused (.inl hzero.1)) (hconfused (.inl hzero.2))
  · rw [if_neg hzero]
    by_cases hsign : a.sign = b.sign
    · rw [if_neg (not_not.2 hsign), and_iff_right hsign, ← compareFields_iff ha hb]
      unfold toReal
      rw [← hsign]
      cases a.sign
      · rfl
      · rw [if_pos rfl]
        change _ = order (-a.magnitude) (-b.magnitude) ↔ _
        rw [order_congr neg_lt_neg_iff neg_lt_neg_iff, order_swap a.magnitude,
          FpOrdering.reverse_inj]
    · have hsum : 0 < a.magnitude + b.magnitude := by
        rw [Bool.and_eq_true, not_and_or, Bool.not_eq_true, Bool.not_eq_true] at hzero
        rcases hzero with hz | hz
        · linarith [magnitude_pos ha hz]
        · linarith [magnitude_pos hb hz]
      rw [if_pos hsign]
      refine iff_of_true ?_ fun hc => hsign hc.1
      unfold toReal
      cases hsa : a.sign <;> cases hsb : b.sign
      · rw [hsa, hsb] at hsign
        exact absurd rfl hsign
      · exact (order_greater.2 (show -b.magnitude < a.magnitude by linarith)).symm
      · exact (order_less.2 (show -a.magnitude < b.magnitude by linarith)).symm
      · rw [hsa, hsb] at hsign
        exact absurd rfl hsign

end Fp80

end Neetan.SoftFloat
