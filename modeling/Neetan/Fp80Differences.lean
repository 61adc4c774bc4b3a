import Neetan.Fp80Compare
import Neetan.Fp80Nan

/-!
A comparison against the sign of a difference.

Every difference of two numbers is a multiple of the last place of the least exponent, so that
rounding it down keeps it positive.
-/

namespace Neetan.SoftFloat

open MachineInt RealRounding

/-- A number above zero. -/
def Fp80.Positive (r : Fp80) : Prop := r.isNan = false ∧ 0 < r.value

/-! ### Rounding Down -/

/-- A multiple of the last place of the least exponent. -/
def OnGrid (x : ℝ) : Prop := ∃ m : ℤ, x = m * 2 ^ (leastExponent - 63)

variable {x : ℝ}

lemma OnGrid.sub {y : ℝ} (hx : OnGrid x) (hy : OnGrid y) : OnGrid (x - y) := by
  obtain ⟨m, rfl⟩ := hx
  obtain ⟨n, rfl⟩ := hy
  refine ⟨m - n, ?_⟩
  push_cast
  ring

lemma OnGrid.neg (hx : OnGrid x) : OnGrid (-x) := by
  obtain ⟨m, rfl⟩ := hx
  exact ⟨-m, by push_cast; ring⟩

lemma OnGrid.le (hx : OnGrid x) (hpos : 0 < x) : 2 ^ (leastExponent - 63) ≤ x := by
  obtain ⟨m, rfl⟩ := hx
  have hunit : (0 : ℝ) < 2 ^ (leastExponent - 63) := zpow_pos two_pos _
  have hm : (1 : ℝ) ≤ m := by
    exact_mod_cast Int.add_one_le_of_lt (Int.cast_pos.1 (pos_of_mul_pos_left hpos hunit.le))
  exact le_mul_of_one_le_left hunit.le hm

lemma Fp80.onGrid_toReal (a : Fp80) : OnGrid a.toReal := by
  have hmagnitude : OnGrid a.magnitude := by
    have hplace : 1 ≤ a.place := le_max_right _ _
    refine ⟨a.significand.toNat * 2 ^ (a.place - 1), ?_⟩
    rw [magnitude_eq]
    push_cast
    rw [mul_assoc, ← zpow_natCast (2 : ℝ) (a.place - 1), ← zpow_add₀ two_ne_zero]
    congr 2
    unfold leastExponent
    omega
  unfold toReal
  cases a.sign
  · exact hmagnitude
  · exact hmagnitude.neg

lemma roundAt_floor_pos {e : ℤ} : 0 < roundAt Int.floor e x ↔ 2 ^ e ≤ x := by
  have hunit : (0 : ℝ) < 2 ^ e := zpow_pos two_pos _
  unfold roundAt
  rw [mul_pos_iff_of_pos_right hunit, Int.cast_pos, Int.floor_pos, le_div_iff₀ hunit, one_mul]

/-- Rounding down keeps a number on the grid positive, and makes no other one positive. -/
lemma delivered_down_pos (hx : OnGrid x) :
    0 < delivered .down .extended x ↔ 0 < x := by
  have hlog : 0 < x → (2 : ℝ) ^ Int.log 2 |x| ≤ x := fun hpos => by
    have hle := Int.zpow_log_le_self (R := ℝ) one_lt_two (abs_pos.2 hpos.ne')
    rw [abs_of_pos hpos] at hle ⊢
    exact_mod_cast hle
  unfold delivered
  split_ifs with hover
  · unfold overflowResult RoundingMode.awayFromZero
    rcases lt_trichotomy x 0 with hneg | hzero | hpos
    · rw [decide_eq_true hneg]
      exact iff_of_false (by simp [signed]) hneg.asymm
    · -- zero does not overflow
      refine absurd hover (not_lt.2 ?_)
      have hfloor : unboundedResult .down .extended x = 0 := by
        unfold unboundedResult roundUnbounded roundAt
        rw [hzero, zero_div]
        change ((⌊(0 : ℝ)⌋ : ℤ) : ℝ) * _ = 0
        rw [Int.floor_zero, Int.cast_zero, zero_mul]
      rw [hfloor, abs_zero]
      exact (smallestNormal_lt_largestFinite .extended).le.trans' (zpow_pos two_pos _).le
    · rw [decide_eq_false hpos.asymm]
      refine iff_of_true ?_ hpos
      change (0 : EReal) < (largestFinite .extended : EReal)
      exact EReal.coe_pos.2
        ((smallestNormal_lt_largestFinite .extended).trans' (zpow_pos two_pos _))
  · rw [EReal.coe_pos]
    unfold roundGradual
    change 0 < roundAt Int.floor _ x ↔ _
    rw [roundAt_floor_pos]
    refine ⟨fun h => (zpow_pos two_pos _).trans_le h, fun hpos => ?_⟩
    rcases max_choice (lastPlace Precision.extended.bits x)
      (leastExponent + 1 - Precision.extended.bits) with hmax | hmax
    · rw [hmax]
      refine (zpow_le_zpow_right₀ one_le_two ?_).trans (hlog hpos)
      unfold lastPlace
      change Int.log 2 |x| + 1 - 64 ≤ _
      omega
    · rw [hmax]
      refine (le_of_eq ?_).trans (hx.le hpos)
      congr 1

lemma Fp80.Canonical.not_nan {r : Fp80} (h : r.Canonical) : r.isNan = false := by
  rcases h with h | h | h | h
  · exact (numeric_of_isZero h).2
  · exact (Operand.numeric (.inr (.inl h))).2
  · exact (Operand.numeric (.inl h)).2
  · exact (numeric_of_isInfinity h).2

lemma Delivers.positive_iff {ef ef' : ExceptionFlags} {r : Fp80} (hx : OnGrid x)
    (h : Delivers .down .extended x ef r ef') : r.Positive ↔ 0 < x := by
  rw [← delivered_down_pos hx, ← h.value]
  exact and_iff_right h.canonical.not_nan

/-! ### Differences -/

namespace Fp80

variable {a b : Fp80}

@[simp] lemma isZero_negate (a : Fp80) : a.negate.isZero = a.isZero := by
  unfold isZero
  rw [exponent_negate]
  rfl

@[simp] lemma isInfinity_negate (a : Fp80) : a.negate.isInfinity = a.isInfinity := by
  unfold isInfinity
  rw [exponent_negate]
  rfl

lemma sub_numeric (ha : a.Numeric) (hb : b.Numeric) (rc : RoundingMode) (pc : Precision)
    (ef : ExceptionFlags) : a.sub b rc pc ef =
      if a.isInfinity then
        if b.isInfinity && a.sign ≠ b.negate.sign then
          some (indefinite, { b.negate.flagDenormal (a.flagDenormal ef) with invalid := true })
        else some (a, b.negate.flagDenormal (a.flagDenormal ef))
      else if b.isInfinity then some (b.negate, b.negate.flagDenormal (a.flagDenormal ef))
      else if a.isZero && b.isZero then
        some (if a.sign = b.negate.sign then a else if rc = .down then negZero else zero,
          b.negate.flagDenormal (a.flagDenormal ef))
      else if a.isZero then
        b.negate.roundToPrecision rc pc (b.negate.flagDenormal (a.flagDenormal ef))
      else if b.isZero then
        a.roundToPrecision rc pc (b.negate.flagDenormal (a.flagDenormal ef))
      else a.addFinite b.negate rc pc (b.negate.flagDenormal (a.flagDenormal ef)) := by
  have hflags := flagUnsupportedOperands_none ha.1 ((isUnsupported_negate b).trans hb.1) ef
  rw [sub, add, hflags, isNan_negate, ha.2, hb.2, isInfinity_negate, isZero_negate]
  rfl

lemma value_of_finite (h : a.isInfinity = false) : a.value = (a.toReal : EReal) := by
  rw [value, h]
  rfl

lemma not_isInfinity_of_isZero (h : a.isZero = true) : a.isInfinity = false := by
  refine not_isInfinity ?_
  rw [(isZero_iff.1 h).1]
  decide

lemma positive_of_infinity (h : a.isInfinity = true) : a.Positive ↔ a.sign = false := by
  rw [Positive, and_iff_right (numeric_of_isInfinity h).2, value, if_pos h]
  cases a.sign
  · exact iff_of_true EReal.zero_lt_top rfl
  · exact iff_of_false not_lt_bot (by simp)

lemma not_positive_of_zero (h : a.isZero = true) : ¬ a.Positive := fun hp => by
  have hpos := hp.2
  rw [value_of_finite (not_isInfinity_of_isZero h), toReal_of_isZero h] at hpos
  exact lt_irrefl _ hpos

lemma exists_result {p : Fp80 → Prop} {r : Fp80} {ef : ExceptionFlags} :
    (∃ r' ef', some (r, ef) = some (r', ef') ∧ p r') ↔ p r := by
  constructor
  · rintro ⟨r', ef', h, hp⟩
    obtain ⟨rfl, _⟩ := Prod.ext_iff.1 (Option.some.inj h)
    exact hp
  · exact fun hp => ⟨r, ef, rfl, hp⟩

lemma exists_delivered {ef : ExceptionFlags} {o : Option (Fp80 × ExceptionFlags)} (hx : OnGrid x)
    (h : ∃ r ef', o = some (r, ef') ∧ Delivers .down .extended x ef r ef') :
    (∃ r ef', o = some (r, ef') ∧ r.Positive) ↔ 0 < x := by
  obtain ⟨r, ef', rfl, hd⟩ := h
  rw [exists_result, hd.positive_iff hx]

/-- A difference rounded down is positive exactly if its first operand is the larger. -/
theorem sub_positive_iff (ha : a.Numeric) (hb : b.Numeric) (ef : ExceptionFlags) :
    (∃ r ef', a.sub b .down .extended ef = some (r, ef') ∧ r.Positive) ↔ b.value < a.value := by
  rw [value_lt_iff hb ha]
  cases hia : a.isInfinity with
  | true =>
    rw [sub_numeric ha hb, if_pos hia, ← value_lt_iff hb ha, value, value, if_pos hia, sign_negate]
    cases hib : b.isInfinity with
    | true =>
      cases hsa : a.sign <;> cases hsb : b.sign
      · exact exists_result.trans (iff_of_false (fun h => absurd h.1 (by decide)) (lt_irrefl _))
      · exact exists_result.trans (iff_of_true ((positive_of_infinity hia).2 hsa) bot_lt_top)
      · refine exists_result.trans (iff_of_false (fun h => ?_) not_top_lt)
        rw [(positive_of_infinity hia).1 h] at hsa
        cases hsa
      · exact exists_result.trans (iff_of_false (fun h => absurd h.1 (by decide)) (lt_irrefl _))
    | false =>
      refine exists_result.trans ((positive_of_infinity hia).trans ?_)
      cases a.sign
      · exact iff_of_true rfl (EReal.coe_lt_top _)
      · exact iff_of_false (by simp) not_lt_bot
  | false =>
    cases hib : b.isInfinity with
    | true =>
      rw [sub_numeric ha hb, hia, hib, ← value_lt_iff hb ha, value_of_finite hia, value, if_pos hib]
      refine exists_result.trans
        ((positive_of_infinity ((isInfinity_negate b).trans hib)).trans ?_)
      rw [sign_negate]
      cases b.sign
      · exact iff_of_false (by simp) not_top_lt
      · exact iff_of_true rfl (EReal.bot_lt_coe _)
    | false =>
      have hfinite : ∀ {x : Fp80}, x.Numeric → x.isInfinity = false → x.isZero = true ∨ x.Operand :=
        fun hx hi => hx.cases.imp_right fun h =>
          h.resolve_right (by rw [hi]; exact Bool.false_ne_true)
      have hone : ∀ {x : Fp80}, x.Operand → x.isZero = false := fun hx => hx.plain.2.2.2
      rcases hfinite ha hia with hza | hoa <;> rcases hfinite hb hib with hzb | hob
      · rw [sub_numeric ha hb, hia, hib, hza, hzb, toReal_of_isZero hza, toReal_of_isZero hzb]
        refine exists_result.trans (iff_of_false ?_ (lt_irrefl _))
        by_cases hsign : a.sign = b.negate.sign
        · rw [if_pos hsign]
          exact not_positive_of_zero hza
        · rw [if_neg hsign]
          exact not_positive_of_zero (by decide)
      · rw [sub_numeric ha hb, hia, hib, hza, hone hob, toReal_of_isZero hza, ← neg_pos,
          ← toReal_negate]
        exact exists_delivered b.negate.onGrid_toReal
          (roundToPrecision_delivers hob.negate .down .extended _)
      · rw [sub_numeric ha hb, hia, hib, hone hoa, hzb, toReal_of_isZero hzb]
        exact exists_delivered a.onGrid_toReal (roundToPrecision_delivers hoa .down .extended _)
      · rw [← sub_pos]
        exact exists_delivered (a.onGrid_toReal.sub b.onGrid_toReal)
          (sub_delivers .down .extended ef hoa hob)

/-- Both comparisons give the order of the values, and the first finds its first operand greater
exactly if the difference rounded down is positive. -/
def ComparesValues (a b : Fp80) (ef : ExceptionFlags) : Prop :=
  (a.compare b ef).1 = order a.value b.value ∧
    (a.compareQuiet b ef).1 = order a.value b.value ∧
    ((a.compare b ef).1 = .greater ↔
      ∃ r ef', a.sub b .down .extended ef = some (r, ef') ∧ r.Positive)

lemma compare_numeric (ha : a.Numeric) (hb : b.Numeric) (ef : ExceptionFlags) :
    (a.compare b ef).1 = a.compareValues b ∧ (a.compareQuiet b ef).1 = a.compareValues b := by
  rw [compare, compareQuiet, flagUnsupportedOperands_none ha.1 hb.1 ef, ha.2, hb.2]
  exact ⟨rfl, rfl⟩

/-- **Comparisons.** They are right for every two numbers but a pseudo-denormal and a number of
its sign with exponent field 1 that has no larger significand. -/
theorem comparesValues_iff (a b : Fp80) (ef : ExceptionFlags) (ha : a.Numeric) (hb : b.Numeric) :
    a.ComparesValues b ef ↔ ¬ (a.sign = b.sign ∧ (Confused a b ∨ Confused b a)) := by
  obtain ⟨hcompare, hquiet⟩ := compare_numeric ha hb ef
  rw [ComparesValues, hcompare, hquiet, sub_positive_iff ha hb ef]
  refine ⟨fun h => (compareValues_iff ha hb).1 h.1, fun h => ?_⟩
  have hvalues := (compareValues_iff ha hb).2 h
  exact ⟨hvalues, hvalues, by rw [hvalues, order_greater]⟩

/-- One against the largest denormal number. -/
theorem comparesValues_one : one.ComparesValues largestDenormal .default :=
  (comparesValues_iff one largestDenormal .default ⟨by decide, by decide⟩
    ⟨by decide, by decide⟩).2 fun h => h.2.elim (fun hc => absurd hc.2.1 (by decide))
      fun hc => absurd hc.1 (by decide)

/-- The least normal number in the encoding of a pseudo-denormal. -/
def pseudoDenormal : Fp80 := .fromBits 0x0000 0x8000000000000000

/-- The same number in its normal encoding. -/
def leastNormal : Fp80 := .fromBits 0x0001 0x8000000000000000

/-- Two encodings of one number that do not compare equal. -/
theorem not_comparesValues : pseudoDenormal.value = leastNormal.value ∧
    (pseudoDenormal.compare leastNormal .default).1 = .less ∧
    ¬ pseudoDenormal.ComparesValues leastNormal .default := by
  have hvalue : pseudoDenormal.value = leastNormal.value := by
    rw [value_of_finite (show pseudoDenormal.isInfinity = false by decide),
      value_of_finite (show leastNormal.isInfinity = false by decide)]
    rfl
  have hless : (pseudoDenormal.compare leastNormal .default).1 = .less := by decide
  refine ⟨hvalue, hless, fun h => ?_⟩
  have horder := h.1
  rw [hless, hvalue, order_equal.2 rfl] at horder
  cases horder

end Fp80

end Neetan.SoftFloat
