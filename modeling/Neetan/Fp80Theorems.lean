import Neetan.Fp80Exact
import Neetan.Fp80Sum
import Mathlib.Analysis.Real.Sqrt

/-!
The arithmetic of the x87 FPU is exact up to one rounding.

The square root takes the integer root by Newton's iteration, its guard bit, and the sticky bit
behind it. The flags that an operation sets before it rounds are others than those of rounding.
-/

namespace Neetan.SoftFloat

open MachineInt RealRounding

/-! ### The Integer Root -/

lemma root_le_next {val s root : ℕ} (hs : s * s ≤ val) (hroot : 0 < root) :
    s ≤ (root + val / root) / 2 := by
  have hquotient : 2 * s - root ≤ val / root := by
    rw [Nat.le_div_iff_mul_le hroot]
    refine le_trans ?_ hs
    rcases le_total (2 * s) root with h | h
    · rw [Nat.sub_eq_zero_of_le h, Nat.zero_mul]
      exact Nat.zero_le _
    · obtain ⟨d, hd⟩ := Nat.exists_eq_add_of_le h
      rw [hd, Nat.add_sub_cancel_left]
      nlinarith [sq_nonneg ((d : ℤ) - root)]
  omega

lemma quotient_le {val s root : ℕ} (hs : val < (s + 1) * (s + 1)) (hpos : 0 < s)
    (hroot : s ≤ root) :
    val / root ≤ s + 2 := by
  have hlt : val / root < s + 3 := by
    rw [Nat.div_lt_iff_lt_mul (hpos.trans_le hroot)]
    nlinarith
  omega

lemma newton_spec {val s : ℕ} (hs : s * s ≤ val) (hs' : val < (s + 1) * (s + 1)) (hpos : 0 < s)
    (hbound : s ≤ 2 ^ 64) (root : ℕ) (hroot : s ≤ root) (hroot' : root ≤ 2 ^ 64) :
    ∃ r, newton val root = some r ∧ s ≤ r ∧ r ≤ 2 ^ 64 := by
  induction root using Nat.strong_induction_on with
  | h root ih =>
    have hquotient := quotient_le hs' hpos hroot
    have hnext := root_le_next hs (hpos.trans_le hroot)
    have hdiv : checkedDiv val root = some (val / root) := if_neg (by omega)
    have hadd : checkedAdd 128 root (val / root) = some (root + val / root) := by
      refine if_pos ?_
      calc root + val / root ≤ 2 ^ 64 + (2 ^ 64 + 2) := by omega
        _ < 2 ^ 128 := by norm_num
    rw [newton, hdiv]
    dsimp only
    rw [hadd]
    dsimp only
    rw [Nat.shiftRight_eq_div_pow, pow_one]
    split_ifs with hstop
    · exact ⟨root, rfl, hroot, hroot'⟩
    · exact ih _ (by omega) hnext (by omega)

lemma lowerRoot_spec {val s : ℕ} (hs : s * s ≤ val) (hs' : val < (s + 1) * (s + 1))
    (hval : val < 2 ^ 128) (root : ℕ) (hroot : s ≤ root) : lowerRoot val root = s := by
  induction root with
  | zero => exact (Nat.le_zero.mp hroot).symm
  | succ root ih =>
    unfold lowerRoot
    rcases Nat.lt_or_eq_of_le hroot with hlt | heq
    · have hbig : val < (root + 1) * (root + 1) :=
        hs'.trans_le (Nat.mul_le_mul (by omega) (by omega))
      cases hmul : checkedMul 128 (root + 1) (root + 1) with
      | none => exact ih (by omega)
      | some square =>
        unfold checkedMul at hmul
        split_ifs at hmul with hfits
        obtain rfl := Option.some.inj hmul
        dsimp only
        rw [if_pos hbig]
        exact ih (by omega)
    · have hmul : checkedMul 128 (root + 1) (root + 1) = some ((root + 1) * (root + 1)) := by
        rw [← heq]
        exact if_pos (hs.trans_lt hval)
      rw [hmul]
      dsimp only
      rw [← heq, if_neg (not_lt.mpr hs)]

/-- **The integer root and what remains of the value.** -/
theorem sqrtU128WithRemainder_spec {val : ℕ} (hpos : 0 < val) (hval : val < 2 ^ 128) :
    ∃ root remainder, sqrtU128WithRemainder val = some (root, remainder) ∧
      val = root * root + remainder ∧ remainder ≤ 2 * root ∧ root < 2 ^ 64 := by
  have hs := Nat.sqrt_le val
  have hs' := Nat.lt_succ_sqrt val
  have hroot := Nat.sqrt_pos.mpr hpos
  generalize Nat.sqrt val = s at *
  have hs64 : s < 2 ^ 64 := by
    by_contra hge
    have hsq : 2 ^ 64 * 2 ^ 64 ≤ s * s := Nat.mul_le_mul (not_lt.mp hge) (not_lt.mp hge)
    exact absurd (hsq.trans hs) (not_le.mpr (hval.trans_le (by norm_num)))
  have hsize := Nat.size_le.mpr hval
  have hbits : 128 - leadingZeros 128 val = val.size := by
    unfold leadingZeros
    omega
  have hstart : s ≤ 2 ^ ((val.size + 1) / 2) := by
    have hlt := Nat.lt_size_self val
    have hpow : 2 ^ val.size ≤ 2 ^ ((val.size + 1) / 2) * 2 ^ ((val.size + 1) / 2) := by
      rw [← pow_add]
      exact Nat.pow_le_pow_right two_pos (by omega)
    by_contra hgt
    have hsq := Nat.mul_le_mul (not_le.mp hgt).le (not_le.mp hgt).le
    exact absurd (hpow.trans (hsq.trans hs)) (not_le.mpr hlt)
  have hstart' : 2 ^ ((val.size + 1) / 2) ≤ 2 ^ 64 := Nat.pow_le_pow_right two_pos (by omega)
  obtain ⟨r, hnewton, hr, -⟩ := newton_spec hs hs' hroot hs64.le _ hstart hstart'
  have hlower := lowerRoot_spec hs hs' hval r hr
  have hmul : checkedMul 128 s s = some (s * s) := if_pos (hs.trans_lt hval)
  have hsub : checkedSub val (s * s) = some (val - s * s) := if_pos hs
  have hexpand : s.succ * s.succ = s * s + 2 * s + 1 := by
    rw [Nat.succ_eq_add_one]
    ring
  rw [hexpand] at hs'
  refine ⟨s, val - s * s, ?_, by omega, by omega, hs64⟩
  unfold sqrtU128WithRemainder
  rw [if_neg hpos.ne', hbits]
  simp only [Nat.one_shiftLeft, bind_of_eq_some hnewton, hlower, bind_of_eq_some hmul,
    bind_of_eq_some hsub]
  rfl

/-! ### The Guard Bit -/

lemma guard_bounds {w root remainder : ℕ} (hw : w = root * root + remainder)
    (hle : remainder ≤ 2 * root) {q : ℕ} {sticky : Bool}
    (hq : q = 2 * root + (decide (root < remainder)).toNat)
    (hsticky : sticky = true ↔ root < remainder ∨ remainder ≠ 0) :
    (q : ℝ) ≤ √(4 * w) ∧ √(4 * w) < q + 1 ∧ (sticky = true ↔ √(4 * w) ≠ q) := by
  have hsquare : (2 * root + 1) * (2 * root + 1) = 4 * (root * root) + 4 * root + 1 := by ring
  have hnext : (2 * root + 1 + 1) * (2 * root + 1 + 1) = 4 * (root * root) + 8 * root + 4 := by ring
  have htwice : 2 * root * (2 * root) = 4 * (root * root) := by ring
  -- the order of the squares
  have hlow : q * q ≤ 4 * w := by
    rw [hq]
    by_cases hguard : root < remainder
    · rw [decide_eq_true hguard, Bool.toNat_true]
      omega
    · rw [decide_eq_false hguard, Bool.toNat_false, Nat.add_zero]
      omega
  have hhigh : 4 * w < (q + 1) * (q + 1) := by
    rw [hq]
    by_cases hguard : root < remainder
    · rw [decide_eq_true hguard, Bool.toNat_true]
      omega
    · rw [decide_eq_false hguard, Bool.toNat_false, Nat.add_zero]
      omega
  have hexact : sticky = true ↔ 4 * w ≠ q * q := by
    rw [hsticky, hq]
    by_cases hguard : root < remainder
    · rw [decide_eq_true hguard, Bool.toNat_true]
      omega
    · rw [decide_eq_false hguard, Bool.toNat_false, Nat.add_zero]
      omega
  have hnonneg : (0 : ℝ) ≤ q := Nat.cast_nonneg q
  have hw' : (0 : ℝ) ≤ 4 * w := mul_nonneg (by norm_num) (Nat.cast_nonneg w)
  refine ⟨?_, ?_, ?_⟩
  · refine Real.le_sqrt_of_sq_le ?_
    rw [sq]
    exact_mod_cast hlow
  · rw [Real.sqrt_lt' (by linarith), sq]
    exact_mod_cast hhigh
  · rw [hexact, ne_eq, ne_eq, Real.sqrt_eq_iff_mul_self_eq hw' hnonneg]
    constructor
    · exact fun hne heq => hne (by exact_mod_cast heq)
    · exact fun hne heq => hne (by exact_mod_cast heq)

/-! ### Roots -/

lemma rootSticky_eq {root remainder : ℕ} (hroot : root < 2 ^ 64) (hle : remainder ≤ 2 * root) :
    ∃ sticky, Fp80.rootSticky (decide (root < remainder)) root remainder = some sticky ∧
      (sticky = true ↔ root < remainder ∨ remainder ≠ 0) := by
  have hshl : ∀ m, m < 2 ^ 65 → checkedShl 128 m 2 = some (m * 2 ^ 2) := fun m hm =>
    checkedShl_of_lt (by norm_num) (by
      calc m * 2 ^ 2 < 2 ^ 65 * 2 ^ 2 := Nat.mul_lt_mul_of_pos_right hm (by norm_num)
        _ < 2 ^ 128 := by norm_num)
  unfold Fp80.rootSticky
  by_cases hguard : root < remainder
  · have hsub : checkedSub (remainder * 2 ^ 2) (root * 2 ^ 2) =
        some (remainder * 2 ^ 2 - root * 2 ^ 2) := if_pos (by omega)
    have hsub' : checkedSub (remainder * 2 ^ 2 - root * 2 ^ 2) 1 =
        some (remainder * 2 ^ 2 - root * 2 ^ 2 - 1) := if_pos (by omega)
    rw [if_pos (decide_eq_true hguard)]
    simp only [bind_of_eq_some (hshl remainder (by omega)), bind_of_eq_some (hshl root (by omega)),
      bind_of_eq_some hsub, bind_of_eq_some hsub']
    refine ⟨_, rfl, ?_⟩
    rw [decide_eq_true_eq]
    omega
  · rw [if_neg (by simpa using hguard)]
    refine ⟨_, rfl, ?_⟩
    rw [decide_eq_true_eq, or_iff_right hguard]

lemma sqrtFinite_delivers {a : Fp80} (ha : a.Operand) (hsign : a.sign = false) (rc : RoundingMode)
    (pc : Precision) (ef : ExceptionFlags) :
    ∃ r ef', a.sqrtFinite rc pc ef = some (r, ef') ∧ Delivers rc pc (√a.toReal) ef r ef' := by
  obtain ⟨s, e, hcomponents, -, hlow, hhigh, hmagnitude⟩ := ha.components
  -- the even exponent
  obtain ⟨k, j, hk, hk63, hk64, heven⟩ : ∃ (k : ℕ) (j : ℤ),
      (if (e - 63).tmod 2 = 0 then 64 else 63) = k ∧ 63 ≤ k ∧ k ≤ 64 ∧ e - 63 - k = 2 * j := by
    by_cases hmod : (e - 63).tmod 2 = 0
    · obtain ⟨i, hi⟩ := Int.dvd_of_tmod_eq_zero hmod
      exact ⟨64, i - 32, if_pos hmod, by norm_num, le_rfl, by push_cast; omega⟩
    · have hodd : ¬ (2 : ℤ) ∣ e - 63 := mt Int.tmod_eq_zero_of_dvd hmod
      exact ⟨63, (e - 63 - 63) / 2, if_neg hmod, le_rfl, by norm_num, by push_cast; omega⟩
  have hwide : s * 2 ^ k < 2 ^ 128 := by
    calc s * 2 ^ k < 2 ^ 64 * 2 ^ k := Nat.mul_lt_mul_of_pos_right hhigh (Nat.two_pow_pos k)
      _ ≤ 2 ^ 64 * 2 ^ 64 := Nat.mul_le_mul_left _ (Nat.pow_le_pow_right two_pos hk64)
      _ = 2 ^ 128 := by norm_num
  have hwide' : 2 ^ 126 ≤ s * 2 ^ k := by
    calc 2 ^ 126 = 2 ^ 63 * 2 ^ 63 := by norm_num
      _ ≤ s * 2 ^ k := Nat.mul_le_mul hlow (Nat.pow_le_pow_right two_pos hk63)
  have hshl : checkedShl 128 s k = some (s * 2 ^ k) := checkedShl_of_lt (by omega) hwide
  have hexact : √a.toReal = signed false (√(4 * (s * 2 ^ k : ℕ)) * 2 ^ (j + 126 - 127)) := by
    have hreal : a.toReal = (2 ^ (j + 126 - 127)) ^ 2 * (4 * ((s * 2 ^ k : ℕ) : ℝ)) := by
      unfold Fp80.toReal
      rw [hsign, hmagnitude, show e - 63 = 2 * (j - 1) + 2 + k by omega, zpow_add₀ two_ne_zero,
        zpow_add₀ two_ne_zero, zpow_mul', zpow_natCast, show j + 126 - 127 = j - 1 by ring]
      push_cast
      norm_num [signed]
      ring
    have hpos : (0 : ℝ) ≤ 2 ^ (j + 126 - 127) := (zpow_pos two_pos _).le
    rw [hreal, Real.sqrt_mul (sq_nonneg _), Real.sqrt_sq hpos, mul_comm]
    rfl
  generalize hw : s * 2 ^ k = w at *
  obtain ⟨root, remainder, hsqrt, hsplit, hle, hroot⟩ :=
    sqrtU128WithRemainder_spec (hwide'.trans_lt' (by norm_num)) hwide
  obtain ⟨sticky, hsticky, hsticky'⟩ := rootSticky_eq hroot hle
  obtain ⟨hqle, hqlt, hqsticky⟩ := guard_bounds hsplit hle rfl hsticky'
  have hroot' : 2 ^ 63 ≤ root := by
    by_contra hlt
    have hsq : root * root ≤ (2 ^ 63 - 1) * (2 ^ 63 - 1) := Nat.mul_le_mul (by omega) (by omega)
    omega
  have hdouble : checkedShl 128 root 1 = some (root * 2 ^ 1) :=
    checkedShl_of_lt (by norm_num) (by omega)
  have hor : root * 2 ^ 1 ||| (decide (root < remainder)).toNat =
      2 * root + (decide (root < remainder)).toNat := by
    rw [Nat.mul_comm, pow_one, ← pow_one 2, Nat.two_pow_add_eq_or_of_lt (Bool.toNat_lt _)]
  have hguard := Bool.toNat_le (decide (root < remainder))
  generalize hq : 2 * root + (decide (root < remainder)).toNat = q at *
  have hq64 : 2 ^ 64 ≤ q := by omega
  have hpos : 0 < q := by omega
  have hq128 : q < 2 ^ 128 := by omega
  obtain ⟨-, hlast⟩ := shl_leadingZeros hpos hq128
  have hrounds := @rounds_sticky q _ (j + 126) false sticky hpos (by omega) hqle hqlt hqsticky
    ((leadingZeros_le hq64).trans (by norm_num))
  have hexp : (e - 63 - k).tdiv 2 - 1 - (leadingZeros 128 q : ℤ) + 127 =
      j + 126 - leadingZeros 128 q := by
    rw [heven, Int.mul_tdiv_cancel_left _ two_ne_zero]
    ring
  unfold Fp80.sqrtFinite
  rw [hcomponents, hexact]
  dsimp only
  rw [hk]
  simp only [bind_of_eq_some hshl, bind_of_eq_some hsqrt, bind_of_eq_some hsticky,
    bind_of_eq_some hdouble, hor,
    bind_of_eq_some (checkedShl_of_lt (leadingZeros_lt hpos hq128) hlast), hexp]
  exact hrounds.roundAndPack rc pc ef

/-! ### Flags before Rounding -/

/-- Two states of the flags with the same flags of rounding. -/
structure SameRounding (ef ef' : ExceptionFlags) : Prop where
  precision : ef'.precision = ef.precision
  roundedUp : ef'.roundedUp = ef.roundedUp
  tiny : ef'.tiny = ef.tiny
  underflow : ef'.underflow = ef.underflow
  overflow : ef'.overflow = ef.overflow

lemma SameRounding.trans {ef ef' ef'' : ExceptionFlags} (h : SameRounding ef ef')
    (h' : SameRounding ef' ef'') : SameRounding ef ef'' :=
  ⟨h'.precision.trans h.precision, h'.roundedUp.trans h.roundedUp, h'.tiny.trans h.tiny,
    h'.underflow.trans h.underflow, h'.overflow.trans h.overflow⟩

lemma sameRounding_flagDenormal (a : Fp80) (ef : ExceptionFlags) :
    SameRounding ef (a.flagDenormal ef) := by
  unfold Fp80.flagDenormal
  split_ifs <;> exact ⟨rfl, rfl, rfl, rfl, rfl⟩

lemma Delivers.of_same {rc : RoundingMode} {pc : Precision} {x : ℝ} {ef₀ ef ef' : ExceptionFlags}
    {r : Fp80} (h : Delivers rc pc x ef r ef') (hsame : SameRounding ef₀ ef) :
    Delivers rc pc x ef₀ r ef' := by
  obtain ⟨hvalue, hcanonical, hprecision, hup, htiny, hunderflow, hoverflow⟩ := h
  rw [hsame.precision] at hprecision
  rw [hsame.roundedUp] at hup
  rw [hsame.tiny] at htiny
  rw [hsame.underflow] at hunderflow
  rw [hsame.overflow] at hoverflow
  exact ⟨hvalue, hcanonical, hprecision, hup, htiny, hunderflow, hoverflow⟩

lemma flagUnsupportedOperands_plain {operands : List Fp80}
    (h : ∀ a ∈ operands, a.isUnsupported = false) (ef : ExceptionFlags) :
    ∃ ef', flagUnsupportedOperands operands ef = (false, ef') ∧ SameRounding ef ef' := by
  have hnone : operands.any Fp80.isUnsupported = false := by
    rw [List.any_eq_false]
    exact fun a ha => by rw [h a ha]; exact Bool.false_ne_true
  unfold flagUnsupportedOperands
  rw [hnone]
  exact ⟨_, rfl, rfl, rfl, rfl, rfl, rfl⟩

/-! ### The Negative of an Operand -/

namespace Fp80

lemma sign_eq_msb (a : Fp80) : a.sign = a.signExponent.msb := by
  rw [sign_eq, BitVec.msb_eq_decide]

@[simp] lemma sign_negate (a : Fp80) : a.negate.sign = !a.sign := by
  rw [sign_eq_msb, sign_eq_msb]
  unfold negate
  rw [BitVec.msb_xor]
  exact Bool.xor_true _

@[simp] lemma exponent_negate (a : Fp80) : a.negate.exponent = a.exponent := by
  rw [exponent_eq, exponent_eq]
  unfold negate
  rw [BitVec.toNat_xor, Nat.xor_mod_two_pow]
  exact Nat.xor_zero _

lemma Operand.negate {a : Fp80} (h : a.Operand) : a.negate.Operand := by
  unfold Operand isNormal isDenormal isPseudoDenormal at h ⊢
  rw [exponent_negate]
  exact h

lemma toReal_negate (a : Fp80) : a.negate.toReal = -a.toReal := by
  have hmagnitude : a.negate.magnitude = a.magnitude := by
    unfold magnitude trueExponent
    rw [exponent_negate]
    rfl
  unfold toReal
  rw [hmagnitude, sign_negate]
  cases a.sign
  · rfl
  · exact (neg_neg _).symm

end Fp80

/-! ### Operations -/

section

variable {a b : Fp80} (rc : RoundingMode) (pc : Precision) (ef : ExceptionFlags)

lemma add_delivers (ha : a.Operand) (hb : b.Operand) :
    ∃ r ef', a.add b rc pc ef = some (r, ef') ∧ Delivers rc pc (a.toReal + b.toReal) ef r ef' := by
  obtain ⟨hsupported, hnan, hinfinity, hzero⟩ := ha.plain
  obtain ⟨hsupported', hnan', hinfinity', hzero'⟩ := hb.plain
  obtain ⟨ef₁, hflags, hsame⟩ := @flagUnsupportedOperands_plain [a, b] (by simp [*]) ef
  obtain ⟨r, ef', hadd, hdelivers⟩ :=
    addFinite_delivers ha hb rc pc (b.flagDenormal (a.flagDenormal ef₁))
  refine ⟨r, ef', ?_, hdelivers.of_same (hsame.trans
    ((sameRounding_flagDenormal a ef₁).trans (sameRounding_flagDenormal b _)))⟩
  unfold Fp80.add
  rw [hflags, hnan, hnan', hinfinity, hinfinity', hzero, hzero']
  exact hadd

lemma sub_delivers (ha : a.Operand) (hb : b.Operand) :
    ∃ r ef', a.sub b rc pc ef = some (r, ef') ∧ Delivers rc pc (a.toReal - b.toReal) ef r ef' := by
  rw [sub_eq_add_neg, ← b.toReal_negate]
  exact add_delivers rc pc ef ha hb.negate

lemma mul_delivers (ha : a.Operand) (hb : b.Operand) :
    ∃ r ef', a.mul b rc pc ef = some (r, ef') ∧ Delivers rc pc (a.toReal * b.toReal) ef r ef' := by
  obtain ⟨hsupported, hnan, hinfinity, hzero⟩ := ha.plain
  obtain ⟨hsupported', hnan', hinfinity', hzero'⟩ := hb.plain
  obtain ⟨ef₁, hflags, hsame⟩ := @flagUnsupportedOperands_plain [a, b] (by simp [*]) ef
  obtain ⟨r, ef', hmul, hdelivers⟩ :=
    mulFinite_delivers ha hb rc pc (b.flagDenormal (a.flagDenormal ef₁))
  refine ⟨r, ef', ?_, hdelivers.of_same (hsame.trans
    ((sameRounding_flagDenormal a ef₁).trans (sameRounding_flagDenormal b _)))⟩
  unfold Fp80.mul
  rw [hflags, hnan, hnan', hinfinity, hinfinity', hzero, hzero']
  exact hmul

lemma div_delivers (ha : a.Operand) (hb : b.Operand) :
    ∃ r ef', a.div b rc pc ef = some (r, ef') ∧ Delivers rc pc (a.toReal / b.toReal) ef r ef' := by
  obtain ⟨hsupported, hnan, hinfinity, hzero⟩ := ha.plain
  obtain ⟨hsupported', hnan', hinfinity', hzero'⟩ := hb.plain
  obtain ⟨ef₁, hflags, hsame⟩ := @flagUnsupportedOperands_plain [a, b] (by simp [*]) ef
  obtain ⟨r, ef', hdiv, hdelivers⟩ :=
    divFinite_delivers ha hb rc pc (b.flagDenormal (a.flagDenormal ef₁))
  refine ⟨r, ef', ?_, hdelivers.of_same (hsame.trans
    ((sameRounding_flagDenormal a ef₁).trans (sameRounding_flagDenormal b _)))⟩
  unfold Fp80.div
  rw [hflags, hnan, hnan', hinfinity, hinfinity', hzero, hzero']
  exact hdiv

lemma sqrt_delivers (ha : a.Operand) (hsign : a.sign = false) :
    ∃ r ef', a.sqrt rc pc ef = some (r, ef') ∧ Delivers rc pc (√a.toReal) ef r ef' := by
  obtain ⟨hsupported, hnan, hinfinity, hzero⟩ := ha.plain
  have hexp := ha.exponent_lt
  have hsignaling : a.isSignalingNan = false := by
    unfold Fp80.isSignalingNan
    rw [decide_eq_false (show a.exponent ≠ 0x7FFF by omega)]
    rfl
  have hquiet : a.isQuietNan = false := by
    unfold Fp80.isQuietNan
    rw [decide_eq_false (show a.exponent ≠ 0x7FFF by omega)]
    rfl
  obtain ⟨ef₁, hflags, hsame⟩ := @flagUnsupportedOperands_plain [a] (by simp [*]) ef
  obtain ⟨r, ef', hsqrt, hdelivers⟩ := sqrtFinite_delivers ha hsign rc pc (a.flagDenormal ef₁)
  refine ⟨r, ef', ?_, hdelivers.of_same (hsame.trans (sameRounding_flagDenormal a ef₁))⟩
  unfold Fp80.sqrt
  rw [hflags, hsignaling, hquiet, hsign, hinfinity, hzero]
  exact hsqrt

/-- **The operations deliver their exact results, rounded once, and no number of 128 bits
overflows.** -/
theorem arithmetic_delivers (ha : a.Operand) (hb : b.Operand) :
    (∃ r ef', a.add b rc pc ef = some (r, ef') ∧
      Delivers rc pc (a.toReal + b.toReal) ef r ef') ∧
    (∃ r ef', a.sub b rc pc ef = some (r, ef') ∧
      Delivers rc pc (a.toReal - b.toReal) ef r ef') ∧
    (∃ r ef', a.mul b rc pc ef = some (r, ef') ∧
      Delivers rc pc (a.toReal * b.toReal) ef r ef') ∧
    (∃ r ef', a.div b rc pc ef = some (r, ef') ∧
      Delivers rc pc (a.toReal / b.toReal) ef r ef') ∧
    (a.sign = false → ∃ r ef', a.sqrt rc pc ef = some (r, ef') ∧
      Delivers rc pc (√a.toReal) ef r ef') :=
  ⟨add_delivers rc pc ef ha hb, sub_delivers rc pc ef ha hb, mul_delivers rc pc ef ha hb,
    div_delivers rc pc ef ha hb, sqrt_delivers rc pc ef ha⟩

end

/-- The largest denormal number. -/
def largestDenormal : Fp80 := .fromBits 0x0000 0x7FFFFFFFFFFFFFFF

/-- The root of the largest denormal number. -/
theorem arithmetic_delivers_denormal : ∃ r ef', largestDenormal.sqrt .up .single .default =
    some (r, ef') ∧ Delivers .up .single (√largestDenormal.toReal) .default r ef' := by
  have hone : Fp80.one.Operand := Or.inl (by decide)
  have hdenormal : largestDenormal.Operand := Or.inr (Or.inl (by decide))
  exact (arithmetic_delivers .up .single .default hdenormal hone).2.2.2.2 (by decide)

/-- **The result zero is not flagged as tiny, though zero lies below the smallest normal
number.** -/
theorem not_tiny_cancelled : ∃ ef', Fp80.one.Operand ∧
    Fp80.one.sub .one .nearestEven .extended .default = some (.zero, ef') ∧
    ¬ (ef'.tiny = true ↔
      |unboundedResult .nearestEven .extended (Fp80.one.toReal - Fp80.one.toReal)| <
      smallestNormal) := by
  refine ⟨.default, Or.inl (by decide), by decide, ?_⟩
  have hzero : unboundedResult .nearestEven .extended (Fp80.one.toReal - Fp80.one.toReal) = 0 := by
    have hround := @roundEven_intCast ℝ _ _ _ _ 0
    rw [Int.cast_zero] at hround
    unfold unboundedResult roundUnbounded roundAt
    rw [sub_self, zero_div]
    change ((roundEven (0 : ℝ) : ℤ) : ℝ) * _ = 0
    rw [hround, Int.cast_zero, zero_mul]
  rw [hzero, abs_zero]
  exact fun h => Bool.false_ne_true (h.mpr (zpow_pos two_pos _))

end Neetan.SoftFloat
