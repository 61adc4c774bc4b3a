import Neetan.Fp80Exact
import Mathlib.Data.Nat.Cast.Field

/-!
Sums: the summands are aligned at the larger exponent, where the smaller one may lose low bits.

Bits are lost only when the exponents are far apart, and then the sum keeps almost all of its own.
-/

namespace Neetan.SoftFloat

open MachineInt RealRounding

/-! ### Alignment -/

/-- Bits that are ready for rounding once their leading zeros are gone. -/
def Ready (n : ℕ) (z : ℝ) : Prop :=
  0 < n ∧ n < 2 ^ 128 ∧
    Alike (2 ^ 63) ((n * 2 ^ leadingZeros 128 n : ℕ) : ℝ) (z * 2 ^ leadingZeros 128 n)

lemma ready_exact {n : ℕ} (hpos : 0 < n) (hn : n < 2 ^ 128) : Ready n (n : ℝ) := by
  refine ⟨hpos, hn, ?_⟩
  push_cast
  exact Alike.refl _ _

lemma ready_alike {n : ℕ} {z : ℝ} (hlow : 2 ^ 125 ≤ n) (hn : n < 2 ^ 128) (h : Alike 2 (n : ℝ) z) :
    Ready n z := by
  have hzeros := leadingZeros_le hlow
  refine ⟨hlow.trans_lt' (by norm_num), hn, ?_⟩
  have hpow : Alike ((2 : ℝ) ^ 1) (n : ℝ) z := by
    rw [pow_one]
    exact h
  exact alike_normalized hpow (by omega)

/-- Two aligned summands: their sum and their difference are ready for rounding. -/
structure Summands (m n : ℕ) (α β : ℝ) : Prop where
  sum : Ready (m + n) (α + β)
  left : n < m → Ready (m - n) (α - β)
  right : m < n → Ready (n - m) (β - α)
  equal : m = n → α = β

lemma Summands.symm {m n : ℕ} {α β : ℝ} (h : Summands m n α β) : Summands n m β α := by
  refine ⟨?_, h.right, h.left, fun heq => (h.equal heq.symm).symm⟩
  rw [Nat.add_comm n m, add_comm β α]
  exact h.sum

lemma summands_exact {m n : ℕ} (hm : 0 < m) (hm' : m < 2 ^ 127) (hn : n < 2 ^ 127) :
    Summands m n (m : ℝ) (n : ℝ) := by
  refine ⟨?_, fun hlt => ?_, fun hlt => ?_, fun heq => by rw [heq]⟩
  · have hready := @ready_exact (m + n) (by omega) (by omega)
    rwa [Nat.cast_add] at hready
  · have hready := @ready_exact (m - n) (by omega) (by omega)
    rwa [Nat.cast_sub hlt.le] at hready
  · have hready := @ready_exact (n - m) (by omega) (by omega)
    rwa [Nat.cast_sub hlt.le] at hready

lemma shifted_significand {t d : ℕ} (ht : t < 2 ^ 64) (hd : 0 < d) :
    shiftRightSticky (t * 2 ^ 63) d < 2 ^ 126 ∧
      ((shiftRightSticky (t * 2 ^ 63) d : ℝ) = (t * 2 ^ 63 : ℕ) / 2 ^ d ∨
        shiftRightSticky (t * 2 ^ 63) d ≤ 2 ^ 63) := by
  have hwide : t * 2 ^ 63 < 2 ^ 127 := by
    calc t * 2 ^ 63 < 2 ^ 64 * 2 ^ 63 := Nat.mul_lt_mul_of_pos_right ht (by norm_num)
      _ = 2 ^ 127 := by norm_num
  have hbit : ∀ (b : Bool) (k : ℕ), 0 < k → b.toNat < 2 ^ k := fun b k hk =>
    (Bool.toNat_lt b).trans_le (Nat.pow_le_pow_right two_pos hk)
  have hdiv : ∀ k, 127 ≤ k + d → t * 2 ^ 63 / 2 ^ d < 2 ^ k := fun k hk => by
    rw [Nat.div_lt_iff_lt_mul (Nat.two_pow_pos d), ← pow_add]
    exact hwide.trans_le (Nat.pow_le_pow_right two_pos hk)
  unfold shiftRightSticky
  rw [if_neg hd.ne']
  by_cases hbig : 128 ≤ d
  · rw [if_pos hbig]
    exact ⟨hbit _ 126 (by norm_num), Or.inr (hbit _ 63 (by norm_num)).le⟩
  · rw [if_neg hbig, Nat.shiftRight_eq_div_pow, Nat.one_shiftLeft, Nat.and_two_pow_sub_one_eq_mod]
    refine ⟨Nat.or_lt_two_pow (hdiv 126 (by omega)) (hbit _ 126 (by norm_num)), ?_⟩
    by_cases hfar : 64 ≤ d
    · exact Or.inr (Nat.or_lt_two_pow (hdiv 63 (by omega)) (hbit _ 63 (by norm_num))).le
    · -- no bit is lost
      refine Or.inl ?_
      have hdvd : 2 ^ d ∣ t * 2 ^ 63 := Dvd.dvd.mul_left (pow_dvd_pow 2 (by omega)) t
      have hpow : ((2 ^ d : ℕ) : ℝ) ≠ 0 := Nat.cast_ne_zero.mpr (Nat.two_pow_pos d).ne'
      rw [Nat.mod_eq_zero_of_dvd hdvd, decide_eq_false (not_not.mpr rfl), Bool.toNat_false,
        Nat.or_zero, Nat.cast_div hdvd hpow, Nat.cast_pow, Nat.cast_ofNat]

lemma summands_far {m n : ℕ} {β : ℝ} (hm : 2 ^ 126 ≤ m) (hm' : m < 2 ^ 127) (heven : m % 2 = 0)
    (halike : Alike 2 (n : ℝ) β) (hn : n < 2 ^ 126) (hshort : (n : ℝ) = β ∨ n ≤ 2 ^ 63) :
    Summands m n (m : ℝ) β := by
  have hcast : (m : ℝ) = ((m / 2 : ℕ) : ℤ) * 2 := by
    have hdiv : m = m / 2 * 2 := by omega
    exact_mod_cast hdiv
  have hsum := halike.add_left ((m / 2 : ℕ) : ℤ)
  have hdifference := halike.sub_left ((m / 2 : ℕ) : ℤ)
  rw [← hcast] at hsum hdifference
  refine ⟨?_, fun hlt => ?_, fun hlt => absurd hlt (by omega), fun heq => absurd heq (by omega)⟩
  · refine ready_alike (by omega) (by omega) ?_
    rwa [Nat.cast_add]
  · rcases hshort with hexact | hsmall
    · rw [← hexact, ← Nat.cast_sub hlt.le]
      exact ready_exact (by omega) (by omega)
    · refine ready_alike (by omega) (by omega) ?_
      rwa [Nat.cast_sub hlt.le]

lemma wide_significand {s : ℕ} (hs : 2 ^ 63 ≤ s) (hs' : s < 2 ^ 64) :
    2 ^ 126 ≤ s * 2 ^ 63 ∧ s * 2 ^ 63 < 2 ^ 127 ∧ s * 2 ^ 63 % 2 = 0 := by
  refine ⟨?_, ?_, ?_⟩
  · calc 2 ^ 126 = 2 ^ 63 * 2 ^ 63 := by norm_num
      _ ≤ s * 2 ^ 63 := Nat.mul_le_mul_right _ hs
  · calc s * 2 ^ 63 < 2 ^ 64 * 2 ^ 63 := Nat.mul_lt_mul_of_pos_right hs' (by norm_num)
      _ = 2 ^ 127 := by norm_num
  · rw [pow_succ, ← Nat.mul_assoc]
    exact Nat.mul_mod_left _ 2

lemma summands_shifted {s t d : ℕ} (hs : 2 ^ 63 ≤ s) (hs' : s < 2 ^ 64) (ht : t < 2 ^ 64)
    (hd : 0 < d) : Summands (s * 2 ^ 63) (shiftRightSticky (t * 2 ^ 63) d) ((s * 2 ^ 63 : ℕ) : ℝ)
      ((t * 2 ^ 63 : ℕ) / 2 ^ d) := by
  obtain ⟨hlow, hhigh, heven⟩ := wide_significand hs hs'
  obtain ⟨hlt, hshort⟩ := @shifted_significand t d ht hd
  have hwide : t * 2 ^ 63 < 2 ^ 128 := by
    calc t * 2 ^ 63 < 2 ^ 64 * 2 ^ 63 := Nat.mul_lt_mul_of_pos_right ht (by norm_num)
      _ ≤ 2 ^ 128 := by norm_num
  exact summands_far hlow hhigh heven (shiftRightSticky_alike (t * 2 ^ 63) d hwide) hlt hshort

/-! ### Sums -/

lemma signed_add_signed (s t : Bool) (x y c : ℝ) :
    signed s (x * c) + signed t (y * c) =
      if s = t then signed s ((x + y) * c) else signed s ((x - y) * c) := by
  cases s <;> cases t <;> simp [signed] <;> ring

lemma signed_not (s t : Bool) (h : s ≠ t) (x : ℝ) : signed s x = signed t (-x) := by
  cases s <;> cases t <;> simp [signed] at h ⊢

lemma delivers_zero (rc : RoundingMode) (pc : Precision) (ef : ExceptionFlags) :
    Delivers rc pc 0 ef (if rc = .down then Fp80.negZero else Fp80.zero) ef := by
  have hround : ∀ e, roundAt rc.round e (0 : ℝ) = 0 := by
    intro e
    unfold roundAt
    rw [zero_div]
    have hint : rc.round 0 = 0 := by
      have hcast : ((0 : ℤ) : ℝ) = 0 := Int.cast_zero
      cases rc with
      | nearestEven => exact hcast ▸ roundEven_intCast 0
      | down => exact Int.floor_zero
      | up => exact Int.ceil_zero
      | zero => exact (if_neg (lt_irrefl _)).trans Int.floor_zero
    rw [hint, Int.cast_zero, zero_mul]
  have hover : ¬ Overflows rc pc 0 := by
    unfold Overflows unboundedResult roundUnbounded
    rw [hround, abs_zero]
    exact not_lt.mpr ((zpow_pos two_pos _).le.trans (smallestNormal_lt_largestFinite pc).le)
  have htiny : ¬ IsTiny rc pc 0 := fun h => h.1 rfl
  obtain ⟨z, hz, hzero, hinfinity, hsignificand⟩ : ∃ z : Fp80,
      (if rc = .down then Fp80.negZero else Fp80.zero) = z ∧ z.isZero = true ∧
        z.isInfinity = false ∧ z.significand = 0 := by
    split_ifs
    · exact ⟨_, rfl, by decide, by decide, rfl⟩
    · exact ⟨_, rfl, by decide, by decide, rfl⟩
  have hmagnitude : z.magnitude = 0 := by
    unfold Fp80.magnitude
    rw [hsignificand]
    simp
  have hvalue : z.value = ((0 : ℝ) : EReal) := by
    unfold Fp80.value Fp80.toReal
    rw [hinfinity, hmagnitude]
    cases z.sign
    · rfl
    · exact congrArg _ neg_zero
  have hsize : ¬ ((|(0 : ℝ)| : ℝ) : EReal) < z.size := by
    unfold Fp80.size
    rw [hinfinity, hmagnitude, abs_zero]
    exact lt_irrefl _
  rw [hz]
  refine ⟨?_, Or.inl hzero, ?_, ?_, ?_, ?_, ?_⟩
  · unfold delivered roundGradual
    rw [if_neg hover, hround, hvalue]
  · rw [hvalue, or_iff_left (not_not.mpr rfl)]
  · rw [or_iff_left hsize]
  · rw [or_iff_left htiny]
  · rw [or_iff_left fun h => htiny h.1]
  · rw [or_iff_left hover]

lemma addFinite_delivers {a b : Fp80} (ha : a.Operand) (hb : b.Operand) (rc : RoundingMode)
    (pc : Precision) (ef : ExceptionFlags) :
    ∃ r ef', a.addFinite b rc pc ef = some (r, ef') ∧
      Delivers rc pc (a.toReal + b.toReal) ef r ef' := by
  obtain ⟨s, e, -, hcomponents, hlow, hhigh, hmagnitude⟩ := ha.components
  obtain ⟨t, f, -, hcomponents', hlow', hhigh', hmagnitude'⟩ := hb.components
  obtain ⟨hwlow, hwhigh, -⟩ := wide_significand hlow hhigh
  obtain ⟨hwlow', hwhigh', -⟩ := wide_significand hlow' hhigh'
  have hshl : checkedShl 128 s 63 = some (s * 2 ^ 63) :=
    checkedShl_of_lt (by norm_num) (hwhigh.trans (by norm_num))
  have hshl' : checkedShl 128 t 63 = some (t * 2 ^ 63) :=
    checkedShl_of_lt (by norm_num) (hwhigh'.trans (by norm_num))
  -- the aligned summands, in units of a common last place
  obtain ⟨m, n, α, β, g, hm, hn, hg, hα, hβ, hsummands⟩ : ∃ (m n : ℕ) (α β : ℝ) (g : ℤ),
      (if e < f then shiftRightSticky (s * 2 ^ 63) (f - e).toNat else s * 2 ^ 63) = m ∧
      (if f < e then shiftRightSticky (t * 2 ^ 63) (e - f).toNat else t * 2 ^ 63) = n ∧
      (if e < f then f else e) = g ∧ a.magnitude = α * 2 ^ (g - 126) ∧
      b.magnitude = β * 2 ^ (g - 126) ∧ Summands m n α β := by
    have hunit : ∀ (k : ℕ) (i : ℤ), (k : ℝ) * 2 ^ (i - 63) = (k * 2 ^ 63 : ℕ) * 2 ^ (i - 126) := by
      intro k i
      rw [Nat.cast_mul, Nat.cast_pow, Nat.cast_ofNat, mul_assoc, ← zpow_natCast,
        ← zpow_add₀ two_ne_zero]
      congr 2
      push_cast
      ring
    have hshift : ∀ (x : ℝ) (i j : ℤ), i < j →
        x * 2 ^ (i - 126) = x / 2 ^ (j - i).toNat * 2 ^ (j - 126) := by
      intro x i j hij
      rw [div_mul_eq_mul_div, eq_div_iff (pow_pos two_pos _).ne', mul_assoc, ← zpow_natCast,
        ← zpow_add₀ two_ne_zero]
      congr 2
      omega
    rcases lt_trichotomy e f with hef | hef | hef
    · refine ⟨_, _, _, _, f, if_pos hef, if_neg (not_lt.mpr hef.le), if_pos hef, ?_, ?_,
        (summands_shifted hlow' hhigh' hhigh (show 0 < (f - e).toNat by omega)).symm⟩
      · rw [hmagnitude, hunit, hshift _ e f hef]
      · rw [hmagnitude', hunit]
    · subst hef
      refine ⟨_, _, _, _, e, if_neg (lt_irrefl e), if_neg (lt_irrefl e), if_neg (lt_irrefl e), ?_,
        ?_, summands_exact (hwlow.trans_lt' (by norm_num)) hwhigh hwhigh'⟩
      · rw [hmagnitude, hunit]
      · rw [hmagnitude', hunit]
    · refine ⟨_, _, _, _, e, if_neg (not_lt.mpr hef.le), if_pos hef, if_neg (not_lt.mpr hef.le), ?_,
        ?_, summands_shifted hlow hhigh hhigh' (show 0 < (e - f).toNat by omega)⟩
      · rw [hmagnitude, hunit]
      · rw [hmagnitude', hunit, hshift _ f e hef]
  -- what is rounded
  have hround : ∀ (sign : Bool) (k : ℕ) (z : ℝ), Ready k z →
      Fp80.addMagnitudes a.sign b.sign m n = some (sign, k) →
      a.toReal + b.toReal = signed sign (z * 2 ^ (g - 126)) →
      ∃ r ef', a.addFinite b rc pc ef = some (r, ef') ∧
        Delivers rc pc (a.toReal + b.toReal) ef r ef' := by
    rintro sign k z ⟨hpos, hk, halike⟩ hadd hexact
    obtain ⟨-, hlast⟩ := shl_leadingZeros hpos hk
    have hrounds := @rounds_normalized k z (g + 1) sign hpos hk halike
    rw [show g + 1 - 127 = g - 126 by ring, ← hexact] at hrounds
    unfold Fp80.addFinite
    simp only [bind_of_eq_some hcomponents, bind_of_eq_some hcomponents', bind_of_eq_some hshl,
      bind_of_eq_some hshl', hm, hn, hg, bind_of_eq_some hadd, if_neg hpos.ne',
      bind_of_eq_some (checkedShl_of_lt (leadingZeros_lt hpos hk) hlast)]
    exact hrounds.roundAndPack rc pc ef
  have hvalue := signed_add_signed a.sign b.sign α β (2 ^ (g - 126))
  rw [← hα, ← hβ] at hvalue
  change a.toReal + b.toReal = _ at hvalue
  by_cases hsign : a.sign = b.sign
  · rw [if_pos hsign] at hvalue
    refine hround a.sign (m + n) (α + β) hsummands.sum ?_ hvalue
    unfold Fp80.addMagnitudes
    rw [if_pos hsign]
    have hsum : checkedAdd 128 m n = some (m + n) := if_pos hsummands.sum.2.1
    rw [bind_of_eq_some hsum]
    rfl
  · rw [if_neg hsign] at hvalue
    rcases lt_trichotomy n m with hlt | heq | hlt
    · refine hround a.sign (m - n) (α - β) (hsummands.left hlt) ?_ hvalue
      unfold Fp80.addMagnitudes
      have hsub : checkedSub m n = some (m - n) := if_pos hlt.le
      rw [if_neg hsign, if_pos hlt, bind_of_eq_some hsub]
      rfl
    · -- exact cancellation
      have hzero : a.toReal + b.toReal = 0 := by
        rw [hvalue, hsummands.equal heq.symm, sub_self, zero_mul]
        cases a.sign
        · rfl
        · exact neg_zero
      have hadd : Fp80.addMagnitudes a.sign b.sign m n = some (a.sign, 0) := by
        unfold Fp80.addMagnitudes
        rw [if_neg hsign, if_neg (not_lt.mpr heq.ge), if_neg (not_lt.mpr heq.le)]
        rfl
      refine ⟨_, _, ?_, hzero ▸ delivers_zero rc pc ef⟩
      unfold Fp80.addFinite
      simp only [bind_of_eq_some hcomponents, bind_of_eq_some hcomponents', bind_of_eq_some hshl,
        bind_of_eq_some hshl', hm, hn, bind_of_eq_some hadd]
      rfl
    · refine hround b.sign (n - m) (β - α) (hsummands.right hlt) ?_ ?_
      · unfold Fp80.addMagnitudes
        have hsub : checkedSub n m = some (n - m) := if_pos hlt.le
        rw [if_neg hsign, if_neg (not_lt.mpr hlt.le), if_pos hlt, bind_of_eq_some hsub]
        rfl
      · rw [hvalue, signed_not a.sign b.sign hsign]
        congr 1
        ring

end Neetan.SoftFloat
