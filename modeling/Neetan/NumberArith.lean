import Neetan.NumberExact

/-!
The exact operations of the Scheme runtime deliver their true results.

Addition, multiplication and negation always do. A subtraction goes through the negation of
its right operand, and a division multiplies before it settles the sign: these two miss a
representable result exactly when that step leaves the range.
-/

namespace Neetan.NumberArith

open Neetan.MachineInt Neetan.Number Neetan.NumberExact

variable {r l : Number.Real} {a d b : ℤ}

theorem realAdd_delivers (hl : IsExact l) (hr : IsExact r) :
    Delivers (realAdd l r) (some (toRat l + toRat r)) := by
  obtain ⟨a, b, hfl, hvl, hb0, hb, ha, hab, hsl⟩ := fraction_of_isExact hl
  obtain ⟨c, d, hfr, hvr, hd0, hd, hc, hcd, hsr⟩ := fraction_of_isExact hr
  have hmain := fun hsmall => addFractions_delivers hb0 hd0 hb hd ha hc hab hcd hsmall
  rw [← hvl, ← hvr] at hmain
  cases l with
  | exactInteger v =>
    cases r with
    | exactInteger u =>
      have := checkedInteger_delivers (v + u) rangeMessage
      push_cast at this
      exact this
    | exactRational u =>
      obtain ⟨rfl, rfl⟩ : v = a ∧ 1 = b := by simpa [fraction] using hfl
      obtain ⟨rfl, rfl⟩ : u.numerator = c ∧ u.denominator = d := by simpa [fraction] using hfr
      exact hmain (.inr (.inl ⟨rfl, hr.1⟩))
    | inexact u => exact hr.elim
  | exactRational v =>
    obtain ⟨rfl, rfl⟩ : v.numerator = a ∧ v.denominator = b := by simpa [fraction] using hfl
    cases r with
    | exactInteger u =>
      obtain ⟨rfl, rfl⟩ : u = c ∧ 1 = d := by simpa [fraction] using hfr
      exact hmain (.inr (.inr ⟨rfl, hl.1⟩))
    | exactRational u =>
      obtain ⟨rfl, rfl⟩ : u.numerator = c ∧ u.denominator = d := by simpa [fraction] using hfr
      exact hmain (.inl ⟨hl.1, hr.1⟩)
    | inexact u => exact hr.elim
  | inexact v => exact hl.elim

theorem realNeg_delivers (hr : IsExact r) :
    Delivers (realNeg r) (some (-toRat r)) := by
  cases r with
  | exactInteger v =>
    have := checkedInteger_delivers (-v) rangeMessage
    push_cast at this
    exact this
  | exactRational v =>
    obtain ⟨hn, hd, hd0, -⟩ := hr
    have hneg : Fits 128 (-v.numerator) := by
      obtain ⟨h1, h2⟩ := hn
      constructor <;> omega
    have hrun : realNeg (.exactRational v) =
        checkedRational (-v.numerator) v.denominator := by
      simp only [realNeg, neg128, if_pos hneg]
      rfl
    have hval : -toRat (.exactRational v) = ((-v.numerator : ℤ) : ℚ) / v.denominator := by
      push_cast [toRat]; ring
    rw [hrun, hval]
    exact checkedRational_of_pos hneg (fits_mono (by norm_num) hd) hd0
  | inexact v => exact hr.elim

/-- The two integers are subtracted without a negation. -/
def BothIntegers (l r : Number.Real) : Prop := ∃ a b, l = .exactInteger a ∧ r = .exactInteger b

lemma delivers_inv {out : Outcome Number.Real} {q : ℚ} (h : Delivers out (some q)) :
    (Representable q ∧ out = .ok (ofRat q)) ∨ (¬ Representable q ∧ Rejects out) := by
  rcases out with (text | _) | r
  · refine .inr ⟨fun hq => ?_, ⟨text, rfl⟩⟩
    exact absurd ((h.1 _).mpr ⟨q, rfl, hq, rfl⟩) (by simp)
  · exact absurd rfl h.2
  · obtain ⟨_, hq, hrep, rfl⟩ := (h.1 r).mp rfl
    rw [← Option.some.inj hq] at hrep ⊢
    exact .inl ⟨hrep, rfl⟩

theorem realSub_delivers_iff (hl : IsExact l) (hr : IsExact r) :
    Delivers (realSub l r) (some (toRat l - toRat r)) ↔
      (Representable (toRat l - toRat r) → BothIntegers l r ∨ Representable (-toRat r)) := by
  by_cases hint : BothIntegers l r
  · obtain ⟨a, b, rfl, rfl⟩ := hint
    have := checkedInteger_delivers (a - b) rangeMessage
    push_cast at this
    exact iff_of_true this fun _ => .inl ⟨a, b, rfl, rfl⟩
  · have hrun : realSub l r = realNeg r >>= fun r' => realAdd l r' := by
      cases l <;> cases r <;> first | rfl | exact absurd ⟨_, _, rfl, rfl⟩ hint
    rcases delivers_inv (realNeg_delivers hr) with ⟨hrep, hneg⟩ | ⟨hrep, text, hneg⟩
    · have := realAdd_delivers hl (isExact_ofRat hrep)
      rw [toRat_ofRat, ← sub_eq_add_neg] at this
      rw [hrun, hneg]
      exact iff_of_true this fun _ => .inr hrep
    · have hrej : Rejects (realSub l r) := by rw [hrun, hneg]; exact ⟨text, rfl⟩
      rw [delivers_of_rejects hrej]
      simp [hint, hrep]

/-! ### Multiplication and division: fractions reduced across -/

lemma cross_coprime {c g h : ℤ} (hab : IsCoprime a b) (hcd : IsCoprime c d) (hg : g = Int.gcd a d)
    (hh : h = Int.gcd c b) (hg0 : g ≠ 0) (hh0 : h ≠ 0) :
    IsCoprime (a / g * (c / h)) (b / h * (d / g)) := by
  have hga : g ∣ a := hg ▸ Int.gcd_dvd_left ..
  have hgd : g ∣ d := hg ▸ Int.gcd_dvd_right ..
  have hhc : h ∣ c := hh ▸ Int.gcd_dvd_left ..
  have hhb : h ∣ b := hh ▸ Int.gcd_dvd_right ..
  have e1 : IsCoprime (a / g) (b / h) :=
    (hab.of_isCoprime_of_dvd_left (Int.ediv_dvd_of_dvd hga)).of_isCoprime_of_dvd_right
      (Int.ediv_dvd_of_dvd hhb)
  have e2 : IsCoprime (c / h) (d / g) :=
    (hcd.of_isCoprime_of_dvd_left (Int.ediv_dvd_of_dvd hhc)).of_isCoprime_of_dvd_right
      (Int.ediv_dvd_of_dvd hgd)
  have e3 : IsCoprime (a / g) (d / g) := by
    rw [Int.isCoprime_iff_gcd_eq_one, hg]
    exact Int.gcd_div_gcd_div_gcd (Nat.pos_of_ne_zero (by rintro h0; simp [h0] at hg; omega))
  have e4 : IsCoprime (c / h) (b / h) := by
    rw [Int.isCoprime_iff_gcd_eq_one, hh]
    exact Int.gcd_div_gcd_div_gcd (Nat.pos_of_ne_zero (by rintro h0; simp [h0] at hh; omega))
  exact (e1.mul_right e3).mul_left (e4.mul_right e2)

lemma cross_value {c g h : ℤ} (hga : g ∣ a) (hgd : g ∣ d) (hhc : h ∣ c) (hhb : h ∣ b) (hg0 : g ≠ 0)
    (hh0 : h ≠ 0) :
    (a / b * (c / d) : ℚ) = ((a / g * (c / h) : ℤ) : ℚ) / ((b / h * (d / g) : ℤ) : ℚ) := by
  obtain ⟨a, rfl⟩ := hga
  obtain ⟨d, rfl⟩ := hgd
  obtain ⟨c, rfl⟩ := hhc
  obtain ⟨b, rfl⟩ := hhb
  simp only [Int.mul_ediv_cancel_left _ hg0, Int.mul_ediv_cancel_left _ hh0]
  have hg' : (g : ℚ) ≠ 0 := by exact_mod_cast hg0
  have hh' : (h : ℚ) ≠ 0 := by exact_mod_cast hh0
  push_cast
  rcases eq_or_ne (b : ℚ) 0 with hb | hb
  · simp [hb]
  rcases eq_or_ne (d : ℚ) 0 with hd | hd
  · simp [hd]
  field_simp

/-- The multiplication of two reduced parts and the fraction they make. -/
def crossProduct (n₁ n₂ d₁ d₂ : ℤ) : Outcome Number.Real := do
  let numerator ← okOr (checked 128 (n₁ * n₂)) rangeMessage
  let denominator ← okOr (checked 128 (d₁ * d₂)) rangeMessage
  checkedRational numerator denominator

lemma crossProduct_of_pos {n₁ n₂ d₁ d₂ : ℤ} (hd0 : 0 < d₁ * d₂)
    (h : IsCoprime (n₁ * n₂) (d₁ * d₂)) :
    Delivers (crossProduct n₁ n₂ d₁ d₂) (some ((n₁ * n₂ : ℤ) / (d₁ * d₂ : ℤ))) := by
  by_cases hn : Fits 128 (n₁ * n₂)
  · by_cases hd : Fits 128 (d₁ * d₂)
    · rw [crossProduct, checked_of_fits hn, checked_of_fits hd]
      exact checkedRational_of_pos hn hd hd0
    · have hrej : Rejects (crossProduct n₁ n₂ d₁ d₂) := by
        rw [crossProduct, checked_of_fits hn, checked_of_not_fits hd]; exact ⟨_, rfl⟩
      refine (delivers_of_rejects hrej).mpr fun q hq => ?_
      rw [← Option.some.inj hq, representable_div hd0 h]
      rintro (⟨h1, -⟩ | ⟨-, h1⟩)
      · exact hd (h1 ▸ by decide)
      · exact hd (fits_mono (by norm_num) h1)
  · have hrej : Rejects (crossProduct n₁ n₂ d₁ d₂) := by
      rw [crossProduct, checked_of_not_fits hn]; exact ⟨_, rfl⟩
    refine (delivers_of_rejects hrej).mpr fun q hq => ?_
    rw [← Option.some.inj hq, representable_div hd0 h]
    rintro (⟨-, h1⟩ | ⟨h1, -⟩)
    · exact hn h1
    · exact hn (fits_mono (by norm_num) h1)

/-- With a negative denominator only the quotient `-2 ^ 127` is missed: its numerator is
computed as `2 ^ 127` before the sign is settled. -/
lemma crossProduct_of_neg {n₁ n₂ d₁ d₂ : ℤ} (hd0 : d₁ * d₂ < 0)
    (h : IsCoprime (n₁ * n₂) (d₁ * d₂)) :
    Delivers (crossProduct n₁ n₂ d₁ d₂) (some ((n₁ * n₂ : ℤ) / (d₁ * d₂ : ℤ))) ↔
      ¬ (n₁ * n₂ = 2 ^ 127 ∧ d₁ * d₂ = -1) := by
  obtain ⟨n, hn⟩ : ∃ n, n = n₁ * n₂ := ⟨_, rfl⟩
  obtain ⟨d, hd⟩ : ∃ d, d = d₁ * d₂ := ⟨_, rfl⟩
  rw [← hn, ← hd] at h ⊢
  rw [← hd] at hd0
  have hrep : Representable ((n : ℚ) / d) ↔
      (-d = 1 ∧ Fits 128 (-n)) ∨ (Fits 64 (-n) ∧ Fits 64 (-d)) := by
    have hval : (n : ℚ) / d = ((-n : ℤ) : ℚ) / ((-d : ℤ) : ℚ) := by
      push_cast; exact (neg_div_neg_eq _ _).symm
    rw [hval, representable_div (by omega) h.neg_neg]
  -- outside the exception, a representable quotient passes every check
  by_cases hok : Fits 128 n ∧ Fits 128 d ∧ Fits 128 (-n) ∧ Fits 128 (-d)
  · obtain ⟨h1, h2, h3, h4⟩ := hok
    rw [crossProduct, ← hn, ← hd, checked_of_fits h1, checked_of_fits h2]
    exact iff_of_true (checkedRational_of_neg hd0 h3 h4) fun hc => by
      rw [hc.1] at h1; exact absurd h1 (by decide)
  · have hrej : Rejects (crossProduct n₁ n₂ d₁ d₂) := by
      rw [crossProduct, ← hn, ← hd]
      by_cases h1 : Fits 128 n
      · by_cases h2 : Fits 128 d
        · rw [checked_of_fits h1, checked_of_fits h2]
          exact checkedRational_rejects hd0 (by tauto)
        · rw [checked_of_fits h1, checked_of_not_fits h2]; exact ⟨_, rfl⟩
      · rw [checked_of_not_fits h1]; exact ⟨_, rfl⟩
    rw [delivers_of_rejects hrej]
    simp only [Option.some.injEq, forall_eq', hrep]
    simp only [Fits] at hok ⊢
    omega

lemma divisor_facts (hb : Fits 128 b) (hb0 : 0 < b) :
    ∃ g : ℤ, castSigned 128 (gcd128 a.natAbs b.natAbs) = g ∧ g = Int.gcd a b ∧ 0 < g ∧ g ∣ a ∧
      g ∣ b :=
  ⟨_, castSigned_gcd hb hb0, rfl,
    Int.natCast_pos.mpr (Int.gcd_pos_of_ne_zero_right a hb0.ne'), Int.gcd_dvd_left ..,
    Int.gcd_dvd_right ..⟩

lemma div128_ok {g : ℤ} (hg : 0 < g) (hdvd : g ∣ a) (ha : Fits 128 a) :
    div128 a g = .ok (a / g) := div128_of_dvd hg.ne' hdvd (fits_ediv hg hdvd ha)

theorem realMul_delivers (hl : IsExact l) (hr : IsExact r) :
    Delivers (realMul l r) (some (toRat l * toRat r)) := by
  obtain ⟨a, b, hfl, hvl, hb0, hb, ha, hab, -⟩ := fraction_of_isExact hl
  obtain ⟨c, d, hfr, hvr, hd0, hd, hc, hcd, -⟩ := fraction_of_isExact hr
  have hb' : Fits 128 b := fits_mono (by norm_num) hb
  have hd' : Fits 128 d := fits_mono (by norm_num) hd
  by_cases hint : BothIntegers l r
  · obtain ⟨a, b, rfl, rfl⟩ := hint
    have := checkedInteger_delivers (a * b) rangeMessage
    push_cast at this
    exact this
  · obtain ⟨g, hge, hg, hg0, hga, hgd⟩ := divisor_facts (a := a) hd' hd0
    obtain ⟨h, hhe, hh, hh0, hhc, hhb⟩ := divisor_facts (a := c) hb' hb0
    have hrun : realMul l r = crossProduct (a / g) (c / h) (b / h) (d / g) := by
      have hstep : realMul l r = (do
          let numerator ← okOr (checked 128 ((← div128 a g) * (← div128 c h))) rangeMessage
          let denominator ← okOr (checked 128 ((← div128 b h) * (← div128 d g))) rangeMessage
          checkedRational numerator denominator) := by
        rw [← hge, ← hhe]
        cases l <;> cases r <;> first
          | exact absurd ⟨_, _, rfl, rfl⟩ hint
          | (simp only [realMul, hfl, hfr])
      rw [hstep, div128_ok hg0 hga ha, div128_ok hh0 hhc hc, div128_ok hh0 hhb hb',
        div128_ok hg0 hgd hd']
      rfl
    rw [hrun, hvl, hvr, cross_value hga hgd hhc hhb hg0.ne' hh0.ne']
    refine crossProduct_of_pos ?_ (cross_coprime hab hcd hg hh hg0.ne' hh0.ne')
    exact mul_pos (Int.ediv_pos_of_pos_of_dvd hb0 hh0.le hhb)
      (Int.ediv_pos_of_pos_of_dvd hd0 hg0.le hgd)

/-- The division of two fractions, after the test for a zero divisor. -/
def divFractions (a b c d : ℤ) : Outcome Number.Real := do
  let numeratorDivisor := castSigned 128 (gcd128 a.natAbs c.natAbs)
  let denominatorDivisor := castSigned 128 (gcd128 d.natAbs b.natAbs)
  let numerator ← okOr
    (checked 128 ((← div128 a numeratorDivisor) * (← div128 d denominatorDivisor))) rangeMessage
  let denominator ← okOr
    (checked 128 ((← div128 b denominatorDivisor) * (← div128 c numeratorDivisor))) rangeMessage
  checkedRational numerator denominator

lemma realDiv_eq {c : ℤ} (hl : fraction l = some (a, b)) (hr : fraction r = some (c, d))
    (hc : c ≠ 0) : realDiv l r = divFractions a b c d := by
  rw [realDiv, hl, hr]
  split
  · next h => simp only [Option.some.injEq, Prod.mk.injEq] at h; exact absurd h.1 hc
  · next h1 h2 =>
    simp only [Option.some.injEq, Prod.mk.injEq] at h1 h2
    obtain ⟨⟨rfl, rfl⟩, rfl, rfl⟩ := And.intro h1 h2
    rfl
  · next h => exact absurd rfl (h _ _ _ _ rfl)

/-- The one divisor whose cast changes its sign: both numerators are divisible by `2 ^ 127`. -/
lemma divFractions_min (ha : a = 0 ∨ a = -2 ^ 127) :
    Delivers (divFractions a 1 (-2 ^ 127) 1) (some (a / (-2 ^ 127))) := by
  have hc : castSigned 128 (2 ^ 127) = -2 ^ 127 := castSigned_min (by norm_num)
  rcases ha with rfl | rfl
  · have hrun : divFractions 0 1 (-2 ^ 127) 1 = checkedRational 0 1 := by
      simp only [divFractions, gcd128_eq]
      rw [show Nat.gcd (0 : ℤ).natAbs (-2 ^ 127 : ℤ).natAbs = 2 ^ 127 by decide, hc]
      rfl
    rw [hrun]
    simpa using checkedRational_of_pos (n := 0) (d := 1) (by decide) (by decide) (by norm_num)
  · have hrun : divFractions (-2 ^ 127) 1 (-2 ^ 127) 1 = checkedRational 1 1 := by
      simp only [divFractions, gcd128_eq]
      rw [show Nat.gcd (-2 ^ 127 : ℤ).natAbs (-2 ^ 127 : ℤ).natAbs = 2 ^ 127 by decide, hc]
      rfl
    have hval : (((-2 ^ 127 : ℤ) : ℚ) / (-2 ^ 127)) = (1 : ℤ) / (1 : ℤ) := by norm_num
    rw [hrun, hval]
    exact checkedRational_of_pos (by decide) (by decide) (by norm_num)

lemma divFractions_eq {c g h : ℤ} (ha : Fits 128 a) (hb : Fits 128 b) (hc : Fits 128 c)
    (hd : Fits 128 d) (hg : castSigned 128 (gcd128 a.natAbs c.natAbs) = g)
    (hh : castSigned 128 (gcd128 d.natAbs b.natAbs) = h) (hg0 : 0 < g) (hh0 : 0 < h) (hga : g ∣ a)
    (hgc : g ∣ c) (hhd : h ∣ d) (hhb : h ∣ b) :
    divFractions a b c d = crossProduct (a / g) (d / h) (b / h) (c / g) := by
  rw [divFractions, hg, hh]
  simp only [div128_ok hg0 hga ha, div128_ok hh0 hhd hd, div128_ok hh0 hhb hb,
    div128_ok hg0 hgc hc]
  rfl

/-- A quotient that the division misses: the left side is positive and the quotient is the
least `i128`. -/
def MinQuotient (x y : ℚ) : Prop := 0 < x ∧ x / y = -2 ^ 127

lemma minQuotient_iff {x y : ℚ} {n : ℤ} (hq : x / y = n / d) (hd : d ≠ 0) (hcop : IsCoprime n d)
    (hs : 0 < x ↔ 0 < n) :
    MinQuotient x y ↔ n = 2 ^ 127 ∧ d = -1 := by
  rw [MinQuotient, hq, hs]
  constructor
  · rintro ⟨hn, hv⟩
    have hnd : n = -2 ^ 127 * d := by
      rw [div_eq_iff (by exact_mod_cast hd)] at hv
      exact_mod_cast hv
    have hu : IsUnit d := hcop.isUnit_of_dvd' (hnd ▸ Dvd.intro_left _ rfl) dvd_rfl
    rcases Int.isUnit_iff.mp hu with rfl | rfl <;> omega
  · rintro ⟨rfl, rfl⟩
    norm_num

theorem realDiv_delivers_iff (hl : IsExact l) (hr : IsExact r) :
    Delivers (realDiv l r) (if toRat r = 0 then none else some (toRat l / toRat r)) ↔
      ¬ MinQuotient (toRat l) (toRat r) := by
  obtain ⟨a, b, hfl, hvl, hb0, hb, ha, hab, hsl⟩ := fraction_of_isExact hl
  obtain ⟨c, d, hfr, hvr, hd0, hd, hc, hcd, hsr⟩ := fraction_of_isExact hr
  have hb' : Fits 128 b := fits_mono (by norm_num) hb
  have hd' : Fits 128 d := fits_mono (by norm_num) hd
  have hbq : (0 : ℚ) < b := by exact_mod_cast hb0
  have hdq : (0 : ℚ) < d := by exact_mod_cast hd0
  rcases eq_or_ne c 0 with rfl | hc0
  · -- the divisor is zero
    have hrun : realDiv l r = .error (.message zeroMessage) := by
      rw [realDiv, hfl, hfr]; rfl
    have hz : toRat r = 0 := by simp [hvr]
    rw [hrun, if_pos hz, delivers_of_rejects ⟨_, rfl⟩, hz]
    simp [MinQuotient]
  have hr0 : toRat r ≠ 0 := by
    rw [hvr]; exact div_ne_zero (by exact_mod_cast hc0) hdq.ne'
  rw [if_neg hr0, realDiv_eq hfl hfr hc0]
  have hval : toRat l / toRat r = a / b * (d / c) := by
    rw [hvl, hvr, div_eq_mul_inv, inv_div]
  obtain ⟨h, hhe, hh, hh0, hhd, hhb⟩ := divisor_facts (a := d) hb' hb0
  obtain ⟨g, hg⟩ : ∃ g : ℤ, g = Int.gcd a c := ⟨_, rfl⟩
  have hg0 : 0 < g := by rw [hg]; exact_mod_cast Int.gcd_pos_of_ne_zero_right a hc0
  have hga : g ∣ a := hg ▸ Int.gcd_dvd_left ..
  have hgc : g ∣ c := hg ▸ Int.gcd_dvd_right ..
  have hgle : g.natAbs ≤ c.natAbs := Nat.le_of_dvd (by omega) (Int.natAbs_dvd_natAbs.mpr hgc)
  rcases Nat.lt_or_ge g.natAbs (2 ^ 127) with hlt | hge
  · have hge : castSigned 128 (gcd128 a.natAbs c.natAbs) = g := by
      rw [gcd128_eq, castSigned_of_lt]
      · exact hg.symm
      · change Int.gcd a c < _
        omega
    rw [divFractions_eq ha hb' hc hd' hge hhe hg0 hh0 hga hgc hhd hhb, hval,
      cross_value hga hgc hhd hhb hg0.ne' hh0.ne']
    have hcop := cross_coprime hab hcd.symm hg hh hg0.ne' hh0.ne'
    have hbh : 0 < b / h := Int.ediv_pos_of_pos_of_dvd hb0 hh0.le hhb
    have hdh : 0 < d / h := Int.ediv_pos_of_pos_of_dvd hd0 hh0.le hhd
    have hmin : MinQuotient (toRat l) (toRat r) ↔
        a / g * (d / h) = 2 ^ 127 ∧ b / h * (c / g) = -1 := by
      refine minQuotient_iff (hval.trans (cross_value hga hgc hhd hhb hg0.ne' hh0.ne')) ?_ hcop ?_
      · obtain ⟨c', rfl⟩ := hgc
        rw [Int.mul_ediv_cancel_left _ hg0.ne']
        exact mul_ne_zero hbh.ne' (right_ne_zero_of_mul hc0)
      · rw [hvl, div_pos_iff_of_pos_right hbq, Int.cast_pos, mul_pos_iff_of_pos_right hdh]
        obtain ⟨a, rfl⟩ := hga
        rw [Int.mul_ediv_cancel_left _ hg0.ne', mul_pos_iff_of_pos_left hg0]
    rw [hmin]
    obtain ⟨c', rfl⟩ := hgc
    rw [Int.mul_ediv_cancel_left _ hg0.ne'] at hcop ⊢
    rcases lt_or_gt_of_ne hc0 with hneg | hpos
    · exact crossProduct_of_neg (mul_neg_of_pos_of_neg hbh (neg_of_mul_neg_right hneg hg0.le)) hcop
    · have hd' : 0 < b / h * c' := mul_pos hbh (pos_of_mul_pos_right hpos hg0.le)
      exact iff_of_true (crossProduct_of_pos hd' hcop) fun hc' => by omega
  · -- the divisor is the magnitude of the least `i128`, and its cast is negative
    have hcm : c = -2 ^ 127 := by obtain ⟨h1, h2⟩ := hc; omega
    have ham : a = 0 ∨ a = -2 ^ 127 := by
      obtain ⟨k, hk⟩ := hga
      obtain ⟨h1, h2⟩ := ha
      have hgv : g = 2 ^ 127 := by omega
      rw [hgv] at hk
      omega
    have hd1 : d = 1 := hsr.resolve_right (by rw [hcm]; decide)
    have hb1 : b = 1 := by
      rcases ham with rfl | rfl
      · rcases Int.isUnit_iff.mp (isCoprime_zero_left.mp hab) with h1 | h1 <;> omega
      · exact hsl.resolve_right (by decide)
    have hx : ¬ 0 < toRat l := by
      rw [hvl, div_pos_iff_of_pos_right hbq, Int.cast_pos]
      rcases ham with rfl | rfl <;> norm_num
    have hval' : toRat l / toRat r = a / (-2 ^ 127) := by
      rw [hvl, hvr, hb1, hd1, hcm]; norm_num
    rw [hval', hcm, hb1, hd1]
    exact iff_of_true (divFractions_min ham) fun hq => hx hq.1

/-- What the five operations owe to two exact reals. -/
structure OpsDeliver (l r : Number.Real) : Prop where
  add : Delivers (realAdd l r) (some (toRat l + toRat r))
  sub : Delivers (realSub l r) (some (toRat l - toRat r))
  mul : Delivers (realMul l r) (some (toRat l * toRat r))
  div : Delivers (realDiv l r) (if toRat r = 0 then none else some (toRat l / toRat r))
  neg : Delivers (realNeg l) (some (-toRat l))

/-- **Exact arithmetic delivers every representable result**, except for a difference whose
right operand has no negation and for the quotient `-2 ^ 127` of a positive number. -/
theorem ops_deliver_iff (l r : ExactReal) :
    OpsDeliver l.1 r.1 ↔
      (Representable (toRat l.1 - toRat r.1) →
        BothIntegers l.1 r.1 ∨ Representable (-toRat r.1)) ∧
      ¬ MinQuotient (toRat l.1) (toRat r.1) := by
  constructor
  · intro h
    exact ⟨(realSub_delivers_iff l.2 r.2).mp h.sub, (realDiv_delivers_iff l.2 r.2).mp h.div⟩
  · rintro ⟨hsub, hdiv⟩
    exact ⟨realAdd_delivers l.2 r.2, (realSub_delivers_iff l.2 r.2).mpr hsub,
      realMul_delivers l.2 r.2, (realDiv_delivers_iff l.2 r.2).mpr hdiv, realNeg_delivers l.2⟩

/-- The fraction `-2 ^ 63 / 3` minus itself is refused, and so is `2 ^ 126` over `-1 / 2`. -/
theorem ops_deliver_fails :
    (∃ l r : ExactReal, l.1 = .exactRational ⟨-2 ^ 63, 3⟩ ∧ r.1 = l.1 ∧ ¬ OpsDeliver l.1 r.1) ∧
    ∃ l r : ExactReal, l.1 = .exactInteger (2 ^ 126) ∧ r.1 = .exactRational ⟨-1, 2⟩ ∧
      ¬ OpsDeliver l.1 r.1 := by
  have h3 : IsExact (.exactRational ⟨-2 ^ 63, 3⟩) :=
    ⟨by decide, by decide, by decide, by rw [Int.isCoprime_iff_gcd_eq_one]; rfl⟩
  have hi : IsExact (.exactInteger (2 ^ 126)) := show Fits 128 (2 ^ 126) by decide
  have h2 : IsExact (.exactRational ⟨-1, 2⟩) :=
    ⟨by decide, by decide, by decide, by rw [Int.isCoprime_iff_gcd_eq_one]; rfl⟩
  refine ⟨⟨⟨_, h3⟩, ⟨_, h3⟩, rfl, rfl, fun h => ?_⟩, ⟨_, hi⟩, ⟨_, h2⟩, rfl, rfl, fun h => ?_⟩
  · have h0 : Representable (toRat (.exactRational ⟨-2 ^ 63, 3⟩) -
        toRat (.exactRational ⟨-2 ^ 63, 3⟩)) := by
      rw [sub_self]
      exact (representable_intCast 0).mpr (by decide)
    rcases (realSub_delivers_iff h3 h3).mp h.sub h0 with ⟨a, b, ha, -⟩ | hneg
    · exact absurd ha (by simp)
    · have hval : -toRat (.exactRational ⟨-2 ^ 63, 3⟩) = ((2 ^ 63 : ℤ) : ℚ) / (3 : ℤ) := by
        norm_num [toRat]
      rw [hval, representable_div (by norm_num)
        (by rw [Int.isCoprime_iff_gcd_eq_one]; rfl)] at hneg
      exact absurd hneg (by decide)
  · exact (realDiv_delivers_iff hi h2).mp h.div ⟨by norm_num [toRat], by norm_num [toRat]⟩

end Neetan.NumberArith
