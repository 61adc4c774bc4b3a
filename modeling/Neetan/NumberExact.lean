import Neetan.Number
import Mathlib.RingTheory.Coprime.Lemmas
import Mathlib.Tactic.FieldSimp
import Mathlib.Tactic.Positivity

/-!
Exact arithmetic of the Scheme runtime against the rational numbers.

An exact real stands for a rational number. An operation delivers a rational when it
succeeds exactly if that rational has a canonical form, with this form, and never panics.
Everything reduces to `checkedRational`: a fraction in `i128` range, with a denominator of
either sign, is delivered unless a negation overflows.
-/

namespace Neetan.NumberExact

open Neetan.MachineInt Neetan.Number

/-- The rationals with a canonical form in the runtime. -/
def Representable (q : ℚ) : Prop :=
  (q.den = 1 ∧ Fits 128 q.num) ∨ (Fits 64 q.num ∧ Fits 64 (q.den : ℤ))

/-- The canonical form of a rational. -/
def ofRat (q : ℚ) : Number.Real :=
  if q.den = 1 then .exactInteger q.num else .exactRational ⟨q.num, q.den⟩

/-- The exact reals: `i128` integers and reduced fractions of `i64` parts. -/
def IsExact : Number.Real → Prop
  | .exactInteger value => Fits 128 value
  | .exactRational value =>
    Fits 64 value.numerator ∧ Fits 64 value.denominator ∧ 0 < value.denominator ∧
      IsCoprime value.numerator value.denominator
  | .inexact _ => False

/-- An exact real together with its range and its reducedness. -/
abbrev ExactReal := {value : Number.Real // IsExact value}

/-- The rational an exact real stands for. -/
def toRat : Number.Real → ℚ
  | .exactInteger value => value
  | .exactRational value => value.numerator / value.denominator
  | .inexact _ => 0

/-- The outcome an operation owes for its true result; no result is a division by zero. -/
def Delivers (out : Outcome Number.Real) (result : Option ℚ) : Prop :=
  (∀ r, out = .ok r ↔ ∃ q, result = some q ∧ Representable q ∧ r = ofRat q) ∧
    out ≠ .error .panic

/-- A failure with a message. -/
def Rejects (out : Outcome Number.Real) : Prop := ∃ text, out = .error (.message text)

lemma delivers_of_rejects {out : Outcome Number.Real} {result : Option ℚ} (h : Rejects out) :
    Delivers out result ↔ ∀ q, result = some q → ¬ Representable q := by
  obtain ⟨text, rfl⟩ := h
  constructor
  · rintro ⟨hok, -⟩ q hq hrep
    exact absurd ((hok _).mpr ⟨q, hq, hrep, rfl⟩) (by simp)
  · intro h
    refine ⟨fun r => ⟨fun hr => by simp at hr, ?_⟩, by simp⟩
    rintro ⟨q, hq, hrep, -⟩
    exact absurd hrep (h q hq)

lemma delivers_ok {q : ℚ} (h : Representable q) : Delivers (.ok (ofRat q)) (some q) := by
  refine ⟨fun r => ⟨fun hr => ⟨q, rfl, h, by simpa using hr.symm⟩, ?_⟩, by simp⟩
  rintro ⟨_, hq, -, rfl⟩
  simp only [Option.some.injEq] at hq
  rw [hq]

lemma rejects_bind {α : Type} {text text' : String} {value : Option α}
    {k : α → Outcome Number.Real}
    (h : value = none) (_ : text = text') : Rejects (okOr value text >>= k) :=
  ⟨text, by subst h; rfl⟩

/-! ### Reduced fractions -/

variable {d a n : ℤ}

lemma num_den_of_coprime (hd : 0 < d) (h : IsCoprime n d) :
    ((n / d : ℚ)).num = n ∧ (((n / d : ℚ)).den : ℤ) = d := by
  have hc : Nat.Coprime n.natAbs d.natAbs := Int.isCoprime_iff_gcd_eq_one.mp h
  exact ⟨Rat.num_div_eq_of_coprime hd hc, Rat.den_div_eq_of_coprime hd hc⟩

lemma representable_div (hd : 0 < d) (h : IsCoprime n d) :
    Representable (n / d : ℚ) ↔ (d = 1 ∧ Fits 128 n) ∨ (Fits 64 n ∧ Fits 64 d) := by
  obtain ⟨hn, hden⟩ := num_den_of_coprime hd h
  have h1 : ((n / d : ℚ)).den = 1 ↔ d = 1 := by omega
  rw [Representable, hn, hden, h1]

lemma ofRat_div (hd : 0 < d) (h : IsCoprime n d) :
    ofRat (n / d : ℚ) = if d = 1 then .exactInteger n else .exactRational ⟨n, d⟩ := by
  obtain ⟨hn, hden⟩ := num_den_of_coprime hd h
  have h1 : ((n / d : ℚ)).den = 1 ↔ d = 1 := by omega
  rw [ofRat, hn, hden]
  by_cases hd1 : d = 1
  · rw [if_pos (h1.mpr hd1), if_pos hd1]
  · rw [if_neg (fun hc => hd1 (h1.mp hc)), if_neg hd1]

lemma representable_intCast (n : ℤ) : Representable (n : ℚ) ↔ Fits 128 n := by
  have h := representable_div (n := n) one_pos isCoprime_one_right
  simp only [Int.cast_one, div_one, true_and] at h
  rw [h]
  exact ⟨fun h => h.elim id (fun h' => fits_mono (by norm_num) h'.1), Or.inl⟩

lemma ofRat_intCast (n : ℤ) : ofRat (n : ℚ) = .exactInteger n := by
  simp [ofRat]

lemma gcd128_eq (a b : ℕ) : gcd128 a b = Nat.gcd a b := by
  induction a, b using gcd128.induct with
  | case1 a => rw [gcd128, if_pos rfl, Nat.gcd_zero_right]
  | case2 a b hb ih => rw [gcd128, if_neg hb, ih, Nat.gcd_comm a b, Nat.gcd_rec b a, Nat.gcd_comm]

lemma div128_of_dvd {b : ℤ} (hb : b ≠ 0) (hdvd : b ∣ a) (h : Fits 128 (a / b)) :
    div128 a b = .ok (a / b) := by
  rw [div128, Int.tdiv_eq_ediv_of_dvd hdvd, if_neg (by simp [hb, h])]

lemma fits_ediv {w : ℕ} {g : ℤ} (hg : 0 < g) (hdvd : g ∣ a) (h : Fits w a) :
    Fits w (a / g) := by
  obtain ⟨c, rfl⟩ := hdvd
  rw [Int.mul_ediv_cancel_left _ hg.ne']
  refine fits_of_natAbs_le h ?_ ?_
  · exact (mul_nonneg_iff_of_pos_left hg).symm
  · rw [Int.natAbs_mul]
    exact Nat.le_mul_of_pos_left _ (by omega)

/-- The divisor by which a fraction with an `i64` or `i128` denominator is reduced. -/
lemma castSigned_gcd {b : ℤ} (hb : Fits 128 b) (hb0 : 0 < b) :
    castSigned 128 (gcd128 a.natAbs b.natAbs) = Int.gcd a b := by
  have hle : Nat.gcd a.natAbs b.natAbs ≤ b.natAbs := Nat.gcd_le_right _ (by omega)
  rw [gcd128_eq, castSigned_of_lt (by have := hb.2; omega)]
  rfl

/-! ### `checkedRational` -/

lemma checkedRational_of_pos (hn : Fits 128 n) (hd : Fits 128 d) (hd0 : 0 < d) :
    Delivers (checkedRational n d) (some (n / d)) := by
  obtain ⟨g, hg⟩ : ∃ g : ℤ, g = Int.gcd n d := ⟨_, rfl⟩
  have hgpos : 0 < g := by
    rw [hg]; exact_mod_cast Int.gcd_pos_of_ne_zero_right n hd0.ne'
  have hgn : g ∣ n := hg ▸ Int.gcd_dvd_left ..
  have hgd : g ∣ d := hg ▸ Int.gcd_dvd_right ..
  have hqd : 0 < d / g := Int.ediv_pos_of_pos_of_dvd hd0 hgpos.le hgd
  have hcop : IsCoprime (n / g) (d / g) := by
    rw [hg, Int.isCoprime_iff_gcd_eq_one]
    exact Int.gcd_div_gcd_div_gcd (Int.gcd_pos_of_ne_zero_right n hd0.ne')
  have hval : (n / d : ℚ) = ((n / g : ℤ) : ℚ) / ((d / g : ℤ) : ℚ) := by
    obtain ⟨a, rfl⟩ := hgn
    obtain ⟨b, rfl⟩ := hgd
    rw [Int.mul_ediv_cancel_left _ hgpos.ne', Int.mul_ediv_cancel_left _ hgpos.ne']
    push_cast
    exact mul_div_mul_left _ _ (by exact_mod_cast hgpos.ne')
  have hrun : checkedRational n d =
      if d / g = 1 then .ok (.exactInteger (n / g)) else do
        let numerator ← okOr (checked 64 (n / g)) numeratorMessage
        let denominator ← okOr (checked 64 (d / g)) denominatorMessage
        return .exactRational ⟨numerator, denominator⟩ := by
    rw [checkedRational, if_neg hd0.ne', normalizeSign, if_neg (by omega)]
    simp only [pure_bind, castSigned_gcd hd hd0, ← hg]
    rw [div128_of_dvd hgpos.ne' hgn (fits_ediv hgpos hgn hn)]
    change (div128 d g >>= _) = _
    rw [div128_of_dvd hgpos.ne' hgd (fits_ediv hgpos hgd hd)]
    rfl
  rw [hrun, hval]
  by_cases h1 : d / g = 1
  · rw [if_pos h1, h1]
    simpa [ofRat_intCast] using
      delivers_ok ((representable_intCast (n / g)).mpr (fits_ediv hgpos hgn hn))
  · rw [if_neg h1]
    have hrep := representable_div hqd hcop
    by_cases hn64 : Fits 64 (n / g)
    · by_cases hd64 : Fits 64 (d / g)
      · rw [checked_of_fits hn64, checked_of_fits hd64]
        have h := delivers_ok (hrep.mpr (Or.inr ⟨hn64, hd64⟩))
        rw [ofRat_div hqd hcop, if_neg h1] at h
        exact h
      · rw [checked_of_fits hn64]
        refine (delivers_of_rejects (rejects_bind (checked_of_not_fits hd64) rfl)).mpr ?_
        rintro q hq
        rw [← Option.some.inj hq, hrep]
        exact fun h => h.elim (fun h => h1 h.1) fun h => hd64 h.2
    · refine (delivers_of_rejects (rejects_bind (checked_of_not_fits hn64) rfl)).mpr ?_
      rintro q hq
      rw [← Option.some.inj hq, hrep]
      exact fun h => h.elim (fun h => h1 h.1) fun h => hn64 h.1

lemma checkedRational_of_neg (hd0 : d < 0) (hn' : Fits 128 (-n)) (hd' : Fits 128 (-d)) :
    Delivers (checkedRational n d) (some (n / d)) := by
  have hrun : checkedRational n d = checkedRational (-n) (-d) := by
    rw [checkedRational, if_neg hd0.ne, normalizeSign, if_pos hd0, checked_of_fits hn',
      checked_of_fits hd', checkedRational, if_neg (by omega), normalizeSign,
      if_neg (by omega)]
    rfl
  have hval : (n / d : ℚ) = ((-n : ℤ) : ℚ) / ((-d : ℤ) : ℚ) := by
    push_cast; exact (neg_div_neg_eq _ _).symm
  rw [hrun, hval]
  exact checkedRational_of_pos hn' hd' (by omega)

/-- A negative denominator whose fraction cannot change its sign is rejected. -/
lemma checkedRational_rejects (hd0 : d < 0) (h : ¬ Fits 128 (-n) ∨ ¬ Fits 128 (-d)) :
    Rejects (checkedRational n d) := by
  rw [checkedRational, if_neg hd0.ne, normalizeSign, if_pos hd0]
  by_cases hn' : Fits 128 (-n)
  · rw [checked_of_fits hn', checked_of_not_fits (h.resolve_left (not_not_intro hn'))]
    exact ⟨_, rfl⟩
  · rw [checked_of_not_fits hn']
    exact ⟨_, rfl⟩

/-! ### The operations -/

lemma fraction_of_isExact {r : Number.Real} (h : IsExact r) :
    ∃ n d, fraction r = some (n, d) ∧ toRat r = n / d ∧ 0 < d ∧ Fits 64 d ∧ Fits 128 n ∧
      IsCoprime n d ∧ (d = 1 ∨ Fits 64 n) := by
  cases r with
  | exactInteger v =>
    exact ⟨v, 1, rfl, by simp [toRat], by norm_num, by decide, h, isCoprime_one_right, .inl rfl⟩
  | exactRational v =>
    obtain ⟨hn, hd, hd0, hc⟩ := h
    exact ⟨_, _, rfl, rfl, hd0, hd, fits_mono (by norm_num) hn, hc, .inr hn⟩
  | inexact v => exact h.elim

lemma toRat_ofRat (q : ℚ) : toRat (ofRat q) = q := by
  by_cases h : q.den = 1
  · rw [ofRat, if_pos h]; exact Rat.coe_int_num_of_den_eq_one h
  · rw [ofRat, if_neg h]; exact Rat.num_div_den q

lemma isExact_ofRat {q : ℚ} (h : Representable q) : IsExact (ofRat q) := by
  by_cases h1 : q.den = 1
  · rw [ofRat, if_pos h1]
    exact h.elim (fun h' => h'.2) (fun h' => fits_mono (by norm_num) h'.1)
  · rw [ofRat, if_neg h1]
    obtain ⟨hn, hd⟩ := h.resolve_left (fun h' => h1 h'.1)
    exact ⟨hn, hd, Int.natCast_pos.mpr q.den_pos, Int.isCoprime_iff_gcd_eq_one.mpr q.reduced⟩

lemma checkedInteger_delivers (v : ℤ) (text : String) :
    Delivers (do return .exactInteger (← okOr (checked 128 v) text)) (some (v : ℚ)) := by
  by_cases h : Fits 128 v
  · rw [checked_of_fits h]
    have := delivers_ok ((representable_intCast v).mpr h)
    rw [ofRat_intCast] at this
    exact this
  · refine (delivers_of_rejects (rejects_bind (checked_of_not_fits h) rfl)).mpr ?_
    rintro q hq
    rwa [← Option.some.inj hq, representable_intCast]

lemma natAbs_mul_le (ha : Fits 64 a) (hd : Fits 64 d) (hd0 : 0 < d) :
    (a * d).natAbs ≤ 2 ^ 126 - 2 ^ 63 := by
  have ha' : a.natAbs ≤ 2 ^ 63 := by obtain ⟨h1, h2⟩ := ha; omega
  have hd' : d.natAbs ≤ 2 ^ 63 - 1 := by obtain ⟨h1, h2⟩ := hd; omega
  calc (a * d).natAbs = a.natAbs * d.natAbs := Int.natAbs_mul a d
    _ ≤ 2 ^ 63 * (2 ^ 63 - 1) := Nat.mul_le_mul ha' hd'
    _ = 2 ^ 126 - 2 ^ 63 := by norm_num

lemma fits_mul (ha : Fits 64 a) (hd : Fits 64 d) (hd0 : 0 < d) :
    Fits 128 (a * d) := by
  have := natAbs_mul_le ha hd hd0
  constructor <;> omega

lemma add_integer_coprime {c : ℤ} (h : IsCoprime c d) : IsCoprime (a * d + c) d := by
  rw [add_comm]
  exact IsCoprime.add_mul_right_left h a

lemma not_representable_add {c : ℤ} (hd0 : 0 < d) (h : IsCoprime c d) (ha : Fits 128 a)
    (hc : Fits 64 c) (hbig : ¬ Fits 128 (a * d) ∨ ¬ Fits 128 (a * d + c)) :
    ¬ Representable ((a * d + c : ℤ) / d : ℚ) := by
  rw [representable_div hd0 (add_integer_coprime h)]
  rintro (⟨rfl, hs⟩ | ⟨hs, -⟩)
  · rw [mul_one] at hbig hs
    exact hbig.elim (fun h' => h' ha) (fun h' => h' hs)
  · obtain ⟨h1, h2⟩ := hs
    obtain ⟨h3, h4⟩ := hc
    have e1 : Fits 128 (a * d) := by constructor <;> omega
    have e2 : Fits 128 (a * d + c) := by constructor <;> omega
    exact hbig.elim (fun h' => h' e1) (fun h' => h' e2)

/-- The fractions of `realAdd`, when at most one of them is an integer beyond `i64`. -/
lemma addFractions_delivers {b c : ℤ} (hb0 : 0 < b) (hd0 : 0 < d) (hb : Fits 64 b) (hd : Fits 64 d)
    (ha : Fits 128 a) (hc : Fits 128 c) (hab : IsCoprime a b) (hcd : IsCoprime c d)
    (hsmall : (Fits 64 a ∧ Fits 64 c) ∨ (b = 1 ∧ Fits 64 c) ∨ (d = 1 ∧ Fits 64 a)) :
    Delivers (do
      let ad ← okOr (checked 128 (a * d)) rangeMessage
      let cb ← okOr (checked 128 (c * b)) rangeMessage
      let numerator ← okOr (checked 128 (ad + cb)) rangeMessage
      let denominator ← okOr (checked 128 (b * d)) rangeMessage
      checkedRational numerator denominator) (some (a / b + c / d)) := by
  have hbd : Fits 128 (b * d) := fits_mul hb hd hd0
  have hval : (a / b + c / d : ℚ) = ((a * d + c * b : ℤ) : ℚ) / ((b * d : ℤ) : ℚ) := by
    have hb' : (b : ℚ) ≠ 0 := by exact_mod_cast hb0.ne'
    have hd' : (d : ℚ) ≠ 0 := by exact_mod_cast hd0.ne'
    push_cast
    field_simp
  by_cases hfit : Fits 128 (a * d) ∧ Fits 128 (c * b) ∧ Fits 128 (a * d + c * b)
  · obtain ⟨h1, h2, h3⟩ := hfit
    rw [checked_of_fits h1, checked_of_fits h2, checked_of_fits hbd, hval]
    change Delivers (okOr (checked 128 (a * d + c * b)) _ >>= _) _
    rw [checked_of_fits h3]
    exact checkedRational_of_pos h3 hbd (mul_pos hb0 hd0)
  · -- a step overflows: one side is an integer too large for the sum to be representable
    have hrej : ¬ Representable (a / b + c / d : ℚ) := by
      rcases hsmall with ⟨ha64, hc64⟩ | ⟨rfl, hc64⟩ | ⟨rfl, ha64⟩
      · have h1 := natAbs_mul_le ha64 hd hd0
        have h2 := natAbs_mul_le hc64 hb hb0
        refine absurd ⟨fits_mul ha64 hd hd0, fits_mul hc64 hb hb0, ?_⟩ hfit
        constructor <;> omega
      · rw [hval]
        simp only [mul_one, one_mul] at hfit ⊢
        refine not_representable_add hd0 hcd ha hc64 ?_
        by_contra hcon
        rw [not_or, not_not, not_not] at hcon
        exact hfit ⟨hcon.1, hc, hcon.2⟩
      · rw [hval]
        simp only [mul_one] at hfit ⊢
        rw [add_comm]
        refine not_representable_add hb0 hab hc ha64 ?_
        by_contra hcon
        rw [not_or, not_not, not_not, add_comm] at hcon
        exact hfit ⟨ha, hcon⟩
    refine (delivers_of_rejects ?_).mpr (fun q hq => by rwa [← Option.some.inj hq])
    by_cases h1 : Fits 128 (a * d)
    · by_cases h2 : Fits 128 (c * b)
      · rw [checked_of_fits h1, checked_of_fits h2]
        change Rejects (okOr (checked 128 (a * d + c * b)) _ >>= _)
        exact rejects_bind (checked_of_not_fits fun h3 => hfit ⟨h1, h2, h3⟩) rfl
      · rw [checked_of_fits h1]
        change Rejects (okOr (checked 128 (c * b)) _ >>= _)
        exact rejects_bind (checked_of_not_fits h2) rfl
    · exact rejects_bind (checked_of_not_fits h1) rfl

end Neetan.NumberExact
