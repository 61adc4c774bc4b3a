import Mathlib.Data.Int.Log
import Mathlib.Algebra.Ring.Int.Parity
import Mathlib.Algebra.Order.Round
import Mathlib.Tactic.Linarith
import Mathlib.Tactic.Ring
import Mathlib.Tactic.Positivity

/-!
Rounding of real numbers to a floating-point format of base two.

A value is rounded in units of its last place, which the precision and the least exponent of the
format give. Rounding sees a value only through its order with the multiples of half a unit.
-/

namespace Neetan.RealRounding

/-- Two is a numeral by a constant, so that no definition that names it carries a proof. -/
scoped instance two_atLeastTwo : Nat.AtLeastTwo 2 := ⟨le_refl 2⟩

variable {K : Type*} [Field K] [LinearOrder K]

/-! ### Alike Values -/

/-- Two values have the same order with every multiple of a unit. -/
def Alike (unit x y : K) : Prop :=
  ∀ m : ℤ, (m * unit < x ↔ m * unit < y) ∧ (x < m * unit ↔ y < m * unit)

section

variable {unit x y z : K}

lemma Alike.refl (unit x : K) : Alike unit x x := fun _ => ⟨Iff.rfl, Iff.rfl⟩

lemma Alike.trans (h : Alike unit x y) (h' : Alike unit y z) : Alike unit x z := fun m =>
  ⟨(h m).1.trans (h' m).1, (h m).2.trans (h' m).2⟩

lemma Alike.coarsen (h : Alike unit x y) (n : ℤ) : Alike (n * unit) x y := by
  intro m
  have hm := h (m * n)
  rwa [Int.cast_mul, mul_assoc] at hm

lemma Alike.pow_mono {i j : ℕ} (h : Alike (2 ^ i) x y) (hij : i ≤ j) : Alike (2 ^ j) x y := by
  obtain ⟨k, rfl⟩ := Nat.exists_eq_add_of_le hij
  have hcoarse := h.coarsen (2 ^ k)
  rw [Int.cast_pow, Int.cast_ofNat, ← pow_add, Nat.add_comm] at hcoarse
  exact hcoarse

variable [IsStrictOrderedRing K]

lemma Alike.add_left (h : Alike unit x y) (n : ℤ) : Alike unit (n * unit + x) (n * unit + y) := by
  intro m
  have hm := h (m - n)
  rw [Int.cast_sub, sub_mul] at hm
  rw [← sub_lt_iff_lt_add', ← sub_lt_iff_lt_add', ← lt_sub_iff_add_lt', ← lt_sub_iff_add_lt']
  exact hm

lemma Alike.sub_left (h : Alike unit x y) (n : ℤ) : Alike unit (n * unit - x) (n * unit - y) := by
  intro m
  have hm := h (n - m)
  rw [Int.cast_sub, sub_mul] at hm
  rw [lt_sub_comm, lt_sub_comm (c := y), sub_lt_comm, sub_lt_comm (b := y)]
  exact ⟨hm.2, hm.1⟩

lemma Alike.scale (h : Alike unit x y) {c : K} (hc : 0 < c) :
    Alike (unit * c) (x * c) (y * c) := by
  intro m
  rw [← mul_assoc, mul_lt_mul_iff_of_pos_right hc, mul_lt_mul_iff_of_pos_right hc,
    mul_lt_mul_iff_of_pos_right hc, mul_lt_mul_iff_of_pos_right hc]
  exact h m

lemma alike_of_between {n : ℤ} (hu : 0 < unit) (hx : n * unit < x) (hx' : x < (n + 1) * unit)
    (hy : n * unit < y) (hy' : y < (n + 1) * unit) : Alike unit x y := by
  intro m
  rcases le_or_gt m n with hm | hm
  · have hle : (m : K) * unit ≤ n * unit :=
      mul_le_mul_of_nonneg_right (Int.cast_le.mpr hm) hu.le
    exact ⟨iff_of_true (hle.trans_lt hx) (hle.trans_lt hy),
      iff_of_false (hle.trans_lt hx).not_gt (hle.trans_lt hy).not_gt⟩
  · have hle : ((n : K) + 1) * unit ≤ m * unit := by
      have hcast : (n : K) + 1 ≤ m := by exact_mod_cast hm
      exact mul_le_mul_of_nonneg_right hcast hu.le
    exact ⟨iff_of_false (hx'.trans_le hle).not_gt (hy'.trans_le hle).not_gt,
      iff_of_true (hx'.trans_le hle) (hy'.trans_le hle)⟩

lemma alike_of_odd {n : ℕ} (hn : n % 2 = 1) (h : (n : K) - 1 < x) (h' : x < n + 1) :
    Alike 2 (n : K) x := by
  have hcast : (n : K) = ((n / 2 : ℕ) : ℤ) * 2 + 1 := by
    have he : n = n / 2 * 2 + 1 := by omega
    exact_mod_cast he
  refine @alike_of_between K _ _ 2 (n : K) x _ ((n / 2 : ℕ) : ℤ) two_pos ?_ ?_ ?_ ?_
  all_goals linarith

/-- The bits of a value in front of some zeros, with a bit for what is behind them. -/
lemma alike_sticky {q l : ℕ} {z : K} {sticky : Bool} (hl : 0 < l) (hq : q ≤ z) (hq' : z < q + 1)
    (hsticky : sticky = true ↔ z ≠ q) :
    Alike (2 ^ l) ((q * 2 ^ l + sticky.toNat : ℕ) : K) (z * 2 ^ l) := by
  have hpos : (0 : K) < 2 ^ l := pow_pos two_pos l
  push_cast
  cases sticky
  · have heq : z = q := not_not.mp (mt hsticky.mpr Bool.false_ne_true)
    rw [heq, Bool.toNat_false, Nat.cast_zero, add_zero]
    exact Alike.refl _ _
  · have hlt : (q : K) < z := lt_of_le_of_ne hq (hsticky.mp rfl).symm
    have hone : (1 : K) < 2 ^ l := one_lt_pow₀ one_lt_two hl.ne'
    rw [Bool.toNat_true, Nat.cast_one]
    refine @alike_of_between K _ _ (2 ^ l) _ _ _ (q : ℤ) hpos ?_ ?_ ?_ ?_
    · rw [Int.cast_natCast]
      exact lt_add_one _
    · rw [Int.cast_natCast, add_mul, one_mul]
      linarith
    · rw [Int.cast_natCast]
      exact mul_lt_mul_of_pos_right hlt hpos
    · rw [Int.cast_natCast]
      exact mul_lt_mul_of_pos_right hq' hpos

end

/-- A size with a sign. -/
def signed {α : Type*} [Neg α] (negative : Bool) (x : α) : α := if negative then -x else x

lemma signed_mul {α : Type*} [Ring α] (negative : Bool) (x c : α) :
    signed negative x * c = signed negative (x * c) := by
  cases negative
  · rfl
  · exact neg_mul x c

lemma abs_signed [IsStrictOrderedRing K] (negative : Bool) {x : K} (hx : 0 ≤ x) :
    |signed negative x| = x := by
  cases negative
  · exact abs_of_nonneg hx
  · exact (abs_neg x).trans (abs_of_nonneg hx)

lemma signed_lt_zero [IsStrictOrderedRing K] (negative : Bool) {x : K} (hx : 0 < x) :
    decide (signed negative x < 0) = negative := by
  cases negative
  · exact decide_eq_false hx.not_gt
  · exact decide_eq_true (neg_lt_zero.mpr hx)

lemma signed_inj {α : Type*} [AddGroup α] (negative : Bool) {x y : α} :
    signed negative x = signed negative y ↔ x = y := by
  cases negative
  · exact Iff.rfl
  · exact neg_inj

/-! ### Rounding to Integers -/

section

variable [FloorRing K]

/-- The nearest integer, and the even one of two. -/
def roundEven (x : K) : ℤ :=
  if x - ⌊x⌋ < 1 / 2 then ⌊x⌋
  else if 1 / 2 < x - ⌊x⌋ then ⌊x⌋ + 1
  else if Even ⌊x⌋ then ⌊x⌋ else ⌊x⌋ + 1

/-- The integer next to a value toward zero. -/
def truncate (x : K) : ℤ := if x < 0 then ⌈x⌉ else ⌊x⌋

lemma ceil_eq_of_ne {x : K} (h : x ≠ ⌊x⌋) : ⌈x⌉ = ⌊x⌋ + 1 := by
  rw [Int.ceil_eq_iff]
  push_cast
  rw [add_sub_cancel_right]
  exact ⟨lt_of_le_of_ne (Int.floor_le x) h.symm, (Int.lt_floor_add_one x).le⟩

variable [IsStrictOrderedRing K]

lemma roundEven_intCast (n : ℤ) : roundEven (n : K) = n := by
  unfold roundEven
  rw [Int.floor_intCast, sub_self, if_pos (by norm_num)]

lemma roundEven_neg (x : K) : roundEven (-x) = -roundEven x := by
  by_cases h : x = ⌊x⌋
  · rw [h, ← Int.cast_neg, roundEven_intCast, roundEven_intCast]
  · have hfloor : ⌊-x⌋ = -⌊x⌋ - 1 := by
      rw [Int.floor_neg, ceil_eq_of_ne h]
      ring
    have hpart : -x - ((-⌊x⌋ - 1 : ℤ) : K) = 1 - (x - ⌊x⌋) := by
      push_cast
      ring
    have heven : Even (-⌊x⌋ - 1) ↔ ¬ Even ⌊x⌋ := by
      rw [Int.even_sub_one, even_neg]
    unfold roundEven
    rw [hfloor, hpart]
    generalize x - (⌊x⌋ : K) = part
    by_cases hlow : part < 1 / 2
    · rw [if_neg (by linarith), if_pos (by linarith), if_pos hlow]
      ring
    · by_cases hhigh : 1 / 2 < part
      · rw [if_pos (by linarith), if_neg hlow, if_pos hhigh]
        ring
      · rw [if_neg (by linarith), if_neg (by linarith), if_neg hlow, if_neg hhigh]
        by_cases hodd : Even ⌊x⌋
        · rw [if_neg (heven.not_left.mpr hodd), if_pos hodd]
          ring
        · rw [if_pos (heven.mpr hodd), if_neg hodd]
          ring

lemma roundEven_even_add {n : ℤ} (hn : Even n) (x : K) :
    roundEven ((n : K) + x) = n + roundEven x := by
  have hpart : (n : K) + x - ((n + ⌊x⌋ : ℤ) : K) = x - ⌊x⌋ := by
    push_cast
    ring
  have heven : Even (n + ⌊x⌋) ↔ Even ⌊x⌋ := by
    rw [Int.even_add, iff_true_left hn]
  unfold roundEven
  rw [Int.floor_intCast_add, hpart]
  simp only [heven]
  split_ifs <;> ring

lemma floor_natDiv (m b : ℕ) : ⌊(m : K) / b⌋ = ((m / b : ℕ) : ℤ) := by
  rw [Int.floor_div_natCast, Int.floor_natCast]
  rfl

lemma roundEven_natDiv {m b : ℕ} (hb : 0 < b) : roundEven ((m : K) / b) =
    ((m / b + if b < 2 * (m % b) ∨ (2 * (m % b) = b ∧ ¬ Even (m / b)) then 1 else 0 : ℕ) : ℤ) := by
  have hbpos : (0 : K) < b := by exact_mod_cast hb
  have hpart : (m : K) / b - ((m / b : ℕ) : K) = ((m % b : ℕ) : K) / b := by
    have hsplit : ((b * (m / b) + m % b : ℕ) : K) = m := by rw [Nat.div_add_mod]
    push_cast at hsplit
    rw [eq_div_iff hbpos.ne', sub_mul, div_mul_cancel₀ _ hbpos.ne']
    rw [← hsplit]
    ring
  have hlow : ((m % b : ℕ) : K) / b < 1 / 2 ↔ 2 * (m % b) < b := by
    rw [div_lt_div_iff₀ hbpos two_pos, one_mul, mul_comm]
    exact_mod_cast Iff.rfl
  have hhigh : (1 : K) / 2 < ((m % b : ℕ) : K) / b ↔ b < 2 * (m % b) := by
    rw [div_lt_div_iff₀ two_pos hbpos, one_mul, mul_comm]
    exact_mod_cast Iff.rfl
  unfold roundEven
  rw [floor_natDiv, Int.cast_natCast, hpart]
  simp only [hlow, hhigh, Int.even_coe_nat]
  by_cases hbelow : 2 * (m % b) < b
  · rw [if_pos hbelow, if_neg (by omega), Nat.add_zero]
  · by_cases habove : b < 2 * (m % b)
    · rw [if_neg hbelow, if_pos habove, if_pos (.inl habove), Nat.cast_add, Nat.cast_one]
    · rw [if_neg hbelow, if_neg habove]
      by_cases heven : Even (m / b)
      · have hdown : ¬ (b < 2 * (m % b) ∨ 2 * (m % b) = b ∧ ¬ Even (m / b)) :=
          fun h => h.elim habove fun h => h.2 heven
        rw [if_pos heven, if_neg hdown, Nat.add_zero]
      · rw [if_neg heven, if_pos (.inr ⟨by omega, heven⟩), Nat.cast_add, Nat.cast_one]

end

/-! ### Rounding to a Format -/

variable [IsStrictOrderedRing K] [FloorRing K]

/-- A value rounded to a multiple of a power of two. -/
def roundAt (round : K → ℤ) (e : ℤ) (x : K) : K := round (x / 2 ^ e) * 2 ^ e

/-- The exponent of the last place of a value in a significand of some bits. -/
def lastPlace (precision : ℕ) (x : K) : ℤ := Int.log 2 |x| + 1 - precision

/-- A value rounded to a precision, with an unbounded exponent. -/
def roundUnbounded (round : K → ℤ) (precision : ℕ) (x : K) : K :=
  roundAt round (lastPlace precision x) x

/-- A value rounded to a precision, with no place below that of the least exponent. -/
def roundGradual (round : K → ℤ) (precision : ℕ) (least : ℤ) (x : K) : K :=
  roundAt round (max (lastPlace precision x) (least + 1 - precision)) x

lemma log_eq {e : ℤ} {x : K} (h : 2 ^ e ≤ x) (h' : x < 2 ^ (e + 1)) : Int.log 2 x = e := by
  have hpos : 0 < x := (zpow_pos two_pos e).trans_le h
  have hlow := (Int.zpow_le_iff_le_log one_lt_two hpos).mp (by exact_mod_cast h)
  have hhigh := (Int.lt_zpow_iff_log_lt one_lt_two hpos).mp (by exact_mod_cast h')
  omega

lemma roundAt_mul (round : K → ℤ) (e : ℤ) (x : K) :
    roundAt round e (x * 2 ^ e) = round x * 2 ^ e := by
  unfold roundAt
  rw [mul_div_cancel_right₀ x (zpow_pos two_pos e).ne']

end Neetan.RealRounding
