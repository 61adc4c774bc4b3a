import Neetan.Fp80Value

/-!
What an operation delivers for an exact result, and that rounding and packing deliver it.

Rounding starts from 128 bits that are alike the exact result, in units of bit 63.
-/

namespace Neetan.SoftFloat

open MachineInt RealRounding

/-! ### Results -/

noncomputable def RoundingMode.round : RoundingMode → ℝ → ℤ
  | .nearestEven => roundEven
  | .down => Int.floor
  | .up => Int.ceil
  | .zero => truncate

/-- An exact result, rounded to the precision with an unbounded exponent. -/
noncomputable def unboundedResult (rc : RoundingMode) (pc : Precision) (x : ℝ) : ℝ :=
  roundUnbounded rc.round pc.bits x

/-- The least exponent of a normal number. -/
def leastExponent : ℤ := 1 - Fp80.bias

noncomputable def smallestNormal : ℝ := 2 ^ leastExponent

/-- The largest finite number with a significand of the precision. -/
noncomputable def largestFinite (pc : Precision) : ℝ :=
  (2 ^ pc.bits - 1) * 2 ^ (Fp80.bias + 1 - pc.bits)

/-- The result is not zero, and rounded with an unbounded exponent it is too small. -/
def IsTiny (rc : RoundingMode) (pc : Precision) (x : ℝ) : Prop :=
  x ≠ 0 ∧ |unboundedResult rc pc x| < smallestNormal

/-- The result rounded with an unbounded exponent is too large. -/
def Overflows (rc : RoundingMode) (pc : Precision) (x : ℝ) : Prop :=
  largestFinite pc < |unboundedResult rc pc x|

/-- Whether a rounding mode takes results away from zero. -/
def RoundingMode.awayFromZero (rc : RoundingMode) (negative : Bool) : Bool :=
  match rc with
  | .nearestEven => true
  | .up => !negative
  | .down => negative
  | .zero => false

/-- The masked response to an overflow: an infinity, or the largest finite number. -/
noncomputable def overflowResult (rc : RoundingMode) (pc : Precision) (negative : Bool) : EReal :=
  signed negative (if rc.awayFromZero negative then ⊤ else (largestFinite pc : EReal))

open Classical in
/-- What is delivered for an exact result. -/
noncomputable def delivered (rc : RoundingMode) (pc : Precision) (x : ℝ) : EReal :=
  if Overflows rc pc x then overflowResult rc pc (decide (x < 0))
  else (roundGradual rc.round pc.bits leastExponent x : ℝ)

/-- An operation delivers its exact result, rounded once, with the flags of the rounding. -/
structure Delivers (rc : RoundingMode) (pc : Precision) (x : ℝ) (ef : ExceptionFlags) (r : Fp80)
    (ef' : ExceptionFlags) : Prop where
  value : r.value = delivered rc pc x
  canonical : r.Canonical
  precision : ef'.precision = true ↔ ef.precision = true ∨ r.value ≠ x
  roundedUp : ef'.roundedUp = true ↔ ef.roundedUp = true ∨ ((|x| : ℝ) : EReal) < r.size
  tiny : ef'.tiny = true ↔ ef.tiny = true ∨ IsTiny rc pc x
  underflow : ef'.underflow = true ↔ ef.underflow = true ∨ IsTiny rc pc x ∧ r.value ≠ x
  overflow : ef'.overflow = true ↔ ef.overflow = true ∨ Overflows rc pc x

/-! ### Rounding of Sizes -/

/-- The size a rounding mode takes a size to. -/
noncomputable def RoundingMode.roundSize (rc : RoundingMode) (negative : Bool) (u : ℝ) : ℤ :=
  match rc with
  | .nearestEven => roundEven u
  | .down => if negative then ⌈u⌉ else ⌊u⌋
  | .up => if negative then ⌊u⌋ else ⌈u⌉
  | .zero => ⌊u⌋

lemma round_signed (rc : RoundingMode) (negative : Bool) {u : ℝ} (hu : 0 ≤ u) :
    rc.round (signed negative u) = signed negative (rc.roundSize negative u) := by
  cases rc with
  | nearestEven =>
    cases negative
    · rfl
    · exact roundEven_neg u
  | down =>
    cases negative
    · rfl
    · exact Int.floor_neg
  | up =>
    cases negative
    · rfl
    · exact Int.ceil_neg
  | zero =>
    cases negative
    · exact if_neg (not_lt.mpr hu)
    · change truncate (-u) = -⌊u⌋
      unfold truncate
      split_ifs with hneg
      · exact Int.ceil_neg
      · have hzero : u = 0 := by linarith
        rw [hzero, neg_zero, Int.floor_zero, neg_zero]

/-- Whether the bits behind the kept ones increment them. -/
def increments (sign : Bool) (rc : RoundingMode) (kept rest half : ℕ) : Bool :=
  rest ≠ 0 &&
    match rc with
    | .nearestEven => half < rest || (rest = half && kept &&& 1 ≠ 0)
    | .up => !sign
    | .down => sign
    | .zero => false

lemma roundBits_eq {sign : Bool} {n keep : ℕ} {rc : RoundingMode} (hn : n < 2 ^ 128)
    (hkeep : keep ≤ 64) :
    roundBits sign n keep rc = some (n / 2 ^ (128 - keep) +
      (increments sign rc (n / 2 ^ (128 - keep)) (n % 2 ^ (128 - keep)) (2 ^ (127 - keep))).toNat,
      decide (n % 2 ^ (128 - keep) ≠ 0),
      increments sign rc (n / 2 ^ (128 - keep)) (n % 2 ^ (128 - keep)) (2 ^ (127 - keep))) := by
  have hhalf : 128 - keep - 1 = 127 - keep := by omega
  have hkept : n / 2 ^ (128 - keep) < 2 ^ 64 := by
    have hpow : 2 ^ 64 ≤ 2 ^ (128 - keep) := Nat.pow_le_pow_right two_pos (by omega)
    rw [Nat.div_lt_iff_lt_mul (Nat.two_pow_pos _)]
    calc n < 2 ^ 64 * 2 ^ 64 := by omega
      _ ≤ 2 ^ 64 * 2 ^ (128 - keep) := Nat.mul_le_mul_left _ hpow
  have hadd : ∀ b : Bool, checkedAdd 128 (n / 2 ^ (128 - keep)) b.toNat =
      some (n / 2 ^ (128 - keep) + b.toNat) := fun b => if_pos (by have := b.toNat_le; omega)
  unfold roundBits increments
  simp only [Nat.shiftRight_eq_div_pow, Nat.one_shiftLeft, Nat.and_two_pow_sub_one_eq_mod, hhalf,
    hadd]
  rfl

/-- A size in units of the kept bits, next to the kept bits and the rest. -/
structure Split (kept rest half : ℕ) (u : ℝ) : Prop where
  floor : ⌊u⌋ = kept
  exact : rest = 0 ↔ u = kept
  below : rest < half ↔ u < kept + 1 / 2
  above : half < rest ↔ kept + 1 / 2 < u

lemma split_of_alike {n half : ℕ} {y : ℝ} (hhalf : 0 < half) (hy : Alike (half : ℝ) n y) :
    Split (n / (half * 2)) (n % (half * 2)) half (y / (half * 2)) := by
  have hpos : (0 : ℝ) < half := Nat.cast_pos.mpr hhalf
  have hunit : (0 : ℝ) < half * 2 := by positivity
  have hn := Nat.div_add_mod n (half * 2)
  have hrest := Nat.mod_lt n (Nat.mul_pos hhalf two_pos)
  generalize n / (half * 2) = kept at *
  generalize n % (half * 2) = rest at *
  -- the order with the multiples of half a unit
  have hlow : ∀ m : ℕ, m * half < n ↔ (m : ℝ) / 2 < y / (half * 2) := by
    intro m
    have hm := (hy m).1
    rw [lt_div_iff₀ hunit, show (m : ℝ) / 2 * (half * 2) = m * half by ring]
    exact ⟨fun h => hm.mp (by exact_mod_cast h), fun h => by exact_mod_cast hm.mpr h⟩
  have hhigh : ∀ m : ℕ, n < m * half ↔ y / (half * 2) < (m : ℝ) / 2 := by
    intro m
    have hm := (hy m).2
    rw [div_lt_iff₀ hunit, show (m : ℝ) / 2 * (half * 2) = m * half by ring]
    exact ⟨fun h => hm.mp (by exact_mod_cast h), fun h => by exact_mod_cast hm.mpr h⟩
  have hat : ∀ i : ℕ, (2 * kept + i) * half = half * 2 * kept + i * half := fun i => by ring
  have hcast : ∀ i : ℕ, ((2 * kept + i : ℕ) : ℝ) / 2 = kept + i / 2 := fun i => by
    push_cast
    ring
  have h0 := hlow (2 * kept + 0)
  have h0' := hhigh (2 * kept + 0)
  have h1 := hlow (2 * kept + 1)
  have h1' := hhigh (2 * kept + 1)
  have h2 := hhigh (2 * kept + 2)
  rw [hat, hcast] at h0 h0' h1 h1' h2
  norm_num at h0 h0' h1 h1' h2
  have hge : (kept : ℝ) ≤ y / (half * 2) := not_lt.mp fun h => by
    have := h0'.mpr h
    omega
  refine ⟨?_, ?_, ?_, ?_⟩
  · rw [Int.floor_eq_iff]
    exact ⟨hge, h2.mp (by omega)⟩
  · constructor
    · intro hzero
      refine le_antisymm (not_lt.mp fun h => ?_) hge
      have := h0.mpr h
      omega
    · intro heq
      by_contra hne
      exact (h0.mp (by omega)).ne' heq
  · rw [← h1']
    omega
  · rw [← h1]
    omega

namespace Split

variable {kept rest half : ℕ} {u : ℝ}

lemma ceil (h : Split kept rest half u) : ⌈u⌉ = kept + (if rest = 0 then 0 else 1 : ℤ) := by
  split_ifs with hrest
  · rw [h.exact.mp hrest, add_zero]
    exact Int.ceil_natCast kept
  · rw [ceil_eq_of_ne, h.floor]
    rw [h.floor]
    exact fun hu => hrest (h.exact.mpr hu)

lemma roundEven (h : Split kept rest half u) (sign : Bool) : RealRounding.roundEven u =
    kept + (increments sign .nearestEven kept rest half).toNat := by
  have hparity : kept &&& 1 ≠ 0 ↔ ¬ Even (kept : ℤ) := by
    rw [Nat.and_one_is_mod, Int.even_coe_nat, Nat.even_iff]
  have hbelow : u - kept < 1 / 2 ↔ rest < half := by
    rw [h.below, sub_lt_iff_lt_add']
  have habove : 1 / 2 < u - kept ↔ half < rest := by
    rw [h.above, lt_sub_iff_add_lt']
  unfold RealRounding.roundEven increments
  rw [h.floor, Int.cast_natCast]
  by_cases hlow : rest < half
  · rw [if_pos (hbelow.mpr hlow), decide_eq_false (not_lt.mpr hlow.le), decide_eq_false hlow.ne]
    simp
  · rw [if_neg (mt hbelow.mp hlow)]
    by_cases hhigh : half < rest
    · rw [if_pos (habove.mpr hhigh), decide_eq_true hhigh, decide_eq_true (by omega)]
      rfl
    · -- a tie
      have hrest : rest ≠ 0 := fun hzero => hlow (h.below.mpr (by
        rw [h.exact.mp hzero]
        linarith))
      rw [if_neg (mt habove.mp hhigh), decide_eq_false hhigh,
        decide_eq_true (show rest = half by omega), decide_eq_true hrest]
      by_cases heven : Even (kept : ℤ)
      · rw [if_pos heven, decide_eq_false (mt hparity.mp (not_not.mpr heven))]
        simp
      · rw [if_neg heven, decide_eq_true (hparity.mpr heven)]
        rfl

lemma roundSize (h : Split kept rest half u) (sign : Bool) (rc : RoundingMode) :
    rc.roundSize sign u = kept + (increments sign rc kept rest half).toNat := by
  have hceil : ⌈u⌉ = kept + (decide (rest ≠ 0)).toNat := by
    rw [h.ceil]
    by_cases hrest : rest = 0 <;> simp [hrest]
  have hfloor : ⌊u⌋ = kept + (false : Bool).toNat := h.floor
  cases rc with
  | nearestEven => exact h.roundEven sign
  | down =>
    unfold increments
    cases sign
    · rw [Bool.and_false]
      exact hfloor
    · rw [Bool.and_true]
      exact hceil
  | up =>
    unfold increments
    cases sign
    · rw [Bool.not_false, Bool.and_true]
      exact hceil
    · rw [Bool.not_true, Bool.and_false]
      exact hfloor
  | zero =>
    unfold increments
    rw [Bool.and_false]
    exact hfloor

lemma inexact_iff (h : Split kept rest half u) (sign : Bool) (rc : RoundingMode) :
    rest ≠ 0 ↔ ((kept + (increments sign rc kept rest half).toNat : ℕ) : ℝ) ≠ u := by
  have hlt := Int.lt_floor_add_one u
  rw [h.floor, Int.cast_natCast] at hlt
  by_cases hrest : rest = 0
  · have hnone : increments sign rc kept rest half = false := by
      unfold increments
      rw [hrest]
      rfl
    refine iff_of_false (not_not.mpr hrest) (not_not.mpr ?_)
    rw [hnone]
    exact (h.exact.mp hrest).symm
  · refine iff_of_true hrest ?_
    have hne : u ≠ kept := mt h.exact.mpr hrest
    cases increments sign rc kept rest half
    · exact hne.symm
    · rw [Bool.toNat_true, Nat.cast_add, Nat.cast_one]
      exact hlt.ne'

lemma increment_iff (h : Split kept rest half u) (sign : Bool) (rc : RoundingMode) :
    increments sign rc kept rest half = true ↔
      u < ((kept + (increments sign rc kept rest half).toNat : ℕ) : ℝ) := by
  have hle := Int.floor_le u
  have hlt := Int.lt_floor_add_one u
  rw [h.floor, Int.cast_natCast] at hle hlt
  cases increments sign rc kept rest half
  · exact iff_of_false Bool.false_ne_true (not_lt.mpr (by simpa using hle))
  · exact iff_of_true rfl (by simpa using hlt)

end Split

/-- The bits that are kept are the rounded size of any value alike. -/
theorem roundBits_spec {sign : Bool} {n keep : ℕ} {rc : RoundingMode} {y : ℝ} (hn : n < 2 ^ 128)
    (hkeep : keep ≤ 64) (hy : Alike (2 ^ (127 - keep)) (n : ℝ) y) :
    ∃ kept inexact increment, roundBits sign n keep rc = some (kept, inexact, increment) ∧
      ((kept : ℕ) : ℤ) = rc.roundSize sign (y / 2 ^ (128 - keep)) ∧
      (inexact = true ↔ (kept : ℝ) ≠ y / 2 ^ (128 - keep)) ∧
      (increment = true ↔ y / 2 ^ (128 - keep) < kept) := by
  have hpow : 2 ^ (128 - keep) = 2 ^ (127 - keep) * 2 := by
    rw [← pow_succ]
    congr 1
    omega
  have hcast : (2 : ℝ) ^ (128 - keep) = ((2 ^ (127 - keep) : ℕ) : ℝ) * 2 := by
    exact_mod_cast hpow
  have hsplit := @split_of_alike n _ y (Nat.two_pow_pos (127 - keep)) (by exact_mod_cast hy)
  refine ⟨_, _, _, roundBits_eq hn hkeep, ?_⟩
  rw [hcast, hpow]
  refine ⟨?_, ?_, hsplit.increment_iff sign rc⟩
  · rw [hsplit.roundSize sign rc]
    exact Nat.cast_add _ _
  · rw [decide_eq_true_eq]
    exact hsplit.inexact_iff sign rc

lemma floor_le_roundSize (rc : RoundingMode) (sign : Bool) (u : ℝ) :
    ⌊u⌋ ≤ rc.roundSize sign u := by
  have hceil := Int.floor_le_ceil u
  cases rc with
  | nearestEven =>
    change ⌊u⌋ ≤ roundEven u
    unfold roundEven
    split_ifs <;> omega
  | down => cases sign <;> [exact le_rfl; exact hceil]
  | up => cases sign <;> [exact hceil; exact le_rfl]
  | zero => exact le_rfl

lemma roundSize_le_ceil (rc : RoundingMode) (sign : Bool) (u : ℝ) :
    rc.roundSize sign u ≤ ⌈u⌉ := by
  have hceil := Int.floor_le_ceil u
  cases rc with
  | nearestEven =>
    change roundEven u ≤ ⌈u⌉
    by_cases hu : u = ⌊u⌋
    · rw [hu, roundEven_intCast, Int.ceil_intCast]
    · have hup := ceil_eq_of_ne hu
      unfold roundEven
      split_ifs <;> omega
  | down => cases sign <;> [exact hceil; exact le_rfl]
  | up => cases sign <;> [exact le_rfl; exact hceil]
  | zero => exact hceil

/-! ### Shifts -/

lemma or_one_bounds (n : ℕ) : (n ||| 1) % 2 = 1 ∧ n ≤ n ||| 1 ∧ n ||| 1 ≤ n + 1 := by
  have hodd : (n ||| 1) % 2 = 1 := Nat.or_mod_two_eq_one.mpr (Or.inr rfl)
  have hdiv : (n ||| 1) / 2 = n / 2 := by
    rw [Nat.or_div_two]
    exact Nat.or_zero _
  omega

lemma shiftRightSticky_alike (n s : ℕ) (hn : n < 2 ^ 128) :
    Alike 2 (shiftRightSticky n s : ℝ) (n / 2 ^ s) := by
  have hpow : (0 : ℝ) < 2 ^ s := pow_pos two_pos s
  unfold shiftRightSticky
  by_cases h0 : s = 0
  · rw [if_pos h0, h0, pow_zero, div_one]
    exact Alike.refl _ _
  · rw [if_neg h0]
    by_cases hbig : 128 ≤ s
    · rw [if_pos hbig]
      by_cases hzero : n = 0
      · rw [decide_eq_false (not_not.mpr hzero), Bool.toNat_false, hzero, Nat.cast_zero, zero_div]
        exact Alike.refl _ _
      · rw [decide_eq_true hzero]
        have hle : (2 : ℕ) ^ 128 ≤ 2 ^ s := Nat.pow_le_pow_right two_pos hbig
        have hlt : (n : ℝ) < 2 ^ s := by exact_mod_cast hn.trans_le hle
        have hpos : (0 : ℝ) < n := Nat.cast_pos.mpr (Nat.pos_of_ne_zero hzero)
        refine @alike_of_odd ℝ _ _ (n / 2 ^ s) _ 1 rfl ?_ ?_
        · rw [Nat.cast_one, sub_self]
          exact div_pos hpos hpow
        · rw [Nat.cast_one, div_lt_iff₀ hpow]
          linarith
    · rw [if_neg hbig, Nat.shiftRight_eq_div_pow, Nat.one_shiftLeft,
        Nat.and_two_pow_sub_one_eq_mod]
      have hsplit := Nat.div_add_mod n (2 ^ s)
      have hrest := Nat.mod_lt n (Nat.two_pow_pos s)
      generalize n / 2 ^ s = q at *
      generalize n % 2 ^ s = rest at *
      have hvalue : (n : ℝ) / 2 ^ s = q + rest / 2 ^ s := by
        rw [← hsplit]
        push_cast
        rw [add_div, mul_div_cancel_left₀ _ hpow.ne']
      rw [hvalue]
      by_cases hzero : rest = 0
      · rw [decide_eq_false (not_not.mpr hzero), Bool.toNat_false, Nat.or_zero, hzero,
          Nat.cast_zero, zero_div, add_zero]
        exact Alike.refl _ _
      · rw [decide_eq_true hzero]
        obtain ⟨hodd, hle, hge⟩ := or_one_bounds q
        have hpart : (0 : ℝ) < rest / 2 ^ s :=
          div_pos (Nat.cast_pos.mpr (Nat.pos_of_ne_zero hzero)) hpow
        have hpart' : (rest : ℝ) / 2 ^ s < 1 := by
          rw [div_lt_one hpow]
          exact_mod_cast hrest
        have hle' : (q : ℝ) ≤ (q ||| 1 : ℕ) := Nat.cast_le.mpr hle
        have hge' : ((q ||| 1 : ℕ) : ℝ) ≤ q + 1 := by exact_mod_cast hge
        refine alike_of_odd hodd ?_ ?_
        · rw [Bool.toNat_true]
          linarith
        · rw [Bool.toNat_true]
          linarith

lemma shiftRightSticky_lt {n s : ℕ} (hn : n < 2 ^ 128) : shiftRightSticky n s < 2 ^ 128 := by
  have hbit : ∀ b : Bool, b.toNat < 2 ^ 128 := fun b => (Bool.toNat_lt b).trans (by norm_num)
  unfold shiftRightSticky
  split_ifs
  · exact hn
  · exact hbit _
  · refine Nat.or_lt_two_pow ?_ (hbit _)
    rw [Nat.shiftRight_eq_div_pow]
    exact (Nat.div_le_self _ _).trans_lt hn

lemma Alike.shifted {n s k : ℕ} {y : ℝ} (h : Alike (2 ^ 63) (n : ℝ) y) (hn : n < 2 ^ 128)
    (hk : 63 ≤ k) : Alike (2 ^ k) (shiftRightSticky n s : ℝ) (y / 2 ^ s) := by
  have hpow : (0 : ℝ) < 2 ^ s := pow_pos two_pos s
  have hjam : Alike ((2 : ℝ) ^ 1) (shiftRightSticky n s : ℝ) (n / 2 ^ s) := by
    rw [pow_one]
    exact shiftRightSticky_alike n s hn
  have hscaled := (RealRounding.Alike.scale (h.pow_mono hk) (inv_pos.mpr hpow)).coarsen (2 ^ s)
  rw [Int.cast_pow, Int.cast_ofNat, mul_left_comm, mul_inv_cancel₀ hpow.ne', mul_one,
    ← div_eq_mul_inv, ← div_eq_mul_inv] at hscaled
  exact (hjam.pow_mono (by omega)).trans hscaled

end Neetan.SoftFloat
