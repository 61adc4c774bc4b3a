import Neetan.FormatRounding

/-!
Rounding and packing deliver the exact result that 128 bits are alike, and the arithmetic
operations start from such bits.

A sum may lose the low bits of the smaller summand, a quotient and a root those behind the last
one: a sticky bit stands for them. None of the 128-bit numbers overflows.
-/

namespace Neetan.SoftFloat

open MachineInt RealRounding

lemma Precision.bits_bounds (pc : Precision) : 24 ≤ pc.bits ∧ pc.bits ≤ 64 := by
  cases pc <;> decide

/-- The format of a precision, with the exponents of the FPU. -/
def Precision.grid (pc : Precision) : Grid where
  precision := pc.bits
  bias := Fp80.bias
  precision_low := pc.bits_bounds.1.trans' (by norm_num)
  precision_high := pc.bits_bounds.2
  range := by
    have := pc.bits_bounds.2
    unfold Fp80.bias
    omega

lemma smallestNormal_lt_largestFinite (pc : Precision) : smallestNormal < largestFinite pc :=
  pc.grid.least_lt_largest

/-! ### Packed Results -/

lemma pack_infinity (sign : Bool) (pc : Precision) :
    (Rounded.infinity.pack sign pc).isInfinity = true ∧
      (Rounded.infinity.pack sign pc).sign = sign := by
  cases sign <;> cases pc <;> decide

lemma pack_largestFinite (sign : Bool) (pc : Precision) :
    Rounded.largestFinite.pack sign pc = packed sign (0x7FFE : ℕ) (2 ^ pc.bits - 1) pc.bits := by
  cases sign <;> cases pc <;> decide

lemma largestFinite_magnitude (sign : Bool) (pc : Precision) :
    (Rounded.largestFinite.pack sign pc).magnitude = largestFinite pc := by
  have hpos := Nat.two_pow_pos pc.bits
  rw [pack_largestFinite, Fp80.packed_magnitude (by norm_num) pc.bits_bounds.2 (by omega)]
  unfold largestFinite
  push_cast [Nat.cast_sub (Nat.one_le_two_pow)]
  rfl

lemma canonical_largestFinite (sign : Bool) (pc : Precision) :
    (Rounded.largestFinite.pack sign pc).Canonical := by
  obtain ⟨hlow, hhigh⟩ := pc.bits_bounds
  have hpow : 2 ^ pc.bits = 2 ^ (pc.bits - 1) * 2 := by
    rw [← pow_succ]
    congr 1
    omega
  have hpos := Nat.two_pow_pos (pc.bits - 1)
  rw [pack_largestFinite]
  exact Fp80.canonical_packed (by norm_num) hhigh (by omega)
    (iff_of_true (by norm_num) (by omega)) (by omega)

/-- A rounded number and the one that is packed. -/
structure PacksAs (sign : Bool) (pc : Precision) (rounded : Rounded) : Prop where
  value : (rounded.pack sign pc).value = pc.grid.value sign rounded
  size : (rounded.pack sign pc).size = pc.grid.size rounded
  canonical : (rounded.pack sign pc).Canonical

lemma packsAs_finite (sign : Bool) (pc : Precision) {biased : ℤ} {kept : ℕ}
    (h : pc.grid.InFormat (.finite biased kept)) : PacksAs sign pc (.finite biased kept) := by
  obtain ⟨hnonneg, hmax, hkept, hnormal⟩ := h
  obtain ⟨hbits, hbits'⟩ := pc.bits_bounds
  obtain ⟨field, rfl⟩ := Int.eq_ofNat_of_zero_le hnonneg
  have hfield : field < 0x7FFF := by
    change (field : ℤ) < 2 * 16383 + 1 at hmax
    omega
  have hmagnitude := @Fp80.packed_magnitude sign field kept pc.bits (by omega) hbits' hkept
  rw [Nat.cast_max, Nat.cast_one] at hmagnitude
  have hfinite := @Fp80.packed_finite sign field kept pc.bits hfield
  have hsign := @Fp80.packed_sign sign field kept pc.bits (by omega)
  refine ⟨?_, ?_, ?_⟩
  · unfold Fp80.value Fp80.toReal Rounded.pack
    rw [hfinite, hsign, hmagnitude]
    cases sign <;> rfl
  · unfold Fp80.size Rounded.pack
    rw [hfinite, hmagnitude]
    rfl
  · exact Fp80.canonical_packed hfield hbits' hkept (Nat.cast_ne_zero.symm.trans hnormal)
      (by omega)

lemma packsAs (sign : Bool) (pc : Precision) {rounded : Rounded} (h : pc.grid.InFormat rounded) :
    PacksAs sign pc rounded := by
  cases rounded with
  | finite biased kept => exact packsAs_finite sign pc h
  | infinity =>
    obtain ⟨hinfinity, hsign⟩ := pack_infinity sign pc
    refine ⟨?_, ?_, .inr (.inr (.inr hinfinity))⟩
    · unfold Fp80.value
      rw [if_pos hinfinity, hsign]
      cases sign <;> rfl
    · exact if_pos hinfinity
  | largestFinite =>
    have hfinite : (Rounded.largestFinite.pack sign pc).isInfinity = false := by
      rw [pack_largestFinite]
      exact Fp80.packed_finite (by norm_num)
    have hsign : (Rounded.largestFinite.pack sign pc).sign = sign := by
      rw [pack_largestFinite]
      exact Fp80.packed_sign (by norm_num)
    refine ⟨?_, ?_, canonical_largestFinite sign pc⟩
    · unfold Fp80.value Fp80.toReal
      rw [hfinite, hsign, largestFinite_magnitude]
      cases sign <;> rfl
    · unfold Fp80.size
      rw [hfinite, largestFinite_magnitude]
      rfl

lemma Grid.RoundsTo.delivers {rc : RoundingMode} {pc : Precision} {sign : Bool} {x : ℝ}
    {ef ef' : ExceptionFlags} {rounded : Rounded}
    (h : pc.grid.RoundsTo rc sign x ef rounded ef') :
    Delivers rc pc x ef (rounded.pack sign pc) ef' := by
  obtain ⟨hvalue, hsize, hcanonical⟩ := packsAs sign pc h.fields
  have hprecision := h.precision
  have hroundedUp := h.roundedUp
  have hunderflow := h.underflow
  rw [← hvalue] at hprecision hunderflow
  rw [← hsize] at hroundedUp
  exact ⟨hvalue.trans h.value, hcanonical, hprecision, hroundedUp, h.tiny, hunderflow, h.overflow⟩

/-! ### Packing -/

lemma widened_lt {n : ℕ} (h : n < 2 ^ 64) : n * 2 ^ 64 < 2 ^ 128 := by
  calc n * 2 ^ 64 < 2 ^ 64 * 2 ^ 64 := Nat.mul_lt_mul_of_pos_right h (Nat.two_pow_pos 64)
    _ = 2 ^ 128 := by norm_num

lemma biasedResponse_total {n : ℕ} (hn : n < 2 ^ 128) (sign : Bool) (biased : ℤ) (pc : Precision)
    (rc : RoundingMode) (overflow : Bool) :
    ∃ response, biasedResponse sign biased n pc.bits rc overflow = some response := by
  unfold biasedResponse
  rw [roundBits_eq hn pc.bits_bounds.2]
  simp only [Option.bind_eq_bind, Option.bind_some]
  split_ifs <;> exact ⟨_, rfl⟩

lemma Delivers.merge {rc : RoundingMode} {pc : Precision} {x : ℝ} {r : Fp80}
    {flags : ExceptionFlags} (h : Delivers rc pc x .default r flags) (ef : ExceptionFlags)
    (biased : Option BiasedResult) :
    Delivers rc pc x ef r (ef.merge { flags with biased := biased }) := by
  have hor : ∀ {a b : Bool} {p : Prop}, (b = true ↔ false = true ∨ p) →
      ((a || b) = true ↔ a = true ∨ p) := by
    intro a b p hb
    rw [Bool.or_eq_true, hb, or_iff_right Bool.false_ne_true]
  exact ⟨h.value, h.canonical, hor h.precision, hor h.roundedUp, hor h.tiny, hor h.underflow,
    hor h.overflow⟩

lemma Rounds.normalized {sign : Bool} {e : ℤ} {n : ℕ} {y x : ℝ} (h : Rounds sign e n y x) :
    n ≠ 0 ∧ leadingZeros 128 n = 0 ∧ checkedShl 128 n 0 = some n := by
  refine ⟨fun hzero => ?_, ?_, ?_⟩
  · have := h.low
    rw [hzero] at this
    exact absurd this (by norm_num)
  · have hsize : 127 < n.size := Nat.lt_size.mpr h.low
    unfold leadingZeros
    omega
  · rw [checkedShl_of_lt (by norm_num) (by simpa using h.high), pow_zero, mul_one]

/-- **Rounding and packing deliver the exact result that the bits are alike.** -/
theorem Rounds.roundAndPack {sign : Bool} {e : ℤ} {n : ℕ} {y x : ℝ} (h : Rounds sign e n y x)
    (rc : RoundingMode) (pc : Precision) (ef : ExceptionFlags) :
    ∃ r ef', Fp80.roundAndPack sign e n rc pc ef = some (r, ef') ∧ Delivers rc pc x ef r ef' := by
  obtain ⟨hpos, hleading, hshift⟩ := h.normalized
  obtain ⟨rounded, flags, hround, hrounds⟩ := h.roundToFormat pc.grid rc .default
  have hdelivers := hrounds.delivers
  change SoftFloat.roundToFormat sign (e + Fp80.bias) n pc.bits 0x7FFF rc .default = _ at hround
  unfold Fp80.roundAndPack
  rw [if_neg hpos, hleading]
  simp only [Nat.cast_zero, sub_zero, hshift, Option.bind_eq_bind, Option.bind_some, hround]
  split_ifs
  · obtain ⟨response, hresponse⟩ :=
      biasedResponse_total h.high sign (e + Fp80.bias) pc rc flags.overflow
    rw [hresponse]
    exact ⟨_, _, rfl, hdelivers.merge ef (some response)⟩
  · exact ⟨_, _, rfl, hdelivers.merge ef flags.biased⟩

/-! ### Exact bits -/

lemma bind_of_eq_some {α β : Type} {x : Option α} {a : α} (h : x = some a) (f : α → Option β) :
    (x >>= f) = f a := by
  rw [h]
  rfl

/-! ### Operands -/

namespace Fp80

lemma Operand.exponent_lt {a : Fp80} (h : a.Operand) : a.exponent < 0x7FFF := by
  unfold Operand isNormal isDenormal isPseudoDenormal at h
  simp only [Bool.and_eq_true, decide_eq_true_eq] at h
  omega

lemma Operand.significand_pos {a : Fp80} (h : a.Operand) : 0 < a.significand.toNat := by
  have hfraction := a.fraction_toNat
  unfold Operand isNormal isDenormal isPseudoDenormal at h
  rw [jBit_eq] at h
  simp only [Bool.and_eq_true, decide_eq_true_eq] at h
  obtain ⟨-, hj⟩ | ⟨-, hf⟩ | ⟨-, hj⟩ := h
  · exact hj.trans_lt' (by norm_num)
  · refine Nat.pos_of_ne_zero fun hzero => hf (BitVec.toNat_inj.mp ?_)
    rw [hfraction, hzero]
    rfl
  · exact hj.trans_lt' (by norm_num)

lemma Operand.jBit {a : Fp80} (h : a.Operand) (he : a.exponent ≠ 0) :
    2 ^ 63 ≤ a.significand.toNat := by
  unfold Operand isNormal isDenormal isPseudoDenormal at h
  rw [jBit_eq] at h
  simp only [Bool.and_eq_true, decide_eq_true_eq] at h
  obtain ⟨-, hj⟩ | ⟨⟨h0, -⟩, -⟩ | ⟨-, hj⟩ := h
  · exact hj
  · exact absurd h0 he
  · exact hj

lemma Operand.plain {a : Fp80} (h : a.Operand) : a.isUnsupported = false ∧ a.isNan = false ∧
    a.isInfinity = false ∧ a.isZero = false := by
  have hexp := h.exponent_lt
  have hpos := h.significand_pos
  have hnan : decide (a.exponent = 0x7FFF) = false := decide_eq_false (by omega)
  have hzero : a.significand ≠ 0 := fun hs => by
    rw [hs] at hpos
    exact absurd hpos (by decide)
  refine ⟨?_, ?_, not_isInfinity (by omega), ?_⟩
  · have hunnormal : a.isUnnormal = false := by
      by_cases he : a.exponent = 0
      · unfold isUnnormal
        rw [he]
        rfl
      · unfold isUnnormal
        rw [jBit_eq, decide_eq_true (h.jBit he), Bool.not_true, Bool.and_false]
    unfold isUnsupported
    rw [hunnormal, hnan]
    rfl
  · unfold isNan
    rw [hnan]
    rfl
  · unfold isZero
    rw [decide_eq_false hzero, Bool.and_false]

lemma Operand.components {a : Fp80} (h : a.Operand) : ∃ s e, a.components = (s, e) ∧
    a.wideComponents = some (s, e) ∧ 2 ^ 63 ≤ s ∧ s < 2 ^ 64 ∧
    a.magnitude = s * 2 ^ (e - 63) := by
  have hpos := h.significand_pos
  have hlt := a.significand.isLt
  by_cases he : a.exponent = 0
  · obtain ⟨hlow, hhigh⟩ := shl_leadingZeros hpos hlt
    have hzeros := leadingZeros_lt hpos hlt
    generalize hshift : leadingZeros 64 a.significand.toNat = shift at *
    have hcomponents : a.components =
        (a.significand.toNat * 2 ^ shift, a.trueExponent - shift) := by
      unfold Fp80.components normalizeSignificand
      rw [if_pos he, if_neg hpos.ne', hshift]
      dsimp only
      rw [Nat.mod_eq_of_lt hhigh]
    have hwide : a.wideComponents = some (a.significand.toNat * 2 ^ shift,
        a.trueExponent - shift) := by
      have hcond : (decide (a.exponent = 0) && decide (a.significand.toNat ≠ 0)) = true := by
        rw [decide_eq_true he, decide_eq_true hpos.ne']
        rfl
      unfold wideComponents
      simp only [hcond, if_true, hshift,
        checkedShl_of_lt (show shift < 128 by omega) (hhigh.trans (by norm_num))]
      rfl
    refine ⟨_, _, hcomponents, hwide, hlow, hhigh, ?_⟩
    unfold magnitude
    push_cast
    rw [mul_assoc, ← zpow_natCast, ← zpow_add₀ two_ne_zero]
    congr 2
    ring
  · have hcond : (decide (a.exponent = 0) && decide (a.significand.toNat ≠ 0)) = false := by
      rw [decide_eq_false he]
      rfl
    refine ⟨a.significand.toNat, a.trueExponent, if_neg he, ?_, h.jBit he, hlt, rfl⟩
    unfold wideComponents
    rw [hcond]
    rfl

end Fp80

/-! ### Normalized Bits -/

/-- The bits of a number without its leading zeros, at the exponent that this leaves. -/
lemma rounds_normalized {n : ℕ} {z : ℝ} {e : ℤ} {sign : Bool} (hpos : 0 < n) (hn : n < 2 ^ 128)
    (halike : Alike (2 ^ 63) ((n * 2 ^ leadingZeros 128 n : ℕ) : ℝ) (z * 2 ^ leadingZeros 128 n)) :
    Rounds sign (e - leadingZeros 128 n) (n * 2 ^ leadingZeros 128 n)
      (z * 2 ^ leadingZeros 128 n) (signed sign (z * 2 ^ (e - 127))) := by
  obtain ⟨hlow, hhigh⟩ := shl_leadingZeros hpos hn
  refine ⟨hlow, hhigh, halike, ?_⟩
  congr 1
  rw [mul_assoc, ← zpow_natCast, ← zpow_add₀ two_ne_zero]
  congr 2
  ring

lemma alike_normalized {n k : ℕ} {z : ℝ} (h : Alike (2 ^ k) (n : ℝ) z)
    (hk : k + leadingZeros 128 n ≤ 63) :
    Alike (2 ^ 63) ((n * 2 ^ leadingZeros 128 n : ℕ) : ℝ) (z * 2 ^ leadingZeros 128 n) := by
  have hscaled := h.scale (pow_pos two_pos (leadingZeros 128 n))
  rw [← pow_add] at hscaled
  push_cast
  exact hscaled.pow_mono hk

lemma leadingZeros_le {n k : ℕ} (h : 2 ^ k ≤ n) : leadingZeros 128 n ≤ 127 - k := by
  have hsize : k < n.size := Nat.lt_size.mpr h
  unfold leadingZeros
  omega

/-! ### Products -/

lemma signed_mul_signed (s t : Bool) (x y : ℝ) :
    signed s x * signed t y = signed (s ^^ t) (x * y) := by
  cases s <;> cases t
  · rfl
  · exact mul_neg x y
  · exact neg_mul x y
  · exact neg_mul_neg x y

lemma signed_div_signed (s t : Bool) (x y : ℝ) :
    signed s x / signed t y = signed (s ^^ t) (x / y) := by
  cases s <;> cases t
  · rfl
  · exact div_neg x
  · exact neg_div y x
  · exact neg_div_neg_eq x y

lemma mulFinite_delivers {a b : Fp80} (ha : a.Operand) (hb : b.Operand) (rc : RoundingMode)
    (pc : Precision) (ef : ExceptionFlags) :
    ∃ r ef', a.mulFinite b rc pc ef = some (r, ef') ∧
      Delivers rc pc (a.toReal * b.toReal) ef r ef' := by
  obtain ⟨s, e, hcomponents, -, hlow, hhigh, hmagnitude⟩ := ha.components
  obtain ⟨t, f, hcomponents', -, hlow', hhigh', hmagnitude'⟩ := hb.components
  have hproduct : s * t < 2 ^ 128 := by
    calc s * t < 2 ^ 64 * 2 ^ 64 := Nat.mul_lt_mul'' hhigh hhigh'
      _ = 2 ^ 128 := by norm_num
  have hpos : 0 < s * t := Nat.mul_pos (by omega) (by omega)
  have hexact : a.toReal * b.toReal =
      signed (a.sign ^^ b.sign) (((s * t : ℕ) : ℝ) * 2 ^ (e + f + 1 - 127)) := by
    unfold Fp80.toReal
    rw [signed_mul_signed, hmagnitude, hmagnitude']
    congr 1
    rw [mul_mul_mul_comm, ← zpow_add₀ two_ne_zero]
    push_cast
    congr 2
    ring
  obtain ⟨-, hshl⟩ := shl_leadingZeros hpos hproduct
  have hrounds := @rounds_normalized (s * t) ((s * t : ℕ) : ℝ) (e + f + 1) (a.sign ^^ b.sign) hpos
    hproduct (by push_cast; exact Alike.refl _ _)
  unfold Fp80.mulFinite
  rw [hcomponents, hcomponents', hexact]
  simp only [checkedMul, if_pos hproduct, if_neg hpos.ne',
    checkedShl_of_lt (leadingZeros_lt hpos hproduct) hshl, Option.bind_eq_bind, Option.bind_some]
  exact hrounds.roundAndPack rc pc ef

/-! ### Quotients -/

lemma divide_twice {s t u v : ℕ} (ht : 0 < t) :
    s * u / t * v + s * u % t * v / t = s * (u * v) / t ∧
      s * u % t * v % t = s * (u * v) % t := by
  have hsplit := Nat.div_add_mod (s * u) t
  have hwhole : s * (u * v) = t * (s * u / t * v) + s * u % t * v := by
    calc s * (u * v) = s * u * v := (Nat.mul_assoc _ _ _).symm
      _ = (t * (s * u / t) + s * u % t) * v := by rw [hsplit]
      _ = _ := by ring
  rw [hwhole, Nat.mul_add_div ht, Nat.mul_add_mod]
  exact ⟨rfl, rfl⟩

lemma quotient_bounds {m t : ℕ} (ht : 0 < t) : ((m / t : ℕ) : ℝ) ≤ m / t ∧
    (m : ℝ) / t < (m / t : ℕ) + 1 ∧ (decide (m % t ≠ 0) = true ↔ (m : ℝ) / t ≠ (m / t : ℕ)) := by
  have ht' : (0 : ℝ) < t := Nat.cast_pos.mpr ht
  have hsplit := Nat.div_add_mod m t
  have hmod := Nat.mod_lt m ht
  have hvalue : (m : ℝ) / t = (m / t : ℕ) + (m % t : ℕ) / t := by
    rw [eq_comm, ← mul_div_cancel_left₀ ((m / t : ℕ) : ℝ) ht'.ne', ← add_div]
    congr 1
    exact_mod_cast hsplit
  generalize m / t = q at *
  generalize m % t = rest at *
  have hpart : (rest : ℝ) / t < 1 := by
    rw [div_lt_one ht']
    exact_mod_cast hmod
  have hpart' : (0 : ℝ) ≤ rest / t := div_nonneg (Nat.cast_nonneg _) ht'.le
  refine ⟨by linarith, by linarith, ?_⟩
  rw [decide_eq_true_eq, hvalue, ne_eq, ne_eq, add_eq_left, div_eq_zero_iff,
    or_iff_left ht'.ne', Nat.cast_eq_zero]

/-- Bits in front of some zeros and a sticky bit behind them are alike the exact result. -/
lemma rounds_sticky {q : ℕ} {z : ℝ} {e : ℤ} {sign sticky : Bool} (hpos : 0 < q) (hq : q < 2 ^ 127)
    (hle : q ≤ z) (hlt : z < q + 1) (hsticky : sticky = true ↔ z ≠ q)
    (hl : leadingZeros 128 q ≤ 63) :
    Rounds sign (e - leadingZeros 128 q) (q * 2 ^ leadingZeros 128 q ||| sticky.toNat)
      (z * 2 ^ leadingZeros 128 q) (signed sign (z * 2 ^ (e - 127))) := by
  have hq' : q < 2 ^ 128 := hq.trans (by norm_num)
  obtain ⟨hlow, hhigh⟩ := shl_leadingZeros hpos hq'
  have hl0 : 0 < leadingZeros 128 q := by
    have hsize := Nat.size_le.mpr hq
    unfold leadingZeros
    omega
  generalize leadingZeros 128 q = l at *
  have hbit : sticky.toNat < 2 ^ l :=
    (Bool.toNat_lt sticky).trans_le (Nat.pow_le_pow_right two_pos hl0)
  have hor : q * 2 ^ l ||| sticky.toNat = q * 2 ^ l + sticky.toNat := by
    rw [Nat.mul_comm, Nat.two_pow_add_eq_or_of_lt hbit]
  refine ⟨?_, ?_, ?_, ?_⟩
  · rw [hor]
    omega
  · exact Nat.or_lt_two_pow hhigh ((Bool.toNat_lt sticky).trans (by norm_num))
  · rw [hor]
    exact (alike_sticky hl0 hle hlt hsticky).pow_mono hl
  · congr 1
    rw [mul_assoc, ← zpow_natCast, ← zpow_add₀ two_ne_zero]
    congr 2
    ring

lemma divide_numbers {s t : ℕ} (hlow : 2 ^ 63 ≤ s) (hhigh : s < 2 ^ 64) (hlow' : 2 ^ 63 ≤ t)
    (hhigh' : t < 2 ^ 64) (ht : 0 < t) : ∃ high low shifted q rest,
      checkedShl 128 s 62 = some high ∧ checkedShl 128 (high % t) 64 = some low ∧
      checkedShl 128 (high / t) 64 = some shifted ∧ shifted ||| low / t = q ∧ low % t = rest ∧
      2 ^ 125 ≤ q ∧ q < 2 ^ 127 ∧ (q : ℝ) ≤ s * 2 ^ 126 / t ∧ (s : ℝ) * 2 ^ 126 / t < q + 1 ∧
      (decide (rest ≠ 0) = true ↔ (s : ℝ) * 2 ^ 126 / t ≠ q) := by
  have hpow : (2 : ℕ) ^ 126 = 2 ^ 62 * 2 ^ 64 := by norm_num
  obtain ⟨hquotient, hremainder⟩ := @divide_twice s t (2 ^ 62) (2 ^ 64) ht
  rw [← hpow] at hquotient hremainder
  -- the 128-bit numbers
  have hdividend : s * 2 ^ 62 < 2 ^ 128 := by
    calc s * 2 ^ 62 < 2 ^ 64 * 2 ^ 62 := Nat.mul_lt_mul_of_pos_right hhigh (by norm_num)
      _ ≤ 2 ^ 128 := by norm_num
  have hrest := Nat.mod_lt (s * 2 ^ 62) ht
  have hlowDividend : s * 2 ^ 62 % t * 2 ^ 64 < 2 ^ 128 := by
    calc s * 2 ^ 62 % t * 2 ^ 64 < 2 ^ 64 * 2 ^ 64 :=
          Nat.mul_lt_mul_of_pos_right (hrest.trans hhigh') (by norm_num)
      _ = 2 ^ 128 := by norm_num
  have hhighQuotient : s * 2 ^ 62 / t < 2 ^ 63 := by
    rw [Nat.div_lt_iff_lt_mul ht]
    calc s * 2 ^ 62 < 2 ^ 64 * 2 ^ 62 := Nat.mul_lt_mul_of_pos_right hhigh (by norm_num)
      _ = 2 ^ 63 * 2 ^ 63 := by norm_num
      _ ≤ 2 ^ 63 * t := Nat.mul_le_mul_left _ hlow'
  have hlowQuotient : s * 2 ^ 62 % t * 2 ^ 64 / t < 2 ^ 64 := by
    rw [Nat.div_lt_iff_lt_mul ht, Nat.mul_comm]
    exact Nat.mul_lt_mul_of_pos_left hrest (by norm_num)
  have hor : s * 2 ^ 62 / t * 2 ^ 64 ||| s * 2 ^ 62 % t * 2 ^ 64 / t = s * 2 ^ 126 / t := by
    rw [← hquotient, Nat.mul_comm (s * 2 ^ 62 / t), Nat.two_pow_add_eq_or_of_lt hlowQuotient]
  have hshifted : s * 2 ^ 62 / t * 2 ^ 64 < 2 ^ 128 := by
    calc s * 2 ^ 62 / t * 2 ^ 64 < 2 ^ 63 * 2 ^ 64 :=
          Nat.mul_lt_mul_of_pos_right hhighQuotient (by norm_num)
      _ ≤ 2 ^ 128 := by norm_num
  -- the quotient
  have hqlow : 2 ^ 125 ≤ s * 2 ^ 126 / t := by
    rw [Nat.le_div_iff_mul_le ht]
    calc 2 ^ 125 * t ≤ 2 ^ 125 * 2 ^ 64 := Nat.mul_le_mul_left _ hhigh'.le
      _ = 2 ^ 63 * 2 ^ 126 := by norm_num
      _ ≤ s * 2 ^ 126 := Nat.mul_le_mul_right _ hlow
  have hqhigh : s * 2 ^ 126 / t < 2 ^ 127 := by
    rw [Nat.div_lt_iff_lt_mul ht]
    calc s * 2 ^ 126 < 2 ^ 64 * 2 ^ 126 := Nat.mul_lt_mul_of_pos_right hhigh (by norm_num)
      _ = 2 ^ 127 * 2 ^ 63 := by norm_num
      _ ≤ 2 ^ 127 * t := Nat.mul_le_mul_left _ hlow'
  have hcast : ((s * 2 ^ 126 : ℕ) : ℝ) = s * 2 ^ 126 := by
    rw [Nat.cast_mul, Nat.cast_pow, Nat.cast_ofNat]
  have hbounds := @quotient_bounds (s * 2 ^ 126) t ht
  rw [hcast] at hbounds
  exact ⟨_, _, _, _, _, checkedShl_of_lt (by norm_num) hdividend,
    checkedShl_of_lt (by norm_num) hlowDividend, checkedShl_of_lt (by norm_num) hshifted, hor,
    hremainder, hqlow, hqhigh, hbounds⟩

lemma divFinite_delivers {a b : Fp80} (ha : a.Operand) (hb : b.Operand) (rc : RoundingMode)
    (pc : Precision) (ef : ExceptionFlags) :
    ∃ r ef', a.divFinite b rc pc ef = some (r, ef') ∧
      Delivers rc pc (a.toReal / b.toReal) ef r ef' := by
  obtain ⟨s, e, hcomponents, -, hlow, hhigh, hmagnitude⟩ := ha.components
  obtain ⟨t, f, hcomponents', -, hlow', hhigh', hmagnitude'⟩ := hb.components
  have ht : 0 < t := by omega
  obtain ⟨high, low, shifted, q, rest, hdividend, hlowDividend, hshifted, hor, hremainder, hqlow,
    hqhigh, hle, hlt, hsticky⟩ := divide_numbers hlow hhigh hlow' hhigh' ht
  have hexact : a.toReal / b.toReal =
      signed (a.sign ^^ b.sign) ((s : ℝ) * 2 ^ 126 / t * 2 ^ (e - f + 1 - 127)) := by
    have he : (2 : ℝ) ^ (e - 63) = 2 ^ 126 * 2 ^ (e - f + 1 - 127) * 2 ^ (f - 63) := by
      rw [← zpow_natCast, ← zpow_add₀ two_ne_zero, ← zpow_add₀ two_ne_zero]
      congr 1
      push_cast
      ring
    have hf : (2 : ℝ) ^ (f - 63) ≠ 0 := (zpow_pos two_pos _).ne'
    unfold Fp80.toReal
    rw [signed_div_signed, hmagnitude, hmagnitude', he, ← mul_assoc, ← mul_assoc,
      mul_div_mul_right _ _ hf, mul_div_right_comm]
  have hzeros := leadingZeros_le hqlow
  have hpos : 0 < q := hqlow.trans_lt' (by norm_num)
  have hq : q < 2 ^ 128 := hqhigh.trans (by norm_num)
  obtain ⟨-, hshl⟩ := shl_leadingZeros hpos hq
  have hrounds := @rounds_sticky q _ (e - f + 1) (a.sign ^^ b.sign) _ hpos hqhigh hle hlt hsticky
    (hzeros.trans (by norm_num))
  unfold Fp80.divFinite
  rw [hcomponents, hcomponents', hexact]
  have hdiv : ∀ m, checkedDiv m t = some (m / t) := fun m => if_neg ht.ne'
  simp only [bind_of_eq_some hdividend, bind_of_eq_some hlowDividend, bind_of_eq_some hshifted,
    bind_of_eq_some (hdiv _), hor, hremainder,
    bind_of_eq_some (checkedShl_of_lt (leadingZeros_lt hpos hq) hshl)]
  exact hrounds.roundAndPack rc pc ef

end Neetan.SoftFloat
