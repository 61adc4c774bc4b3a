import Neetan.Fp80Narrowing

/-!
What was widened from a single or a double number is narrowed to it again.

A widened number has its integer bit set, also when it was a denormal; narrowing shifts the bits
back without losing one.
-/

namespace Neetan.SoftFloat

open MachineInt RealRounding

namespace Fp80

variable {a : Fp80} {fmt : BinaryFormat}

/-! ### Exact Bits -/

lemma roundBits_exact {sign : Bool} {m p : ℕ} (hp : p ≤ 64) (hm : m < 2 ^ p) (rc : RoundingMode) :
    roundBits sign (m * 2 ^ (128 - p)) p rc = some (m, false, false) := by
  have hlt : m * 2 ^ (128 - p) < 2 ^ 128 := by
    calc m * 2 ^ (128 - p) < 2 ^ p * 2 ^ (128 - p) :=
          Nat.mul_lt_mul_of_pos_right hm (Nat.two_pow_pos _)
      _ = 2 ^ 128 := by rw [← pow_add, Nat.add_sub_cancel' (hp.trans (by norm_num))]
  have hnone : increments sign rc m 0 (2 ^ (127 - p)) = false := by
    unfold increments
    rfl
  rw [roundBits_eq hlt hp, Nat.mul_div_cancel _ (Nat.two_pow_pos _), Nat.mul_mod_left, hnone]
  rfl

lemma roundToFormat_exact {sign : Bool} {m p : ℕ} {biased maxBiased : ℤ} (hp : p ≤ 64)
    (hm : m < 2 ^ p) (hlow : 1 ≤ biased) (hhigh : biased < maxBiased) (rc : RoundingMode)
    (ef : ExceptionFlags) :
    roundToFormat sign biased (m * 2 ^ (128 - p)) p maxBiased rc ef =
      some (.finite biased m, ef) := by
  have hcarry : m >>> p = 0 := by
    rw [Nat.shiftRight_eq_div_pow, Nat.div_eq_of_lt hm]
  unfold roundToFormat
  rw [if_pos hlow, roundBits_exact hp hm]
  simp only [Option.bind_eq_bind, Option.bind_some, hcarry, ne_eq, not_true_eq_false, decide_false,
    Bool.false_eq_true, if_false, if_neg (not_le.2 hhigh), Bool.or_false]
  rfl

lemma shiftRightSticky_exact {m s : ℕ} (hs : s < 128) : shiftRightSticky (m * 2 ^ s) s = m := by
  unfold shiftRightSticky
  by_cases h0 : s = 0
  · rw [if_pos h0, h0, pow_zero, Nat.mul_one]
  · rw [if_neg h0, if_neg (not_le.2 hs), Nat.shiftRight_eq_div_pow,
      Nat.mul_div_cancel _ (Nat.two_pow_pos s), Nat.one_shiftLeft, Nat.and_two_pow_sub_one_eq_mod,
      Nat.mul_mod_left]
    exact Nat.or_zero m

lemma roundToFormat_gradual {sign : Bool} {m p s : ℕ} {biased maxBiased : ℤ} (hp : p ≤ 64)
    (hm : m < 2 ^ (p - 1)) (hs : s < 128) (hlow : biased = 1 - s)
    (hspos : 1 ≤ s) (hwide : m * 2 ^ (128 - p) * 2 ^ s < 2 ^ 128) (rc : RoundingMode)
    (ef : ExceptionFlags) : ∃ tiny,
    roundToFormat sign biased (m * 2 ^ (128 - p) * 2 ^ s) p maxBiased rc ef =
      some (.finite 0 m, ef.gradual tiny false false) := by
  have hm' : m < 2 ^ p := hm.trans_le (Nat.pow_le_pow_right two_pos (Nat.sub_le _ _))
  obtain ⟨tiny, htiny⟩ : ∃ tiny,
      roundsTiny sign biased (m * 2 ^ (128 - p) * 2 ^ s) p rc = some tiny := by
    unfold roundsTiny
    split_ifs
    · exact ⟨_, rfl⟩
    · rw [roundBits_eq hwide hp]
      exact ⟨_, rfl⟩
  have hshift : (1 - biased).toNat = s := by omega
  have hfield : m >>> (p - 1) = 0 := by
    rw [Nat.shiftRight_eq_div_pow, Nat.div_eq_of_lt hm]
  refine ⟨tiny, ?_⟩
  unfold roundToFormat
  rw [if_neg (by omega), htiny, hshift, shiftRightSticky_exact hs]
  simp only [Option.bind_eq_bind, Option.bind_some, roundBits_exact hp hm', hfield, ne_eq,
    not_true_eq_false, if_false]
  rfl

/-! ### Widening and Narrowing -/

/-- The flags that narrowing back leaves as they are. -/
def KeepsFlags (ef ef' : ExceptionFlags) : Prop :=
  ef'.precision = ef.precision ∧ ef'.overflow = ef.overflow ∧ ef'.underflow = ef.underflow

/-- What is widened from these bits is narrowed to them again, without an exception. -/
def NarrowsBack (fmt : BinaryFormat) (rc : RoundingMode) (ef : ExceptionFlags) (bits : ℕ) : Prop :=
  ∃ ef', (fromBinary fmt bits ef).1.toBinary fmt rc (fromBinary fmt bits ef).2 = some (bits, ef') ∧
    KeepsFlags ef ef'

/-- The bits are those of a signalling NaN. -/
def IsSignaling (fmt : BinaryFormat) (bits : ℕ) : Prop :=
  fmt.field bits = fmt.allOnes ∧ fmt.fraction bits ≠ 0 ∧
    fmt.fraction bits < 2 ^ (fmt.fractionBits - 1)

section

variable {bits : ℕ} {ef : ExceptionFlags}

lemma fromBinary_fields (fmt : BinaryFormat) (bits : ℕ) :
    decide (bits >>> (fmt.exponentBits + fmt.fractionBits) ≠ 0) = fmt.sign bits ∧
      (bits >>> fmt.fractionBits) &&& fmt.allOnes = fmt.field bits ∧
      bits &&& fmt.fractionMask = fmt.fraction bits := by
  rw [Nat.shiftRight_eq_div_pow, Nat.shiftRight_eq_div_pow, BinaryFormat.and_allOnes,
    BinaryFormat.and_fractionMask]
  exact ⟨rfl, rfl, rfl⟩

lemma packed_eq (sign : Bool) (n kept : ℕ) : packed sign (n : ℕ) kept 64 =
    fromBits (signBit sign ||| BitVec.ofInt 16 n) (BitVec.ofNat 64 kept) := by
  unfold packed
  rw [Nat.sub_self, BitVec.shiftLeft_zero]

lemma fromBinary_normal (h : fmt.Standard) (hpos : fmt.field bits ≠ 0)
    (hlt : fmt.field bits ≠ fmt.allOnes) : ∃ n : ℕ, (n : ℤ) = fmt.field bits + 16383 - fmt.bias ∧
      1 ≤ n ∧ n < 0x7FFF ∧ fromBinary fmt bits ef =
        (packed (fmt.sign bits) (n : ℕ)
          ((2 ^ fmt.fractionBits + fmt.fraction bits) * 2 ^ (63 - fmt.fractionBits)) 64, ef) := by
  obtain ⟨hsign, hfield, hfraction⟩ := fromBinary_fields fmt bits
  have hones := fmt.allOnes_succ
  have hle : fmt.field bits < 2 ^ fmt.exponentBits := Nat.mod_lt _ (Nat.two_pow_pos _)
  have hbias := h.allOnes_eq
  have hcontained := h.contained
  have hrange := h.range
  obtain ⟨n, hn⟩ := Int.eq_ofNat_of_zero_le
    (show 0 ≤ (fmt.field bits : ℤ) + 16383 - fmt.bias by omega)
  have hsplit : 2 ^ 63 = 2 ^ fmt.fractionBits * 2 ^ (63 - fmt.fractionBits) := by
    rw [← pow_add, Nat.add_sub_cancel' (h.fraction_le.trans (by norm_num))]
  have hfr : fmt.fraction bits * 2 ^ (63 - fmt.fractionBits) < 2 ^ 63 := by
    rw [hsplit]
    exact Nat.mul_lt_mul_of_pos_right (fmt.fraction_lt bits) (Nat.two_pow_pos _)
  have hbits : 1 <<< 63 ||| fmt.fraction bits <<< (63 - fmt.fractionBits) =
      (2 ^ fmt.fractionBits + fmt.fraction bits) * 2 ^ (63 - fmt.fractionBits) := by
    have hor := Nat.two_pow_add_eq_or_of_lt hfr 1
    rw [Nat.mul_one] at hor
    rw [Nat.one_shiftLeft, Nat.shiftLeft_eq, ← hor, hsplit, ← Nat.add_mul]
  refine ⟨n, hn.symm, by omega, by omega, ?_⟩
  unfold fromBinary
  rw [hsign, hfield, hfraction]
  dsimp only
  rw [if_neg hlt, if_neg hpos, hbits, hn, packed_eq]

lemma fromBinary_denormal (h : fmt.Standard) (hzero : fmt.field bits = 0)
    (hne : fmt.fraction bits ≠ 0) : ∃ n : ℕ,
      (n : ℤ) = 1 - fmt.bias - fmt.fractionBits + 16383 + 63 - leadingZeros 64 (fmt.fraction bits) ∧
      1 ≤ n ∧ n < 0x7FFF ∧ fromBinary fmt bits ef =
        (packed (fmt.sign bits) (n : ℕ)
          (fmt.fraction bits * 2 ^ leadingZeros 64 (fmt.fraction bits)) 64,
          { ef with denormal := true }) := by
  obtain ⟨hsign, hfield, hfraction⟩ := fromBinary_fields fmt bits
  have hones : fmt.field bits ≠ fmt.allOnes := by
    have := h.allOnes_eq
    have := h.range
    omega
  have hcontained := h.contained
  have hrange := h.range
  have hlt := leadingZeros_lt (Nat.pos_of_ne_zero hne)
    ((fmt.fraction_lt bits).trans_le
      (Nat.pow_le_pow_right two_pos (h.fraction_le.trans (by norm_num : 62 ≤ 64))))
  obtain ⟨n, hn⟩ := Int.eq_ofNat_of_zero_le
    (show 0 ≤ 1 - fmt.bias - (fmt.fractionBits : ℤ) + 16383 + 63 -
      leadingZeros 64 (fmt.fraction bits) by omega)
  refine ⟨n, hn.symm, by omega, by omega, ?_⟩
  unfold fromBinary
  rw [hsign, hfield, hfraction]
  dsimp only
  rw [if_neg hones, if_pos hzero, if_neg hne, hn, Nat.shiftLeft_eq, packed_eq]

lemma widened_operand {sign : Bool} {n kept : ℕ} (hn : 1 ≤ n) (hn' : n < 0x7FFF)
    (hlow : 2 ^ 63 ≤ kept) (hhigh : kept < 2 ^ 64) {a : Fp80}
    (ha : packed sign (n : ℕ) kept 64 = a) :
    a.Operand ∧ a.sign = sign ∧ a.trueExponent = n - bias ∧
      normalizeSignificand a.significand.toNat = (kept, 0) := by
  have hexponent := @packed_exponent sign n kept 64 (by omega)
  have hsignificand := @packed_significand sign n kept 64 le_rfl hhigh
  rw [Nat.sub_self, pow_zero, Nat.mul_one] at hsignificand
  have hfinite := finite_of_bits (hexponent.trans_lt hn') (hsignificand.ge.trans' hlow) (by omega)
  have hzero : (packed sign (n : ℕ) kept 64).isZero ≠ true := fun hz => by
    rw [(isZero_iff.1 hz).1] at hexponent
    omega
  have hleading : leadingZeros 64 kept = 0 := by
    have hsize : 63 < kept.size := Nat.lt_size.mpr hlow
    unfold leadingZeros
    omega
  subst ha
  refine ⟨hfinite.cases.resolve_left hzero, packed_sign (by omega), ?_, ?_⟩
  · unfold trueExponent
    rw [hexponent, if_neg (by omega)]
  · unfold normalizeSignificand
    rw [hsignificand, if_neg (by omega), hleading]
    dsimp only
    rw [pow_zero, Nat.mul_one, Nat.mod_eq_of_lt hhigh]

/-- The narrowing of a widened finite number, when its bits are rounded to a known number. -/
lemma narrowsBack_of_round {a : Fp80} (ha : a.Operand) {kept wide : ℕ} {b fr : ℕ}
    (hnormalize : normalizeSignificand a.significand.toNat = (kept, 0))
    (hwide : checkedShl 128 kept 64 = some wide) (hb : b < 2 ^ fmt.exponentBits)
    {k : ℕ} (hk : k % 2 ^ fmt.fractionBits = fr) {rc : RoundingMode} {ef₀ ef ef' : ExceptionFlags}
    (hround : roundToFormat a.sign (a.trueExponent + fmt.bias) wide (fmt.fractionBits + 1)
      fmt.allOnes rc (a.flagDenormal ef) = some (.finite b k, ef')) (hkeeps : KeepsFlags ef₀ ef') :
    ∃ ef', a.toBinary fmt rc ef = some (fmt.joined a.sign b fr, ef') ∧ KeepsFlags ef₀ ef' := by
  obtain ⟨hsupported, hnan, hinfinity, hzero⟩ := ha.plain
  have hfr : k % 2 ^ fmt.fractionBits < 2 ^ fmt.fractionBits := Nat.mod_lt _ (Nat.two_pow_pos _)
  refine ⟨ef', ?_, hkeeps⟩
  rw [toBinary_of_supported hsupported, narrow]
  simp only [hnan, hinfinity, hzero, Bool.false_eq_true, if_false]
  unfold roundToBinary
  rw [hnormalize]
  dsimp only
  rw [hwide, Option.bind_eq_bind, Option.bind_some, Nat.cast_zero, sub_zero, hround]
  change some (packBinary fmt a.sign (.finite b k), ef') = _
  unfold packBinary
  dsimp only
  rw [BinaryFormat.and_fractionMask, Int.toNat_natCast, BinaryFormat.or_eq_joined hb hfr, hk]

lemma keepsFlags_flagDenormal (a : Fp80) (ef : ExceptionFlags) :
    KeepsFlags ef (a.flagDenormal ef) := by
  obtain ⟨hprecision, -, hunderflow, hoverflow⟩ := a.flagDenormal_flags ef
  exact ⟨hprecision, hoverflow, hunderflow⟩

lemma keepsFlags_gradual {ef₀ : ExceptionFlags} (h : KeepsFlags ef₀ ef) (tiny : Bool) :
    KeepsFlags ef₀ (ef.gradual tiny false false) := h

lemma narrowsBack_normal (h : fmt.Standard) (hbits : bits < 2 ^ fmt.width)
    (hpos : fmt.field bits ≠ 0) (hlt : fmt.field bits ≠ fmt.allOnes) (rc : RoundingMode)
    (ef : ExceptionFlags) : NarrowsBack fmt rc ef bits := by
  obtain ⟨n, hn, hn1, hn2, hwiden⟩ := @fromBinary_normal fmt bits ef h hpos hlt
  have hones := fmt.allOnes_succ
  have hfield : fmt.field bits < 2 ^ fmt.exponentBits := Nat.mod_lt _ (Nat.two_pow_pos _)
  have hfraction := fmt.fraction_lt bits
  have hle := h.fraction_le
  have hsplit : 2 ^ 63 = 2 ^ fmt.fractionBits * 2 ^ (63 - fmt.fractionBits) := by
    rw [← pow_add, Nat.add_sub_cancel' (hle.trans (by norm_num))]
  have hm : 2 ^ fmt.fractionBits + fmt.fraction bits < 2 ^ (fmt.fractionBits + 1) := by
    rw [pow_succ]
    omega
  have hlow : 2 ^ 63 ≤
      (2 ^ fmt.fractionBits + fmt.fraction bits) * 2 ^ (63 - fmt.fractionBits) := by
    rw [hsplit]
    exact Nat.mul_le_mul_right _ (Nat.le_add_right _ _)
  have hhigh :
      (2 ^ fmt.fractionBits + fmt.fraction bits) * 2 ^ (63 - fmt.fractionBits) < 2 ^ 64 := by
    calc (2 ^ fmt.fractionBits + fmt.fraction bits) * 2 ^ (63 - fmt.fractionBits)
        < 2 ^ (fmt.fractionBits + 1) * 2 ^ (63 - fmt.fractionBits) :=
          Nat.mul_lt_mul_of_pos_right hm (Nat.two_pow_pos _)
      _ = 2 ^ 64 := by
        rw [← pow_add]
        congr 1
        omega
  generalize ha : packed (fmt.sign bits) (n : ℕ)
    ((2 ^ fmt.fractionBits + fmt.fraction bits) * 2 ^ (63 - fmt.fractionBits)) 64 = a at hwiden
  obtain ⟨hoperand, hsign, hexponent, hnormalize⟩ := widened_operand hn1 hn2 hlow hhigh ha
  have hwide : checkedShl 128
      ((2 ^ fmt.fractionBits + fmt.fraction bits) * 2 ^ (63 - fmt.fractionBits)) 64 =
        some ((2 ^ fmt.fractionBits + fmt.fraction bits) * 2 ^ (128 - (fmt.fractionBits + 1))) := by
    have hexp : 63 - fmt.fractionBits + 64 = 128 - (fmt.fractionBits + 1) := by omega
    rw [checkedShl_of_lt (by norm_num), Nat.mul_assoc, ← pow_add, hexp]
    calc _ < 2 ^ 64 * 2 ^ 64 := Nat.mul_lt_mul_of_pos_right hhigh (Nat.two_pow_pos 64)
      _ = 2 ^ 128 := by norm_num
  have hbiased : a.trueExponent + fmt.bias = (fmt.field bits : ℕ) := by
    rw [hexponent, hn]
    unfold bias
    ring
  have hround := @roundToFormat_exact a.sign _ _ (fmt.field bits : ℤ) fmt.allOnes
    (show fmt.fractionBits + 1 ≤ 64 by omega) hm (by omega) (by omega) rc (a.flagDenormal ef)
  have hrest : (2 ^ fmt.fractionBits + fmt.fraction bits) % 2 ^ fmt.fractionBits =
      fmt.fraction bits := by
    rw [Nat.add_mod_left, Nat.mod_eq_of_lt hfraction]
  unfold NarrowsBack
  rw [hwiden]
  have hback := narrowsBack_of_round hoperand hnormalize hwide hfield hrest
    (by rw [hbiased]; exact hround) (keepsFlags_flagDenormal a ef)
  rw [hsign, BinaryFormat.joined_fields hbits] at hback
  exact hback

lemma narrowsBack_denormal (h : fmt.Standard) (hbits : bits < 2 ^ fmt.width)
    (hzero : fmt.field bits = 0) (hne : fmt.fraction bits ≠ 0) (rc : RoundingMode)
    (ef : ExceptionFlags) : NarrowsBack fmt rc ef bits := by
  obtain ⟨n, hn, hn1, hn2, hwiden⟩ := @fromBinary_denormal fmt bits ef h hzero hne
  have hfraction := fmt.fraction_lt bits
  have hle := h.fraction_le
  have hpos := Nat.pos_of_ne_zero hne
  have hlt : fmt.fraction bits < 2 ^ 64 :=
    hfraction.trans_le (Nat.pow_le_pow_right two_pos (hle.trans (by norm_num)))
  obtain ⟨hlow, hhigh⟩ := shl_leadingZeros hpos hlt
  have hzeros := leadingZeros_lt hpos hlt
  have hzeros' : 64 - fmt.fractionBits ≤ leadingZeros 64 (fmt.fraction bits) := by
    have hsize := Nat.size_le.mpr hfraction
    unfold leadingZeros
    omega
  generalize leadingZeros 64 (fmt.fraction bits) = leading at *
  generalize ha : packed (fmt.sign bits) (n : ℕ) (fmt.fraction bits * 2 ^ leading) 64 = a at hwiden
  obtain ⟨hoperand, hsign, hexponent, hnormalize⟩ := widened_operand hn1 hn2 hlow hhigh ha
  -- the shift that brings the bits back
  obtain ⟨s, hs⟩ : ∃ s, leading + fmt.fractionBits = s + 63 :=
    ⟨leading + fmt.fractionBits - 63, by omega⟩
  have hexp : leading + 64 = 128 - (fmt.fractionBits + 1) + s := by omega
  have hvalue : fmt.fraction bits * 2 ^ leading * 2 ^ 64 =
      fmt.fraction bits * 2 ^ (128 - (fmt.fractionBits + 1)) * 2 ^ s := by
    rw [Nat.mul_assoc, Nat.mul_assoc, ← pow_add, ← pow_add, hexp]
  have hbound : fmt.fraction bits * 2 ^ leading * 2 ^ 64 < 2 ^ 128 := by
    calc _ < 2 ^ 64 * 2 ^ 64 := Nat.mul_lt_mul_of_pos_right hhigh (Nat.two_pow_pos 64)
      _ = 2 ^ 128 := by norm_num
  have hwide := checkedShl_of_lt (show 64 < 128 by norm_num) hbound
  rw [hvalue] at hwide hbound
  have hbiased : a.trueExponent + fmt.bias = 1 - (s : ℤ) := by
    rw [hexponent, hn]
    unfold bias
    omega
  obtain ⟨tiny, hround⟩ := @roundToFormat_gradual a.sign (fmt.fraction bits)
    (fmt.fractionBits + 1) s _ fmt.allOnes (by omega) hfraction (by omega) hbiased (by omega) hbound
    rc
    (a.flagDenormal { ef with denormal := true })
  have hkeeps := keepsFlags_gradual
    (keepsFlags_flagDenormal a { ef with denormal := true }) tiny
  have hback := @narrowsBack_of_round fmt a hoperand _ _ 0 _ hnormalize hwide (Nat.two_pow_pos _) _
    (Nat.mod_eq_of_lt hfraction) rc ef _ _ hround hkeeps
  have hjoined := BinaryFormat.joined_fields hbits
  rw [hzero] at hjoined
  rw [hsign, hjoined] at hback
  unfold NarrowsBack
  rw [hwiden]
  exact hback

/-! ### Special Values -/

lemma special_fields (sign : Bool) (significand : BitVec 64) :
    (fromBits (signBit sign ||| 0x7FFF) significand).sign = sign ∧
      (fromBits (signBit sign ||| 0x7FFF) significand).exponent = 0x7FFF := by
  have hsign : ∀ s, decide ((signBit s ||| 0x7FFF : BitVec 16) &&& 0x8000 ≠ 0) = s := by decide
  have hexponent : ∀ s, ((signBit s ||| 0x7FFF : BitVec 16) &&& 0x7FFF).toNat = 0x7FFF := by decide
  exact ⟨hsign sign, hexponent sign⟩

/-- With the largest exponent field and its integer bit an encoding is supported. -/
lemma special_supported (hexp : a.exponent = 0x7FFF) (hj : 2 ^ 63 ≤ a.significand.toNat) :
    a.isUnsupported = false := by
  have hbit : a.jBit = true := by
    rw [jBit_eq, decide_eq_true hj]
  unfold isUnsupported isUnnormal
  rw [hbit, hexp]
  rfl

lemma narrowsBack_infinity (hbits : bits < 2 ^ fmt.width) (hones : fmt.field bits = fmt.allOnes)
    (hzero : fmt.fraction bits = 0) (rc : RoundingMode) (ef : ExceptionFlags) :
    NarrowsBack fmt rc ef bits := by
  obtain ⟨hsign, hfield, hfraction⟩ := fromBinary_fields fmt bits
  have hwiden : fromBinary fmt bits ef =
      (fromBits (signBit (fmt.sign bits) ||| 0x7FFF) 0x8000000000000000, ef) := by
    unfold fromBinary
    rw [hsign, hfield, hfraction]
    dsimp only
    rw [if_pos hones, if_pos hzero]
  generalize ha : fromBits (signBit (fmt.sign bits) ||| 0x7FFF) 0x8000000000000000 = a at hwiden
  obtain ⟨hs, hexp⟩ := special_fields (fmt.sign bits) 0x8000000000000000
  rw [ha] at hs hexp
  have hsig : a.significand = 0x8000000000000000 := ha ▸ rfl
  have hinfinity : a.isInfinity = true := isInfinity_iff.2 ⟨hexp, hsig⟩
  obtain ⟨hsupported, hnan⟩ := numeric_of_isInfinity hinfinity
  have hjoined := BinaryFormat.joined_fields hbits
  rw [hones, hzero, ← BinaryFormat.or_eq_joined (by have := fmt.allOnes_succ; omega)
    (Nat.two_pow_pos _), Nat.or_zero] at hjoined
  refine ⟨ef, ?_, rfl, rfl, rfl⟩
  rw [hwiden, toBinary_of_supported hsupported, narrow]
  simp only [hnan, hinfinity, Bool.false_eq_true, if_false, if_true]
  rw [hs, hjoined]

lemma narrowsBack_zero (h : fmt.Standard) (hbits : bits < 2 ^ fmt.width)
    (hfield : fmt.field bits = 0) (hzero : fmt.fraction bits = 0) (rc : RoundingMode)
    (ef : ExceptionFlags) : NarrowsBack fmt rc ef bits := by
  obtain ⟨hsign, hfield', hfraction⟩ := fromBinary_fields fmt bits
  have hones : fmt.field bits ≠ fmt.allOnes := by
    have := h.allOnes_eq
    have := h.range
    omega
  have hwiden : fromBinary fmt bits ef = (fromBits (signBit (fmt.sign bits)) 0, ef) := by
    unfold fromBinary
    rw [hsign, hfield', hfraction]
    dsimp only
    rw [if_neg hones, if_pos hfield, if_pos hzero]
  generalize ha : fromBits (signBit (fmt.sign bits)) 0 = a at hwiden
  have hs : a.sign = fmt.sign bits ∧ a.isZero = true := by
    rw [← ha]
    cases fmt.sign bits <;> exact ⟨rfl, rfl⟩
  obtain ⟨⟨hsupported, hnan⟩, hinfinity⟩ := finite_of_isZero hs.2
  have hjoined := BinaryFormat.joined_fields hbits
  rw [hfield, hzero, ← BinaryFormat.or_eq_joined (Nat.two_pow_pos _) (Nat.two_pow_pos _),
    Nat.zero_shiftLeft, Nat.or_zero, Nat.or_zero] at hjoined
  refine ⟨ef, ?_, rfl, rfl, rfl⟩
  rw [hwiden, toBinary_of_supported hsupported, narrow]
  simp only [hnan, hinfinity, hs.2, Bool.false_eq_true, if_false, if_true]
  rw [hs.1, hjoined]

lemma quiet_bits {f r q : ℕ} (hf : 1 ≤ f) (hf' : f ≤ 62) (hq : q < 2 ^ (f - 1))
    (hr : r = 2 ^ (f - 1) + q) :
    0x8000000000000000 ||| 1 <<< 62 ||| r <<< (63 - f) = 2 ^ 63 + (2 ^ 62 + q * 2 ^ (63 - f)) ∧
      q * 2 ^ (63 - f) < 2 ^ 62 := by
  have hsplit : 2 ^ 62 = 2 ^ (f - 1) * 2 ^ (63 - f) := by
    rw [← pow_add]
    congr 1
    omega
  have hlow : q * 2 ^ (63 - f) < 2 ^ 62 := by
    rw [hsplit]
    exact Nat.mul_lt_mul_of_pos_right hq (Nat.two_pow_pos _)
  have hor := Nat.two_pow_add_eq_or_of_lt hlow 1
  rw [Nat.mul_one] at hor
  have hor' := @Nat.two_pow_add_eq_or_of_lt 63 (2 ^ 62 + q * 2 ^ (63 - f)) (by omega) 1
  rw [Nat.mul_one] at hor'
  refine ⟨?_, hlow⟩
  rw [hr, Nat.one_shiftLeft, Nat.shiftLeft_eq, Nat.add_mul, ← hsplit, hor', hor, Nat.lor_assoc,
    ← Nat.lor_assoc (2 ^ 62), Nat.or_self]

lemma narrowsBack_nan (h : fmt.Standard) (hbits : bits < 2 ^ fmt.width)
    (hones : fmt.field bits = fmt.allOnes) (hne : fmt.fraction bits ≠ 0)
    (hquiet : ¬ fmt.fraction bits < 2 ^ (fmt.fractionBits - 1)) (rc : RoundingMode)
    (ef : ExceptionFlags) : NarrowsBack fmt rc ef bits := by
  obtain ⟨hsign, hfield, hfraction⟩ := fromBinary_fields fmt bits
  have hf := h.fraction_pos
  have hf' := h.fraction_le
  have hlt := fmt.fraction_lt bits
  have hpow : 2 ^ fmt.fractionBits = 2 ^ (fmt.fractionBits - 1) * 2 := by
    rw [← pow_succ, Nat.sub_add_cancel hf]
  obtain ⟨q, hq⟩ := Nat.exists_eq_add_of_le (not_lt.1 hquiet)
  have hqlt : q < 2 ^ (fmt.fractionBits - 1) := by omega
  obtain ⟨hsignificand, hlow⟩ := quiet_bits hf hf' hqlt hq
  generalize hr : q * 2 ^ (63 - fmt.fractionBits) = r at *
  have hwiden : ∃ ef', fromBinary fmt bits ef =
      (fromBits (signBit (fmt.sign bits) ||| 0x7FFF)
        (BitVec.ofNat 64 (2 ^ 63 + (2 ^ 62 + r))), ef') ∧
        KeepsFlags ef ef' := by
    unfold fromBinary
    rw [hsign, hfield, hfraction]
    dsimp only
    rw [if_pos hones, if_neg hne, hsignificand]
    refine ⟨_, rfl, ?_⟩
    split_ifs <;> exact ⟨rfl, rfl, rfl⟩
  obtain ⟨ef', hwiden, hkeeps⟩ := hwiden
  generalize ha : fromBits (signBit (fmt.sign bits) ||| 0x7FFF)
    (BitVec.ofNat 64 (2 ^ 63 + (2 ^ 62 + r))) = a at hwiden
  obtain ⟨hs, hexp⟩ := special_fields (fmt.sign bits) (BitVec.ofNat 64 (2 ^ 63 + (2 ^ 62 + r)))
  rw [ha] at hs hexp
  have hsig : a.significand.toNat = 2 ^ 63 + (2 ^ 62 + r) := by
    rw [← ha]
    change (BitVec.ofNat 64 (2 ^ 63 + (2 ^ 62 + r))).toNat = _
    rw [BitVec.toNat_ofNat, Nat.mod_eq_of_lt (by omega)]
  have hsupported := special_supported hexp (by omega)
  have hnan : a.isNan = true := by
    have hbits' : a.significand &&& 0x7FFFFFFFFFFFFFFF ≠ 0 := fun hzero => by
      have hnat := congrArg BitVec.toNat hzero
      rw [BitVec.toNat_and] at hnat
      change a.significand.toNat &&& (2 ^ 63 - 1) = 0 at hnat
      rw [Nat.and_two_pow_sub_one_eq_mod] at hnat
      omega
    unfold isNan
    rw [hexp, decide_eq_true hbits']
    rfl
  have hpayload : (a.significand &&& 0x3FFFFFFFFFFFFFFF).toNat >>> (63 - fmt.fractionBits) = q := by
    rw [BitVec.toNat_and]
    change (a.significand.toNat &&& (2 ^ 62 - 1)) >>> _ = q
    have hmod : a.significand.toNat % 2 ^ 62 = r := by omega
    rw [Nat.and_two_pow_sub_one_eq_mod, hmod, ← hr, Nat.shiftRight_eq_div_pow,
      Nat.mul_div_cancel _ (Nat.two_pow_pos _)]
  have hquiet' : q ||| 1 <<< (fmt.fractionBits - 1) = fmt.fraction bits := by
    have hor := Nat.two_pow_add_eq_or_of_lt hqlt 1
    rw [Nat.mul_one] at hor
    rw [Nat.one_shiftLeft, Nat.lor_comm, ← hor, hq]
  have hjoined := BinaryFormat.joined_fields hbits
  rw [hones, ← BinaryFormat.or_eq_joined (by have := fmt.allOnes_succ; omega) hlt] at hjoined
  refine ⟨if a.isSignalingNan then { ef' with invalid := true } else ef', ?_, ?_⟩
  · rw [hwiden]
    rw [toBinary_of_supported hsupported, narrow]
    simp only [hnan, if_true]
    rw [hpayload, hquiet', BinaryFormat.and_fractionMask, Nat.mod_eq_of_lt hlt, hs, hjoined]
  · split_ifs <;> exact hkeeps

/-- What is widened from any bits but those of a signalling NaN is narrowed to them. -/
lemma narrowsBack (h : fmt.Standard) (hbits : bits < 2 ^ fmt.width)
    (hquiet : ¬ IsSignaling fmt bits) (rc : RoundingMode) (ef : ExceptionFlags) :
    NarrowsBack fmt rc ef bits := by
  by_cases hones : fmt.field bits = fmt.allOnes
  · by_cases hzero : fmt.fraction bits = 0
    · exact narrowsBack_infinity hbits hones hzero rc ef
    · exact narrowsBack_nan h hbits hones hzero (fun hlt => hquiet ⟨hones, hzero, hlt⟩) rc ef
  · by_cases hfield : fmt.field bits = 0
    · by_cases hzero : fmt.fraction bits = 0
      · exact narrowsBack_zero h hbits hfield hzero rc ef
      · exact narrowsBack_denormal h hbits hfield hzero rc ef
    · exact narrowsBack_normal h hbits hfield hones rc ef

end

/-! ### Single and Double Numbers -/

/-- A single number is widened and narrowed back. -/
def RestoresF32 (v : BitVec 32) (rc : RoundingMode) (ef : ExceptionFlags) : Prop :=
  ∃ ef', (fromF32 v ef).1.toF32 rc (fromF32 v ef).2 = some (v, ef') ∧ KeepsFlags ef ef'

/-- A double number is widened and narrowed back. -/
def RestoresF64 (v : BitVec 64) (rc : RoundingMode) (ef : ExceptionFlags) : Prop :=
  ∃ ef', (fromF64 v ef).1.toF64 rc (fromF64 v ef).2 = some (v, ef') ∧ KeepsFlags ef ef'

/-- What single and double numbers a finite number is narrowed to. -/
structure NarrowsFinite (a : Fp80) (rc : RoundingMode) (ef : ExceptionFlags) : Prop where
  toF32 : ∃ v ef', a.toF32 rc ef = some (v, ef') ∧
    Narrows f32Format BinaryFormat.standard_f32 rc a ef v.toNat ef'
  toF64 : ∃ v ef', a.toF64 rc ef = some (v, ef') ∧
    Narrows f64Format BinaryFormat.standard_f64 rc a ef v.toNat ef'

/-- **Single and double numbers are widened exactly and narrowed with one rounding.** -/
theorem binary_converted (rc : RoundingMode) (ef : ExceptionFlags) :
    (∀ v : BitVec 32, ¬ IsSignaling f32Format v.toNat → RestoresF32 v rc ef) ∧
      (∀ v : BitVec 64, ¬ IsSignaling f64Format v.toNat → RestoresF64 v rc ef) ∧
        ∀ a : Fp80, a.Finite → NarrowsFinite a rc ef := by
  refine ⟨fun v hv => ?_, fun v hv => ?_, fun a ha => ⟨?_, ?_⟩⟩
  · obtain ⟨ef', hback, hkeeps⟩ := narrowsBack BinaryFormat.standard_f32 v.isLt hv rc ef
    refine ⟨ef', ?_, hkeeps⟩
    unfold fromF32 Fp80.toF32
    rw [hback, Option.bind_eq_bind, Option.bind_some]
    exact congrArg (fun w => some (w, ef'))
      ((BitVec.ofNat_toNat 32 v).trans (BitVec.setWidth_eq v))
  · obtain ⟨ef', hback, hkeeps⟩ := narrowsBack BinaryFormat.standard_f64 v.isLt hv rc ef
    refine ⟨ef', ?_, hkeeps⟩
    unfold fromF64 Fp80.toF64
    rw [hback, Option.bind_eq_bind, Option.bind_some]
    exact congrArg (fun w => some (w, ef'))
      ((BitVec.ofNat_toNat 64 v).trans (BitVec.setWidth_eq v))
  · obtain ⟨bits, ef', hbits, hnarrows⟩ := toBinary_narrows ha BinaryFormat.standard_f32 rc ef
    have hnat : (BitVec.ofNat 32 bits).toNat = bits := by
      rw [BitVec.toNat_ofNat]
      exact Nat.mod_eq_of_lt hnarrows.width
    refine ⟨BitVec.ofNat 32 bits, ef', ?_, by rw [hnat]; exact hnarrows⟩
    unfold Fp80.toF32
    rw [hbits]
    rfl
  · obtain ⟨bits, ef', hbits, hnarrows⟩ := toBinary_narrows ha BinaryFormat.standard_f64 rc ef
    have hnat : (BitVec.ofNat 64 bits).toNat = bits := by
      rw [BitVec.toNat_ofNat]
      exact Nat.mod_eq_of_lt hnarrows.width
    refine ⟨BitVec.ofNat 64 bits, ef', ?_, by rw [hnat]; exact hnarrows⟩
    unfold Fp80.toF64
    rw [hbits]
    rfl

theorem binary_converted_one :
    RestoresF32 0x3F800000 .nearestEven .default ∧
      RestoresF64 0x3FF0000000000000 .nearestEven .default ∧
        NarrowsFinite zero .nearestEven .default := by
  have hall := binary_converted .nearestEven .default
  refine ⟨hall.1 _ ?_, hall.2.1 _ ?_, hall.2.2 _ (finite_of_isZero (by decide))⟩
  · exact fun hsignaling => absurd hsignaling.1 (by decide)
  · exact fun hsignaling => absurd hsignaling.1 (by decide)

end Fp80

end Neetan.SoftFloat
