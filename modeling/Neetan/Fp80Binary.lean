import Neetan.Fp80Integers

/-!
Conversions between 80-bit numbers and the single and double formats.

The two formats differ in the widths of their fields and in their bias only. A number is narrowed
by rounding its value once: the bits of an encoding are its fields side by side, and those of a
rounded number stand for it.
-/

namespace Neetan.SoftFloat

open MachineInt

/-- The layout of an interchange format. -/
structure BinaryFormat where
  fractionBits : ℕ
  exponentBits : ℕ
  bias : ℤ
  deriving DecidableEq, Repr

def f32Format : BinaryFormat := ⟨23, 8, 127⟩
def f64Format : BinaryFormat := ⟨52, 11, 1023⟩

namespace BinaryFormat

/-- The number of bits of the format. -/
def width (fmt : BinaryFormat) : ℕ := fmt.exponentBits + fmt.fractionBits + 1

def allOnes (fmt : BinaryFormat) : ℕ := 1 <<< fmt.exponentBits - 1

def fractionMask (fmt : BinaryFormat) : ℕ := 1 <<< fmt.fractionBits - 1

def signBits (fmt : BinaryFormat) (sign : Bool) : ℕ :=
  sign.toNat <<< (fmt.exponentBits + fmt.fractionBits)

end BinaryFormat

namespace Fp80

/-- An exact widening of the bits of a number. -/
def fromBinary (fmt : BinaryFormat) (bits : ℕ) (ef : ExceptionFlags) : Fp80 × ExceptionFlags :=
  let sign : Bool := bits >>> (fmt.exponentBits + fmt.fractionBits) ≠ 0
  let biasedExp := (bits >>> fmt.fractionBits) &&& fmt.allOnes
  let fraction := bits &&& fmt.fractionMask
  if biasedExp = fmt.allOnes then
    if fraction = 0 then (fromBits (signBit sign ||| 0x7FFF) 0x8000000000000000, ef)
    else
      let isSignaling : Bool := fraction &&& (1 <<< (fmt.fractionBits - 1)) = 0
      let ef := if isSignaling then { ef with invalid := true } else ef
      let significand :=
        0x8000000000000000 ||| 1 <<< 62 ||| fraction <<< (63 - fmt.fractionBits)
      (fromBits (signBit sign ||| 0x7FFF) (BitVec.ofNat 64 significand), ef)
  else if biasedExp = 0 then
    if fraction = 0 then (fromBits (signBit sign) 0, ef)
    else
      let leading := leadingZeros 64 fraction
      let newExp := (1 - fmt.bias - fmt.fractionBits) + 16383 + 63 - leading
      (fromBits (signBit sign ||| BitVec.ofInt 16 newExp) (BitVec.ofNat 64 (fraction <<< leading)),
        { ef with denormal := true })
  else
    let newExp := (biasedExp : ℤ) + 16383 - fmt.bias
    let significand := 1 <<< 63 ||| fraction <<< (63 - fmt.fractionBits)
    (fromBits (signBit sign ||| BitVec.ofInt 16 newExp) (BitVec.ofNat 64 significand), ef)

def fromF32 (v : BitVec 32) (ef : ExceptionFlags) : Fp80 × ExceptionFlags :=
  fromBinary f32Format v.toNat ef

def fromF64 (v : BitVec 64) (ef : ExceptionFlags) : Fp80 × ExceptionFlags :=
  fromBinary f64Format v.toNat ef

/-- The encoding of a rounded number in a format. -/
def packBinary (fmt : BinaryFormat) (sign : Bool) : Rounded → ℕ
  | .finite biased significand =>
    fmt.signBits sign ||| biased.toNat <<< fmt.fractionBits ||| (significand &&& fmt.fractionMask)
  | .infinity => fmt.signBits sign ||| fmt.allOnes <<< fmt.fractionBits
  | .largestFinite =>
    fmt.signBits sign ||| (fmt.allOnes - 1) <<< fmt.fractionBits ||| fmt.fractionMask

/-- A finite number other than zero, rounded to a format. -/
def roundToBinary (a : Fp80) (fmt : BinaryFormat) (rc : RoundingMode) (ef : ExceptionFlags) :
    Option (ℕ × ExceptionFlags) := do
  let (significand, shift) := normalizeSignificand a.significand.toNat
  let biased := a.trueExponent - shift + fmt.bias
  let wide ← checkedShl 128 significand 64
  let (rounded, ef) ← roundToFormat a.sign biased wide (fmt.fractionBits + 1) fmt.allOnes rc ef
  return (packBinary fmt a.sign rounded, ef)

/-- The narrowing of a number in a supported encoding. -/
def narrow (a : Fp80) (fmt : BinaryFormat) (rc : RoundingMode) (ef : ExceptionFlags) :
    Option (ℕ × ExceptionFlags) :=
  let infinity := fmt.signBits a.sign ||| fmt.allOnes <<< fmt.fractionBits
  if a.isNan then
    let ef := if a.isSignalingNan then { ef with invalid := true } else ef
    let fraction := (a.significand &&& 0x3FFFFFFFFFFFFFFF).toNat
    let quiet := fraction >>> (63 - fmt.fractionBits) ||| 1 <<< (fmt.fractionBits - 1)
    some (infinity ||| (quiet &&& fmt.fractionMask), ef)
  else if a.isInfinity then some (infinity, ef)
  else if a.isZero then some (fmt.signBits a.sign, ef)
  else a.roundToBinary fmt rc (a.flagDenormal ef)

/-- The narrowing of a number; an unsupported encoding is narrowed as the indefinite value. -/
def toBinary (a : Fp80) (fmt : BinaryFormat) (rc : RoundingMode) (ef : ExceptionFlags) :
    Option (ℕ × ExceptionFlags) :=
  let (unsupported, ef) := flagUnsupportedOperands [a] ef
  if unsupported then indefinite.narrow fmt rc ef else a.narrow fmt rc ef

lemma toBinary_of_supported {a : Fp80} (h : a.isUnsupported = false) {fmt : BinaryFormat}
    {rc : RoundingMode} {ef : ExceptionFlags} : a.toBinary fmt rc ef = a.narrow fmt rc ef := by
  rw [toBinary, flagUnsupportedOperands_of_supported h]
  simp only [Bool.false_eq_true, if_false]

def toF32 (a : Fp80) (rc : RoundingMode) (ef : ExceptionFlags) :
    Option (BitVec 32 × ExceptionFlags) := do
  let (bits, ef) ← a.toBinary f32Format rc ef
  return (BitVec.ofNat 32 bits, ef)

def toF64 (a : Fp80) (rc : RoundingMode) (ef : ExceptionFlags) :
    Option (BitVec 64 × ExceptionFlags) := do
  let (bits, ef) ← a.toBinary f64Format rc ef
  return (BitVec.ofNat 64 bits, ef)

end Fp80

/-! ### Rounding -/

open RealRounding

namespace BinaryFormat

/-- The widths and the bias are those of an interchange format that the FPU's own one contains. -/
structure Standard (fmt : BinaryFormat) : Prop where
  fraction_pos : 1 ≤ fmt.fractionBits
  fraction_le : fmt.fractionBits ≤ 62
  exponent_pos : 1 ≤ fmt.exponentBits
  allOnes_eq : (fmt.allOnes : ℤ) = 2 * fmt.bias + 1
  range : (fmt.fractionBits : ℤ) + 1 ≤ 2 * fmt.bias
  contained : fmt.bias + fmt.fractionBits ≤ 16383

lemma standard_f32 : f32Format.Standard := by constructor <;> decide

lemma standard_f64 : f64Format.Standard := by constructor <;> decide

/-! ### Fields -/

/-- The sign of an encoding. -/
def sign (fmt : BinaryFormat) (bits : ℕ) : Bool :=
  bits / 2 ^ (fmt.exponentBits + fmt.fractionBits) ≠ 0

/-- The exponent field of an encoding. -/
def field (fmt : BinaryFormat) (bits : ℕ) : ℕ := bits / 2 ^ fmt.fractionBits % 2 ^ fmt.exponentBits

/-- The fraction of an encoding. -/
def fraction (fmt : BinaryFormat) (bits : ℕ) : ℕ := bits % 2 ^ fmt.fractionBits

/-- The significand of a finite number. -/
def significand (fmt : BinaryFormat) (bits : ℕ) : ℕ :=
  if fmt.field bits = 0 then fmt.fraction bits else 2 ^ fmt.fractionBits + fmt.fraction bits

/-- The encoding is no NaN: with the largest exponent field, the fraction is zero. -/
def IsNumber (fmt : BinaryFormat) (bits : ℕ) : Prop :=
  fmt.field bits = fmt.allOnes → fmt.fraction bits = 0

/-- The size of an encoding that is no NaN. -/
noncomputable def size (fmt : BinaryFormat) (bits : ℕ) : EReal :=
  if fmt.field bits = fmt.allOnes then ⊤
  else ((fmt.significand bits *
    2 ^ (max (fmt.field bits : ℤ) 1 - fmt.bias - fmt.fractionBits) : ℝ) : EReal)

/-- The number of an encoding that is no NaN. -/
noncomputable def value (fmt : BinaryFormat) (bits : ℕ) : EReal :=
  signed (fmt.sign bits) (fmt.size bits)

variable {fmt : BinaryFormat}

lemma allOnes_succ (fmt : BinaryFormat) : fmt.allOnes + 1 = 2 ^ fmt.exponentBits := by
  unfold allOnes
  rw [Nat.one_shiftLeft]
  exact Nat.sub_add_cancel Nat.one_le_two_pow

lemma and_allOnes (n : ℕ) : n &&& fmt.allOnes = n % 2 ^ fmt.exponentBits := by
  unfold allOnes
  rw [Nat.one_shiftLeft, Nat.and_two_pow_sub_one_eq_mod]

lemma and_fractionMask (n : ℕ) : n &&& fmt.fractionMask = n % 2 ^ fmt.fractionBits := by
  unfold fractionMask
  rw [Nat.one_shiftLeft, Nat.and_two_pow_sub_one_eq_mod]

lemma fraction_lt (fmt : BinaryFormat) (bits : ℕ) : fmt.fraction bits < 2 ^ fmt.fractionBits :=
  Nat.mod_lt _ (Nat.two_pow_pos _)

/-- The fields side by side. -/
def joined (fmt : BinaryFormat) (s : Bool) (b fr : ℕ) : ℕ :=
  s.toNat * 2 ^ (fmt.exponentBits + fmt.fractionBits) + b * 2 ^ fmt.fractionBits + fr

section

variable {s : Bool} {b fr : ℕ}

lemma or_eq_joined (hb : b < 2 ^ fmt.exponentBits) (hfr : fr < 2 ^ fmt.fractionBits) :
    fmt.signBits s ||| b <<< fmt.fractionBits ||| fr = fmt.joined s b fr := by
  have hlow : b * 2 ^ fmt.fractionBits + fr < 2 ^ (fmt.exponentBits + fmt.fractionBits) := by
    calc b * 2 ^ fmt.fractionBits + fr < (b + 1) * 2 ^ fmt.fractionBits := by
          rw [Nat.add_mul, Nat.one_mul]
          exact Nat.add_lt_add_left hfr _
      _ ≤ 2 ^ fmt.exponentBits * 2 ^ fmt.fractionBits := Nat.mul_le_mul_right _ hb
      _ = 2 ^ (fmt.exponentBits + fmt.fractionBits) := (pow_add _ _ _).symm
  unfold signBits joined
  rw [Nat.lor_assoc, Nat.shiftLeft_eq, Nat.shiftLeft_eq, Nat.mul_comm b,
    ← Nat.two_pow_add_eq_or_of_lt hfr, Nat.mul_comm s.toNat, Nat.mul_comm _ b,
    ← Nat.two_pow_add_eq_or_of_lt hlow, Nat.add_assoc]

lemma joined_div (hfr : fr < 2 ^ fmt.fractionBits) :
    fmt.joined s b fr / 2 ^ fmt.fractionBits = s.toNat * 2 ^ fmt.exponentBits + b ∧
      fmt.joined s b fr % 2 ^ fmt.fractionBits = fr := by
  have hsplit : fmt.joined s b fr =
      fr + 2 ^ fmt.fractionBits * (s.toNat * 2 ^ fmt.exponentBits + b) := by
    unfold joined
    rw [pow_add]
    ring
  rw [hsplit, Nat.add_mul_div_left _ _ (Nat.two_pow_pos _), Nat.div_eq_of_lt hfr, Nat.zero_add,
    Nat.add_mul_mod_self_left, Nat.mod_eq_of_lt hfr]
  exact ⟨rfl, rfl⟩

lemma sign_joined (hb : b < 2 ^ fmt.exponentBits) (hfr : fr < 2 ^ fmt.fractionBits) :
    fmt.sign (fmt.joined s b fr) = s := by
  have hdiv : fmt.joined s b fr / 2 ^ (fmt.exponentBits + fmt.fractionBits) = s.toNat := by
    rw [Nat.add_comm fmt.exponentBits, pow_add, ← Nat.div_div_eq_div_mul, (joined_div hfr).1,
      Nat.add_comm, Nat.mul_comm, Nat.add_mul_div_left _ _ (Nat.two_pow_pos _),
      Nat.div_eq_of_lt hb, Nat.zero_add]
  unfold sign
  rw [hdiv]
  cases s <;> rfl

lemma field_joined (hb : b < 2 ^ fmt.exponentBits) (hfr : fr < 2 ^ fmt.fractionBits) :
    fmt.field (fmt.joined s b fr) = b := by
  unfold field
  rw [(joined_div hfr).1, Nat.add_comm, Nat.add_mul_mod_self_right, Nat.mod_eq_of_lt hb]

lemma fraction_joined (hfr : fr < 2 ^ fmt.fractionBits) :
    fmt.fraction (fmt.joined s b fr) = fr := (joined_div hfr).2

lemma joined_fields {bits : ℕ} (hbits : bits < 2 ^ fmt.width) :
    fmt.joined (fmt.sign bits) (fmt.field bits) (fmt.fraction bits) = bits := by
  have hsign : (fmt.sign bits).toNat = bits / 2 ^ (fmt.exponentBits + fmt.fractionBits) := by
    have hlt : bits / 2 ^ (fmt.exponentBits + fmt.fractionBits) < 2 := by
      rw [Nat.div_lt_iff_lt_mul (Nat.two_pow_pos _), ← pow_succ']
      exact hbits
    unfold sign
    generalize bits / 2 ^ (fmt.exponentBits + fmt.fractionBits) = q at *
    obtain rfl | rfl : q = 0 ∨ q = 1 := by omega
    · rfl
    · rfl
  have hhigh := Nat.div_add_mod (bits / 2 ^ fmt.fractionBits) (2 ^ fmt.exponentBits)
  have hlow := Nat.div_add_mod bits (2 ^ fmt.fractionBits)
  rw [Nat.div_div_eq_div_mul, ← pow_add, Nat.add_comm fmt.fractionBits, ← hsign] at hhigh
  unfold joined field fraction
  rw [pow_add, ← Nat.mul_assoc, ← Nat.add_mul, Nat.mul_comm _ (2 ^ fmt.exponentBits), hhigh,
    Nat.mul_comm]
  exact hlow

end

/-! ### Rounded Numbers -/

/-- The significand and the exponents of a format. -/
def grid (fmt : BinaryFormat) (h : fmt.Standard) : Grid where
  precision := fmt.fractionBits + 1
  bias := fmt.bias
  precision_low := Nat.add_le_add_right h.fraction_pos 1
  precision_high := (Nat.add_le_add_right h.fraction_le 1).trans (by norm_num)
  range := by
    have := h.range
    push_cast
    omega

lemma maxBiased_grid (h : fmt.Standard) : (fmt.grid h).maxBiased = fmt.allOnes := h.allOnes_eq.symm

/-- A rounded number and its encoding. -/
structure Encodes (fmt : BinaryFormat) (h : fmt.Standard) (s : Bool) (rounded : Rounded)
    (bits : ℕ) : Prop where
  number : fmt.IsNumber bits
  sign : fmt.sign bits = s
  size : fmt.size bits = (fmt.grid h).size rounded
  width : bits < 2 ^ fmt.width

lemma joined_lt {s : Bool} {b fr : ℕ} (hb : b < 2 ^ fmt.exponentBits)
    (hfr : fr < 2 ^ fmt.fractionBits) : fmt.joined s b fr < 2 ^ fmt.width := by
  have hs := Bool.toNat_le s
  calc fmt.joined s b fr
      < (s.toNat * 2 ^ fmt.exponentBits + b + 1) * 2 ^ fmt.fractionBits := by
        unfold joined
        rw [pow_add, Nat.add_mul, Nat.add_mul, Nat.one_mul, Nat.mul_assoc]
        exact Nat.add_lt_add_left hfr _
    _ ≤ 2 * 2 ^ fmt.exponentBits * 2 ^ fmt.fractionBits := by
        refine Nat.mul_le_mul_right _ ?_
        have := Nat.mul_le_mul_right (2 ^ fmt.exponentBits) hs
        omega
    _ = 2 ^ fmt.width := by
        unfold width
        rw [Nat.mul_assoc, ← pow_add, ← pow_succ']

lemma isNumber_joined {s : Bool} {b fr : ℕ} (hb : b < fmt.allOnes)
    (hfr : fr < 2 ^ fmt.fractionBits) : fmt.IsNumber (fmt.joined s b fr) := fun hfield => by
  have hb' : b < 2 ^ fmt.exponentBits := by
    have := fmt.allOnes_succ
    omega
  rw [field_joined hb' hfr] at hfield
  exact absurd hfield hb.ne

lemma size_joined {s : Bool} {b fr : ℕ} (hb : b < fmt.allOnes) (hfr : fr < 2 ^ fmt.fractionBits) :
    fmt.size (fmt.joined s b fr) =
      (((if b = 0 then fr else 2 ^ fmt.fractionBits + fr : ℕ) *
        2 ^ (max (b : ℤ) 1 - fmt.bias - fmt.fractionBits) : ℝ) : EReal) := by
  have hb' : b < 2 ^ fmt.exponentBits := by
    have := fmt.allOnes_succ
    omega
  unfold size significand
  rw [field_joined hb' hfr, fraction_joined hfr, if_neg hb.ne]

lemma encodes_packBinary (h : fmt.Standard) (s : Bool) {rounded : Rounded}
    (hformat : (fmt.grid h).InFormat rounded) :
    Encodes fmt h s rounded (Fp80.packBinary fmt s rounded) := by
  have hones := fmt.allOnes_succ
  have hpos := Nat.two_pow_pos fmt.fractionBits
  have hbias : (fmt.allOnes : ℤ) = 2 * fmt.bias + 1 := h.allOnes_eq
  cases rounded with
  | finite biased kept =>
    obtain ⟨hnonneg, hmax, hkept, hnormal⟩ := hformat
    rw [maxBiased_grid] at hmax
    obtain ⟨b, rfl⟩ := Int.eq_ofNat_of_zero_le hnonneg
    have hb : b < fmt.allOnes := by omega
    have hfr := Nat.mod_lt kept hpos
    have hbits : Fp80.packBinary fmt s (.finite b kept) =
        fmt.joined s b (kept % 2 ^ fmt.fractionBits) := by
      unfold Fp80.packBinary
      dsimp only
      rw [and_fractionMask, Int.toNat_natCast, or_eq_joined (by omega) hfr]
    have hkept' : kept < 2 ^ fmt.fractionBits * 2 := hkept.trans_eq (pow_succ _ _)
    have hnormal' : b ≠ 0 ↔ 2 ^ fmt.fractionBits ≤ kept := Nat.cast_ne_zero.symm.trans hnormal
    have hvalue : (if b = 0 then kept % 2 ^ fmt.fractionBits
        else 2 ^ fmt.fractionBits + kept % 2 ^ fmt.fractionBits) = kept := by
      split_ifs with h0
      · exact Nat.mod_eq_of_lt (by omega)
      · have hle := hnormal'.1 h0
        rw [Nat.mod_eq_sub_mod hle, Nat.mod_eq_of_lt (by omega)]
        omega
    rw [hbits]
    refine ⟨isNumber_joined hb hfr, sign_joined (by omega) hfr, ?_, joined_lt (by omega) hfr⟩
    rw [size_joined hb hfr, hvalue, Grid.size_finite]
    congr 3
    change _ = max (b : ℤ) 1 - fmt.bias + 1 - ((fmt.fractionBits + 1 : ℕ) : ℤ)
    push_cast
    ring
  | infinity =>
    have hbits : Fp80.packBinary fmt s .infinity = fmt.joined s fmt.allOnes 0 := by
      rw [← or_eq_joined (by omega) hpos]
      exact (Nat.or_zero _).symm
    rw [hbits]
    refine ⟨fun _ => fraction_joined hpos, sign_joined (by omega) hpos, ?_,
      joined_lt (by omega) hpos⟩
    unfold size
    rw [field_joined (by omega) hpos, if_pos rfl]
    rfl
  | largestFinite =>
    have hfr : fmt.fractionMask < 2 ^ fmt.fractionBits := by
      unfold fractionMask
      rw [Nat.one_shiftLeft]
      omega
    have hrange := h.range
    have hbits : Fp80.packBinary fmt s .largestFinite =
        fmt.joined s (fmt.allOnes - 1) fmt.fractionMask := or_eq_joined (by omega) hfr
    have hsum : 2 ^ fmt.fractionBits + fmt.fractionMask = 2 ^ (fmt.fractionBits + 1) - 1 := by
      unfold fractionMask
      rw [Nat.one_shiftLeft, pow_succ]
      omega
    rw [hbits]
    refine ⟨isNumber_joined (by omega) hfr, sign_joined (by omega) hfr, ?_,
      joined_lt (by omega) hfr⟩
    rw [size_joined (by omega) hfr, if_neg (by omega), hsum]
    change _ = ((((2 : ℝ) ^ (fmt.fractionBits + 1) - 1) *
      2 ^ (fmt.bias + 1 - ((fmt.fractionBits + 1 : ℕ) : ℤ)) : ℝ) : EReal)
    push_cast [Nat.cast_sub (Nat.one_le_two_pow)]
    congr 3
    omega

end BinaryFormat

end Neetan.SoftFloat
