import Neetan.MachineInt

/-!
The 80-bit floating-point format of the x87 FPU: encodings, exception flags, rounding and packing;
and its sums, differences, products, quotients and square roots.

Numbers of 128 bits are natural numbers; an operation on them that loses a bit has no result.
-/

namespace Neetan.SoftFloat

open MachineInt

/-! ### Encodings -/

inductive RoundingMode where
  | nearestEven
  | down
  | up
  | zero
  deriving DecidableEq, Repr

inductive Precision where
  | single
  | double
  | extended
  deriving DecidableEq, Repr

structure Fp80 where
  /-- The integer bit and the fraction. -/
  significand : BitVec 64
  /-- The sign and the biased exponent. -/
  signExponent : BitVec 16
  deriving DecidableEq, Repr

namespace Fp80

def fromBits (signExponent : BitVec 16) (significand : BitVec 64) : Fp80 :=
  ⟨significand, signExponent⟩

def zero : Fp80 := fromBits 0x0000 0
def negZero : Fp80 := fromBits 0x8000 0
def one : Fp80 := fromBits 0x3FFF 0x8000000000000000
def infinity : Fp80 := fromBits 0x7FFF 0x8000000000000000
def negInfinity : Fp80 := fromBits 0xFFFF 0x8000000000000000
def indefinite : Fp80 := fromBits 0xFFFF 0xC000000000000000

def sign (a : Fp80) : Bool := a.signExponent &&& 0x8000 ≠ 0

def exponent (a : Fp80) : ℕ := (a.signExponent &&& 0x7FFF).toNat

def jBit (a : Fp80) : Bool := a.significand &&& 0x8000000000000000 ≠ 0

def fraction (a : Fp80) : BitVec 64 := a.significand &&& 0x7FFFFFFFFFFFFFFF

def isZero (a : Fp80) : Bool := a.exponent = 0 && a.significand = 0

def isDenormal (a : Fp80) : Bool := a.exponent = 0 && !a.jBit && a.fraction ≠ 0

def isPseudoDenormal (a : Fp80) : Bool := a.exponent = 0 && a.jBit

def isNormal (a : Fp80) : Bool := 0x0001 ≤ a.exponent && a.exponent ≤ 0x7FFE && a.jBit

def isUnnormal (a : Fp80) : Bool := 0x0001 ≤ a.exponent && a.exponent ≤ 0x7FFE && !a.jBit

def isInfinity (a : Fp80) : Bool := a.exponent = 0x7FFF && a.significand = 0x8000000000000000

def isNan (a : Fp80) : Bool := a.exponent = 0x7FFF && a.significand &&& 0x7FFFFFFFFFFFFFFF ≠ 0

def isSignalingNan (a : Fp80) : Bool :=
  a.exponent = 0x7FFF && a.jBit && a.significand &&& 0x4000000000000000 = 0 && a.fraction ≠ 0

def isQuietNan (a : Fp80) : Bool :=
  a.exponent = 0x7FFF && a.jBit && a.significand &&& 0x4000000000000000 ≠ 0

def isUnsupported (a : Fp80) : Bool :=
  if a.isUnnormal then true
  else if a.exponent = 0x7FFF && !a.jBit && a.fraction = 0 then true
  else if a.exponent = 0x7FFF && !a.jBit && a.fraction ≠ 0 then true
  else false

def negate (a : Fp80) : Fp80 := ⟨a.significand, a.signExponent ^^^ 0x8000⟩

def quieten (a : Fp80) : Fp80 := ⟨a.significand ||| 0x4000000000000000, a.signExponent⟩

end Fp80

/-! ### Exception Flags -/

/-- The unmasked response to an overflow or an underflow. -/
structure BiasedResult where
  value : Fp80
  precision : Bool
  roundedUp : Bool
  deriving DecidableEq, Repr

structure ExceptionFlags where
  invalid : Bool
  denormal : Bool
  zeroDivide : Bool
  overflow : Bool
  underflow : Bool
  precision : Bool
  roundedUp : Bool
  tiny : Bool
  biased : Option BiasedResult
  deriving DecidableEq, Repr

namespace ExceptionFlags

def default : ExceptionFlags := ⟨false, false, false, false, false, false, false, false, none⟩

def merge (ef other : ExceptionFlags) : ExceptionFlags where
  invalid := ef.invalid || other.invalid
  denormal := ef.denormal || other.denormal
  zeroDivide := ef.zeroDivide || other.zeroDivide
  overflow := ef.overflow || other.overflow
  underflow := ef.underflow || other.underflow
  precision := ef.precision || other.precision
  roundedUp := ef.roundedUp || other.roundedUp
  tiny := ef.tiny || other.tiny
  biased := if other.biased.isSome then other.biased else ef.biased

end ExceptionFlags

namespace Fp80

def propagateNan (a b : Fp80) (ef : ExceptionFlags) : Fp80 × ExceptionFlags :=
  let aIsSnan := a.isSignalingNan
  let bIsSnan := b.isSignalingNan
  let aIsQnan := a.isQuietNan
  let bIsQnan := b.isQuietNan
  let ef := if aIsSnan || bIsSnan then { ef with invalid := true } else ef
  let result :=
    if aIsSnan && bIsSnan then
      -- the larger significand of the two
      if b.quieten.significand ≤ a.quieten.significand then a.quieten else b.quieten
    else if aIsSnan && bIsQnan then b
    else if bIsSnan && aIsQnan then a
    else if aIsSnan then a.quieten
    else if bIsSnan then b.quieten
    else if aIsQnan && bIsQnan then
      if b.significand < a.significand then a
      else if a.significand < b.significand then b
      else if !a.sign && b.sign then a
      else b
    else if aIsQnan then a
    else if bIsQnan then b
    else indefinite
  (result, ef)

def bias : ℤ := 16383

/-- The unbiased exponent; that of a denormal is the least one. -/
def trueExponent (a : Fp80) : ℤ := if a.exponent = 0 then 1 - bias else a.exponent - bias

def normalizeSignificand (significand : ℕ) : ℕ × ℕ :=
  if significand = 0 then (0, 0)
  else
    let shift := leadingZeros 64 significand
    (significand * 2 ^ shift % 2 ^ 64, shift)

end Fp80

/-- Sets IE if an operand has an unsupported encoding. -/
def flagUnsupportedOperands (operands : List Fp80) (ef : ExceptionFlags) : Bool × ExceptionFlags :=
  let unsupported := operands.any Fp80.isUnsupported
  (unsupported, { ef with invalid := ef.invalid || unsupported })

/-! ### Rounding -/

/-- The bits of a value shifted to the right, with every lost bit in bit 0. -/
def shiftRightSticky (value shift : ℕ) : ℕ :=
  if shift = 0 then value
  else if 128 ≤ shift then (value ≠ 0 : Bool).toNat
  else value >>> shift ||| (value &&& (1 <<< shift - 1) ≠ 0 : Bool).toNat

/-- The top `keep` bits after the increment, whether bits were discarded, and whether there was an
increment. -/
def roundBits (sign : Bool) (significand keep : ℕ) (rc : RoundingMode) :
    Option (ℕ × Bool × Bool) := do
  let discard := 128 - keep
  let kept := significand >>> discard
  let rest := significand &&& (1 <<< discard - 1)
  let half := 1 <<< (discard - 1)
  let increment := rest ≠ 0 &&
    match rc with
    | .nearestEven => half < rest || (rest = half && kept &&& 1 ≠ 0)
    | .up => !sign
    | .down => sign
    | .zero => false
  let rounded ← checkedAdd 128 kept increment.toNat
  return (rounded, rest ≠ 0, increment)

inductive Rounded where
  | finite (biased : ℤ) (significand : ℕ)
  | infinity
  | largestFinite
  deriving DecidableEq, Repr

/-- Whether a value rounded with an unbounded exponent lies below the smallest normal number. -/
def roundsTiny (sign : Bool) (biased : ℤ) (significand precisionBits : ℕ) (rc : RoundingMode) :
    Option Bool :=
  if biased < 0 then some true
  else do
    let (kept, _, _) ← roundBits sign significand precisionBits rc
    return kept >>> precisionBits = 0

/-- The flags of a result with the least exponent. -/
def ExceptionFlags.gradual (ef : ExceptionFlags) (tiny inexact increment : Bool) :
    ExceptionFlags :=
  let ef := if inexact then
      { ef with precision := true, underflow := ef.underflow || tiny }
    else ef
  { ef with
    tiny := ef.tiny || tiny
    roundedUp := ef.roundedUp || increment }

def roundToFormat (sign : Bool) (biased : ℤ) (significand precisionBits : ℕ) (maxBiased : ℤ)
    (rc : RoundingMode) (ef : ExceptionFlags) :
    Option (Rounded × ExceptionFlags) := do
  if 1 ≤ biased then
    let (kept, inexact, increment) ← roundBits sign significand precisionBits rc
    let carry : Bool := kept >>> precisionBits ≠ 0
    let biased := if carry then biased + 1 else biased
    let kept := if carry then kept >>> 1 else kept
    if maxBiased ≤ biased then
      let ef := { ef with overflow := true, precision := true }
      let toInfinity := match rc with
        | .nearestEven => true
        | .up => !sign
        | .down => sign
        | .zero => false
      if toInfinity then return (.infinity, { ef with roundedUp := true })
      else return (.largestFinite, ef)
    else
      let ef := { ef with
        precision := ef.precision || inexact
        roundedUp := ef.roundedUp || increment }
      return (.finite biased kept, ef)
  else
    let tiny ← roundsTiny sign biased significand precisionBits rc
    let shifted := shiftRightSticky significand (1 - biased).toNat
    let (kept, inexact, increment) ← roundBits sign shifted precisionBits rc
    return (.finite (if kept >>> (precisionBits - 1) ≠ 0 then 1 else 0) kept,
      ef.gradual tiny inexact increment)

def unmaskedResponseBias : ℤ := 24576

def signBit (sign : Bool) : BitVec 16 := if sign then 0x8000 else 0

/-- A finite encoding of a significand of `precisionBits` bits. -/
def packed (sign : Bool) (biased : ℤ) (significand precisionBits : ℕ) : Fp80 :=
  .fromBits (signBit sign ||| BitVec.ofInt 16 biased)
    (BitVec.ofNat 64 significand <<< (64 - precisionBits))

def biasedResponse (sign : Bool) (biased : ℤ) (significand precisionBits : ℕ) (rc : RoundingMode)
    (overflow : Bool) : Option BiasedResult := do
  let (kept, inexact, increment) ← roundBits sign significand precisionBits rc
  let carry : Bool := kept >>> precisionBits ≠ 0
  let biased := if carry then biased + 1 else biased
  let kept := if carry then kept >>> 1 else kept
  let biased := if overflow then biased - unmaskedResponseBias else biased + unmaskedResponseBias
  if 0x7FFF ≤ biased then
    return ⟨.fromBits (signBit sign ||| 0x7FFF) 0x8000000000000000, true, true⟩
  else if biased < 1 then
    return ⟨.fromBits (signBit sign) 0, true, false⟩
  else
    return ⟨packed sign biased kept precisionBits, inexact, increment⟩

def Precision.bits : Precision → ℕ
  | .single => 24
  | .double => 53
  | .extended => 64

/-- The encoding of a rounded value. -/
def Rounded.pack (sign : Bool) (pc : Precision) : Rounded → Fp80
  | .finite biased significand => packed sign biased significand pc.bits
  | .infinity => .fromBits (signBit sign ||| 0x7FFF) 0x8000000000000000
  | .largestFinite =>
    .fromBits (signBit sign ||| 0x7FFE) (BitVec.allOnes 64 <<< (64 - pc.bits))

/-- Rounds a value with its integer bit at bit 127 and packs it, with the masked response to
overflow and underflow. -/
def Fp80.roundAndPack (sign : Bool) (exponent : ℤ) (significand : ℕ) (rc : RoundingMode)
    (pc : Precision) (ef : ExceptionFlags) : Option (Fp80 × ExceptionFlags) := do
  if significand = 0 then return (.fromBits (signBit sign) 0, ef)
  else
    let leading := leadingZeros 128 significand
    let biased := exponent - leading + bias
    let normalized ← checkedShl 128 significand leading
    let (rounded, flags) ← roundToFormat sign biased normalized pc.bits 0x7FFF rc .default
    let flags ← if flags.overflow || flags.tiny then do
        let response ← biasedResponse sign biased normalized pc.bits rc flags.overflow
        pure { flags with biased := some response }
      else pure flags
    return (rounded.pack sign pc, ef.merge flags)

/-! ### Arithmetic -/

/-- The larger root of a Newton iteration for the square root, until it stops to fall. -/
def newton (val root : ℕ) : Option ℕ :=
  match checkedDiv val root with
  | none => none
  | some quotient =>
    match checkedAdd 128 root quotient with
    | none => none
    | some sum =>
      let next := sum >>> 1
      if root ≤ next then some root else newton val next
termination_by root

/-- The first number from one on downward whose square is at most the value. -/
def lowerRoot (val : ℕ) : ℕ → ℕ
  | 0 => 0
  | root + 1 =>
    match checkedMul 128 (root + 1) (root + 1) with
    | none => lowerRoot val root
    | some square => if val < square then lowerRoot val root else root + 1

/-- The integer square root and what remains. -/
def sqrtU128WithRemainder (val : ℕ) : Option (ℕ × ℕ) := do
  if val = 0 then return (0, 0)
  else
    let bits := 128 - leadingZeros 128 val
    let root ← newton val (1 <<< ((bits + 1) / 2))
    let root := lowerRoot val root
    let square ← checkedMul 128 root root
    let remainder ← checkedSub val square
    return (root, remainder)

namespace Fp80

/-- Sets DE for a denormal or a pseudo-denormal. -/
def flagDenormal (a : Fp80) (ef : ExceptionFlags) : ExceptionFlags :=
  if a.isDenormal || a.isPseudoDenormal then { ef with denormal := true } else ef

/-- The significand and the exponent of an operand, a denormal with its integer bit set. -/
def components (a : Fp80) : ℕ × ℤ :=
  if a.exponent = 0 then
    let (significand, shift) := normalizeSignificand a.significand.toNat
    (significand, a.trueExponent - shift)
  else (a.significand.toNat, a.trueExponent)

/-- The same in 128 bits. -/
def wideComponents (a : Fp80) : Option (ℕ × ℤ) := do
  if a.exponent = 0 && a.significand.toNat ≠ 0 then
    let shift := leadingZeros 64 a.significand.toNat
    let significand ← checkedShl 128 a.significand.toNat shift
    return (significand, a.trueExponent - shift)
  else return (a.significand.toNat, a.trueExponent)

def roundToPrecision (a : Fp80) (rc : RoundingMode) (pc : Precision) (ef : ExceptionFlags) :
    Option (Fp80 × ExceptionFlags) := do
  let significand ← checkedShl 128 a.significand.toNat 64
  roundAndPack a.sign a.trueExponent significand rc pc ef

/-- The sign of a sum and its significand. -/
def addMagnitudes (aSign bSign : Bool) (aSig bSig : ℕ) : Option (Bool × ℕ) := do
  if aSign = bSign then
    let sum ← checkedAdd 128 aSig bSig
    return (aSign, sum)
  else if bSig < aSig then
    let difference ← checkedSub aSig bSig
    return (aSign, difference)
  else if aSig < bSig then
    let difference ← checkedSub bSig aSig
    return (bSign, difference)
  else return (aSign, 0)

/-- The sum of finite numbers other than zero. -/
def addFinite (a b : Fp80) (rc : RoundingMode) (pc : Precision) (ef : ExceptionFlags) :
    Option (Fp80 × ExceptionFlags) := do
  let (aSig, aExp) ← a.wideComponents
  let (bSig, bExp) ← b.wideComponents
  let aSig ← checkedShl 128 aSig 63
  let bSig ← checkedShl 128 bSig 63
  let bAligned := if bExp < aExp then shiftRightSticky bSig (aExp - bExp).toNat else bSig
  let aAligned := if aExp < bExp then shiftRightSticky aSig (bExp - aExp).toNat else aSig
  let exponent := if aExp < bExp then bExp else aExp
  let (sign, significand) ← addMagnitudes a.sign b.sign aAligned bAligned
  if significand = 0 then return (if rc = .down then negZero else zero, ef)
  else
    let leading := leadingZeros 128 significand
    let normalized ← checkedShl 128 significand leading
    roundAndPack sign (exponent + 1 - leading) normalized rc pc ef

def add (a b : Fp80) (rc : RoundingMode) (pc : Precision) (ef : ExceptionFlags) :
    Option (Fp80 × ExceptionFlags) :=
  let (unsupported, ef) := flagUnsupportedOperands [a, b] ef
  if unsupported then some (indefinite, ef)
  else if a.isNan || b.isNan then some (propagateNan a b ef)
  else
    let ef := b.flagDenormal (a.flagDenormal ef)
    if a.isInfinity then
      if b.isInfinity && a.sign ≠ b.sign then some (indefinite, { ef with invalid := true })
      else some (a, ef)
    else if b.isInfinity then some (b, ef)
    else if a.isZero && b.isZero then
      some (if a.sign = b.sign then a else if rc = .down then negZero else zero, ef)
    else if a.isZero then b.roundToPrecision rc pc ef
    else if b.isZero then a.roundToPrecision rc pc ef
    else a.addFinite b rc pc ef

def sub (a b : Fp80) (rc : RoundingMode) (pc : Precision) (ef : ExceptionFlags) :
    Option (Fp80 × ExceptionFlags) :=
  a.add b.negate rc pc ef

def signedInfinity (sign : Bool) : Fp80 := if sign then negInfinity else infinity

def signedZero (sign : Bool) : Fp80 := if sign then negZero else zero

/-- The product of finite numbers other than zero. -/
def mulFinite (a b : Fp80) (rc : RoundingMode) (pc : Precision) (ef : ExceptionFlags) :
    Option (Fp80 × ExceptionFlags) := do
  let sign := a.sign ^^ b.sign
  let (aSig, aExp) := a.components
  let (bSig, bExp) := b.components
  let product ← checkedMul 128 aSig bSig
  if product = 0 then return (signedZero sign, ef)
  else
    let leading := leadingZeros 128 product
    let normalized ← checkedShl 128 product leading
    roundAndPack sign (aExp + bExp + 1 - leading) normalized rc pc ef

def mul (a b : Fp80) (rc : RoundingMode) (pc : Precision) (ef : ExceptionFlags) :
    Option (Fp80 × ExceptionFlags) :=
  let sign := a.sign ^^ b.sign
  let (unsupported, ef) := flagUnsupportedOperands [a, b] ef
  if unsupported then some (indefinite, ef)
  else if a.isNan || b.isNan then some (propagateNan a b ef)
  else
    let ef := b.flagDenormal (a.flagDenormal ef)
    if a.isInfinity then
      if b.isZero then some (indefinite, { ef with invalid := true })
      else some (signedInfinity sign, ef)
    else if b.isInfinity then
      if a.isZero then some (indefinite, { ef with invalid := true })
      else some (signedInfinity sign, ef)
    else if a.isZero || b.isZero then some (signedZero sign, ef)
    else a.mulFinite b rc pc ef

/-- The quotient of finite numbers other than zero: two divisions of 128 bits by 64. -/
def divFinite (a b : Fp80) (rc : RoundingMode) (pc : Precision) (ef : ExceptionFlags) :
    Option (Fp80 × ExceptionFlags) := do
  let sign := a.sign ^^ b.sign
  let (aSig, aExp) := a.components
  let (bSig, bExp) := b.components
  let dividendHigh ← checkedShl 128 aSig 62
  let quotientHigh ← checkedDiv dividendHigh bSig
  let remainderHigh := dividendHigh % bSig
  let dividendLow ← checkedShl 128 remainderHigh 64
  let quotientLow ← checkedDiv dividendLow bSig
  let remainder := dividendLow % bSig
  let shifted ← checkedShl 128 quotientHigh 64
  let quotient := shifted ||| quotientLow
  let leading := leadingZeros 128 quotient
  let normalized ← checkedShl 128 quotient leading
  roundAndPack sign (aExp - bExp + 1 - leading) (normalized ||| (remainder ≠ 0 : Bool).toNat)
    rc pc ef

def div (a b : Fp80) (rc : RoundingMode) (pc : Precision) (ef : ExceptionFlags) :
    Option (Fp80 × ExceptionFlags) :=
  let sign := a.sign ^^ b.sign
  let (unsupported, ef) := flagUnsupportedOperands [a, b] ef
  if unsupported then some (indefinite, ef)
  else if a.isNan || b.isNan then some (propagateNan a b ef)
  else
    -- a zero divide takes precedence over a denormal operand
    let ef := if b.isZero then ef else b.flagDenormal (a.flagDenormal ef)
    if a.isInfinity && b.isInfinity then some (indefinite, { ef with invalid := true })
    else if a.isZero && b.isZero then some (indefinite, { ef with invalid := true })
    else if a.isInfinity then some (signedInfinity sign, ef)
    else if b.isInfinity then some (signedZero sign, ef)
    else if b.isZero then some (signedInfinity sign, { ef with zeroDivide := true })
    else if a.isZero then some (signedZero sign, ef)
    else a.divFinite b rc pc ef

/-- Whether an integer root and its guard bit leave something behind. -/
def rootSticky (guard : Bool) (root remainder : ℕ) : Option Bool :=
  if guard then do
    let remainder ← checkedShl 128 remainder 2
    let root ← checkedShl 128 root 2
    let difference ← checkedSub remainder root
    let difference ← checkedSub difference 1
    return difference ≠ 0
  else return remainder ≠ 0

/-- The square root of a finite number above zero. -/
def sqrtFinite (a : Fp80) (rc : RoundingMode) (pc : Precision) (ef : ExceptionFlags) :
    Option (Fp80 × ExceptionFlags) := do
  let (sig, exp) := a.components
  let p := exp - 63
  -- the exponent is made even
  let k : ℕ := if p.tmod 2 = 0 then 64 else 63
  let wide ← checkedShl 128 sig k
  let (root, remainder) ← sqrtU128WithRemainder wide
  let guard : Bool := root < remainder
  let sticky ← rootSticky guard root remainder
  let doubled ← checkedShl 128 root 1
  let extendedRoot := doubled ||| guard.toNat
  let leading := leadingZeros 128 extendedRoot
  let normalized ← checkedShl 128 extendedRoot leading
  roundAndPack false ((p - k).tdiv 2 - 1 - leading + 127) (normalized ||| sticky.toNat) rc pc ef

def sqrt (a : Fp80) (rc : RoundingMode) (pc : Precision) (ef : ExceptionFlags) :
    Option (Fp80 × ExceptionFlags) :=
  let (unsupported, ef) := flagUnsupportedOperands [a] ef
  if unsupported then some (indefinite, ef)
  else if a.isSignalingNan then some (a.quieten, { ef with invalid := true })
  else if a.isQuietNan then some (a, ef)
  else if a.sign && !a.isZero then some (indefinite, { ef with invalid := true })
  else
    let ef := a.flagDenormal ef
    if a.isZero then some (a, ef)
    else if a.isInfinity && !a.sign then some (infinity, ef)
    else a.sqrtFinite rc pc ef

end Fp80

end Neetan.SoftFloat
