import Neetan.NumberExact
import Neetan.NumberText

/-!
Numbers as text: the numeric literals of the reader and the numbers of the printer.

A literal is read in lower case. It may have a radix and an exactness in front; behind them is a
real, a rectangular or a polar number. What the standard library does with the digits of a float
is a parameter.
-/

namespace Neetan.NumberText

open Neetan.MachineInt Neetan.Number

abbrev Text := List Char

/-! ### Integers -/

/-- `char::to_digit`, for a radix up to 16. -/
def toDigit (radix : ℕ) (c : Char) : Option ℕ :=
  let value :=
    if '0' ≤ c ∧ c ≤ '9' then some (c.toNat - 48)
    else if 'a' ≤ c ∧ c ≤ 'f' then some (c.toNat - 87)
    else if 'A' ≤ c ∧ c ≤ 'F' then some (c.toNat - 55)
    else none
  value.filter (· < radix)

def digitsValue (radix : ℕ) : ℕ → Text → Option ℕ
  | value, [] => some value
  | value, c :: rest => do digitsValue radix (value * radix + (← toDigit radix c)) rest

/-- Whether there is a minus sign in front, and what is behind the sign. -/
def stripSign : Text → Bool × Text
  | '-' :: rest => (true, rest)
  | '+' :: rest => (false, rest)
  | rest => (false, rest)

/-- `from_str_radix` of a signed integer of `w` bits. -/
def fromStrRadix (w radix : ℕ) (input : Text) : Option ℤ :=
  if (stripSign input).2 = [] then none
  else do
    let value ← digitsValue radix 0 (stripSign input).2
    checked w (if (stripSign input).1 then -value else value)

def parseInteger (input : Text) (radix : ℕ) : Outcome ℤ :=
  if input = [] then .error (.message "missing digits")
  else okOr (fromStrRadix 128 radix input) "exact integer exceeds the supported i128 range"

def parseUnsigned (input : Text) (radix : ℕ) : Outcome ℤ :=
  if input.head? = some '+' ∨ input.head? = some '-' then
    .error (.message "a rational denominator must be unsigned")
  else do
    let value ← parseInteger input radix
    okOr (checked 64 value) denominatorMessage

def rational (numerator denominator : ℤ) : Outcome Number.Real :=
  checkedRational numerator denominator

/-! ### Reals -/

/-- `split_once`. -/
def splitOnce (stop : Char) (input : Text) : Option (Text × Text) :=
  if stop ∈ input then
    some (input.takeWhile (· ≠ stop), (input.dropWhile (· ≠ stop)).tail)
  else none

def isAsciiDigit (c : Char) : Bool := '0' ≤ c ∧ c ≤ '9'

def decimalRangeMessage : String := "exact decimal exceeds the supported range"

/-- Arithmetic of `i32` that the code leaves unchecked. -/
def exact32 (value : ℤ) : Outcome ℤ := if Fits 32 value then .ok value else .error .panic

def exactDecimal (input : Text) : Outcome Number.Real := do
  let (mantissa, exponent) ← match splitOnce 'e' input with
    | some (mantissa, exponent) => do
      pure (mantissa, ← okOr (fromStrRadix 32 10 exponent) "invalid exponent")
    | none => pure (input, 0)
  let (negative, mantissa) := stripSign mantissa
  let (whole, fraction) := (splitOnce '.' mantissa).getD (mantissa, [])
  if (whole = [] ∧ fraction = []) ∨ !whole.all isAsciiDigit ∨ !fraction.all isAsciiDigit then
    .error (.message "invalid exact decimal literal")
  else
    let digits := (if negative then ['-'] else []) ++ whole ++ fraction
    let numerator ← okOr (fromStrRadix 128 10 digits) decimalRangeMessage
    let length ← okOr (checked 32 fraction.length) "decimal scale is too large"
    let scale ← exact32 (exponent - length)
    if 0 ≤ scale then
      let power ← okOr (checked 128 (10 ^ scale.toNat)) decimalRangeMessage
      return .exactInteger (← okOr (checked 128 (numerator * power)) decimalRangeMessage)
    else
      let power ← exact32 (-scale)
      let denominator ← okOr (checked 128 (10 ^ power.toNat)) decimalRangeMessage
      checkedRational numerator denominator

/-- The markers of exponents other than `e`. -/
def isMarker (c : Char) : Bool := c = 's' || c = 'f' || c = 'd' || c = 'l'

def specialReal (input : Text) : Option Float :=
  if input = "+inf.0".toList then some (1 / 0)
  else if input = "-inf.0".toList then some (-(1 / 0))
  else if input = "+nan.0".toList then some (0 / 0)
  else if input = "-nan.0".toList then some (-(0 / 0))
  else none

section

-- `str::parse::<f64>`
variable (parseF64 : Text → Option Float)

def parseReal (input : Text) (radix : ℕ) (forcedExact : Option Bool) : Outcome Number.Real :=
  match specialReal input with
  | some value =>
    if forcedExact = some true then
      .error (.message "an exact number cannot be infinite or NaN")
    else .ok (.inexact value)
  | none =>
    let input :=
      if radix = 10 && input.any isMarker then
        input.map fun c => if isMarker c then 'e' else c
      else input
    let hasDecimalPoint := input.contains '.'
    if radix ≠ 10 && hasDecimalPoint then
      .error (.message "decimal notation requires radix 10")
    else
      let decimal := hasDecimalPoint || (radix = 10 && input.contains 'e')
      let exact := forcedExact.getD !decimal
      if 1 < input.count '/' then .error (.message "invalid rational literal")
      else
        match splitOnce '/' input with
        | some (numerator, denominator) =>
          if decimal then
            .error (.message "a rational literal cannot contain a decimal point")
          else do
            let numerator ← parseInteger numerator radix
            let denominator ← parseUnsigned denominator radix
            if denominator = 0 then
              .error (.message "a rational denominator cannot be zero")
            else if exact then rational numerator denominator
            else return .inexact (FloatSums.ofInteger numerator / FloatSums.ofInteger denominator)
        | none =>
          if exact && decimal then exactDecimal input
          else if exact then do return .exactInteger (← parseInteger input radix)
          else if decimal then do
            return .inexact (← okOr (parseF64 input) "invalid inexact decimal literal")
          else do return .inexact (FloatSums.ofInteger (← parseInteger input radix))

/-! ### Numbers -/

def inexact : Number.Real → Number.Real
  | .exactInteger value => .inexact (FloatSums.ofInteger value)
  | .exactRational value =>
    .inexact (FloatSums.ofInteger value.numerator / FloatSums.ofInteger value.denominator)
  | value => value

def isInexact : Number.Real → Bool
  | .inexact _ => true
  | _ => false

def coerceComponents (left right : Number.Real) (forcedExact : Option Bool) :
    Number.Real × Number.Real :=
  if forcedExact.isNone && (isInexact left || isInexact right) then (inexact left, inexact right)
  else (left, right)

def zeroLike (value : Number.Real) : Number.Real :=
  if isInexact value then .inexact 0 else .exactInteger 0

/-- The last sign behind the first character that is not the sign of an exponent; `before` is the
character in front of the text. -/
def lastSign : Option Char → Text → Option ℕ
  | _, [] => none
  | before, c :: rest =>
    match lastSign (some c) rest with
    | some index => some (index + 1)
    | none =>
      if before.isSome && (c = '+' || c = '-') && before ≠ some 'e' then some 0 else none

def parseRectangular (body : Text) (radix : ℕ) (exactness : Option Bool) : Outcome Number :=
  if body = ['+'] ∨ body = ['-'] ∨ body = [] then do
    let imaginary ← parseReal parseF64 (if body = ['-'] then ['-', '1'] else ['1']) radix
      exactness
    return .rectangular (zeroLike imaginary) imaginary
  else do
    let (realText, imaginaryText) := match lastSign none body with
      | some index => (body.take index, body.drop index)
      | none => (['0'], body)
    let real ← parseReal parseF64 realText radix exactness
    let imaginary ← parseReal parseF64
      (if imaginaryText = ['+'] then ['1']
        else if imaginaryText = ['-'] then ['-', '1']
        else imaginaryText) radix exactness
    return .rectangular real imaginary

/-- The radix and the exactness in front of a literal, and what is behind them. -/
structure Prefixes where
  rest : Text
  radix : ℕ
  hasRadix : Bool
  exactness : Option Bool

/-- One round of the loop over the prefixes: it goes on, it ends, or the prefix is invalid. -/
def prefixStep (state : Prefixes) : Option Prefixes ⊕ Unit :=
  match state.rest with
  | '#' :: mark :: rest =>
    if (mark = 'b' || mark = 'o' || mark = 'd' || mark = 'x') && !state.hasRadix then
      .inl (some { state with
        rest
        radix := if mark = 'b' then 2 else if mark = 'o' then 8 else if mark = 'd' then 10 else 16
        hasRadix := true })
    else if (mark = 'e' || mark = 'i') && state.exactness.isNone then
      .inl (some { state with rest, exactness := some (mark = 'e') })
    else .inr ()
  | _ => .inl none

def prefixLoop : ℕ → Prefixes → Except String Prefixes
  | 0, state => .ok state
  | rounds + 1, state =>
    match prefixStep state with
    | .inl (some state) => prefixLoop rounds state
    | .inl none => .ok state
    | .inr () => .error "invalid numeric prefix"

def unsignedDecimal : Text → Bool
  | '.' :: c :: _ => isAsciiDigit c
  | c :: _ => isAsciiDigit c
  | [] => false

def signedDecimal : Text → Bool
  | '+' :: rest => unsignedDecimal rest
  | '-' :: rest => unsignedDecimal rest
  | _ => false

def looksNumeric (input rest : Text) : Bool :=
  input.head? = some '#' || unsignedDecimal rest || signedDecimal rest ||
    rest = ['+', 'i'] || rest = ['-', 'i'] ||
    "+inf.".toList.isPrefixOf rest || "-inf.".toList.isPrefixOf rest ||
    "+nan.".toList.isPrefixOf rest || "-nan.".toList.isPrefixOf rest

/-- The number behind the prefixes. -/
def parseBody (rest : Text) (radix : ℕ) (exactness : Option Bool) : Outcome Number :=
  match splitOnce '@' rest with
  | some (magnitude, angle) =>
    if angle.contains '@' then .error (.message "multiple polar separators")
    else do
      let magnitude ← parseReal parseF64 magnitude radix exactness
      let angle ← parseReal parseF64 angle radix exactness
      let (magnitude, angle) := coerceComponents magnitude angle exactness
      return .polar magnitude angle
  | none =>
    if rest.getLast? = some 'i' then parseRectangular parseF64 rest.dropLast radix exactness
    else do return .real (← parseReal parseF64 rest radix exactness)

/-- `number::parse`: no number, or the number, or an error. -/
def parse (input : Text) : Option (Outcome Number) :=
  match prefixLoop 2 ⟨input.map Char.toLower, 10, false, none⟩ with
  | .error message => some (.error (.message message))
  | .ok state =>
    if state.rest.head? = some '#' then
      some (.error (.message "duplicate or invalid numeric prefix"))
    else if !looksNumeric input state.rest then none
    else some (parseBody parseF64 state.rest state.radix state.exactness)

end

/-! ### The text of a number -/

section

variable (shortest : Float → List (Fin 10) × ℤ)

def formatFiniteInexact (value : Float) : Text :=
  if value == 0 && value.toBits >>> 63 = 1 then "-0.0".toList
  else
    let text := (floatText shortest value).toList
    match splitOnce 'e' text with
    | some (mantissa, exponent) =>
      mantissa ++ (if mantissa.contains '.' then [] else ['.', '0']) ++ 'e' ::
        (if exponent.head? = some '+' ∨ exponent.head? = some '-' then [] else ['+']) ++ exponent
    | none => if text.contains '.' then text else text ++ ['.', '0']

/-- `Writer::real`. -/
def realExternal : Number.Real → Text
  | .exactInteger value => (Int.repr value).toList
  | .exactRational value =>
    (Int.repr value.numerator).toList ++ '/' :: (Int.repr value.denominator).toList
  | .inexact value =>
    if value.isNaN then "+nan.0".toList
    else if value == 1 / 0 then "+inf.0".toList
    else if value == -(1 / 0) then "-inf.0".toList
    else formatFiniteInexact shortest value

/-- The imaginary part has a sign of its own, or gets one. -/
def imaginarySign : Number.Real → Text
  | .exactInteger value => if 0 ≤ value then ['+'] else []
  | .exactRational value => if 0 ≤ value.numerator then ['+'] else []
  | .inexact value => if value.isFinite && value.toBits >>> 63 = 0 then ['+'] else []

/-- `Writer::number`. -/
def numberExternal : Number → Text
  | .real value => realExternal shortest value
  | .rectangular real imaginary =>
    realExternal shortest real ++ imaginarySign imaginary ++ realExternal shortest imaginary ++
      ['i']
  | .polar magnitude angle => realExternal shortest magnitude ++ '@' :: realExternal shortest angle

end

/-! ### Digits -/

lemma toDigit_digitChar : ∀ d < 10, toDigit 10 (Nat.digitChar d) = some d := by decide

lemma digitsValue_append (radix value : ℕ) (front back : Text) :
    digitsValue radix value (front ++ back) =
      (digitsValue radix value front).bind fun value => digitsValue radix value back := by
  induction front generalizing value with
  | nil => rfl
  | cons c front ih =>
    rw [List.cons_append, digitsValue, digitsValue]
    cases toDigit radix c with
    | none => rfl
    | some digit => exact ih _

lemma digitsValue_toDigits (n : ℕ) : digitsValue 10 0 (Nat.toDigits 10 n) = some n := by
  induction n using Nat.strongRecOn with
  | ind n ih =>
    rw [Nat.toDigits_eq_if (by decide)]
    split
    case isTrue less =>
      rw [digitsValue, toDigit_digitChar n less, Nat.zero_mul]
      exact congrArg some (Nat.zero_add n)
    case isFalse le =>
      have less := Nat.mod_lt n (show 0 < 10 by decide)
      rw [digitsValue_append, ih (n / 10) (by omega), Option.bind_some, digitsValue,
        toDigit_digitChar _ less]
      exact congrArg some (by omega)

lemma natRepr_toList (n : ℕ) : (Nat.repr n).toList = Nat.toDigits 10 n := String.toList_ofList

lemma intRepr_toList (value : ℤ) :
    (Int.repr value).toList =
      (if value < 0 then ['-'] else []) ++ Nat.toDigits 10 value.natAbs := by
  cases value with
  | ofNat n =>
    change (Nat.repr n).toList = _
    rw [if_neg (by simp), natRepr_toList]
    rfl
  | negSucc n =>
    change ("-" ++ Nat.repr (n + 1)).toList = _
    rw [if_pos (Int.negSucc_lt_zero n), String.toList_append, natRepr_toList]
    rfl

lemma stripSign_digits (n : ℕ) : stripSign (Nat.toDigits 10 n) = (false, Nat.toDigits 10 n) := by
  obtain ⟨d, less, rest, h⟩ := PrefixCode.digits_head n (show 1 < 10 by decide)
  have hfree : ∀ d < 10, Nat.digitChar d ≠ '-' ∧ Nat.digitChar d ≠ '+' := by decide
  rw [h]
  unfold stripSign
  split
  · exact absurd (List.cons.inj ‹_›).1 (hfree d less).1
  · exact absurd (List.cons.inj ‹_›).1 (hfree d less).2
  · rfl

/-- The sign that an integer may have in front of its digits. -/
def IsSign (sign : Text) (value : ℤ) : Prop :=
  (value < 0 ∧ sign = ['-']) ∨ (0 ≤ value ∧ (sign = [] ∨ sign = ['+']))

lemma fromStrRadix_digits {w : ℕ} {value : ℤ} {sign : Text} (hsign : IsSign sign value)
    (h : Fits w value) :
    fromStrRadix w 10 (sign ++ Nat.toDigits 10 value.natAbs) = some value := by
  have hstrip : stripSign (sign ++ Nat.toDigits 10 value.natAbs) =
      (decide (value < 0), Nat.toDigits 10 value.natAbs) := by
    obtain ⟨hneg, rfl⟩ | ⟨hpos, rfl | rfl⟩ := hsign
    · rw [decide_eq_true hneg]
      rfl
    · rw [List.nil_append, stripSign_digits, decide_eq_false (not_lt.mpr hpos)]
    · rw [decide_eq_false (not_lt.mpr hpos)]
      rfl
  have hvalue :
      (if decide (value < 0) = true then -(value.natAbs : ℤ) else value.natAbs) = value := by
    by_cases hneg : value < 0
    · rw [if_pos (decide_eq_true hneg)]
      omega
    · rw [if_neg (by rw [decide_eq_false hneg]; exact Bool.false_ne_true)]
      omega
  unfold fromStrRadix
  rw [hstrip, if_neg (PrefixCode.digits_ne_nil _ (by decide)), digitsValue_toDigits]
  change checked w (if decide (value < 0) = true then _ else _) = _
  rw [hvalue, checked_of_fits h]

lemma ok_bind {α β : Type} (a : α) (f : α → Outcome β) :
    (Except.ok a >>= f : Outcome β) = f a :=
  rfl

lemma parseInteger_digits {value : ℤ} {sign : Text} (hsign : IsSign sign value)
    (h : Fits 128 value) :
    parseInteger (sign ++ Nat.toDigits 10 value.natAbs) 10 = .ok value := by
  have hne : sign ++ Nat.toDigits 10 value.natAbs ≠ [] :=
    List.append_ne_nil_of_right_ne_nil _ (PrefixCode.digits_ne_nil _ (by decide))
  rw [parseInteger, if_neg hne, fromStrRadix_digits hsign h]
  rfl

lemma parseUnsigned_digits {n : ℕ} (h : Fits 64 (n : ℤ)) :
    parseUnsigned (Nat.toDigits 10 n) 10 = .ok (n : ℤ) := by
  have hfree : ∀ d < 10, Nat.digitChar d ≠ '+' ∧ Nat.digitChar d ≠ '-' := by decide
  have hhead :
      ¬ ((Nat.toDigits 10 n).head? = some '+' ∨ (Nat.toDigits 10 n).head? = some '-') := by
    obtain ⟨d, less, rest, hdigits⟩ := PrefixCode.digits_head n (show 1 < 10 by decide)
    rw [hdigits, List.head?_cons]
    rintro (h | h)
    · exact (hfree d less).1 (Option.some.inj h)
    · exact (hfree d less).2 (Option.some.inj h)
  have hsign : IsSign [] (n : ℤ) := .inr ⟨Int.natCast_nonneg n, .inl rfl⟩
  have hparse := parseInteger_digits hsign (fits_mono (by decide) h)
  rw [List.nil_append, Int.natAbs_natCast] at hparse
  rw [parseUnsigned, if_neg hhead, hparse, ok_bind, checked_of_fits h]
  rfl

/-! ### Plain texts -/

/-- The characters of exact reals. -/
def plainChars : Text :=
  ['0', '1', '2', '3', '4', '5', '6', '7', '8', '9', '+', '-', '/']

def Plain (text : Text) : Prop := ∀ c ∈ text, c ∈ plainChars

lemma Plain.append {front back : Text} (h : Plain front) (h' : Plain back) :
    Plain (front ++ back) :=
  fun c mem => (List.mem_append.1 mem).elim (h c) (h' c)

lemma Plain.cons {c : Char} {text : Text} (h : c ∈ plainChars) (h' : Plain text) :
    Plain (c :: text) :=
  fun _ mem => (List.mem_cons.1 mem).elim (fun his => his ▸ h) (h' _)

lemma plain_nil : Plain [] := fun _ mem => absurd mem List.not_mem_nil

lemma plain_digits (n : ℕ) : Plain (Nat.toDigits 10 n) := fun c mem => by
  obtain ⟨d, less, rfl⟩ := PrefixCode.mem_digits (by decide) mem
  exact (show ∀ d < 10, Nat.digitChar d ∈ plainChars by decide) d less

lemma not_mem_digits {c : Char} (n : ℕ) (h : ∀ d < 10, Nat.digitChar d ≠ c) :
    c ∉ Nat.toDigits 10 n := fun mem => by
  obtain ⟨d, less, his⟩ := PrefixCode.mem_digits (by decide) mem
  exact h d less his

lemma Plain.not_mem {text : Text} (h : Plain text) {c : Char} (hc : c ∉ plainChars) :
    c ∉ text :=
  fun mem => hc (h c mem)

/-! ### Exact reals are read back -/

/-- The exact reals in their normal form: a fraction is reduced and no integer. -/
def IsNormal (value : Number.Real) : Prop :=
  NumberExact.IsExact value ∧
    ∀ fraction, value = .exactRational fraction → fraction.denominator ≠ 1

/-- The sign and the digits of the numerator, and the denominator behind them if there is one. -/
def exactText (sign : Text) : Number.Real → Text
  | .exactInteger value => sign ++ Nat.toDigits 10 value.natAbs
  | .exactRational value =>
    sign ++ Nat.toDigits 10 value.numerator.natAbs ++
      '/' :: Nat.toDigits 10 value.denominator.natAbs
  | .inexact _ => []

/-- The numerator of an exact real. -/
def numerator : Number.Real → ℤ
  | .exactInteger value => value
  | .exactRational value => value.numerator
  | .inexact _ => 0

section

variable {parseF64 : Text → Option Float} {shortest : Float → List (Fin 10) × ℤ}
  {sign text : Text} {value : Number.Real}

lemma specialReal_plain (h : Plain text) : specialReal text = none := by
  have hn : 'n' ∉ text := h.not_mem (by decide)
  unfold specialReal
  rw [if_neg, if_neg, if_neg, if_neg]
  all_goals
    rintro rfl
    exact hn (by decide)

lemma splitOnce_of_not_mem {stop : Char} (h : stop ∉ text) : splitOnce stop text = none :=
  if_neg h

lemma splitOnce_append {stop : Char} {front back : Text} (h : stop ∉ front) :
    splitOnce stop (front ++ stop :: back) = some (front, back) := by
  have hfront : ∀ c ∈ front, decide (c ≠ stop) = true := fun c mem =>
    decide_eq_true fun his => h (his ▸ mem)
  have hstop : ¬ decide (stop ≠ stop) = true := by simp
  unfold splitOnce
  rw [if_pos (List.mem_append.2 (.inr List.mem_cons_self)), List.takeWhile_append_of_pos hfront,
    List.dropWhile_append_of_pos hfront, List.takeWhile_cons, List.dropWhile_cons, if_neg hstop,
    if_neg hstop, List.append_nil]
  rfl

lemma parseReal_plain (h : Plain text) (hcount : text.count '/' ≤ 1) :
    parseReal parseF64 text 10 none =
      match splitOnce '/' text with
      | some (numerator, denominator) => do
        let numerator ← parseInteger numerator 10
        let denominator ← parseUnsigned denominator 10
        if denominator = 0 then .error (.message "a rational denominator cannot be zero")
        else rational numerator denominator
      | none => do return .exactInteger (← parseInteger text 10) := by
  have hnone : plainChars.any isMarker = false := by decide
  have hmarker : text.any isMarker = false :=
    List.any_eq_false.2 fun c mem => List.any_eq_false.1 hnone c (h c mem)
  have hpoint : text.contains '.' = false := by
    rw [List.contains_eq_mem]
    exact decide_eq_false (h.not_mem (by decide))
  have hexponent : text.contains 'e' = false := by
    rw [List.contains_eq_mem]
    exact decide_eq_false (h.not_mem (by decide))
  unfold parseReal
  rw [specialReal_plain h]
  simp only [hmarker, hpoint, hexponent, Bool.and_false, Bool.or_false, Bool.false_eq_true,
    if_false, Nat.not_lt.mpr hcount]
  rcases splitOnce '/' text with _ | ⟨front, back⟩ <;> rfl

lemma IsSign.plain {n : ℤ} (h : IsSign sign n) : Plain sign := by
  obtain ⟨-, rfl⟩ | ⟨-, rfl | rfl⟩ := h
  · exact plain_nil.cons (by decide)
  · exact plain_nil
  · exact plain_nil.cons (by decide)

lemma plain_exactText (h : Plain sign) : Plain (exactText sign value) := by
  cases value with
  | exactInteger value => exact h.append (plain_digits _)
  | exactRational value =>
    exact (h.append (plain_digits _)).append ((plain_digits _).cons (by decide))
  | inexact value => exact plain_nil

lemma slash_not_mem_digits (n : ℕ) : '/' ∉ Nat.toDigits 10 n := not_mem_digits n (by decide)

lemma IsSign.slash_not_mem {n : ℤ} (h : IsSign sign n) : '/' ∉ sign := by
  obtain ⟨-, rfl⟩ | ⟨-, rfl | rfl⟩ := h <;> decide

/-- **An exact real is read back**, with any sign that its numerator may have. -/
lemma parseReal_exactText (h : IsNormal value) (hsign : IsSign sign (numerator value)) :
    parseReal parseF64 (exactText sign value) 10 none = .ok value := by
  have hplain := @plain_exactText sign value hsign.plain
  have hslash := hsign.slash_not_mem
  cases value with
  | inexact value => exact absurd h.1 id
  | exactInteger value =>
    have hfree : '/' ∉ sign ++ Nat.toDigits 10 value.natAbs := fun mem =>
      (List.mem_append.1 mem).elim hslash (slash_not_mem_digits _)
    have hinteger := parseInteger_digits (show IsSign sign value from hsign) h.1
    have hcount : (exactText sign (.exactInteger value)).count '/' ≤ 1 := by
      rw [exactText, List.count_eq_zero.2 hfree]
      exact Nat.zero_le 1
    rw [parseReal_plain hplain hcount, exactText, splitOnce_of_not_mem hfree]
    change (parseInteger _ 10 >>= _) = _
    rw [hinteger, ok_bind]
    rfl
  | exactRational value =>
    obtain ⟨⟨hnum, hden, hpos, hcoprime⟩, hproper⟩ := h
    have hfree : '/' ∉ sign ++ Nat.toDigits 10 value.numerator.natAbs := fun mem =>
      (List.mem_append.1 mem).elim hslash (slash_not_mem_digits _)
    have hcount : (exactText sign (.exactRational value)).count '/' ≤ 1 := by
      rw [exactText, List.count_append, List.count_eq_zero.2 hfree, List.count_cons_self,
        List.count_eq_zero.2 (slash_not_mem_digits _)]
    have hdenominator : ((value.denominator.natAbs : ℕ) : ℤ) = value.denominator := by omega
    have hdelivers := NumberExact.checkedRational_of_pos (fits_mono (by decide) hnum)
      (fits_mono (by decide) hden) hpos
    have hrational : checkedRational value.numerator value.denominator =
        .ok (.exactRational value) := by
      refine (hdelivers.1 _).2 ⟨_, rfl, ?_, ?_⟩
      · exact (NumberExact.representable_div hpos hcoprime).2 (.inr ⟨hnum, hden⟩)
      · rw [NumberExact.ofRat_div hpos hcoprime, if_neg (hproper value rfl)]
    have hinteger := parseInteger_digits (show IsSign sign value.numerator from hsign)
      (fits_mono (by decide) hnum)
    rw [parseReal_plain hplain hcount, exactText, splitOnce_append hfree]
    change (parseInteger _ 10 >>= _) = _
    rw [hinteger, ok_bind,
      parseUnsigned_digits (by rw [hdenominator]; exact hden), ok_bind, hdenominator,
      if_neg hpos.ne']
    exact hrational

/-- The sign of a negative number. -/
def minusSign (value : Number.Real) : Text := if numerator value < 0 then ['-'] else []

lemma isSign_minusSign (value : Number.Real) : IsSign (minusSign value) (numerator value) := by
  unfold minusSign
  by_cases h : numerator value < 0
  · rw [if_pos h]
    exact .inl ⟨h, rfl⟩
  · rw [if_neg h]
    exact .inr ⟨not_lt.1 h, .inl rfl⟩

lemma realExternal_eq (h : IsNormal value) :
    realExternal shortest value = exactText (minusSign value) value := by
  cases value with
  | inexact value => exact absurd h.1 id
  | exactInteger value => exact intRepr_toList value
  | exactRational value =>
    have hpos : ¬ value.denominator < 0 := not_lt.2 h.1.2.2.1.le
    rw [realExternal, intRepr_toList, intRepr_toList, if_neg hpos]
    rfl

/-- The imaginary part has a sign in any case. -/
def plusSign (value : Number.Real) : Text := if numerator value < 0 then ['-'] else ['+']

lemma isSign_plusSign (value : Number.Real) : IsSign (plusSign value) (numerator value) := by
  unfold plusSign
  by_cases h : numerator value < 0
  · rw [if_pos h]
    exact .inl ⟨h, rfl⟩
  · rw [if_neg h]
    exact .inr ⟨not_lt.1 h, .inr rfl⟩

lemma imaginaryExternal_eq (h : IsNormal value) :
    imaginarySign value ++ realExternal shortest value = exactText (plusSign value) value := by
  have hsign (n : ℤ) (digits : Text) :
      (if 0 ≤ n then ['+'] else []) ++ ((if n < 0 then ['-'] else []) ++ digits) =
        (if n < 0 then ['-'] else ['+']) ++ digits := by
    by_cases hneg : n < 0
    · rw [if_neg (not_le.2 hneg), if_pos hneg, if_pos hneg]
      rfl
    · rw [if_pos (not_lt.1 hneg), if_neg hneg, if_neg hneg]
      rfl
  rw [realExternal_eq h]
  cases value with
  | inexact value => exact absurd h.1 id
  | exactInteger value => exact hsign value _
  | exactRational value =>
    change _ ++ ((_ ++ _) ++ _) = (_ ++ _) ++ _
    rw [← List.append_assoc, ← List.append_assoc]
    exact congrArg (· ++ _) ((List.append_assoc _ _ _).trans (hsign value.numerator _))

/-! ### Exact numbers are read back -/

lemma lastSign_of_free {tail : Text} {before : Option Char} (h : '+' ∉ tail ∧ '-' ∉ tail) :
    lastSign before tail = none := by
  induction tail generalizing before with
  | nil => rfl
  | cons c tail ih =>
    simp only [List.mem_cons, not_or] at h
    have hc : (before.isSome && (c = '+' || c = '-') && before ≠ some 'e') = false := by
      rw [decide_eq_false (Ne.symm h.1.1), decide_eq_false (Ne.symm h.2.1), Bool.or_false,
        Bool.and_false, Bool.false_and]
    rw [lastSign, ih ⟨h.1.2, h.2.2⟩]
    dsimp only
    rw [hc, if_neg Bool.false_ne_true]

lemma lastSign_append {front tail : Text} {c : Char} {before : Option Char}
    (hc : c = '+' ∨ c = '-') (htail : '+' ∉ tail ∧ '-' ∉ tail)
    (hfront : 'e' ∉ front) (hbefore : before ≠ some 'e')
    (hstart : front ≠ [] ∨ before.isSome = true) :
    lastSign before (front ++ c :: tail) = some front.length := by
  induction front generalizing before with
  | nil =>
    have hsome := hstart.resolve_left fun h => h rfl
    have hsign : (c = '+' || c = '-' : Bool) = true := by
      rw [Bool.or_eq_true, decide_eq_true_iff, decide_eq_true_iff]
      exact hc
    rw [List.nil_append, lastSign, lastSign_of_free htail]
    dsimp only
    rw [hsome, hsign, decide_eq_true hbefore]
    rfl
  | cons a front ih =>
    simp only [List.mem_cons, not_or] at hfront
    rw [List.cons_append, lastSign,
      ih hfront.2 (fun h => hfront.1 (Option.some.inj h).symm) (.inr rfl)]
    rfl

/-- The exact numbers that are not polar. -/
def IsExactNumber : Number → Prop
  | .real value => IsNormal value
  | .rectangular real imaginary => IsNormal real ∧ IsNormal imaginary
  | .polar _ _ => False

lemma exactText_ne_nil (h : IsNormal value) : exactText sign value ≠ [] := by
  have hdigits (n : ℕ) : sign ++ Nat.toDigits 10 n ≠ [] :=
    List.append_ne_nil_of_right_ne_nil _ (PrefixCode.digits_ne_nil n (by decide))
  cases value with
  | inexact value => exact absurd h.1 id
  | exactInteger value => exact hdigits _
  | exactRational value => exact List.append_ne_nil_of_left_ne_nil (hdigits _) _

lemma exactText_cons (h : IsNormal value) :
    ∃ d < 10, ∃ rest, exactText sign value = sign ++ Nat.digitChar d :: rest ∧
      '+' ∉ Nat.digitChar d :: rest ∧ '-' ∉ Nat.digitChar d :: rest := by
  have hdigits (n : ℕ) {back : Text} (hback : '+' ∉ back ∧ '-' ∉ back) :
      ∃ d < 10, ∃ rest, sign ++ Nat.toDigits 10 n ++ back = sign ++ Nat.digitChar d :: rest ∧
        '+' ∉ Nat.digitChar d :: rest ∧ '-' ∉ Nat.digitChar d :: rest := by
    have hfree (c : Char) (hc : ∀ d < 10, Nat.digitChar d ≠ c) (h : c ∉ back) :
        c ∉ Nat.toDigits 10 n ++ back := fun mem =>
      (List.mem_append.1 mem).elim (not_mem_digits n hc) h
    obtain ⟨d, less, rest, heq⟩ := PrefixCode.digits_head n (show 1 < 10 by decide)
    refine ⟨d, less, rest ++ back, by rw [List.append_assoc, heq, List.cons_append], ?_⟩
    rw [← List.cons_append, ← heq]
    exact ⟨hfree '+' (by decide) hback.1, hfree '-' (by decide) hback.2⟩
  cases value with
  | inexact value => exact absurd h.1 id
  | exactInteger value =>
    obtain ⟨d, less, rest, heq, hfree⟩ := @hdigits value.natAbs [] (by simp)
    rw [List.append_nil] at heq
    exact ⟨d, less, rest, heq, hfree⟩
  | exactRational value =>
    refine hdigits value.numerator.natAbs ⟨?_, ?_⟩
    · exact fun mem => (List.mem_cons.1 mem).elim (by decide) (not_mem_digits _ (by decide))
    · exact fun mem => (List.mem_cons.1 mem).elim (by decide) (not_mem_digits _ (by decide))

lemma plusSign_cons (value : Number.Real) :
    ∃ c, (c = '+' ∨ c = '-') ∧ plusSign value = [c] := by
  unfold plusSign
  split
  · exact ⟨'-', .inr rfl, rfl⟩
  · exact ⟨'+', .inl rfl, rfl⟩

lemma parseRectangular_exact {real imaginary : Number.Real} (hreal : IsNormal real)
    (himaginary : IsNormal imaginary) :
    parseRectangular parseF64
      (exactText (minusSign real) real ++ exactText (plusSign imaginary) imaginary) 10 none =
      .ok (.rectangular real imaginary) := by
  obtain ⟨c, hc, hplus⟩ := plusSign_cons imaginary
  obtain ⟨d, less, rest, htext, hfree⟩ := @exactText_cons [c] imaginary himaginary
  have hne := @exactText_ne_nil (minusSign real) real hreal
  have hplain : Plain (exactText (minusSign real) real) :=
    plain_exactText (isSign_minusSign real).plain
  have hback : exactText (plusSign imaginary) imaginary = c :: Nat.digitChar d :: rest := by
    rw [hplus, htext]
    rfl
  have hlast := @lastSign_append _ _ c none hc hfree
    (hplain.not_mem (show 'e' ∉ plainChars by decide)) (by simp) (.inl hne)
  have hlong : 3 ≤ (exactText (minusSign real) real ++ c :: Nat.digitChar d :: rest).length := by
    have := List.length_pos_iff.2 hne
    rw [List.length_append, List.length_cons, List.length_cons]
    omega
  rw [hback]
  unfold parseRectangular
  rw [if_neg, hlast]
  · dsimp only
    rw [List.take_left, List.drop_left, parseReal_exactText hreal (isSign_minusSign real), ok_bind,
      if_neg (by simp), if_neg (by simp), ← hback,
      parseReal_exactText himaginary (isSign_plusSign imaginary)]
    rfl
  · rintro (h | h | h) <;> rw [h] at hlong <;> exact absurd hlong (by decide)

/-- What an exact number is written with. -/
def exactChars : Text := 'i' :: plainChars

lemma map_toLower {text : Text} (h : ∀ c ∈ text, c ∈ exactChars) :
    text.map Char.toLower = text := by
  have hsame : (exactChars.all fun c => c.toLower == c) = true := by decide
  have heach (c : Char) (mem : c ∈ text) : c.toLower = c :=
    beq_iff_eq.1 (List.all_eq_true.1 hsame c (h c mem))
  exact (List.map_congr_left heach).trans (List.map_id text)

lemma prefixLoop_of_head {state : Prefixes} (h : state.rest.head? ≠ some '#') :
    prefixLoop 2 state = .ok state := by
  have hstep : prefixStep state = .inl none := by
    unfold prefixStep
    split
    · rename_i heq
      exact absurd (by rw [heq]; rfl) h
    · rfl
  rw [prefixLoop, hstep]

lemma unsignedDecimal_digit :
    ∀ d < 10, ∀ rest, unsignedDecimal (Nat.digitChar d :: rest) = true := by
  have hdigit : ∀ d < 10, isAsciiDigit (Nat.digitChar d) = true ∧ Nat.digitChar d ≠ '.' := by
    decide
  intro d less rest
  unfold unsignedDecimal
  split
  · rename_i heq
    exact absurd (List.cons.inj heq).1 (hdigit d less).2
  · rename_i heq
    rw [← (List.cons.inj heq).1]
    exact (hdigit d less).1
  · rename_i heq
    cases heq

/-- A text that begins like an exact real, with an `i` behind it or not, is a number. -/
lemma parse_exact (h : IsNormal value) {back : Text}
    (hback : ∀ c ∈ back, c ∈ exactChars) :
    parse parseF64 (exactText (minusSign value) value ++ back) =
      some (parseBody parseF64 (exactText (minusSign value) value ++ back) 10 none) := by
  have hplain : Plain (exactText (minusSign value) value) :=
    plain_exactText (isSign_minusSign value).plain
  have hexact : ∀ c ∈ exactText (minusSign value) value ++ back, c ∈ exactChars := by
    intro c mem
    obtain mem | mem := List.mem_append.1 mem
    · exact List.mem_cons_of_mem _ (hplain c mem)
    · exact hback c mem
  obtain ⟨d, less, rest, htext, -⟩ := @exactText_cons (minusSign value) value h
  have hnumeric (text : Text) (htext : text = minusSign value ++ Nat.digitChar d :: rest ++ back) :
      text.head? ≠ some '#' ∧ looksNumeric text text = true := by
    have hdigit := unsignedDecimal_digit d less (rest ++ back)
    have hhash : ∀ d < 10, Nat.digitChar d ≠ '#' := by decide
    subst htext
    unfold minusSign
    split
    · refine ⟨by simp, ?_⟩
      unfold looksNumeric
      rw [show signedDecimal (['-'] ++ Nat.digitChar d :: rest ++ back) = true from hdigit]
      simp only [Bool.or_true, Bool.true_or]
    · refine ⟨fun hhead => hhash d less (Option.some.inj hhead), ?_⟩
      unfold looksNumeric
      rw [show unsignedDecimal ([] ++ Nat.digitChar d :: rest ++ back) = true from hdigit]
      simp only [Bool.or_true, Bool.true_or]
  obtain ⟨hhead, hlooks⟩ := hnumeric _ (congrArg (· ++ back) htext)
  unfold parse
  rw [map_toLower hexact, prefixLoop_of_head hhead]
  dsimp only
  rw [if_neg hhead, hlooks, if_neg (by decide)]

lemma numberExternal_rectangular {real imaginary : Number.Real} (hreal : IsNormal real)
    (himaginary : IsNormal imaginary) :
    numberExternal shortest (.rectangular real imaginary) =
      exactText (minusSign real) real ++ (exactText (plusSign imaginary) imaginary ++ ['i']) := by
  rw [numberExternal, ← realExternal_eq hreal, ← imaginaryExternal_eq himaginary,
    List.append_assoc, List.append_assoc, List.append_assoc]

/-- **An exact number is read back from its text.** -/
theorem parse_numberExternal {number : Number} (h : IsExactNumber number) :
    parse parseF64 (numberExternal shortest number) = some (.ok number) := by
  cases number with
  | polar magnitude angle => exact absurd h id
  | real value =>
    have hplain : Plain (exactText (minusSign value) value) :=
      plain_exactText (isSign_minusSign value).plain
    have hparse := @parse_exact parseF64 value h [] (by simp)
    rw [List.append_nil] at hparse
    have hlast : (exactText (minusSign value) value).getLast? ≠ some 'i' := fun hlast =>
      hplain.not_mem (show 'i' ∉ plainChars by decide) (List.mem_of_getLast? hlast)
    rw [numberExternal, realExternal_eq h, hparse, parseBody,
      splitOnce_of_not_mem (hplain.not_mem (by decide))]
    dsimp only
    rw [if_neg hlast, parseReal_exactText h (isSign_minusSign value)]
    rfl
  | rectangular real imaginary =>
    obtain ⟨hreal, himaginary⟩ := h
    have hplain : Plain (exactText (minusSign real) real) :=
      plain_exactText (isSign_minusSign real).plain
    have hplain' : Plain (exactText (plusSign imaginary) imaginary) :=
      plain_exactText (isSign_plusSign imaginary).plain
    have hpolar : '@' ∉ exactText (minusSign real) real ++
        (exactText (plusSign imaginary) imaginary ++ ['i']) := by
      simp only [List.mem_append, not_or]
      exact ⟨hplain.not_mem (by decide), hplain'.not_mem (by decide), by decide⟩
    have hback : ∀ c ∈ exactText (plusSign imaginary) imaginary ++ ['i'], c ∈ exactChars := by
      intro c mem
      obtain mem | mem := List.mem_append.1 mem
      · exact List.mem_cons_of_mem _ (hplain' c mem)
      · rw [List.mem_singleton.1 mem]
        exact List.mem_cons_self
    rw [numberExternal_rectangular hreal himaginary, parse_exact hreal hback, parseBody,
      splitOnce_of_not_mem hpolar]
    dsimp only
    rw [← List.append_assoc, List.getLast?_concat, if_pos rfl, List.dropLast_concat,
      parseRectangular_exact hreal himaginary]

/-- The number `-7/3+2i`. -/
def sample : Number := .rectangular (.exactRational ⟨-7, 3⟩) (.exactInteger 2)

theorem parse_sample :
    IsExactNumber sample ∧
      parse (fun _ => none) (numberExternal (fun _ => ([], 0)) sample) = some (.ok sample) := by
  have hexact : IsExactNumber sample := by
    have hinteger : Fits 128 2 := by decide
    refine ⟨⟨⟨by decide, by decide, by decide, ?_⟩, ?_⟩, ⟨hinteger, ?_⟩⟩
    · exact Int.isCoprime_iff_gcd_eq_one.2 (by decide)
    · intro fraction heq
      rw [← Number.Real.exactRational.inj heq]
      decide
    · intro fraction heq
      cases heq
  exact ⟨hexact, parse_numberExternal hexact⟩

end

end Neetan.NumberText
