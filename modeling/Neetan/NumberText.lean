import Neetan.Number
import Neetan.PrefixCode

/-!
Numbers of the reader and their `Debug` text.

The text names each constructor. A float is laid out as the standard library does it: which
digits are the shortest that read back is left open, their layout is not.
-/

namespace Neetan.NumberText

/-- A number that the reader has read; a polar literal is kept as it is written. -/
inductive Number
  | real (value : Neetan.Number.Real)
  | rectangular (real imaginary : Neetan.Number.Real)
  | polar (magnitude angle : Neetan.Number.Real)

/-! ### Floats -/

def digitsText (digits : List (Fin 10)) : String :=
  String.ofList (digits.map fun digit : Fin 10 => Nat.digitChar digit)

def zeros (count : ℕ) : String := digitsText (List.replicate count 0)

/-- The number `0.digits · 10 ^ exponent` with a point and at least one digit behind it. -/
def decimalText (digits : List (Fin 10)) (exponent : ℤ) : String :=
  if exponent ≤ 0 then "0." ++ zeros (-exponent).toNat ++ digitsText digits
  else if exponent < digits.length then
    digitsText (digits.take exponent.toNat) ++ "." ++ digitsText (digits.drop exponent.toNat)
  else digitsText digits ++ zeros (exponent - digits.length).toNat ++ ".0"

/-- The same number with one digit before the point. -/
def exponentText (digits : List (Fin 10)) (exponent : ℤ) : String :=
  digitsText (digits.take 1) ++ (if 1 < digits.length then "." else "") ++
    digitsText (digits.drop 1) ++ "e" ++ Int.repr (exponent - 1)

/-- The `Debug` text of a float; `shortest` gives the shortest digits of its magnitude that
read back, and their exponent. -/
def floatText (shortest : Float → List (Fin 10) × ℤ) (value : Float) : String :=
  if value.isNaN then "NaN"
  else
    (if value.toBits >>> 63 = 1 then "-" else "") ++
      if value.isInf then "inf"
      else if value == 0 then "0.0"
      else if 1e16 ≤ value.abs ∨ value.abs < 1e-4 then
        exponentText (shortest value).1 (shortest value).2
      else decimalText (shortest value).1 (shortest value).2

/-! ### Numbers -/

variable (shortest : Float → List (Fin 10) × ℤ)

/-- `#[derive(Debug)]` of a real. -/
def realText : Neetan.Number.Real → String
  | .exactInteger value => "ExactInteger(" ++ Int.repr value ++ ")"
  | .exactRational value =>
    "ExactRational(ExactRational \x7b numerator: " ++ Int.repr value.numerator ++
      ", denominator: " ++ Int.repr value.denominator ++ " \x7d)"
  | .inexact value => "Inexact(" ++ floatText shortest value ++ ")"

/-- `#[derive(Debug)]` of a number. -/
def numberText : Number → String
  | .real value => "Real(" ++ realText shortest value ++ ")"
  | .rectangular real imaginary =>
    "Rectangular \x7b real: " ++ realText shortest real ++ ", imaginary: " ++
      realText shortest imaginary ++ " \x7d"
  | .polar magnitude angle =>
    "Polar \x7b magnitude: " ++ realText shortest magnitude ++ ", angle: " ++
      realText shortest angle ++ " \x7d"

/-! ### What no text of a number contains -/

/-- The text ends no field that ends at a semicolon. -/
def Unstopped (text : String) : Prop := ';' ∉ text.toList

instance : DecidablePred Unstopped := fun text => inferInstanceAs (Decidable (';' ∉ text.toList))

lemma Unstopped.append {text more : String} (h : Unstopped text) (hmore : Unstopped more) :
    Unstopped (text ++ more) := by
  rw [Unstopped, String.toList_append, List.mem_append, not_or]
  exact ⟨h, hmore⟩

lemma unstopped_ite {p : Prop} [Decidable p] {yes no : String} (hyes : Unstopped yes)
    (hno : Unstopped no) : Unstopped (if p then yes else no) := by
  split
  · exact hyes
  · exact hno

lemma digitChar_ne_semicolon : ∀ d < 16, Nat.digitChar d ≠ ';' := by decide

lemma digitsText_unstopped (digits : List (Fin 10)) : Unstopped (digitsText digits) := by
  rw [Unstopped, digitsText, String.toList_ofList, List.mem_map]
  rintro ⟨digit, _, his⟩
  have hlt := digit.isLt
  exact digitChar_ne_semicolon digit (by omega) his

lemma natRepr_unstopped (n : ℕ) : Unstopped (Nat.repr n) := by
  rw [Unstopped, Nat.repr, String.toList_ofList]
  intro hmem
  obtain ⟨d, hlt, his⟩ := PrefixCode.mem_digits (by decide) hmem
  exact digitChar_ne_semicolon d (by omega) his

lemma intRepr_unstopped (k : ℤ) : Unstopped (Int.repr k) := by
  cases k with
  | ofNat n => exact natRepr_unstopped n
  | negSucc n => exact .append (by decide) (natRepr_unstopped _)

lemma decimalText_unstopped (digits : List (Fin 10)) (exponent : ℤ) :
    Unstopped (decimalText digits exponent) := by
  have hpoint : Unstopped "." := by decide
  refine unstopped_ite ?_ (unstopped_ite ?_ ?_)
  · exact .append (.append (by decide) (digitsText_unstopped _)) (digitsText_unstopped _)
  · exact .append (.append (digitsText_unstopped _) hpoint) (digitsText_unstopped _)
  · exact .append (.append (digitsText_unstopped _) (digitsText_unstopped _)) (by decide)

lemma exponentText_unstopped (digits : List (Fin 10)) (exponent : ℤ) :
    Unstopped (exponentText digits exponent) := by
  have hpoint : Unstopped (if 1 < digits.length then "." else "") :=
    unstopped_ite (by decide) (by decide)
  have hmantissa := ((digitsText_unstopped (digits.take 1)).append hpoint).append
    (digitsText_unstopped (digits.drop 1))
  exact .append (hmantissa.append (by decide)) (intRepr_unstopped _)

lemma floatText_unstopped (value : Float) : Unstopped (floatText shortest value) := by
  refine unstopped_ite (by decide) (.append (unstopped_ite (by decide) (by decide)) ?_)
  refine unstopped_ite (by decide) (unstopped_ite (by decide) (unstopped_ite ?_ ?_))
  · exact exponentText_unstopped _ _
  · exact decimalText_unstopped _ _

lemma realText_unstopped (value : Neetan.Number.Real) : Unstopped (realText shortest value) := by
  cases value with
  | exactInteger value => exact .append (.append (by decide) (intRepr_unstopped _)) (by decide)
  | exactRational value =>
    have hname : Unstopped "ExactRational(ExactRational \x7b numerator: " := by decide
    have hbetween : Unstopped ", denominator: " := by decide
    have hparts := ((hname.append (intRepr_unstopped value.numerator)).append hbetween).append
      (intRepr_unstopped value.denominator)
    exact hparts.append (by decide)
  | inexact value => exact .append (.append (by decide) (floatText_unstopped _ _)) (by decide)

/-- **The text of a number ends no field.** -/
theorem numberText_unstopped (value : Number) : Unstopped (numberText shortest value) := by
  cases value with
  | real value => exact .append (.append (by decide) (realText_unstopped _ _)) (by decide)
  | rectangular real imaginary =>
    have hname : Unstopped "Rectangular \x7b real: " := by decide
    have hbetween : Unstopped ", imaginary: " := by decide
    have hparts := ((hname.append (realText_unstopped shortest real)).append hbetween).append
      (realText_unstopped shortest imaginary)
    exact hparts.append (by decide)
  | polar magnitude angle =>
    have hname : Unstopped "Polar \x7b magnitude: " := by decide
    have hbetween : Unstopped ", angle: " := by decide
    have hparts := ((hname.append (realText_unstopped shortest magnitude)).append hbetween).append
      (realText_unstopped shortest angle)
    exact hparts.append (by decide)

end Neetan.NumberText
