import Neetan.FloatSums
import Neetan.MachineInt
import Mathlib.Data.Rat.Lemmas

/-!
Exact and inexact reals of the Scheme runtime and their arithmetic.

An `i128` and an `i64` are integers; every operation that the runtime leaves unchecked
reports a panic here where the machine operation would overflow or divide by zero, and
every checked operation reports the runtime's own message.
-/

namespace Neetan.Number

open Neetan.FloatSums (ofInteger)
open Neetan.MachineInt

/-- How an operation can fail: with a message, or by a panic of the machine. -/
inductive Fault
  | message (text : String)
  | panic
  deriving DecidableEq, Repr

abbrev Outcome (α : Type) := Except Fault α

/-- A fraction of two `i64` values. -/
structure ExactRational where
  numerator : ℤ
  denominator : ℤ
  deriving DecidableEq, Repr

/-- A real number of the runtime. -/
inductive Real
  | exactInteger (value : ℤ)
  | exactRational (value : ExactRational)
  | inexact (value : Float)

def rangeMessage : String := "exact numeric result exceeds the supported i128 range"
def numeratorMessage : String := "exact rational numerator exceeds the supported i64 range"
def denominatorMessage : String := "exact rational denominator exceeds the supported i64 range"
def zeroMessage : String := "division by exact zero"

/-- A missing value becomes the given message. -/
def okOr {α : Type} (value : Option α) (text : String) : Outcome α :=
  match value with
  | some v => .ok v
  | none => .error (.message text)

/-- `i128` division: a zero divisor and a quotient out of range panic. -/
def div128 (a b : ℤ) : Outcome ℤ :=
  if b = 0 ∨ ¬ Fits 128 (a.tdiv b) then .error .panic else .ok (a.tdiv b)

/-- `i128` negation: a result out of range panics. -/
def neg128 (a : ℤ) : Outcome ℤ := if Fits 128 (-a) then .ok (-a) else .error .panic

/-- Euclid's algorithm on `u128`. -/
def gcd128 (left right : ℕ) : ℕ :=
  if right = 0 then left else gcd128 right (left % right)
termination_by right
decreasing_by exact Nat.mod_lt _ (Nat.pos_of_ne_zero ‹_›)

/-- Both parts of a fraction with a positive denominator. -/
def normalizeSign (numerator denominator : ℤ) : Outcome (ℤ × ℤ) :=
  if denominator < 0 then do
    let numerator ← okOr (checked 128 (-numerator)) rangeMessage
    let denominator ← okOr (checked 128 (-denominator)) rangeMessage
    return (numerator, denominator)
  else return (numerator, denominator)

def checkedRational (numerator denominator : ℤ) : Outcome Real := do
  if denominator = 0 then .error (.message zeroMessage) else
  let (numerator, denominator) ← normalizeSign numerator denominator
  let divisor := castSigned 128 (gcd128 numerator.natAbs denominator.natAbs)
  let numerator ← div128 numerator divisor
  let denominator ← div128 denominator divisor
  if denominator = 1 then return .exactInteger numerator else
  let numerator ← okOr (checked 64 numerator) numeratorMessage
  let denominator ← okOr (checked 64 denominator) denominatorMessage
  return .exactRational ⟨numerator, denominator⟩

/-- The numerator and denominator of an exact real. -/
def fraction : Real → Option (ℤ × ℤ)
  | .exactInteger value => some (value, 1)
  | .exactRational value => some (value.numerator, value.denominator)
  | .inexact _ => none

def toF64 : Real → Float
  | .exactInteger value => ofInteger value
  | .exactRational value => ofInteger value.numerator / ofInteger value.denominator
  | .inexact value => value

/-- `f64::partial_cmp`. -/
def partialCmp (left right : Float) : Option Ordering :=
  if left < right then some .lt else if left == right then some .eq
  else if right < left then some .gt else none

def realAdd (left right : Real) : Outcome Real :=
  match left, right with
  | .exactInteger left, .exactInteger right =>
    return .exactInteger (← okOr (checked 128 (left + right)) rangeMessage)
  | left, right =>
    match fraction left, fraction right with
    | some (a, b), some (c, d) => do
      let ad ← okOr (checked 128 (a * d)) rangeMessage
      let cb ← okOr (checked 128 (c * b)) rangeMessage
      let numerator ← okOr (checked 128 (ad + cb)) rangeMessage
      let denominator ← okOr (checked 128 (b * d)) rangeMessage
      checkedRational numerator denominator
    | _, _ => return .inexact (toF64 left + toF64 right)

def realNeg : Real → Outcome Real
  | .exactInteger value => return .exactInteger (← okOr (checked 128 (-value)) rangeMessage)
  | .exactRational value => do checkedRational (← neg128 value.numerator) value.denominator
  | .inexact value => return .inexact (-value)

def realSub (left right : Real) : Outcome Real :=
  match left, right with
  | .exactInteger left, .exactInteger right =>
    return .exactInteger (← okOr (checked 128 (left - right)) rangeMessage)
  | left, right => do realAdd left (← realNeg right)

def realMul (left right : Real) : Outcome Real :=
  match left, right with
  | .exactInteger left, .exactInteger right =>
    return .exactInteger (← okOr (checked 128 (left * right)) rangeMessage)
  | left, right =>
    match fraction left, fraction right with
    | some (a, b), some (c, d) => do
      let leftDivisor := castSigned 128 (gcd128 a.natAbs d.natAbs)
      let rightDivisor := castSigned 128 (gcd128 c.natAbs b.natAbs)
      let numerator ← okOr (checked 128 ((← div128 a leftDivisor) * (← div128 c rightDivisor)))
        rangeMessage
      let denominator ← okOr (checked 128 ((← div128 b rightDivisor) * (← div128 d leftDivisor)))
        rangeMessage
      checkedRational numerator denominator
    | _, _ => return .inexact (toF64 left * toF64 right)

def realDiv (left right : Real) : Outcome Real :=
  match fraction left, fraction right with
  | _, some (0, _) => .error (.message zeroMessage)
  | some (a, b), some (c, d) => do
    let numeratorDivisor := castSigned 128 (gcd128 a.natAbs c.natAbs)
    let denominatorDivisor := castSigned 128 (gcd128 d.natAbs b.natAbs)
    let numerator ← okOr
      (checked 128 ((← div128 a numeratorDivisor) * (← div128 d denominatorDivisor)))
      rangeMessage
    let denominator ← okOr
      (checked 128 ((← div128 b denominatorDivisor) * (← div128 c numeratorDivisor)))
      rangeMessage
    checkedRational numerator denominator
  | _, _ => return .inexact (toF64 left / toF64 right)

end Neetan.Number
