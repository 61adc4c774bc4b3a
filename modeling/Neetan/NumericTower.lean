import Neetan.HeapOperations
import Neetan.Natives
import Neetan.NumberArith
import Neetan.NumberOrder

/-!
The inline arithmetic of the dispatch loop against the numeric tower, on exact operands.

The loop computes with `i64` immediates and leaves everything else to the tower. What it does
compute is what the tower gives, as the value that stands for it; the one exception is a
remainder that overflows, where the loop panics.
-/

namespace Neetan.NumericTower

open Neetan.MachineInt Neetan.Bytecode Neetan.Gc Neetan.Primitive

/-! ### The tower -/

/-- The number a value stands for. -/
def runtimeNumber (heap : Heap) (value : Value) : Option RuntimeNumber :=
  match value with
  | .fixnum value => some (.real (.exactInteger value.toInt))
  | .float value => some (.real (.inexact value))
  | value =>
    match heap.object value with
    | some (.number number) => some number
    | _ => none

def isExactReal : Number.Real → Bool
  | .inexact _ => false
  | _ => true

def isExact : RuntimeNumber → Bool
  | .real value => isExactReal value
  | .complex real imaginary => isExactReal real && isExactReal imaginary

section
variable (owned : Object → ℕ)

/-- An exact integer, on the heap when it exceeds the inline range. -/
def integer (value : ℤ) : HeapM Value :=
  match checked 64 value with
  | some value => pure (.fixnum (Int64.ofInt value))
  | none => alloc owned (.number (.real (.exactInteger value)))

/-- The value that stands for a number. -/
def numericValue (value : RuntimeNumber) : HeapM Value :=
  match value with
  | .real (.exactInteger value) => integer owned value
  | .real (.inexact value) => pure (.float value)
  | value => alloc owned (.number value)

/-- What the tower makes of two reals. -/
def towerValue (op : Opcode) (left right : Number.Real) : Number.Outcome (HeapM Value) :=
  match op with
  | .add => do return numericValue owned (.real (← Number.realAdd left right))
  | .subtract => do return numericValue owned (.real (← Number.realSub left right))
  | .multiply => do return numericValue owned (.real (← Number.realMul left right))
  | .divide => do return numericValue owned (.real (← Number.realDiv left right))
  | .numericEqual => do return pure (.boolean (← Number.realEqual left right))
  | op => do
    match ← Number.realCompare left right with
    | some ordering => return pure (.boolean (holds op ordering))
    | none => return pure (.boolean false)

end

/-- The tower gives this value, and leaves the heap as it is. -/
def TowerGives (op : Opcode) (left right : Number.Real) (value : Value) : Prop :=
  ∀ owned, ∃ action, towerValue owned op left right = .ok action ∧
    ∀ heap, action heap = .ok (value, heap)

/-! ### The loop, with its panics -/

/-- `i64` remainder: a zero divisor and the overflow of the least value by `-1` panic. -/
def remainder64 (left right : Int64) : Number.Outcome ℤ :=
  if right.toInt = 0 ∨ (left.toInt = minValue 64 ∧ right.toInt = -1) then .error .panic
  else .ok (left.toInt.tmod right.toInt)

/-- The quotient arm: fixnums whose remainder is zero. -/
def quotientArm (left right : Value) : Number.Outcome (Option Value) :=
  match left, right with
  | .fixnum left, .fixnum right =>
    if right.toInt = 0 then .ok none
    else do
      let remainder ← remainder64 left right
      return if remainder = 0 then checkedFixnum (left.toInt.tdiv right.toInt) else none
  | left, right => .ok (immediateQuotient left right)

/-- `register_numeric`, which panics where its remainder does. -/
def registerNumericArm (op : Opcode) (left right : Value) : Number.Outcome (Option Value) :=
  match left, right with
  | .float left, .float right => .ok (f64Numeric op left right)
  | left, right =>
    if op = .divide then quotientArm left right else .ok (registerNumeric op left right)

/-- The inline paths agree with the tower on two operands. -/
structure InlineAgrees (op : Opcode) (left right : Value) (a b : RuntimeNumber) : Prop where
  fast : ∀ value, numericFast op left right = some value →
    ∃ l r, a = .real l ∧ b = .real r ∧ TowerGives op l r value
  slow : ∃ result, registerNumericArm op left right = .ok result ∧ ∀ value, result = some value →
    ∃ l r, a = .real l ∧ b = .real r ∧ TowerGives op l r value

/-- The least fixnum divided by `-1`. -/
def OverflowingQuotient (op : Opcode) (left right : Value) : Prop :=
  op = .divide ∧ ∃ l r, left = .fixnum l ∧ right = .fixnum r ∧ l.toInt = minValue 64 ∧ r.toInt = -1

/-! ### Results -/

lemma numericValue_of_checked (owned : Object → ℕ) {v u : ℤ} (h : checked 64 v = some u) :
    numericValue owned (.real (.exactInteger v)) = pure (.fixnum (Int64.ofInt u)) := by
  change integer owned v = _
  unfold integer
  rw [h]

lemma pure_run (value : Value) (heap : Heap) :
    (pure value : HeapM Value) heap = .ok (value, heap) := rfl

variable {op : Opcode} {value right left : Value} {heap : Heap}

lemma towerGives_fixnum {l r v : ℤ} (h : checkedFixnum v = some value)
    (hop : ∀ owned, towerValue owned op (.exactInteger l) (.exactInteger r) =
      .ok (numericValue owned (.real (.exactInteger v)))) :
    TowerGives op (.exactInteger l) (.exactInteger r) value := by
  obtain ⟨u, hu, rfl⟩ := Option.map_eq_some_iff.mp h
  intro owned
  refine ⟨_, hop owned, fun heap => ?_⟩
  rw [numericValue_of_checked owned hu]
  exact pure_run _ heap

lemma fits128_of_int64 (v : Int64) : Fits 128 v.toInt :=
  fits_mono (w := 64) (by norm_num) ⟨v.le_toInt, v.toInt_lt⟩

lemma towerGives_arithmetic {l r : Int64} (h : fixnumArithmetic op l r = some value) :
    TowerGives op (.exactInteger l.toInt) (.exactInteger r.toInt) value := by
  have hfits : ∀ {v : ℤ}, checkedFixnum v = some value → Fits 128 v := by
    intro v hv
    obtain ⟨u, hu, -⟩ := Option.map_eq_some_iff.mp hv
    exact fits_mono (by norm_num) (checked_eq_some.mp hu).1
  cases op
  case add =>
    refine towerGives_fixnum h fun owned => ?_
    rw [towerValue, Number.realAdd, checked_of_fits (hfits h)]
    rfl
  case subtract =>
    refine towerGives_fixnum h fun owned => ?_
    rw [towerValue, Number.realSub, checked_of_fits (hfits h)]
    rfl
  case multiply =>
    refine towerGives_fixnum h fun owned => ?_
    rw [towerValue, Number.realMul, checked_of_fits (hfits h)]
    rfl
  all_goals cases h

lemma towerGives_quotient {l r : Int64} (hr : r.toInt ≠ 0) (hrest : l.toInt.tmod r.toInt = 0)
    (h : checkedFixnum (l.toInt.tdiv r.toInt) = some value) :
    TowerGives .divide (.exactInteger l.toInt) (.exactInteger r.toInt) value := by
  obtain ⟨u, hu, -⟩ := Option.map_eq_some_iff.mp h
  obtain ⟨hfits, -⟩ := checked_eq_some.mp hu
  have hl : l.toInt = r.toInt * l.toInt.tdiv r.toInt := by
    have hsum := Int.mul_tdiv_add_tmod l.toInt r.toInt
    omega
  generalize l.toInt.tdiv r.toInt = q at hl h hfits
  have hq : NumberExact.toRat (.exactInteger l.toInt) / NumberExact.toRat (.exactInteger r.toInt) =
      (q : ℚ) := by
    have hr' : (r.toInt : ℚ) ≠ 0 := Int.cast_ne_zero.mpr hr
    rw [NumberExact.toRat, NumberExact.toRat, hl, Int.cast_mul, mul_div_cancel_left₀ _ hr']
  have hmin : ¬ NumberArith.MinQuotient (NumberExact.toRat (.exactInteger l.toInt))
      (NumberExact.toRat (.exactInteger r.toInt)) := by
    rintro ⟨-, hquot⟩
    have hle : ((-2 ^ 63 : ℤ) : ℚ) ≤ q := Int.cast_le.mpr hfits.1
    rw [← hq, hquot] at hle
    norm_num at hle
  have hexact : ∀ v : Int64, NumberExact.IsExact (.exactInteger v.toInt) := fits128_of_int64
  have hdeliver := (NumberArith.realDiv_delivers_iff (hexact l) (hexact r)).mpr hmin
  rw [if_neg (by simpa [NumberExact.toRat] using hr), hq] at hdeliver
  have hok := (hdeliver.1 _).mpr
    ⟨q, rfl, (NumberExact.representable_intCast q).mpr (fits_mono (by norm_num) hfits), rfl⟩
  rw [NumberExact.ofRat_intCast] at hok
  refine towerGives_fixnum h fun owned => ?_
  rw [towerValue, hok]
  rfl

lemma towerGives_comparison (h : isComparison op = true) (l r : Int64) :
    TowerGives op (.exactInteger l.toInt) (.exactInteger r.toInt)
      (.boolean (holds op (compare l.toInt r.toInt))) := by
  intro owned
  refine ⟨pure (.boolean (holds op (compare l.toInt r.toInt))), ?_, pure_run _⟩
  have hholds := holds_compare op l.toInt r.toInt h
  cases op
  case numericEqual => rw [hholds]; rfl
  case numericLess | numericLessEqual | numericGreater | numericGreaterEqual => rfl
  all_goals cases h

lemma towerGives_of_registerNumeric {l r : Int64}
    (h : registerNumeric op (.fixnum l) (.fixnum r) = some value) :
    TowerGives op (.exactInteger l.toInt) (.exactInteger r.toInt) value := by
  by_cases harith : isArithmetic op = true
  · rw [registerNumeric_arithmetic harith] at h
    exact towerGives_arithmetic h
  · by_cases hdiv : op = .divide
    · subst hdiv
      rw [registerNumeric_divide, immediateQuotient] at h
      obtain ⟨⟨hr, hrest⟩, hquot⟩ := Option.ite_none_right_eq_some.mp h
      exact towerGives_quotient hr hrest hquot
    · by_cases hcomp : isComparison op = true
      · rw [registerNumeric_comparison hcomp, immediateOrdering, Option.map_some] at h
        exact Option.some.inj h ▸ towerGives_comparison hcomp l r
      · simp [registerNumeric, harith, hdiv, hcomp] at h

/-! ### Operands -/

/-- An exact operand. -/
def ExactOperand (heap : Heap) (value : Value) (number : RuntimeNumber) : Prop :=
  runtimeNumber heap value = some number ∧ isExact number = true

lemma ExactOperand.not_float {v : Float} {number : RuntimeNumber} :
    ¬ ExactOperand heap (.float v) number := by
  rintro ⟨hnumber, hexact⟩
  obtain rfl := Option.some.inj hnumber
  cases hexact

lemma ExactOperand.fixnum {v : Int64} {number : RuntimeNumber}
    (h : ExactOperand heap (.fixnum v) number) : number = .real (.exactInteger v.toInt) :=
  (Option.some.inj h.1).symm

lemma fixnums_of_registerNumeric {a b : RuntimeNumber} (ha : ExactOperand heap left a)
    (hb : ExactOperand heap right b) (h : registerNumeric op left right = some value) :
    ∃ l r, left = .fixnum l ∧ right = .fixnum r := by
  cases left with
  | float l => exact absurd ha ExactOperand.not_float
  | fixnum l =>
    cases right with
    | float r => exact absurd hb ExactOperand.not_float
    | fixnum r => exact ⟨l, r, rfl, rfl⟩
    | _ => simp [registerNumeric, immediateArithmetic, immediateQuotient, immediateOrdering] at h
  | _ => simp [registerNumeric, immediateArithmetic, immediateQuotient, immediateOrdering] at h

lemma agrees_of_registerNumeric {a b : RuntimeNumber} (ha : ExactOperand heap left a)
    (hb : ExactOperand heap right b) (h : registerNumeric op left right = some value) :
    ∃ l r, a = .real l ∧ b = .real r ∧ TowerGives op l r value := by
  obtain ⟨l, r, rfl, rfl⟩ := fixnums_of_registerNumeric ha hb h
  exact ⟨_, _, ha.fixnum, hb.fixnum, towerGives_of_registerNumeric h⟩

/-! ### Panics -/

lemma quotientArm_eq (h : ¬ OverflowingQuotient .divide left right) :
    quotientArm left right = .ok (immediateQuotient left right) := by
  cases left with
  | fixnum l =>
    cases right with
    | fixnum r =>
      rw [quotientArm, immediateQuotient]
      by_cases hr : r.toInt = 0
      · rw [if_pos hr, if_neg fun hand => hand.1 hr]
      · have hrem : remainder64 l r = .ok (l.toInt.tmod r.toInt) := by
          refine if_neg ?_
          rintro (hzero | ⟨hl, hone⟩)
          · exact hr hzero
          · exact h ⟨rfl, l, r, rfl, rfl, hl, hone⟩
        rw [if_neg hr, hrem]
        by_cases hrest : l.toInt.tmod r.toInt = 0
        · rw [if_pos ⟨hr, hrest⟩]
          exact congrArg _ (if_pos hrest)
        · rw [if_neg fun hand => hrest hand.2]
          exact congrArg _ (if_neg hrest)
    | _ => rfl
  | _ => rfl

lemma registerNumericArm_eq (h : ¬ OverflowingQuotient op left right) :
    registerNumericArm op left right = .ok (registerNumeric op left right) := by
  have harm : (if op = .divide then quotientArm left right
      else .ok (registerNumeric op left right)) = .ok (registerNumeric op left right) := by
    split_ifs with hop
    · subst hop
      rw [quotientArm_eq h, registerNumeric_divide]
    · rfl
  cases left with
  | float l =>
    cases right with
    | float r => rfl
    | _ => exact harm
  | _ => exact harm

lemma registerNumericArm_overflow (h : OverflowingQuotient op left right) :
    registerNumericArm op left right = .error .panic := by
  obtain ⟨rfl, l, r, rfl, rfl, hl, hr⟩ := h
  have hne : r.toInt ≠ 0 := by omega
  have hrem : remainder64 l r = .error .panic := if_pos (.inr ⟨hl, hr⟩)
  rw [registerNumericArm, if_pos rfl, quotientArm, if_neg hne, hrem]
  · rfl
  · nofun

/-- **The inline arithmetic agrees with the tower** on exact operands, unless the least fixnum is
divided by `-1`. -/
theorem inline_agrees_iff {a b : RuntimeNumber} (ha : ExactOperand heap left a)
    (hb : ExactOperand heap right b) :
    InlineAgrees op left right a b ↔ ¬ OverflowingQuotient op left right := by
  constructor
  · rintro ⟨-, result, hok, -⟩ hover
    rw [registerNumericArm_overflow hover] at hok
    cases hok
  · intro hover
    refine ⟨fun value h => ?_, _, registerNumericArm_eq hover, fun value h => ?_⟩
    · exact agrees_of_registerNumeric ha hb (registerNumeric_of_fast h)
    · exact agrees_of_registerNumeric ha hb h

theorem inline_agrees_six :
    InlineAgrees .divide (.fixnum 6) (.fixnum (-3)) (.real (.exactInteger 6))
      (.real (.exactInteger (-3))) ↔ ¬ OverflowingQuotient .divide (.fixnum 6) (.fixnum (-3)) :=
  have hexact : ∀ v : Int64, ExactOperand (Heap.new ⟨16, 16, 1024⟩) (.fixnum v)
      (.real (.exactInteger v.toInt)) := fun _ => ⟨rfl, rfl⟩
  inline_agrees_iff (hexact 6) (hexact (-3))

/-- The least fixnum divided by `-1` panics. -/
theorem inline_quotient_panics :
    registerNumericArm .divide (.fixnum Int64.minValue) (.fixnum (-1)) = .error .panic ∧
    ¬ InlineAgrees .divide (.fixnum Int64.minValue) (.fixnum (-1))
      (.real (.exactInteger (-2 ^ 63))) (.real (.exactInteger (-1))) := by
  have hpanic : registerNumericArm .divide (.fixnum Int64.minValue) (.fixnum (-1)) =
      .error .panic := registerNumericArm_overflow ⟨rfl, _, _, rfl, rfl, by decide, by decide⟩
  refine ⟨hpanic, ?_⟩
  rintro ⟨-, result, hok, -⟩
  rw [hpanic] at hok
  cases hok

end Neetan.NumericTower
