import Neetan.NumberParse
import Neetan.NumericTower

/-!
The natives behind `+` and `-`.

A sum starts at zero, a difference at its first argument. With an integer beside it a number of
any kind gives the same sum in both orders, and the same difference as the sum with the opposite
integer; the inexact reals differ only inline, where nothing is added to zero first.
-/

namespace Neetan.NumericTower

open Neetan.MachineInt Neetan.Bytecode Neetan.Gc Neetan.Primitive Neetan.Number

/-! ### Complex numbers -/

def isExactZero : Number.Real → Bool
  | .exactInteger value => value == 0
  | .exactRational value => value.numerator == 0
  | .inexact _ => false

/-- `RuntimeNumber::complex`: real where the imaginary part is an exact zero. -/
def complex (real imaginary : Number.Real) : RuntimeNumber :=
  if isExactZero imaginary then .real real else .complex real imaginary

def components : RuntimeNumber → Number.Real × Number.Real
  | .real real => (real, .exactInteger 0)
  | .complex real imaginary => (real, imaginary)

def numberAdd (left right : RuntimeNumber) : Number.Outcome RuntimeNumber :=
  match left, right with
  | .real left, .real right => return .real (← realAdd left right)
  | left, right => do
    let (a, b) := components left
    let (c, d) := components right
    let real ← realAdd a c
    let imaginary ← realAdd b d
    return complex real imaginary

def numberNeg (value : RuntimeNumber) : Number.Outcome RuntimeNumber :=
  match value with
  | .real value => return .real (← realNeg value)
  | .complex real imaginary => do
    let real ← realNeg real
    let imaginary ← realNeg imaginary
    return complex real imaginary

def numberSub (left right : RuntimeNumber) : Number.Outcome RuntimeNumber :=
  match left, right with
  | .real left, .real right => return .real (← realSub left right)
  | left, right => do numberAdd left (← numberNeg right)

/-! ### The natives -/

/-- `Heap::kind`, as it is printed. -/
def kindName (heap : Heap) : Value → String
  | .undefined => "Undefined"
  | .unspecified => "Unspecified"
  | .nil => "Nil"
  | .boolean _ => "Boolean"
  | .character _ => "Character"
  | .fixnum _ => "Fixnum"
  | .float _ => "Float"
  | .eof => "Eof"
  | .heap reference =>
    match heap.object (.heap reference) with
    | some (.pair ..) => "Pair"
    | some (.vector ..) => "Vector"
    | some (.bytevector ..) => "Bytevector"
    | some (.string ..) => "String"
    | some (.symbol _) => "Symbol"
    | some (.closure ..) | some (.caseLambda _) | some (.continuation _)
    | some (.recordProcedure _) | some .apply => "Procedure"
    | some (.native ..) => "NativeProcedure"
    | some (.promise _) => "Promise"
    | some (.parameter ..) => "Parameter"
    | some (.environment _) => "Environment"
    | some (.record ..) => "Record"
    | some (.recordType _) => "RecordType"
    | some (.port _) => "Port"
    | some (.number _) => "Number"
    | some (.randomSource ..) => "RandomSource"
    | _ => "Heap"

def numberArgument (heap : Heap) (value : Value) : Except Error RuntimeNumber :=
  match runtimeNumber heap value with
  | some number => .ok number
  | none => .error ⟨.typeError, "expected number, received " ++ kindName heap value⟩

/-- Sums of numbers in normal form never panic. -/
def numericError : Fault → Error
  | .message text => ⟨.implementationRestriction, text⟩
  | .panic => ⟨.nativePanic, "panic"⟩

/-- The result so far with one more argument. -/
def accumulate (operation : RuntimeNumber → RuntimeNumber → Number.Outcome RuntimeNumber)
    (heap : Heap) (result : RuntimeNumber) (value : Value) : Except Error RuntimeNumber := do
  let number ← numberArgument heap value
  (operation result number).mapError numericError

/-- Delivers a number, as a native without a view does; the root it pushes ends with it. -/
def deliver (owned : Object → ℕ) (result : Heap → Except Error RuntimeNumber) : Eval Value :=
  fun store =>
    match result store.heap with
    | .ok number => onHeap (numericValue owned number) store
    | .error error => .error (error, store)

def numericAdd (owned : Object → ℕ) (values : List Value) : Eval Value :=
  deliver owned fun heap => values.foldlM (accumulate numberAdd heap) (.real (.exactInteger 0))

/-- The engine passes at least one argument. -/
def numericSubtract (owned : Object → ℕ) (values : List Value) : Eval Value :=
  deliver owned fun heap =>
    match values with
    | [] => .error ⟨.nativePanic, "index out of bounds"⟩
    | [value] => do
      let number ← numberArgument heap value
      (numberNeg number).mapError numericError
    | value :: values => do
      let first ← numberArgument heap value
      values.foldlM (accumulate numberSub heap) first

/-! ### Sums with an integer -/

/-- A real in normal form; an inexact real has no other. -/
def Normal : Number.Real → Prop
  | .inexact _ => True
  | value => NumberText.IsNormal value

/-- The numbers the runtime builds. -/
def NormalNumber (value : RuntimeNumber) : Prop :=
  Normal (components value).1 ∧ Normal (components value).2

lemma normal_integer {v : ℤ} (h : Fits 128 v) : Normal (.exactInteger v) := ⟨h, by simp⟩

lemma inexact_congr {x y : Float} (h : x = y) :
    (.ok (.inexact x) : Number.Outcome Number.Real) = .ok (.inexact y) := by rw [h]

lemma realAdd_comm (l r : Number.Real) : realAdd l r = realAdd r l := by
  have hexact : ∀ a b c d : ℤ,
      (do
        let ad ← Number.okOr (checked 128 (a * d)) rangeMessage
        let cb ← Number.okOr (checked 128 (c * b)) rangeMessage
        let numerator ← Number.okOr (checked 128 (ad + cb)) rangeMessage
        let denominator ← Number.okOr (checked 128 (b * d)) rangeMessage
        checkedRational numerator denominator) = (do
        let ad ← Number.okOr (checked 128 (c * b)) rangeMessage
        let cb ← Number.okOr (checked 128 (a * d)) rangeMessage
        let numerator ← Number.okOr (checked 128 (ad + cb)) rangeMessage
        let denominator ← Number.okOr (checked 128 (d * b)) rangeMessage
        checkedRational numerator denominator) := by
    intro a b c d
    rw [mul_comm d b]
    cases checked 128 (a * d) with
    | none => cases checked 128 (c * b) <;> rfl
    | some ad =>
      cases checked 128 (c * b) with
      | none => rfl
      | some cb =>
        change (Number.okOr (checked 128 (ad + cb)) rangeMessage >>= _) =
          Number.okOr (checked 128 (cb + ad)) rangeMessage >>= _
        rw [add_comm ad cb]
  cases l with
  | inexact x => cases r <;> exact inexact_congr (FloatSums.add_comm _ _)
  | exactInteger a =>
    cases r with
    | exactInteger b => simp only [realAdd, add_comm a b]
    | exactRational b => exact hexact _ _ _ _
    | inexact x => exact inexact_congr (FloatSums.add_comm _ _)
  | exactRational a =>
    cases r with
    | inexact x => exact inexact_congr (FloatSums.add_comm _ _)
    | _ => exact hexact _ _ _ _

lemma zero_realAdd {r : Number.Real} (h : NumberText.IsNormal r) :
    realAdd (.exactInteger 0) r = .ok r := by
  obtain ⟨hexact, hreduced⟩ := h
  have hdeliver := NumberArith.realAdd_delivers (l := .exactInteger 0)
    (show Fits 128 0 by decide) hexact
  refine (hdeliver.1 r).mpr ⟨NumberExact.toRat r, by simp [NumberExact.toRat], ?_⟩
  cases r with
  | inexact x => exact hexact.elim
  | exactInteger v =>
    exact ⟨(NumberExact.representable_intCast v).mpr hexact, (NumberExact.ofRat_intCast v).symm⟩
  | exactRational v =>
    obtain ⟨hn, hd, hpos, hcop⟩ := hexact
    refine ⟨(NumberExact.representable_div hpos hcop).mpr (.inr ⟨hn, hd⟩), ?_⟩
    rw [NumberExact.toRat, NumberExact.ofRat_div hpos hcop, if_neg (hreduced v rfl)]

/-- Zero and a real, and then an integer. -/
lemma realAdd_from_zero {r : Number.Real} (h : Normal r) :
    ∃ r', realAdd (.exactInteger 0) r = .ok r' ∧ Normal r' ∧
      ∀ k : ℤ, k.natAbs < 2 ^ 64 → realAdd r' (.exactInteger k) = realAdd r (.exactInteger k) := by
  cases r with
  | inexact x =>
    refine ⟨.inexact (FloatSums.ofInteger 0 + x), rfl, trivial, fun k hk => ?_⟩
    exact inexact_congr (FloatSums.zero_add_add x hk)
  | exactInteger v => exact ⟨_, zero_realAdd h, h, fun _ _ => rfl⟩
  | exactRational v => exact ⟨_, zero_realAdd h, h, fun _ _ => rfl⟩

lemma components_complex {real imaginary : Number.Real} (h : Normal imaginary) :
    components (complex real imaginary) = (real, imaginary) := by
  unfold complex
  split_ifs with hzero
  · cases imaginary with
    | inexact x => cases hzero
    | exactInteger v =>
      obtain rfl := eq_of_beq hzero
      rfl
    | exactRational v =>
      obtain ⟨⟨-, -, hpos, hcop⟩, hreduced⟩ := h
      rw [eq_of_beq hzero, isCoprime_zero_left, Int.isUnit_iff] at hcop
      exact absurd (hcop.resolve_right (by omega)) (hreduced v rfl)
  · rfl

lemma numberAdd_eq (l r : RuntimeNumber) :
    numberAdd l r = (do
      let real ← realAdd (components l).1 (components r).1
      let imaginary ← realAdd (components l).2 (components r).2
      return complex real imaginary) := by
  cases l with
  | real l =>
    cases r with
    | real r => rfl
    | complex r i => rfl
  | complex l i => rfl

/-- An integer as a number. -/
def integerNumber (k : ℤ) : RuntimeNumber := .real (.exactInteger k)

lemma numberAdd_comm_integer (p : RuntimeNumber) (k : ℤ) :
    numberAdd (integerNumber k) p = numberAdd p (integerNumber k) := by
  rw [numberAdd_eq, numberAdd_eq, realAdd_comm (components p).1, realAdd_comm (components p).2]

/-- A sum that starts at zero: zero, a number and an integer. -/
lemma sum_from_zero {p : RuntimeNumber} (hp : NormalNumber p) {k : ℤ} (hk : k.natAbs < 2 ^ 64) :
    (do
      let sum ← numberAdd (integerNumber 0) p
      numberAdd sum (integerNumber k)) = numberAdd p (integerNumber k) := by
  obtain ⟨re, hre, -, hrek⟩ := realAdd_from_zero hp.1
  obtain ⟨im, him, hnormal, himk⟩ := realAdd_from_zero hp.2
  have hsum : numberAdd (integerNumber 0) p = .ok (complex re im) := by
    rw [numberAdd_eq]
    change (realAdd (.exactInteger 0) (components p).1 >>= fun real =>
      realAdd (.exactInteger 0) (components p).2 >>= fun imaginary => _) = _
    rw [hre, him]
    rfl
  rw [hsum, numberAdd_eq p]
  change numberAdd (complex re im) (integerNumber k) = _
  rw [numberAdd_eq, components_complex hnormal]
  change (realAdd re (.exactInteger k) >>= fun real =>
    realAdd im (.exactInteger 0) >>= fun imaginary => _) = _
  rw [hrek k hk, himk 0 (by decide)]
  rfl

lemma zero_numberAdd {k : ℤ} (hk : Fits 128 k) :
    numberAdd (integerNumber 0) (integerNumber k) = .ok (integerNumber k) := by
  change (do return RuntimeNumber.real (← realAdd (.exactInteger 0) (.exactInteger k))) = _
  rw [zero_realAdd (normal_integer hk)]
  rfl

/-- Taking an integer away is adding its opposite. -/
lemma numberSub_integer (p : RuntimeNumber) {k : ℤ} (hk : Fits 128 (-k)) :
    numberSub p (integerNumber k) = numberAdd p (integerNumber (-k)) := by
  have hneg : realNeg (.exactInteger k) = .ok (.exactInteger (-k)) := by
    rw [realNeg, checked_of_fits hk]
    rfl
  cases p with
  | complex re im =>
    have hnumber : numberNeg (integerNumber k) = .ok (integerNumber (-k)) := by
      rw [integerNumber, numberNeg, hneg]
      rfl
    change numberNeg (integerNumber k) >>= numberAdd (.complex re im) = _
    rw [hnumber]
    rfl
  | real r =>
    cases r with
    | exactInteger v => simp only [numberSub, numberAdd, integerNumber, realSub, realAdd,
        sub_eq_add_neg]
    | _ =>
      change (realNeg (.exactInteger k) >>= realAdd _) >>= (fun v => .ok (RuntimeNumber.real v)) = _
      rw [hneg]
      rfl

/-! ### The natives beside an integer -/

lemma mapError_bind {α β : Type} (x : Number.Outcome α) (f : α → Number.Outcome β) :
    (x >>= f).mapError numericError =
      x.mapError numericError >>= fun a => (f a).mapError numericError := by
  cases x <;> rfl

/-- The sum of two arguments that are numbers. -/
lemma foldlM_two {heap : Heap} {l r : Value} {a b : RuntimeNumber}
    (hl : runtimeNumber heap l = some a) (hr : runtimeNumber heap r = some b) :
    [l, r].foldlM (accumulate numberAdd heap) (integerNumber 0) =
      (do
        let sum ← numberAdd (integerNumber 0) a
        numberAdd sum b).mapError numericError := by
  rw [mapError_bind]
  simp only [List.foldlM_cons, List.foldlM_nil, accumulate, numberArgument, hl, hr, bind_pure]
  rfl

lemma foldlM_of_none {heap : Heap} {p r : Value} (h : runtimeNumber heap p = none)
    (operation : RuntimeNumber → RuntimeNumber → Number.Outcome RuntimeNumber) (a : RuntimeNumber) :
    (p :: [r]).foldlM (accumulate operation heap) a =
      .error ⟨.typeError, "expected number, received " ++ kindName heap p⟩ := by
  simp only [List.foldlM_cons, accumulate, numberArgument, h]
  rfl

/-- The opposite of a fixnum, where that is a fixnum. -/
def Opposed (j j' : Int64) : Prop := j'.toInt = -j.toInt

lemma natAbs_fixnum (j : Int64) : j.toInt.natAbs < 2 ^ 64 := by
  have hl := j.le_toInt
  have hu := j.toInt_lt
  omega

/-- A value that is no number, or one in normal form. -/
def NormalValue (heap : Heap) (value : Value) : Prop :=
  ∀ number, runtimeNumber heap value = some number → NormalNumber number

variable {heap : Heap} {p : Value}

variable {store : Store}

lemma numericSubtract_eq (owned : Object → ℕ) (hp : NormalValue store.heap p) {j j' : Int64}
    (hj : Opposed j j') :
    numericSubtract owned [p, .fixnum j] store = numericAdd owned [p, .fixnum j'] store := by
  have hresult : (do
      let first ← numberArgument store.heap p
      [Value.fixnum j].foldlM (accumulate numberSub store.heap) first) =
      [p, .fixnum j'].foldlM (accumulate numberAdd store.heap) (integerNumber 0) := by
    cases hn : runtimeNumber store.heap p with
    | none =>
      rw [foldlM_of_none hn, numberArgument, hn]
      rfl
    | some n =>
      have hsub := numberSub_integer n (k := j.toInt)
        (hj ▸ fits128_of_int64 j')
      rw [foldlM_two hn rfl]
      change _ = Except.mapError numericError (do
        let sum ← numberAdd (integerNumber 0) n
        numberAdd sum (integerNumber j'.toInt))
      rw [sum_from_zero (hp n hn) (natAbs_fixnum j'), hj, ← hsub]
      simp only [numberArgument, hn, List.foldlM_cons, List.foldlM_nil, accumulate, bind_pure]
      rfl
  exact congrArg (fun r => deliver owned (fun _ => r) store) hresult

lemma numericAdd_comm (owned : Object → ℕ) (hp : NormalValue store.heap p) (j : Int64) :
    numericAdd owned [.fixnum j, p] store = numericAdd owned [p, .fixnum j] store := by
  have hresult : [.fixnum j, p].foldlM (accumulate numberAdd store.heap) (integerNumber 0) =
      [p, .fixnum j].foldlM (accumulate numberAdd store.heap) (integerNumber 0) := by
    cases hn : runtimeNumber store.heap p with
    | none =>
      rw [foldlM_of_none hn]
      have hinteger : accumulate numberAdd store.heap (integerNumber 0) (.fixnum j) =
          .ok (integerNumber j.toInt) :=
        congrArg (Except.mapError numericError) (zero_numberAdd (fits128_of_int64 j))
      rw [List.foldlM_cons, hinteger]
      simp only [List.foldlM_cons, accumulate, numberArgument, hn]
      rfl
    | some n =>
      have hinteger : (do
          let sum ← numberAdd (integerNumber 0) (integerNumber j.toInt)
          numberAdd sum n) = numberAdd n (integerNumber j.toInt) := by
        rw [zero_numberAdd (fits128_of_int64 j)]
        exact numberAdd_comm_integer n _
      rw [foldlM_two hn rfl, foldlM_two rfl hn]
      exact congrArg (Except.mapError numericError)
        (hinteger.trans (sum_from_zero (hp n hn) (natAbs_fixnum j)).symm)
  exact congrArg (fun r => deliver owned (fun _ => r) store) hresult

section Engine
variable (engine : Engine)

/-- The engine's global for a base procedure holds this native, which takes two arguments. -/
def Holds (heap : Heap) (procedure : FastProcedure) (native : List Value → Eval Value) : Prop :=
  ∃ value id entry run, engine.globals (libraryName procedure) = some value ∧
    heap.native value = some id ∧ engine.natives[id]? = some entry ∧
    entry.fast = some procedure ∧ entry.least ≤ 2 ∧ 2 ≤ entry.most ∧
    entry.callback = .one run ∧ run none = native

/-- The sums and differences of the base library. -/
structure Sums (heap : Heap) : Prop where
  add : Holds engine heap .add (numericAdd engine.owned)
  subtract : Holds engine heap .subtract (numericSubtract engine.owned)

variable {engine}

lemma numeric_of_none {op : Opcode} {procedure : FastProcedure} (hp : fastOf op = some procedure)
    (hn : isNumeric op = true) {native : List Value → Eval Value}
    (h : Holds engine store.heap procedure native) {l r : Value}
    (hnone : registerNumeric op l r = none) :
    numeric engine op l r store = inRootedRegion (native [l, r]) store := by
  obtain ⟨value, id, entry, run, hglobal, hnative, hentry, hfast, hleast, hmost, hrun, rfl⟩ := h
  have hmiss : tryFast engine (some procedure) [l, r] store = .ok (none, store) := by
    rw [tryFast_numeric engine hp hn, hnone]
    rfl
  have hone : invokeOne engine id none [l, r] store = inRootedRegion (run none [l, r]) store := by
    have harity : ¬ ([l, r].length < entry.least ∨ entry.most < [l, r].length) := by
      simp only [List.length_cons, List.length_nil]
      omega
    unfold invokeOne
    simp only [hentry, hfast, if_neg harity, hrun]
    rw [bind_ok hmiss]
  rw [numeric_eq_slow, numericSlow_eq_operation engine hn]
  unfold invokeRegisterOperation
  simp only [hp]
  rw [bind_ok hmiss]
  simp only [hglobal]
  rw [get_bind, hnative]
  exact hone

/-- A native is called with a heap in which the same numbers stand. -/
lemma inRootedRegion_congr {f g : Eval Value} {p : Value} (hp : NormalValue store.heap p)
    (h : ∀ store, NormalValue store.heap p → f store = g store) :
    inRootedRegion f store = inRootedRegion g store := by
  unfold inRootedRegion
  simp only [h { store with heap :=
    { store.heap with rootedRegionDepth := store.heap.rootedRegionDepth + 1 } } hp]

/-- **Subtracting a fixnum is adding its opposite**, but for zero from the negative zero. -/
lemma numeric_subtract (h : Sums engine store.heap) {p : Value} (hp : NormalValue store.heap p)
    {j j' : Int64} (hj : Opposed j j') (hzero : j.toInt ≠ 0 ∨ p ≠ .float (-0.0)) :
    numeric engine .subtract p (.fixnum j) store = numeric engine .add p (.fixnum j') store := by
  have hinline : registerNumeric .subtract p (.fixnum j) = registerNumeric .add p (.fixnum j') := by
    rw [registerNumeric_arithmetic rfl, registerNumeric_arithmetic rfl]
    cases p with
    | fixnum v =>
      have hsum : v.toInt - j.toInt = v.toInt + j'.toInt := by rw [hj, sub_eq_add_neg]
      simp only [immediateArithmetic, fixnumArithmetic, hsum]
    | float x =>
      have hx : j.toInt ≠ 0 ∨ x ≠ -0.0 := hzero.imp_right fun hne heq => hne (heq ▸ rfl)
      have hsum : x - asF64 j = x + asF64 j' := by
        rw [asF64, asF64, hj]
        exact FloatSums.sub_ofInteger x (natAbs_fixnum j) hx
      simp only [immediateArithmetic, floatArithmetic, hsum]
    | _ => rfl
  cases hv : registerNumeric .add p (.fixnum j') with
  | some value =>
    rw [numeric_eq_slow, numeric_eq_slow, numericSlow, numericSlow, hinline, hv]
  | none =>
    rw [numeric_of_none rfl rfl h.subtract (hinline.trans hv), numeric_of_none rfl rfl h.add hv]
    exact inRootedRegion_congr hp fun store hp => numericSubtract_eq _ hp hj

/-- **A fixnum is added from either side.** -/
lemma numeric_add_comm (h : Sums engine store.heap) {p : Value} (hp : NormalValue store.heap p)
    (j : Int64) :
    numeric engine .add (.fixnum j) p store = numeric engine .add p (.fixnum j) store := by
  have hinline : registerNumeric .add (.fixnum j) p = registerNumeric .add p (.fixnum j) := by
    rw [registerNumeric_arithmetic rfl, registerNumeric_arithmetic rfl]
    cases p with
    | fixnum v => simp only [immediateArithmetic, fixnumArithmetic, add_comm j.toInt]
    | float x => simp only [immediateArithmetic, floatArithmetic, FloatSums.add_comm x]
    | _ => rfl
  cases hv : registerNumeric .add p (.fixnum j) with
  | some value =>
    rw [numeric_eq_slow, numeric_eq_slow, numericSlow, numericSlow, hinline, hv]
  | none =>
    rw [numeric_of_none rfl rfl h.add (hinline.trans hv), numeric_of_none rfl rfl h.add hv]
    exact inRootedRegion_congr hp fun store hp => numericAdd_comm _ hp j

end Engine

end Neetan.NumericTower
