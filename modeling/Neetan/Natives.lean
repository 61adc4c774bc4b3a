import Neetan.HeapAllocate

/-!
Native procedures and the arithmetic of the dispatch loop.

The registry of natives is data of the engine: a table of callbacks over the store. A
callback is handed a view of the live registers, or none where the caller has none to
give; the view only serves a collection during the call. Floating point is Lean's `Float`,
which has one not-a-number where the source has many bit patterns for it; the source makes
no difference between them where they can be observed.
-/

namespace Neetan.Primitive

open Neetan.Bytecode Neetan.Gc Neetan.MachineInt

/-- What a native can change: the heap and the symbol table. -/
structure Store where
  heap : Heap
  symbols : List (String × Value)

abbrev Eval := StateT Store (Except (Error × Store))

def fail {α : Type} (error : Error) : Eval α := fun store => .error (error, store)

/-- A computation on the heap of the store. -/
def onHeap {α : Type} (run : HeapM α) : Eval α := fun store =>
  match run store.heap with
  | .ok (value, heap) => .ok (value, { store with heap })
  | .error (error, heap) => .error (error, { store with heap })

variable {op : Opcode} {α : Type}

lemma get_bind (f : Store → Eval α) (store : Store) :
    ((get : Eval Store) >>= f) store = f store store := rfl

lemma bind_ok {β : Type} {x : Eval α} {f : α → Eval β} {a : α} {store store' : Store}
    (h : x store = .ok (a, store')) : (x >>= f) store = f a store' := by
  show (x store >>= fun y => f y.1 y.2) = _
  rw [h]
  rfl

lemma bind_congr {β : Type} {x y : Eval α} {f : α → Eval β} {store : Store}
    (h : x store = y store) :
    (x >>= f) store = (y >>= f) store := by
  show (x store >>= fun z => f z.1 z.2) = _
  rw [h]
  rfl

lemma bind_error {β : Type} {x : Eval α} {f : α → Eval β} {store : Store} {failure : Error × Store}
    (h : x store = .error failure) :
    (x >>= f) store = .error failure := by
  show (x store >>= fun y => f y.1 y.2) = _
  rw [h]
  rfl

/-- A view of the live registers. -/
abbrev View := Option (List Value)

inductive Callback
  | one (run : View → List Value → Eval Value)
  | many (run : View → List Value → Eval (List Value))

structure NativeProcedure where
  name : String
  least : ℕ
  most : ℕ
  callback : Callback
  fast : Option FastProcedure

/-- What the virtual machine is given. `scan` stands for the fast paths of the list
procedures, which no opcode uses. -/
structure Engine where
  globals : String → Option Value
  natives : List NativeProcedure
  scan : FastProcedure → List Value → StateM Heap (Option Value)
  owned : Object → ℕ

def invalidBytecode (what : String) : Error := ⟨.invalidBytecode, "invalid " ++ what⟩

/-! ### Immediate arithmetic -/

/-- `value as f64`. -/
def asF64 (value : Int64) : Float := FloatSums.ofInteger value.toInt

def checkedFixnum (v : ℤ) : Option Value := (checked 64 v).map fun v => .fixnum (Int64.ofInt v)

def fixnumArithmetic (op : Opcode) (l r : Int64) : Option Value :=
  match op with
  | .add => checkedFixnum (l.toInt + r.toInt)
  | .subtract => checkedFixnum (l.toInt - r.toInt)
  | .multiply => checkedFixnum (l.toInt * r.toInt)
  | _ => none

def floatArithmetic (op : Opcode) (l r : Float) : Option Value :=
  match op with
  | .add => some (.float (l + r))
  | .subtract => some (.float (l - r))
  | .multiply => some (.float (l * r))
  | _ => none

def isArithmetic : Opcode → Bool
  | .add | .subtract | .multiply => true
  | _ => false

def isComparison : Opcode → Bool
  | .numericEqual | .numericLess | .numericLessEqual | .numericGreater
  | .numericGreaterEqual => true
  | _ => false

def holds (op : Opcode) (ordering : Ordering) : Bool :=
  match op with
  | .numericEqual => ordering.isEq
  | .numericLess => ordering.isLT
  | .numericGreater => ordering.isGT
  | .numericLessEqual => ordering.isLE
  | .numericGreaterEqual => ordering.isGE
  | _ => false

def f64Numeric (op : Opcode) (l r : Float) : Option Value :=
  if op = .divide then some (.float (l / r))
  else if isComparison op then
    (Number.partialCmp l r).map fun ordering => .boolean (holds op ordering)
  else floatArithmetic op l r

/-- The inlined front end: both operands floats, both fixnums, or a mixed sum, difference
or product. -/
def numericFast (op : Opcode) (left right : Value) : Option Value :=
  match left, right with
  | .fixnum l, .fixnum r =>
    match op with
    | .add | .subtract | .multiply => fixnumArithmetic op l r
    | .numericEqual => some (.boolean (l.toInt = r.toInt))
    | .numericLess => some (.boolean (l.toInt < r.toInt))
    | .numericGreater => some (.boolean (l.toInt > r.toInt))
    | .numericLessEqual => some (.boolean (l.toInt ≤ r.toInt))
    | .numericGreaterEqual => some (.boolean (l.toInt ≥ r.toInt))
    | _ => none
  | .float l, .float r => f64Numeric op l r
  | .fixnum l, .float r => floatArithmetic op (asF64 l) r
  | .float l, .fixnum r => floatArithmetic op l (asF64 r)
  | _, _ => none

/-- The fixnums that are floats exactly. -/
def isExactFloat (v : Int64) : Bool := v.toInt.natAbs ≤ 2 ^ 53

/-- The ordering of two immediate numbers, if it is decided inline. -/
def immediateOrdering (left right : Value) : Option Ordering :=
  match left, right with
  | .fixnum l, .fixnum r => some (compare l.toInt r.toInt)
  | .fixnum l, .float r => if isExactFloat l then Number.partialCmp (asF64 l) r else none
  | .float l, .fixnum r => if isExactFloat r then Number.partialCmp l (asF64 r) else none
  | .float l, .float r => Number.partialCmp l r
  | _, _ => none

def immediateArithmetic (op : Opcode) (left right : Value) : Option Value :=
  match left, right with
  | .fixnum l, .fixnum r => fixnumArithmetic op l r
  | .fixnum l, .float r => floatArithmetic op (asF64 l) r
  | .float l, .fixnum r => floatArithmetic op l (asF64 r)
  | .float l, .float r => floatArithmetic op l r
  | _, _ => none

/-- Here the least fixnum leaves no rest by `-1`; the source panics at that remainder. -/
def immediateQuotient (left right : Value) : Option Value :=
  match left, right with
  | .fixnum l, .fixnum r =>
    if r.toInt ≠ 0 ∧ l.toInt.tmod r.toInt = 0 then checkedFixnum (l.toInt.tdiv r.toInt) else none
  | .fixnum l, .float r => some (.float (asF64 l / r))
  | .float l, .fixnum r => some (.float (l / asF64 r))
  | .float l, .float r => some (.float (l / r))
  | _, _ => none

/-- The immediate part of the numeric tower, out of line. -/
def registerNumeric (op : Opcode) (left right : Value) : Option Value :=
  match left, right with
  | .float l, .float r => f64Numeric op l r
  | _, _ =>
    if isArithmetic op then immediateArithmetic op left right
    else if op = .divide then immediateQuotient left right
    else if isComparison op then
      (immediateOrdering left right).map fun ordering => .boolean (holds op ordering)
    else none

/-! ### Fast procedures -/

def fastArithmetic (op : Opcode) (arguments : List Value) : Option Value :=
  match arguments with
  | [left, right] => immediateArithmetic op left right
  | _ => none

def fastCompare (op : Opcode) (arguments : List Value) : Option Value :=
  match arguments with
  | [left, right] =>
    (immediateOrdering left right).map fun ordering => .boolean (holds op ordering)
  | _ => none

def fastDivide (arguments : List Value) : Option Value :=
  match arguments with
  | [left, right] => immediateQuotient left right
  | _ => none

/-- A fixnum that is not negative. -/
def asIndex (value : Value) : Option ℕ :=
  value.asFixnum.bind fun index => if 0 ≤ index.toInt then some index.toInt.toNat else none

def characterCode (value : Value) : Option Value :=
  match value with
  | .character character => some (.fixnum (Int64.ofInt character.toNat))
  | _ => none

/-- The length of a string as a fixnum. -/
def stringLength (heap : Heap) (value : Value) : Option Value :=
  (heap.stringLen value).bind fun length => checkedFixnum length

def isNil : Value → Bool
  | .nil => true
  | _ => false

/-- What a fast path reads off the heap. -/
def fastRead (heap : Heap) (procedure : FastProcedure) (arguments : List Value) : Option Value :=
  match procedure, arguments with
  | .add, _ => fastArithmetic .add arguments
  | .subtract, _ => fastArithmetic .subtract arguments
  | .multiply, _ => fastArithmetic .multiply arguments
  | .divide, _ => fastDivide arguments
  | .equal, _ => fastCompare .numericEqual arguments
  | .less, _ => fastCompare .numericLess arguments
  | .greater, _ => fastCompare .numericGreater arguments
  | .lessEqual, _ => fastCompare .numericLessEqual arguments
  | .greaterEqual, _ => fastCompare .numericGreaterEqual arguments
  | .vectorRef, [vector, index] => (asIndex index).bind fun index => heap.vectorRef vector index
  | .car, [pair] => (heap.pair pair).map Prod.fst
  | .cdr, [pair] => (heap.pair pair).map Prod.snd
  | .nullP, [value] => some (.boolean (isNil value))
  | .pairP, [value] => some (.boolean (heap.pair value).isSome)
  | .stringRef, [string, index] =>
    (asIndex index).bind fun index => (heap.stringRef string index).map .character
  | .charToInteger, [value] => characterCode value
  | .stringLength, [string] => stringLength heap string
  | _, _ => none

section Invocation
variable (engine : Engine)

/-- `none` is a miss: the caller defers to the native. -/
def FastProcedure.invoke (procedure : FastProcedure) (arguments : List Value) :
    StateM Heap (Option Value) := fun heap =>
  match procedure, arguments with
  | .vectorSet, [vector, index, value] =>
    match (asIndex index).bind fun index => heap.vectorSet vector index value with
    | some heap => (some .unspecified, heap)
    | none => (none, heap)
  | .cons, [car, cdr] =>
    match allocPair engine.owned car cdr heap with
    | .ok (value, heap) => (some value, heap)
    | .error (_, heap) => (none, heap)
  | .assocEqv, _ | .memberEqv, _ | .assocEqual, _ | .memberEqual, _ | .length, _ | .listRef, _
  | .listTail, _ | .reverse, _ | .append, _ => engine.scan procedure arguments heap
  | _, _ => (fastRead heap procedure arguments, heap)

def tryFast (fast : Option FastProcedure) (arguments : List Value) : Eval (Option Value) :=
  fun store =>
    match fast with
    | none => .ok (none, store)
    | some procedure =>
      let (value, heap) := FastProcedure.invoke engine procedure arguments store.heap
      .ok (value, { store with heap })

/-- Runs a callback in a rooted region; its temporary roots end with it. -/
def inRootedRegion {α : Type} (run : Eval α) : Eval α := fun store =>
  let mark := store.heap.temporaryRoots.length
  let enter (heap : Heap) : Heap := { heap with rootedRegionDepth := heap.rootedRegionDepth + 1 }
  let leave (heap : Heap) : Heap :=
    { heap with
      rootedRegionDepth := heap.rootedRegionDepth - 1
      temporaryRoots := heap.temporaryRoots.take mark }
  match run { store with heap := enter store.heap } with
  | .ok (value, store) => .ok (value, { store with heap := leave store.heap })
  | .error (error, store) => .error (error, { store with heap := leave store.heap })

def arityMessage (procedure : NativeProcedure) (count : ℕ) : String :=
  procedure.name ++ " expected " ++ toString procedure.least ++ "..=" ++
    toString procedure.most ++ " arguments, received " ++ toString count

/-- Invokes a native that returns one value. -/
def invokeOne (id : ℕ) (view : View) (arguments : List Value) : Eval Value :=
  match engine.natives[id]? with
  | none => fail ⟨.runtimeError, "unknown native procedure"⟩
  | some procedure => do
    match ← tryFast engine procedure.fast arguments with
    | some value => pure value
    | none =>
      if arguments.length < procedure.least ∨ procedure.most < arguments.length then
        fail ⟨.arityError, arityMessage procedure arguments.length⟩
      else
        match procedure.callback with
        | .one run => inRootedRegion (run view arguments)
        | .many _ =>
          inRootedRegion
            (fail ⟨.runtimeError, "native result metadata does not match its callback"⟩)

/-! ### Register operations -/

/-- The native behind an opcode. -/
def fastOf : Opcode → Option FastProcedure
  | .add => some .add
  | .subtract => some .subtract
  | .multiply => some .multiply
  | .divide => some .divide
  | .numericEqual => some .equal
  | .numericLess => some .less
  | .numericGreater => some .greater
  | .numericLessEqual => some .lessEqual
  | .numericGreaterEqual => some .greaterEqual
  | .vectorRef => some .vectorRef
  | .vectorSet => some .vectorSet
  | .car => some .car
  | .cdr => some .cdr
  | .stringRef => some .stringRef
  | .stringLength => some .stringLength
  | .charToInteger => some .charToInteger
  | _ => none

def procedureName : FastProcedure → String
  | .add => "+"
  | .subtract => "-"
  | .multiply => "*"
  | .divide => "/"
  | .equal => "="
  | .less => "<"
  | .greater => ">"
  | .lessEqual => "<="
  | .greaterEqual => ">="
  | .vectorRef => "vector-ref"
  | .vectorSet => "vector-set!"
  | .cons => "cons"
  | .car => "car"
  | .cdr => "cdr"
  | .nullP => "null?"
  | .pairP => "pair?"
  | .stringRef => "string-ref"
  | .charToInteger => "char->integer"
  | .stringLength => "string-length"
  | .assocEqv => "assq"
  | .memberEqv => "memq"
  | .assocEqual => "%assoc"
  | .memberEqual => "%member"
  | .length => "length"
  | .listRef => "list-ref"
  | .listTail => "list-tail"
  | .reverse => "reverse"
  | .append => "append"

/-- The global that holds a base procedure. -/
def libraryName (procedure : FastProcedure) : String :=
  "\x1flibrary:(scheme base):" ++ procedureName procedure

def invokeRegisterOperation (op : Opcode) (arguments : List Value) : Eval Value :=
  match fastOf op with
  | none => fail (invalidBytecode "register operation")
  | some procedure => do
    match ← tryFast engine (some procedure) arguments with
    | some value => pure value
    | none =>
      match engine.globals (libraryName procedure) with
      | none => fail (invalidBytecode "numeric fallback")
      | some value =>
        let store ← get
        match store.heap.native value with
        | none => fail (invalidBytecode "numeric fallback")
        | some id => invokeOne engine id none arguments

/-- The tail of the arithmetic arms: the rest of the tower, then the native. -/
def numericSlow (op : Opcode) (left right : Value) : Eval Value :=
  match registerNumeric op left right with
  | some value => pure value
  | none => invokeRegisterOperation engine op [left, right]

/-- An arithmetic arm. -/
def numeric (op : Opcode) (left right : Value) : Eval Value :=
  match numericFast op left right with
  | some value => pure value
  | none => numericSlow engine op left right

end Invocation

/-! ### The front end agrees with the tower -/

lemma holds_compare (op : Opcode) (a b : ℤ) (h : isComparison op = true) :
    holds op (compare a b) =
      match op with
      | .numericEqual => decide (a = b)
      | .numericLess => decide (a < b)
      | .numericGreater => decide (a > b)
      | .numericLessEqual => decide (a ≤ b)
      | _ => decide (a ≥ b) := by
  rcases lt_trichotomy a b with hab | hab | hab
  · have hc : compare a b = .lt := compare_lt_iff_lt.mpr hab
    cases op <;> simp [isComparison] at h <;> simp [holds, hc] <;> omega
  · have hc : compare a b = .eq := compare_eq_iff_eq.mpr hab
    cases op <;> simp [isComparison] at h <;> simp [holds, hc] <;> omega
  · have hc : compare a b = .gt := compare_gt_iff_gt.mpr hab
    cases op <;> simp [isComparison] at h <;> simp [holds, hc] <;> omega

lemma registerNumeric_of_fast {left right value : Value}
    (h : numericFast op left right = some value) :
    registerNumeric op left right = some value := by
  cases left with
  | fixnum l =>
    cases right with
    | fixnum r =>
      have hc := holds_compare op l.toInt r.toInt
      cases op <;> simp_all [numericFast, registerNumeric, isArithmetic, isComparison,
        immediateArithmetic, immediateOrdering]
    | float r =>
      cases op <;> simp_all [numericFast, registerNumeric, isArithmetic, floatArithmetic,
        immediateArithmetic]
    | _ => simp [numericFast] at h
  | float l =>
    cases right with
    | fixnum r =>
      cases op <;> simp_all [numericFast, registerNumeric, isArithmetic, floatArithmetic,
        immediateArithmetic]
    | float r => exact h
    | _ => simp [numericFast] at h
  | _ => simp [numericFast] at h

lemma numeric_eq_slow (engine : Engine) (op : Opcode) (left right : Value) :
    numeric engine op left right = numericSlow engine op left right := by
  unfold numeric
  cases h : numericFast op left right with
  | none => rfl
  | some value => simp [numericSlow, registerNumeric_of_fast h]

lemma registerNumeric_arithmetic (h : isArithmetic op = true) (left right : Value) :
    registerNumeric op left right = immediateArithmetic op left right := by
  have hd : op ≠ .divide := by rintro rfl; simp [isArithmetic] at h
  have hc : isComparison op = false := by cases op <;> simp [isArithmetic] at h <;> rfl
  unfold registerNumeric
  split
  · simp [f64Numeric, hd, hc, immediateArithmetic]
  · simp [h]

lemma registerNumeric_divide (left right : Value) :
    registerNumeric .divide left right = immediateQuotient left right := by
  unfold registerNumeric
  split <;> rfl

lemma registerNumeric_comparison (h : isComparison op = true) (left right : Value) :
    registerNumeric op left right =
      (immediateOrdering left right).map fun ordering => .boolean (holds op ordering) := by
  have ha : isArithmetic op = false := by cases op <;> simp [isComparison] at h <;> rfl
  have hd : op ≠ .divide := by rintro rfl; simp [isComparison] at h
  unfold registerNumeric
  split
  · simp [f64Numeric, hd, h, immediateOrdering]
  · simp [ha, hd, h]

/-- The opcodes that go through the numeric tower. -/
def isNumeric (op : Opcode) : Bool := isArithmetic op || op == .divide || isComparison op

lemma fastRead_numeric {procedure : FastProcedure} (hp : fastOf op = some procedure)
    (hn : isNumeric op = true) (heap : Heap) (left right : Value) :
    fastRead heap procedure [left, right] = registerNumeric op left right := by
  cases op <;> simp [isNumeric, isArithmetic, isComparison] at hn <;>
    (simp only [fastOf, Option.some.injEq] at hp; subst hp)
  case add | subtract | multiply => exact (registerNumeric_arithmetic rfl left right).symm
  case divide => exact (registerNumeric_divide left right).symm
  all_goals exact (registerNumeric_comparison rfl left right).symm

lemma fastInvoke_numeric (engine : Engine) {procedure : FastProcedure}
    (hp : fastOf op = some procedure) (hn : isNumeric op = true) (heap : Heap)
    (left right : Value) :
    FastProcedure.invoke engine procedure [left, right] heap =
      (registerNumeric op left right, heap) := by
  rw [← fastRead_numeric hp hn heap]
  cases op <;> simp [isNumeric, isArithmetic, isComparison] at hn <;>
    (simp only [fastOf, Option.some.injEq] at hp; subst hp) <;> rfl

lemma tryFast_numeric (engine : Engine) {procedure : FastProcedure}
    (hp : fastOf op = some procedure) (hn : isNumeric op = true) (left right : Value) :
    tryFast engine (some procedure) [left, right] = pure (registerNumeric op left right) := by
  funext store
  unfold tryFast
  simp only [fastInvoke_numeric engine hp hn]
  rfl

lemma numericSlow_eq_operation (engine : Engine) (hn : isNumeric op = true) (left right : Value) :
    numericSlow engine op left right = invokeRegisterOperation engine op [left, right] := by
  obtain ⟨procedure, hp⟩ : ∃ procedure, fastOf op = some procedure := by
    cases op <;> simp [isNumeric, isArithmetic, isComparison] at hn <;> exact ⟨_, rfl⟩
  unfold numericSlow
  cases h : registerNumeric op left right with
  | none => rfl
  | some value => simp [invokeRegisterOperation, hp, tryFast_numeric engine hp hn, h]

end Neetan.Primitive
