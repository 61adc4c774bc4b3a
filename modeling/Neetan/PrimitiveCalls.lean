import Neetan.FusedRun
import Neetan.HeapSpans

/-!
The opcodes of primitives and the calls they stand for.

An instruction answers by its own arm; an error leaves the loop. The same primitives called
as procedures answer through their natives, which get a view of the live registers, and an
error goes to the innermost exception handler.
-/

namespace Neetan.Primitive

open Neetan.Bytecode Neetan.Gc Neetan.MachineInt

/-- The procedure an opcode stands for. -/
def primitiveOf : Opcode → Option FastProcedure
  | .cons => some .cons
  | .nullP => some .nullP
  | .pairP => some .pairP
  | op => fastOf op

/-- The number of operands of a primitive's opcode. -/
def operandCount : Opcode → ℕ
  | .car | .cdr | .nullP | .pairP | .stringLength | .charToInteger => 1
  | .vectorSet => 3
  | _ => 2

section
variable (engine : Engine)

/-! ### The remaining arms -/

def cons (car cdr : Value) : Eval Value := onHeap (allocPair engine.owned car cdr)

def fetchCdr (pair : Value) : Eval Value := do
  let store ← get
  match store.heap.pair pair with
  | some (_, cdr) => pure cdr
  | none => invokeRegisterOperation engine .cdr [pair]

def nullP (target : Value) : Eval Value := pure (.boolean (isNil target))

def pairP (target : Value) : Eval Value := do
  let store ← get
  pure (.boolean (store.heap.pair target).isSome)

def storeVectorElement (vector index value : Value) : Eval Value := fun store =>
  match (asIndex index).bind fun index => store.heap.vectorSet vector index value with
  | some heap => .ok (.unspecified, { store with heap })
  | none => invokeRegisterOperation engine .vectorSet [vector, index, value] store

def fetchStringLength (target : Value) : Eval Value := do
  let store ← get
  match stringLength store.heap target with
  | some value => pure value
  | none => invokeRegisterOperation engine .stringLength [target]

/-- The arm of a primitive's opcode. -/
def opcodePrimitive (op : Opcode) (operands : List Value) : Eval Value :=
  match op, operands with
  | .cons, [car, cdr] => cons engine car cdr
  | .car, [pair] => fetchCar engine pair
  | .cdr, [pair] => fetchCdr engine pair
  | .nullP, [target] => nullP target
  | .pairP, [target] => pairP target
  | .vectorRef, [vector, index] => fetchVectorElement engine vector index
  | .vectorSet, [vector, index, value] => storeVectorElement engine vector index value
  | .stringRef, [string, index] => fetchCharacter engine string index
  | .stringLength, [target] => fetchStringLength engine target
  | .charToInteger, [target] => charToInteger engine target
  | op, [left, right] => numeric engine op left right
  | _, _ => fail (invalidBytecode "register operation")

/-! ### Instructions -/

/-- An instruction that applies primitives, with its operands. The registers a counting
back-edge compares are read after the counter is stepped, so they may depend on it. -/
inductive Form
  | primitive (op : Opcode) (operands : List Value) (h : (primitiveOf op).isSome = true)
    (fits : operands.length = operandCount op)
  | test (op : Opcode) (left right : Value) (h : isComparison op = true)
  | testFixnum (op : Opcode) (left : Value) (constant : Int64)
    (h : op = .numericEqual ∨ op = .numericLess ∨ op = .numericLessEqual)
  | testNull (target : Value)
  | testPair (target : Value)
  | testVectorRef (vector index : Value)
  | addVectorRef (accumulator vector index : Value)
  | addCar (accumulator pair : Value)
  | addStringRefCode (accumulator string index : Value)
  | mul (step : Opcode) (left right accumulator : Value) (h : step = .add ∨ step = .subtract)
  | addMulVectorRef (accumulator vector index vector2 index2 : Value)
  | vectorRefVectorRef (vector index outerIndex : Value)
  | fixnumK (op : Opcode) (left : Value) (constant : Int64) (h : op = .add ∨ op = .subtract)
  | addSubFixnumK (value : Value) (add subtract : Int64)
  | loopBack (counter : Value) (step : Int64)
  | loopBackWhileNot (op : Opcode) (counter : Value) (left right : Value → Value)
    (h : isComparison op = true)
  | loopBackWhileNotFixnum (op : Opcode) (counter : Value) (left : Value → Value)
    (constant : Int64) (h : op = .numericEqual ∨ op = .numericLess ∨ op = .numericLessEqual)
  | loopBackStepWhile (op : Opcode) (counter step : Value) (bound : Value → Value)
    (h : isComparison op = true)

/-- What an instruction comes to: the value written to register A, and the truth that decides
its branch. -/
structure Effect where
  written : Option Value
  truth : Option Bool

/-- `v != Value::boolean(false)`, the test of `jumpFalse`. -/
def truthy : Value → Bool
  | .boolean value => value
  | _ => true

def writes (answer : Eval Value) : Eval Effect := do
  let value ← answer
  pure ⟨some value, none⟩

def branches (answer : Eval Bool) : Eval Effect := do
  let truth ← answer
  pure ⟨none, some truth⟩

/-- The arm of an instruction. -/
def opcodeAnswer : Form → Eval Effect
  | .primitive op operands _ _ => writes (opcodePrimitive engine op operands)
  | .test op left right _ => branches do
    let truth ← numeric engine op left right
    pure (isTrue truth)
  | .testFixnum op left constant _ => branches (testFixnum engine op left constant)
  | .testNull target => branches (pure (isNil target))
  | .testPair target => branches do
    let store ← get
    pure (store.heap.pair target).isSome
  | .testVectorRef vector index => branches do
    let element ← fetchVectorElement engine vector index
    pure (truthy element)
  | .addVectorRef accumulator vector index =>
    writes (addVectorRef engine accumulator vector index)
  | .addCar accumulator pair => writes (addCar engine accumulator pair)
  | .addStringRefCode accumulator string index =>
    writes (addStringRefCode engine accumulator string index)
  | .mul step left right accumulator _ => writes (mulArm engine step left right accumulator)
  | .addMulVectorRef accumulator vector index vector2 index2 =>
    writes (addMulVectorRef engine accumulator vector index vector2 index2)
  | .vectorRefVectorRef vector index outerIndex =>
    writes (vectorRefVectorRef engine vector index outerIndex)
  | .fixnumK op left constant _ => writes (numericFixnumK engine op left constant)
  | .addSubFixnumK value add subtract => writes (addSubFixnumK engine value add subtract)
  | .loopBack counter step => writes (stepCounter engine counter step)
  | .loopBackWhileNot op counter left right _ => do
    let next ← stepCounter engine counter 1
    let truth ← numeric engine op (left next) (right next)
    pure ⟨some next, some (isTrue truth)⟩
  | .loopBackWhileNotFixnum op counter left constant _ => do
    let next ← stepCounter engine counter 1
    let truth ← testFixnum engine op (left next) constant
    pure ⟨some next, some truth⟩
  | .loopBackStepWhile op counter step bound _ => do
    let next ← numeric engine .add counter step
    let truth ← numeric engine op next (bound next)
    pure ⟨some next, some (isTrue truth)⟩

/-! ### Calls -/

/-- The primitives an instruction applies. -/
def Form.ops : Form → List Opcode
  | .primitive op .. | .test op .. | .testFixnum op .. => [op]
  | .testNull _ => [.nullP]
  | .testPair _ => [.pairP]
  | .testVectorRef .. => [.vectorRef]
  | .addVectorRef .. => [.vectorRef, .add]
  | .addCar .. => [.car, .add]
  | .addStringRefCode .. => [.stringRef, .charToInteger, .add]
  | .mul step .. => [.multiply, step]
  | .addMulVectorRef .. => [.vectorRef, .multiply, .add]
  | .vectorRefVectorRef .. => [.vectorRef]
  | .fixnumK op .. => [op]
  | .addSubFixnumK .. => [.add, .subtract]
  | .loopBack .. => [.add]
  | .loopBackWhileNot op .. | .loopBackWhileNotFixnum op .. | .loopBackStepWhile op .. => [.add, op]

/-- The same primitives, called one after the other; a branch is a `jumpFalse` on the value of
the last call. -/
def Form.run (call : Opcode → List Value → Eval Value) : Form → Eval Effect
  | .primitive op operands _ _ => writes (call op operands)
  | .test op left right _ => branches do
    let truth ← call op [left, right]
    pure (truthy truth)
  | .testFixnum op left constant _ => branches do
    let truth ← call op [left, .fixnum constant]
    pure (truthy truth)
  | .testNull target => branches do
    let truth ← call .nullP [target]
    pure (truthy truth)
  | .testPair target => branches do
    let truth ← call .pairP [target]
    pure (truthy truth)
  | .testVectorRef vector index => branches do
    let element ← call .vectorRef [vector, index]
    pure (truthy element)
  | .addVectorRef accumulator vector index => writes do
    let element ← call .vectorRef [vector, index]
    call .add [accumulator, element]
  | .addCar accumulator pair => writes do
    let element ← call .car [pair]
    call .add [accumulator, element]
  | .addStringRefCode accumulator string index => writes do
    let character ← call .stringRef [string, index]
    let code ← call .charToInteger [character]
    call .add [accumulator, code]
  | .mul step left right accumulator _ => writes do
    let product ← call .multiply [left, right]
    call step [accumulator, product]
  | .addMulVectorRef accumulator vector index vector2 index2 => writes do
    let first ← call .vectorRef [vector, index]
    let second ← call .vectorRef [vector2, index2]
    let product ← call .multiply [first, second]
    call .add [accumulator, product]
  | .vectorRefVectorRef vector index outerIndex => writes do
    let inner ← call .vectorRef [vector, index]
    call .vectorRef [inner, outerIndex]
  | .fixnumK op left constant _ => writes (call op [left, .fixnum constant])
  | .addSubFixnumK value add subtract => writes do
    let sum ← call .add [value, .fixnum add]
    call .subtract [sum, .fixnum subtract]
  | .loopBack counter step => writes (call .add [counter, .fixnum step])
  | .loopBackWhileNot op counter left right _ => do
    let next ← call .add [counter, .fixnum 1]
    let truth ← call op [left next, right next]
    pure ⟨some next, some (truthy truth)⟩
  | .loopBackWhileNotFixnum op counter left constant _ => do
    let next ← call .add [counter, .fixnum 1]
    let truth ← call op [left next, .fixnum constant]
    pure ⟨some next, some (truthy truth)⟩
  | .loopBackStepWhile op counter step bound _ => do
    let next ← call .add [counter, step]
    let truth ← call op [next, bound next]
    pure ⟨some next, some (truthy truth)⟩

/-- A non-tail call of a native with one result that cannot ask to exit. -/
def callNativeInline (id : ℕ) (fast : Option FastProcedure) (view : View)
    (arguments : List Value) : Eval Value := do
  match ← tryFast engine fast arguments with
  | some value => pure value
  | none => invokeOne engine id view arguments

/-- The value of the global that holds the procedure of an opcode. -/
def procedureOf (op : Opcode) : Option Value :=
  (primitiveOf op).bind fun procedure => engine.globals (libraryName procedure)

/-- A call of that procedure. The natives of primitives are of the kind on the first line. -/
def callPrimitive (view : View) (op : Opcode) (arguments : List Value) : Eval Value := do
  let store ← get
  match (procedureOf engine op).bind store.heap.object with
  | some (.native id fast true false) => callNativeInline engine id fast view arguments
  | _ => fail ⟨.typeError, "not a native procedure"⟩

/-- What the native behind the procedure does by itself. -/
def nativeAnswer (view : View) (op : Opcode) (arguments : List Value) : Eval Value := do
  let store ← get
  match (procedureOf engine op).bind store.heap.native with
  | some id => invokeOne engine id view arguments
  | none => fail ⟨.typeError, "not a native procedure"⟩

/-! ### Errors -/

/-- Where an instruction or a call has got to. -/
inductive Delivery
  | completes (effect : Effect)
  | handles (handler condition : Value) (handlers : List Value)
  | leaves (error : Error)

def conditionKind : ErrorKind → ConditionKind
  | .fileError => .file
  | .readError | .invalidUtf8 | .invalidToken | .unexpectedEof | .invalidDatum
  | .invalidDatumLabel | .invalidNumber | .readerLimitExceeded => .read
  | _ => .error

/-- The innermost handler is called with the condition, outside its own extent. -/
def invokeErrorHandler (handlers : List Value) (error : Error) : Eval Delivery :=
  match handlers with
  | [] => fail error
  | handler :: handlers => do
    let message ← onHeap (allocString engine.owned error.message)
    let object ← onHeap (alloc engine.owned (.error message [] (conditionKind error.kind)))
    pure (.handles handler object handlers)

/-- An instruction has no error routing. -/
def opcodeDelivery (form : Form) (store : Store) : Delivery × Store :=
  match opcodeAnswer engine form store with
  | .ok (effect, store) => (.completes effect, store)
  | .error (error, store) => (.leaves error, store)

/-- The calls, with the routing of their errors. Handlers are given from the innermost on. -/
def callDelivery (view : View) (handlers : List Value) (form : Form) (store : Store) :
    Delivery × Store :=
  match form.run (callPrimitive engine view) store with
  | .ok (effect, store) => (.completes effect, store)
  | .error (error, store) =>
    match invokeErrorHandler engine handlers error store with
    | .ok result => result
    | .error (error, store) => (.leaves error, store)

end

/-! ### The same outcome -/

/-- The values are the same, or the objects they refer to are. -/
def SameResult (heap heap' : Heap) (value value' : Value) : Prop :=
  value = value' ∨ ∃ object, heap.object value = some object ∧ heap'.object value' = some object

structure SameEffect (heap heap' : Heap) (effect effect' : Effect) : Prop where
  written : Option.Rel (SameResult heap heap') effect.written effect'.written
  truth : effect.truth = effect'.truth

def SameDelivery : Delivery × Store → Delivery × Store → Prop
  | (.completes effect, store), (.completes effect', store') =>
    SameEffect store.heap store'.heap effect effect'
  | (.handles handler condition handlers, store),
      (.handles handler' condition' handlers', store') =>
    handler = handler' ∧ handlers = handlers' ∧
      SameResult store.heap store'.heap condition condition'
  | (.leaves error, _), (.leaves error', _) => error = error'
  | _, _ => False

end Neetan.Primitive
