import Neetan.Natives
import Neetan.Dispatch

/-!
The arms of the dispatch loop that compute: arithmetic, comparison, element access, and the
fused instructions, with the words they consume and the registers they write.

Registers are those of the running frame's window. What an arm computes is an `Eval`: its
errors leave the loop with the store as it is then.
-/

namespace Neetan.Primitive

open Neetan.Bytecode Neetan.Gc Neetan.MachineInt

/-- The opcode of a word the verifier has accepted. -/
def opcodeVerified (word : Word) : Opcode := word.opcode?.getD .extraArg

abbrev Registers := ℕ → Value

/-- `v == Value::boolean(true)`. -/
def isTrue : Value → Bool
  | .boolean value => value
  | _ => false

/-- The payload of a value known to be a fixnum. -/
def fixnumPayload : Value → Int64
  | .fixnum value => value
  | _ => 0

def readConstant (constants : List Value) (index : ℕ) : Value := constants.getD index .undefined

/-- The operand RK(C). -/
def rkOperand (constants : List Value) (r : Registers) (word : Word) : Value :=
  if word.k then readConstant constants word.c else r word.c

section Arms
variable (engine : Engine)

/-! ### Element access -/

/-- `vector-ref`; a miss defers to the native. -/
def fetchVectorElement (vector index : Value) : Eval Value := do
  let store ← get
  match (asIndex index).bind (store.heap.vectorRef vector) with
  | some value => pure value
  | none => invokeRegisterOperation engine .vectorRef [vector, index]

def fetchCar (pair : Value) : Eval Value := do
  let store ← get
  match store.heap.pair pair with
  | some (car, _) => pure car
  | none => invokeRegisterOperation engine .car [pair]

def fetchCharacter (string index : Value) : Eval Value := do
  let store ← get
  match (asIndex index).bind (store.heap.stringRef string) with
  | some character => pure (.character character)
  | none => invokeRegisterOperation engine .stringRef [string, index]

def charToInteger (target : Value) : Eval Value :=
  match characterCode target with
  | some value => pure value
  | none => invokeRegisterOperation engine .charToInteger [target]

/-! ### Fused arithmetic -/

def addVectorRef (accumulator vector index : Value) : Eval Value := do
  let element ← fetchVectorElement engine vector index
  numeric engine .add accumulator element

def addCar (accumulator pair : Value) : Eval Value := do
  let element ← fetchCar engine pair
  numeric engine .add accumulator element

def addStringRefCode (accumulator string index : Value) : Eval Value := do
  let store ← get
  let element ←
    match (asIndex index).bind (store.heap.stringRef string) with
    | some character => pure (.fixnum (Int64.ofInt character.toNat))
    | none => do
      let character ← invokeRegisterOperation engine .stringRef [string, index]
      match character with
      | .character character => pure (.fixnum (Int64.ofInt character.toNat))
      | _ => invokeRegisterOperation engine .charToInteger [character]
  numeric engine .add accumulator element

/-- The step of `addMul` and `subMul`. -/
def mulStep : Opcode → Opcode
  | .addMul => .add
  | _ => .subtract

/-- Three floats. -/
def floatChain (step : Opcode) (left right accumulator : Value) : Option Value :=
  match left, right, accumulator with
  | .float l, .float r, .float acc =>
    some (.float (if step = .add then acc + l * r else acc - l * r))
  | _, _, _ => none

/-- Three fixnums, with no overflow on the way. -/
def fixnumChain (step : Opcode) (left right accumulator : Value) : Option Value :=
  match left, right, accumulator with
  | .fixnum l, .fixnum r, .fixnum acc =>
    (checked 64 (l.toInt * r.toInt)).bind fun product =>
      checkedFixnum (if step = .add then acc.toInt + product else acc.toInt - product)
  | _, _, _ => none

def fusedMulStep (step : Opcode) (left right accumulator : Value) : Eval Value :=
  match floatChain step left right accumulator with
  | some value => pure value
  | none => do
    let product ← numeric engine .multiply left right
    numeric engine step accumulator product

def mulArm (step : Opcode) (left right accumulator : Value) : Eval Value :=
  match floatChain step left right accumulator <|> fixnumChain step left right accumulator with
  | some value => pure value
  | none => fusedMulStep engine step left right accumulator

/-- What `addMulVectorRef` computes inline from two elements. -/
def addMulInline (accumulator first second : Value) : Option Value :=
  floatChain .add first second accumulator <|>
    (numericFast .multiply first second).bind (numericFast .add accumulator)

def fusedAddMulVectorRef (accumulator vector index vector2 index2 : Value) : Eval Value := do
  let first ← fetchVectorElement engine vector index
  let second ← fetchVectorElement engine vector2 index2
  fusedMulStep engine .add first second accumulator

def addMulVectorRef (accumulator vector index vector2 index2 : Value) : Eval Value := do
  let store ← get
  let value :=
    (asIndex index).bind fun i => (asIndex index2).bind fun j =>
      (store.heap.vectorRef vector i).bind fun first =>
        (store.heap.vectorRef vector2 j).bind (addMulInline accumulator first)
  match value with
  | some value => pure value
  | none => fusedAddMulVectorRef engine accumulator vector index vector2 index2

def fusedVectorRefVectorRef (vector index outerIndex : Value) : Eval Value := do
  let inner ← fetchVectorElement engine vector index
  fetchVectorElement engine inner outerIndex

def vectorRefVectorRef (vector index outerIndex : Value) : Eval Value := do
  let store ← get
  let value :=
    (asIndex index).bind fun i => (asIndex outerIndex).bind fun j =>
      (store.heap.vectorRef vector i).bind fun row => store.heap.vectorRef row j
  match value with
  | some value => pure value
  | none => fusedVectorRefVectorRef engine vector index outerIndex

/-- A sum or difference with a constant known to be a fixnum. -/
def numericFixnumK (op : Opcode) (left : Value) (constant : Int64) : Eval Value :=
  let checked := left.asFixnum.bind fun value =>
    if op = .add then checkedFixnum (value.toInt + constant.toInt)
    else checkedFixnum (value.toInt - constant.toInt)
  match checked with
  | some value => pure value
  | none => numericSlow engine op left (.fixnum constant)

def addSubFixnumK (value : Value) (add subtract : Int64) : Eval Value :=
  let result := value.asFixnum.bind fun current =>
    (checked 64 (current.toInt + add.toInt)).bind fun sum =>
      checkedFixnum (sum - subtract.toInt)
  match result with
  | some value => pure value
  | none => do
    let sum ← numericFixnumK engine .add value add
    numericFixnumK engine .subtract sum subtract

/-- A comparison with a constant known to be a fixnum. -/
def testFixnum (op : Opcode) (left : Value) (constant : Int64) : Eval Bool :=
  match left.asFixnum with
  | some value =>
    pure (match op with
      | .numericLess => decide (value.toInt < constant.toInt)
      | .numericLessEqual => decide (value.toInt ≤ constant.toInt)
      | _ => decide (value.toInt = constant.toInt))
  | none => do
    let truth ← numericSlow engine op left (.fixnum constant)
    pure (isTrue truth)

/-- The step of a loop counter by a literal. -/
def stepCounter (counter : Value) (step : Int64) : Eval Value :=
  match counter.asFixnum.bind fun current => checkedFixnum (current.toInt + step.toInt) with
  | some value => pure value
  | none => invokeRegisterOperation engine .add [counter, .fixnum step]

/-! ### Instructions that only compute -/

/-- The opcodes of one word that write a value to register A and go on. -/
def isStraight : Opcode → Bool
  | .add | .subtract | .multiply | .divide
  | .numericEqual | .numericLess | .numericLessEqual | .numericGreater | .numericGreaterEqual
  | .car | .vectorRef | .stringRef | .charToInteger
  | .addVectorRef | .addCar | .addStringRefCode | .addMul | .subMul
  | .addFixnumK | .subtractFixnumK | .addSubFixnumK
  | .move | .loadK => true
  | _ => false

/-- The value of such an instruction. -/
def straightValue (constants : List Value) (word : Word) (r : Registers) : Eval Value :=
  let op := opcodeVerified word
  match op with
  | .move => pure (r word.b)
  | .loadK => pure (readConstant constants word.bx)
  | .car => fetchCar engine (r word.b)
  | .vectorRef => fetchVectorElement engine (r word.b) (r word.c)
  | .stringRef => fetchCharacter engine (r word.b) (r word.c)
  | .charToInteger => charToInteger engine (r word.b)
  | .addVectorRef => addVectorRef engine (r word.a) (r word.b) (r word.c)
  | .addCar => addCar engine (r word.a) (r word.b)
  | .addStringRefCode => addStringRefCode engine (r word.a) (r word.b) (r word.c)
  | .addMul | .subMul =>
    mulArm engine (mulStep op) (r word.b) (rkOperand constants r word) (r word.a)
  | .addFixnumK =>
    numericFixnumK engine .add (r word.b) (fixnumPayload (readConstant constants word.c))
  | .subtractFixnumK =>
    numericFixnumK engine .subtract (r word.b) (fixnumPayload (readConstant constants word.c))
  | .addSubFixnumK =>
    addSubFixnumK engine (r word.a) (fixnumPayload (readConstant constants word.b))
      (fixnumPayload (readConstant constants word.c))
  | _ => numeric engine op (r word.b) (rkOperand constants r word)

/-! ### The loop -/

structure Machine where
  pc : ℕ
  registers : Registers
  store : Store

/-- The machine goes on, or an error leaves the loop. -/
abbrev Outcome := Except (Error × Store) Machine

/-- Writes the value to register `a` and goes on at `pc`. -/
def finish (m : Machine) (a pc : ℕ) (value : Eval Value) : Outcome :=
  match value m.store with
  | .ok (value, store) => .ok ⟨pc, Function.update m.registers a value, store⟩
  | .error failure => .error failure

/-- The target of the `jump` word behind an instruction. -/
def jumpBehind (code : List Word) (pc : ℕ) : ℕ :=
  wrappingAddSigned 64 (pc + 2) (fetchWord code (pc + 1)).signedJump

/-- The comparison of a test instruction, and whether its constant is known to be a fixnum. -/
def comparisonOf : Opcode → Option (Opcode × Bool)
  | .testEqual => some (.numericEqual, false)
  | .testLess => some (.numericLess, false)
  | .testLessEqual => some (.numericLessEqual, false)
  | .testGreater => some (.numericGreater, false)
  | .testGreaterEqual => some (.numericGreaterEqual, false)
  | .testLessFixnum => some (.numericLess, true)
  | .testLessEqualFixnum => some (.numericLessEqual, true)
  | .testEqualFixnum => some (.numericEqual, true)
  | _ => none

/-- The exit test of a counting back-edge that goes on while it is false. -/
def exitTestOf : Opcode → Option (Opcode × Bool)
  | .loopBackWhileNotEqual => some (.numericEqual, false)
  | .loopBackWhileNotLess => some (.numericLess, false)
  | .loopBackWhileNotLessEqual => some (.numericLessEqual, false)
  | .loopBackWhileNotEqualFixnum => some (.numericEqual, true)
  | _ => none

/-- The guard of a strided back-edge that goes on while it is true. -/
def guardOf : Opcode → Option Opcode
  | .loopBackStepWhileLess => some .numericLess
  | .loopBackStepWhileLessEqual => some .numericLessEqual
  | _ => none

/-- The truth of a comparison of `left` with RK(C). -/
def truthOf (constants : List Value) (comparison : Opcode × Bool) (word : Word) (left : Value)
    (r : Registers) : Eval Bool :=
  if comparison.2 then
    testFixnum engine comparison.1 left (fixnumPayload (readConstant constants word.c))
  else do
    let truth ← numeric engine comparison.1 left (rkOperand constants r word)
    pure (isTrue truth)

/-- Goes on at the `jump` target behind `pc` when the truth is `taken`. -/
def branch (code : List Word) (m : Machine) (pc : ℕ) (taken : Bool) (truth : Eval Bool) :
    Outcome :=
  match truth m.store with
  | .ok (truth, store) =>
    .ok { m with pc := if truth = taken then jumpBehind code pc else pc + 2, store }
  | .error failure => .error failure

/-- The signed step of `loopBack`. -/
def signedByte (c : ℕ) : ℤ := castSigned 8 c

/-- One pass of the loop; `none` for the opcodes that are not modelled here. -/
def step (constants : List Value) (code : List Word) (m : Machine) : Option Outcome :=
  let word := fetchWord code m.pc
  let extra := fetchWord code (m.pc + 1)
  let op := opcodeVerified word
  let r := m.registers
  if isStraight op then some (finish m word.a (m.pc + 1) (straightValue engine constants word r))
  else
    match comparisonOf op, exitTestOf op, guardOf op, op with
    | some comparison, _, _, _ =>
      some (branch code m m.pc (word.a ≠ 0)
        (truthOf engine constants comparison word (r word.b) r))
    | _, some comparison, _, _ =>
      some ((finish m word.a m.pc (stepCounter engine (r word.a) 1)).bind fun m =>
        branch code m m.pc false
          (truthOf engine constants comparison word (m.registers word.b) m.registers))
    | _, _, some comparison, _ =>
      some ((finish m word.a m.pc (numeric engine .add (r word.a) (r word.b))).bind fun m =>
        branch code m m.pc true
          (truthOf engine constants (comparison, false) word (m.registers word.a) m.registers))
    | _, _, _, .jump =>
      some (.ok { m with pc := wrappingAddSigned 64 (m.pc + 1) word.signedJump })
    | _, _, _, .loopBack =>
      some (finish m word.a (jumpBehind code m.pc)
        (stepCounter engine (r word.a) (Int64.ofInt (signedByte word.c))))
    | _, _, _, .addMulVectorRef =>
      some (finish m word.a (m.pc + 2)
        (addMulVectorRef engine (r word.a) (r word.b) (r word.c)
          (r (extra.axValue / 2 ^ 8)) (r (extra.axValue % 2 ^ 8))))
    | _, _, _, .vectorRefVectorRef =>
      some (finish m word.a (m.pc + 2)
        (vectorRefVectorRef engine (r word.b) (r word.c) (r extra.axValue)))
    | _, _, _, _ => none

/-- Passes until an error, at most `n`. -/
def run (constants : List Value) (code : List Word) : ℕ → Machine → Option Outcome
  | 0, m => some (.ok m)
  | n + 1, m =>
    match step engine constants code m with
    | some (.ok m) => run constants code n m
    | outcome => outcome

end Arms

end Neetan.Primitive
