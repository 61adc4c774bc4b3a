import Neetan.MachineInt

/-!
Fixed-width register bytecode: opcodes, instruction words and chunks.

A word holds a 7-bit opcode, the fields A (8 bits), k (1 bit), B and C (8 bits each), or
instead of k, B and C the 17-bit field Bx, or instead of all of them the 25-bit field Ax.
-/

namespace Neetan.Bytecode

/-- Register-machine opcodes; the bits of an opcode are its position here. -/
inductive Opcode
  | move | loadK | loadKx | extraArg
  | getGlobal | setGlobal
  | getCapture | setCapture | getCaptureValue
  | getLocalBox | setLocalBox | boxLocal
  | closure | caseLambda
  | jump | jumpFalse | call | tailCall | return | cold
  | add | subtract | multiply | divide
  | numericEqual | numericLess | numericLessEqual | numericGreater | numericGreaterEqual
  | cons | car | cdr | nullP | pairP
  | vectorRef | vectorSet
  | stringRef | stringLength | charToInteger
  | testEqual | testLess | testLessEqual | testGreater | testGreaterEqual
  | testNull | testPair | testVectorRef
  | loopBack | loopBackWhileNotEqual | loopBackWhileNotLess | loopBackWhileNotLessEqual
  | loopBackStepWhileLess | loopBackStepWhileLessEqual
  | addVectorRef | addCar | addStringRefCode | addMul | subMul
  | addMulVectorRef | vectorRefVectorRef
  | addFixnumK | subtractFixnumK | addSubFixnumK
  | testLessFixnum | testLessEqualFixnum | testEqualFixnum | loopBackWhileNotEqualFixnum
  deriving DecidableEq, Repr

/-- All opcodes, in the order of their bits. -/
def Opcode.all : List Opcode :=
  [.move, .loadK, .loadKx, .extraArg,
   .getGlobal, .setGlobal,
   .getCapture, .setCapture, .getCaptureValue,
   .getLocalBox, .setLocalBox, .boxLocal,
   .closure, .caseLambda,
   .jump, .jumpFalse, .call, .tailCall, .return, .cold,
   .add, .subtract, .multiply, .divide,
   .numericEqual, .numericLess, .numericLessEqual, .numericGreater, .numericGreaterEqual,
   .cons, .car, .cdr, .nullP, .pairP,
   .vectorRef, .vectorSet,
   .stringRef, .stringLength, .charToInteger,
   .testEqual, .testLess, .testLessEqual, .testGreater, .testGreaterEqual,
   .testNull, .testPair, .testVectorRef,
   .loopBack, .loopBackWhileNotEqual, .loopBackWhileNotLess, .loopBackWhileNotLessEqual,
   .loopBackStepWhileLess, .loopBackStepWhileLessEqual,
   .addVectorRef, .addCar, .addStringRefCode, .addMul, .subMul,
   .addMulVectorRef, .vectorRefVectorRef,
   .addFixnumK, .subtractFixnumK, .addSubFixnumK,
   .testLessFixnum, .testLessEqualFixnum, .testEqualFixnum, .loopBackWhileNotEqualFixnum]

def Opcode.fromBits (bits : ℕ) : Option Opcode := Opcode.all[bits]?

/-! ### Words -/

structure Word where
  bits : UInt32
  deriving DecidableEq, Repr

namespace Word

def opcodeBits (w : Word) : ℕ := w.bits.toNat % 2 ^ 7

def a (w : Word) : ℕ := w.bits.toNat / 2 ^ 7 % 2 ^ 8

def k (w : Word) : Bool := w.bits.toNat / 2 ^ 15 % 2 = 1

def b (w : Word) : ℕ := w.bits.toNat / 2 ^ 16 % 2 ^ 8

def c (w : Word) : ℕ := w.bits.toNat / 2 ^ 24 % 2 ^ 8

def bx (w : Word) : ℕ := w.bits.toNat / 2 ^ 15 % 2 ^ 17

def axValue (w : Word) : ℕ := w.bits.toNat / 2 ^ 7 % 2 ^ 25

/-- The branch offset in Bx, in excess notation. -/
def sbx (w : Word) : ℤ := w.bx - 65535

/-- The jump offset in Ax, in excess notation. -/
def signedJump (w : Word) : ℤ := w.axValue - 16777215

/-- The opcode of a word of verified code, if its bits name one. -/
def opcode? (w : Word) : Option Opcode := Opcode.fromBits w.opcodeBits

/-! Words as the assembler writes them. -/

def bitsOf (op : Opcode) : ℕ := Opcode.all.idxOf op

def abc (op : Opcode) (a b c : ℕ) (k : Bool) : Word :=
  ⟨.ofNat (bitsOf op + a * 2 ^ 7 + k.toNat * 2 ^ 15 + b * 2 ^ 16 + c * 2 ^ 24)⟩

def abx (op : Opcode) (a bx : ℕ) : Word := ⟨.ofNat (bitsOf op + a * 2 ^ 7 + bx * 2 ^ 15)⟩

def ax (op : Opcode) (ax : ℕ) : Word := ⟨.ofNat (bitsOf op + ax * 2 ^ 7)⟩

def sj (op : Opcode) (offset : ℤ) : Word := ax op (offset + 16777215).toNat

def asbx (op : Opcode) (a : ℕ) (offset : ℤ) : Word := abx op a (offset + 65535).toNat

end Word

/-! ### Values -/

/-- A Scheme value: immediate, or a reference into the heap. -/
inductive Value
  | undefined
  | unspecified
  | nil
  | boolean (value : Bool)
  | character (value : Char)
  | fixnum (value : Int64)
  | float (value : Float)
  | eof
  | heap (reference : UInt32)

namespace Value

def asFixnum : Value → Option Int64
  | fixnum value => some value
  | _ => none

def asFloat : Value → Option Float
  | float value => some value
  | _ => none

def heapRef : Value → Option UInt32
  | heap reference => some reference
  | _ => none

end Value

/-! ### Chunks -/

inductive CaptureSource
  | localSlot (index : UInt8)
  | capture (index : UInt8)
  deriving DecidableEq, Repr

/-- How a closure holds one captured variable: as a raw value, or as a shared cell. -/
inductive CaptureKind
  | value
  | cell
  deriving DecidableEq, Repr

inductive ExpectedResults
  | discard
  | one
  | all
  deriving DecidableEq, Repr

/-- The decoder of an already verified `Call` word. -/
def ExpectedResults.fromCallFieldVerified : ℕ → ExpectedResults
  | 0 => .all
  | 1 => .discard
  | _ => .one

inductive ColdInstruction
  | valueCountError (expected actual : ℕ)
  | callWithValues (destination producer consumer : UInt8) (expected : ExpectedResults)
  | makePromise (destination thunk : UInt8) (flatten : Bool)
  | force (destination promise : UInt8) (expected : ExpectedResults)
  | pushHandler (handler : UInt8)
  | popHandler
  | raise (destination object : UInt8) (continuable : Bool) (expected : ExpectedResults)
  | captureContinuation (destination procedure : UInt8) (expected : ExpectedResults)
  | dynamicWind (destination before thunk after : UInt8) (expected : ExpectedResults)
  | callWithPort (destination port procedure : UInt8) (expected : ExpectedResults)
  | callWithFile (destination path procedure : UInt8) (input : Bool)
      (expected : ExpectedResults)
  | withFile (destination path thunk : UInt8) (input : Bool) (expected : ExpectedResults)
  | load (destination path : UInt8) (environment : Option UInt8) (expected : ExpectedResults)
  | pushParameters (first count : UInt8)
  | popParameters (count : UInt8)
  | makeParameter (destination initial : UInt8) (converter : Option UInt8)
  | makeError (destination message firstIrritant count : UInt8)
  | loadNumber (destination : UInt8)
  deriving DecidableEq, Repr

inductive Arity
  | exact (count : UInt8)
  | atLeast (count : UInt8)
  deriving DecidableEq, Repr

structure ClosurePrototype (χ : Type) where
  chunk : χ
  captures : List CaptureSource

structure Chunk where
  code : List Word
  constants : List Value
  /-- The names of the global variables the code refers to. -/
  globalOperands : List String
  closures : List (ClosurePrototype Chunk)
  cold : List ColdInstruction
  arity : Arity
  maxRegisters : UInt8
  captureKinds : List CaptureKind
  boxedLocals : List UInt8

end Neetan.Bytecode
