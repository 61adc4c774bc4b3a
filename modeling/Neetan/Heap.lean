import Neetan.Bytecode
import Neetan.Number
import Neetan.Utf8

/-!
The object heap: slots with their metadata bytes, payload arenas, and access by handle.

A slot and its metadata byte, which the source keeps in two tables of one length, are one
cell here. Of an object the model has what an access, the tracer or the sweep reads; a
pending return action of a captured frame is the list of the values it holds.
-/

namespace Neetan.Gc

open Neetan.Bytecode Neetan.Utf8

/-- The native procedures with a classified fast path. -/
inductive FastProcedure
  | add | subtract | multiply | divide
  | equal | less | greater | lessEqual | greaterEqual
  | vectorRef | vectorSet
  | cons | car | cdr | nullP | pairP
  | stringRef | charToInteger | stringLength
  | assocEqv | memberEqv | assocEqual | memberEqual
  | length | listRef | listTail | reverse | append
  deriving DecidableEq, Repr

/-! ### Objects -/

inductive PromiseState
  | pending (thunk : Value) (flatten : Bool)
  | forcing (thunk : Value) (flatten : Bool)
  | done (values : List Value)
  | forward (promise : Value)

inductive ConditionKind
  | error
  | read
  | file
  deriving DecidableEq, Repr

inductive RecordProcedure
  | constructor (recordType : Value) (fields : ℕ) (mapping : List ℕ)
  | predicate (recordType : Value)
  | accessor (recordType : Value) (field : ℕ)
  | mutator (recordType : Value) (field : ℕ)

inductive RuntimeNumber
  | real (value : Number.Real)
  | complex (real imaginary : Number.Real)

structure CapturedFrame where
  captures : List Value
  procedure : Value
  /-- The values its return action holds. -/
  returnAction : List Value

structure CapturedWind where
  before : Value
  after : Value

structure Continuation where
  frames : List CapturedFrame
  stack : List Value
  handlers : List Value
  parameters : List (Value × Value)
  parameterValues : List (Value × Value)
  winds : List CapturedWind

/-- A heap object. Strings, bytevectors and vectors are handles of a span in an arena. -/
inductive Object
  | pair (car cdr : Value)
  | vector (off len : ℕ)
  | bytevector (off len : ℕ)
  | string (off byteLen chars : ℕ)
  | symbol (name : String)
  | closure (chunk : Chunk) (captures : List Value)
  | caseLambda (closures : List Value)
  | native (id : ℕ) (fast : Option FastProcedure) (singleResult mayExit : Bool)
  | apply
  | box (value : Value)
  | promise (state : PromiseState)
  | parameter (value : Value) (converter : Option Value)
  | continuation (continuation : Continuation)
  | record (recordType : Value) (fields : List Value)
  | recordType (fields : ℕ)
  | recordProcedure (procedure : RecordProcedure)
  | port (id : ℕ)
  | error (message : Value) (irritants : List Value) (kind : ConditionKind)
  | environment (mutable : Bool)
  | number (value : RuntimeNumber)
  | randomSource (key counter : UInt64)

/-! ### Metadata bytes -/

def metaStateMask : UInt8 := 7
def metaFree : UInt8 := 0
def metaYoung : UInt8 := 1
def metaImmutable : UInt8 := 8

/-- The two rotating mark colors. -/
inductive MarkColor
  | a
  | b
  deriving DecidableEq, Repr

def MarkColor.bits : MarkColor → UInt8
  | .a => 2
  | .b => 3

/-- The color of the next collection. -/
def MarkColor.rotate : MarkColor → MarkColor
  | .a => .b
  | .b => .a

/-- A slot with its metadata byte. -/
structure Cell where
  slot : Option Object
  byte : UInt8

def Cell.state (cell : Cell) : UInt8 := cell.byte &&& metaStateMask

/-- A run of free slots. -/
structure Hole where
  start : ℕ
  stop : ℕ
  deriving DecidableEq, Repr

/-! ### The heap -/

/-- The next hole to be used is the first of `holes`. -/
structure Heap where
  cells : List Cell
  valueArena : List Value
  byteArena : List UInt8
  holes : List Hole
  cursor : ℕ
  limit : ℕ
  regionEnd : ℕ
  authStart : ℕ
  currentMark : MarkColor
  liveBase : ℕ
  dynamicBytes : ℕ
  slotThreshold : ℕ
  byteThreshold : ℕ
  minimumSlotHeadroom : ℕ
  minimumByteHeadroom : ℕ
  maxSlots : ℕ
  maxBytes : ℕ
  temporaryRoots : List Value
  hostRoots : List Value
  engineRoots : List Value
  rootedRegionDepth : ℕ
  pendingCollection : Bool
  vmActive : Bool

namespace Heap

/-- The object a value refers to. -/
def object (heap : Heap) (value : Value) : Option Object := do
  let reference ← value.heapRef
  let cell ← heap.cells[reference.toNat]?
  cell.slot

def native (heap : Heap) (value : Value) : Option ℕ :=
  match heap.object value with
  | some (.native id ..) => some id
  | _ => none

def pair (heap : Heap) (value : Value) : Option (Value × Value) :=
  match heap.object value with
  | some (.pair car cdr) => some (car, cdr)
  | _ => none

/-- The unchecked read of one element. -/
def vectorElement (arena : List Value) (position : ℕ) : Value := arena.getD position .undefined

def vectorRef (heap : Heap) (value : Value) (index : ℕ) : Option Value :=
  match heap.object value with
  | some (.vector off len) =>
    if index ≥ len then none else some (vectorElement heap.valueArena (off + index))
  | _ => none

/-- `none` when the write is refused. -/
def vectorSet (heap : Heap) (value : Value) (index : ℕ) (replacement : Value) : Option Heap := do
  let reference ← value.heapRef
  let cell ← heap.cells[reference.toNat]?
  if cell.byte &&& metaImmutable ≠ 0 then none
  else
    match cell.slot with
    | some (.vector off len) =>
      if index ≥ len then none
      else some { heap with valueArena := heap.valueArena.set (off + index) replacement }
    | _ => none

end Heap

/-! ### Characters of a string span -/

def decodeCharAt (bytes : List UInt8) (offset : ℕ) : Option Char := do
  let lead ← bytes[offset]?
  let width :=
    if lead ≤ 0x7F then 1
    else if 0xC2 ≤ lead ∧ lead ≤ 0xDF then 2
    else if 0xE0 ≤ lead ∧ lead ≤ 0xEF then 3
    else 4
  if bytes.length < offset + width then none
  else
    let text ← String.fromUTF8? ⟨((bytes.drop offset).take width).toArray⟩
    text.toList.head?

/-- One character forward. -/
def stepForward (bytes : List UInt8) (offset : ℕ) : ℕ :=
  offset + 1 + ((bytes.drop (offset + 1)).takeWhile isContinuation).length

/-- One character back. -/
def stepBack (bytes : List UInt8) (offset : ℕ) : ℕ :=
  offset - 1 - ((bytes.take offset).reverse.takeWhile isContinuation).length

/-- The walk begins at the nearer end of the span. The source may begin at the cached
position of an earlier access instead, which is a boundary of the same characters. -/
def charToByte (bytes : List UInt8) (chars index : ℕ) : ℕ :=
  if chars - index < index then (stepBack bytes)^[chars - index] bytes.length
  else (stepForward bytes)^[index] 0

namespace Heap

def stringRef (heap : Heap) (value : Value) (index : ℕ) : Option Char :=
  match heap.object value with
  | some (.string off byteLen chars) =>
    if index ≥ chars then none
    else if byteLen = chars then
      heap.byteArena[off + index]?.map fun byte => Char.ofNat byte.toNat
    else if heap.byteArena.length < off + byteLen then none
    else
      let bytes := (heap.byteArena.drop off).take byteLen
      decodeCharAt bytes (charToByte bytes chars index)
  | _ => none

def stringLen (heap : Heap) (value : Value) : Option ℕ :=
  match heap.object value with
  | some (.string _ _ chars) => some chars
  | _ => none

end Heap

end Neetan.Gc
