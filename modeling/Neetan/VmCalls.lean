import Neetan.Bytecode
import Neetan.HeapRequests

/-!
Calls of closures and case-lambdas: the frames that a call pushes or enters again.

A frame remembers the procedure it runs. A call of that procedure may reuse the running code
without looking the procedure up; every other call finds its code in the heap. Native
procedures, parameters, records and continuations are left to other parts of the machine: a
call of one of them has no result here.
-/

namespace Neetan.Bytecode

def Arity.accepts (arity : Arity) (count : ℕ) : Bool :=
  match arity with
  | .exact expected => count = expected.toNat
  | .atLeast required => count ≥ required.toNat

def Arity.required : Arity → ℕ
  | .exact count | .atLeast count => count.toNat

def Arity.hasRest : Arity → Bool
  | .exact _ => false
  | .atLeast _ => true

end Neetan.Bytecode

namespace Neetan.Calls

open Neetan.Bytecode Neetan.Gc

/-- Equality of values: floats as numbers, all others by their word. -/
def same : Value → Value → Bool
  | .undefined, .undefined | .unspecified, .unspecified | .nil, .nil | .eof, .eof => true
  | .boolean a, .boolean b => a == b
  | .character a, .character b => a == b
  | .fixnum a, .fixnum b => a == b
  | .float a, .float b => a == b
  | .heap a, .heap b => a == b
  | _, _ => false

/-! ### Procedures -/

structure Closure where
  chunk : Chunk
  captures : List Value

def Closure.accepts (closure : Closure) (count : ℕ) : Bool := closure.chunk.arity.accepts count

/-- `Heap::closure`. -/
def closureOf (heap : Heap) (value : Value) : Option Closure :=
  match heap.object value with
  | some (.closure chunk captures) => some ⟨chunk, captures⟩
  | _ => none

def selectClause (heap : Heap) (clauses : List Value) (count : ℕ) : Option Closure :=
  clauses.findSome? fun clause =>
    match closureOf heap clause with
    | some found => if found.accepts count then some found else none
    | none => none

/-- `Heap::case_lambda`. -/
def caseLambda (heap : Heap) (value : Value) (count : ℕ) : Option Closure :=
  match heap.object value with
  | some (.caseLambda clauses) => selectClause heap clauses count
  | _ => none

/-! ### Frames -/

/-- A frame of the machine; `A` is the type of return actions. -/
structure Frame (A : Type) where
  closure : Closure
  procedure : Value
  pc : ℕ
  base : ℕ
  top : ℕ
  returnBase : ℕ
  expected : ExpectedResults
  returnAction : A

/-- The machine between two instructions, the running frame first. -/
structure Vm (A : Type) where
  heap : Heap
  stack : ℕ → Value
  frames : List (Frame A)

/-- Where a call finds its arguments, and how it returns. -/
structure Site (A : Type) where
  callBase : ℕ
  count : ℕ
  expected : ExpectedResults
  tail : Bool
  returnAction : A

variable {A : Type}

def shiftArgumentsDown (stack : ℕ → Value) (source destination count : ℕ) : ℕ → Value := fun i =>
  if destination ≤ i ∧ i < destination + count then stack (source + (i - destination)) else stack i

section
variable (owned : Object → ℕ)

def restList : List Value → HeapM Value
  | [] => pure .nil
  | value :: values => do
    let rest ← restList values
    allocPair owned value rest

def boxFrameLocals (base : ℕ) : List UInt8 → (ℕ → Value) → HeapM (ℕ → Value)
  | [], stack => pure stack
  | index :: indices, stack => do
    let cell ← alloc owned (.box (stack (base + index.toNat)))
    boxFrameLocals base indices (Function.update stack (base + index.toNat) cell)

def storeRest (arity : Arity) (base count : ℕ) (stack : ℕ → Value) : HeapM (ℕ → Value) :=
  if arity.hasRest then do
    let rest ← restList owned
      ((List.range' (base + arity.required) (count - arity.required)).map stack)
    pure (Function.update stack (base + arity.required) rest)
  else pure stack

def settle (closure : Closure) (base count : ℕ) (stack : ℕ → Value) : HeapM (ℕ → Value) := do
  let stack ← storeRest owned closure.chunk.arity base count stack
  boxFrameLocals owned base closure.chunk.boxedLocals stack

def topOf (arity : Arity) (base : ℕ) : ℕ :=
  base + arity.required + if arity.hasRest then 1 else 0

def pushFrame (vm : Vm A) (site : Site A) (procedure : Value) (closure : Closure) :
    Except Error (Vm A) :=
  let base := site.callBase + 1
  match settle owned closure base site.count vm.stack vm.heap with
  | .error (error, _) => .error error
  | .ok (stack, heap) =>
    let top := topOf closure.chunk.arity base
    .ok ⟨heap, stack, ⟨closure, procedure, 0, base, top, site.callBase, site.expected,
      site.returnAction⟩ :: vm.frames⟩

def reenterFrame (vm : Vm A) (frame : Frame A) (frames : List (Frame A)) (site : Site A)
    (procedure : Value) (closure : Closure) : Except Error (Vm A) :=
  let shifted := shiftArgumentsDown vm.stack (site.callBase + 1) frame.base site.count
  match settle owned closure frame.base site.count shifted vm.heap with
  | .error (error, _) => .error error
  | .ok (stack, heap) =>
    let top := topOf closure.chunk.arity frame.base
    .ok ⟨heap, stack, { frame with closure, procedure, pc := 0, top } :: frames⟩

/-- A tail call enters the running frame again; there is always one. -/
def prepareClosureCall (vm : Vm A) (site : Site A) (procedure : Value) (closure : Closure) :
    Except Error (Vm A) :=
  match site.tail, vm.frames with
  | true, frame :: frames => reenterFrame owned vm frame frames site procedure closure
  | _, _ => pushFrame owned vm site procedure closure

/-- `prepare_tail_self_call` and `prepare_self_call`: the running code for its own procedure. -/
def prepareSelfCall (vm : Vm A) (frame : Frame A) (frames : List (Frame A)) (site : Site A) :
    Except Error (Vm A) :=
  if site.tail then reenterFrame owned vm frame frames site frame.procedure frame.closure
  else pushFrame owned vm site frame.procedure frame.closure

/-! ### Calls -/

def arityError (message : String) : Error := ⟨.arityError, message⟩
def typeError (message : String) : Error := ⟨.typeError, message⟩

def arityText : Arity → String
  | .exact count => "Exact(" ++ toString count ++ ")"
  | .atLeast count => "AtLeast(" ++ toString count ++ ")"

/-- The elements of the last argument of `apply`. A list without a cycle has at most as many
pairs as the heap has slots, which is the fuel. -/
def listElements (heap : Heap) : ℕ → List UInt32 → Value → Except Error (List Value)
  | 0, _, _ => .error (typeError "apply final argument must not be cyclic")
  | fuel + 1, seen, tailList =>
    match tailList with
    | .nil => .ok []
    | .heap reference =>
      if reference ∈ seen then .error (typeError "apply final argument must not be cyclic")
      else
        match heap.pair tailList with
        | none => .error (typeError "apply final argument must be a proper list")
        | some (car, cdr) => do
          let elements ← listElements heap fuel (reference :: seen) cdr
          return car :: elements
    | _ => .error (typeError "apply final argument must be a proper list")

def writeRegisters (stack : ℕ → Value) (base : ℕ) : List Value → ℕ → Value
  | [] => stack
  | value :: values => writeRegisters (Function.update stack base value) (base + 1) values

/-- `apply` puts its target and the spread arguments in place of its own arguments. -/
def spreadApply (vm : Vm A) (site : Site A) : Except Error (Vm A × Site A) :=
  if site.count < 2 then .error (arityError "apply expected at least two arguments")
  else do
    let supplied := (List.range' (site.callBase + 1) site.count).map vm.stack
    let target := supplied.headD .nil
    let elements ← listElements vm.heap (vm.heap.cells.length + 1) [] (supplied.getLastD .nil)
    let arguments := supplied.tail.dropLast ++ elements
    let stack := writeRegisters vm.stack site.callBase (target :: arguments)
    return ({ vm with stack }, { site with count := arguments.length })

/-- The call without the shortcut; no result for the callees that are not modelled. -/
def classifiedCall (vm : Vm A) (site : Site A)
    (recurse : Vm A → Site A → Option (Except Error (Vm A))) : Option (Except Error (Vm A)) :=
  let procedure := vm.stack site.callBase
  match vm.heap.object procedure with
  | some .apply =>
    match spreadApply vm site with
    | .error error => some (.error error)
    | .ok (vm, site) => recurse vm site
  | some (.closure chunk captures) =>
    if chunk.arity.accepts site.count then
      some (prepareClosureCall owned vm site procedure ⟨chunk, captures⟩)
    else
      some (.error (arityError ("procedure expected " ++ arityText chunk.arity ++
        " arguments, received " ++ toString site.count)))
  | some (.caseLambda _) =>
    match caseLambda vm.heap procedure site.count with
    | some found => some (prepareClosureCall owned vm site procedure found)
    | none =>
      some (.error (arityError ("no case-lambda clause accepts " ++ toString site.count ++
        " arguments")))
  | _ => none

/-- `call`, at most as many `apply`s deep as there is fuel. -/
def call : ℕ → Vm A → Site A → Option (Except Error (Vm A))
  | 0, _, _ => none
  | fuel + 1, vm, site =>
    match vm.frames with
    | frame :: frames =>
      if same frame.procedure (vm.stack site.callBase) && frame.closure.accepts site.count then
        some (prepareSelfCall owned vm frame frames site)
      else classifiedCall owned vm site (call fuel)
    | [] => classifiedCall owned vm site (call fuel)

/-! ### The call instructions -/

/-- The shape whose frame can be set up without an allocation. -/
def infallible (closure : Closure) (count : ℕ) : Bool :=
  !closure.chunk.arity.hasRest && closure.accepts count && closure.chunk.boxedLocals.isEmpty

/-- `push_self_frame` and `prepare_general_call`. -/
def pushPlainFrame (vm : Vm A) (site : Site A) (procedure : Value) (closure : Closure) : Vm A :=
  let base := site.callBase + 1
  { vm with
    frames := ⟨closure, procedure, 0, base, base + site.count, site.callBase, site.expected,
      site.returnAction⟩ :: vm.frames }

/-- `prepare_tail_general_call`. -/
def reenterPlainFrame (vm : Vm A) (frame : Frame A) (frames : List (Frame A)) (site : Site A)
    (procedure : Value) (closure : Closure) : Vm A :=
  { vm with
    stack := shiftArgumentsDown vm.stack (site.callBase + 1) frame.base site.count
    frames := { frame with closure, procedure, pc := 0, top := frame.base + site.count } ::
      frames }

/-- The instructions `Call` and `TailCall`, by the flag of the site. -/
def callArm (fuel : ℕ) (vm : Vm A) (site : Site A) : Option (Except Error (Vm A)) :=
  match vm.frames with
  | [] => none
  | frame :: frames =>
    let procedure := vm.stack site.callBase
    if same frame.procedure procedure && infallible frame.closure site.count then
      if site.tail then some (prepareSelfCall owned vm frame frames site)
      else some (.ok (pushPlainFrame vm site frame.procedure frame.closure))
    else
      match closureOf vm.heap procedure with
      | some found =>
        if infallible found site.count then
          if site.tail then
            some (.ok (reenterPlainFrame vm frame frames site procedure found))
          else some (.ok (pushPlainFrame vm site procedure found))
        else call owned fuel vm site
      | none => call owned fuel vm site

end

end Neetan.Calls
