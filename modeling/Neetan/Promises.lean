import Neetan.HeapAllocate

/-!
Promises: forcing them, and storing what their thunks return.

Of the heap only the promises are kept, by the slot they are in. A thunk is called in a frame
whose return action stores the results in the promise; such frames may return in any order and,
through continuations, any number of times. Everything else a program does is left open.
-/

namespace Neetan.Promise

open Neetan.Bytecode Neetan.Gc

/-- The promises of the heap, by slot. -/
abbrev Promises := List (Option PromiseState)

def slotState (promises : Promises) (slot : ℕ) : Option PromiseState := promises[slot]?.join

/-- `Heap::promise_state`. -/
def promiseState (promises : Promises) (value : Value) : Option PromiseState :=
  match value with
  | .heap reference => slotState promises reference.toNat
  | _ => none

/-- `Heap::set_promise_state`; nothing if the value is not a promise. -/
def setPromiseState (promises : Promises) (value : Value) (state : PromiseState) :
    Option Promises :=
  match value with
  | .heap reference =>
    if (slotState promises reference.toNat).isSome then
      some (promises.set reference.toNat (some state))
    else none
  | _ => none

/-- What the machine is about to do. -/
inductive Task
  /-- `force_promise`. -/
  | force (promise : Value)
  /-- `complete_return` with a `StorePromise` action. -/
  | store (promise : Value) (flatten : Bool) (values : List Value)

/-- How one pass of the two functions comes out. -/
inductive Outcome
  | again (task : Task)
  /-- An ordinary return with these values. -/
  | returns (values : List Value)
  /-- A call of the thunk in a frame that stores its results. -/
  | calls (thunk promise : Value) (flatten : Bool)
  | fails (error : Error)

def badPromise : Error := ⟨.invalidBytecode, "invalid promise"⟩

/-- The promise state that the values are stored as: a chained promise is followed. -/
def stored (promises : Promises) (flatten : Bool) (values : List Value) : Option PromiseState :=
  if flatten then
    match values with
    | [next] =>
      if (promiseState promises next).isSome then some (.forward next) else some (.done values)
    | _ => none
  else some (.done values)

/-- One pass of `force_promise`. -/
def forcePass (promises : Promises) (promise : Value) : Promises × Outcome :=
  match promiseState promises promise with
  | some (.done values) => (promises, .returns values)
  | some (.forward next) => (promises, .again (.force next))
  | some (.pending thunk flatten) | some (.forcing thunk flatten) =>
    match setPromiseState promises promise (.forcing thunk flatten) with
    | some promises => (promises, .calls thunk promise flatten)
    | none => (promises, .fails badPromise)
  | none => (promises, .fails ⟨.typeError, "expected promise"⟩)

/-- The `StorePromise` arm of `complete_return`. -/
def storePass (promises : Promises) (promise : Value) (flatten : Bool) (values : List Value) :
    Promises × Outcome :=
  match stored promises flatten values with
  | none =>
    (promises, .fails ⟨.runtimeError,
      "expected exactly one value, received " ++ toString values.length⟩)
  | some state =>
    match setPromiseState promises promise state with
    | none => (promises, .fails badPromise)
    | some promises =>
      match state with
      | .forward next => (promises, .again (.force next))
      | _ => (promises, .returns values)

def pass (promises : Promises) : Task → Promises × Outcome
  | .force promise => forcePass promises promise
  | .store promise flatten values => storePass promises promise flatten values

/-! ### Runs -/

/-- The machine, as far as promises are concerned. -/
structure Machine where
  promises : Promises
  /-- The frames, captured ones included, that are to store their results: the promise, and
  whether a promise among the results is followed. -/
  frames : List (Value × Bool)
  /-- What is going on; nothing while a program's code runs. -/
  task : Option Task

/-- The collector takes promises away, and the heap may grow. -/
def Collects (before after : Promises) : Prop :=
  ∀ slot, slotState after slot = slotState before slot ∨ slotState after slot = none

/-- Promises are made that have their values from the beginning. -/
def Makes (before after : Promises) : Prop :=
  ∀ slot, slotState after slot = slotState before slot ∨
    slotState before slot = none ∧ ∃ values, slotState after slot = some (.done values)

inductive Step : Machine → Machine → Prop
  -- the program's code runs
  | collect {m : Machine} {promises : Promises} (ht : m.task = none)
      (h : Collects m.promises promises) : Step m { m with promises }
  | makePromise {m : Machine} (ht : m.task = none) {slot : ℕ} (hfree : m.promises[slot]? = some none)
      (thunk : Value) (flatten : Bool) :
      Step m { m with promises := m.promises.set slot (some (.pending thunk flatten)) }
  | makeDone {m : Machine} {promises : Promises} (ht : m.task = none)
      (h : Makes m.promises promises) : Step m { m with promises }
  | force {m : Machine} (ht : m.task = none) (promise : Value) :
      Step m { m with task := some (.force promise) }
  | frameReturns {m : Machine} (ht : m.task = none) {promise : Value} {flatten : Bool}
      (hf : (promise, flatten) ∈ m.frames) (values : List Value) :
      Step m { m with task := some (.store promise flatten values) }
  -- the two functions run
  | again {m : Machine} {task task' : Task} {promises : Promises} (ht : m.task = some task)
      (h : pass m.promises task = (promises, .again task')) :
      Step m { m with promises, task := some task' }
  | returns {m : Machine} {task : Task} {promises : Promises} {values : List Value}
      (ht : m.task = some task) (h : pass m.promises task = (promises, .returns values)) :
      Step m { m with promises, task := none }
  | fails {m : Machine} {task : Task} {promises : Promises} {error : Error}
      (ht : m.task = some task) (h : pass m.promises task = (promises, .fails error)) :
      Step m { m with promises, task := none }
  /-- The thunk's code starts. -/
  | enters {m : Machine} {task : Task} {promises : Promises} {thunk promise : Value}
      {flatten : Bool} (ht : m.task = some task)
      (h : pass m.promises task = (promises, .calls thunk promise flatten)) :
      Step m ⟨promises, (promise, flatten) :: m.frames, none⟩
  /-- The thunk has its results at once. -/
  | answers {m : Machine} {task : Task} {promises promises' : Promises} {thunk promise : Value}
      {flatten : Bool} (ht : m.task = some task)
      (h : pass m.promises task = (promises, .calls thunk promise flatten))
      (hmakes : Makes promises promises') (values : List Value) :
      Step m ⟨promises', m.frames, some (.store promise flatten values)⟩
  /-- The call of the thunk fails, or control goes elsewhere. -/
  | leaves {m : Machine} {task : Task} {promises : Promises} {thunk promise : Value}
      {flatten : Bool} (ht : m.task = some task)
      (h : pass m.promises task = (promises, .calls thunk promise flatten)) :
      Step m ⟨promises, m.frames, none⟩

def start : Machine := ⟨[], [], none⟩

end Neetan.Promise
