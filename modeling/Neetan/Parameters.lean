import Mathlib.Data.List.Basic
import Mathlib.Tactic.Common

/-!
Parameter objects of the virtual machine and the stack of their outer values.

A parameter holds its value in place; a binding overwrites it and keeps the outer value on a
stack, and a return, a jump to a continuation and an exit each take bindings back in their own
way. What else the machine computes is left open: a call may meet any kind of callee, and
anything may fail. Fields marked ghost are not in the machine: they tell which bindings the
frames have open, which frames an exit has left for good, and what the values were outside
all bindings.
-/

namespace Neetan.Parameters

/-- A parameter object. -/
structure Parameter (V : Type) where
  value : V
  converter : Option V

/-- The parameter objects of the heap, by handle. -/
abbrev Store (V : Type) := V → Option (Parameter V)

/-- What one `parameterize` binds: parameters with their values, the last first. -/
abbrev Group (V : Type) := List (V × V)

/-- What is done with the results of a frame; `κ` is the type of continuations. -/
inductive ReturnAction (V κ : Type)
  /-- The actions that leave parameters alone and let the frame below go on. -/
  | plain
  /-- Ghost: the bindings of a call that failed and never got its frame. -/
  | raiseReturned (dropped : List (Group V))
  | createParameter (converter : V)
  /-- Ghost: the port that the parameter is bound to. -/
  | restorePort (parameter old port : V)
  | convertedParameter (parameter old : V) (remaining converted : List (V × V × V))
  /-- The number of thunks still to run. Ghost: the bindings of the call that jumps. -/
  | continueTransfer (thunks : ℕ) (continuation : κ) (dropped : List (Group V))
  | exitCleanup (remaining : ℕ)

structure Frame (V κ : Type) where
  returnAction : ReturnAction V κ
  /-- Ghost: what the frame has bound and not yet taken back, innermost first. -/
  groups : List (Group V)

/-- A captured continuation; frames and parameters innermost first. -/
structure Continuation (V : Type) where
  frames : List (Frame V (Continuation V))
  abandoned : List (Frame V (Continuation V))
  parameters : List (V × V)
  parameterValues : List (V × V)
  /-- Ghost: the values outside all bindings. -/
  base : V → Option V

variable {V : Type}

/-! ### Values -/

def Store.value (store : Store V) (parameter : V) : Option V :=
  (store parameter).map Parameter.value

/-- `set_parameter`, on a parameter. -/
def Store.set [DecidableEq V] (store : Store V) (parameter value : V) : Store V := fun other =>
  if other = parameter then (store other).map fun p => { p with value := value } else store other

def Store.setAll [DecidableEq V] (store : Store V) (values : List (V × V)) : Store V :=
  values.foldl (fun now binding => now.set binding.1 binding.2) store

/-- The value that the innermost binding gives, or the one outside all of them. -/
def innermost [DecidableEq V] (base : V → Option V) (groups : List (Group V)) (parameter : V) :
    Option V :=
  (groups.flatten.lookup parameter).or (base parameter)

/-! ### States -/

/-- The frame stack is `frames ++ abandoned`, innermost first. -/
structure State (V : Type) where
  store : Store V
  frames : List (Frame V (Continuation V))
  /-- Ghost: the part of the frame stack that an exit has left for good. -/
  abandoned : List (Frame V (Continuation V))
  /-- Bound parameters with their outer values, innermost first. -/
  parameters : List (V × V)
  /-- The continuation objects in the heap. -/
  continuations : List (Continuation V)
  /-- Ghost: the values outside all bindings. -/
  base : V → Option V
  /-- Ghost: the values at the start of the evaluation. -/
  start : V → Option V

/-- The bindings that live as long as a frame with this action, or that the action carries. -/
def ReturnAction.groups {κ : Type} : ReturnAction V κ → List (Group V)
  | .restorePort parameter _ port => [[(parameter, port)]]
  | .continueTransfer _ _ dropped | .raiseReturned dropped => dropped
  | _ => []

/-- The actions after which the frame below goes on. -/
def ReturnAction.resumes {κ : Type} : ReturnAction V κ → Bool
  | .raiseReturned _ | .continueTransfer _ _ _ | .exitCleanup _ => false
  | _ => true

/-- The continuation that an action holds. -/
def ReturnAction.continuation? {κ : Type} : ReturnAction V κ → Option κ
  | .continueTransfer _ k _ => some k
  | _ => none

/-- The parameters whose outer values an action holds. -/
def ReturnAction.pending {κ : Type} : ReturnAction V κ → List V
  | .restorePort parameter _ _ => [parameter]
  | .convertedParameter parameter _ remaining converted =>
    parameter :: (remaining ++ converted).map Prod.fst
  | _ => []

/-- The bindings that are active under these frames, innermost first. -/
def activeGroups (frames : List (Frame V (Continuation V))) : List (Group V) :=
  frames.flatMap fun frame => frame.groups ++ frame.returnAction.groups

/-- The parameters that a continuation has bound or is about to bind. -/
def Continuation.touched (k : Continuation V) : List V :=
  k.parameters.map Prod.fst ++ k.frames.flatMap fun frame => frame.returnAction.pending

/-- What converted bindings bind. -/
def groupOf (converted : List (V × V × V)) : Group V :=
  (converted.map fun c => (c.1, c.2.2)).reverse

def State.groups (s : State V) : List (Group V) := activeGroups s.frames

def State.push (s : State V) (action : ReturnAction V (Continuation V)) : State V :=
  { s with frames := ⟨action, []⟩ :: s.frames }

variable [DecidableEq V]

namespace State

def alloc (s : State V) (handle : V) (parameter : Parameter V) : State V :=
  { s with
    store := fun other => if other = handle then some parameter else s.store other
    base := fun other => if other = handle then some parameter.value else s.base other }

/-- The continuation that is captured here. -/
def capture (s : State V) : Continuation V where
  frames := s.frames
  abandoned := s.abandoned
  parameters := s.parameters
  parameterValues := s.parameters.filterMap fun binding =>
    (s.store.value binding.1).map fun value => (binding.1, value)
  base := s.base

/-- `restore_continuation`: the bindings now active are taken back, then the captured values
and the captured stacks are put in place. -/
def restore (s : State V) (k : Continuation V) : State V :=
  { s with
    store := (s.store.setAll s.parameters).setAll k.parameterValues
    frames := k.frames
    abandoned := k.abandoned
    parameters := k.parameters }

/-- `begin_exit`: the bindings are taken back, and no frame goes on. -/
def beginExit (s : State V) : State V :=
  { s with
    store := s.store.setAll s.parameters
    frames := []
    abandoned := s.frames ++ s.abandoned
    parameters := [] }

/-- `PopParameters`. -/
def popParameters (s : State V) (count : ℕ) : State V :=
  { s with
    store := s.store.setAll (s.parameters.take count)
    parameters := s.parameters.drop count }

/-- The end of `continue_parameter_bindings`: the converted values are stored and the outer
ones are kept. -/
def bindAll (s : State V) (converted : List (V × V × V)) : State V :=
  { s with
    store := s.store.setAll (converted.map fun c => (c.1, c.2.2))
    parameters := (converted.map fun c => (c.1, c.2.1)).reverse ++ s.parameters }

/-- Ghost: the running frame has bound a group. -/
def openGroup (s : State V) (group : Group V) : State V :=
  match s.frames with
  | frame :: rest => { s with frames := { frame with groups := group :: frame.groups } :: rest }
  | [] => s

/-- Ghost: the running frame has taken its last group back. -/
def closeGroup (s : State V) : State V :=
  match s.frames with
  | frame :: rest => { s with frames := { frame with groups := frame.groups.tail } :: rest }
  | [] => s

end State

/-- How a step of the machine comes out. A failure carries, as a ghost, the bindings of a
call that never got its frame. -/
inductive Result (V : Type)
  | running (s : State V)
  | finished (s : State V)
  | exited (s : State V)
  | failed (s : State V) (dropped : List (Group V))

def Result.state : Result V → State V
  | .running s | .finished s | .exited s | .failed s _ => s

/-- What the machine is about to do. -/
inductive Task (V : Type)
  /-- `call`, from a tail position or not. -/
  | call (tail : Bool) (action : ReturnAction V (Continuation V))
  /-- `complete_return`. -/
  | complete (action : ReturnAction V (Continuation V))
  /-- `continue_exit`, with the number of after thunks still to run. -/
  | exit (remaining : ℕ)
  /-- `continue_parameter_bindings`; a binding is a parameter, its outer and its new value. -/
  | bind (remaining converted : List (V × V × V))

/-- Ghost: the bindings that a task has made and no frame has yet. -/
def Task.groups : Task V → List (Group V)
  | .call false action | .complete action => action.groups
  | .call true _ | .exit _ | .bind _ _ => []

section Machine

-- which continuations may be entered where; the machine itself allows all
variable (allowed : State V → Continuation V → Prop)

/-- The machine does the task from the state, with the result. -/
inductive Runs : State V → Task V → Result V → Prop
  | fails {s task} : Runs s task (.failed s task.groups)
  -- call: a closure, or the running procedure itself
  | callClosure {s action} : Runs s (.call false action) (.running (s.push action))
  | tailCallClosure {s action frame rest} (hf : s.frames = frame :: rest) :
      Runs s (.call true action)
        (.running { s with frames := ⟨frame.returnAction, []⟩ :: rest })
  -- a parameter, a record procedure or a native has its results at once
  | callImmediate {s action r} (h : Runs s (.complete action) r) :
      Runs s (.call false action) r
  | tailCallImmediate {s action frame rest r} (hf : s.frames = frame :: rest)
      (h : Runs { s with frames := rest } (.complete frame.returnAction) r) :
      Runs s (.call true action) r
  -- a native asks for an exit
  | callExit {s tail action remaining r} (h : Runs s.beginExit (.exit remaining) r) :
      Runs s (.call tail action) r
  -- a continuation
  | callResume {s tail action} {k : Continuation V} (hk : k ∈ s.continuations)
      (ha : allowed s k) : Runs s (.call tail action) (.running (s.restore k))
  | callResumeFails {s tail action} {k : Continuation V} (hk : k ∈ s.continuations)
      (ha : allowed s k) : Runs s (.call tail action) (.failed (s.restore k) [])
  | callTransfer {s tail action thunks r} {k : Continuation V} (hk : k ∈ s.continuations)
      (h : Runs s (.call false
        (.continueTransfer thunks k (Task.groups (.call tail action)))) r) :
      Runs s (.call tail action) r
  -- complete_return
  | deliver {s} (hf : s.frames ++ s.abandoned ≠ []) : Runs s (.complete .plain) (.running s)
  | deliverLast {s} (hf : s.frames ++ s.abandoned = []) :
      Runs s (.complete .plain) (.finished s)
  | callAgain {s r} (h : Runs s (.call false .plain) r) : Runs s (.complete .plain) r
  | create {s handle value converter r} (hnew : s.store handle = none)
      (h : Runs (s.alloc handle ⟨value, some converter⟩) (.complete .plain) r) :
      Runs s (.complete (.createParameter converter)) r
  | restorePort {s parameter old port rest r} (hp : s.parameters = (parameter, old) :: rest)
      (h : Runs (s.popParameters 1) (.complete .plain) r) :
      Runs s (.complete (.restorePort parameter old port)) r
  | restorePortMismatch {s parameter old port active rest}
      (hp : s.parameters = active :: rest) (hne : active ≠ (parameter, old)) :
      Runs s (.complete (.restorePort parameter old port))
        (.failed { s with parameters := rest } [])
  | converted {s parameter old value remaining converted r}
      (h : Runs s (.bind remaining (converted ++ [(parameter, old, value)])) r) :
      Runs s (.complete (.convertedParameter parameter old remaining converted)) r
  | transferEnds {s dropped} {k : Continuation V} (ha : allowed s k) :
      Runs s (.complete (.continueTransfer 0 k dropped)) (.running (s.restore k))
  | transferEndFails {s dropped} {k : Continuation V} (ha : allowed s k) :
      Runs s (.complete (.continueTransfer 0 k dropped)) (.failed (s.restore k) [])
  | transferNext {s thunks dropped r} {k : Continuation V}
      (h : Runs s (.call false (.continueTransfer thunks k dropped)) r) :
      Runs s (.complete (.continueTransfer (thunks + 1) k dropped)) r
  | exitNext {s remaining r} (h : Runs s (.exit remaining) r) :
      Runs s (.complete (.exitCleanup remaining)) r
  -- continue_exit; the safe point after a completed exit ends the run
  | exitThunk {s remaining r} (h : Runs s (.call false (.exitCleanup remaining)) r) :
      Runs s (.exit (remaining + 1)) r
  | exitDone {s} : Runs s (.exit 0) (.exited s)
  -- continue_parameter_bindings
  | keep {s parameter old value stored remaining converted r}
      (hp : s.store parameter = some ⟨stored, none⟩)
      (h : Runs s (.bind remaining (converted ++ [(parameter, old, value)])) r) :
      Runs s (.bind ((parameter, old, value) :: remaining) converted) r
  | convert {s parameter old value stored converter remaining converted r}
      (hp : s.store parameter = some ⟨stored, some converter⟩)
      (h : Runs s (.call false (.convertedParameter parameter old remaining converted)) r) :
      Runs s (.bind ((parameter, old, value) :: remaining) converted) r
  | bound {s converted} (hp : ∀ c ∈ converted, (s.store c.1).isSome) :
      Runs s (.bind [] converted)
        (.running ((s.bindAll converted).openGroup (groupOf converted)))
  | bindFails {s front c back} (hp : s.store c.1 = none) :
      Runs s (.bind [] (front ++ c :: back)) (.failed (s.bindAll front) [])

/-- `invoke_error_handler`: an error of a call may go to a handler. -/
inductive Handled : Result V → Result V → Prop
  | passes {r} : Handled r r
  | handler {s dropped r} (h : Runs allowed s (.call false (.raiseReturned dropped)) r) :
      Handled (.failed s dropped) r

/-- One instruction of the running frame. The compiler puts the two ends of a `parameterize`
around its body, which is in no tail position, so a frame that returns or makes a tail call
has taken back what it bound, the last binding first. -/
inductive Exec : State V → Result V → Prop
  -- any instruction, also an interrupt, the fuel and the heap limit
  | fails {s} : Exec s (.failed s [])
  | other {s} : Exec s (.running s)
  | raise {s r} (h : Runs allowed s (.call false (.raiseReturned [])) r) : Exec s r
  -- a cold instruction that calls
  | coldCall {s r} (h : Runs allowed s (.call false .plain) r) : Exec s r
  | call {s frame rest tail r r'} (hf : s.frames = frame :: rest)
      (hg : tail = true → frame.groups = []) (h : Runs allowed s (.call tail .plain) r)
      (hh : Handled allowed r r') : Exec s r'
  | ret {s frame rest r} (hf : s.frames = frame :: rest) (hg : frame.groups = [])
      (h : Runs allowed { s with frames := rest } (.complete frame.returnAction) r) : Exec s r
  | capture {s r} (h : Runs allowed { s with continuations := s.capture :: s.continuations }
      (.call false .plain) r) : Exec s r
  | makeParameter {s handle value} (hnew : s.store handle = none) :
      Exec s (.running (s.alloc handle ⟨value, none⟩))
  | convertParameter {s converter r}
      (h : Runs allowed s (.call false (.createParameter converter)) r) : Exec s r
  | pushParameters {s bindings r} (hold : ∀ c ∈ bindings, s.store.value c.1 = some c.2.1)
      (h : Runs allowed s (.bind bindings []) r) : Exec s r
  | popParameters {s frame rest group groups} (hf : s.frames = frame :: rest)
      (hg : frame.groups = group :: groups) :
      Exec s (.running (s.popParameters group.length).closeGroup)
  | withFile {s parameter old port r} (hold : s.store.value parameter = some old)
      (h : Runs allowed (s.bindAll [(parameter, old, port)])
        (.call false (.restorePort parameter old port)) r) : Exec s r
  | withFileHandled {s r} (h : Handled allowed (.failed s []) r) : Exec s r

/-! ### Evaluations -/

/-- `Engine::eval`: a fresh frame stack on the heap that earlier evaluations left. -/
def State.eval (s : State V) : State V :=
  { s with
    frames := [⟨.plain, []⟩]
    abandoned := []
    parameters := []
    base := s.store.value
    start := s.store.value }

def State.initial (store : Store V) : State V where
  store := store
  frames := []
  abandoned := []
  parameters := []
  continuations := []
  base := store.value
  start := store.value

/-- The state of an evaluation that has ended. -/
inductive Ended : Result V → State V → Prop
  | finished {s} : Ended (.finished s) s
  | exited {s} : Ended (.exited s) s
  | failed {s dropped} : Ended (.failed s dropped) s

inductive Phase
  | idle
  | running

/-- The states that an engine goes through, in and between its evaluations. -/
inductive Reachable : Phase → State V → Prop
  | fresh {store : Store V} : Reachable .idle (.initial store)
  -- the host sets a standard port
  | install {s parameter port} (h : Reachable .idle s) :
      Reachable .idle { s with store := s.store.set parameter port }
  | eval {s} (h : Reachable .idle s) : Reachable .running s.eval
  | step {s s'} (h : Reachable .running s) (hx : Exec allowed s (.running s')) :
      Reachable .running s'
  | ends {s r s'} (h : Reachable .running s) (hx : Exec allowed s r) (he : Ended r s') :
      Reachable .idle s'

end Machine

end Neetan.Parameters
