import Neetan.Dispatch

/-!
Control flow of the virtual machine: frames, return actions, continuations and wind lists.

What registers and heap hold is left open. A call may meet any kind of callee, a native may
return, fail or ask for an exit, a delivery may fail; `Runs` relates a state and a pending
task to every result the machine can come to. Fields marked ghost are not in the machine:
they tell the extents of `dynamic-wind` apart and log the transfers of a run.
-/

namespace Neetan.Vm

open Neetan.Bytecode

structure Wind where
  id : ℕ
  before : Value
  after : Value
  /-- Ghost: the number of the `dynamic-wind` call in the run. -/
  extent : ℕ
  /-- Ghost: the extents that enclose that call, outermost first. -/
  enclosing : List ℕ

inductive ThunkKind
  | before
  | after
  deriving DecidableEq, Repr

/-- A thunk that a transfer is to run, with the extent it belongs to. -/
structure WindThunk where
  kind : ThunkKind
  wind : Wind

def WindThunk.value (thunk : WindThunk) : Value :=
  match thunk.kind with
  | .before => thunk.wind.before
  | .after => thunk.wind.after

/-- What is done with the results of a frame; `κ` is the type of continuations. The number of
a transfer, its place in the log, is ghost. -/
inductive ReturnAction (κ : Type)
  | normal
  | invokeConsumer
  | storePromise
  | createParameter
  | raiseReturned
  | reinstallHandler (handler : Value)
  | startWind (wind : Wind)
  | finishWind (wind : Wind)
  | restoreResults
  | closePort
  | restorePort
  | loadComplete
  | convertedParameter (remaining : ℕ)
  | continueTransfer (transfer : ℕ) (thunks : List WindThunk) (continuation : κ)
  | exitCleanup (remaining : List Value)

def ReturnAction.resumes {κ : Type} : ReturnAction κ → Bool
  | .raiseReturned | .continueTransfer _ _ _ | .exitCleanup _ => false
  | _ => true

def ReturnAction.continuation? {κ : Type} : ReturnAction κ → Option κ
  | .continueTransfer _ _ k => some k
  | _ => none

structure Frame (κ : Type) where
  chunk : Chunk
  pc : ℕ
  returnAction : ReturnAction κ

/-- A captured continuation; frames running first, handlers innermost first, winds
outermost first. -/
structure Continuation where
  frames : List (Frame Continuation)
  handlers : List Value
  winds : List Wind
  nextWind : ℕ

/-- Ghost: how a transfer goes on. -/
inductive Move
  /-- A thunk starts while these winds are active. -/
  | runs (thunk : WindThunk) (active : List Wind)
  /-- Control resumes with these winds active. -/
  | resumes (active : List Wind)

/-- Ghost: one step of a transfer of control to a continuation. -/
inductive Event
  /-- The continuation is invoked, and these thunks are to run. -/
  | invoked (active captured : List Wind) (thunks : List WindThunk) (move : Move)
  /-- A thunk of the transfer has returned, and these are still to run. -/
  | returned (transfer : ℕ) (remaining : List WindThunk) (move : Move)

def common (current target : List Wind) : ℕ :=
  ((current.zip target).takeWhile fun pair => pair.1.id = pair.2.id).length

def transferThunks (current target : List Wind) : List WindThunk :=
  ((current.drop (common current target)).reverse.map fun wind => ⟨.after, wind⟩) ++
    (target.drop (common current target)).map fun wind => ⟨.before, wind⟩

structure State where
  frames : List (Frame Continuation)
  handlers : List Value
  winds : List Wind
  nextWind : ℕ
  /-- The chunks of the closures in the heap. -/
  procedures : List Chunk
  /-- The continuation objects in the heap. -/
  continuations : List Continuation
  /-- An exit was completed; the next safe point ends the run. -/
  exited : Bool
  /-- Ghost: the number of `dynamic-wind` calls so far. -/
  extents : ℕ
  /-- Ghost: the transfers so far, in order. -/
  events : List Event

namespace State

def push (s : State) (chunk : Chunk) (action : ReturnAction Continuation) : State :=
  { s with frames := ⟨chunk, 0, action⟩ :: s.frames }

def log (s : State) (events : List Event) : State := { s with events := s.events ++ events }

def capture (s : State) : Continuation := ⟨s.frames, s.handlers, s.winds, s.nextWind⟩

/-- `restore_continuation`: the captured state replaces the current one. -/
def restore (s : State) (k : Continuation) : State :=
  { s with
    frames := k.frames
    handlers := k.handlers
    winds := k.winds
    nextWind := k.nextWind }

def resumeAt (s : State) (k : Continuation) (event : Move → Event) : State :=
  (s.restore k).log [event (.resumes (s.restore k).winds)]

def startThunk (s : State) (thunk : WindThunk) (event : Move → Event) : State :=
  s.log [event (.runs thunk s.winds)]

end State

/-- How a step of the machine comes out: execution goes on, ends with results, or fails
with an error and the state at that point. -/
inductive Result
  | running (s : State)
  | finished (s : State)
  | failed (s : State)

/-- What the machine is about to do. -/
inductive Task
  /-- `call`, from a tail position or not. -/
  | call (tail : Bool) (action : ReturnAction Continuation)
  /-- `complete_return`. -/
  | complete (action : ReturnAction Continuation)
  /-- `force_promise`. -/
  | force
  /-- `continue_exit`, with the after thunks still to run. -/
  | exit (remaining : List Value)
  /-- `continue_parameter_bindings`. -/
  | bind (remaining : ℕ)

/-- The actions that end in an ordinary delivery, after at most some work on the heap. -/
def ReturnAction.passes : ReturnAction Continuation → Bool
  | .storePromise | .createParameter | .restoreResults | .closePort | .restorePort
  | .loadComplete => true
  | _ => false

/-- The machine does the task from the state, with the result. -/
inductive Runs : State → Task → Result → Prop
  -- call: an error of any kind before a frame is touched
  | callFails {s tail action} : Runs s (.call tail action) (.failed s)
  -- a closure, a case-lambda clause, or the running procedure itself
  | callClosure {s action chunk} (h : chunk ∈ s.procedures) :
      Runs s (.call false action) (.running (s.push chunk action))
  | tailCallClosure {s action chunk frame rest} (h : chunk ∈ s.procedures)
      (hf : s.frames = frame :: rest) :
      Runs s (.call true action)
        (.running { s with frames := ⟨chunk, 0, frame.returnAction⟩ :: rest })
  -- a parameter, a record procedure or a native has its results at once
  | callImmediate {s action r} (h : Runs s (.complete action) r) :
      Runs s (.call false action) r
  | tailCallImmediate {s action frame next rest r} (hf : s.frames = frame :: next :: rest)
      (h : Runs { s with frames := next :: rest } (.complete frame.returnAction) r) :
      Runs s (.call true action) r
  | tailCallLast {s action frame} (hf : s.frames = [frame]) :
      Runs s (.call true action) (.finished { s with frames := [] })
  -- a native asks for an exit: begin_exit
  | callExit {s tail action r} (emergency : Bool)
      (h : Runs { s with winds := [], handlers := [] }
        (.exit (if emergency then [] else s.winds.reverse.map Wind.after)) r) :
      Runs s (.call tail action) r
  -- a continuation
  | callResume {s tail action} {k : Continuation} (hk : k ∈ s.continuations)
      (ht : transferThunks s.winds k.winds = []) :
      Runs s (.call tail action) (.running (s.resumeAt k (.invoked s.winds k.winds [])))
  | callResumeFails {s tail action} {k : Continuation} (hk : k ∈ s.continuations)
      (ht : transferThunks s.winds k.winds = []) :
      Runs s (.call tail action) (.failed (s.resumeAt k (.invoked s.winds k.winds [])))
  | callTransfer {s tail action r thunk thunks} {k : Continuation} (hk : k ∈ s.continuations)
      (ht : transferThunks s.winds k.winds = thunk :: thunks)
      (h : Runs (s.startThunk thunk (.invoked s.winds k.winds (thunk :: thunks)))
        (.call false (.continueTransfer s.events.length thunks k)) r) :
      Runs s (.call tail action) r
  -- complete_return
  | completeFails {s action} : Runs s (.complete action) (.failed s)
  | deliver {s frame rest} (hf : s.frames = frame :: rest) :
      Runs s (.complete .normal) (.running s)
  | deliverLast {s} (hf : s.frames = []) : Runs s (.complete .normal) (.finished s)
  | pass {s action r} (ha : action.passes = true) (h : Runs s (.complete .normal) r) :
      Runs s (.complete action) r
  | consume {s r} (h : Runs s (.call false .normal) r) : Runs s (.complete .invokeConsumer) r
  | chainPromise {s r} (h : Runs s .force r) : Runs s (.complete .storePromise) r
  | reinstall {s handler r}
      (h : Runs { s with handlers := handler :: s.handlers } (.complete .normal) r) :
      Runs s (.complete (.reinstallHandler handler)) r
  | startWind {s wind r}
      (h : Runs { s with winds := s.winds ++ [wind] } (.call false (.finishWind wind)) r) :
      Runs s (.complete (.startWind wind)) r
  | finishWind {s wind winds active r} (hw : s.winds = winds ++ [active])
      (hid : active.id = wind.id)
      (h : Runs { s with winds := winds } (.call false .restoreResults) r) :
      Runs s (.complete (.finishWind wind)) r
  | finishWindFails {s wind winds active} (hw : s.winds = winds ++ [active]) :
      Runs s (.complete (.finishWind wind)) (.failed { s with winds := winds })
  | converted {s remaining r} (h : Runs s (.bind remaining) r) :
      Runs s (.complete (.convertedParameter remaining)) r
  | transferEnds {s transfer} {k : Continuation} :
      Runs s (.complete (.continueTransfer transfer [] k))
        (.running (s.resumeAt k (.returned transfer [])))
  | transferEndFails {s transfer} {k : Continuation} :
      Runs s (.complete (.continueTransfer transfer [] k))
        (.failed (s.resumeAt k (.returned transfer [])))
  | transferNext {s transfer thunk thunks r} {k : Continuation}
      (h : Runs (s.startThunk thunk (.returned transfer (thunk :: thunks)))
        (.call false (.continueTransfer transfer thunks k)) r) :
      Runs s (.complete (.continueTransfer transfer (thunk :: thunks) k)) r
  | exitNext {s remaining r} (h : Runs s (.exit remaining) r) :
      Runs s (.complete (.exitCleanup remaining)) r
  -- force_promise
  | forced {s r} (h : Runs s (.complete .normal) r) : Runs s .force r
  | forcePending {s r} (h : Runs s (.call false .storePromise) r) : Runs s .force r
  | forceFails {s} : Runs s .force (.failed s)
  -- continue_exit
  | exitThunk {s thunk remaining r} (h : Runs s (.call false (.exitCleanup remaining)) r) :
      Runs s (.exit (thunk :: remaining)) r
  | exitDone {s} : Runs s (.exit []) (.running { s with exited := true })
  | exitFails {s} : Runs s (.exit []) (.failed s)
  -- continue_parameter_bindings
  | bound {s remaining} : Runs s (.bind remaining) (.running s)
  | bindFails {s remaining} : Runs s (.bind remaining) (.failed s)
  | convert {s remaining left r} (hl : left < remaining)
      (h : Runs s (.call false (.convertedParameter left)) r) : Runs s (.bind remaining) r

/-- `invoke_error_handler`: an error goes to the innermost handler, if there is one. -/
inductive Handled : Result → Result → Prop
  | running {s} : Handled (.running s) (.running s)
  | finished {s} : Handled (.finished s) (.finished s)
  | unhandled {s} : Handled (.failed s) (.failed s)
  | handler {s handler handlers r} (hh : s.handlers = handler :: handlers)
      (h : Runs { s with handlers := handlers } (.call false .raiseReturned) r) :
      Handled (.failed s) r

/-- `execute_cold_instruction`, on the running frame with its program counter saved. -/
inductive Cold : ColdInstruction → State → Result → Prop
  | fails {i s} : Cold i s (.failed s)
  | callWithValues {destination producer consumer expected s r}
      (h : Runs s (.call false .invokeConsumer) r) :
      Cold (.callWithValues destination producer consumer expected) s r
  | makePromise {destination thunk flatten s} :
      Cold (.makePromise destination thunk flatten) s (.running s)
  | force {destination promise expected s r} (h : Runs s .force r) :
      Cold (.force destination promise expected) s r
  | pushHandler {register s} (handler : Value) :
      Cold (.pushHandler register) s (.running { s with handlers := handler :: s.handlers })
  | popHandler {s handler handlers} (hh : s.handlers = handler :: handlers) :
      Cold .popHandler s (.running { s with handlers := handlers })
  | raise {destination object continuable expected s handler handlers r}
      (hh : s.handlers = handler :: handlers)
      (h : Runs { s with handlers := handlers }
        (.call false (if continuable then .reinstallHandler handler else .raiseReturned)) r) :
      Cold (.raise destination object continuable expected) s r
  | captureContinuation {destination procedure expected s r}
      (h : Runs { s with continuations := s.capture :: s.continuations }
        (.call false .normal) r) :
      Cold (.captureContinuation destination procedure expected) s r
  | dynamicWind {destination before thunk after expected s r} (beforeValue afterValue : Value)
      (h : Runs { s with nextWind := (s.nextWind + 1) % 2 ^ 64, extents := s.extents + 1 }
        (.call false (.startWind
          ⟨s.nextWind, beforeValue, afterValue, s.extents, s.winds.map Wind.extent⟩)) r) :
      Cold (.dynamicWind destination before thunk after expected) s r
  | callWithPort {destination port procedure expected s r}
      (h : Runs s (.call false .closePort) r) :
      Cold (.callWithPort destination port procedure expected) s r
  | callWithFile {destination path procedure input expected s r}
      (h : Runs s (.call false .closePort) r) :
      Cold (.callWithFile destination path procedure input expected) s r
  | callWithFileHandled {destination path procedure input expected s r}
      (h : Handled (.failed s) r) :
      Cold (.callWithFile destination path procedure input expected) s r
  | withFile {destination path thunk input expected s r}
      (h : Runs s (.call false .restorePort) r) :
      Cold (.withFile destination path thunk input expected) s r
  | withFileHandled {destination path thunk input expected s r}
      (h : Handled (.failed s) r) :
      Cold (.withFile destination path thunk input expected) s r
  | load {destination path environment expected s} {entry : Chunk} (h : Accepted entry) :
      Cold (.load destination path environment expected) s
        (.running (s.push entry .loadComplete))
  | pushParameters {first count s r} (h : Runs s (.bind count.toNat) r) :
      Cold (.pushParameters first count) s r
  | popParameters {count s} : Cold (.popParameters count) s (.running s)
  | makeParameter {destination initial s} :
      Cold (.makeParameter destination initial none) s (.running s)
  | convertParameter {destination initial converter s r}
      (h : Runs s (.call false .createParameter) r) :
      Cold (.makeParameter destination initial (some converter)) s r
  | makeError {destination message firstIrritant count s} :
      Cold (.makeError destination message firstIrritant count) s (.running s)
  | loadNumber {destination s} : Cold (.loadNumber destination) s (.running s)

/-! ### The dispatch loop -/

/-- The loop between two instructions; `pc` is the loop's own program counter. -/
structure Machine where
  vm : State
  pc : ℕ

/-- The machine at the start of `execute`, on the heap that earlier executions left. -/
def execute (entry : Chunk) (heap : State) : Machine :=
  ⟨{ heap with
      frames := [⟨entry, 0, .normal⟩]
      handlers := []
      winds := []
      nextWind := 0
      exited := false }, 0⟩

def emptyHeap : State := ⟨[], [], [], 0, [], [], false, 0, []⟩

def State.savePc (s : State) (pc : ℕ) : State :=
  match s.frames with
  | frame :: rest => { s with frames := { frame with pc := pc } :: rest }
  | [] => s

def State.alloc (s : State) (chunk : Chunk) (word : Word) (op : Opcode) : State :=
  match op, chunk.closures[word.bx]? with
  | .closure, some prototype => { s with procedures := prototype.chunk :: s.procedures }
  | _, _ => s

/-- One pass of the loop that does not end the execution. -/
inductive Step : Machine → Machine → Prop
  | pass {s pc frame rest word op} (taken : Bool) (hf : s.frames = frame :: rest)
      (hw : fetchWord frame.chunk.code pc = word) (ho : word.opcode? = some op)
      (hx : op ≠ .extraArg) (ht : transfers op = false) :
      Step ⟨s, pc⟩ ⟨s.alloc frame.chunk word op, (arm frame.chunk pc word taken op).next⟩
  | call {s pc frame rest word r s' frame' rest'} (tail : Bool) (hf : s.frames = frame :: rest)
      (hw : fetchWord frame.chunk.code pc = word)
      (ho : word.opcode? = some (if tail then .tailCall else .call))
      (h : Runs (s.savePc (pc + 1)) (.call tail .normal) r) (hh : Handled r (.running s'))
      (he : s'.exited = false) (hf' : s'.frames = frame' :: rest') :
      Step ⟨s, pc⟩ ⟨s', frame'.pc⟩
  | ret {s pc frame next rest word s' frame' rest'} (hf : s.frames = frame :: next :: rest)
      (hw : fetchWord frame.chunk.code pc = word) (ho : word.opcode? = some .return)
      (h : Runs { s with frames := next :: rest } (.complete frame.returnAction) (.running s'))
      (he : s'.exited = false) (hf' : s'.frames = frame' :: rest') :
      Step ⟨s, pc⟩ ⟨s', frame'.pc⟩
  | cold {s pc frame rest word instruction s' frame' rest'} (hf : s.frames = frame :: rest)
      (hw : fetchWord frame.chunk.code pc = word) (ho : word.opcode? = some .cold)
      (hi : frame.chunk.cold[word.bx]? = some instruction)
      (h : Cold instruction (s.savePc (pc + 1)) (.running s'))
      (he : s'.exited = false) (hf' : s'.frames = frame' :: rest') :
      Step ⟨s, pc⟩ ⟨s', frame'.pc⟩

/-- The machines that an engine's runs go through. An execution can end anywhere, and the
next one starts on the heap it leaves, to which the host may have added accepted code. -/
inductive Reachable : Machine → Prop
  | start {entry} (h : Accepted entry) : Reachable (execute entry emptyHeap)
  | step {m m'} (hr : Reachable m) (h : Step m m') : Reachable m'
  | again {m entry} (hr : Reachable m) (h : Accepted entry) :
      Reachable (execute entry m.vm)
  | install {m chunk} (hr : Reachable m) (h : Accepted chunk) :
      Reachable ⟨{ m.vm with procedures := chunk :: m.vm.procedures }, m.pc⟩

end Neetan.Vm
