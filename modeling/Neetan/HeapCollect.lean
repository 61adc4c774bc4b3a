import Neetan.Heap
import Neetan.LittleEndian
import Mathlib.Tactic.IntervalCases

/-!
The collector: an iterative mark phase with a worklist, and a sweep that reads the metadata
bytes eight at a time, frees what is not marked, records the runs of free slots and copies
the spans of the survivors into fresh arenas.

What the owned allocations of an object add to its size is the parameter `owned`; it only
decides when a collection is due. The to-spaces the source keeps for the next collection
are empty between collections, so the model begins with empty ones.
-/

namespace Neetan.Gc

open Neetan.Bytecode Neetan.LittleEndian

/-- The span of `len` elements at `off`, if it lies in the arena. -/
def span {α : Type} (arena : List α) (off len : ℕ) : Option (List α) :=
  if off + len ≤ arena.length then some ((arena.drop off).take len) else none

/-! ### Edges -/

def PromiseState.edges : PromiseState → List Value
  | .pending thunk _ => [thunk]
  | .forcing thunk _ => [thunk]
  | .done values => values
  | .forward promise => [promise]

def RecordProcedure.edges : RecordProcedure → List Value
  | .constructor type _ _ | .predicate type | .accessor type _ | .mutator type _ => [type]

def CapturedFrame.edges (frame : CapturedFrame) : List Value :=
  frame.captures ++ [frame.procedure] ++ frame.returnAction

def Continuation.edges (continuation : Continuation) : List Value :=
  continuation.frames.flatMap CapturedFrame.edges ++ continuation.stack ++
    continuation.handlers ++
    continuation.parameters.flatMap (fun entry => [entry.1, entry.2]) ++
    continuation.parameterValues.flatMap (fun entry => [entry.1, entry.2]) ++
    continuation.winds.flatMap (fun wind => [wind.before, wind.after])

/-- The values `Object::trace` pushes, in its order. -/
def Object.edges (valueArena : List Value) : Object → List Value
  | .pair car cdr => [car, cdr]
  | .vector off len => (span valueArena off len).getD []
  | .record type fields => type :: fields
  | .recordProcedure procedure => procedure.edges
  | .error message irritants _ => message :: irritants
  | .continuation saved => saved.edges
  | .closure _ captures => captures
  | .caseLambda closures => closures
  | .box value => [value]
  | .parameter value converter => value :: converter.toList
  | .promise state => state.edges
  | .bytevector .. | .string .. | .symbol .. | .native .. | .apply | .recordType .. | .port ..
  | .environment .. | .number .. | .randomSource .. => []

/-! ### Marking -/

/-- Marks a cell and keeps its immutable bit. -/
def Cell.mark (color : MarkColor) (cell : Cell) : Cell :=
  { cell with byte := (cell.byte &&& metaImmutable) ||| color.bits }

lemma MarkColor.state_mark (color : MarkColor) (byte : UInt8) :
    ((byte &&& metaImmutable) ||| color.bits) &&& metaStateMask = color.bits := by
  have h : ∀ b : BitVec 8, ((b &&& 8#8) ||| color.bits.toBitVec) &&& 7#8 = color.bits.toBitVec := by
    intro b
    cases color <;> (apply BitVec.eq_of_getLsbD_eq; intro i hi; interval_cases i <;> simp [bits])
  exact UInt8.toBitVec_inj.mp (h byte.toBitVec)

@[simp] lemma Cell.state_mark (color : MarkColor) (cell : Cell) :
    (cell.mark color).state = color.bits :=
  color.state_mark cell.byte

/-- The cells the mark phase may still mark. -/
def Cell.Unmarked (color : MarkColor) (cell : Cell) : Prop :=
  cell.state ≠ color.bits ∧ cell.state ≠ metaFree

instance (color : MarkColor) : DecidablePred (Cell.Unmarked color) :=
  fun cell => inferInstanceAs (Decidable (cell.state ≠ color.bits ∧ cell.state ≠ metaFree))

def unmarked (color : MarkColor) (cells : List Cell) : ℕ :=
  cells.countP fun cell => decide (cell.Unmarked color)

lemma unmarked_set_lt {color : MarkColor} {cells : List Cell} {index : ℕ} {cell : Cell}
    (h : cells[index]? = some cell) (hu : cell.Unmarked color) :
    unmarked color (cells.set index (cell.mark color)) < unmarked color cells := by
  obtain ⟨hi, rfl⟩ := List.getElem?_eq_some_iff.mp h
  have hpos : 0 < unmarked color cells :=
    List.countP_pos_iff.mpr ⟨_, List.getElem_mem hi, by simpa using hu⟩
  unfold unmarked at hpos ⊢
  rw [List.countP_set hi]
  have hm : ¬ (cells[index].mark color).Unmarked color := fun h => h.1 (Cell.state_mark ..)
  simp only [hu, hm, decide_true, decide_false, if_true, Bool.false_eq_true, if_false]
  omega

/-- The mark loop. The worklist is a stack; its top is the head of the list. -/
def markFrom (valueArena : List Value) (color : MarkColor) (cells : List Cell) :
    List Value → List Cell
  | [] => cells
  | value :: rest =>
    match value.heapRef with
    | none => markFrom valueArena color cells rest
    | some reference =>
      match _h : cells[reference.toNat]? with
      | none => markFrom valueArena color cells rest
      | some cell =>
        -- a free cell is skipped: a root may be a stale reference
        if _hu : cell.Unmarked color then
          markFrom valueArena color (cells.set reference.toNat (cell.mark color))
            (((cell.slot.map (Object.edges valueArena)).getD []).reverse ++ rest)
        else markFrom valueArena color cells rest
termination_by worklist => (unmarked color cells, worklist.length)
decreasing_by
  all_goals first
    | exact Prod.Lex.left _ _ (unmarked_set_lt _h _hu)
    | exact Prod.Lex.right _ (Nat.lt_succ_self _)

/-! ### Sizes -/

def usizeMax : ℕ := 2 ^ 64 - 1

def saturatingAdd (a b : ℕ) : ℕ := min (a + b) usizeMax
def saturatingMul (a b : ℕ) : ℕ := min (a * b) usizeMax

/-- The size of a slot. -/
def objectSize : ℕ := 48
/-- The size of a value. -/
def valueSize : ℕ := 16

section Sizes
variable (owned : Object → ℕ)

def Object.bytes : Object → ℕ
  | .vector _ len => saturatingAdd objectSize (saturatingMul len valueSize)
  | .bytevector _ len => saturatingAdd objectSize len
  | .string _ byteLen _ => saturatingAdd objectSize byteLen
  | object => saturatingAdd objectSize (owned object)

end Sizes

namespace Heap

def liveSlots (heap : Heap) : ℕ := heap.liveBase + (heap.cursor - heap.authStart)

def totalBytes (heap : Heap) : ℕ :=
  saturatingAdd (saturatingMul heap.liveSlots objectSize) heap.dynamicBytes

end Heap

def adaptiveThreshold (previous live minimum maximum : ℕ) : ℕ :=
  let reclaimed := previous - live
  let headroom :=
    if previous = 0 ∨ reclaimed < previous / 4 then saturatingMul live 5
    else if reclaimed > previous - previous / 4 then saturatingMul live 3
    else saturatingMul live 4
  min (saturatingAdd live (max headroom minimum)) maximum

/-! ### Sweeping -/

/-- What the sweep builds up. -/
structure Sweep where
  byteArena : List UInt8
  valueArena : List Value
  holes : List Hole
  runStart : Option ℕ
  live : ℕ
  liveBytes : ℕ

namespace Sweep

/-- Ends the current run of free slots. -/
def closeRun (sweep : Sweep) (index : ℕ) : Sweep :=
  match sweep.runStart with
  | some start => { sweep with holes := sweep.holes ++ [⟨start, index⟩], runStart := none }
  | none => sweep

/-- Begins a run of free slots unless there is one. -/
def openRun (sweep : Sweep) (index : ℕ) : Sweep :=
  { sweep with runStart := some (sweep.runStart.getD index) }

end Sweep

section Sweeping
variable (owned : Object → ℕ) (fromBytes : List UInt8) (fromValues : List Value)
  (color : MarkColor)

/-- Sizes a survivor and copies its span. -/
def sweepSurvivor (object : Object) (sweep : Sweep) : Object × Sweep × ℕ :=
  match object with
  | .vector off len =>
    match span fromValues off len with
    | none => (.vector 0 0, sweep, objectSize)
    | some values =>
      (.vector (sweep.valueArena.length % 2 ^ 32) len,
        { sweep with valueArena := sweep.valueArena ++ values },
        saturatingAdd objectSize (saturatingMul len valueSize))
  | .bytevector off len =>
    match span fromBytes off len with
    | none => (.bytevector 0 0, sweep, objectSize)
    | some bytes =>
      (.bytevector (sweep.byteArena.length % 2 ^ 32) len,
        { sweep with byteArena := sweep.byteArena ++ bytes }, saturatingAdd objectSize len)
  | .string off byteLen chars =>
    match span fromBytes off byteLen with
    | none => (.string 0 0 0, sweep, objectSize)
    | some bytes =>
      (.string (sweep.byteArena.length % 2 ^ 32) byteLen chars,
        { sweep with byteArena := sweep.byteArena ++ bytes }, saturatingAdd objectSize byteLen)
  | object => (object, sweep, object.bytes owned)

/-- A cell that stays; the caller has counted it. -/
def keepCell (cell : Cell) (sweep : Sweep) : Cell × Sweep :=
  match cell.slot with
  | some object =>
    let (object, sweep, bytes) := sweepSurvivor owned fromBytes fromValues object sweep
    ({ cell with slot := some object },
      { sweep with liveBytes := saturatingAdd sweep.liveBytes bytes })
  | none => (cell, sweep)

/-- One metadata byte of the sweep. -/
def sweepSlot (index : ℕ) (cell : Cell) (sweep : Sweep) : Cell × Sweep :=
  if cell.state = color.bits then
    let sweep := sweep.closeRun index
    keepCell owned fromBytes fromValues cell { sweep with live := sweep.live + 1 }
  else
    (if cell.state ≠ metaFree then { slot := none, byte := metaFree } else cell,
      sweep.openRun index)

/-- One slot after the other. -/
def sweepSlots : ℕ → List Cell → Sweep → List Cell × Sweep
  | _, [], sweep => ([], sweep)
  | index, cell :: cells, sweep =>
    let (cell, sweep) := sweepSlot owned fromBytes fromValues color index cell sweep
    let (cells, sweep) := sweepSlots (index + 1) cells sweep
    (cell :: cells, sweep)

/-- Survivors only. -/
def keepCells : List Cell → Sweep → List Cell × Sweep
  | [], sweep => ([], sweep)
  | cell :: cells, sweep =>
    let (cell, sweep) := keepCell owned fromBytes fromValues cell sweep
    let (cells, sweep) := keepCells cells sweep
    (cell :: cells, sweep)

def stateWord : ℕ := 0x0707070707070707

/-- Every state byte equal to the current color. -/
def liveWord : ℕ := color.bits.toNat * 0x0101010101010101

/-- One word of the metadata table: eight cells. -/
def sweepWord (index : ℕ) (cells : List Cell) (sweep : Sweep) : List Cell × Sweep :=
  let word := fromLe (cells.map Cell.byte)
  if word = 0 then (cells, sweep.openRun index)
  else if word &&& stateWord = liveWord color then
    let sweep := sweep.closeRun index
    keepCells owned fromBytes fromValues cells { sweep with live := sweep.live + 8 }
  else sweepSlots owned fromBytes fromValues color index cells sweep

/-- The scan of the metadata table, a word at a time and the rest slot by slot. -/
def sweepCells (index : ℕ) (cells : List Cell) (sweep : Sweep) : List Cell × Sweep :=
  if 8 ≤ cells.length then
    let (first, sweep) :=
      sweepWord owned fromBytes fromValues color index (cells.take 8) sweep
    let (rest, sweep) := sweepCells (index + 8) (cells.drop 8) sweep
    (first ++ rest, sweep)
  else sweepSlots owned fromBytes fromValues color index cells sweep
termination_by cells.length
decreasing_by simp; omega

end Sweeping

namespace Heap
variable (owned : Object → ℕ)

def sweep (heap : Heap) : Heap :=
  let (cells, sweep) :=
    sweepCells owned heap.byteArena heap.valueArena heap.currentMark 0 heap.cells
      ⟨[], [], [], none, 0, 0⟩
  let sweep := sweep.closeRun heap.cells.length
  { heap with
    cells, byteArena := sweep.byteArena, valueArena := sweep.valueArena, holes := sweep.holes
    cursor := 0, limit := 0, regionEnd := 0, authStart := 0
    liveBase := sweep.live
    dynamicBytes := sweep.liveBytes - saturatingMul sweep.live objectSize }

/-- The roots of a collection, in the order they are pushed. -/
def roots (heap : Heap) (extraRoots : List Value) : List Value :=
  heap.temporaryRoots ++ heap.hostRoots ++ heap.engineRoots ++ extraRoots

def markRoots (heap : Heap) (extraRoots : List Value) : Heap :=
  let color := heap.currentMark.rotate
  { heap with
    currentMark := color
    cells := markFrom heap.valueArena color heap.cells (heap.roots extraRoots).reverse }

def collectWith (heap : Heap) (extraRoots : List Value) : Heap :=
  let previousSlots := heap.liveSlots
  let previousBytes := heap.totalBytes
  let swept := ({ heap with pendingCollection := false }.markRoots extraRoots).sweep owned
  { swept with
    slotThreshold := adaptiveThreshold previousSlots swept.liveSlots
      swept.minimumSlotHeadroom swept.maxSlots
    byteThreshold := adaptiveThreshold previousBytes swept.totalBytes
      swept.minimumByteHeadroom swept.maxBytes }

def collect (heap : Heap) : Heap := heap.collectWith owned []

end Heap

end Neetan.Gc
