import Neetan.Mcb

/-!
The DOS memory calls on the conventional and the upper memory chain.

The callers keep the link state of the upper chain and pass the chains accordingly. Every
operation returns its answer and the memory it leaves.
-/

namespace Neetan.Mcb

open Neetan.ByteMemory Neetan.MachineInt

/-! ### Chains -/

structure McbChains where
  firstMcbSegment : ℕ
  memoryTopSegment : ℕ
  umbFirstMcbSegment : Option ℕ

def conventionalStopBeforeSegment (chains : McbChains) : Option ℕ :=
  chains.umbFirstMcbSegment.map fun _ => chains.memoryTopSegment

/-- Fit strategy, upper chain to search, high-first and high-only. -/
def dosStrategyView (chains : McbChains) (strategy : ℕ) : ℕ × Option ℕ × Bool × Bool :=
  let fitOnly := strategy &&& 0x000F
  let highFirst := strategy &&& 0x0040 ≠ 0
  let highOnly := strategy &&& 0x0080 ≠ 0
  let umb := chains.umbFirstMcbSegment.filter fun _ => highFirst ∨ highOnly
  if umb.isSome then (fitOnly, umb, highFirst, highOnly) else (fitOnly, none, false, false)

/-- Looks for the block and returns the one before it, or itself when it is the first. -/
def walkForDataSegment (mem : Memory) (targetMcb : ℕ) :
    ℕ → (current : ℕ) → Option ℕ → Except ℕ (Option ℕ)
  | 0, _, _ => .ok none
  | n + 1, current, prev =>
    let blockType := readMcbType mem current
    if ¬ isValidMcbType blockType then .error errMcbDestroyed else
    if current = targetMcb then .ok (some (prev.getD current)) else
    if blockType = typeZ then .ok none else
    walkForDataSegment mem targetMcb n (nextSegment current (readMcbSize mem current)) (some current)

def walkChainForDataSegment (mem : Memory) (firstMcbSegment dataSegment : ℕ) :
    Except ℕ (Option ℕ) :=
  walkForDataSegment mem (wrappingSub 16 dataSegment 1) maxChainWalk firstMcbSegment none

def findChainContainingBlock (mem : Memory) (chains : McbChains) (dataSegment : ℕ) :
    Except ℕ (Option (ℕ × ℕ)) := do
  match ← walkChainForDataSegment mem chains.firstMcbSegment dataSegment with
  | some prevOrTarget => .ok (some (chains.firstMcbSegment, prevOrTarget))
  | none =>
    match chains.umbFirstMcbSegment with
    | none => .ok none
    | some umbSegment =>
      match ← walkChainForDataSegment mem umbSegment dataSegment with
      | some prevOrTarget => .ok (some (umbSegment, prevOrTarget))
      | none => .ok none

def largestFreeWalk (mem : Memory) (stopBefore : Option ℕ) : ℕ → (current largest : ℕ) → ℕ
  | 0, _, largest => largest
  | n + 1, current, largest =>
    let blockType := readMcbType mem current
    if ¬ isValidMcbType blockType then largest else
    let size := readMcbSize mem current
    let largest := if readMcbOwner mem current = ownerFree ∧ size > largest then size else largest
    let next := nextSegment current size
    if blockType = typeZ ∨ stopBefore = some next then largest
    else largestFreeWalk mem stopBefore n next largest

def largestFreeBlockParagraphsUntil (mem : Memory) (firstSegment : ℕ) (stopBefore : Option ℕ) : ℕ :=
  largestFreeWalk mem stopBefore maxChainWalk firstSegment 0

def largestFreeBlockParagraphs (mem : Memory) (firstSegment : ℕ) : ℕ :=
  largestFreeBlockParagraphsUntil mem firstSegment none

def largestAvailableDos (mem : Memory) (chains : McbChains) (strategy : ℕ) : ℕ :=
  let (_, umb, highFirst, highOnly) := dosStrategyView chains strategy
  let conventionalLargest := largestFreeBlockParagraphsUntil mem chains.firstMcbSegment
    (conventionalStopBeforeSegment chains)
  let umbLargest := (umb.map fun segment => largestFreeBlockParagraphs mem segment).getD 0
  if highOnly then umbLargest
  else if highFirst then max conventionalLargest umbLargest
  else conventionalLargest

/-! ### The initial chain -/

structure InitialMcbLayout where
  envSegment : ℕ
  envParagraphs : ℕ
  commandMcbSegment : ℕ
  pspSegment : ℕ
  freeMcbSegment : ℕ

def initialMcbLayout (firstMcbSegment envParagraphs : ℕ) : InitialMcbLayout :=
  let envSegment := wrappingAdd 16 firstMcbSegment 1
  let commandMcbSegment := wrappingAdd 16 envSegment envParagraphs
  let pspSegment := wrappingAdd 16 commandMcbSegment 1
  { envSegment, envParagraphs, commandMcbSegment, pspSegment
    freeMcbSegment := wrappingAdd 16 pspSegment commandBlockParagraphs }

/-- `SD`, padded with zeros. -/
def environmentName : List UInt8 := [0x53, 0x44, 0, 0, 0, 0, 0, 0]
/-- `COMMAND`, padded with a zero. -/
def commandName : List UInt8 := [0x43, 0x4F, 0x4D, 0x4D, 0x41, 0x4E, 0x44, 0]
/-- `CS`, padded with zeros. -/
def umbLinkMcbName : List UInt8 := [0x43, 0x53, 0, 0, 0, 0, 0, 0]

def writeInitialMcbChain (mem : Memory) (firstMcbSegment memoryTopSegment : ℕ)
    (layout : InitialMcbLayout) : Memory :=
  let mem := writeMcb mem firstMcbSegment typeM ownerDos layout.envParagraphs environmentName
  let mem := writeMcb mem layout.commandMcbSegment typeM layout.pspSegment commandBlockParagraphs
    commandName
  let freeParagraphs :=
    wrappingSub 16 (wrappingSub 16 memoryTopSegment layout.freeMcbSegment) 1
  writeMcb mem layout.freeMcbSegment typeZ ownerFree freeParagraphs (List.replicate 8 0)

/-! ### Allocate -/

def allocateDos (mem : Memory) (chains : McbChains) (paragraphs owner strategy : ℕ) :
    Run (AllocateResult × Memory) := do
  let (fitOnly, umb, highFirst, highOnly) := dosStrategyView chains strategy
  let stopBefore := conventionalStopBeforeSegment chains
  let (firstResult, mem) ←
    match umb with
    | some umbSegment => allocate mem umbSegment paragraphs owner fitOnly
    | none => allocateWithLimit mem chains.firstMcbSegment stopBefore paragraphs owner fitOnly
  match firstResult with
  | .ok segment => some (.ok segment, mem)
  | .error (code, firstLargest) =>
    if highOnly then some (.error (code, firstLargest), mem) else
    if highFirst then
      let (result, mem) ←
        allocateWithLimit mem chains.firstMcbSegment stopBefore paragraphs owner fitOnly
      match result with
      | .ok segment => some (.ok segment, mem)
      | .error (code, largest) => some (.error (code, max firstLargest largest), mem)
    else some (.error (code, firstLargest), mem)

/-! ### Free -/

/-- Whether a walk meets the block. -/
def findTarget (mem : Memory) (targetMcb : ℕ) : ℕ → (current : ℕ) → Except ℕ Bool
  | 0, _ => .ok false
  | n + 1, current =>
    let blockType := readMcbType mem current
    if ¬ isValidMcbType blockType then .error errMcbDestroyed else
    if current = targetMcb then .ok true else
    if blockType = typeZ then .ok false else
    findTarget mem targetMcb n (nextSegment current (readMcbSize mem current))

def free (mem : Memory) (firstMcbSegment dataSegment : ℕ) : Except ℕ Unit × Memory :=
  let targetMcb := wrappingSub 16 dataSegment 1
  match findTarget mem targetMcb maxChainWalk firstMcbSegment with
  | .error code => (.error code, mem)
  | .ok false => (.error errInvalidBlock, mem)
  | .ok true =>
    if readMcbOwner mem targetMcb = ownerFree then (.error errInvalidBlock, mem) else
    (.ok (), clearMcbName (writeMcbOwner mem targetMcb ownerFree) targetMcb)

def freeDos (mem : Memory) (chains : McbChains) (dataSegment : ℕ) : Except ℕ Unit × Memory :=
  match findChainContainingBlock mem chains dataSegment with
  | .error code => (.error code, mem)
  | .ok (some (chainStart, _)) => free mem chainStart dataSegment
  | .ok none => (.error errInvalidBlock, mem)

/-! ### Resize -/

def coalesceChainFrom (segment : ℕ) : ℕ → Memory → Run Memory
  | 0, _ => none
  | fuel + 1, mem =>
    if readMcbType mem segment ≠ typeM ∨ readMcbOwner mem segment ≠ ownerFree then some mem else
    let next := nextSegment segment (readMcbSize mem segment)
    if ¬ isValidMcbType (readMcbType mem next) ∨ readMcbOwner mem next ≠ ownerFree then some mem
    else coalesceChainFrom segment fuel (coalesceForward mem segment)

/-- A free block behind the kept paragraphs of a block, which ends with it. -/
def splitBlock (mem : Memory) (targetMcb newParagraphs : ℕ) (remainderType : UInt8)
    (remainderSize : ℕ) : Memory :=
  let remainder := wrappingAdd 16 (wrappingAdd 16 targetMcb 1) newParagraphs
  let mem := writeMcbType mem remainder remainderType
  let mem := writeMcbOwner mem remainder ownerFree
  let mem := writeMcbSize mem remainder remainderSize
  let mem := clearMcbName mem remainder
  let mem := clearMcbReserved mem remainder
  let mem := writeMcbType mem targetMcb typeM
  writeMcbSize mem targetMcb newParagraphs

/-- The block's own size and that of the free block behind it. -/
def maxGrowable (mem : Memory) (targetMcb currentSize : ℕ) (blockType : UInt8) : ℕ :=
  if blockType = typeZ then currentSize else
  let next := nextSegment targetMcb currentSize
  if ¬ isValidMcbType (readMcbType mem next) then currentSize
  else if readMcbOwner mem next = ownerFree then min (currentSize + 1 + readMcbSize mem next) 0xFFFF
  else currentSize

def shrink (mem : Memory) (targetMcb currentSize newParagraphs : ℕ) (blockType : UInt8) : Memory :=
  if currentSize > wrappingAdd 16 newParagraphs 1 then
    let remainderSize := wrappingSub 16 (wrappingSub 16 currentSize newParagraphs) 1
    let mem := splitBlock mem targetMcb newParagraphs blockType remainderSize
    coalesceForward mem (wrappingAdd 16 (wrappingAdd 16 targetMcb 1) newParagraphs)
  else mem

def grow (mem : Memory) (targetMcb currentSize newParagraphs : ℕ) (blockType : UInt8) :
    Except (ℕ × ℕ) Unit × Memory :=
  let growable := maxGrowable mem targetMcb currentSize blockType
  if blockType = typeZ then (.error (errInsufficientMemory, growable), mem) else
  let next := nextSegment targetMcb currentSize
  let nextType := readMcbType mem next
  if ¬ isValidMcbType nextType then (.error (errMcbDestroyed, growable), mem) else
  if readMcbOwner mem next ≠ ownerFree then (.error (errInsufficientMemory, growable), mem) else
  let totalAvailable := currentSize + 1 + readMcbSize mem next
  if newParagraphs > totalAvailable then
    let mergedSize := min totalAvailable 0xFFFF
    let mem :=
      if currentSize ≠ mergedSize then
        writeMcbSize (writeMcbType mem targetMcb nextType) targetMcb mergedSize
      else mem
    (.error (errInsufficientMemory, mergedSize), mem)
  else
  let mergedSize := totalAvailable % 2 ^ 16
  if newParagraphs = mergedSize then
    (.ok (), writeMcbSize (writeMcbType mem targetMcb nextType) targetMcb mergedSize)
  else if mergedSize > wrappingAdd 16 newParagraphs 1 then
    let remainderSize := wrappingSub 16 (wrappingSub 16 mergedSize newParagraphs) 1
    (.ok (), splitBlock mem targetMcb newParagraphs nextType remainderSize)
  else (.ok (), writeMcbSize (writeMcbType mem targetMcb nextType) targetMcb mergedSize)

def resize (mem : Memory) (firstMcbSegment dataSegment newParagraphs : ℕ) :
    Run (Except (ℕ × ℕ) Unit × Memory) :=
  let targetMcb := wrappingSub 16 dataSegment 1
  let largest := min (largestFreeBlockParagraphs mem firstMcbSegment) 0xFFFF
  match findTarget mem targetMcb maxChainWalk firstMcbSegment with
  | .error code => some (.error (code, largest), mem)
  | .ok false => some (.error (errInvalidBlock, largest), mem)
  | .ok true => do
    let currentSize := readMcbSize mem targetMcb
    let blockType := readMcbType mem targetMcb
    let next := nextSegment targetMcb currentSize
    let mem ←
      if blockType ≠ typeZ ∧ isValidMcbType (readMcbType mem next) ∧
          readMcbOwner mem next = ownerFree then
        coalesceChainFrom next loopFuel mem
      else some mem
    if newParagraphs = currentSize then some (.ok (), mem)
    else if newParagraphs < currentSize then
      some (.ok (), shrink mem targetMcb currentSize newParagraphs blockType)
    else some (grow mem targetMcb currentSize newParagraphs blockType)

def resizeDos (mem : Memory) (chains : McbChains) (dataSegment newParagraphs : ℕ) :
    Run (Except (ℕ × ℕ) Unit × Memory) :=
  match findChainContainingBlock mem chains dataSegment with
  | .ok (some (chainStart, _)) => resize mem chainStart dataSegment newParagraphs
  | .ok none => some (.error (errInvalidBlock, largestAvailableDos mem chains 0), mem)
  | .error code => some (.error (code, largestAvailableDos mem chains 0), mem)

/-! ### Linking the upper chain -/

def linkAnchorWalk (mem : Memory) (memoryTop : ℕ) : ℕ → (current : ℕ) → Except ℕ ℕ
  | 0, _ => .error errMcbDestroyed
  | n + 1, current =>
    let blockType := readMcbType mem current
    if ¬ isValidMcbType blockType then .error errMcbDestroyed else
    let next := nextSegment current (readMcbSize mem current)
    if next = memoryTop then .ok current else
    if blockType = typeZ then .error errMcbDestroyed else
    linkAnchorWalk mem memoryTop n next

def conventionalLinkAnchorSegment (mem : Memory) (chains : McbChains) : Except ℕ ℕ :=
  linkAnchorWalk mem chains.memoryTopSegment maxChainWalk chains.firstMcbSegment

def setDosUmbLinkState (mem : Memory) (chains : McbChains) (linked : Bool) :
    Except ℕ Unit × Memory :=
  match chains.umbFirstMcbSegment with
  | none => (.ok (), mem)
  | some umbSegment =>
    if ¬ isValidMcbType (readMcbType mem umbSegment) then (.error errMcbDestroyed, mem) else
    match conventionalLinkAnchorSegment mem chains with
    | .error code => (.error code, mem)
    | .ok anchor =>
      if linked then
        let mem := writeMcbType mem anchor typeM
        let size := wrappingSub 16 (wrappingSub 16 umbSegment chains.memoryTopSegment) 1
        (.ok (), writeMcb mem chains.memoryTopSegment typeM ownerDos size umbLinkMcbName)
      else (.ok (), writeMcbType mem anchor typeZ)

/-! ### Blocks of a process -/

/-- The data segments of the owner's blocks. -/
def ownedSegments (mem : Memory) (ownerPsp : ℕ) : ℕ → (current : ℕ) → List ℕ
  | 0, _ => []
  | n + 1, current =>
    let blockType := readMcbType mem current
    if ¬ isValidMcbType blockType then [] else
    let here := if readMcbOwner mem current = ownerPsp then [wrappingAdd 16 current 1] else []
    if blockType = typeZ then here
    else here ++ ownedSegments mem ownerPsp n (nextSegment current (readMcbSize mem current))

/-- The walk that merges every run of free blocks. -/
def coalesceWalk : ℕ → Memory → (current : ℕ) → Run Memory
  | 0, mem, _ => some mem
  | n + 1, mem, current => do
    if ¬ isValidMcbType (readMcbType mem current) then some mem else
    let mem ←
      if readMcbOwner mem current = ownerFree then absorbFree current loopFuel mem else some mem
    if readMcbType mem current = typeZ then some mem
    else coalesceWalk n mem (nextSegment current (readMcbSize mem current))

def coalesceChain (mem : Memory) (firstMcbSegment : ℕ) : Run Memory :=
  coalesceWalk maxChainWalk mem firstMcbSegment

def freeProcessBlocks (mem : Memory) (firstMcbSegment ownerPsp : ℕ) : Run Memory :=
  let toFree := ownedSegments mem ownerPsp maxChainWalk firstMcbSegment
  let mem := toFree.reverse.foldl
    (fun mem dataSegment => (free mem firstMcbSegment dataSegment).2) mem
  coalesceChain mem firstMcbSegment

def freeProcessBlocksDos (mem : Memory) (firstMcbSegment : ℕ) (umbFirstMcbSegment : Option ℕ)
    (ownerPsp : ℕ) : Run Memory := do
  let mem ← freeProcessBlocks mem firstMcbSegment ownerPsp
  match umbFirstMcbSegment with
  | some umbSegment => freeProcessBlocks mem umbSegment ownerPsp
  | none => some mem

/-- Whether a walk meets the block that holds the owner's own segment. -/
def findPsp (mem : Memory) (ownerPsp : ℕ) : ℕ → (current : ℕ) → Bool
  | 0, _ => false
  | n + 1, current =>
    let blockType := readMcbType mem current
    if ¬ isValidMcbType blockType then false else
    if readMcbOwner mem current = ownerPsp ∧ wrappingAdd 16 current 1 = ownerPsp then true else
    if blockType = typeZ then false
    else findPsp mem ownerPsp n (nextSegment current (readMcbSize mem current))

def freeProcessBlocksTsr (mem : Memory) (firstMcbSegment ownerPsp keepParagraphs : ℕ) :
    Run Memory :=
  if findPsp mem ownerPsp maxChainWalk firstMcbSegment then
    (resize mem firstMcbSegment ownerPsp keepParagraphs).map Prod.snd
  else some mem

def freeProcessBlocksTsrDos (mem : Memory) (firstMcbSegment : ℕ) (umbFirstMcbSegment : Option ℕ)
    (ownerPsp keepParagraphs : ℕ) : Run Memory := do
  let mem ← freeProcessBlocksTsr mem firstMcbSegment ownerPsp keepParagraphs
  match umbFirstMcbSegment with
  | some umbSegment => freeProcessBlocksTsr mem umbSegment ownerPsp keepParagraphs
  | none => some mem

/-! ### The callers -/

/-- Where the chains of a machine lie. -/
structure Placement where
  firstMcbSegment : ℕ
  memoryTopSegment : ℕ
  umbFirstMcbSegment : ℕ

structure State where
  mem : Memory
  umbLink : Bool

/-- The chains of an allocation call: the upper one takes part while it is linked. -/
def linkedMcbChains (p : Placement) (σ : State) : McbChains :=
  ⟨p.firstMcbSegment, p.memoryTopSegment,
    if σ.umbLink then some p.umbFirstMcbSegment else none⟩

inductive Operation
  | allocateDos (paragraphs owner strategy : UInt16)
  | freeDos (dataSegment : UInt16)
  | resizeDos (dataSegment newParagraphs : UInt16)
  | freeProcessBlocksDos (ownerPsp : UInt16)
  | freeProcessBlocksTsrDos (ownerPsp keepParagraphs : UInt16)
  | setDosUmbLinkState (linked : Bool)

def step (p : Placement) (σ : State) : Operation → Run State
  | .allocateDos paragraphs owner strategy => do
    let (_, mem) ← allocateDos σ.mem (linkedMcbChains p σ) paragraphs.toNat owner.toNat
      strategy.toNat
    some { σ with mem }
  | .freeDos dataSegment =>
    some { σ with mem := (freeDos σ.mem (linkedMcbChains p σ) dataSegment.toNat).2 }
  | .resizeDos dataSegment newParagraphs => do
    let (_, mem) ← resizeDos σ.mem (linkedMcbChains p σ) dataSegment.toNat newParagraphs.toNat
    some { σ with mem }
  | .freeProcessBlocksDos ownerPsp => do
    let mem ← freeProcessBlocksDos σ.mem p.firstMcbSegment (some p.umbFirstMcbSegment)
      ownerPsp.toNat
    some { σ with mem }
  | .freeProcessBlocksTsrDos ownerPsp keepParagraphs => do
    let mem ← freeProcessBlocksTsrDos σ.mem p.firstMcbSegment (some p.umbFirstMcbSegment)
      ownerPsp.toNat keepParagraphs.toNat
    some { σ with mem }
  | .setDosUmbLinkState linked =>
    let chains := ⟨p.firstMcbSegment, p.memoryTopSegment, some p.umbFirstMcbSegment⟩
    match setDosUmbLinkState σ.mem chains linked with
    | (.ok (), mem) => some ⟨mem, linked⟩
    | (.error _, mem) => some { σ with mem }

end Neetan.Mcb
