import Neetan.MachineInt
import Neetan.OrderedMap
import Neetan.Tiling
import Mathlib.Data.Prod.Lex

/-!
The best-fit allocator of the DOS memory manager.

Every `u32` is a natural number; additions and subtractions the code leaves unchecked wrap.
A failed `expect` or index is a panic, which a run reports as `none`; debug assertions are
not part of a release build. Slot numbers wait for reuse in a stack with the top first.
-/

namespace Neetan.BestFit

open Neetan.MachineInt Neetan.OrderedMap

/-- A computation that panics when it returns nothing. -/
abbrev Run (α : Type) := Option α

structure Allocation where
  offset : ℕ
  allocationId : ℕ
  generation : ℕ
  deriving DecidableEq, Repr

def alignSize : ℕ := 4
def blockSizeMin : ℕ := 16

structure FreeRegion where
  size : ℕ
  deriving DecidableEq, Repr

structure ActiveAllocation where
  offset : ℕ
  size : ℕ
  deriving DecidableEq, Repr

structure AllocationSlot where
  allocation : Option ActiveAllocation
  generation : ℕ
  deriving DecidableEq, Repr

def AllocationSlot.new : AllocationSlot := ⟨none, 0⟩

structure BestFitAllocator where
  size : ℕ
  freeByOffset : BTreeMap ℕ FreeRegion
  freeBySize : BTreeSet (ℕ ×ₗ ℕ)
  activeAllocations : List AllocationSlot
  reusableAllocationIds : List ℕ
  activeCount : ℕ
  totalFreeSize : ℕ

def normalizeAllocationSize (size : ℕ) : Option ℕ := do
  let sum ← checkedAdd 32 size (alignSize - 1)
  return max (sum &&& complement 32 (alignSize - 1)) blockSizeMin

def alignUp (value alignment : ℕ) : Option ℕ := do
  let sum ← checkedAdd 32 value (alignment - 1)
  return sum &&& complement 32 (alignment - 1)

namespace BestFitAllocator

def insertFreeRegion (self : BestFitAllocator) (offset size : ℕ) : BestFitAllocator :=
  { self with
    freeByOffset := (self.freeByOffset.insert offset ⟨size⟩).2
    freeBySize := (self.freeBySize.insert (toLex (size, offset)) ()).2
    totalFreeSize := wrappingAdd 32 self.totalFreeSize size }

def removeFreeRegion (self : BestFitAllocator) (offset : ℕ) :
    Run (FreeRegion × BestFitAllocator) := do
  let region ← (self.freeByOffset.remove offset).1
  return (region, { self with
    freeByOffset := (self.freeByOffset.remove offset).2
    freeBySize := (self.freeBySize.remove (toLex (region.size, offset))).2
    totalFreeSize := wrappingSub 32 self.totalFreeSize region.size })

def reset (self : BestFitAllocator) : BestFitAllocator :=
  let self := { self with
    freeByOffset := BTreeMap.empty
    freeBySize := BTreeMap.empty
    activeAllocations := self.activeAllocations.map fun slot =>
      ⟨none, wrappingAdd 32 slot.generation 1⟩
    reusableAllocationIds := List.range self.activeAllocations.length
    activeCount := 0
    totalFreeSize := 0 }
  if self.size > 0 then self.insertFreeRegion 0 self.size else self

def new (size : ℕ) : BestFitAllocator :=
  let alignedSize := size / alignSize * alignSize
  reset
    { size := if alignedSize ≥ blockSizeMin then alignedSize else 0
      freeByOffset := BTreeMap.empty
      freeBySize := BTreeMap.empty
      activeAllocations := []
      reusableAllocationIds := []
      activeCount := 0
      totalFreeSize := 0 }

def createAllocation (self : BestFitAllocator) (offset size : ℕ) :
    Run (Allocation × BestFitAllocator) := do
  let (allocationId, self) := match self.reusableAllocationIds with
    | allocationId :: ids => (allocationId, { self with reusableAllocationIds := ids })
    | [] => (self.activeAllocations.length % 2 ^ 32,
        { self with activeAllocations := self.activeAllocations ++ [AllocationSlot.new] })
  let slot ← self.activeAllocations[allocationId]?
  return (⟨offset, allocationId, slot.generation⟩, { self with
    activeAllocations :=
      self.activeAllocations.set allocationId { slot with allocation := some ⟨offset, size⟩ }
    activeCount := wrappingAdd 32 self.activeCount 1 })

/-- The slot a handle names, unless the handle is stale. -/
def validateAllocationIndex (self : BestFitAllocator) (allocation : Allocation) : Option ℕ :=
  match self.activeAllocations[allocation.allocationId]? with
  | none => none
  | some slot =>
    match slot.allocation with
    | none => none
    | some active =>
      if slot.generation ≠ allocation.generation ∨ active.offset ≠ allocation.offset then none
      else some allocation.allocationId

/-- The first free region, by offset, that holds the request at an aligned offset. -/
def findCandidate (requestSize alignment : ℕ) : List (ℕ × FreeRegion) → Option (ℕ × ℕ × ℕ)
  | [] => none
  | (regionOffset, region) :: regions => do
    let alignedOffset ← alignUp regionOffset alignment
    let leadingSize ← checkedSub alignedOffset regionOffset
    if 0 < leadingSize ∧ leadingSize < blockSizeMin then
      findCandidate requestSize alignment regions
    else do
    let neededSize ← checkedAdd 32 leadingSize requestSize
    if region.size ≥ neededSize then some (regionOffset, region.size, alignedOffset)
    else findCandidate requestSize alignment regions

/-- Cuts the aligned request out of a free region. -/
def carve (self : BestFitAllocator) (requestSize regionOffset regionSize alignedOffset : ℕ) :
    Run (Allocation × BestFitAllocator) := do
  let (_, self) ← self.removeFreeRegion regionOffset
  let leadingSize := wrappingSub 32 alignedOffset regionOffset
  let self := if leadingSize > 0 then self.insertFreeRegion regionOffset leadingSize else self
  let regionEnd := wrappingAdd 32 regionOffset regionSize
  let requestedEnd := wrappingAdd 32 alignedOffset requestSize
  let trailingSize := wrappingSub 32 regionEnd requestedEnd
  if trailingSize ≥ blockSizeMin then
    (self.insertFreeRegion requestedEnd trailingSize).createAllocation alignedOffset requestSize
  else self.createAllocation alignedOffset (wrappingSub 32 regionEnd alignedOffset)

def allocateAligned (self : BestFitAllocator) (size alignment : ℕ) :
    Run (Option Allocation × BestFitAllocator) :=
  match normalizeAllocationSize size with
  | none => some (none, self)
  | some requestSize =>
    if alignment < alignSize ∨ ¬ 2 ^ alignment.log2 = alignment then some (none, self) else
    match findCandidate requestSize alignment self.freeByOffset.entries with
    | none => some (none, self)
    | some (regionOffset, regionSize, alignedOffset) => do
      let (allocation, self) ← self.carve requestSize regionOffset regionSize alignedOffset
      return (some allocation, self)

/-- Joins a range with the free region that ends where it starts, if there is one. -/
def joinPrevious (self : BestFitAllocator) (offset size : ℕ) : Run (ℕ × ℕ × BestFitAllocator) :=
  match self.freeByOffset.lastBelow offset with
  | none => some (offset, size, self)
  | some (previousOffset, previousRegion) =>
    if wrappingAdd 32 previousOffset previousRegion.size = offset then do
      let (_, self) ← self.removeFreeRegion previousOffset
      return (previousOffset, wrappingAdd 32 size previousRegion.size, self)
    else some (offset, size, self)

/-- Joins a range with the free region that starts where it ends, if there is one. -/
def joinNext (self : BestFitAllocator) (offset size : ℕ) : Run (ℕ × BestFitAllocator) :=
  match self.freeByOffset.firstFrom offset with
  | none => some (size, self)
  | some (nextOffset, nextRegion) =>
    if wrappingAdd 32 offset size = nextOffset then do
      let (_, self) ← self.removeFreeRegion nextOffset
      return (wrappingAdd 32 size nextRegion.size, self)
    else some (size, self)

def insertCoalescedFreeRegion (self : BestFitAllocator) (offset size : ℕ) :
    Run BestFitAllocator :=
  if size = 0 then some self else do
  let (offset, size, self) ← self.joinPrevious offset size
  let (size, self) ← self.joinNext offset size
  return self.insertFreeRegion offset size

def deallocate (self : BestFitAllocator) (allocation : Allocation) : Run BestFitAllocator :=
  match self.validateAllocationIndex allocation with
  | none => some self
  | some slotIndex => do
    let slot ← self.activeAllocations[slotIndex]?
    let active ← slot.allocation
    let self := { self with
      activeAllocations := self.activeAllocations.set slotIndex
        ⟨none, wrappingAdd 32 slot.generation 1⟩
      reusableAllocationIds := allocation.allocationId :: self.reusableAllocationIds
      activeCount := wrappingSub 32 self.activeCount 1 }
    self.insertCoalescedFreeRegion active.offset active.size

/-- The state with the size of an active slot replaced. -/
def resizeSlot (self : BestFitAllocator) (slotIndex : ℕ) (slot : AllocationSlot)
    (offset size : ℕ) : BestFitAllocator :=
  { self with activeAllocations :=
      self.activeAllocations.set slotIndex { slot with allocation := some ⟨offset, size⟩ } }

/-- Takes the missing size from the free region behind an allocation. -/
def growInPlace (self : BestFitAllocator) (slotIndex : ℕ) (slot : AllocationSlot)
    (active : ActiveAllocation) (requestSize : ℕ) : Run (Option BestFitAllocator) :=
  let nextOffset := wrappingAdd 32 active.offset active.size
  match self.freeByOffset.get nextOffset with
  | none => some none
  | some nextRegion =>
    let growthSize := wrappingSub 32 requestSize active.size
    if nextRegion.size < growthSize then some none else do
    let (_, self) ← self.removeFreeRegion nextOffset
    let remainderSize := wrappingSub 32 nextRegion.size growthSize
    if remainderSize ≥ blockSizeMin then
      return some ((self.insertFreeRegion (wrappingAdd 32 nextOffset growthSize) remainderSize)
        |>.resizeSlot slotIndex slot active.offset requestSize)
    else
      return some (self.resizeSlot slotIndex slot active.offset
        (wrappingAdd 32 active.size nextRegion.size))

def reallocateInPlace (self : BestFitAllocator) (allocation : Allocation) (size : ℕ) :
    Run (Option Allocation × BestFitAllocator) :=
  match normalizeAllocationSize size, self.validateAllocationIndex allocation with
  | some requestSize, some slotIndex => do
    let slot ← self.activeAllocations[slotIndex]?
    match slot.allocation with
    | none => return (none, self)
    | some active =>
      if requestSize = active.size then return (some allocation, self)
      else if requestSize < active.size then
        let remainderSize := wrappingSub 32 active.size requestSize
        if remainderSize ≥ blockSizeMin then do
          let self ← (self.resizeSlot slotIndex slot active.offset requestSize)
            |>.insertCoalescedFreeRegion (wrappingAdd 32 active.offset requestSize) remainderSize
          return (some allocation, self)
        else return (some allocation, self)
      else do
        match ← self.growInPlace slotIndex slot active requestSize with
        | none => return (none, self)
        | some self => return (some allocation, self)
  | _, _ => some (none, self)

end BestFitAllocator

/-- The operations of the allocator. -/
inductive Operation
  | allocateAligned (size alignment : ℕ)
  | deallocate (allocation : Allocation)
  | reallocateInPlace (allocation : Allocation) (size : ℕ)

/-- One operation: its handle, if it returns one, and the state after it. -/
def step (self : BestFitAllocator) : Operation → Run (Option Allocation × BestFitAllocator)
  | .allocateAligned size alignment => self.allocateAligned size alignment
  | .deallocate allocation => do
    let self ← self.deallocate allocation
    return (none, self)
  | .reallocateInPlace allocation size => self.reallocateInPlace allocation size

/-- The state after a list of operations. -/
def run (self : BestFitAllocator) : List Operation → Run BestFitAllocator
  | [] => some self
  | op :: ops => do
    let (_, self) ← step self op
    run self ops

end Neetan.BestFit
