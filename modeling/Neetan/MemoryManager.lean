import Neetan.BestFit
import Neetan.EmulatedMemory
import Neetan.Mcb
import Mathlib.Data.Fin.VecNotation

/-!
The EMS and XMS calls of the memory manager.

Handles and physical page mappings live in the manager, the pages themselves in one best-fit
pool above the first megabyte. A mapping is a copy of its page's allocation offset. A `u16` or
`u32` is a natural number; what the code leaves unchecked wraps, and a panic returns `none`.
-/

namespace Neetan.Ems

open Neetan.MachineInt Neetan.BestFit Neetan.EmulatedMemory MemoryAccess

def extendedRamBase : ℕ := 0x100000
def emsPageSize : ℕ := 0x4000
def pageSize4k : ℕ := 0x1000
def alignMask : ℕ := alignSize - 1
def maxEmsHandles : ℕ := 255
def maxXmsHandles : ℕ := 255
def hmaPoolReservationBytes : ℕ := 64 * 1024
def umbBackingBytes : ℕ := 128 * 1024
def emsOsReservedHandle : ℕ := 0

/-! ### Windows -/

structure EmsWindow where
  pageFrameSegment : ℕ

/-- The physical page that starts at a segment. -/
def EmsWindow.physicalPageForSegment (self : EmsWindow) (segment : ℕ) :
    Option (Fin physicalPages) :=
  (List.finRange physicalPages).find? fun page =>
    wrappingAdd 16 self.pageFrameSegment (page.val * 0x0400) = segment

inductive UmbBlockKind
  | free
  | reserved

structure UmbBlock where
  mcbSegment : ℕ
  paragraphs : ℕ
  kind : UmbBlockKind

structure UmbWindow where
  leadingBlockWithEms : UmbBlock
  leadingBlockWithoutEms : UmbBlock
  trailingBlocks : List UmbBlock

def UmbWindow.leadingBlock (self : UmbWindow) (emsActive : Bool) : UmbBlock :=
  if emsActive then self.leadingBlockWithEms else self.leadingBlockWithoutEms

/-- The name `UMBRES`, padded with blanks. -/
def umbReservedName : List UInt8 := [0x55, 0x4D, 0x42, 0x52, 0x45, 0x53, 0x20, 0x20]
def umbFreeName : List UInt8 := List.replicate 8 0

section Umb

variable {σ : Type} [MemoryAccess σ]

def writeMcb (mem : σ) (segment : ℕ) (blockType : UInt8) (owner size : ℕ) (name : List UInt8) : σ :=
  let addr := segment * 16
  let mem := writeByte mem (addr + Mcb.offType) blockType
  let mem := writeWord mem (addr + Mcb.offOwner) owner
  let mem := writeWord mem (addr + Mcb.offSize) size
  let mem := writeByte mem (addr + 5) 0
  let mem := writeByte mem (addr + 6) 0
  let mem := writeByte mem (addr + 7) 0
  writeBlock mem (addr + Mcb.offName) name

/-- Writes the blocks of a chain; the last one ends it. -/
def writeUmbBlocks (mem : σ) : List UmbBlock → σ
  | [] => mem
  | block :: blocks =>
    let blockType := if blocks.isEmpty then Mcb.typeZ else Mcb.typeM
    let (owner, name) := match block.kind with
      | .free => (Mcb.ownerFree, umbFreeName)
      | .reserved => (Mcb.ownerDos, umbReservedName)
    writeUmbBlocks (writeMcb mem block.mcbSegment blockType owner block.paragraphs name) blocks

def writeUmbChain (mem : σ) (window : UmbWindow) (emsEnabled : Bool) : σ :=
  writeUmbBlocks mem (window.leadingBlock emsEnabled :: window.trailingBlocks)

end Umb

/-! ### State -/

/-- A logical page in a physical one, with the offset of its allocation. -/
structure EmsMapping where
  handle : ℕ
  logicalPage : ℕ
  allocationOffset : ℕ
  deriving DecidableEq, Repr

abbrev PageMap : Type := Fin physicalPages → Option EmsMapping

structure EmsHandle where
  active : Bool
  pages : List Allocation
  name : List UInt8
  saveContext : Option PageMap

def emptyName : List UInt8 := List.replicate 8 0

def EmsHandle.newInactive : EmsHandle := ⟨false, [], emptyName, none⟩

structure XmsHandle where
  active : Bool
  allocation : Option Allocation
  sizeKb : ℕ
  lockCount : ℕ

def XmsHandle.newInactive : XmsHandle := ⟨false, none, 0, 0⟩

structure MemoryManager where
  allocator : BestFitAllocator
  extendedMemorySize : ℕ
  allocatorBaseOffset : ℕ
  emsWindow : Option EmsWindow
  emsHandles : List EmsHandle
  emsPageMapping : PageMap
  xmsHandles : List XmsHandle

variable {σ : Type} [MemoryAccess σ]

def new (extendedMemorySize : ℕ) (emsWindow : Option EmsWindow) (xmsEnabled : Bool)
    (umbWindow : Option UmbWindow) (mem : σ) : Run (MemoryManager × σ) := do
  let emsEnabled := emsWindow.isSome
  let hmaExists := xmsEnabled && decide (extendedMemorySize ≥ hmaPoolReservationBytes)
  let allocatorBaseOffset := if hmaExists then hmaPoolReservationBytes else 0
  let allocator := BestFitAllocator.new (extendedMemorySize - allocatorBaseOffset)
  let mem := if emsEnabled then enableEmsPageFrame mem else mem
  let umbWindow := umbWindow.filter fun _ => emsEnabled || xmsEnabled
  let (umbBackingAllocation, allocator) ←
    if umbWindow.isSome then allocator.allocateAligned umbBackingBytes pageSize4k
    else some (none, allocator)
  let mem := match umbWindow, umbBackingAllocation with
    | some window, some allocation =>
      let backing :=
        wrappingAdd 32 (wrappingAdd 32 extendedRamBase allocatorBaseOffset) allocation.offset
      writeUmbChain (enableUmbRegion mem (some backing)) window emsEnabled
    | _, _ => mem
  let emsHandles := (List.replicate maxEmsHandles EmsHandle.newInactive).set emsOsReservedHandle
    { EmsHandle.newInactive with active := true }
  return (
    { allocator
      extendedMemorySize
      allocatorBaseOffset
      emsWindow
      emsHandles
      emsPageMapping := fun _ => none
      xmsHandles := List.replicate maxXmsHandles XmsHandle.newInactive }, mem)

namespace MemoryManager

def extendedPoolLinearAddress (self : MemoryManager) (allocationOffset : ℕ) : ℕ :=
  wrappingAdd 32 (wrappingAdd 32 extendedRamBase self.allocatorBaseOffset) allocationOffset

def allocatorTotalBytes (self : MemoryManager) : ℕ :=
  self.extendedMemorySize - self.allocatorBaseOffset

def totalEmsPages (self : MemoryManager) : ℕ := self.allocatorTotalBytes / emsPageSize % 2 ^ 16

def alignUpTo (value alignment : ℕ) : ℕ :=
  wrappingSub 32 (wrappingAdd 32 value alignment) 1 &&& complement 32 (alignment - 1)

def freeEmsPages (self : MemoryManager) : ℕ :=
  let pages := self.allocator.freeByOffset.entries.map fun (offset, region) =>
    let start := alignUpTo offset emsPageSize
    let stop := wrappingAdd 32 offset region.size
    if start ≥ stop then 0 else (stop - start) / emsPageSize
  min (pages.foldl (wrappingAdd 32) 0) (2 ^ 16 - 1)

def emsUnallocatedPages (self : MemoryManager) : ℕ × ℕ :=
  if self.emsWindow.isNone then (0, 0)
  else (min self.freeEmsPages self.totalEmsPages, self.totalEmsPages)

def findFreeEmsHandle (self : MemoryManager) : Option ℕ :=
  ((self.emsHandles.drop 1).findIdx? fun handle => !handle.active).map (· + 1)

def findFreeXmsHandle (self : MemoryManager) : Option ℕ :=
  self.xmsHandles.findIdx? fun handle => !handle.active

/-- The handle, unless it is out of range or inactive. -/
def activeEmsHandle (self : MemoryManager) (handleIndex : ℕ) : Option EmsHandle :=
  self.emsHandles[handleIndex]?.filter fun handle => handle.active

/-! ### EMS Pages -/

def applyEmsPageFrameSlotMapping (self : MemoryManager) (physical : Fin physicalPages)
    (mem : σ) : σ :=
  mapEmsPageFrameSlot mem physical ((self.emsPageMapping physical).map fun mapping =>
    self.extendedPoolLinearAddress mapping.allocationOffset)

/-- The size of a page, rounded up as the allocator rounds it. -/
def emsAllocationSize : ℕ := (emsPageSize + alignMask) &&& complement 64 alignMask

def deallocateAll (allocator : BestFitAllocator) : List Allocation → Run BestFitAllocator
  | [] => some allocator
  | alloc :: allocs => do
    let allocator ← allocator.deallocate alloc
    deallocateAll allocator allocs

/-- Adds a number of pages; gives back the new ones when the pool runs out. -/
def allocatePageLoop : ℕ → BestFitAllocator → List Allocation →
    Run (Option (List Allocation) × BestFitAllocator)
  | 0, allocator, pages => some (some pages, allocator)
  | n + 1, allocator, pages => do
    match ← allocator.allocateAligned emsAllocationSize emsPageSize with
    | (some alloc, allocator) => allocatePageLoop n allocator (pages ++ [alloc])
    | (none, allocator) => do
      let allocator ← deallocateAll allocator pages
      return (none, allocator)

/-- Allocation on a free handle. -/
def emsAllocate (self : MemoryManager) (count : ℕ) : Run (Except ℕ ℕ × MemoryManager) :=
  match self.findFreeEmsHandle with
  | none => some (.error 0x85, self)
  | some handleIndex =>
    if count > self.totalEmsPages then some (.error 0x87, self)
    else if count > self.emsUnallocatedPages.1 then some (.error 0x88, self)
    else do
      match ← allocatePageLoop count self.allocator [] with
      | (none, allocator) => return (.error 0x88, { self with allocator })
      | (some pages, allocator) => return (.ok handleIndex, { self with
          allocator
          emsHandles := self.emsHandles.set handleIndex ⟨true, pages, emptyName, none⟩ })

def emsAllocatePages (self : MemoryManager) (count : ℕ) : Run (Except ℕ ℕ × MemoryManager) :=
  if count = 0 then some (.error 0x89, self) else self.emsAllocate count

/-- The two checks of the count pass for zero. -/
def emsAllocatePagesZeroAllowed (self : MemoryManager) (count : ℕ) :
    Run (Except ℕ ℕ × MemoryManager) := self.emsAllocate count

/-- Sets one physical page. -/
def setSlot (self : MemoryManager) (physical : Fin physicalPages) (mapping : Option EmsMapping)
    (mem : σ) : MemoryManager × σ :=
  let self := { self with
    emsPageMapping := Function.update self.emsPageMapping physical mapping }
  (self, self.applyEmsPageFrameSlotMapping physical mem)

def emsMapPage (self : MemoryManager) (handleIndex logicalPage physicalPage : ℕ) (mem : σ) :
    ℕ × MemoryManager × σ :=
  if h : physicalPage < physicalPages then
    match self.activeEmsHandle handleIndex with
    | none => (0x83, self, mem)
    | some handle =>
      match handle.pages[logicalPage]? with
      | none => (0x8A, self, mem)
      | some page =>
        (0x00, self.setSlot ⟨physicalPage, h⟩ (some ⟨handleIndex, logicalPage, page.offset⟩) mem)
  else (0x8B, self, mem)

def emsUnmapPage (self : MemoryManager) (physicalPage : ℕ) (mem : σ) : ℕ × MemoryManager × σ :=
  if h : physicalPage < physicalPages then (0x00, self.setSlot ⟨physicalPage, h⟩ none mem)
  else (0x8B, self, mem)

/-- Clears a physical page that shows a page of the handle. -/
def unmapSlotOf (handleIndex : ℕ) (state : MemoryManager × σ) (slot : Fin physicalPages) :
    MemoryManager × σ :=
  match state.1.emsPageMapping slot with
  | some mapping => if mapping.handle = handleIndex then state.1.setSlot slot none state.2 else state
  | none => state

def emsDeallocate (self : MemoryManager) (handleIndex : ℕ) (mem : σ) :
    Run (ℕ × MemoryManager × σ) :=
  match self.activeEmsHandle handleIndex with
  | none => some (0x83, self, mem)
  | some handle =>
    if handle.saveContext.isSome then some (0x86, self, mem) else do
    let (self, mem) := (List.finRange physicalPages).foldl (unmapSlotOf handleIndex) (self, mem)
    let allocator ← deallocateAll self.allocator handle.pages
    let handle : EmsHandle :=
      { active := if handleIndex ≠ emsOsReservedHandle then false else handle.active
        pages := []
        name := emptyName
        saveContext := none }
    return (0x00, { self with
      allocator, emsHandles := self.emsHandles.set handleIndex handle }, mem)

def emsSavePageMap (self : MemoryManager) (handleIndex : ℕ) : ℕ × MemoryManager :=
  match self.activeEmsHandle handleIndex with
  | none => (0x83, self)
  | some handle =>
    if handle.saveContext.isSome then (0x8D, self)
    else
      let handle := { handle with saveContext := some self.emsPageMapping }
      (0x00, { self with emsHandles := self.emsHandles.set handleIndex handle })

def emsSetPageMap (self : MemoryManager) (saved : PageMap) (mem : σ) : MemoryManager × σ :=
  let self := { self with emsPageMapping := saved }
  (self, (List.finRange physicalPages).foldl
    (fun mem slot => self.applyEmsPageFrameSlotMapping slot mem) mem)

def emsRestorePageMap (self : MemoryManager) (handleIndex : ℕ) (mem : σ) :
    ℕ × MemoryManager × σ :=
  match self.activeEmsHandle handleIndex with
  | none => (0x83, self, mem)
  | some handle =>
    match handle.saveContext with
    | none => (0x8E, self, mem)
    | some saved =>
      let (self, mem) := self.emsSetPageMap saved mem
      let handle := { handle with saveContext := none }
      (0x00, { self with emsHandles := self.emsHandles.set handleIndex handle }, mem)

def emsPageAllocationOffset (self : MemoryManager) (handleIndex logicalPage : ℕ) : Option ℕ := do
  let handle ← self.activeEmsHandle handleIndex
  let alloc ← handle.pages[logicalPage]?
  return alloc.offset

def physicalPageForSegment (self : MemoryManager) (segment : ℕ) : Option (Fin physicalPages) := do
  let window ← self.emsWindow
  window.physicalPageForSegment segment

/-- A little-endian word of the save array. -/
def saveArrayWord (src : List UInt8) (index : ℕ) : ℕ :=
  (src.getD index 0).toNat + 256 * (src.getD (index + 1) 0).toNat

/-- The entries of a save array, up to the first that fails. -/
def setPartialEntries (src : List UInt8) : List ℕ → MemoryManager → σ → ℕ × MemoryManager × σ
  | [], self, mem => (0x00, self, mem)
  | i :: is, self, mem =>
    let base := 1 + i * 6
    let handle := saveArrayWord src (base + 2)
    let logical := saveArrayWord src (base + 4)
    match self.physicalPageForSegment (saveArrayWord src base) with
    | none => (0x8B, self, mem)
    | some physical =>
      let (status, self, mem) :=
        if handle = 0xFFFF ∨ logical = 0xFFFF then self.emsUnmapPage physical mem
        else self.emsMapPage handle logical physical mem
      if status ≠ 0 then (status, self, mem) else setPartialEntries src is self mem

def emsSetPartialPageMap (self : MemoryManager) (src : List UInt8) (mem : σ) :
    ℕ × MemoryManager × σ :=
  match src with
  | [] => (0xA3, self, mem)
  | count :: _ =>
    if count.toNat > physicalPages ∨ src.length < 1 + count.toNat * 6 then (0xA3, self, mem)
    else setPartialEntries src (List.range count.toNat) self mem

/-- Gives back a number of pages from the end. -/
def popPages : ℕ → BestFitAllocator → List Allocation →
    Run (List Allocation × BestFitAllocator)
  | 0, allocator, pages => some (pages, allocator)
  | n + 1, allocator, pages =>
    match pages.getLast? with
    | none => some (pages, allocator)
    | some alloc => do
      let allocator ← allocator.deallocate alloc
      popPages n allocator pages.dropLast

def emsReallocate (self : MemoryManager) (handleIndex newCount : ℕ) :
    Run (Except ℕ ℕ × MemoryManager) :=
  match self.activeEmsHandle handleIndex with
  | none => some (.error 0x83, self)
  | some handle =>
    if newCount > self.totalEmsPages then some (.error 0x87, self) else
    let currentCount := handle.pages.length % 2 ^ 16
    if newCount = currentCount then some (.ok newCount, self)
    else if newCount > currentCount then
      let extra := newCount - currentCount
      if extra > self.emsUnallocatedPages.1 then some (.error 0x88, self) else do
      match ← allocatePageLoop extra self.allocator [] with
      | (none, allocator) => return (.error 0x88, { self with allocator })
      | (some newPages, allocator) => return (.ok newCount, { self with
          allocator
          emsHandles := self.emsHandles.set handleIndex
            { handle with pages := handle.pages ++ newPages } })
    else do
      let (pages, allocator) ←
        popPages (handle.pages.length - newCount) self.allocator handle.pages
      return (.ok newCount, { self with
        allocator, emsHandles := self.emsHandles.set handleIndex { handle with pages } })

/-- The name must not be another active handle's, unless it is empty. -/
def emsSetHandleName (self : MemoryManager) (handleIndex : ℕ) (name : List UInt8) :
    ℕ × MemoryManager :=
  match self.activeEmsHandle handleIndex with
  | none => (0x83, self)
  | some handle =>
    if name ≠ emptyName ∧ ∃ other ∈ self.emsHandles.zipIdx,
      other.1.active = true ∧ other.2 ≠ handleIndex ∧ other.1.name = name then (0xA1, self)
    else (0x00, { self with emsHandles := self.emsHandles.set handleIndex { handle with name } })

/-! ### The Page Map Call -/

/-- One physical page of a page map in memory. -/
def readPageMapSlot (self : MemoryManager) (mem : σ) (srcAddr : ℕ) (i : Fin physicalPages) :
    Except ℕ (Option EmsMapping) :=
  let addr := wrappingAdd 32 srcAddr (i.val * 4)
  let handle := readWord mem addr
  let page := readWord mem (wrappingAdd 32 addr 2)
  if handle = 0xFFFF ∧ page = 0xFFFF then .ok none
  else if handle = 0xFFFF ∨ page = 0xFFFF then .error 0xA3
  else
    match self.emsPageAllocationOffset handle page with
    | none => .error 0xA3
    | some offset => .ok (some ⟨handle, page, offset⟩)

def readPageMapFromMemory (self : MemoryManager) (mem : σ) (srcAddr : ℕ) : Except ℕ PageMap := do
  let slot0 ← self.readPageMapSlot mem srcAddr 0
  let slot1 ← self.readPageMapSlot mem srcAddr 1
  let slot2 ← self.readPageMapSlot mem srcAddr 2
  let slot3 ← self.readPageMapSlot mem srcAddr 3
  return ![slot0, slot1, slot2, slot3]

/-- Function 4Eh, subfunction 01h: sets the page map from memory. -/
def int67SetPageMap (self : MemoryManager) (srcAddr : ℕ) (mem : σ) : ℕ × MemoryManager × σ :=
  match self.readPageMapFromMemory mem srcAddr with
  | .error code => (code, self, mem)
  | .ok map => (0x00, self.emsSetPageMap map mem)

end MemoryManager

end Neetan.Ems
