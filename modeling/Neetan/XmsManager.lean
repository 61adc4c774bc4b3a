import Neetan.MemoryManager

/-!
The XMS calls of the memory manager, and runs of EMS and XMS calls.

Extended memory blocks come from the pool that holds the EMS pages. A block that cannot be
resized where it is moves to another region; the copy goes through the machine's memory.
-/

namespace Neetan.Ems

open Neetan.MachineInt Neetan.BestFit Neetan.EmulatedMemory MemoryAccess

/-- Rounded up to whole 4 KB pages, if that fits a `u32`. -/
def pageAlignedAllocationSize (sizeBytes : ℕ) : Option ℕ :=
  if sizeBytes = 0 then some 0 else
  let alignedSize := (sizeBytes + pageSize4k - 1) &&& complement 64 (pageSize4k - 1)
  if alignedSize < 2 ^ 32 then some alignedSize else none

variable {σ : Type} [MemoryAccess σ]

namespace MemoryManager

def setXmsHandle (self : MemoryManager) (index : ℕ) (handle : XmsHandle) : MemoryManager :=
  { self with xmsHandles := self.xmsHandles.set index handle }

/-- The index of an active handle; handle numbers start at one. -/
def activeXmsHandle (self : MemoryManager) (handleId : ℕ) : Option (ℕ × XmsHandle) := do
  let index ← checkedSub handleId 1
  let handle ← self.xmsHandles[index]?.filter fun handle => handle.active
  return (index, handle)

/-- Allocation of a number of bytes on a free handle. -/
def xmsAllocateBytes (self : MemoryManager) (handleIndex sizeBytes sizeKb : ℕ) :
    Run (Except ℕ ℕ × MemoryManager) :=
  match pageAlignedAllocationSize sizeBytes with
  | none => some (.error 0xA0, self)
  | some alignedSize =>
    if alignedSize = 0 then
      some (.ok (handleIndex + 1), self.setXmsHandle handleIndex ⟨true, none, 0, 0⟩)
    else do
    match ← self.allocator.allocateAligned alignedSize pageSize4k with
    | (none, allocator) => return (.error 0xA0, { self with allocator })
    | (some allocation, allocator) =>
      return (.ok (handleIndex + 1),
        { self with allocator }.setXmsHandle handleIndex ⟨true, some allocation, sizeKb, 0⟩)

def xmsAllocate (self : MemoryManager) (sizeKb : ℕ) : Run (Except ℕ ℕ × MemoryManager) :=
  match self.findFreeXmsHandle with
  | none => some (.error 0xA1, self)
  | some handleIndex => self.xmsAllocateBytes handleIndex (sizeKb * 1024) sizeKb

/-- The size in bytes must be a `u32`. -/
def xmsAllocate32 (self : MemoryManager) (sizeKb : ℕ) : Run (Except ℕ ℕ × MemoryManager) :=
  match self.findFreeXmsHandle with
  | none => some (.error 0xA1, self)
  | some handleIndex =>
    if sizeKb * 1024 ≥ 2 ^ 32 then some (.error 0xA0, self)
    else self.xmsAllocateBytes handleIndex (sizeKb * 1024) sizeKb

def deallocateOption (allocator : BestFitAllocator) : Option Allocation → Run BestFitAllocator
  | none => some allocator
  | some alloc => allocator.deallocate alloc

def xmsFree (self : MemoryManager) (handleId : ℕ) : Run (Except ℕ Unit × MemoryManager) :=
  match self.activeXmsHandle handleId with
  | none => some (.error 0xA2, self)
  | some (index, handle) =>
    if handle.lockCount > 0 then some (.error 0xAB, self) else do
    let allocator ← deallocateOption self.allocator handle.allocation
    return (.ok (), { self with allocator }.setXmsHandle index
      { handle with active := false, allocation := none, sizeKb := 0 })

def xmsLock (self : MemoryManager) (handleId : ℕ) : Except ℕ ℕ × MemoryManager :=
  match self.activeXmsHandle handleId with
  | none => (.error 0xA2, self)
  | some (index, handle) =>
    if handle.lockCount = 0xFF then (.error 0xAC, self) else
    let address := match handle.allocation with
      | some alloc => self.extendedPoolLinearAddress alloc.offset
      | none => self.extendedPoolLinearAddress 0
    (.ok address, self.setXmsHandle index { handle with lockCount := handle.lockCount + 1 })

def xmsUnlock (self : MemoryManager) (handleId : ℕ) : Except ℕ Unit × MemoryManager :=
  match self.activeXmsHandle handleId with
  | none => (.error 0xA2, self)
  | some (index, handle) =>
    if handle.lockCount = 0 then (.error 0xAA, self)
    else (.ok (), self.setXmsHandle index { handle with lockCount := handle.lockCount - 1 })

/-! ### Reallocation -/

/-- The bytes that move with a block. -/
def copyBlock (self : MemoryManager) (mem : σ) (source target : Allocation) (copyBytes : ℕ) : σ :=
  if copyBytes > 0 then
    writeBlock mem (self.extendedPoolLinearAddress target.offset)
      (readBlock mem (self.extendedPoolLinearAddress source.offset) copyBytes)
  else mem

/-- Gives the block back before it allocates again; on failure the old size is tried. -/
def xmsReplace (self : MemoryManager) (index : ℕ) (handle : XmsHandle)
    (newSizeKb alignedSize copyBytes : ℕ) (mem : σ) :
    Run (Except ℕ Unit × MemoryManager × σ) :=
  match handle.allocation with
  | none => some (.error 0xA0, self, mem)
  | some oldAlloc => do
    let allocator ← self.allocator.deallocate oldAlloc
    match ← allocator.allocateAligned alignedSize pageSize4k with
    | (some newAlloc, allocator) =>
      return (.ok (), { self with allocator }.setXmsHandle index
        { handle with allocation := some newAlloc, sizeKb := newSizeKb },
        self.copyBlock mem oldAlloc newAlloc copyBytes)
    | (none, allocator) =>
      let oldAlignedSize := (pageAlignedAllocationSize (handle.sizeKb * 1024)).getD 0
      if oldAlignedSize = 0 then
        return (.error 0xA0, { self with allocator }.setXmsHandle index
          { handle with allocation := none, sizeKb := 0 }, mem)
      else do
      match ← allocator.allocateAligned oldAlignedSize pageSize4k with
      | (some restored, allocator) =>
        return (.error 0xA0, { self with allocator }.setXmsHandle index
          { handle with allocation := some restored },
          self.copyBlock mem oldAlloc restored copyBytes)
      | (none, allocator) =>
        return (.error 0xA0, { self with allocator }.setXmsHandle index
          { handle with allocation := none, sizeKb := 0 }, mem)

/-- Moves the block to a new region, while the old one is still held if there is room. -/
def xmsRelocate (self : MemoryManager) (index : ℕ) (handle : XmsHandle)
    (newSizeKb alignedSize copyBytes : ℕ) (mem : σ) :
    Run (Except ℕ Unit × MemoryManager × σ) := do
  match ← self.allocator.allocateAligned alignedSize pageSize4k with
  | (some newAlloc, allocator) => do
    let mem := match handle.allocation with
      | some oldAlloc => self.copyBlock mem oldAlloc newAlloc copyBytes
      | none => mem
    let allocator ← deallocateOption allocator handle.allocation
    return (.ok (), { self with allocator }.setXmsHandle index
      { handle with allocation := some newAlloc, sizeKb := newSizeKb }, mem)
  | (none, allocator) =>
    let self : MemoryManager := { self with allocator }
    self.xmsReplace index handle newSizeKb alignedSize copyBytes mem

/-- Resizes the block where it is, else moves it. -/
def xmsResize (self : MemoryManager) (index : ℕ) (handle : XmsHandle)
    (newSizeKb alignedSize copyBytes : ℕ) (mem : σ) :
    Run (Except ℕ Unit × MemoryManager × σ) :=
  match handle.allocation with
  | none => self.xmsRelocate index handle newSizeKb alignedSize copyBytes mem
  | some oldAlloc => do
    match ← self.allocator.reallocateInPlace oldAlloc alignedSize with
    | (some resizedAlloc, allocator) =>
      return (.ok (), { self with allocator }.setXmsHandle index
        { handle with allocation := some resizedAlloc, sizeKb := newSizeKb }, mem)
    | (none, allocator) =>
      let self : MemoryManager := { self with allocator }
      self.xmsRelocate index handle newSizeKb alignedSize copyBytes mem

def xmsReallocateInternal (self : MemoryManager) (handleId newSizeKb : ℕ) (mem : σ) :
    Run (Except ℕ Unit × MemoryManager × σ) :=
  match self.activeXmsHandle handleId with
  | none => some (.error 0xA2, self, mem)
  | some (index, handle) =>
    if handle.lockCount > 0 then some (.error 0xAB, self, mem)
    else if newSizeKb = handle.sizeKb then some (.ok (), self, mem)
    else if newSizeKb = 0 then do
      let allocator ← deallocateOption self.allocator handle.allocation
      return (.ok (), { self with allocator }.setXmsHandle index
        { handle with allocation := none, sizeKb := 0 }, mem)
    else
      match pageAlignedAllocationSize (newSizeKb * 1024) with
      | none => some (.error 0xA0, self, mem)
      | some alignedSize =>
        let copyBytes := min handle.sizeKb newSizeKb * 1024 % 2 ^ 32
        self.xmsResize index handle newSizeKb alignedSize copyBytes mem

def xmsReallocate (self : MemoryManager) (handleId newSizeKb : ℕ) (mem : σ) :
    Run (Except ℕ Unit × MemoryManager × σ) := self.xmsReallocateInternal handleId newSizeKb mem

/-- The new size in bytes must be a `u32`. -/
def xmsReallocate32 (self : MemoryManager) (handleId newSizeKb : ℕ) (mem : σ) :
    Run (Except ℕ Unit × MemoryManager × σ) :=
  if newSizeKb * 1024 ≥ 2 ^ 32 then some (.error 0xA0, self, mem)
  else self.xmsReallocateInternal handleId newSizeKb mem

end MemoryManager

/-! ### Runs -/

/-- The calls of the manager, and stores of the programs that make them. -/
inductive Call
  | emsAllocatePages (count : ℕ)
  | emsAllocatePagesZeroAllowed (count : ℕ)
  | emsMapPage (handle logicalPage physicalPage : ℕ)
  | emsUnmapPage (physicalPage : ℕ)
  | emsDeallocate (handle : ℕ)
  | emsSavePageMap (handle : ℕ)
  | emsRestorePageMap (handle : ℕ)
  | int67SetPageMap (srcAddr : ℕ)
  | emsSetPartialPageMap (src : List UInt8)
  | emsReallocate (handle newCount : ℕ)
  | emsSetHandleName (handle : ℕ) (name : List UInt8)
  | xmsAllocate (sizeKb : ℕ)
  | xmsAllocate32 (sizeKb : ℕ)
  | xmsFree (handleId : ℕ)
  | xmsLock (handleId : ℕ)
  | xmsUnlock (handleId : ℕ)
  | xmsReallocate (handleId newSizeKb : ℕ)
  | xmsReallocate32 (handleId newSizeKb : ℕ)
  | store (address : ℕ) (bytes : List UInt8)

/-- One call; its status is left out. -/
def step (self : MemoryManager) (mem : σ) : Call → Run (MemoryManager × σ)
  | .emsAllocatePages count => do
    let (_, self) ← self.emsAllocatePages count
    return (self, mem)
  | .emsAllocatePagesZeroAllowed count => do
    let (_, self) ← self.emsAllocatePagesZeroAllowed count
    return (self, mem)
  | .emsMapPage handle logicalPage physicalPage =>
    some (self.emsMapPage handle logicalPage physicalPage mem).2
  | .emsUnmapPage physicalPage => some (self.emsUnmapPage physicalPage mem).2
  | .emsDeallocate handle => do
    let (_, state) ← self.emsDeallocate handle mem
    return state
  | .emsSavePageMap handle => some ((self.emsSavePageMap handle).2, mem)
  | .emsRestorePageMap handle => some (self.emsRestorePageMap handle mem).2
  | .int67SetPageMap srcAddr => some (self.int67SetPageMap srcAddr mem).2
  | .emsSetPartialPageMap src => some (self.emsSetPartialPageMap src mem).2
  | .emsReallocate handle newCount => do
    let (_, self) ← self.emsReallocate handle newCount
    return (self, mem)
  | .emsSetHandleName handle name => some ((self.emsSetHandleName handle name).2, mem)
  | .xmsAllocate sizeKb => do
    let (_, self) ← self.xmsAllocate sizeKb
    return (self, mem)
  | .xmsAllocate32 sizeKb => do
    let (_, self) ← self.xmsAllocate32 sizeKb
    return (self, mem)
  | .xmsFree handleId => do
    let (_, self) ← self.xmsFree handleId
    return (self, mem)
  | .xmsLock handleId => some ((self.xmsLock handleId).2, mem)
  | .xmsUnlock handleId => some ((self.xmsUnlock handleId).2, mem)
  | .xmsReallocate handleId newSizeKb => do
    let (_, state) ← self.xmsReallocate handleId newSizeKb mem
    return state
  | .xmsReallocate32 handleId newSizeKb => do
    let (_, state) ← self.xmsReallocate32 handleId newSizeKb mem
    return state
  | .store address bytes => some (self, writeBlock mem address bytes)

/-- The state after a list of calls. -/
def run (self : MemoryManager) (mem : σ) : List Call → Run (MemoryManager × σ)
  | [] => some (self, mem)
  | call :: calls => do
    let (self, mem) ← step self mem call
    run self mem calls

end Neetan.Ems
