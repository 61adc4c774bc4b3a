import Neetan.HeapCollect

/-!
The allocator: bump allocation through authorized spans of free slots.

Every threshold and limit is checked when a span is refilled. While the virtual machine is
active a soft threshold only schedules a collection; otherwise it runs one first.
-/

namespace Neetan.Gc

open Neetan.Bytecode

/-! ### Errors -/

inductive ErrorKind
  | invalidConfiguration | sourceTooLarge | invalidSpan | unknownSource | sourceLoadingDenied
  | sourceLoadFailed | capabilityDenied | libraryNotFound | libraryError | libraryCycle
  | conflictingSourceIdentity | sourceIdExhausted | invalidUtf8 | invalidToken | unexpectedEof
  | invalidDatum | invalidDatumLabel | invalidNumber | readerLimitExceeded | heapLimitExceeded
  | compileError | expandError | unsupportedSyntax | expansionLimitExceeded | invalidBytecode
  | runtimeError | readError | fileError | arityError | typeError | rangeError
  | implementationRestriction | wrongEngine | nativePanic | executionLimitExceeded
  deriving DecidableEq, Repr

structure Error where
  kind : ErrorKind
  message : String
  deriving DecidableEq, Repr

/-- A computation on the heap; an error leaves the heap as it is at that point. -/
abbrev HeapM := StateT Heap (Except (Error × Heap))

def raise {α : Type} (error : Error) : HeapM α := fun heap => .error (error, heap)

def u32Max : ℕ := 2 ^ 32 - 1

/-! ### Refilling -/

namespace Heap

/-- Moves the consumed authorization into the live count. -/
def retire (heap : Heap) : Heap :=
  { heap with
    liveBase := heap.liveBase + (heap.cursor - heap.authStart), authStart := heap.cursor }

def softReached (heap : Heap) : Prop :=
  heap.liveBase ≥ heap.slotThreshold ∨ heap.totalBytes ≥ heap.byteThreshold

instance (heap : Heap) : Decidable heap.softReached :=
  inferInstanceAs (Decidable (_ ∨ _))

/-- The number of slots the hard limits leave. -/
def allowance (heap : Heap) : ℕ :=
  min (heap.maxSlots - heap.liveBase) ((heap.maxBytes - heap.totalBytes) / objectSize)

def spanBudget (heap : Heap) : ℕ :=
  if heap.pendingCollection then heap.allowance
  else
    let softSlots := heap.slotThreshold - heap.liveBase
    let softBytes := (heap.byteThreshold - heap.totalBytes) / objectSize
    min (max (min softSlots softBytes) 1) heap.allowance

/-- The number of slots the tables grow by. -/
def growth (heap : Heap) : ℕ :=
  let len := heap.cells.length
  let room := max heap.maxSlots (len + 1) - len
  min (max (min (max (len / 2) 64) room) 1) (u32Max - len)

end Heap

def heapLimit (message : String) : Error := ⟨.heapLimitExceeded, message⟩

/-- Authorizes a span in the current hole, in the next one, or in new slots. -/
def authorize : HeapM Unit := do
  let heap ← get
  if heap.allowance = 0 then raise (heapLimit "heap limit exceeded")
  else if heap.cursor < heap.regionEnd then
    let count := min heap.spanBudget (heap.regionEnd - heap.cursor)
    set { heap with limit := heap.cursor + count }
  else
    match heap.holes with
    | hole :: holes =>
      let count := min heap.spanBudget (hole.stop - hole.start)
      set { heap with
        holes, cursor := hole.start, authStart := hole.start, regionEnd := hole.stop
        limit := hole.start + count }
    | [] =>
      let len := heap.cells.length
      if len ≥ u32Max then raise (heapLimit "heap slot index exhausted")
      else
        let grow := heap.growth
        let count := min heap.spanBudget grow
        set { heap with
          cells := heap.cells ++ List.replicate grow (⟨none, metaFree⟩ : Cell)
          cursor := len, authStart := len, regionEnd := len + grow, limit := len + count }

section Allocation
variable (owned : Object → ℕ)

/-- The loop of the source passes at most twice: after a collection it only authorizes. -/
def refillSpan : HeapM Unit := do
  modify Heap.retire
  let heap ← get
  if heap.softReached then
    if heap.vmActive then set { heap with pendingCollection := true }
    else set (heap.collect owned).retire
  authorize

/-! ### Slots -/

def writeAuthorizedSlot (object : Object) : HeapM Value := do
  let heap ← get
  if heap.cursor < heap.limit ∧ heap.cursor < heap.cells.length then
    set { heap with
      cells := heap.cells.set heap.cursor ⟨some object, metaYoung⟩, cursor := heap.cursor + 1 }
    return .heap (UInt32.ofNat heap.cursor)
  else raise (heapLimit "heap allocator has no usable slot")

def allocInner (object : Object) : HeapM Value := do
  let heap ← get
  if heap.cursor < heap.limit ∧ heap.cursor < heap.cells.length then
    writeAuthorizedSlot object
  else
    refillSpan owned
    writeAuthorizedSlot object

/-- The byte bookkeeping of a payload, before its slot is written. -/
def preAccountDynamic (dynamic : ℕ) : HeapM Unit := do
  let incoming := saturatingAdd objectSize dynamic
  let heap ← get
  if saturatingAdd heap.totalBytes incoming > heap.byteThreshold then
    if heap.vmActive then set { heap with pendingCollection := true }
    else set (heap.collect owned)
  let heap ← get
  let after := saturatingAdd heap.totalBytes incoming
  if after > heap.maxBytes then raise (heapLimit "heap limit exceeded")
  else
    let remainingSlots := (heap.maxBytes - after) / objectSize
    let clamp := min (min (saturatingAdd remainingSlots 1) u32Max + heap.cursor) u32Max
    set { heap with limit := min heap.limit clamp }

def charge (bytes : ℕ) : HeapM Unit :=
  modify fun heap => { heap with dynamicBytes := saturatingAdd heap.dynamicBytes bytes }

def alloc (object : Object) : HeapM Value := do
  let dynamic := object.bytes owned - objectSize
  if dynamic ≠ 0 then preAccountDynamic owned dynamic
  let value ← allocInner owned object
  charge dynamic
  return value

def allocPair (car cdr : Value) : HeapM Value := allocInner owned (.pair car cdr)

/-! ### Payloads -/

def ensureSlotAndBytes (payloadBytes : ℕ) : HeapM Unit := do
  if payloadBytes ≠ 0 then preAccountDynamic owned payloadBytes
  let heap ← get
  if heap.cursor ≥ heap.limit then refillSpan owned

/-- The offset of a payload that is to be appended to an arena of `len` elements. The host
grants every reservation. -/
def arenaOffset (len count : ℕ) : HeapM ℕ :=
  if len + count > u32Max then raise (heapLimit "payload arena exhausted") else pure len

def byteArenaAppend (bytes : List UInt8) : HeapM ℕ := do
  let heap ← get
  let off ← arenaOffset heap.byteArena.length bytes.length
  set { heap with byteArena := heap.byteArena ++ bytes }
  return off

def valueArenaAppend (values : List Value) : HeapM ℕ := do
  let heap ← get
  let off ← arenaOffset heap.valueArena.length values.length
  set { heap with valueArena := heap.valueArena ++ values }
  return off

def allocBytevector (bytes : List UInt8) : HeapM Value := do
  ensureSlotAndBytes owned bytes.length
  let off ← byteArenaAppend bytes
  let value ← writeAuthorizedSlot (.bytevector off bytes.length)
  charge bytes.length
  return value

/-- A string of text, given with its encoding. -/
def allocString (text : String) : HeapM Value := do
  let bytes := text.toUTF8.toList
  ensureSlotAndBytes owned bytes.length
  let off ← byteArenaAppend bytes
  let value ← writeAuthorizedSlot (.string off bytes.length text.length)
  charge bytes.length
  return value

def allocVector (values : List Value) : HeapM Value := do
  let payload := saturatingMul values.length valueSize
  ensureSlotAndBytes owned payload
  let off ← valueArenaAppend values
  let value ← writeAuthorizedSlot (.vector off values.length)
  charge payload
  return value

end Allocation

end Neetan.Gc
