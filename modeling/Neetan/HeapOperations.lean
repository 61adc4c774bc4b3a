import Neetan.HeapRequests
import Neetan.Utf8

/-!
The remaining requests of the heap: filled payloads, the concatenation of strings and the
mutation of a character, and the sequence of operations an engine runs on a fresh heap.

A character of another width does not fit in its place, so the string is rebuilt behind the
arena; the span it leaves stays charged until a collection.
-/

namespace Neetan.Gc

open Neetan.Bytecode

/-! ### Limits -/

/-- What of the resource limits a heap is configured by. -/
structure Limits where
  initialGcThreshold : ℕ
  maxHeapSlots : ℕ
  maxHeapBytes : ℕ

/-- An empty heap. -/
def Heap.new (limits : Limits) : Heap where
  cells := []
  valueArena := []
  byteArena := []
  holes := []
  cursor := 0
  limit := 0
  regionEnd := 0
  authStart := 0
  currentMark := .a
  liveBase := 0
  dynamicBytes := 0
  slotThreshold := limits.initialGcThreshold
  byteThreshold := limits.maxHeapBytes
  minimumSlotHeadroom := limits.initialGcThreshold
  minimumByteHeadroom := saturatingMul limits.initialGcThreshold objectSize
  maxSlots := limits.maxHeapSlots
  maxBytes := limits.maxHeapBytes
  temporaryRoots := []
  hostRoots := []
  engineRoots := []
  rootedRegionDepth := 0
  pendingCollection := false
  vmActive := false

section Requests
variable (owned : Object → ℕ)

/-! ### Filled payloads -/

def allocBytevectorFilled (fill : UInt8) (count : ℕ) : HeapM Value := do
  ensureSlotAndBytes owned count
  let off ← byteArenaAppend (List.replicate count fill)
  let value ← writeAuthorizedSlot (.bytevector off count)
  charge count
  return value

def allocVectorFilled (fill : Value) (count : ℕ) : HeapM Value := do
  let payload := saturatingMul count valueSize
  ensureSlotAndBytes owned payload
  let off ← valueArenaAppend (List.replicate count fill)
  let value ← writeAuthorizedSlot (.vector off count)
  charge payload
  return value

def exhausted : Error := heapLimit "payload arena exhausted"

def allocStringFilled (fill : Char) (count : ℕ) : HeapM Value := do
  let byteLen := count * fill.utf8Size
  if byteLen > usizeMax then raise exhausted
  else
    ensureSlotAndBytes owned byteLen
    if count > u32Max then raise exhausted
    else
      let off ← byteArenaAppend (List.replicate count (String.utf8EncodeChar fill)).flatten
      let value ← writeAuthorizedSlot (.string off byteLen count)
      charge byteLen
      return value

/-! ### Concatenation -/

/-- The span of a string. -/
def Heap.stringSpan (heap : Heap) (value : Value) : Option (ℕ × ℕ) :=
  match heap.object value with
  | some (.string off byteLen _) => some (off, byteLen)
  | _ => none

/-- Copies the spans of the parts to the end of the byte arena, one after the other. -/
def appendParts : List Value → HeapM Unit
  | [] => pure ()
  | part :: parts => do
    let heap ← get
    match heap.stringSpan part with
    | none => raise ⟨.typeError, "string-append argument is not a string"⟩
    | some (start, length) =>
      match span heap.byteArena start length with
      | none => raise (heapLimit "string handle escaped its arena")
      | some bytes =>
        set { heap with byteArena := heap.byteArena ++ bytes }
        appendParts parts

/-- The sizes are those of the parts, which the caller has checked to be strings. -/
def allocStringConcat (parts : List Value) (totalBytes totalChars : ℕ) : HeapM Value := do
  ensureSlotAndBytes owned totalBytes
  let heap ← get
  let off ← arenaOffset heap.byteArena.length totalBytes
  appendParts parts
  let value ← writeAuthorizedSlot (.string off totalBytes totalChars)
  charge totalBytes
  return value

end Requests

/-! ### Mutation of a character -/

/-- The character a mutation replaces: its string, its place and what is there. -/
structure StringTarget where
  slot : ℕ
  off : ℕ
  len : ℕ
  chars : ℕ
  bytes : List UInt8
  start : ℕ
  current : Char

/-- `none` where the mutation is refused. -/
def Heap.stringTarget (heap : Heap) (value : Value) (index : ℕ) : Option StringTarget := do
  let reference ← value.heapRef
  let cell ← heap.cells[reference.toNat]?
  if cell.byte &&& metaImmutable ≠ 0 then none
  else
    match cell.slot with
    | some (.string off len chars) =>
      if index ≥ chars then none
      else
        let bytes ← span heap.byteArena off len
        let start := if len = chars then index else charToByte bytes chars index
        let current ← decodeCharAt bytes start
        return ⟨reference.toNat, off, len, chars, bytes, start, current⟩
    | _ => none

namespace StringTarget

/-- The character of another width takes its place in a copy of the string. -/
def rebuilt (target : StringTarget) (replacement : Char) : List UInt8 :=
  target.bytes.take target.start ++ String.utf8EncodeChar replacement ++
    target.bytes.drop (target.start + target.current.utf8Size)

def newLen (target : StringTarget) (replacement : Char) : ℕ :=
  target.len - target.current.utf8Size + replacement.utf8Size

/-- The bytes in place of which a character of the same width is written. -/
def patch (target : StringTarget) (arena encoded : List UInt8) : List UInt8 :=
  arena.take (target.off + target.start) ++ encoded ++
    arena.drop (target.off + target.start + target.current.utf8Size)

end StringTarget

/-- Gives the string in a slot another span. -/
def Heap.setString (heap : Heap) (slot off len chars : ℕ) : List Cell :=
  heap.cells.modify slot fun cell => { cell with slot := some (.string off len chars) }

def stringSet (value : Value) (index : ℕ) (replacement : Char) : HeapM Bool := do
  let heap ← get
  match heap.stringTarget value index with
  | none => return false
  | some target =>
    let encoded := String.utf8EncodeChar replacement
    if target.current = replacement then return true
    else if encoded.length = target.current.utf8Size then
      if heap.byteArena.length < target.off + target.start + target.current.utf8Size then
        return false
      else
        set { heap with byteArena := target.patch heap.byteArena encoded }
        return true
    else
      let newLen := target.newLen replacement
      if heap.byteArena.length + newLen > u32Max then raise exhausted
      else if saturatingAdd heap.totalBytes newLen > heap.maxBytes then
        raise (heapLimit "heap limit exceeded")
      else
        set { heap with
          byteArena := heap.byteArena ++ target.rebuilt replacement
          cells := heap.setString target.slot heap.byteArena.length newLen target.chars
          dynamicBytes := saturatingAdd heap.dynamicBytes newLen }
        return true

/-! ### Operations -/

inductive Operation
  | alloc (object : Object)
  | allocPair (car cdr : Value)
  | allocVector (values : List Value)
  | allocVectorFilled (fill : Value) (count : ℕ)
  | allocBytevector (bytes : List UInt8)
  | allocBytevectorFilled (fill : UInt8) (count : ℕ)
  | allocString (text : String)
  | allocStringFilled (fill : Char) (count : ℕ)
  | allocStringConcat (parts : List Value) (totalBytes totalChars : ℕ)
  | stringSet (value : Value) (index : ℕ) (replacement : Char)
  | collect (extraRoots : List Value)

namespace Operation

/-- Runs the operation on the heap. -/
def perform (owned : Object → ℕ) : Operation → HeapM Unit
  | .alloc object => discard (Gc.alloc owned object)
  | .allocPair car cdr => discard (Gc.allocPair owned car cdr)
  | .allocVector values => discard (Gc.allocVector owned values)
  | .allocVectorFilled fill count => discard (Gc.allocVectorFilled owned fill count)
  | .allocBytevector bytes => discard (Gc.allocBytevector owned bytes)
  | .allocBytevectorFilled fill count => discard (Gc.allocBytevectorFilled owned fill count)
  | .allocString text => discard (Gc.allocString owned text)
  | .allocStringFilled fill count => discard (Gc.allocStringFilled owned fill count)
  | .allocStringConcat parts totalBytes totalChars =>
    discard (Gc.allocStringConcat owned parts totalBytes totalChars)
  | .stringSet value index replacement => discard (Gc.stringSet value index replacement)
  | .collect extraRoots => modify fun heap => heap.collectWith owned extraRoots

end Operation

end Neetan.Gc
