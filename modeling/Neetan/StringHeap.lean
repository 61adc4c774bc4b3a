import Neetan.StringCursors
import Neetan.HeapLimits

/-!
The string operations of a heap with its two cached cursors, and strings as plain lists of
characters.

An access may leave a position in the cache, a mutation anchors it where it has written, and
every collection clears it, also one that an allocation runs.
-/

namespace Neetan.Gc

open Neetan.Bytecode Neetan.StringCursor

/-- A heap and its cursors. -/
structure StringHeap where
  heap : Heap
  cursors : StringCursors

/-- The bytes `start..stop`, if they are there. -/
def slice (bytes : List UInt8) (start stop : ℕ) : Option (List UInt8) :=
  if start ≤ stop ∧ stop ≤ bytes.length then some ((bytes.drop start).take (stop - start)) else none

/-- The object in a slot. -/
def Heap.slotAt (heap : Heap) (reference : UInt32) : Option Object :=
  heap.cells[reference.toNat]?.bind Cell.slot

namespace StringHeap

/-! ### Accesses -/

/-- The UTF-8 bytes of a range of characters, which the caller has checked. -/
def stringRange (state : StringHeap) (value : Value) (start stop : ℕ) : Option (List UInt8) := do
  let reference ← value.heapRef
  match state.heap.slotAt reference with
  | some (.string off byteLen chars) =>
    let bytes ← span state.heap.byteArena off byteLen
    let hint := state.cursors.lookup reference.toNat
    let (first, last) := charRangeToBytes bytes chars start stop hint
    slice bytes first last
  | _ => none

def stringRefMultibyte (state : StringHeap) (reference : UInt32) (index : ℕ) :
    Option Char × StringHeap :=
  match state.heap.slotAt reference with
  | some (.string off byteLen chars) =>
    match span state.heap.byteArena off byteLen with
    | none => (none, state)
    | some bytes =>
      match charAt bytes chars index (state.cursors.lookup reference.toNat) with
      | none => (none, state)
      | some (value, position) =>
        (some value, { state with cursors := state.cursors.store reference.toNat position })
  | _ => (none, state)

def stringRef (state : StringHeap) (value : Value) (index : ℕ) : Option Char × StringHeap :=
  match value.heapRef with
  | none => (none, state)
  | some reference =>
    match state.heap.slotAt reference with
    | some (.string off byteLen chars) =>
      if byteLen = chars then
        if index ≥ chars then (none, state)
        else (state.heap.byteArena[off + index]?.map fun byte => Char.ofNat byte.toNat, state)
      else state.stringRefMultibyte reference index
    | _ => (none, state)

def stringLen (state : StringHeap) (value : Value) : Option ℕ := state.heap.stringLen value

/-! ### Mutation of a character -/

/-- `none` where the mutation is refused. -/
def stringTarget (state : StringHeap) (value : Value) (index : ℕ) : Option StringTarget := do
  let reference ← value.heapRef
  let cell ← state.heap.cells[reference.toNat]?
  if cell.byte &&& metaImmutable ≠ 0 then none
  else
    match cell.slot with
    | some (.string off len chars) =>
      if index ≥ chars then none
      else
        let bytes ← span state.heap.byteArena off len
        let hint := state.cursors.lookup reference.toNat
        let start := if len = chars then index else StringCursor.charToByte bytes chars index hint
        let current ← decodeCharAt bytes start
        return ⟨reference.toNat, off, len, chars, bytes, start, current⟩
    | _ => none

/-- A failure leaves the heap and its cursors as they are. -/
def stringSet (state : StringHeap) (value : Value) (index : ℕ) (replacement : Char) :
    Except Error (Bool × StringHeap) :=
  match state.stringTarget value index with
  | none => .ok (false, state)
  | some target =>
    let encoded := String.utf8EncodeChar replacement
    let cursors := state.cursors.store target.slot (index, target.start)
    if target.current = replacement then .ok (true, { state with cursors })
    else if encoded.length = target.current.utf8Size then
      if state.heap.byteArena.length < target.off + target.start + target.current.utf8Size then
        .ok (false, state)
      else
        .ok (true, ⟨{ state.heap with byteArena := target.patch state.heap.byteArena encoded },
          cursors⟩)
    else
      let newLen := target.newLen replacement
      if state.heap.byteArena.length + newLen > u32Max then .error exhausted
      else if saturatingAdd state.heap.totalBytes newLen > state.heap.maxBytes then
        .error (heapLimit "heap limit exceeded")
      else
        .ok (true, ⟨{ state.heap with
          byteArena := state.heap.byteArena ++ target.rebuilt replacement
          cells :=
            state.heap.setString target.slot state.heap.byteArena.length newLen target.chars
          dynamicBytes := saturatingAdd state.heap.dynamicBytes newLen }, cursors⟩)

/-! ### Allocations and collections -/

/-- Drops what is cached. -/
def collectWith (owned : Object → ℕ) (state : StringHeap) (extraRoots : List Value) : StringHeap :=
  ⟨state.heap.collectWith owned extraRoots, state.cursors.clear⟩

end StringHeap

/-- Whether the bookkeeping of a payload, or the refill after it, runs a collection. -/
def Heap.collectsFor (owned : Object → ℕ) (heap : Heap) (payload : ℕ) : Bool :=
  !heap.vmActive &&
    (decide (payload ≠ 0 ∧
        saturatingAdd heap.totalBytes (saturatingAdd objectSize payload) > heap.byteThreshold) ||
      match (if payload ≠ 0 then preAccountDynamic owned payload else pure ()) heap with
      | .ok ((), mid) => decide (mid.limit ≤ mid.cursor ∧ mid.retire.softReached)
      | .error _ => false)

inductive Allocation
  | object (object : Object)
  | pair (car cdr : Value)
  | vector (values : List Value)
  | vectorFilled (fill : Value) (count : ℕ)
  | bytevector (bytes : List UInt8)
  | bytevectorFilled (fill : UInt8) (count : ℕ)
  | string (text : String)
  | stringFilled (fill : Char) (count : ℕ)
  | stringConcat (parts : List Value) (totalBytes totalChars : ℕ)

namespace Allocation

def operation : Allocation → Operation
  | .object plain => .alloc plain
  | .pair car cdr => .allocPair car cdr
  | .vector values => .allocVector values
  | .vectorFilled fill count => .allocVectorFilled fill count
  | .bytevector bytes => .allocBytevector bytes
  | .bytevectorFilled fill count => .allocBytevectorFilled fill count
  | .string text => .allocString text
  | .stringFilled fill count => .allocStringFilled fill count
  | .stringConcat parts totalBytes totalChars => .allocStringConcat parts totalBytes totalChars

section
variable (owned : Object → ℕ)

def perform : Allocation → HeapM Value
  | .object plain => alloc owned plain
  | .pair car cdr => allocPair owned car cdr
  | .vector values => allocVector owned values
  | .vectorFilled fill count => allocVectorFilled owned fill count
  | .bytevector bytes => allocBytevector owned bytes
  | .bytevectorFilled fill count => allocBytevectorFilled owned fill count
  | .string text => allocString owned text
  | .stringFilled fill count => allocStringFilled owned fill count
  | .stringConcat parts totalBytes totalChars => allocStringConcat owned parts totalBytes totalChars

/-- Whether the allocation runs a collection. A filled string whose size overflows is refused
before anything is looked at. -/
def collects (heap : Heap) (allocation : Allocation) : Bool :=
  match allocation with
  | .stringFilled fill count =>
    decide (count * fill.utf8Size ≤ usizeMax) && heap.collectsFor owned (count * fill.utf8Size)
  | _ => heap.collectsFor owned (allocation.operation.payload owned)

end

end Allocation

namespace StringHeap

/-- The allocation; a collection it runs clears the cursors. -/
def allocate (owned : Object → ℕ) (state : StringHeap) (allocation : Allocation) :
    Except Error Value × StringHeap :=
  let cursors :=
    if allocation.collects owned state.heap then state.cursors.clear else state.cursors
  match allocation.perform owned state.heap with
  | .ok (value, heap) => (.ok value, ⟨heap, cursors⟩)
  | .error (error, heap) => (.error error, ⟨heap, cursors⟩)

end StringHeap

/-! ### Runs -/

/-- What an operation was asked and what it has answered. An allocation and a collection also
say which slots they were bound to keep. -/
inductive StringEvent
  | ref (value : Value) (index : ℕ) (answer : Option Char)
  | range (value : Value) (start stop : ℕ) (answer : Option (List UInt8))
  | len (value : Value) (answer : Option ℕ)
  | set (value : Value) (index : ℕ) (replacement : Char) (answer : Except Error Bool)
  | allocate (allocation : Allocation) (answer : Except Error Value) (kept : ℕ → Prop)
  | collect (kept : ℕ → Prop)

/-- The contents of every string are the same. -/
def SameStrings (before after : Heap) : Prop :=
  ∀ i bytes chars, (∃ immutable, after.contents i = some (.string bytes chars, immutable)) ↔
    ∃ immutable, before.contents i = some (.string bytes chars, immutable)

/-- The operations of a run with their answers, and the heap they have led to. In between the
program writes other objects, the engine changes the roots, and the virtual machine is entered
and left. -/
inductive StringSession (boxed : Object → ℕ) (limits : Limits) :
    List StringEvent → StringHeap → Prop
  | fresh : StringSession boxed limits [] ⟨.new limits, .new⟩
  | ref {log : List StringEvent} {state : StringHeap} (value : Value) (index : ℕ) :
    StringSession boxed limits log state →
    StringSession boxed limits (log ++ [.ref value index (state.stringRef value index).1])
      (state.stringRef value index).2
  | range {log : List StringEvent} {state : StringHeap} (value : Value) {start stop : ℕ} :
    StringSession boxed limits log state → start ≤ stop →
    (∀ chars, state.stringLen value = some chars → stop ≤ chars) →
    StringSession boxed limits
      (log ++ [.range value start stop (state.stringRange value start stop)]) state
  | len {log : List StringEvent} {state : StringHeap} (value : Value) :
    StringSession boxed limits log state →
    StringSession boxed limits (log ++ [.len value (state.stringLen value)]) state
  | set {log : List StringEvent} {state after : StringHeap} {value : Value} {index : ℕ}
    {replacement : Char} {done : Bool} : StringSession boxed limits log state →
    state.stringSet value index replacement = .ok (done, after) →
    StringSession boxed limits (log ++ [.set value index replacement (.ok done)]) after
  | setFails {log : List StringEvent} {state : StringHeap} {value : Value} {index : ℕ}
    {replacement : Char} {error : Error} : StringSession boxed limits log state →
    state.stringSet value index replacement = .error error →
    StringSession boxed limits (log ++ [.set value index replacement (.error error)]) state
  | allocate {log : List StringEvent} {state : StringHeap} (allocation : Allocation) :
    StringSession boxed limits log state → allocation.operation.Proper state.heap →
    StringSession boxed limits
      (log ++ [.allocate allocation (state.allocate (owns boxed) allocation).1 state.heap.Secure])
      (state.allocate (owns boxed) allocation).2
  | collect {log : List StringEvent} {state : StringHeap} (extraRoots : List Value) :
    StringSession boxed limits log state →
    StringSession boxed limits (log ++ [.collect (state.heap.Live extraRoots)])
      (state.collectWith (owns boxed) extraRoots)
  | write {log : List StringEvent} {state : StringHeap} {heap : Heap} :
    StringSession boxed limits log state → Rewrites (owns boxed) state.heap heap →
    SameStrings state.heap heap → StringSession boxed limits log { state with heap }
  | roots {log : List StringEvent} {state : StringHeap}
    (temporaryRoots hostRoots engineRoots : List Value) :
    StringSession boxed limits log state →
    StringSession boxed limits log
      { state with heap := { state.heap with temporaryRoots, hostRoots, engineRoots } }
  | enter {log : List StringEvent} {state : StringHeap} (vmActive : Bool) :
    StringSession boxed limits log state →
    StringSession boxed limits log { state with heap := { state.heap with vmActive } }

/-! ### Strings as lists -/

/-- A string as the program sees it. -/
structure Text where
  chars : List Char
  immutable : Bool

/-- The strings there are, by slot. -/
abbrev Texts := ℕ → Option Text

namespace Texts

/-- The string a value refers to. -/
def read (texts : Texts) (value : Value) : Option Text :=
  value.heapRef.bind fun reference => texts reference.toNat

/-- The strings after a character has been replaced. -/
def set (texts : Texts) (value : Value) (chars : List Char) : Texts := fun i =>
  if value.heapRef.map UInt32.toNat = some i then some ⟨chars, false⟩ else texts i

/-- Strings are dropped only where nothing was bound to be kept. -/
def Drops (kept : ℕ → Prop) (before after : Texts) (i : ℕ) : Prop :=
  after i = before i ∨ ¬ kept i ∧ after i = none

/-- The character can be replaced. -/
def Settable (texts : Texts) (value : Value) (index : ℕ) (chars : List Char) : Prop :=
  texts.read value = some ⟨chars, false⟩ ∧ index < chars.length

/-- The string an allocation makes of its arguments, if it makes one. -/
def made (texts : Texts) : Allocation → Option Text
  | .string text => some ⟨text.toList, false⟩
  | .stringFilled fill count => some ⟨List.replicate count fill, false⟩
  | .stringConcat parts _ _ =>
    some ⟨(parts.map fun part => ((texts.read part).map Text.chars).getD []).flatten, false⟩
  | _ => none

end Texts

/-- The same operations on lists of characters: what they answer and what they leave. -/
inductive ListRun : List StringEvent → Texts → Prop
  | fresh : ListRun [] fun _ => none
  | ref {log : List StringEvent} {texts : Texts} (value : Value) (index : ℕ) :
    ListRun log texts →
    ListRun (log ++ [.ref value index ((texts.read value).bind fun text => text.chars[index]?)])
      texts
  | range {log : List StringEvent} {texts : Texts} (value : Value) (start stop : ℕ) :
    ListRun log texts →
    ListRun (log ++ [.range value start stop ((texts.read value).map fun text =>
      Utf8.encode ((text.chars.drop start).take (stop - start)))]) texts
  | len {log : List StringEvent} {texts : Texts} (value : Value) : ListRun log texts →
    ListRun (log ++ [.len value ((texts.read value).map fun text => text.chars.length)]) texts
  | set {log : List StringEvent} {texts : Texts} {value : Value} {index : ℕ} {chars : List Char}
    (replacement : Char) : ListRun log texts → texts.Settable value index chars →
    ListRun (log ++ [.set value index replacement (.ok true)])
      (texts.set value (chars.set index replacement))
  | setRefused {log : List StringEvent} {texts : Texts} {value : Value} {index : ℕ}
    (replacement : Char) : ListRun log texts → (∀ chars, ¬ texts.Settable value index chars) →
    ListRun (log ++ [.set value index replacement (.ok false)]) texts
  | setFails {log : List StringEvent} {texts : Texts} {value : Value} {index : ℕ}
    {chars : List Char} {replacement : Char} (error : Error) : ListRun log texts →
    texts.Settable value index chars → error.kind = .heapLimitExceeded →
    (∀ current, chars[index]? = some current → current.utf8Size ≠ replacement.utf8Size) →
    ListRun (log ++ [.set value index replacement (.error error)]) texts
  | allocate {log : List StringEvent} {texts after : Texts} {allocation : Allocation}
    {reference : UInt32} {kept : ℕ → Prop} : ListRun log texts →
    (texts reference.toNat = none ∨ ¬ kept reference.toNat) →
    after reference.toNat = texts.made allocation →
    (∀ i, i ≠ reference.toNat → Texts.Drops kept texts after i) →
    ListRun (log ++ [.allocate allocation (.ok (.heap reference)) kept]) after
  | allocateFails {log : List StringEvent} {texts after : Texts} (allocation : Allocation)
    (error : Error) {kept : ℕ → Prop} : ListRun log texts →
    (∀ i, Texts.Drops kept texts after i) →
    ListRun (log ++ [.allocate allocation (.error error) kept]) after
  | collect {log : List StringEvent} {texts after : Texts} {kept : ℕ → Prop} :
    ListRun log texts → (∀ i, kept i → after i = texts i) → (∀ i, ¬ kept i → after i = none) →
    ListRun (log ++ [.collect kept]) after
  | write {log : List StringEvent} {texts after : Texts} : ListRun log texts →
    (∀ i, (after i).map Text.chars = (texts i).map Text.chars) → ListRun log after

/-- The text of a string, read from its span. -/
def Heap.texts (heap : Heap) : Texts := fun i =>
  match heap.contents i with
  | some (.string bytes _, immutable) =>
    (String.fromUTF8? ⟨bytes.toArray⟩).map fun text => ⟨text.toList, immutable⟩
  | _ => none

end Neetan.Gc
