import Neetan.LittleEndian
import Neetan.OrderedMap
import Mathlib.Algebra.Ring.Nat
import Mathlib.Order.Basic
import Mathlib.Tactic.Basic
import Mathlib.Data.Vector.Basic
import Mathlib.Logic.Equiv.Defs

/-!
The cursor of the save-state decoder, and the codecs of the payload, one for each way to build a
state type.

A decoder reads a byte string when it returns a value from every payload that continues with
this string, whatever follows, under all limits that are not stricter. A decoder is stable
when each of its successes comes from a byte string it reads. A collection carries the bound that
its length is a `usize`.
-/

namespace Neetan.SaveState

/-- The machine that decodes: the width of its `usize`. -/
structure Host where
  usizeBits : ℕ
  usizeBits_le : usizeBits ≤ 64

/-- The number of `usize` values. -/
def Host.usizeSize (host : Host) : ℕ := 2 ^ host.usizeBits

/-- A byte slice of the host. -/
structure Payload (host : Host) where
  bytes : List UInt8
  length_lt : bytes.length < host.usizeSize

inductive StateDecodeError
  | unexpectedEnd
  | collectionTooLarge
  | allocationFailed
  | integerOutOfRange
  | invalidTag
  | invalidUtf8
  | trailingBytes
  deriving DecidableEq, Repr

/-- The length bound of collections, and the lengths that the allocator of the host grants. -/
structure Limits where
  maximumCollectionLength : ℕ
  grants : ℕ → Bool

/-- Stricter limits come first. -/
instance : LE Limits :=
  ⟨fun a b => a.maximumCollectionLength ≤ b.maximumCollectionLength ∧
    ∀ n, a.grants n = true → b.grants n = true⟩

structure StateDecoder (host : Host) where
  input : Payload host
  position : ℕ
  limits : Limits
  position_le : position ≤ input.bytes.length

abbrev Decode (host : Host) (α : Type) := StateT (StateDecoder host) (Except StateDecodeError) α

variable {host : Host} {α β : Type}

def StateDecoder.new (input : Payload host) (limits : Limits) : StateDecoder host :=
  ⟨input, 0, limits, Nat.zero_le _⟩

def StateDecoder.isFinished (decoder : StateDecoder host) : Bool :=
  decoder.position = decoder.input.bytes.length

/-- The next bytes of the input; the end position must be a `usize` inside the input. -/
def take (byteCount : ℕ) : Decode host (List UInt8) := fun decoder =>
  if decoder.position + byteCount < host.usizeSize then
    if h : decoder.position + byteCount ≤ decoder.input.bytes.length then
      .ok ((decoder.input.bytes.drop decoder.position).take byteCount,
        { decoder with position := decoder.position + byteCount, position_le := h })
    else .error .unexpectedEnd
  else .error .unexpectedEnd

def checkLength (length : ℕ) : Decode host Unit := fun decoder =>
  if length > decoder.limits.maximumCollectionLength then .error .collectionTooLarge
  else .ok ((), decoder)

def tryReserveExact (length : ℕ) : Decode host Unit := fun decoder =>
  if decoder.limits.grants length then .ok ((), decoder) else .error .allocationFailed

/-! ### Reading -/

/-- The same decoder, some bytes further. -/
def Advanced (decoder : StateDecoder host) (n : ℕ) (decoder' : StateDecoder host) : Prop :=
  decoder'.input = decoder.input ∧ decoder'.limits = decoder.limits ∧
    decoder'.position = decoder.position + n

/-- The decoder takes exactly these bytes, wherever they stand, and returns the value. -/
def Reads (dec : Decode host α) (limits : Limits) (bytes : List UInt8) (v : α) : Prop :=
  ∀ decoder rest, limits ≤ decoder.limits →
    decoder.input.bytes.drop decoder.position = bytes ++ rest →
    ∃ decoder', dec decoder = .ok (v, decoder') ∧ Advanced decoder bytes.length decoder'

/-- Every success comes from a byte string that the decoder reads. -/
def Stable (dec : Decode host α) : Prop :=
  ∀ decoder v decoder', dec decoder = .ok (v, decoder') →
    ∃ bytes rest, decoder.input.bytes.drop decoder.position = bytes ++ rest ∧
      Advanced decoder bytes.length decoder' ∧ Reads dec decoder.limits bytes v

lemma Advanced.drop {decoder decoder' : StateDecoder host} {bytes rest : List UInt8}
    (h : Advanced decoder bytes.length decoder')
    (hb : decoder.input.bytes.drop decoder.position = bytes ++ rest) :
    decoder'.input.bytes.drop decoder'.position = rest := by
  obtain ⟨hi, -, hp⟩ := h
  rw [hi, hp, ← List.drop_drop, hb, List.drop_left]

lemma Advanced.trans {d d' d'' : StateDecoder host} {m n : ℕ} (h : Advanced d m d')
    (h' : Advanced d' n d'') : Advanced d (m + n) d'' := by
  obtain ⟨hi, hl, hp⟩ := h
  obtain ⟨hi', hl', hp'⟩ := h'
  exact ⟨hi'.trans hi, hl'.trans hl, by omega⟩

lemma reads_pure (limits : Limits) (v : α) : Reads (pure v : Decode host α) limits [] v :=
  fun decoder _ _ _ => ⟨decoder, rfl, rfl, rfl, rfl⟩

variable {m : Decode host α} {limits : Limits}

lemma reads_bind {k : α → Decode host β} {bytes bytes' : List UInt8} {v : α} {w : β}
    (hm : Reads m limits bytes v) (hk : Reads (k v) limits bytes' w) :
    Reads (m >>= k) limits (bytes ++ bytes') w := by
  intro decoder rest hl hb
  obtain ⟨decoder', hv, ha⟩ := hm decoder (bytes' ++ rest) hl (by rw [hb, List.append_assoc])
  have hd := ha.drop (by rw [hb, List.append_assoc])
  obtain ⟨decoder'', hw, ha'⟩ := hk decoder' rest (ha.2.1 ▸ hl) hd
  refine ⟨decoder'', ?_, by rw [List.length_append]; exact ha.trans ha'⟩
  change (m decoder >>= fun p => k p.1 p.2) = _
  rw [hv]
  exact hw

lemma reads_bind_nil {k : α → Decode host β} {bytes : List UInt8} {v : α} {w : β}
    (hm : Reads m limits [] v) (hk : Reads (k v) limits bytes w) :
    Reads (m >>= k) limits bytes w := reads_bind hm hk

lemma reads_map {bytes : List UInt8} {v : α} (f : α → β) (hm : Reads m limits bytes v) :
    Reads (do let a ← m; return f a) limits bytes (f v) := by
  have h := reads_bind (k := fun a => pure (f a)) hm (reads_pure limits (f v))
  rwa [List.append_nil] at h

lemma reads_take (host : Host) (limits : Limits) (bytes : List UInt8) :
    Reads (take bytes.length : Decode host _) limits bytes bytes := by
  intro decoder rest _ hb
  have hlen : decoder.position + bytes.length ≤ decoder.input.bytes.length := by
    have h := congrArg List.length hb
    rw [List.length_drop, List.length_append] at h
    have := decoder.position_le
    omega
  refine ⟨{ decoder with position := decoder.position + bytes.length, position_le := hlen },
    ?_, rfl, rfl, rfl⟩
  rw [take, if_pos (Nat.lt_of_le_of_lt hlen decoder.input.length_lt), dif_pos hlen, hb,
    List.take_left]

lemma reads_checkLength {length : ℕ} (h : length ≤ limits.maximumCollectionLength) :
    Reads (checkLength length : Decode host _) limits [] () := by
  intro decoder rest hl _
  exact ⟨decoder, if_neg (by have := hl.1; omega), rfl, rfl, rfl⟩

lemma reads_tryReserveExact {length : ℕ} (h : limits.grants length = true) :
    Reads (tryReserveExact length : Decode host _) limits [] () := by
  intro decoder rest hl _
  exact ⟨decoder, if_pos (hl.2 _ h), rfl, rfl, rfl⟩

/-! ### Stability -/

lemma stable_pure (v : α) : Stable (pure v : Decode host α) := by
  intro decoder w decoder' h
  obtain ⟨rfl, rfl⟩ : v = w ∧ decoder = decoder' := by
    cases h
    exact ⟨rfl, rfl⟩
  exact ⟨[], _, rfl, ⟨rfl, rfl, rfl⟩, reads_pure _ _⟩

lemma stable_throw (e : StateDecodeError) : Stable (throw e : Decode host α) := by
  intro decoder v decoder' h
  cases h

lemma stable_bind {k : α → Decode host β} (hm : Stable m) (hk : ∀ v, Stable (k v)) :
    Stable (m >>= k) := by
  intro decoder w decoder'' h
  change (m decoder >>= fun p => k p.1 p.2) = _ at h
  cases hv : m decoder with
  | error e => rw [hv] at h; cases h
  | ok p =>
    obtain ⟨v, decoder'⟩ := p
    rw [hv] at h
    obtain ⟨bytes, rest, hb, ha, hr⟩ := hm decoder v decoder' hv
    obtain ⟨bytes', rest', hb', ha', hr'⟩ := hk v decoder' w decoder'' h
    rw [ha.drop hb] at hb'
    refine ⟨bytes ++ bytes', rest', by rw [hb, hb', List.append_assoc], ?_, ?_⟩
    · rw [List.length_append]
      exact ha.trans ha'
    · exact reads_bind hr (ha.2.1 ▸ hr')

lemma stable_map (f : α → β) (hm : Stable m) :
    Stable (do let a ← m; return f a) := stable_bind hm fun _ => stable_pure _

lemma stable_take (n : ℕ) : Stable (take n : Decode host _) := by
  intro decoder v decoder' h
  unfold take at h
  split_ifs at h with h1 h2
  obtain ⟨rfl, rfl⟩ : (decoder.input.bytes.drop decoder.position).take n = v ∧ _ = decoder' := by
    simpa using h
  have hn : ((decoder.input.bytes.drop decoder.position).take n).length = n := by
    rw [List.length_take, List.length_drop]
    omega
  refine ⟨_, _, (List.take_append_drop n _).symm, ⟨rfl, rfl, by rw [hn]⟩, ?_⟩
  have := reads_take host decoder.limits ((decoder.input.bytes.drop decoder.position).take n)
  rwa [hn] at this

lemma stable_checkLength (length : ℕ) : Stable (checkLength length : Decode host _) := by
  intro decoder v decoder' h
  unfold checkLength at h
  split_ifs at h with hl
  obtain rfl : decoder = decoder' := by simpa using h
  exact ⟨[], _, rfl, ⟨rfl, rfl, rfl⟩, reads_checkLength (Nat.le_of_not_lt hl)⟩

lemma stable_tryReserveExact (length : ℕ) : Stable (tryReserveExact length : Decode host _) := by
  intro decoder v decoder' h
  unfold tryReserveExact at h
  split_ifs at h with hg
  obtain rfl : decoder = decoder' := by simpa using h
  exact ⟨[], _, rfl, ⟨rfl, rfl, rfl⟩, reads_tryReserveExact hg⟩

/-! ### Codecs -/

open Neetan.LittleEndian Neetan.OrderedMap

/-- How a state is encoded, and how it is decoded. -/
structure StateCodec (host : Host) (α : Type) where
  encodeState : α → List UInt8
  decodeState : Decode host α

/-- The fixed-width integers. -/
inductive IntegerType
  | u8 | u16 | u32 | u64 | u128 | i8 | i16 | i32 | i64 | i128

def IntegerType.bytes : IntegerType → ℕ
  | .u8 | .i8 => 1
  | .u16 | .i16 => 2
  | .u32 | .i32 => 4
  | .u64 | .i64 => 8
  | .u128 | .i128 => 16

/-- A float, as its bits. -/
structure BitFloat (width : ℕ) where
  bits : BitVec width

variable {σ ε κ : Type}

/-- A sequence whose length is a `usize`. -/
structure Vec (host : Host) (α : Type) where
  toList : List α
  length_lt : toList.length < host.usizeSize

abbrev VecDeque := Vec
abbrev BoxedSlice := Vec

/-- A map whose size is a `usize`. -/
structure StateMap (host : Host) (κ β : Type) [LinearOrder κ] where
  map : BTreeMap κ β
  size_lt : map.size < host.usizeSize

abbrev StateSet (host : Host) (κ : Type) [LinearOrder κ] := StateMap host κ Unit

/-- A string whose byte length is a `usize`. -/
structure StateString (host : Host) where
  text : String
  size_lt : text.toByteArray.size < host.usizeSize

/-- The variants of a fieldless enum and their tags, in source order. -/
structure EnumTags (ε : Type) where
  variants : List (BitVec 32 × ε)
  tag : ε → BitVec 32
  tag_mem : ∀ e, (tag e, e) ∈ variants
  tags_nodup : (variants.map Prod.fst).Nodup

def integer (host : Host) (t : IntegerType) : StateCodec host (BitVec (8 * t.bytes)) where
  encodeState value := toLe t.bytes value.toNat
  decodeState := do
    let bytes ← take t.bytes
    return BitVec.ofNat _ (fromLe bytes)

def u8 : StateCodec host (BitVec 8) := integer host .u8

def usize : StateCodec host (Fin host.usizeSize) where
  encodeState value := (integer host .u64).encodeState (BitVec.ofNat _ value)
  decodeState := do
    let value ← (integer host .u64).decodeState
    if h : value.toNat < host.usizeSize then return ⟨value.toNat, h⟩
    else throw .integerOutOfRange

def bool : StateCodec host Bool where
  encodeState value := (integer host .u8).encodeState (BitVec.ofNat _ value.toNat)
  decodeState := do
    let tag ← (integer host .u8).decodeState
    match tag.toNat with
    | 0 => return false
    | 1 => return true
    | _ => throw .invalidTag

def f32 : StateCodec host (BitFloat 32) where
  encodeState value := (integer host .u32).encodeState value.bits
  decodeState := do
    let bits ← (integer host .u32).decodeState
    return ⟨bits⟩

def f64 : StateCodec host (BitFloat 64) where
  encodeState value := (integer host .u64).encodeState value.bits
  decodeState := do
    let bits ← (integer host .u64).decodeState
    return ⟨bits⟩

def option (state : StateCodec host α) : StateCodec host (Option α) where
  encodeState
    | some value => (integer host .u8).encodeState 1 ++ state.encodeState value
    | none => (integer host .u8).encodeState 0
  decodeState := do
    let tag ← (integer host .u8).decodeState
    match tag.toNat with
    | 0 => return none
    | 1 => do
      let value ← state.decodeState
      return some value
    | _ => throw .invalidTag

def pair (first : StateCodec host α) (second : StateCodec host β) : StateCodec host (α × β) where
  encodeState value := first.encodeState value.1 ++ second.encodeState value.2
  decodeState := do
    let a ← first.decodeState
    let b ← second.decodeState
    return (a, b)

def encodeAll (state : StateCodec host α) (values : List α) : List UInt8 :=
  values.flatMap state.encodeState

/-- The decoded values, one after the other. -/
def decodeN (state : StateCodec host α) : (n : ℕ) → Decode host (List.Vector α n)
  | 0 => return List.Vector.nil
  | n + 1 => do
    let value ← state.decodeState
    let values ← decodeN state n
    return value ::ᵥ values

def vec (state : StateCodec host α) : StateCodec host (Vec host α) where
  encodeState values :=
    usize.encodeState ⟨values.toList.length, values.length_lt⟩ ++ encodeAll state values.toList
  decodeState := do
    let length ← usize.decodeState
    checkLength length
    tryReserveExact length
    let values ← decodeN state length
    return ⟨values.toList, by rw [List.Vector.toList_length]; exact length.isLt⟩

def vecDeque (state : StateCodec host α) : StateCodec host (VecDeque host α) := vec state

/-- The map with more decoded entries, whose keys must be new. -/
def decodeEntries [LinearOrder κ] (key : Decode host κ) (value : Decode host β) :
    (n : ℕ) → (values : BTreeMap κ β) →
      Decode host {map : BTreeMap κ β // map.size ≤ values.size + n}
  | 0, values => return ⟨values, le_rfl⟩
  | n + 1, values => do
    let k ← key
    let v ← value
    if (values.insert k v).1.isSome then throw .invalidTag else do
    let map ← decodeEntries key value n (values.insert k v).2
    return ⟨map.1, map.2.trans (by have := values.size_insert_le k v; omega)⟩

/-- The codec of an ordered map, given those of an entry's key and value. -/
def entriesCodec [LinearOrder κ] (key : StateCodec host κ) (value : StateCodec host β) :
    StateCodec host (StateMap host κ β) where
  encodeState values :=
    usize.encodeState ⟨values.map.size, values.size_lt⟩ ++
      encodeAll (pair key value) values.map.entries
  decodeState := do
    let length ← usize.decodeState
    checkLength length
    let map ← decodeEntries key.decodeState value.decodeState length BTreeMap.empty
    return ⟨map.1, map.2.trans_lt (by simp [BTreeMap.empty, BTreeMap.size])⟩

/-- The codec of a structure without fields. -/
def noFields : StateCodec host Unit := ⟨fun _ => [], return ()⟩

def btreeMap [LinearOrder κ] (key : StateCodec host κ) (value : StateCodec host β) :
    StateCodec host (StateMap host κ β) := entriesCodec key value

def btreeSet [LinearOrder κ] (value : StateCodec host κ) : StateCodec host (StateSet host κ) :=
  entriesCodec value noFields

def array (length : ℕ) (state : StateCodec host α) : StateCodec host (List.Vector α length) where
  encodeState values := encodeAll state values.toList
  decodeState := do
    tryReserveExact length
    decodeN state length

def boxedArray (length : ℕ) (state : StateCodec host α) :
    StateCodec host (List.Vector α length) := array length state

def boxedSlice (state : StateCodec host α) : StateCodec host (BoxedSlice host α) := vec state

/-- The string of decoded bytes. -/
def StateString.fromUtf8 (bytes : Vec host (BitVec 8)) : Decode host (StateString host) :=
  let data : ByteArray := ⟨(bytes.toList.map UInt8.ofBitVec).toArray⟩
  if h : data.IsValidUTF8 then
    return ⟨String.fromUTF8 data h, (List.length_map _).trans_lt bytes.length_lt⟩
  else throw .invalidUtf8

def string : StateCodec host (StateString host) where
  encodeState value :=
    usize.encodeState ⟨value.text.toByteArray.size, value.size_lt⟩ ++
      value.text.toByteArray.data.toList
  decodeState := do
    let bytes ← (vec u8).decodeState
    StateString.fromUtf8 bytes

/-- The codec of a structure, whose fields in order are a nested pair. -/
def runtimeState (fields : StateCodec host β) (e : σ ≃ β) : StateCodec host σ where
  encodeState value := fields.encodeState (e value)
  decodeState := do
    let value ← fields.decodeState
    return e.symm value

/-- The variant of a decoded tag. -/
def EnumTags.decodeTag (tags : EnumTags ε) (tag : BitVec 32) : Decode host ε :=
  match tags.variants.lookup tag with
  | some value => return value
  | none => throw .invalidTag

def runtimeStateEnum (tags : EnumTags ε) : StateCodec host ε where
  encodeState value := (integer host .u32).encodeState (tags.tag value)
  decodeState := do
    let tag ← (integer host .u32).decodeState
    tags.decodeTag tag

/-! ### State types -/

/-- The ways to build a type that a payload can hold. -/
inductive StateType (host : Host) : Type → Type 1
  | integer (t : IntegerType) : StateType host (BitVec (8 * t.bytes))
  | usize : StateType host (Fin host.usizeSize)
  | bool : StateType host Bool
  | f32 : StateType host (BitFloat 32)
  | f64 : StateType host (BitFloat 64)
  | option {α : Type} (state : StateType host α) : StateType host (Option α)
  | pair {α β : Type} (first : StateType host α) (second : StateType host β) :
    StateType host (α × β)
  | vec {α : Type} (state : StateType host α) : StateType host (Vec host α)
  | vecDeque {α : Type} (state : StateType host α) : StateType host (VecDeque host α)
  | btreeMap {κ β : Type} [LinearOrder κ] (key : StateType host κ) (value : StateType host β) :
    StateType host (StateMap host κ β)
  | btreeSet {κ : Type} [LinearOrder κ] (value : StateType host κ) :
    StateType host (StateSet host κ)
  | array {α : Type} (length : ℕ) (state : StateType host α) :
    StateType host (List.Vector α length)
  | boxedArray {α : Type} (length : ℕ) (state : StateType host α) :
    StateType host (List.Vector α length)
  | boxedSlice {α : Type} (state : StateType host α) : StateType host (BoxedSlice host α)
  | string : StateType host (StateString host)
  | noFields : StateType host Unit
  | runtimeState {β σ : Type} (fields : StateType host β) (e : σ ≃ β) : StateType host σ
  | runtimeStateEnum {ε : Type} (tags : EnumTags ε) : StateType host ε

def StateType.codec : {α : Type} → StateType host α → StateCodec host α
  | _, .integer t => SaveState.integer _ t
  | _, .usize => SaveState.usize
  | _, .bool => SaveState.bool
  | _, .f32 => SaveState.f32
  | _, .f64 => SaveState.f64
  | _, .option state => SaveState.option state.codec
  | _, .pair first second => SaveState.pair first.codec second.codec
  | _, .vec state => SaveState.vec state.codec
  | _, .vecDeque state => SaveState.vecDeque state.codec
  | _, @StateType.btreeMap _ _ _ _ key value => SaveState.btreeMap key.codec value.codec
  | _, @StateType.btreeSet _ _ _ value => SaveState.btreeSet value.codec
  | _, .array length state => SaveState.array length state.codec
  | _, .boxedArray length state => SaveState.boxedArray length state.codec
  | _, .boxedSlice state => SaveState.boxedSlice state.codec
  | _, .string => SaveState.string
  | _, .noFields => SaveState.noFields
  | _, .runtimeState fields e => SaveState.runtimeState fields.codec e
  | _, .runtimeStateEnum tags => SaveState.runtimeStateEnum tags

def encodeRuntimeState (state : StateType host α) (value : α) : List UInt8 :=
  state.codec.encodeState value

def decodeRuntimeState (state : StateType host α) (input : Payload host) (limits : Limits) :
    Except StateDecodeError α := do
  let (value, decoder) ← state.codec.decodeState (StateDecoder.new input limits)
  if decoder.isFinished then return value else throw .trailingBytes

end Neetan.SaveState
