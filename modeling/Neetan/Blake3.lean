import Neetan.LittleEndian
import Neetan.MachineInt

/-!
The incremental BLAKE3 hasher.

A buffer or a chunk that is full is compressed when more input arrives. Numbers that leave their
width, and places outside an array, have no result.
-/

namespace Neetan.Blake3

open MachineInt LittleEndian

/-- `BLOCK_LEN` -/
def blockSize : ℕ := 64

/-- `CHUNK_LEN` -/
def chunkSize : ℕ := 1024

def chunkStart : UInt32 := (1 : UInt32) <<< 0
def chunkEnd : UInt32 := (1 : UInt32) <<< 1
def parent : UInt32 := (1 : UInt32) <<< 2
def root : UInt32 := (1 : UInt32) <<< 3
def keyedHash : UInt32 := (1 : UInt32) <<< 4
def deriveKeyContext : UInt32 := (1 : UInt32) <<< 5
def deriveKeyMaterial : UInt32 := (1 : UInt32) <<< 6

abbrev Words (n : ℕ) := Vector UInt32 n

abbrev Block := Vector UInt8 blockSize

/-! ### Compression -/

def iv : Words 8 :=
  #v[0x6A09E667, 0xBB67AE85, 0x3C6EF372, 0xA54FF53A, 0x510E527F, 0x9B05688C, 0x1F83D9AB, 0x5BE0CD19]

def msgSchedule : Vector (Vector (Fin 16) 16) 7 :=
  #v[#v[0, 1, 2, 3, 4, 5, 6, 7, 8, 9, 10, 11, 12, 13, 14, 15],
    #v[2, 6, 3, 10, 7, 0, 4, 13, 1, 11, 12, 5, 9, 14, 15, 8],
    #v[3, 4, 10, 12, 13, 2, 7, 14, 6, 5, 9, 0, 11, 15, 8, 1],
    #v[10, 7, 12, 9, 14, 3, 13, 15, 4, 0, 11, 2, 5, 8, 1, 6],
    #v[12, 13, 9, 11, 15, 10, 14, 8, 7, 2, 5, 3, 0, 1, 6, 4],
    #v[9, 14, 11, 5, 8, 12, 15, 1, 13, 3, 0, 10, 2, 6, 4, 7],
    #v[11, 15, 5, 0, 1, 9, 8, 6, 14, 10, 2, 12, 3, 4, 7, 13]]

def rotateRight (x count : UInt32) : UInt32 := x >>> count ||| x <<< (32 - count)

def g (state : Words 16) (a b c d : Fin 16) (mx my : UInt32) : Words 16 :=
  let state := state.set a.1 (state[a] + state[b] + mx) a.2
  let state := state.set d.1 (rotateRight (state[d] ^^^ state[a]) 16) d.2
  let state := state.set c.1 (state[c] + state[d]) c.2
  let state := state.set b.1 (rotateRight (state[b] ^^^ state[c]) 12) b.2
  let state := state.set a.1 (state[a] + state[b] + my) a.2
  let state := state.set d.1 (rotateRight (state[d] ^^^ state[a]) 8) d.2
  let state := state.set c.1 (state[c] + state[d]) c.2
  state.set b.1 (rotateRight (state[b] ^^^ state[c]) 7) b.2

def round (m : Words 16) (state : Words 16) (s : Vector (Fin 16) 16) : Words 16 :=
  -- the columns
  let state := g state 0 4 8 12 m[s[0]] m[s[1]]
  let state := g state 1 5 9 13 m[s[2]] m[s[3]]
  let state := g state 2 6 10 14 m[s[4]] m[s[5]]
  let state := g state 3 7 11 15 m[s[6]] m[s[7]]
  -- the diagonals
  let state := g state 0 5 10 15 m[s[8]] m[s[9]]
  let state := g state 1 6 11 12 m[s[10]] m[s[11]]
  let state := g state 2 7 8 13 m[s[12]] m[s[13]]
  g state 3 4 9 14 m[s[14]] m[s[15]]

def compress (cv : Words 8) (blockWords : Words 16) (counter blockLen : ℕ) (flags : UInt32) :
    Words 16 :=
  let state : Words 16 :=
    #v[cv[0], cv[1], cv[2], cv[3], cv[4], cv[5], cv[6], cv[7], iv[0], iv[1], iv[2], iv[3],
      UInt32.ofNat counter, UInt32.ofNat (counter >>> 32), UInt32.ofNat blockLen, flags]
  let state := msgSchedule.foldl (round blockWords) state
  Vector.ofFn fun i =>
    if h : i.1 < 8 then state[i.1] ^^^ state[i.1 + 8] else state[i.1] ^^^ cv[i.1 - 8]

def first8Words (output : Words 16) : Words 8 := Vector.ofFn fun i => output[i.1]

def wordsFromLittleEndianBytes {n : ℕ} (bytes : List UInt8) : Words n :=
  Vector.ofFn fun i => UInt32.ofNat (fromLe ((bytes.drop (4 * i)).take 4))

/-! ### Outputs -/

/-- A node before the choice between a chaining value and the root's bytes. -/
structure Output where
  inputChainingValue : Words 8
  blockWords : Words 16
  counter : ℕ
  blockLen : ℕ
  flags : UInt32

namespace Output

def chainingValue (o : Output) : Words 8 :=
  first8Words (compress o.inputChainingValue o.blockWords o.counter o.blockLen o.flags)

/-- The first bytes of the output blocks. -/
def rootOutputBytes (o : Output) (count : ℕ) : List UInt8 :=
  ((List.range ((count + 63) / 64)).flatMap fun outputBlockCounter =>
    (compress o.inputChainingValue o.blockWords outputBlockCounter o.blockLen
      (o.flags ||| root)).toList.flatMap fun word => toLe 4 word.toNat).take count

end Output

def parentOutput (key : Words 8) (flags : UInt32) (left right : Words 8) : Output where
  inputChainingValue := key
  blockWords := left ++ right
  counter := 0
  blockLen := blockSize
  flags := parent ||| flags

def parentCv (key : Words 8) (flags : UInt32) (left right : Words 8) : Words 8 :=
  (parentOutput key flags left right).chainingValue

/-! ### Chunks -/

structure ChunkState where
  chainingValue : Words 8
  chunkCounter : ℕ
  block : Block
  blockLen : ℕ
  blocksCompressed : ℕ
  flags : UInt32

namespace ChunkState

def new (key : Words 8) (chunkCounter : ℕ) (flags : UInt32) : ChunkState :=
  ⟨key, chunkCounter, Vector.replicate blockSize 0, 0, 0, flags⟩

def len (s : ChunkState) : ℕ := blockSize * s.blocksCompressed + s.blockLen

def startFlag (s : ChunkState) : UInt32 := if s.blocksCompressed = 0 then chunkStart else 0

/-- Input bytes go into a block from an offset on. -/
def copyInto (block : Block) : ℕ → List UInt8 → Block
  | _, [] => block
  | offset, byte :: bytes => copyInto (block.setIfInBounds offset byte) (offset + 1) bytes

/-- A full block is compressed; more input is coming. -/
def compressBlock (s : ChunkState) : Option ChunkState := do
  let blocksCompressed ← checkedAdd 8 s.blocksCompressed 1
  return { s with
    chainingValue := first8Words (compress s.chainingValue
      (wordsFromLittleEndianBytes s.block.toList) s.chunkCounter blockSize
      (s.flags ||| s.startFlag))
    blocksCompressed := blocksCompressed
    block := Vector.replicate blockSize 0
    blockLen := 0 }

/-- The block has room for input afterwards. -/
def makeRoom (s : ChunkState) : Option ChunkState :=
  if s.blockLen = blockSize then s.compressBlock else some s

/-- One round of `update`, with the input that is left. -/
def absorb (s : ChunkState) (input : List UInt8) : Option (ChunkState × List UInt8) := do
  let s ← s.makeRoom
  let want ← checkedSub blockSize s.blockLen
  let take := min want input.length
  let blockLen ← checkedAdd 8 s.blockLen take
  return ({ s with block := copyInto s.block s.blockLen (input.take take), blockLen := blockLen },
    input.drop take)

lemma absorb_shorter {s s' : ChunkState} {input rest : List UInt8} (hinput : input ≠ [])
    (h : s.absorb input = some (s', rest)) : rest.length < input.length := by
  have hpos := List.length_pos_iff.2 hinput
  obtain ⟨now, hnow, h⟩ := Option.bind_eq_some_iff.1 h
  have hne : now.blockLen ≠ blockSize := by
    unfold makeRoom at hnow
    split at hnow
    case isTrue =>
      obtain ⟨_, _, hnow⟩ := Option.bind_eq_some_iff.1 hnow
      rw [← Option.some.inj hnow]
      exact (by decide : 0 ≠ blockSize)
    case isFalse hfull => rwa [← Option.some.inj hnow]
  obtain ⟨want, hwant, h⟩ := Option.bind_eq_some_iff.1 h
  obtain ⟨_, _, h⟩ := Option.bind_eq_some_iff.1 h
  obtain ⟨hle, rfl⟩ := checkedSub_eq_some.1 hwant
  obtain ⟨_, rfl⟩ := Prod.ext_iff.1 (Option.some.inj h)
  rw [List.length_drop]
  omega

def update (s : ChunkState) (input : List UInt8) : Option ChunkState :=
  if _hinput : input = [] then some s
  else match _h : s.absorb input with
    | none => none
    | some (s', rest) => s'.update rest
termination_by input.length
decreasing_by exact absorb_shorter _hinput _h

def output (s : ChunkState) : Output where
  inputChainingValue := s.chainingValue
  blockWords := wordsFromLittleEndianBytes s.block.toList
  counter := s.chunkCounter
  blockLen := s.blockLen
  flags := s.flags ||| s.startFlag ||| chunkEnd

end ChunkState

/-! ### The Hasher -/

abbrev Stack := Vector (Words 8) 54

/-- The progress of a hash as a save file has it. -/
structure HasherState where
  chunkChainingValue : Words 8
  chunkCounter : UInt64
  block : Block
  blockLen : UInt8
  blocksCompressed : UInt8
  chunkFlags : UInt32
  keyWords : Words 8
  chainingValueStack : Stack
  chainingValueStackLen : UInt8
  flags : UInt32

structure Hasher where
  chunkState : ChunkState
  keyWords : Words 8
  cvStack : Stack
  cvStackLen : ℕ
  flags : UInt32

namespace Hasher

def newInternal (key : Words 8) (flags : UInt32) : Hasher :=
  ⟨.new key 0 flags, key, Vector.replicate 54 (Vector.replicate 8 0), 0, flags⟩

def captureState (h : Hasher) : HasherState where
  chunkChainingValue := h.chunkState.chainingValue
  chunkCounter := UInt64.ofNat h.chunkState.chunkCounter
  block := h.chunkState.block
  blockLen := UInt8.ofNat h.chunkState.blockLen
  blocksCompressed := UInt8.ofNat h.chunkState.blocksCompressed
  chunkFlags := h.chunkState.flags
  keyWords := h.keyWords
  chainingValueStack := h.cvStack
  chainingValueStackLen := UInt8.ofNat h.cvStackLen
  flags := h.flags

def fromState (state : HasherState) : Option Hasher :=
  if blockSize < state.blockLen.toNat || chunkSize / blockSize ≤ state.blocksCompressed.toNat ||
      54 < state.chainingValueStackLen.toNat || state.chunkFlags != state.flags then none
  else some
    { chunkState :=
        { chainingValue := state.chunkChainingValue
          chunkCounter := state.chunkCounter.toNat
          block := state.block
          blockLen := state.blockLen.toNat
          blocksCompressed := state.blocksCompressed.toNat
          flags := state.chunkFlags }
      keyWords := state.keyWords
      cvStack := state.chainingValueStack
      cvStackLen := state.chainingValueStackLen.toNat
      flags := state.flags }

def pushStack (h : Hasher) (cv : Words 8) : Option Hasher :=
  if hlen : h.cvStackLen < 54 then
    some { h with cvStack := h.cvStack.set h.cvStackLen cv, cvStackLen := h.cvStackLen + 1 }
  else none

def popStack (h : Hasher) : Option (Words 8 × Hasher) := do
  let cvStackLen ← checkedSub h.cvStackLen 1
  let cv ← h.cvStack[cvStackLen]?
  return (cv, { h with cvStackLen := cvStackLen })

lemma popStack_shorter {h h' : Hasher} {cv : Words 8} (hpop : h.popStack = some (cv, h')) :
    h'.cvStackLen < h.cvStackLen := by
  obtain ⟨len, hlen, hpop⟩ := Option.bind_eq_some_iff.1 hpop
  obtain ⟨_, _, hpop⟩ := Option.bind_eq_some_iff.1 hpop
  obtain ⟨_, rfl⟩ := Prod.ext_iff.1 (Option.some.inj hpop)
  obtain ⟨hle, rfl⟩ := checkedSub_eq_some.1 hlen
  exact Nat.sub_lt hle one_pos

/-- A new chunk completes a subtree for every zero bit at the end of the number of chunks. -/
def addChunkChainingValue (h : Hasher) (newCv : Words 8) (totalChunks : ℕ) : Option Hasher :=
  if totalChunks &&& 1 = 0 then
    match _hpop : h.popStack with
    | none => none
    | some (left, h') =>
      h'.addChunkChainingValue (parentCv h.keyWords h.flags left newCv) (totalChunks >>> 1)
  else h.pushStack newCv
termination_by h.cvStackLen
decreasing_by exact popStack_shorter _hpop

/-- A full chunk goes to the stack; more input is coming. -/
def finishChunk (h : Hasher) : Option Hasher := do
  let chunkCv := h.chunkState.output.chainingValue
  let totalChunks ← checkedAdd 64 h.chunkState.chunkCounter 1
  let h ← h.addChunkChainingValue chunkCv totalChunks
  return { h with chunkState := .new h.keyWords totalChunks h.flags }

/-- The chunk has room for input afterwards. -/
def makeRoom (h : Hasher) : Option Hasher :=
  if h.chunkState.len = chunkSize then h.finishChunk else some h

/-- One round of `update`, with the input that is left. -/
def absorb (h : Hasher) (input : List UInt8) : Option (Hasher × List UInt8) := do
  let h ← h.makeRoom
  let want ← checkedSub chunkSize h.chunkState.len
  let take := min want input.length
  let chunkState ← h.chunkState.update (input.take take)
  return ({ h with chunkState := chunkState }, input.drop take)

lemma absorb_shorter {h h' : Hasher} {input rest : List UInt8} (hinput : input ≠ [])
    (habsorb : h.absorb input = some (h', rest)) : rest.length < input.length := by
  have hpos := List.length_pos_iff.2 hinput
  obtain ⟨now, hnow, habsorb⟩ := Option.bind_eq_some_iff.1 habsorb
  have hne : now.chunkState.len ≠ chunkSize := by
    unfold makeRoom at hnow
    split at hnow
    case isTrue =>
      obtain ⟨_, _, hnow⟩ := Option.bind_eq_some_iff.1 hnow
      obtain ⟨_, _, hnow⟩ := Option.bind_eq_some_iff.1 hnow
      rw [← Option.some.inj hnow]
      exact (by decide : 0 ≠ chunkSize)
    case isFalse hfull => rwa [← Option.some.inj hnow]
  obtain ⟨want, hwant, habsorb⟩ := Option.bind_eq_some_iff.1 habsorb
  obtain ⟨_, _, habsorb⟩ := Option.bind_eq_some_iff.1 habsorb
  obtain ⟨hle, rfl⟩ := checkedSub_eq_some.1 hwant
  obtain ⟨_, rfl⟩ := Prod.ext_iff.1 (Option.some.inj habsorb)
  rw [List.length_drop]
  omega

def update (h : Hasher) (input : List UInt8) : Option Hasher :=
  if _hinput : input = [] then some h
  else match _habsorb : h.absorb input with
    | none => none
    | some (h', rest) => h'.update rest
termination_by input.length
decreasing_by exact absorb_shorter _hinput _habsorb

/-- The parents on the right edge of the tree, with so many still to come. -/
def foldParents (h : Hasher) : ℕ → Output → Option Output
  | 0, output => some output
  | remaining + 1, output => do
    let left ← h.cvStack[remaining]?
    h.foldParents remaining (parentOutput h.keyWords h.flags left output.chainingValue)

def finalize (h : Hasher) (count : ℕ) : Option (List UInt8) := do
  let output ← h.foldParents h.cvStackLen h.chunkState.output
  return output.rootOutputBytes count

def new : Hasher := newInternal iv 0

def newKeyed (key : Vector UInt8 32) : Hasher :=
  newInternal (wordsFromLittleEndianBytes key.toList) keyedHash

def newDeriveKey (context : List UInt8) : Option Hasher := do
  let contextHasher ← (newInternal iv deriveKeyContext).update context
  let contextKey ← contextHasher.finalize 32
  return newInternal (wordsFromLittleEndianBytes contextKey) deriveKeyMaterial

end Hasher

/-! ### Runs -/

/-- A call on a hasher; `restore` goes through `capture_state` and `from_state`. -/
inductive Op
  | update (input : List UInt8)
  | restore
  | finalize (count : ℕ)

/-- The hasher after a call, with the bytes that the call returns. -/
def Hasher.call (h : Hasher) : Op → Option (Hasher × List (List UInt8))
  | .update input => (h.update input).map fun h' => (h', [])
  | .restore => (Hasher.fromState h.captureState).map fun h' => (h', [])
  | .finalize count => (h.finalize count).map fun bytes => (h, [bytes])

def Hasher.run (h : Hasher) : List Op → Option (Hasher × List (List UInt8))
  | [] => some (h, [])
  | op :: ops => do
    let (h', outs) ← h.call op
    let (h'', outs') ← h'.run ops
    return (h'', outs ++ outs')

/-- What has been put in. -/
def inputOf : List Op → List UInt8
  | [] => []
  | .update input :: ops => input ++ inputOf ops
  | _ :: ops => inputOf ops

end Neetan.Blake3
