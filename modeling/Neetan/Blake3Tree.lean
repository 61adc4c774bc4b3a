import Neetan.Blake3
import Neetan.BinaryCounter

/-!
A chunk that is filled piece by piece, the tree over a whole input, and the stack of the hasher.

After any pieces a chunk has compressed all blocks but the last, which it holds padded with
zeros. The next piece first compresses that block if it is full. The entries of the stack that
count are the chaining values of the complete subtrees, and folding them onto the last chunk
gives the root.
-/

namespace Neetan.Blake3

/-! ### Chunks at Once -/

def padded (bytes : List UInt8) : List UInt8 :=
  bytes ++ List.replicate (blockSize - bytes.length) 0

/-- The flag of a block by its place in the chunk. -/
def blockStart (i : ℕ) : UInt32 := if i = 0 then chunkStart else 0

/-- The chaining value of a chunk after so many blocks. -/
def chainAfter (key : Words 8) (counter : ℕ) (flags : UInt32) (bytes : List UInt8) : ℕ → Words 8
  | 0 => key
  | i + 1 => first8Words (compress (chainAfter key counter flags bytes i)
      (wordsFromLittleEndianBytes ((bytes.drop (blockSize * i)).take blockSize)) counter blockSize
      (flags ||| blockStart i))

/-- The place of the last block, which is never empty but in an empty chunk. -/
def lastBlock (length : ℕ) : ℕ := (length - 1) / blockSize

/-- The output of a chunk: its last block is padded and not yet compressed. -/
def chunkOutput (key : Words 8) (flags : UInt32) (counter : ℕ) (bytes : List UInt8) : Output where
  inputChainingValue := chainAfter key counter flags bytes (lastBlock bytes.length)
  blockWords :=
    wordsFromLittleEndianBytes (padded (bytes.drop (blockSize * lastBlock bytes.length)))
  counter := counter
  blockLen := bytes.length - blockSize * lastBlock bytes.length
  flags := flags ||| blockStart (lastBlock bytes.length) ||| chunkEnd

/-! ### Blocks -/

variable {bytes : List UInt8} {h : Hasher}

lemma padded_full (h : bytes.length = blockSize) : padded bytes = bytes := by
  rw [padded, h, Nat.sub_self, List.replicate_zero, List.append_nil]

lemma chainAfter_append (key : Words 8) (counter : ℕ) (flags : UInt32) (more : List UInt8) {i : ℕ}
    (h : blockSize * i ≤ bytes.length) :
    chainAfter key counter flags (bytes ++ more) i = chainAfter key counter flags bytes i := by
  induction i with
  | zero => rfl
  | succ i ih =>
    rw [Nat.mul_succ] at h
    rw [chainAfter, chainAfter, ih (by omega), List.drop_append_of_le_length (by omega),
      List.take_append_of_le_length (by rw [List.length_drop]; omega)]

namespace ChunkState

lemma toList_copyInto (block : Block) {offset : ℕ} (h : offset + bytes.length ≤ blockSize) :
    (copyInto block offset bytes).toList =
      block.toList.take offset ++ bytes ++ block.toList.drop (offset + bytes.length) := by
  induction bytes generalizing block offset with
  | nil => simp [copyInto]
  | cons byte bytes ih =>
    rw [List.length_cons] at h
    rw [copyInto, ih _ (by omega), Vector.toList_setIfInBounds, List.length_cons]
    have hlen : offset < block.toList.length := by
      rw [Vector.length_toList]
      omega
    rw [List.take_succ_eq_append_getElem (by rwa [List.length_set]), List.getElem_set_self,
      List.take_set_of_le le_rfl, List.drop_set_of_lt (by omega), List.append_assoc,
      List.append_assoc, List.append_assoc, List.cons_append, List.nil_append, List.cons_append,
      show offset + 1 + bytes.length = offset + (bytes.length + 1) by omega]

lemma copyInto_padded {block : Block} {held input : List UInt8}
    (hblock : block.toList = padded held) (h : held.length + input.length ≤ blockSize) :
    (copyInto block held.length input).toList = padded (held ++ input) := by
  rw [toList_copyInto block h, hblock, padded, List.take_left, List.drop_append,
    List.drop_of_length_le (by omega), List.drop_replicate, padded, List.length_append,
    List.nil_append]
  congr 2
  omega

/-! ### Pieces -/

variable {s : ChunkState} {q n : ℕ}

/-- So many bytes have come, and so many blocks are compressed. -/
structure Counts (s : ChunkState) (q n : ℕ) : Prop where
  compressed : s.blocksCompressed = q
  len : s.blockLen = n - blockSize * q

/-- These bytes have come, and so many blocks are compressed. -/
structure Holds (s : ChunkState) (key : Words 8) (counter : ℕ) (flags : UInt32) (q : ℕ)
    (bytes : List UInt8) : Prop where
  chain : s.chainingValue = chainAfter key counter flags bytes q
  counter : s.chunkCounter = counter
  block : s.block.toList = padded (bytes.drop (blockSize * q))
  flags : s.flags = flags

/-- The place and the flags of a chunk stay as they are. -/
def Keeps (s t : ChunkState) : Prop := t.chunkCounter = s.chunkCounter ∧ t.flags = s.flags

lemma counts_new (key : Words 8) (counter : ℕ) (flags : UInt32) :
    (new key counter flags).Counts (lastBlock 0) 0 := ⟨rfl, rfl⟩

lemma holds_new (key : Words 8) (counter : ℕ) (flags : UInt32) :
    (new key counter flags).Holds key counter flags (lastBlock 0) [] :=
  ⟨rfl, rfl, Vector.toList_replicate, rfl⟩

lemma Counts.total (h : s.Counts (lastBlock n) n) : s.len = n := by
  have hle : blockSize * lastBlock n ≤ n := (Nat.mul_div_le _ _).trans (Nat.sub_le n 1)
  unfold ChunkState.len
  rw [h.compressed, h.len, Nat.add_sub_cancel' hle]

lemma output_eq {key : Words 8} {counter : ℕ} {flags : UInt32}
    (hc : s.Counts (lastBlock bytes.length) bytes.length)
    (h : s.Holds key counter flags (lastBlock bytes.length) bytes) :
    s.output = chunkOutput key flags counter bytes := by
  rw [output, chunkOutput, h.chain, h.counter, h.block, h.flags, hc.len, startFlag, hc.compressed]
  rfl

lemma makeRoom_spec (hc : s.Counts (lastBlock n) n) (hn : n ≤ chunkSize) :
    ∃ t, s.makeRoom = some t ∧ t.Counts (n / blockSize) n ∧ s.Keeps t ∧
      ∀ key counter flags bytes, bytes.length = n →
        s.Holds key counter flags (lastBlock n) bytes →
        t.Holds key counter flags (n / blockSize) bytes := by
  have hlen := hc.len
  unfold lastBlock blockSize at hlen
  unfold chunkSize at hn
  by_cases hfull : s.blockLen = blockSize
  · have hq : lastBlock n + 1 = n / blockSize := by
      unfold lastBlock
      unfold blockSize at hfull ⊢
      omega
    have hadd : MachineInt.checkedAdd 8 s.blocksCompressed 1 = some (n / blockSize) := by
      refine MachineInt.checkedAdd_eq_some.2 ⟨hc.compressed ▸ hq, ?_⟩
      unfold blockSize
      omega
    rw [makeRoom, if_pos hfull, compressBlock, hadd]
    refine ⟨_, rfl, ⟨rfl, ?_⟩, ⟨rfl, rfl⟩,
      fun key counter flags bytes hbytes h => ⟨?_, h.counter, ?_, h.flags⟩⟩
    · change 0 = n - blockSize * (n / blockSize)
      unfold blockSize at hfull ⊢
      omega
    · have hblock : (bytes.drop (blockSize * lastBlock n)).length = blockSize := by
        rw [List.length_drop, hbytes, ← hc.len, hfull]
      change first8Words (compress s.chainingValue _ s.chunkCounter blockSize _) = _
      rw [← hq, chainAfter, h.chain, h.block, padded_full hblock, h.counter, h.flags, startFlag,
        hc.compressed, List.take_of_length_le hblock.le]
      rfl
    · have hnone : blockSize * (n / blockSize) = bytes.length := by
        rw [hbytes]
        unfold blockSize at hfull ⊢
        omega
      change (Vector.replicate blockSize (0 : UInt8)).toList = _
      rw [hnone, List.drop_length, Vector.toList_replicate]
      rfl
  · have hq : lastBlock n = n / blockSize := by
      unfold lastBlock
      unfold blockSize at hfull ⊢
      omega
    rw [makeRoom, if_neg hfull, ← hq]
    exact ⟨s, rfl, hc, ⟨rfl, rfl⟩, fun _ _ _ _ _ h => h⟩

lemma absorb_spec {input : List UInt8} (hinput : input ≠ []) (hc : s.Counts (lastBlock n) n)
    (hn : n + input.length ≤ chunkSize) :
    ∃ t k, 0 < k ∧ k ≤ input.length ∧ s.absorb input = some (t, input.drop k) ∧
      t.Counts (lastBlock (n + k)) (n + k) ∧ s.Keeps t ∧
      ∀ key counter flags bytes, bytes.length = n →
        s.Holds key counter flags (lastBlock n) bytes →
        t.Holds key counter flags (lastBlock (n + k)) (bytes ++ input.take k) := by
  have hpos := List.length_pos_iff.2 hinput
  obtain ⟨t, hroom, ht, hkeeps, hholds⟩ := makeRoom_spec hc (by omega)
  have hlen : t.blockLen = n % blockSize := by
    rw [ht.len, Nat.mod_def]
  have hlt : n % blockSize < blockSize := Nat.mod_lt _ (by decide)
  have hwant : MachineInt.checkedSub blockSize t.blockLen = some (blockSize - n % blockSize) :=
    MachineInt.checkedSub_eq_some.2 ⟨hlen ▸ hlt.le, by rw [hlen]⟩
  obtain ⟨k, hk⟩ : ∃ k, k = min (blockSize - n % blockSize) input.length := ⟨_, rfl⟩
  have hadd : MachineInt.checkedAdd 8 t.blockLen k = some (n % blockSize + k) := by
    refine MachineInt.checkedAdd_eq_some.2 ⟨by rw [hlen], ?_⟩
    unfold blockSize at hk hlt ⊢
    omega
  have hq : lastBlock (n + k) = n / blockSize := by
    unfold lastBlock
    unfold blockSize at hk hlt ⊢
    omega
  refine ⟨{ t with
      block := copyInto t.block t.blockLen (input.take k), blockLen := n % blockSize + k },
    k, by omega, by omega, ?_, ⟨ht.compressed.trans hq.symm, ?_⟩, hkeeps, ?_⟩
  · rw [absorb, hroom]
    change (MachineInt.checkedSub blockSize t.blockLen).bind _ = _
    rw [hwant]
    change (MachineInt.checkedAdd 8 t.blockLen
      (min (blockSize - n % blockSize) input.length)).bind _ = _
    rw [← hk, hadd]
    rfl
  · change n % blockSize + k = _
    rw [hq, Nat.mod_def]
    have := Nat.mul_div_le n blockSize
    omega
  · intro key counter flags bytes hbytes h
    have hle : blockSize * (n / blockSize) ≤ bytes.length := hbytes ▸ Nat.mul_div_le n blockSize
    have hroom := hholds key counter flags bytes hbytes h
    have hheld : (bytes.drop (blockSize * (n / blockSize))).length = t.blockLen := by
      rw [List.length_drop, hbytes, ht.len]
    rw [hq]
    refine ⟨hroom.chain.trans (chainAfter_append key counter flags _ hle).symm, hroom.counter, ?_,
      hroom.flags⟩
    change (copyInto t.block t.blockLen (input.take k)).toList = _
    rw [List.drop_append_of_le_length hle, ← hheld]
    refine copyInto_padded hroom.block ?_
    rw [hheld, hlen, List.length_take]
    omega

/-- **Filling a chunk in pieces is filling it at once.** -/
theorem update_spec {input : List UInt8} (hc : s.Counts (lastBlock n) n)
    (hn : n + input.length ≤ chunkSize) :
    ∃ t, s.update input = some t ∧ t.Counts (lastBlock (n + input.length)) (n + input.length) ∧
      s.Keeps t ∧
      ∀ key counter flags bytes, bytes.length = n →
        s.Holds key counter flags (lastBlock n) bytes →
        t.Holds key counter flags (lastBlock (n + input.length)) (bytes ++ input) := by
  induction hlength : input.length using Nat.strong_induction_on generalizing s n input with
  | _ length ih =>
    subst hlength
    by_cases hinput : input = []
    · subst hinput
      refine ⟨s, by rw [update, dif_pos rfl], hc, ⟨rfl, rfl⟩,
        fun key counter flags bytes _ h => ?_⟩
      rwa [List.append_nil]
    · obtain ⟨t, k, hpos, hk, habsorb, ht, hkeeps, hholds⟩ := absorb_spec hinput hc hn
      obtain ⟨t', hupdate, ht', hkeeps', hholds'⟩ := @ih (input.drop k).length
        (by rw [List.length_drop]; omega) t (n + k) (input.drop k) ht
        (by rw [List.length_drop]; omega) rfl
      have hsum : n + k + (input.drop k).length = n + input.length := by
        rw [List.length_drop]
        omega
      rw [hsum] at ht' hholds'
      refine ⟨t', ?_, ht', ⟨hkeeps'.1.trans hkeeps.1, hkeeps'.2.trans hkeeps.2⟩,
        fun key counter flags bytes hbytes h => ?_⟩
      · rw [update, dif_neg hinput, habsorb]
        exact hupdate
      · have hnow := hholds' key counter flags _ (by
          rw [List.length_append, hbytes, List.length_take, min_eq_left hk])
          (hholds key counter flags bytes hbytes h)
        rwa [List.append_assoc, List.take_append_drop] at hnow

end ChunkState

open BinaryCounter

/-! ### The Tree -/

def chunkLeaf (key : Words 8) (flags : UInt32) (bytes : List UInt8) (i : ℕ) : Output :=
  chunkOutput key flags i ((bytes.drop (chunkSize * i)).take chunkSize)

def parentNode (key : Words 8) (flags : UInt32) (left right : Output) : Output :=
  parentOutput key flags left.chainingValue right.chainingValue

/-- The place of the last chunk, which is never empty but for an empty input. -/
def lastChunk (length : ℕ) : ℕ := (length - 1) / chunkSize

/-- The root over all chunks of an input. -/
def treeOutput (key : Words 8) (flags : UInt32) (bytes : List UInt8) : Output :=
  subtree (parentNode key flags) (chunkLeaf key flags bytes) 0 (lastChunk bytes.length + 1)

/-- The bytes of the root; only they are made with the root flag. -/
def hash (key : Words 8) (flags : UInt32) (bytes : List UInt8) (count : ℕ) : List UInt8 :=
  (treeOutput key flags bytes).rootOutputBytes count

lemma chunkLeaf_append (key : Words 8) (flags : UInt32) (more : List UInt8) {i : ℕ}
    (h : chunkSize * (i + 1) ≤ bytes.length) :
    chunkLeaf key flags (bytes ++ more) i = chunkLeaf key flags bytes i := by
  rw [Nat.mul_succ] at h
  rw [chunkLeaf, chunkLeaf, List.drop_append_of_le_length (by omega),
    List.take_append_of_le_length (by rw [List.length_drop]; omega)]

/-- The chaining values of the complete subtrees, the smallest first. -/
def waiting (key : Words 8) (flags : UInt32) (bytes : List UInt8) (count : ℕ) : List (Words 8) :=
  pending (parentCv key flags) (fun i => (chunkLeaf key flags bytes i).chainingValue) count

lemma waiting_append (key : Words 8) (flags : UInt32) (more : List UInt8) {count : ℕ}
    (h : chunkSize * count ≤ bytes.length) :
    waiting key flags (bytes ++ more) count = waiting key flags bytes count := by
  refine pending_congr _ fun i hi => ?_
  rw [chunkLeaf_append key flags more ((Nat.mul_le_mul_left _ hi).trans h)]

lemma merge_waiting (key : Words 8) (flags : UInt32) (bytes : List UInt8) (count : ℕ) :
    merge (parentCv key flags) (chunkLeaf key flags bytes count).chainingValue (count + 1)
      (waiting key flags bytes count) = some (waiting key flags bytes (count + 1)) :=
  merge_pending _ (fun i => (chunkLeaf key flags bytes i).chainingValue) count

lemma foldl_waiting (key : Words 8) (flags : UInt32) (bytes : List UInt8) (count : ℕ) :
    (waiting key flags bytes count).foldl
      (fun output left => parentOutput key flags left output.chainingValue)
      (chunkLeaf key flags bytes count) =
      subtree (parentNode key flags) (chunkLeaf key flags bytes) 0 (count + 1) := by
  have hmap : waiting key flags bytes count =
      (pending (parentNode key flags) (chunkLeaf key flags bytes) count).map
        Output.chainingValue := pending_map (fun _ _ => rfl) _ _
  rw [hmap, List.foldl_map]
  exact foldl_pending (parentNode key flags) _ _

/-! ### The Stack -/

namespace Hasher

/-- The entries of the stack that count, the top first. -/
def live (h : Hasher) : List (Words 8) := (h.cvStack.toList.take h.cvStackLen).reverse

lemma length_live (hlen : h.cvStackLen ≤ 54) : h.live.length = h.cvStackLen := by
  rw [live, List.length_reverse, List.length_take, Vector.length_toList, min_eq_left hlen]

lemma popStack_live {top : Words 8} {rest : List (Words 8)} (hlen : h.cvStackLen ≤ 54)
    (hlive : h.live = top :: rest) :
    h.popStack = some (top, { h with cvStackLen := rest.length }) ∧
      ({ h with cvStackLen := rest.length } : Hasher).live = rest := by
  have hlength : h.cvStackLen = rest.length + 1 := by
    rw [← length_live hlen, hlive, List.length_cons]
  have hlt : rest.length < h.cvStack.toList.length := by
    rw [Vector.length_toList]
    omega
  have htake : h.cvStack.toList.take (rest.length + 1) = rest.reverse ++ [top] := by
    rw [← hlength, ← List.reverse_reverse (h.cvStack.toList.take _), ← live, hlive,
      List.reverse_cons]
  rw [List.take_succ_eq_append_getElem hlt] at htake
  obtain ⟨hrest, htop⟩ := List.append_inj' htake rfl
  have hget : h.cvStack[rest.length]? = some top := by
    rw [Vector.getElem?_eq_getElem (by omega)]
    exact congrArg some (List.cons.inj htop).1
  refine ⟨?_, by rw [live, hrest, List.reverse_reverse]⟩
  rw [popStack, hlength]
  change (h.cvStack[rest.length]?).bind _ = _
  rw [hget]
  rfl

lemma pushStack_live (hlen : h.cvStackLen < 54) (cv : Words 8) :
    ∃ h', h.pushStack cv = some h' ∧ h'.live = cv :: h.live ∧
      h'.cvStackLen = h.cvStackLen + 1 ∧ h'.keyWords = h.keyWords ∧ h'.flags = h.flags ∧
      h'.chunkState = h.chunkState := by
  refine ⟨_, dif_pos hlen, ?_, rfl, rfl, rfl, rfl⟩
  have hlt : h.cvStackLen < h.cvStack.toList.length := by
    rw [Vector.length_toList]
    exact hlen
  change ((h.cvStack.set h.cvStackLen cv).toList.take (h.cvStackLen + 1)).reverse = _
  rw [Vector.toList_set, List.take_succ_eq_append_getElem (by rwa [List.length_set]),
    List.getElem_set_self, List.take_set_of_le le_rfl, List.reverse_append, live]
  rfl

lemma addChunkChainingValue_live {newCv : Words 8} {total : ℕ} {stack : List (Words 8)}
    (hlen : h.cvStackLen ≤ 54) (hstack : stack.length ≤ 54)
    (hmerge : merge (parentCv h.keyWords h.flags) newCv total h.live = some stack) :
    ∃ h', h.addChunkChainingValue newCv total = some h' ∧ h'.live = stack ∧
      h'.cvStackLen = stack.length ∧ h'.keyWords = h.keyWords ∧ h'.flags = h.flags ∧
      h'.chunkState = h.chunkState := by
  induction hlive : h.live generalizing h newCv total with
  | nil =>
    rw [hlive, merge] at hmerge
    split at hmerge
    case isTrue hodd =>
      have hempty : h.cvStackLen = 0 := by
        rw [← length_live hlen, hlive, List.length_nil]
      obtain ⟨h', hpush, hlive', hlen', hkeep⟩ := pushStack_live (h := h) (by omega) newCv
      rw [hlive, Option.some.inj hmerge] at hlive'
      refine ⟨h', ?_, hlive', by rw [hlen', hempty, ← Option.some.inj hmerge]; rfl, hkeep⟩
      rw [addChunkChainingValue, if_neg (by rw [Nat.and_one_is_mod]; omega), hpush]
    case isFalse => cases hmerge
  | cons top rest ih =>
    rw [hlive] at hmerge
    by_cases hodd : total % 2 = 1
    · rw [merge_odd _ hodd] at hmerge
      obtain rfl := Option.some.inj hmerge
      have hlength := length_live hlen
      rw [hlive] at hlength
      rw [List.length_cons, hlength] at hstack
      obtain ⟨h', hpush, hlive', hlen', hkeep⟩ := pushStack_live (h := h) hstack newCv
      rw [hlive] at hlive'
      refine ⟨h', ?_, hlive', by rw [hlen', List.length_cons, hlength], hkeep⟩
      rw [addChunkChainingValue, if_neg (by rw [Nat.and_one_is_mod]; omega), hpush]
    · rw [merge_even _ hodd] at hmerge
      obtain ⟨hpop, hrest⟩ := popStack_live hlen hlive
      have hlength := length_live hlen
      rw [hlive, List.length_cons] at hlength
      have hshorter : rest.length ≤ 54 := by omega
      obtain ⟨h', hadd, hdone⟩ := ih (h := { h with cvStackLen := rest.length }) hshorter
        (by rw [hrest]; exact hmerge) hrest
      refine ⟨h', ?_, hdone⟩
      rw [addChunkChainingValue, if_pos (by rw [Nat.and_one_is_mod]; omega), hpop,
        Nat.shiftRight_one]
      exact hadd

lemma foldParents_eq (h : Hasher) {remaining : ℕ} (hle : remaining ≤ 54) (output : Output) :
    h.foldParents remaining output = some ((h.cvStack.toList.take remaining).reverse.foldl
      (fun output left => parentOutput h.keyWords h.flags left output.chainingValue) output) := by
  induction remaining generalizing output with
  | zero => rfl
  | succ remaining ih =>
    have hlt : remaining < h.cvStack.toList.length := by
      rw [Vector.length_toList]
      omega
    rw [foldParents, Vector.getElem?_eq_getElem (by omega)]
    change h.foldParents remaining _ = _
    rw [ih (by omega), List.take_succ_eq_append_getElem hlt, List.reverse_append]
    rfl

end Hasher

end Neetan.Blake3
