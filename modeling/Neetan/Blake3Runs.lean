import Neetan.Blake3Tree

/-!
Runs of the incremental hasher.

The numbers of a hasher are fixed by how many bytes have come, however they came, and what it
holds is fixed by the bytes. The number of subtrees on the stack follows from the number of chunks;
a saved state is checked for the range of each number, and not for this relation.
-/

namespace Neetan.Blake3

open BinaryCounter MachineInt

namespace Hasher

variable {h : Hasher} {q n : ℕ}

/-- So many bytes have come, and so many chunks are done. -/
structure Counts (h : Hasher) (q n : ℕ) : Prop where
  chunk : h.chunkState.Counts (lastBlock (n - chunkSize * q)) (n - chunkSize * q)
  counter : h.chunkState.chunkCounter = q
  stack : h.cvStackLen = ones q
  flags : h.chunkState.flags = h.flags

/-- These bytes have come, and so many chunks are done. -/
structure Holds (h : Hasher) (key : Words 8) (flags : UInt32) (q : ℕ) (bytes : List UInt8) :
    Prop where
  chunk : h.chunkState.Holds key q flags (lastBlock (bytes.length - chunkSize * q))
    (bytes.drop (chunkSize * q))
  keyWords : h.keyWords = key
  stack : h.live = waiting key flags bytes q
  flags : h.flags = flags

lemma counts_newInternal (key : Words 8) (flags : UInt32) :
    (newInternal key flags).Counts (lastChunk 0) 0 :=
  ⟨ChunkState.counts_new key 0 flags, rfl, ones_zero.symm, rfl⟩

lemma holds_newInternal (key : Words 8) (flags : UInt32) :
    (newInternal key flags).Holds key flags (lastChunk 0) [] :=
  ⟨ChunkState.holds_new key 0 flags, rfl, (pending_zero _ _).symm, rfl⟩

/-! ### Chunks -/

lemma ones_lastChunk_lt (hn : n < 2 ^ 64) : lastChunk n < 2 ^ 54 := by
  unfold lastChunk chunkSize
  omega

lemma lastChunk_bounds (n : ℕ) : n ≤ chunkSize * lastChunk n + chunkSize ∧
    chunkSize * lastChunk n ≤ n := by
  unfold lastChunk chunkSize
  omega

lemma Counts.chunk_len (hc : h.Counts q n) : h.chunkState.len = n - chunkSize * q :=
  hc.chunk.total

lemma finishChunk_spec (hc : h.Counts q n) (hfull : n = chunkSize * (q + 1))
    (hq : q + 1 < 2 ^ 54) :
    ∃ t, h.finishChunk = some t ∧ t.Counts (q + 1) n ∧
      ∀ key flags bytes, bytes.length = n → h.Holds key flags q bytes →
        t.Holds key flags (q + 1) bytes := by
  have hlen : h.cvStackLen ≤ 54 := hc.stack ▸ ones_le (show q < 2 ^ 54 by omega)
  have hlive : h.live.length = ones q := (length_live hlen).trans hc.stack
  have hadd : checkedAdd 64 h.chunkState.chunkCounter 1 = some (q + 1) :=
    checkedAdd_eq_some.2 ⟨by rw [hc.counter], by omega⟩
  have hnone : n - chunkSize * (q + 1) = 0 := by
    rw [hfull, Nat.sub_self]
  obtain ⟨stack, hmerge, hstack⟩ := merge_ones (parentCv h.keyWords h.flags)
    h.chunkState.output.chainingValue hlive
  obtain ⟨t, hdone, htlive, htlen, hkey, hflags, _⟩ :=
    addChunkChainingValue_live hlen (hstack ▸ ones_le hq) hmerge
  refine ⟨{ t with chunkState := .new t.keyWords (q + 1) t.flags }, ?_, ⟨?_, rfl, ?_, rfl⟩, ?_⟩
  · rw [finishChunk, hadd]
    change (h.addChunkChainingValue _ (q + 1)).bind _ = _
    rw [hdone]
    rfl
  · rw [hnone]
    exact ChunkState.counts_new _ _ _
  · exact htlen.trans hstack
  · intro key flags bytes hbytes hh
    have hdrop : bytes.drop (chunkSize * (q + 1)) = [] :=
      List.drop_of_length_le (by rw [hbytes, hfull])
    have hleaf : h.chunkState.output = chunkLeaf key flags bytes q := by
      have hchunk : (bytes.drop (chunkSize * q)).length = n - chunkSize * q := by
        rw [List.length_drop, hbytes]
      have hcounts := hc.chunk
      have hholds := hh.chunk
      rw [hbytes, ← hchunk] at hholds
      rw [← hchunk] at hcounts
      rw [ChunkState.output_eq hcounts hholds, chunkLeaf, List.take_of_length_le]
      rw [hchunk, hfull, Nat.mul_succ]
      omega
    refine ⟨?_, hkey.trans hh.keyWords, htlive.trans ?_, hflags.trans hh.flags⟩
    · rw [hbytes, hnone, hdrop]
      change ChunkState.Holds (ChunkState.new t.keyWords (q + 1) t.flags) _ _ _ _ _
      rw [hkey, hflags, hh.keyWords, hh.flags]
      exact ChunkState.holds_new key (q + 1) flags
    · rw [hh.stack, hh.keyWords, hh.flags, hleaf, merge_waiting] at hmerge
      exact (Option.some.inj hmerge).symm

lemma makeRoom_spec (hc : h.Counts (lastChunk n) n) (hn : n + 1 < 2 ^ 64) :
    ∃ t, h.makeRoom = some t ∧ t.Counts (n / chunkSize) n ∧
      ∀ key flags bytes, bytes.length = n → h.Holds key flags (lastChunk n) bytes →
        t.Holds key flags (n / chunkSize) bytes := by
  have hlen := hc.chunk_len
  have hbounds := lastChunk_bounds n
  by_cases hfull : h.chunkState.len = chunkSize
  · have hq : lastChunk n + 1 = n / chunkSize := by
      unfold lastChunk
      unfold chunkSize at hfull hlen hbounds ⊢
      omega
    have hsum : n = chunkSize * (lastChunk n + 1) := by
      rw [Nat.mul_succ]
      omega
    obtain ⟨t, hfinish, ht, hholds⟩ := finishChunk_spec hc hsum (by
      rw [hq]
      unfold chunkSize
      omega)
    rw [hq] at ht hholds
    exact ⟨t, by rw [makeRoom, if_pos hfull, hfinish], ht, hholds⟩
  · have hq : lastChunk n = n / chunkSize := by
      unfold lastChunk at hlen hbounds ⊢
      unfold chunkSize at hfull hlen hbounds ⊢
      omega
    rw [makeRoom, if_neg hfull, ← hq]
    exact ⟨h, rfl, hc, fun _ _ _ _ hh => hh⟩

lemma absorb_spec {input : List UInt8} (hinput : input ≠ []) (hc : h.Counts (lastChunk n) n)
    (hn : n + input.length < 2 ^ 64) :
    ∃ t k, 0 < k ∧ k ≤ input.length ∧ h.absorb input = some (t, input.drop k) ∧
      t.Counts (lastChunk (n + k)) (n + k) ∧
      ∀ key flags bytes, bytes.length = n → h.Holds key flags (lastChunk n) bytes →
        t.Holds key flags (lastChunk (n + k)) (bytes ++ input.take k) := by
  have hpos := List.length_pos_iff.2 hinput
  obtain ⟨t, hroom, ht, hholds⟩ := makeRoom_spec hc (by omega)
  have hrest : n - chunkSize * (n / chunkSize) = n % chunkSize := (Nat.mod_def n chunkSize).symm
  have hlt : n % chunkSize < chunkSize := Nat.mod_lt _ (by decide)
  have hlen : t.chunkState.len = n % chunkSize := ht.chunk_len.trans hrest
  have hwant : checkedSub chunkSize t.chunkState.len = some (chunkSize - n % chunkSize) :=
    checkedSub_eq_some.2 ⟨hlen ▸ hlt.le, by rw [hlen]⟩
  obtain ⟨k, hk⟩ : ∃ k, k = min (chunkSize - n % chunkSize) input.length := ⟨_, rfl⟩
  have htake : (input.take k).length = k := by
    rw [List.length_take]
    omega
  have hq : lastChunk (n + k) = n / chunkSize := by
    unfold lastChunk
    unfold chunkSize at hk hlt ⊢
    omega
  have hchunk := ht.chunk
  rw [hrest] at hchunk
  obtain ⟨c, hupdate, hcounts, hkeeps, hc'⟩ := ChunkState.update_spec hchunk
    (show n % chunkSize + (input.take k).length ≤ chunkSize by omega)
  rw [htake] at hcounts hc'
  have hsum : n + k - chunkSize * (n / chunkSize) = n % chunkSize + k := by
    have := Nat.mul_div_le n chunkSize
    omega
  refine ⟨{ t with chunkState := c }, k, by omega, by omega, ?_,
    ⟨?_, by rw [hq]; exact hkeeps.1.trans ht.counter, by rw [hq]; exact ht.stack,
      hkeeps.2.trans ht.flags⟩, ?_⟩
  · rw [absorb, hroom]
    change (checkedSub chunkSize t.chunkState.len).bind _ = _
    rw [hwant]
    change (t.chunkState.update (input.take (min (chunkSize - n % chunkSize) _))).bind _ = _
    rw [← hk, hupdate]
    rfl
  · rw [hq, hsum]
    exact hcounts
  · intro key flags bytes hbytes hh
    have hroomHolds := hholds key flags bytes hbytes hh
    have hle : chunkSize * (n / chunkSize) ≤ bytes.length := hbytes ▸ Nat.mul_div_le n chunkSize
    have hheld := hroomHolds.chunk
    rw [hbytes, hrest] at hheld
    rw [hq]
    refine ⟨?_, hroomHolds.keyWords, ?_, hroomHolds.flags⟩
    · rw [List.length_append, hbytes, htake, hsum, List.drop_append_of_le_length hle]
      exact hc' key _ flags _ (by rw [List.length_drop, hbytes, hrest]) hheld
    · rw [waiting_append key flags _ hle]
      exact hroomHolds.stack

/-- **Input in pieces is input at once.** -/
theorem update_spec {input : List UInt8} (hc : h.Counts (lastChunk n) n)
    (hn : n + input.length < 2 ^ 64) :
    ∃ t, h.update input = some t ∧ t.Counts (lastChunk (n + input.length)) (n + input.length) ∧
      ∀ key flags bytes, bytes.length = n → h.Holds key flags (lastChunk n) bytes →
        t.Holds key flags (lastChunk (n + input.length)) (bytes ++ input) := by
  induction hlength : input.length using Nat.strong_induction_on generalizing h n input with
  | _ length ih =>
    subst hlength
    by_cases hinput : input = []
    · subst hinput
      refine ⟨h, by rw [update, dif_pos rfl], hc, fun key flags bytes _ hh => ?_⟩
      rwa [List.append_nil]
    · obtain ⟨t, k, hpos, hk, habsorb, ht, hholds⟩ := absorb_spec hinput hc hn
      obtain ⟨t', hupdate, ht', hholds'⟩ := @ih (input.drop k).length
        (by rw [List.length_drop]; omega) t (n + k) (input.drop k) ht
        (by rw [List.length_drop]; omega) rfl
      have hsum : n + k + (input.drop k).length = n + input.length := by
        rw [List.length_drop]
        omega
      rw [hsum] at ht' hholds'
      refine ⟨t', ?_, ht', fun key flags bytes hbytes hh => ?_⟩
      · rw [update, dif_neg hinput, habsorb]
        exact hupdate
      · have hnow := hholds' key flags _ (by
          rw [List.length_append, hbytes, List.length_take, min_eq_left hk])
          (hholds key flags bytes hbytes hh)
        rwa [List.append_assoc, List.take_append_drop] at hnow

/-! ### Calls -/

lemma Counts.stack_le (hc : h.Counts (lastChunk n) n) (hn : n < 2 ^ 64) : h.cvStackLen ≤ 54 :=
  hc.stack ▸ ones_le (ones_lastChunk_lt hn)

lemma finalize_eq (hlen : h.cvStackLen ≤ 54) (count : ℕ) :
    ∃ bytes, h.finalize count = some bytes := by
  rw [finalize, foldParents_eq h hlen]
  exact ⟨_, rfl⟩

lemma finalize_hash {key : Words 8} {flags : UInt32} {bytes : List UInt8}
    (hc : h.Counts (lastChunk bytes.length) bytes.length)
    (hh : h.Holds key flags (lastChunk bytes.length) bytes) (hn : bytes.length < 2 ^ 64)
    (count : ℕ) : h.finalize count = some (hash key flags bytes count) := by
  have hbounds := lastChunk_bounds bytes.length
  have hchunk : (bytes.drop (chunkSize * lastChunk bytes.length)).length =
      bytes.length - chunkSize * lastChunk bytes.length := List.length_drop
  have hcounts := hc.chunk
  have hholds := hh.chunk
  rw [← hchunk] at hcounts hholds
  have hleaf : h.chunkState.output = chunkLeaf key flags bytes (lastChunk bytes.length) := by
    rw [ChunkState.output_eq hcounts hholds, chunkLeaf, List.take_of_length_le]
    rw [hchunk]
    omega
  rw [finalize, foldParents_eq h (hc.stack_le hn), ← live, hh.stack, hh.keyWords, hh.flags, hleaf,
    foldl_waiting]
  rfl

lemma fromState_captureState (hc : h.Counts (lastChunk n) n) (hn : n < 2 ^ 64) :
    fromState h.captureState = some h := by
  have hstack := hc.stack_le hn
  have hbounds := lastChunk_bounds n
  have hlast := ones_lastChunk_lt hn
  obtain ⟨m, hm⟩ : ∃ m, m = n - chunkSize * lastChunk n := ⟨_, rfl⟩
  have hchunk := hc.chunk
  rw [← hm] at hchunk
  have hm' : m ≤ chunkSize := by omega
  have hblocks : h.chunkState.blocksCompressed < 16 := by
    rw [hchunk.compressed]
    unfold lastBlock blockSize
    unfold chunkSize at hm'
    omega
  have hblock : h.chunkState.blockLen ≤ blockSize := by
    rw [hchunk.len]
    unfold lastBlock blockSize
    omega
  have e1 : (UInt8.ofNat h.chunkState.blockLen).toNat = h.chunkState.blockLen :=
    UInt8.toNat_ofNat_of_lt' (hblock.trans_lt (by decide))
  have e2 : (UInt8.ofNat h.chunkState.blocksCompressed).toNat = h.chunkState.blocksCompressed :=
    UInt8.toNat_ofNat_of_lt' (hblocks.trans (by decide))
  have e3 : (UInt8.ofNat h.cvStackLen).toNat = h.cvStackLen :=
    UInt8.toNat_ofNat_of_lt' (hstack.trans_lt (by decide))
  have e4 : (UInt64.ofNat h.chunkState.chunkCounter).toNat = h.chunkState.chunkCounter :=
    UInt64.toNat_ofNat_of_lt' (hc.counter ▸ hlast.trans (by decide))
  have hcheck : (blockSize < (captureState h).blockLen.toNat ||
      chunkSize / blockSize ≤ (captureState h).blocksCompressed.toNat ||
      54 < (captureState h).chainingValueStackLen.toNat ||
      (captureState h).chunkFlags != (captureState h).flags) = false := by
    change (blockSize < (UInt8.ofNat h.chunkState.blockLen).toNat ||
      16 ≤ (UInt8.ofNat h.chunkState.blocksCompressed).toNat ||
      54 < (UInt8.ofNat h.cvStackLen).toNat || h.chunkState.flags != h.flags) = false
    rw [e1, e2, e3, hc.flags, bne_self_eq_false, decide_eq_false (not_lt.2 hblock),
      decide_eq_false (by omega), decide_eq_false (by omega)]
    rfl
  rw [fromState, hcheck]
  change some (Hasher.mk _ _ _ _ _) = _
  simp only [captureState, e1, e2, e3, e4]

/-- What the calls that finish return, with these bytes put in before them. -/
def hashes (key : Words 8) (flags : UInt32) : List UInt8 → List Op → List (List UInt8)
  | _, [] => []
  | bytes, .update input :: ops => hashes key flags (bytes ++ input) ops
  | bytes, .restore :: ops => hashes key flags bytes ops
  | bytes, .finalize count :: ops => hash key flags bytes count :: hashes key flags bytes ops

/-- **A run.** Every call has a result, and it depends on the bytes that have come. -/
theorem run_spec {ops : List Op} (hc : h.Counts (lastChunk n) n)
    (hn : n + (inputOf ops).length < 2 ^ 64) :
    ∃ t outs, h.run ops = some (t, outs) ∧
      t.Counts (lastChunk (n + (inputOf ops).length)) (n + (inputOf ops).length) ∧
      ∀ key flags bytes, bytes.length = n → h.Holds key flags (lastChunk n) bytes →
        outs = hashes key flags bytes ops := by
  induction ops generalizing h n with
  | nil => exact ⟨h, [], rfl, hc, fun _ _ _ _ _ => rfl⟩
  | cons op ops ih =>
    cases op with
    | update input =>
      rw [inputOf, List.length_append, ← Nat.add_assoc] at hn ⊢
      obtain ⟨t, hupdate, ht, hholds⟩ := update_spec hc (show n + input.length < 2 ^ 64 by omega)
      obtain ⟨t', outs, hrun, ht', houts⟩ := ih ht hn
      refine ⟨t', outs, ?_, ht', fun key flags bytes hbytes hh => ?_⟩
      · rw [run, call, hupdate]
        change (t.run ops).bind _ = _
        rw [hrun]
        rfl
      · exact houts key flags _ (by rw [List.length_append, hbytes])
          (hholds key flags bytes hbytes hh)
    | restore =>
      obtain ⟨t', outs, hrun, ht', houts⟩ := ih hc hn
      refine ⟨t', outs, ?_, ht', houts⟩
      rw [run, call, fromState_captureState hc (by omega)]
      change (h.run ops).bind _ = _
      rw [hrun]
      rfl
    | finalize count =>
      obtain ⟨t', outs, hrun, ht', houts⟩ := ih hc hn
      obtain ⟨bytes, hbytes⟩ := finalize_eq (hc.stack_le (by omega)) count
      refine ⟨t', bytes :: outs, ?_, ht', fun key flags input hinput hh => ?_⟩
      · rw [run, call, hbytes]
        change (h.run ops).bind _ = _
        rw [hrun]
        rfl
      · rw [hashes, ← houts key flags input hinput hh]
        rw [← hinput] at hc hh hn
        have hhash := finalize_hash hc hh (by omega) count
        rw [Option.some.inj (hbytes.symm.trans hhash)]

end Hasher

/-- **Incremental hashing.** Less than `2 ^ 64` bytes, put into a new hasher in any pieces and
with any saves and results between them, give at every point the tree over what has come, and
the stack never has more than 54 entries. -/
theorem run_hashes_the_tree (key : Words 8) (flags : UInt32) (ops : List Op)
    (hinput : (inputOf ops).length < 2 ^ 64) :
    ∃ t, (Hasher.newInternal key flags).run ops = some (t, Hasher.hashes key flags [] ops) ∧
      t.cvStackLen ≤ 54 := by
  obtain ⟨t, outs, hrun, ht, houts⟩ :=
    @Hasher.run_spec _ 0 ops (Hasher.counts_newInternal key flags) (by omega)
  rw [Nat.zero_add] at ht
  rw [houts key flags [] rfl (Hasher.holds_newInternal key flags)] at hrun
  exact ⟨t, hrun, ht.stack_le hinput⟩

theorem run_hashes_two_pieces : ∃ t, (Hasher.newInternal iv 0).run
    [.update [97, 98], .restore, .finalize 32, .update [99], .finalize 32] =
      some (t, [hash iv 0 [97, 98] 32, hash iv 0 [97, 98, 99] 32]) ∧ t.cvStackLen ≤ 54 :=
  run_hashes_the_tree iv 0 _ (by decide)

/-! ### Saved Hashers -/

/-- Two hashers with the same lengths and counters. -/
structure SameCounts (h h' : Hasher) : Prop where
  counter : h.chunkState.chunkCounter = h'.chunkState.chunkCounter
  blockLen : h.chunkState.blockLen = h'.chunkState.blockLen
  blocksCompressed : h.chunkState.blocksCompressed = h'.chunkState.blocksCompressed
  stackLen : h.cvStackLen = h'.cvStackLen

namespace Hasher

/-- The number of bytes that have come, by the counters. -/
def counted (h : Hasher) : ℕ := chunkSize * h.chunkState.chunkCounter + h.chunkState.len

/-- Some calls on a new hasher leave these lengths and counters. -/
def Producible (h : Hasher) : Prop := ∃ key flags ops t outs, (inputOf ops).length < 2 ^ 64 ∧
  (newInternal key flags).run ops = some (t, outs) ∧ SameCounts t h

/-- Calls have a result as long as less than `2 ^ 64` bytes come in all. -/
def Safe (h : Hasher) : Prop :=
  ∀ ops, h.counted + (inputOf ops).length < 2 ^ 64 → (h.run ops).isSome

end Hasher

namespace HasherState

/-- The number of bytes that have come, by the counters. -/
def counted (state : HasherState) : ℕ := chunkSize * state.chunkCounter.toNat +
  (blockSize * state.blocksCompressed.toNat + state.blockLen.toNat)

/-- The stack has an entry for each binary digit one of the number of chunks, and only a new
hasher has no byte in its block. -/
structure Consistent (state : HasherState) : Prop where
  stackLen : state.chainingValueStackLen.toNat = ones state.chunkCounter.toNat
  counted : state.counted < 2 ^ 64
  pending : state.blockLen.toNat = 0 → state.counted = 0

end HasherState

/-! ### Accepted States -/

variable {state : HasherState}

lemma fromState_eq_some {h : Hasher} (hs : Hasher.fromState state = some h) :
    state.blockLen.toNat ≤ 64 ∧ state.blocksCompressed.toNat < 16 ∧
      h.chunkState.flags = h.flags ∧ h.counted = state.counted ∧
      h.chunkState.chunkCounter = state.chunkCounter.toNat ∧
      h.chunkState.blockLen = state.blockLen.toNat ∧
      h.chunkState.blocksCompressed = state.blocksCompressed.toNat ∧
      h.cvStackLen = state.chainingValueStackLen.toNat := by
  unfold Hasher.fromState at hs
  split_ifs at hs with hcheck
  obtain rfl := Option.some.inj hs
  rw [Bool.or_eq_true, Bool.or_eq_true, Bool.or_eq_true, not_or, not_or, not_or, decide_eq_true_iff,
    decide_eq_true_iff, bne_iff_ne, not_not] at hcheck
  obtain ⟨⟨⟨hblock, hblocks⟩, _⟩, hflags⟩ := hcheck
  exact ⟨not_lt.1 hblock, not_le.1 hblocks, hflags, rfl, rfl, rfl, rfl, rfl⟩

lemma consistent_of_producible {h : Hasher} (hs : Hasher.fromState state = some h)
    (hp : h.Producible) : state.Consistent := by
  obtain ⟨key, flags, ops, t, outs, hinput, hrun, hsame⟩ := hp
  obtain ⟨_, _, _, hcounted, hcounter, hblock, hblocks, hstack⟩ := fromState_eq_some hs
  obtain ⟨t', outs', hrun', hcounts, _⟩ :=
    @Hasher.run_spec _ 0 ops (Hasher.counts_newInternal key flags) (by omega)
  obtain ⟨rfl, rfl⟩ := Prod.ext_iff.1 (Option.some.inj (hrun'.symm.trans hrun))
  rw [Nat.zero_add] at hcounts
  obtain ⟨n, hn⟩ : ∃ n, n = (inputOf ops).length := ⟨_, rfl⟩
  rw [← hn] at hcounts hinput
  have hbounds := Hasher.lastChunk_bounds n
  have hlen : h.chunkState.len = n - chunkSize * lastChunk n := by
    rw [← hcounts.chunk_len]
    unfold ChunkState.len
    rw [hsame.blocksCompressed, hsame.blockLen]
  have htotal : state.counted = n := by
    rw [← hcounted, Hasher.counted, ← hsame.counter, hcounts.counter, hlen]
    omega
  refine ⟨?_, htotal ▸ hinput, fun hzero => ?_⟩
  · rw [← hstack, ← hcounter, ← hsame.stackLen, ← hsame.counter, hcounts.stack, hcounts.counter]
  · have hpending := hcounts.chunk.len
    rw [hsame.blockLen, hblock, hzero] at hpending
    rw [htotal]
    unfold lastBlock blockSize at hpending
    unfold lastChunk chunkSize at hpending hbounds
    omega

lemma counts_of_consistent {h : Hasher} (hs : Hasher.fromState state = some h)
    (hc : state.Consistent) :
    h.Counts (lastChunk h.counted) h.counted := by
  obtain ⟨hblock, hblocks, hflags, hcounted, hcounter, hlen, hcompressed, hstack⟩ :=
    fromState_eq_some hs
  have hpending := hc.pending
  rw [hcounted]
  have hchunk : lastChunk state.counted = state.chunkCounter.toNat := by
    unfold lastChunk
    unfold HasherState.counted chunkSize blockSize at hpending ⊢
    omega
  obtain ⟨m, hm⟩ : ∃ m, m = state.counted - chunkSize * state.chunkCounter.toNat := ⟨_, rfl⟩
  have hm' : m = blockSize * state.blocksCompressed.toNat + state.blockLen.toNat := by
    rw [hm, HasherState.counted, Nat.add_sub_cancel_left]
  have hlast : lastBlock m = state.blocksCompressed.toNat := by
    unfold lastBlock
    rw [hm']
    unfold HasherState.counted chunkSize blockSize at hpending
    unfold blockSize
    omega
  rw [hchunk]
  refine ⟨?_, hcounter, hstack.trans hc.stackLen, hflags⟩
  rw [← hm]
  refine ⟨hcompressed.trans hlast.symm, hlen.trans ?_⟩
  rw [hlast, hm', Nat.add_sub_cancel_left]

lemma producible_of_consistent {h : Hasher} (hs : Hasher.fromState state = some h)
    (hc : state.Consistent) : h.Producible := by
  have hcounts := counts_of_consistent hs hc
  have hcounted := (fromState_eq_some hs).2.2.2.1
  have hinput : inputOf [.update (List.replicate h.counted 0)] =
      List.replicate h.counted 0 := List.append_nil _
  have hlength : (inputOf [.update (List.replicate h.counted 0)]).length = h.counted := by
    rw [hinput, List.length_replicate]
  have hlt : h.counted < 2 ^ 64 := hcounted ▸ hc.counted
  obtain ⟨t, outs, hrun, ht, _⟩ := @Hasher.run_spec _ 0
    [.update (List.replicate h.counted 0)] (Hasher.counts_newInternal iv 0) (by omega)
  rw [Nat.zero_add, hlength] at ht
  exact ⟨iv, 0, _, t, outs, by omega, hrun, ht.counter.trans hcounts.counter.symm,
    ht.chunk.len.trans hcounts.chunk.len.symm,
    ht.chunk.compressed.trans hcounts.chunk.compressed.symm, ht.stack.trans hcounts.stack.symm⟩

lemma safe_of_consistent {h : Hasher} (hs : Hasher.fromState state = some h)
    (hc : state.Consistent) :
    h.Safe := by
  intro ops hops
  obtain ⟨t, outs, hrun, _⟩ := Hasher.run_spec (counts_of_consistent hs hc) hops
  rw [hrun]
  rfl

/-- **Saved hashers.** What `from_state` accepts could have been saved, and every call on it
stays in range, exactly if the state is consistent. -/
theorem accepted_iff_consistent (state : HasherState) :
    (∀ h, Hasher.fromState state = some h → h.Producible ∧ h.Safe) ↔
      (Hasher.fromState state = none ∨ state.Consistent) := by
  constructor
  · intro hall
    cases hs : Hasher.fromState state with
    | none => exact .inl rfl
    | some h => exact .inr (consistent_of_producible hs (hall h hs).1)
  · rintro (hnone | hc) h hs
    · rw [hnone] at hs
      cases hs
    · exact ⟨producible_of_consistent hs hc, safe_of_consistent hs hc⟩

/-- A state with a full second chunk and nothing on the stack. -/
def emptyStackState : HasherState where
  chunkChainingValue := iv
  chunkCounter := 1
  block := Vector.replicate blockSize 0
  blockLen := 64
  blocksCompressed := 15
  chunkFlags := 0
  keyWords := iv
  chainingValueStack := Vector.replicate 54 iv
  chainingValueStackLen := 0
  flags := 0

/-- The state is accepted, and the next byte takes a subtree from the empty stack. -/
theorem accepted_state_pops_nothing : ∃ h, Hasher.fromState emptyStackState = some h ∧
    h.run [.update [0]] = none := by
  refine ⟨_, rfl, ?_⟩
  have hpop : ∀ h : Hasher, h.cvStackLen = 0 → h.chunkState.chunkCounter = 1 →
      h.chunkState.len = chunkSize → h.run [.update [0]] = none := by
    intro h hlen hcounter hfull
    have hnone : h.popStack = none := by
      rw [Hasher.popStack, hlen]
      rfl
    have hadd : ∀ cv, h.addChunkChainingValue cv 2 = none := fun cv => by
      rw [Hasher.addChunkChainingValue, if_pos (by decide), hnone]
    have hfinish : h.finishChunk = none := by
      rw [Hasher.finishChunk, hcounter]
      change (h.addChunkChainingValue _ 2).bind _ = none
      rw [hadd]
      rfl
    have habsorb : h.absorb [0] = none := by
      rw [Hasher.absorb, Hasher.makeRoom, if_pos hfull, hfinish]
      rfl
    rw [Hasher.run, Hasher.call, Hasher.update, dif_neg (by decide), habsorb]
    rfl
  exact hpop _ rfl rfl rfl

end Neetan.Blake3
