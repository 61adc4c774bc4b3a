import Neetan.FatVolume
import Neetan.FatEntries
import Mathlib.Data.List.Chain

/-!
Reading files of a FAT volume: whole chains at once, and in chunks with a cursor.

The whole read takes of each cluster what the disk returns, the cursor computes the place of a
byte from the cluster size. Both give the same bytes if the disk returns whole clusters.

The cursor remembers the cluster of the last chunk with its place in the chain, and starts from
there as long as the chunks go forward.
-/

namespace Neetan.Fat

open Disk Fallible MachineInt

/-! ### Whole Files -/

section

variable {δ : Type} [DiskIo δ]

/-- Reads the chain from a cluster on, until the file is complete. -/
def readChainLoop (vol : FatVolume) (fileSize : ℕ) :
    ℕ → ℕ → List ℕ → List UInt8 → DiskM δ (List UInt8)
  | 0, _, _, _ => diverge
  | fuel + 1, cluster, visited, data =>
    if cluster ∈ visited then fail errorIo else do
      let clusterData ← vol.readCluster cluster
      let length := min (fileSize - data.length) clusterData.length
      let data := data ++ clusterData.take length
      if data.length = fileSize then pure data else do
        let next ← ofExcept (vol.nextChainCluster cluster)
        let next ← okOr errorIo next
        readChainLoop vol fileSize fuel next (cluster :: visited) data

def readChain (vol : FatVolume) (startCluster fileSize : ℕ) : DiskM δ (List UInt8) :=
  if fileSize = 0 then pure []
  else
    let dataAreaSize := vol.dataClusterCount * vol.bpb.clusterSize
    if fileSize > dataAreaSize ∨ ¬ vol.isDataCluster startCluster then fail errorIo
    -- no cluster is visited twice, so there are no more steps than clusters
    else readChainLoop vol fileSize (vol.dataClusterCount + 1) startCluster [] []

end

/-! ### The Cursor -/

structure FatFileCursor where
  startCluster : ℕ
  fileSize : ℕ
  position : ℕ
  cachedClusterIndex : ℕ
  cachedCluster : ℕ

/-- The cluster so many places further along the chain. -/
def FatVolume.clusterAfter (vol : FatVolume) : ℕ → ℕ → Option ℕ
  | 0, cluster => some cluster
  | n + 1, cluster => (vol.nextCluster cluster).bind (clusterAfter vol n)

namespace FatFileCursor

def withPosition (startCluster fileSize position : ℕ) : FatFileCursor :=
  ⟨startCluster, fileSize, position, 0, 0⟩

def remaining (cursor : FatFileCursor) : ℕ := cursor.fileSize - cursor.position

/-- The cluster at an index of the chain, and the cursor that remembers it. -/
def clusterForIndex (cursor : FatFileCursor) (vol : FatVolume) (targetIndex : ℕ) :
    Option (ℕ × FatFileCursor) :=
  if cursor.startCluster < 2 then none
  else if targetIndex = 0 then
    some (cursor.startCluster,
      { cursor with cachedClusterIndex := 0, cachedCluster := cursor.startCluster })
  else do
    let (currentIndex, currentCluster) :=
      if cursor.cachedCluster ≥ 2 ∧ targetIndex ≥ cursor.cachedClusterIndex then
        (cursor.cachedClusterIndex, cursor.cachedCluster)
      else (0, cursor.startCluster)
    let cluster ← vol.clusterAfter (targetIndex - currentIndex) currentCluster
    return (cluster, { cursor with cachedClusterIndex := targetIndex, cachedCluster := cluster })

end FatFileCursor

section

variable {δ : Type} [DiskIo δ]

/-- A cursor with the disk it reads from. -/
structure Reading (δ : Type) where
  cursor : FatFileCursor
  disk : δ

/-- A computation with a cursor; errors are DOS error codes. -/
abbrev CursorM (δ α : Type) : Type := Fallible (Reading δ) ℕ α

/-- A read of the disk behind a cursor. -/
def onDisk {α : Type} (m : DiskM δ α) : CursorM δ α := fun s =>
  (m s.disk).map fun r => (r.1, { s with disk := r.2 })

def clusterForIndex (vol : FatVolume) (targetIndex : ℕ) : CursorM δ ℕ := do
  let cursor ← reads Reading.cursor
  let (cluster, cursor) ← okOr errorIo (cursor.clusterForIndex vol targetIndex)
  modify fun s => { s with cursor }
  return cluster

/-- The bytes of a range, which must lie inside. -/
def sliceOf (data : List UInt8) (start length : ℕ) : CursorM δ (List UInt8) :=
  if start + length ≤ data.length then pure ((data.drop start).take length) else diverge

def advance (length : ℕ) : CursorM δ Unit :=
  modify fun s => { s with cursor.position := wrappingAdd 32 s.cursor.position length }

/-- Reads from one cluster after the other until the chunk is complete. -/
def readChunkLoop (vol : FatVolume) (bytesToRead : ℕ) :
    ℕ → List UInt8 → CursorM δ (List UInt8)
  | 0, result => if result.length < bytesToRead then diverge else pure result
  | fuel + 1, result =>
    if result.length < bytesToRead then do
      let cursor ← reads Reading.cursor
      let clusterSize := vol.bpb.clusterSize
      let clusterIndex := cursor.position / clusterSize
      let offsetInCluster := cursor.position % clusterSize
      let cluster ← clusterForIndex vol clusterIndex
      let clusterData ← onDisk (vol.readCluster cluster)
      let available := min (clusterSize - offsetInCluster) (bytesToRead - result.length)
      let bytes ← sliceOf clusterData offsetInCluster available
      advance available
      readChunkLoop vol bytesToRead fuel (result ++ bytes)
    else pure result

def readChunk (vol : FatVolume) (maxBytes : ℕ) : CursorM δ (List UInt8) := do
  let cursor ← reads Reading.cursor
  if cursor.position ≥ cursor.fileSize ∨ maxBytes = 0 then pure []
  else if cursor.startCluster < 2 then fail errorIo
  else
    let bytesToRead := min (maxBytes % 2 ^ 32) cursor.remaining
    -- a step reads at least one byte
    readChunkLoop vol bytesToRead bytesToRead []

/-- One chunk after the other. -/
def readChunks (vol : FatVolume) : List ℕ → CursorM δ (List (List UInt8))
  | [] => pure []
  | maxBytes :: rest => do
    let chunk ← readChunk vol maxBytes
    let chunks ← readChunks vol rest
    return chunk :: chunks

end

/-! ### Blocks of One Length -/

section

variable {α β : Type} {content : α → List β} {clusters : List α} {n : ℕ}

lemma length_flatMap_blocks (h : ∀ c ∈ clusters, (content c).length = n) :
    (clusters.flatMap content).length = clusters.length * n := by
  induction clusters with
  | nil => simp
  | cons c rest ih =>
    rw [List.flatMap_cons, List.length_append, h c List.mem_cons_self,
      ih fun d hd => h d (List.mem_cons_of_mem _ hd), List.length_cons]
    ring

lemma take_drop_flatMap (h : ∀ c ∈ clusters, (content c).length = n) {i offset length : ℕ}
    (hi : i < clusters.length) (hle : offset + length ≤ n) :
    ((clusters.flatMap content).drop (i * n + offset)).take length =
      ((content clusters[i]).drop offset).take length := by
  induction clusters generalizing i with
  | nil => simp at hi
  | cons c rest ih =>
    have hc := h c List.mem_cons_self
    have hrest : ∀ d ∈ rest, (content d).length = n := fun d hd => h d (List.mem_cons_of_mem _ hd)
    rw [List.flatMap_cons]
    cases i with
    | zero =>
      rw [Nat.zero_mul, Nat.zero_add, List.drop_append_of_le_length (by omega),
        List.take_append_of_le_length (by rw [List.length_drop]; omega)]
      rfl
    | succ i =>
      have hskip : (i + 1) * n + offset = (content c).length + (i * n + offset) := by
        rw [hc]
        ring
      rw [hskip, List.drop_length_add_append]
      exact ih hrest (by simpa using hi)

lemma append_take_min {first second : List β} (h : first.length ≤ n) :
    first ++ second.take (min (n - first.length) second.length) = (first ++ second).take n := by
  rw [List.take_append, List.take_of_length_le h]
  congr 1
  rcases Nat.le_total (n - first.length) second.length with hle | hle
  · rw [Nat.min_eq_left hle]
  · rw [Nat.min_eq_right hle, List.take_of_length_le hle, List.take_length]

end

/-! ### The Chain of a File -/

section

variable {δ : Type} [DiskIo δ]

/-- The bytes of a cluster, or the status of the read. -/
def clusterBytes (vol : FatVolume) (disk : δ) (cluster : ℕ) : Except ℕ (List UInt8) :=
  sectorsOf disk vol.deviceId (vol.clusterToLba cluster)
    (vol.bpb.sectorsPerCluster * vol.sectorRatio)

/-- Clusters that are linked in the FAT, and the bytes they hold on disk. -/
structure FileChain (vol : FatVolume) (disk : δ) (content : ℕ → List UInt8)
    (clusters : List ℕ) : Prop where
  links : clusters.IsChain fun cluster next => vol.nextCluster cluster = some next
  bytes : ∀ cluster ∈ clusters, clusterBytes vol disk cluster = .ok (content cluster)

variable {vol : FatVolume} {disk disk' : δ} {content : ℕ → List UInt8} {clusters : List ℕ}
  {cluster fileSize : ℕ} {data : List UInt8}

lemma readCluster_ends [LawfulDisk δ] (vol : FatVolume) (disk : δ) (cluster : ℕ) :
    (vol.readCluster cluster).Ends disk fun r disk' => SameDisk disk disk' ∧
      r = (clusterBytes vol disk cluster).mapError fun _ => errorIo :=
  readSectors_ends _ _ _ _

lemma clusterBytes_same (h : SameDisk disk disk') (vol : FatVolume) (cluster : ℕ) :
    clusterBytes vol disk' cluster = clusterBytes vol disk cluster := h.sectors _ _ _

lemma mapError_eq_ok {ε α : Type} {x : Except ε α} {f : ε → ε} {a : α}
    (h : x.mapError f = .ok a) : x = .ok a := by
  cases x with
  | ok b => exact h
  | error e => cases h

lemma nextCluster_of_nextChainCluster {next : ℕ}
    (h : vol.nextChainCluster cluster = .ok (some next)) : vol.nextCluster cluster = some next := by
  unfold FatVolume.nextChainCluster at h
  dsimp only at h
  split_ifs at h with hend hdata
  · cases Except.ok.inj h
  · obtain rfl := Option.some.inj (Except.ok.inj h)
    have h2 : 2 ≤ vol.readFatEntry cluster := by
      unfold FatVolume.isDataCluster firstDataCluster at hdata
      rw [Bool.and_eq_true, decide_eq_true_eq] at hdata
      exact hdata.1
    unfold FatVolume.nextCluster
    exact if_neg (by omega)

lemma FileChain.cons {next : ℕ} {rest : List ℕ} (h : FileChain vol disk content (next :: rest))
    (hnext : vol.nextCluster cluster = some next)
    (hbytes : clusterBytes vol disk cluster = .ok (content cluster)) :
    FileChain vol disk content (cluster :: next :: rest) :=
  ⟨List.isChain_cons_cons.mpr ⟨hnext, h.links⟩, fun c hc => by
    rcases List.mem_cons.mp hc with rfl | hc
    · exact hbytes
    · exact h.bytes c hc⟩

/-- What the clusters hold, as far as they can be read. -/
def contentOf (vol : FatVolume) (disk : δ) (cluster : ℕ) : List UInt8 :=
  (clusterBytes vol disk cluster).toOption.getD []

lemma contentOf_of_ok {bytes : List UInt8} (h : clusterBytes vol disk cluster = .ok bytes) :
    clusterBytes vol disk cluster = .ok (contentOf vol disk cluster) ∧
      contentOf vol disk cluster = bytes := by
  unfold contentOf
  rw [h]
  exact ⟨rfl, rfl⟩

lemma contentOf_same (h : SameDisk disk disk') (vol : FatVolume) :
    contentOf vol disk' = contentOf vol disk := by
  funext cluster
  unfold contentOf
  rw [clusterBytes_same h]

lemma FileChain.congr (h : FileChain vol disk' content clusters) (hsame : SameDisk disk disk') :
    FileChain vol disk content clusters :=
  ⟨h.links, fun c hc => (clusterBytes_same hsame vol c).symm.trans (h.bytes c hc)⟩

lemma chain_of_readChainLoop [LawfulDisk δ] {fuel : ℕ} {visited : List ℕ} {result : List UInt8}
    (hlen : data.length < fileSize)
    (h : readChainLoop vol fileSize fuel cluster visited data disk = some (.ok result, disk')) :
    ∃ rest, FileChain vol disk (contentOf vol disk) (cluster :: rest) ∧
      fileSize ≤ (data ++ (cluster :: rest).flatMap (contentOf vol disk)).length ∧
      result = (data ++ (cluster :: rest).flatMap (contentOf vol disk)).take fileSize := by
  induction fuel generalizing cluster visited data disk with
  | zero => cases h
  | succ fuel ih =>
    unfold readChainLoop at h
    split_ifs at h with hvisited
    · cases h
    obtain ⟨bytes, disk₁, hread, h⟩ := bind_ok h
    obtain ⟨hsame, hbytes⟩ := (readCluster_ends vol disk cluster).of_eq hread
    obtain ⟨hok, hcontent⟩ := contentOf_of_ok (mapError_eq_ok hbytes.symm)
    have hsingle : FileChain vol disk (contentOf vol disk) [cluster] :=
      ⟨List.isChain_singleton _, fun c hc => List.mem_singleton.mp hc ▸ hok⟩
    dsimp only at h
    rw [append_take_min hlen.le] at h
    split_ifs at h with hfull
    · obtain ⟨rfl, -⟩ := pure_ok h
      rw [List.length_take] at hfull
      refine ⟨[], hsingle, ?_, ?_⟩
      · rw [List.flatMap_singleton, hcontent]
        omega
      · rw [List.flatMap_singleton, hcontent]
    · -- the cluster is used up, and the file goes on in the next one
      rw [List.length_take] at hfull
      have hshort : (data ++ bytes).length < fileSize := by omega
      rw [List.take_of_length_le hshort.le] at h
      obtain ⟨next?, disk₂, hread', h⟩ := bind_ok h
      obtain ⟨hnext, rfl⟩ := ofExcept_ok hread'
      obtain ⟨next, disk₃, hsome, h⟩ := bind_ok h
      obtain ⟨rfl, rfl⟩ := okOr_ok hsome
      obtain ⟨rest, hchain, hle, hresult⟩ := ih hshort h
      rw [contentOf_same hsame] at hchain hle hresult
      refine ⟨next :: rest, (hchain.congr hsame).cons (nextCluster_of_nextChainCluster hnext) hok,
        ?_, ?_⟩
      · rw [List.flatMap_cons, hcontent, ← List.append_assoc]
        exact hle
      · rw [List.flatMap_cons, hcontent, ← List.append_assoc]
        exact hresult

/-! ### Placed Data -/

/-- The blocks of the data stand at the start of the clusters at their places of the chain. -/
def FatVolume.Placed (vol : FatVolume) (disk : δ) (start : ℕ) (data : List UInt8) : Prop :=
  ∀ i, i * vol.bpb.clusterSize < data.length → ∃ cluster bytes,
    vol.clusterAfter i start = some cluster ∧ clusterBytes vol disk cluster = .ok bytes ∧
      (data.drop (i * vol.bpb.clusterSize)).take vol.bpb.clusterSize <+: bytes

variable {start position : ℕ}

/-- A part of the data that lies in one cluster is read from the cluster at its place. -/
lemma FatVolume.Placed.part (h : vol.Placed disk start data) (position length : ℕ)
    (hle : position + length ≤ data.length) (hlen : 0 < length)
    (hblock : position % vol.bpb.clusterSize + length ≤ vol.bpb.clusterSize) :
    ∃ cluster bytes, vol.clusterAfter (position / vol.bpb.clusterSize) start = some cluster ∧
      clusterBytes vol disk cluster = .ok bytes ∧
      position % vol.bpb.clusterSize + length ≤ bytes.length ∧
      (bytes.drop (position % vol.bpb.clusterSize)).take length =
        (data.drop position).take length := by
  have hposition := Nat.div_add_mod' position vol.bpb.clusterSize
  obtain ⟨cluster, _, hcluster, hread, rest, rfl⟩ :=
    h (position / vol.bpb.clusterSize) (by omega)
  have hlength : ((data.drop (position / vol.bpb.clusterSize * vol.bpb.clusterSize)).take
      vol.bpb.clusterSize).length =
      min vol.bpb.clusterSize
        (data.length - position / vol.bpb.clusterSize * vol.bpb.clusterSize) := by simp
  refine ⟨cluster, _, hcluster, hread, ?_, ?_⟩
  · rw [List.length_append]
    omega
  · rw [List.drop_append_of_le_length (by omega),
      List.take_append_of_le_length (by rw [List.length_drop]; omega), List.drop_take,
      List.take_take, List.drop_drop, hposition, Nat.min_eq_left (by omega)]

lemma clusterAfter_add (vol : FatVolume) (i n cluster : ℕ) :
    vol.clusterAfter (i + n) cluster = (vol.clusterAfter i cluster).bind (vol.clusterAfter n) := by
  induction i generalizing cluster with
  | zero => rw [Nat.zero_add, FatVolume.clusterAfter, Option.bind_some]
  | succ i ih =>
    rw [Nat.succ_add, FatVolume.clusterAfter, FatVolume.clusterAfter, Option.bind_assoc]
    exact Option.bind_congr fun next _ => ih next

lemma clusterAfter_of_links (h : clusters.IsChain fun c next => vol.nextCluster c = some next)
    {i n : ℕ} (hi : i + n < clusters.length) :
    vol.clusterAfter n clusters[i] = some clusters[i + n] := by
  induction n generalizing i with
  | zero => rfl
  | succ n ih =>
    have hnext := List.isChain_iff_getElem.mp h i (by omega)
    rw [FatVolume.clusterAfter, hnext, Option.bind_some, ih (by omega)]
    congr 2
    omega

/-- A successful whole read, by the chain that it went along. -/
lemma chain_of_readChain [LawfulDisk δ] (hpos : 0 < fileSize)
    (h : readChain vol start fileSize disk = some (.ok data, disk')) :
    2 ≤ start ∧ ∃ rest, FileChain vol disk (contentOf vol disk) (start :: rest) ∧
      fileSize ≤ ((start :: rest).flatMap (contentOf vol disk)).length ∧
      data = ((start :: rest).flatMap (contentOf vol disk)).take fileSize := by
  unfold readChain at h
  dsimp only at h
  rw [if_neg hpos.ne'] at h
  split_ifs at h with harea
  · cases h
  have hdata : vol.isDataCluster start = true := not_not.mp (not_or.mp harea).2
  unfold FatVolume.isDataCluster firstDataCluster at hdata
  rw [Bool.and_eq_true, decide_eq_true_eq] at hdata
  exact ⟨hdata.1, chain_of_readChainLoop (show ([] : List UInt8).length < fileSize from hpos) h⟩

lemma length_of_readChain [LawfulDisk δ]
    (h : readChain vol start fileSize disk = some (.ok data, disk')) :
    data.length = fileSize := by
  rcases Nat.eq_zero_or_pos fileSize with rfl | hpos
  · obtain ⟨rfl, -⟩ := pure_ok h
    rfl
  · obtain ⟨-, rest, -, hle, rfl⟩ := chain_of_readChain hpos h
    rw [List.length_take]
    exact Nat.min_eq_left hle

/-- What is read from whole clusters is placed. -/
lemma placed_of_whole [LawfulDisk δ]
    (hwhole : ∀ cluster bytes, clusterBytes vol disk cluster = .ok bytes →
      bytes.length = vol.bpb.clusterSize)
    (h : readChain vol start fileSize disk = some (.ok data, disk')) :
    vol.Placed disk start data := by
  intro i hi
  have hlength := length_of_readChain h
  obtain ⟨-, rest, hchain, hle, hdata⟩ := chain_of_readChain (by omega) h
  have hblock : ∀ c ∈ start :: rest, (contentOf vol disk c).length = vol.bpb.clusterSize :=
    fun c hc => hwhole c _ (hchain.bytes c hc)
  rw [length_flatMap_blocks hblock] at hle
  have hindex : i < (start :: rest).length :=
    Nat.lt_of_mul_lt_mul_right (hi.trans_le (hlength.le.trans hle))
  have hmem := List.getElem_mem hindex
  refine ⟨(start :: rest)[i], _, ?_, hchain.bytes _ hmem, ?_⟩
  · have hwalk := clusterAfter_of_links hchain.links (i := 0) (n := i) (by omega)
    simpa using hwalk
  · have hpart := take_drop_flatMap hblock hindex
      (show 0 + vol.bpb.clusterSize ≤ _ from (Nat.zero_add _).le)
    rw [Nat.add_zero, List.drop_zero, List.take_of_length_le (hblock _ hmem).le] at hpart
    rw [hdata, List.drop_take, List.take_take, ← hpart, Nat.min_comm, ← List.take_take]
    exact List.take_prefix _ _

/-! ### The Cursor -/

/-- The cursor reads this file, and what it remembers is a cluster of the chain. -/
structure Tracks (vol : FatVolume) (first fileSize position : ℕ) (cursor : FatFileCursor) :
    Prop where
  start : cursor.startCluster = first
  size : cursor.fileSize = fileSize
  position : cursor.position = position
  cached : cursor.cachedCluster < 2 ∨
    vol.clusterAfter cursor.cachedClusterIndex first = some cursor.cachedCluster

lemma tracks_withPosition (vol : FatVolume) (start fileSize position : ℕ) :
    Tracks vol start fileSize position (.withPosition start fileSize position) :=
  ⟨rfl, rfl, rfl, .inl Nat.two_pos⟩

lemma Tracks.clusterForIndex {index : ℕ} {cursor : FatFileCursor}
    (h : Tracks vol start fileSize position cursor) (hstart : 2 ≤ start)
    (hcluster : vol.clusterAfter index start = some cluster) :
    ∃ cursor', cursor.clusterForIndex vol index = some (cluster, cursor') ∧
      Tracks vol start fileSize position cursor' := by
  unfold FatFileCursor.clusterForIndex
  rw [if_neg (by rw [h.start]; omega)]
  split_ifs with hzero hcached
  · subst hzero
    obtain rfl := h.start
    obtain rfl := Option.some.inj hcluster
    exact ⟨_, rfl, rfl, h.size, h.position, .inr rfl⟩
  · -- from the remembered cluster on
    obtain ⟨hge, hle⟩ := hcached
    obtain hlt | hsome := h.cached
    · omega
    have hwalk := clusterAfter_add vol cursor.cachedClusterIndex
      (index - cursor.cachedClusterIndex) start
    rw [Nat.add_sub_cancel' hle, hcluster, hsome, Option.bind_some] at hwalk
    simp only [← hwalk]
    exact ⟨_, rfl, h.start, h.size, h.position, .inr hcluster⟩
  · -- from the start of the chain
    simp only [Nat.sub_zero, h.start, hcluster]
    exact ⟨_, rfl, rfl, h.size, h.position, .inr hcluster⟩

/-! ### Chunks -/

/-- Where a cursor stands in a file, on a disk that holds what it held. -/
structure ReadingAt (vol : FatVolume) (disk : δ) (start fileSize position : ℕ) (s : Reading δ) :
    Prop where
  same : SameDisk disk s.disk
  tracks : Tracks vol start fileSize position s.cursor

variable {s : Reading δ}

lemma clusterForIndex_ends {index : ℕ} (h : ReadingAt vol disk start fileSize position s)
    (hstart : 2 ≤ start) (hcluster : vol.clusterAfter index start = some cluster) :
    (clusterForIndex vol index).Ends s fun r s' => r = .ok cluster ∧
      ReadingAt vol disk start fileSize position s' := by
  obtain ⟨cursor', heq, htracks⟩ := h.tracks.clusterForIndex hstart hcluster
  unfold clusterForIndex
  refine ends_reads_bind ?_
  rw [heq]
  exact ends_pure_bind (ends_modify_bind (ends_pure ⟨rfl, h.same, htracks⟩))

lemma onDisk_readCluster_ends [LawfulDisk δ] {bytes : List UInt8}
    (h : ReadingAt vol disk start fileSize position s)
    (hok : clusterBytes vol disk cluster = .ok bytes) :
    (onDisk (vol.readCluster cluster)).Ends s fun r s' => r = .ok bytes ∧
      ReadingAt vol disk start fileSize position s' := by
  obtain ⟨r, disk', hrun, hsame, hr⟩ := readCluster_ends vol s.disk cluster
  rw [clusterBytes_same h.same, hok] at hr
  refine ⟨r, { s with disk := disk' }, ?_, hr, h.same.trans hsame, h.tracks⟩
  unfold onDisk
  rw [hrun]
  rfl

lemma advance_ends {length : ℕ} (h : ReadingAt vol disk start fileSize position s)
    (hword : position + length < 2 ^ 32) :
    (advance length).Ends s fun r s' => r = .ok () ∧
      ReadingAt vol disk start fileSize (position + length) s' := by
  refine ends_modify ⟨rfl, h.same, h.tracks.start, h.tracks.size, ?_, h.tracks.cached⟩
  dsimp only
  rw [h.tracks.position, MachineInt.wrappingAdd_of_lt hword]

lemma readChunkLoop_ends [LawfulDisk δ] {fuel bytesToRead : ℕ} {result : List UInt8}
    (origin : ℕ) (hplaced : vol.Placed disk start data) (hstart : 2 ≤ start)
    (hsize : 0 < vol.bpb.clusterSize) (hword : data.length < 2 ^ 32)
    (hle : origin + bytesToRead ≤ data.length) (hresult : result.length ≤ bytesToRead)
    (hresult₀ : result = (data.drop origin).take result.length)
    (hfuel : bytesToRead ≤ fuel + result.length)
    (h : ReadingAt vol disk start fileSize (origin + result.length) s) :
    (readChunkLoop vol bytesToRead fuel result).Ends s fun r s' =>
      r = .ok ((data.drop origin).take bytesToRead) ∧
      ReadingAt vol disk start fileSize (origin + bytesToRead) s' := by
  induction fuel generalizing result s with
  | zero =>
    have heq : result.length = bytesToRead := by omega
    unfold readChunkLoop
    rw [if_neg (by omega)]
    exact ends_pure ⟨by rw [hresult₀, heq], heq ▸ h⟩
  | succ fuel ih =>
    unfold readChunkLoop
    split_ifs with hmore
    · refine ends_reads_bind ?_
      simp only [h.tracks.position]
      generalize hposition : origin + result.length = position at *
      have hmod := Nat.mod_lt position hsize
      generalize havailable : min (vol.bpb.clusterSize - position % vol.bpb.clusterSize)
        (bytesToRead - result.length) = available
      obtain ⟨cluster, bytes, hcluster, hbytes, hinside, hpart⟩ :=
        hplaced.part position available (by omega) (by omega) (by omega)
      refine (clusterForIndex_ends h hstart hcluster).bind_value fun s₁ h₁ => ?_
      refine (onDisk_readCluster_ends h₁ hbytes).bind_value fun s₂ h₂ => ?_
      simp only [sliceOf]
      rw [if_pos hinside]
      refine ends_pure_bind ((advance_ends h₂ (by omega)).bind_value fun s₃ h₃ => ?_)
      rw [hpart]
      have hlength : ((data.drop position).take available).length = available := by
        rw [List.length_take, List.length_drop]
        omega
      refine ih ?_ ?_ ?_ ?_
      · rw [List.length_append, hlength]
        omega
      · rw [List.length_append, hlength, List.take_add, ← hresult₀, List.drop_drop, hposition]
      · rw [List.length_append, hlength]
        omega
      · rw [List.length_append, hlength, ← Nat.add_assoc, hposition]
        exact h₃
    · have heq : result.length = bytesToRead := by omega
      exact ends_pure ⟨by rw [hresult₀, heq], heq ▸ h⟩

lemma readChunk_ends [LawfulDisk δ] (maxBytes : ℕ) (hplaced : vol.Placed disk start data)
    (hlength : data.length = fileSize) (hstart : 0 < fileSize → 2 ≤ start)
    (hsize : 0 < vol.bpb.clusterSize) (hword : fileSize < 2 ^ 32)
    (h : ReadingAt vol disk start fileSize position s) :
    (readChunk vol maxBytes).Ends s fun r s' =>
      r = .ok ((data.drop position).take (maxBytes % 2 ^ 32)) ∧
      ReadingAt vol disk start fileSize
        (position + ((data.drop position).take (maxBytes % 2 ^ 32)).length) s' := by
  unfold readChunk
  refine ends_reads_bind ?_
  simp only [h.tracks.position, h.tracks.size, h.tracks.start]
  split_ifs with hempty hbefore
  · have hnone : (data.drop position).take (maxBytes % 2 ^ 32) = [] := by
      rcases hempty with hend | rfl
      · rw [List.drop_of_length_le (by rw [hlength]; exact hend), List.take_nil]
      · rfl
    rw [hnone]
    exact ends_pure ⟨rfl, h⟩
  · exact absurd (hstart (by omega)) (by omega)
  · have hremaining : s.cursor.remaining = fileSize - position := by
      unfold FatFileCursor.remaining
      rw [h.tracks.size, h.tracks.position]
    have hrest : (data.drop position).length = fileSize - position := by
      rw [List.length_drop, hlength]
    have htake : (data.drop position).take (min (maxBytes % 2 ^ 32) (fileSize - position)) =
        (data.drop position).take (maxBytes % 2 ^ 32) := by
      rw [← hrest, ← List.take_eq_take_min]
    have h' : ReadingAt vol disk start fileSize
        (position + ([] : List UInt8).length) s := h
    rw [hremaining]
    refine (readChunkLoop_ends position hplaced (hstart (by omega)) hsize (hlength ▸ hword)
      (by omega) (Nat.zero_le _) rfl (by simp) h').mono ?_
    rintro r s' ⟨hr, hs'⟩
    rw [htake] at hr
    refine ⟨hr, ?_⟩
    rw [List.length_take, hrest]
    exact hs'

/-- The next pieces of the data; a size counts with its low 32 bits. -/
def pieces (data : List UInt8) : List ℕ → List (List UInt8)
  | [] => []
  | size :: rest => data.take (size % 2 ^ 32) :: pieces (data.drop (size % 2 ^ 32)) rest

lemma pieces_flatten (data : List UInt8) (sizes : List ℕ) :
    (pieces data sizes).flatten = data.take (pieces data sizes).flatten.length := by
  induction sizes generalizing data with
  | nil => rfl
  | cons size rest ih =>
    rw [pieces, List.flatten_cons, List.length_append, List.take_add]
    rcases Nat.le_total (size % 2 ^ 32) data.length with hle | hle
    · rw [List.length_take, Nat.min_eq_left hle, ← ih]
    · have hnil : data.drop (size % 2 ^ 32) = [] := List.drop_of_length_le hle
      have hrest := ih []
      rw [List.take_nil] at hrest
      rw [hnil, hrest, List.take_of_length_le hle]
      simp

lemma readChunks_ends [LawfulDisk δ] (sizes : List ℕ) (hplaced : vol.Placed disk start data)
    (hlength : data.length = fileSize) (hstart : 0 < fileSize → 2 ≤ start)
    (hsize : 0 < vol.bpb.clusterSize) (hword : fileSize < 2 ^ 32)
    (h : ReadingAt vol disk start fileSize position s) :
    (readChunks vol sizes).Ends s fun r s' =>
      r = .ok (pieces (data.drop position) sizes) ∧
      ReadingAt vol disk start fileSize
        (position + (pieces (data.drop position) sizes).flatten.length) s' := by
  induction sizes generalizing position s with
  | nil => exact ends_pure ⟨rfl, h⟩
  | cons size rest ih =>
    refine (readChunk_ends size hplaced hlength hstart hsize hword h).bind_value fun s₁ h₁ => ?_
    -- behind the chunk the file goes on, or is at its end
    have hdrop : data.drop (position + ((data.drop position).take (size % 2 ^ 32)).length) =
        (data.drop position).drop (size % 2 ^ 32) := by
      rw [← List.drop_drop, List.length_take]
      rcases Nat.le_total (size % 2 ^ 32) (data.drop position).length with hle | hle
      · rw [Nat.min_eq_left hle]
      · rw [Nat.min_eq_right hle, List.drop_length, List.drop_of_length_le hle]
    refine (ih h₁).bind_value fun s₂ h₂ => ?_
    rw [hdrop] at h₂ ⊢
    refine ends_pure ⟨rfl, ?_⟩
    rw [pieces, List.flatten_cons, List.length_append, ← Nat.add_assoc]
    exact h₂

omit [DiskIo δ] in
lemma clusterForIndex_withPosition {i : ℕ}
    (h : clusterForIndex vol i ⟨.withPosition start fileSize position, disk⟩ =
      some (.ok cluster, s)) : vol.clusterAfter i start = some cluster ∧ s.disk = disk := by
  unfold clusterForIndex at h
  obtain ⟨cursor, _, hreads, h⟩ := bind_ok h
  obtain ⟨rfl, rfl⟩ := reads_ok hreads
  obtain ⟨⟨found, cursor'⟩, _, hsome, h⟩ := bind_ok h
  obtain ⟨hfound, rfl⟩ := okOr_ok hsome
  obtain ⟨_, _, hmodify, h⟩ := bind_ok h
  cases hmodify
  obtain ⟨rfl, rfl⟩ := pure_ok h
  refine ⟨?_, rfl⟩
  unfold FatFileCursor.clusterForIndex FatFileCursor.withPosition at hfound
  dsimp only at hfound
  rw [if_neg (by omega : ¬ (0 ≥ 2 ∧ i ≥ 0))] at hfound
  split_ifs at hfound with hbefore hzero
  · cases hfound
    rw [hzero]
    rfl
  · obtain ⟨next, hnext, hpure⟩ := Option.bind_eq_some_iff.mp hfound
    cases hpure
    exact hnext

/-- A chunk that starts with a cluster is read from the cluster at its place. -/
lemma cluster_of_readChunk [LawfulDisk δ] {i n : ℕ} {chunk : List UInt8} (hn : 0 < n)
    (hle : n ≤ vol.bpb.clusterSize) (hfits : i * vol.bpb.clusterSize + n ≤ fileSize)
    (hword : fileSize < 2 ^ 32)
    (h : readChunk vol n ⟨.withPosition start fileSize (i * vol.bpb.clusterSize), disk⟩ =
      some (.ok chunk, s)) :
    ∃ cluster bytes, vol.clusterAfter i start = some cluster ∧
      clusterBytes vol disk cluster = .ok bytes ∧ chunk = bytes.take n := by
  have hsize : 0 < vol.bpb.clusterSize := hn.trans_le hle
  unfold readChunk at h
  obtain ⟨cursor, _, hreads, h⟩ := bind_ok h
  obtain ⟨rfl, rfl⟩ := reads_ok hreads
  have hremaining : min (n % 2 ^ 32) (FatFileCursor.withPosition start fileSize
      (i * vol.bpb.clusterSize)).remaining = n := by
    unfold FatFileCursor.remaining FatFileCursor.withPosition
    dsimp only
    rw [Nat.mod_eq_of_lt (by omega)]
    omega
  dsimp only at h
  rw [hremaining] at h
  split_ifs at h with hempty hbefore
  · unfold FatFileCursor.withPosition at hempty
    dsimp only at hempty
    omega
  · cases h
  obtain ⟨fuel, rfl⟩ : ∃ fuel, n = fuel + 1 := ⟨n - 1, by omega⟩
  have hmore : ([] : List UInt8).length < fuel + 1 := hn
  unfold readChunkLoop at h
  rw [if_pos hmore] at h
  obtain ⟨cursor, _, hreads, h⟩ := bind_ok h
  obtain ⟨rfl, rfl⟩ := reads_ok hreads
  have hindex : i * vol.bpb.clusterSize / vol.bpb.clusterSize = i := Nat.mul_div_left i hsize
  have hoffset : i * vol.bpb.clusterSize % vol.bpb.clusterSize = 0 := Nat.mul_mod_left i _
  have havailable : min (vol.bpb.clusterSize - 0) (fuel + 1 - ([] : List UInt8).length) =
      fuel + 1 := Nat.min_eq_right hle
  unfold FatFileCursor.withPosition at h
  dsimp only at h
  rw [hindex, hoffset, havailable] at h
  obtain ⟨cluster, s₁, hcluster, h⟩ := bind_ok h
  obtain ⟨hcluster, hdisk⟩ := clusterForIndex_withPosition hcluster
  obtain ⟨bytes, s₂, hread, h⟩ := bind_ok h
  obtain ⟨⟨r, _⟩, hcontent, heq⟩ := Option.map_eq_some_iff.mp hread
  cases heq
  obtain ⟨-, hbytes⟩ := (readCluster_ends vol _ cluster).of_eq hcontent
  rw [hdisk] at hbytes
  refine ⟨cluster, bytes, hcluster, mapError_eq_ok hbytes.symm, ?_⟩
  obtain ⟨part, _, hslice, h⟩ := bind_ok h
  unfold sliceOf at hslice
  split_ifs at hslice with hinside
  · obtain ⟨rfl, rfl⟩ := pure_ok hslice
    obtain ⟨_, s₃, -, h⟩ := bind_ok h
    have hfull : ¬ ([] ++ (bytes.drop 0).take (fuel + 1)).length < fuel + 1 := by
      simp only [List.nil_append, List.drop_zero, List.length_take]
      omega
    cases fuel with
    | zero =>
      unfold readChunkLoop at h
      rw [if_neg hfull] at h
      exact (pure_ok h).1.symm
    | succ fuel =>
      unfold readChunkLoop at h
      rw [if_neg hfull] at h
      exact (pure_ok h).1.symm
  · cases hslice

end

/-- **Reading in chunks.** On a volume that was mounted, with any FAT since then, and a file
whose whole read gives some data: that from every position any sequence of chunks gives the next
pieces of that data without gap or repetition, all of it once nothing remains, and that the
cluster that the cursor remembers is the one at its index of the chain, is so exactly if the data
is placed in the clusters. It is placed if the disk returns whole clusters. -/
theorem readChunks_eq_readChain_iff {δ : Type} [DiskIo δ] [LawfulDisk δ]
    {disk₀ disk₁ disk disk' : δ} {device offset : ℕ} {geometry : DriveGeometry}
    {vol₀ vol : FatVolume} {start fileSize : ℕ} {data : List UInt8}
    (hmount : mount device offset geometry disk₀ = some (.ok vol₀, disk₁))
    (hlayout : vol₀.SameLayout vol) (hword : fileSize < 2 ^ 32)
    (hread : readChain vol start fileSize disk = some (.ok data, disk')) :
    ((∀ (position : ℕ) (sizes : List ℕ), ∃ chunks s,
      readChunks vol sizes ⟨.withPosition start fileSize position, disk⟩ =
        some (.ok chunks, s) ∧
      chunks = pieces (data.drop position) sizes ∧
      chunks.flatten = (data.drop position).take chunks.flatten.length ∧
      s.cursor.position = position + chunks.flatten.length ∧
      (s.cursor.remaining = 0 → chunks.flatten = data.drop position) ∧
      (s.cursor.cachedCluster < 2 ∨
        vol.clusterAfter s.cursor.cachedClusterIndex start = some s.cursor.cachedCluster)) ↔
      vol.Placed disk start data) ∧
    ((∀ cluster bytes, clusterBytes vol disk cluster = .ok bytes →
      bytes.length = vol.bpb.clusterSize) → vol.Placed disk start data) := by
  obtain ⟨size, -, -, hm₀⟩ := mounted_of_mount hmount
  have hmounted := hlayout.mounted hm₀
  have hsize : 0 < vol.bpb.clusterSize :=
    Nat.mul_pos hmounted.bytesPerSector hmounted.sectorsPerCluster
  have hlength := length_of_readChain hread
  have hstart : 0 < fileSize → 2 ≤ start := fun hpos => (chain_of_readChain hpos hread).1
  refine ⟨⟨fun hchunks => ?_, fun hplaced position sizes => ?_⟩,
    fun hwhole => placed_of_whole hwhole hread⟩
  · intro i hi
    -- the chunk of one block
    obtain ⟨n, hn⟩ : ∃ n, n = min vol.bpb.clusterSize
      (data.length - i * vol.bpb.clusterSize) := ⟨_, rfl⟩
    obtain ⟨chunks, s, hrun, hpieces, -⟩ := hchunks (i * vol.bpb.clusterSize) [n]
    obtain ⟨chunk, s₁, hchunk, hrest⟩ := bind_ok hrun
    obtain ⟨_, s₂, hnil, hpure⟩ := bind_ok hrest
    obtain ⟨rfl, -⟩ := pure_ok hnil
    obtain ⟨rfl, -⟩ := pure_ok hpure
    obtain ⟨cluster, bytes, hcluster, hbytes, rfl⟩ :=
      cluster_of_readChunk (by omega) (by omega) (by omega) hword hchunk
    refine ⟨cluster, bytes, hcluster, hbytes, ?_⟩
    have hmod : n % 2 ^ 32 = n := Nat.mod_eq_of_lt (by omega)
    have hhead := (List.cons.inj hpieces).1
    rw [hmod] at hhead
    have htake : (data.drop (i * vol.bpb.clusterSize)).take vol.bpb.clusterSize =
        (data.drop (i * vol.bpb.clusterSize)).take n := by
      rw [hn, ← List.length_drop, ← List.take_eq_take_min]
    rw [htake, ← hhead]
    exact List.take_prefix _ _
  · obtain ⟨r, s, hrun, rfl, hat⟩ := readChunks_ends sizes hplaced hlength hstart hsize hword
      (s := ⟨.withPosition start fileSize position, disk⟩)
      ⟨.refl disk, tracks_withPosition vol start fileSize position⟩
    refine ⟨_, s, hrun, rfl, pieces_flatten _ _, hat.tracks.position, fun hnone => ?_,
      hat.tracks.cached⟩
    unfold FatFileCursor.remaining at hnone
    rw [hat.tracks.position, hat.tracks.size] at hnone
    rw [pieces_flatten, List.take_of_length_le]
    rw [List.length_drop, hlength]
    omega

/-- A volume of seven clusters of one sector; the chain of a file goes from cluster 2 to 3. -/
def smallDisk : Image where
  size := 512
  bytes := fun address => if 1536 ≤ address then UInt8.ofNat address else
    [(12, 2), (13, 1), (14, 1), (16, 1), (17, 16), (19, 10), (22, 1), (515, 0x03), (516, 0xF0),
      (517, 0xFF)].lookup address |>.getD 0
  reads := 0

def smallGeometry : DriveGeometry where
  bpbSource := .bootRecord
  defaultBpb := FmTowns.floppyBpb
  bpb := FmTowns.floppyBpb

/-- Three chunks of a file of two clusters, from its middle on. -/
theorem readChunks_eq_readChain_small :
    ∃ (vol : FatVolume) (data : List UInt8) (chunks : List (List UInt8)) (s : Reading Image),
      data.length = 700 ∧ vol.Placed smallDisk 2 data ∧
      readChunks vol [450, 0, 200] ⟨.withPosition 2 700 100, smallDisk⟩ =
        some (.ok chunks, s) ∧
      chunks = pieces (data.drop 100) [450, 0, 200] := by
  have hrun : Fallible.passes (fun vol => vol.bpb.clusterSize == 512 &&
      vol.bpb.sectorsPerCluster * vol.sectorRatio == 1 &&
      Fallible.passes (fun data => data.length == 700) (readChain vol 2 700 smallDisk))
      (mount 0x80 0 smallGeometry smallDisk) = true := by
    decide +kernel
  obtain ⟨vol, disk, hmount, hvol⟩ := Fallible.passes_iff.mp hrun
  simp only [Bool.and_eq_true, beq_iff_eq] at hvol
  obtain ⟨⟨hsize, hcount⟩, hchain⟩ := hvol
  obtain ⟨data, disk', hread, hlength⟩ := Fallible.passes_iff.mp hchain
  obtain ⟨hiff, hwhole⟩ := readChunks_eq_readChain_iff hmount (.refl vol) (by norm_num) hread
  have hplaced : vol.Placed smallDisk 2 data := by
    refine hwhole fun cluster bytes h => ?_
    unfold clusterBytes at h
    rw [hcount, Image.sectorsOf_image] at h
    rw [← Except.ok.inj h, hsize]
    simp [Image.bytesAt, smallDisk]
  obtain ⟨chunks, s, hchunks, hpieces, -⟩ := hiff.mpr hplaced 100 [450, 0, 200]
  exact ⟨vol, data, chunks, s, beq_iff_eq.mp hlength, hplaced, hchunks, hpieces⟩

/-- The small volume on an image where the sector of cluster 2 has only 500 bytes. -/
def shortDisk : SectorImage where
  size := 512
  sector lba :=
    (Image.bytesAt smallDisk.bytes (lba * 512) 512).take (if lba = 3 then 500 else 512)

/-- The file of 700 bytes can be read as a whole, but not in one chunk from its start: the cursor
expects 512 bytes of cluster 2. -/
theorem readChunks_short_fails :
    ∃ (vol : FatVolume) (disk disk' : SectorImage) (data : List UInt8),
      mount 0x70 0 smallGeometry shortDisk = some (.ok vol, disk) ∧
      readChain vol 2 700 shortDisk = some (.ok data, disk') ∧ data.length = 700 ∧
      readChunks vol [700] ⟨.withPosition 2 700 0, shortDisk⟩ = none := by
  have hrun : Fallible.passes (fun vol =>
      (readChunks vol [700] ⟨.withPosition 2 700 0, shortDisk⟩).isNone &&
      Fallible.passes (fun data => data.length == 700) (readChain vol 2 700 shortDisk))
      (mount 0x70 0 smallGeometry shortDisk) = true := by
    decide +kernel
  obtain ⟨vol, disk, hmount, hvol⟩ := Fallible.passes_iff.mp hrun
  rw [Bool.and_eq_true, Option.isNone_iff_eq_none] at hvol
  obtain ⟨data, disk', hread, hlength⟩ := Fallible.passes_iff.mp hvol.2
  exact ⟨vol, disk, disk', data, hmount, hread, beq_iff_eq.mp hlength, hvol.1⟩

end Neetan.Fat
