import Neetan.ByteReader
import Neetan.Utf8

/-!
The D88 container: a header with a table of track pointers, and behind it for each track its
sectors, each with a header of its own.

The disk it describes is the one that every other floppy format is parsed into.
-/

namespace Neetan.Floppy

open LittleEndian ByteReader

inductive D88MediaType
  | disk2D | disk2DD | disk2HD
  deriving DecidableEq, Repr

inductive D88Error
  | tooSmall
  | sizeMismatch (header actual : ℕ)
  | unknownMediaType (byte : UInt8)
  | truncatedSector (track offset : ℕ)
  deriving DecidableEq, Repr

structure D88Sector where
  cylinder : UInt8
  head : UInt8
  record : UInt8
  /-- The size of the sector is `128 <<< sizeCode`. -/
  sizeCode : UInt8
  sectorCount : UInt16
  mfmFlag : UInt8
  deleted : UInt8
  status : UInt8
  reserved : Vector UInt8 5
  data : List UInt8
  /-- Where the data stands in the file, when it stands there. -/
  sourceOffset : Option ℕ
  deriving DecidableEq

abbrev D88Track := List D88Sector

structure D88Disk where
  name : List Char
  writeProtected : Bool
  mediaType : D88MediaType
  /-- The tracks, by cylinder × 2 + head. -/
  tracks : List (Option D88Track)
  deriving DecidableEq

/-- The sectors of all tracks. -/
def D88Disk.sectors (self : D88Disk) : List D88Sector :=
  self.tracks.flatMap fun track => track.getD []

def headerSize : ℕ := 0x2B0
def trackMax : ℕ := 164
def sectorHeaderSize : ℕ := 16

/-! ### Parsing -/

def readName (data : List UInt8) : Reading D88Error (List Char) := do
  let bytes ← slice data 0 17
  return Utf8.fromUtf8Lossy (bytes.takeWhile (· != 0))

def mediaTypeOf (byte : UInt8) : Except D88Error D88MediaType :=
  match (byte >>> 4).toNat with
  | 0x00 => .ok .disk2D
  | 0x01 => .ok .disk2DD
  | 0x02 => .ok .disk2HD
  | _ => .error (.unknownMediaType byte)

/-- The next pointer behind a track, or the end of the disk. -/
def findTrackEnd (offsets : List ℕ) (current diskSize : ℕ) : ℕ :=
  offsets.foldl (fun trackEnd off => if current < off ∧ off < trackEnd then off else trackEnd)
    diskSize

def readSector (data : List UInt8) (track pos : ℕ) : Reading D88Error D88Sector := do
  let cylinder ← byte data pos
  let head ← byte data (pos + 1)
  let record ← byte data (pos + 2)
  let sizeCode ← byte data (pos + 3)
  let sectorCount ← word 2 data (pos + 4)
  let mfmFlag ← byte data (pos + 6)
  let deleted ← byte data (pos + 7)
  let status ← byte data (pos + 8)
  let reserved ← array data (pos + 9) 5
  let sectorDataSize ← word 2 data (pos + 0x0E)
  let dataStart ← plus pos sectorHeaderSize
  let dataEnd ← plus dataStart sectorDataSize
  if data.length < dataEnd then throw (.truncatedSector track pos)
  else do
    let sectorData ← slice data dataStart dataEnd
    return {
      cylinder, head, record, sizeCode, mfmFlag, deleted, status, reserved
      sectorCount := .ofNat sectorCount, data := sectorData, sourceOffset := some dataStart }

/-- The sectors of a track from `pos` on, when it already has `count` sectors. -/
def readSectors (data : List UInt8) (track trackEnd count pos : ℕ) : Reading D88Error D88Track :=
  if 2 ^ 64 ≤ pos + sectorHeaderSize then stop
  else if h : data.length < pos + sectorHeaderSize ∨ trackEnd ≤ pos then pure []
  else do
    let sector ← readSector data track pos
    if sector.sectorCount.toNat ≤ count + 1 ∧ 0 < sector.sectorCount.toNat then return [sector]
    else do
      let next := pos + sectorHeaderSize + sector.data.length
      let sectors ← readSectors data track trackEnd (count + 1) next
      return sector :: sectors
termination_by data.length - pos
decreasing_by
  simp only [sectorHeaderSize] at h ⊢
  omega

def readTrack (data : List UInt8) (trackOffsets : List ℕ) (diskSize track offset : ℕ) :
    Reading D88Error (Option D88Track) :=
  if offset = 0 then pure none
  else do
    let trackEnd := findTrackEnd trackOffsets offset diskSize
    let sectors ← readSectors data track trackEnd 0 offset
    return if sectors = [] then none else some sectors

/-- The tracks at the given pointers, where the first one has the index `track`. -/
def readTracks (data : List UInt8) (trackOffsets : List ℕ) (diskSize : ℕ) :
    ℕ → List ℕ → Reading D88Error (List (Option D88Track))
  | _, [] => pure []
  | track, offset :: offsets => do
    let found ← readTrack data trackOffsets diskSize track offset
    let tracks ← readTracks data trackOffsets diskSize (track + 1) offsets
    return found :: tracks

def D88Disk.fromBytes (data : List UInt8) : Reading D88Error D88Disk :=
  if data.length < headerSize then throw .tooSmall
  else do
    let name ← readName data
    let protect ← byte data 0x1A
    let media ← byte data 0x1B
    let mediaType ← decided (mediaTypeOf media)
    let diskSize ← word 4 data 0x1C
    if diskSize ≠ data.length then throw (.sizeMismatch diskSize data.length)
    else do
      let trackOffsets ← words 4 data 0x20 trackMax
      let tracks ← readTracks data trackOffsets diskSize 0 trackOffsets
      return { name, writeProtected := protect &&& 0x10 != 0, mediaType, tracks }

/-! ### Where the data of a sector stands -/

/-- The bytes are the ones of the file at the offset. -/
def StandsAt (data : List UInt8) (offset : ℕ) (bytes : List UInt8) : Prop :=
  offset + bytes.length ≤ data.length ∧ (data.drop offset).take bytes.length = bytes

/-- The sector records where it comes from, and its data are the bytes of the file there. -/
def D88Sector.FromFile (data : List UInt8) (sector : D88Sector) : Prop :=
  ∃ offset, sector.sourceOffset = some offset ∧ StandsAt data offset sector.data

/-- The sector has as many bytes as its size code says. -/
def D88Sector.Sized (sector : D88Sector) : Prop :=
  sector.data.length = 128 <<< sector.sizeCode.toNat

lemma length_slice {data : List UInt8} {first last : ℕ} (h : last ≤ data.length) :
    ((data.drop first).take (last - first)).length = last - first := by
  rw [List.length_take, List.length_drop]
  omega

lemma standsAt_slice {data : List UInt8} {first last : ℕ} (h : first ≤ last)
    (h' : last ≤ data.length) :
    StandsAt data first ((data.drop first).take (last - first)) := by
  rw [StandsAt, length_slice h']
  exact ⟨by omega, rfl⟩

section Parsed

variable {data : List UInt8}

lemma readSector_ends {track pos : ℕ} (hlen : data.length < 2 ^ 63)
    (h : pos + sectorHeaderSize ≤ data.length) :
    Ends (readSector data track pos) fun sector =>
      sector.sourceOffset = some (pos + sectorHeaderSize) ∧
      StandsAt data (pos + sectorHeaderSize) sector.data := by
  have hsize : wordAt 2 data (pos + 0x0E) < 2 ^ 16 := wordAt_lt 2 data _
  simp only [sectorHeaderSize] at h
  simp (disch := omega) only [readSector, byte_of_lt, word_of_le, array_of_le, pure_bind,
    sectorHeaderSize, plus_of_lt]
  split
  · exact ends_throw
  · rename_i hend
    rw [slice_of_le (by omega) (by omega), pure_bind]
    exact ends_pure ⟨rfl, standsAt_slice (by omega) (by omega)⟩

/-- The sectors of a track come from the file, whatever pointers and sizes it holds. -/
lemma readSectors_ends {track trackEnd count pos : ℕ} (hlen : data.length < 2 ^ 63)
    (hpos : pos < 2 ^ 63) :
    Ends (readSectors data track trackEnd count pos) fun sectors =>
      ∀ sector ∈ sectors, sector.FromFile data := by
  fun_induction readSectors data track trackEnd count pos with
  | case1 count pos hover =>
    simp only [sectorHeaderSize] at hover
    omega
  | case2 => exact ends_pure fun _ h => nomatch h
  | case3 count pos _ hfit ih =>
    simp only [not_or, Nat.not_lt, Nat.not_le] at hfit
    refine (readSector_ends hlen hfit.1).bind ?_
    rintro sector ⟨hoffset, hstands⟩
    have hsector : sector.FromFile data := ⟨_, hoffset, hstands⟩
    split
    · exact ends_pure (List.forall_mem_singleton.mpr hsector)
    · refine (ih sector (by have := hstands.1; omega)).bind fun sectors hsectors => ?_
      exact ends_pure (List.forall_mem_cons.mpr ⟨hsector, hsectors⟩)

lemma readTracks_ends {trackOffsets offsets : List ℕ} {diskSize track : ℕ}
    (hlen : data.length < 2 ^ 63) (hoffsets : ∀ offset ∈ offsets, offset < 2 ^ 63) :
    Ends (readTracks data trackOffsets diskSize track offsets) fun tracks =>
      ∀ sector ∈ tracks.flatMap (fun track => track.getD []), sector.FromFile data := by
  induction offsets generalizing track with
  | nil => exact ends_pure fun _ h => nomatch h
  | cons offset offsets ih =>
    obtain ⟨hoffset, hoffsets⟩ := List.forall_mem_cons.mp hoffsets
    have hfound : Ends (readTrack data trackOffsets diskSize track offset) fun found =>
        ∀ sector ∈ found.getD [], sector.FromFile data := by
      rw [readTrack]
      split
      · exact ends_pure fun _ h => nomatch h
      · refine (readSectors_ends hlen hoffset).bind fun sectors hsectors => ends_pure ?_
        split
        · exact fun _ h => nomatch h
        · exact hsectors
    refine hfound.bind fun found hfound => (ih hoffsets).bind fun tracks htracks => ends_pure ?_
    rw [List.flatMap_cons]
    exact List.forall_mem_append.mpr ⟨hfound, htracks⟩

/-- **D88 files are parsed safely.** The parser ends on every file, and each sector of the disk
holds the bytes of the file at the offset it records. -/
theorem D88Disk.fromBytes_ends (hlen : data.length < 2 ^ 63) :
    Ends (D88Disk.fromBytes data) fun disk => ∀ sector ∈ disk.sectors, sector.FromFile data := by
  rw [D88Disk.fromBytes]
  split
  · exact ends_throw
  rename_i hheader
  simp only [headerSize, Nat.not_lt] at hheader
  simp (disch := omega) only [readName, slice_of_le, byte_of_lt, word_of_le, pure_bind]
  refine (ends_decided fun _ _ => trivial).bind fun mediaType _ => ?_
  split
  · exact ends_throw
  · have htable : 0x20 + 4 * trackMax ≤ data.length := by
      simp only [trackMax]
      omega
    rw [words_of_le htable, pure_bind]
    refine (readTracks_ends hlen ?_).bind fun tracks htracks => ends_pure htracks
    intro offset hoffset
    obtain ⟨i, -, rfl⟩ := List.mem_map.mp hoffset
    exact lt_of_lt_of_le (wordAt_lt 4 data _) (by norm_num)

end Parsed

end Neetan.Floppy
