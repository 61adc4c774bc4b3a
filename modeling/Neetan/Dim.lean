import Neetan.D88

/-!
The DIM container: a header with a flag for each track, and the tracks whose flag is set.

A track that is not in the file reads as filler, and its sectors record no place of the file.
-/

namespace Neetan.Floppy

open ByteReader MachineInt

inductive DimError
  | tooShort (actual : ℕ)
  | missingMagic
  | unsupportedMediaType (mediaType : UInt8)
  | invalidTrackFlag (track : ℕ) (value : UInt8)
  | invalidOverTrack (value : UInt8)
  | invalidSize (actual expected : ℕ)
  deriving DecidableEq, Repr

structure DimGeometry where
  cylinders : ℕ
  sectorsPerTrack : ℕ
  sectorSize : ℕ
  sizeCode : UInt8
  deriving DecidableEq

namespace Dim

def dimHeaderSize : ℕ := 256
def magicOffset : ℕ := 0xAB
def trackFlagCount : ℕ := 170
def absentFillByte : UInt8 := 0xE5

/-- `DIFC HEADER`. -/
def magic : List UInt8 := [0x44, 0x49, 0x46, 0x43, 0x20, 0x48, 0x45, 0x41, 0x44, 0x45, 0x52]

def media2hd : UInt8 := 0x00
def media2hs : UInt8 := 0x01
def media2hc : UInt8 := 0x02
def media2hde : UInt8 := 0x03
def media2hq : UInt8 := 0x09

def fromMediaType (mediaType : UInt8) : Option DimGeometry :=
  if mediaType = media2hd then some ⟨77, 8, 1024, 3⟩
  else if mediaType = media2hs ∨ mediaType = media2hde then some ⟨80, 9, 1024, 3⟩
  else if mediaType = media2hc then some ⟨80, 15, 512, 2⟩
  else if mediaType = media2hq then some ⟨80, 18, 512, 2⟩
  else none

def tracksPerDisk (geometry : DimGeometry) : ℕ := geometry.cylinders * 2

def bytesPerTrack (geometry : DimGeometry) : ℕ := geometry.sectorsPerTrack * geometry.sectorSize

/-- The record number of a slot: a byte, or the program stops. -/
def recordOf (slot first : ℕ) : Reading DimError UInt8 := do
  let record ← orStop (checkedAdd 8 slot first)
  return .ofNat record

/-- The head and the record in the ID of a sector. -/
def sectorId (mediaType cylinder physicalHead : UInt8) (slot : ℕ) :
    Reading DimError (UInt8 × UInt8) :=
  let isFirstDiskSector := cylinder = 0 ∧ physicalHead = 0 ∧ slot = 0
  if mediaType = media2hs then do
    let record ← if isFirstDiskSector then pure 1 else recordOf slot 10
    return (physicalHead, record)
  else if mediaType = media2hde then do
    let record ← recordOf slot 1
    return (if isFirstDiskSector then 0 else 0x80 ||| physicalHead, record)
  else do
    let record ← recordOf slot 1
    return (physicalHead, record)

/-- The file has the magic of the header. -/
def hasMagic (data : List UInt8) : Bool :=
  magicOffset + magic.length ≤ data.length &&
    (data.drop magicOffset).take magic.length == magic

/-- The flags, where the first one is the flag of `track`. -/
def checkFlags (tracksPerDisk : ℕ) : ℕ → List UInt8 → Except DimError Unit
  | _, [] => .ok ()
  | track, value :: values =>
    if value = 0x00 ∨ track < tracksPerDisk ∧ value = 0x01 then
      checkFlags tracksPerDisk (track + 1) values
    else .error (.invalidTrackFlag track value)

/-- The data of a slot, and where it stands. -/
def readSlot (data : List UInt8) (geometry : DimGeometry) (saved : Bool) (trackOffset slot : ℕ) :
    Reading DimError (List UInt8 × Option ℕ) :=
  if saved then do
    let offset ← plus trackOffset (slot * geometry.sectorSize)
    let sectorData ← slice data offset (offset + geometry.sectorSize)
    return (sectorData, some offset)
  else pure (List.replicate geometry.sectorSize absentFillByte, none)

def readSectors (data : List UInt8) (mediaType : UInt8) (geometry : DimGeometry)
    (cylinder physicalHead : UInt8) (saved : Bool) (trackOffset : ℕ) :
    List ℕ → Reading DimError D88Track
  | [] => pure []
  | slot :: slots => do
    let (head, record) ← sectorId mediaType cylinder physicalHead slot
    let (sectorData, sourceOffset) ← readSlot data geometry saved trackOffset slot
    let sectors ← readSectors data mediaType geometry cylinder physicalHead saved trackOffset slots
    return {
      cylinder, head, record, sizeCode := geometry.sizeCode
      sectorCount := .ofNat geometry.sectorsPerTrack, mfmFlag := 0x00, deleted := 0x00
      status := 0x00, reserved := Vector.replicate 5 0, data := sectorData, sourceOffset } ::
      sectors

/-- The tracks given, when `savedIndex` tracks of the file stand before them. -/
def readTracks (data : List UInt8) (mediaType : UInt8) (geometry : DimGeometry) :
    List ℕ → ℕ → Reading DimError (List (Option D88Track))
  | [], _ => pure []
  | track :: tracks, savedIndex => do
    let flag ← byte data (1 + track)
    let saved := flag == 0x01
    let stored ← times (bytesPerTrack geometry) savedIndex
    let trackOffset ← plus dimHeaderSize stored
    let sectors ← readSectors data mediaType geometry (.ofNat (track / 2)) (.ofNat (track % 2))
      saved trackOffset (List.range geometry.sectorsPerTrack)
    let others ← readTracks data mediaType geometry tracks
      (if saved then savedIndex + 1 else savedIndex)
    return some sectors :: others

/-- The disk, and a copy of the header. -/
def fromBytes (data : List UInt8) : Reading DimError (D88Disk × Vector UInt8 dimHeaderSize) :=
  if data.length < dimHeaderSize then throw (.tooShort data.length)
  else if !hasMagic data then throw .missingMagic
  else do
    let mediaType ← byte data 0
    let geometry ← okOr (.unsupportedMediaType mediaType) (fromMediaType mediaType)
    let tracksPerDisk := tracksPerDisk geometry
    let flags ← slice data 1 (1 + trackFlagCount)
    decided (checkFlags tracksPerDisk 0 flags)
    let overTrack ← byte data 0xFF
    if overTrack ≠ 0 ∧ overTrack.toNat ≠ tracksPerDisk then throw (.invalidOverTrack overTrack)
    else do
      let trackFlags ← slice data 1 (1 + tracksPerDisk)
      let savedTracks := trackFlags.countP (· == 0x01)
      let stored ← times (bytesPerTrack geometry) savedTracks
      let expected ← plus dimHeaderSize stored
      if data.length ≠ expected then throw (.invalidSize data.length expected)
      else do
        let header ← array data 0 dimHeaderSize
        let trackSectors ← readTracks data mediaType geometry (List.range tracksPerDisk) 0
        return ({
          name := [], writeProtected := false, mediaType := .disk2HD
          tracks := trackSectors }, header)

/-! ### The tracks -/

variable {data : List UInt8} {geometry : DimGeometry}

/-- The sector has the size its code says. It is the one of the file at the offset it records, or
filler without an offset. -/
def Good (data : List UInt8) (sector : D88Sector) : Prop :=
  sector.Sized ∧ (sector.FromFile data ∨
    sector.sourceOffset = none ∧ ∀ byte ∈ sector.data, byte = absentFillByte)

lemma fromMediaType_bounds {mediaType : UInt8} (h : fromMediaType mediaType = some geometry) :
    geometry.sectorSize = 128 <<< geometry.sizeCode.toNat ∧ geometry.sectorsPerTrack ≤ 18 ∧
      tracksPerDisk geometry ≤ 160 ∧ bytesPerTrack geometry ≤ 9216 := by
  rw [fromMediaType] at h
  split at h
  · obtain rfl := Option.some.inj h
    decide
  split at h
  · obtain rfl := Option.some.inj h
    decide
  split at h
  · obtain rfl := Option.some.inj h
    decide
  split at h
  · obtain rfl := Option.some.inj h
    decide
  · cases h

lemma exists_recordOf (slot first : ℕ) (h : slot + first < 2 ^ 8) :
    ∃ record, recordOf slot first = pure record := by
  rw [recordOf, checkedAdd, if_pos h]
  exact ⟨_, rfl⟩

lemma exists_sectorId (mediaType cylinder physicalHead : UInt8) {slot : ℕ} (h : slot < 18) :
    ∃ id, sectorId mediaType cylinder physicalHead slot = pure id := by
  obtain ⟨record, hrecord⟩ := exists_recordOf slot 1 (by omega)
  obtain ⟨late, hlate⟩ := exists_recordOf slot 10 (by omega)
  simp only [sectorId, hrecord, hlate, pure_bind]
  split
  · split
    · exact ⟨_, rfl⟩
    · exact ⟨_, rfl⟩
  · split
    · exact ⟨_, rfl⟩
    · exact ⟨_, rfl⟩

lemma readSlot_ends {saved : Bool} {trackOffset slot : ℕ} (hlen : data.length < 2 ^ 63)
    (hslot : slot < geometry.sectorsPerTrack)
    (hroom : saved = true → trackOffset + bytesPerTrack geometry ≤ data.length) :
    Ends (readSlot data geometry saved trackOffset slot) fun found =>
      found.1.length = geometry.sectorSize ∧
      ((∃ offset, found.2 = some offset ∧ StandsAt data offset found.1) ∨
        found.2 = none ∧ ∀ byte ∈ found.1, byte = absentFillByte) := by
  rw [readSlot]
  split
  · rename_i hsaved
    have hroom := hroom hsaved
    have hslots : slot * geometry.sectorSize + geometry.sectorSize ≤ bytesPerTrack geometry := by
      rw [← Nat.succ_mul]
      exact Nat.mul_le_mul_right geometry.sectorSize hslot
    rw [plus_of_lt (by omega), pure_bind, slice_of_le (Nat.le_add_right _ _) (by omega), pure_bind]
    refine ends_pure ⟨?_, .inl ⟨_, rfl, standsAt_slice (Nat.le_add_right _ _) (by omega)⟩⟩
    rw [length_slice (by omega), Nat.add_sub_cancel_left]
  · exact ends_pure ⟨List.length_replicate, .inr ⟨rfl, fun _ h => List.eq_of_mem_replicate h⟩⟩

lemma readSectors_ends {mediaType cylinder physicalHead : UInt8} {saved : Bool} {trackOffset : ℕ}
    {slots : List ℕ} (hlen : data.length < 2 ^ 63)
    (hsize : geometry.sectorSize = 128 <<< geometry.sizeCode.toNat)
    (hcount : geometry.sectorsPerTrack ≤ 18)
    (hslots : ∀ slot ∈ slots, slot < geometry.sectorsPerTrack)
    (hroom : saved = true → trackOffset + bytesPerTrack geometry ≤ data.length) :
    Ends (readSectors data mediaType geometry cylinder physicalHead saved trackOffset slots)
      fun sectors => ∀ sector ∈ sectors, Good data sector := by
  induction slots with
  | nil => exact ends_pure fun _ h => nomatch h
  | cons slot slots ih =>
    obtain ⟨hslot, hslots⟩ := List.forall_mem_cons.mp hslots
    obtain ⟨id, hid⟩ := exists_sectorId mediaType cylinder physicalHead (hslot.trans_le hcount)
    rw [readSectors, hid, pure_bind]
    refine (readSlot_ends hlen hslot hroom).bind ?_
    rintro ⟨sectorData, sourceOffset⟩ ⟨hlength, hstands⟩
    refine (ih hslots).bind fun sectors hsectors => ends_pure ?_
    refine List.forall_mem_cons.mpr ⟨⟨?_, hstands⟩, hsectors⟩
    rw [D88Sector.Sized, ← hsize]
    exact hlength

/-- The number of the tracks, among the ones given, that are in the file. -/
def savedCount (data : List UInt8) (tracks : List ℕ) : ℕ :=
  tracks.countP fun track => data.getD (1 + track) 0 == 0x01

lemma readTracks_ends {mediaType : UInt8} {tracks : List ℕ} {savedIndex : ℕ}
    (hlen : data.length < 2 ^ 63)
    (hsize : geometry.sectorSize = 128 <<< geometry.sizeCode.toNat)
    (hcount : geometry.sectorsPerTrack ≤ 18)
    (htracks : ∀ track ∈ tracks, 1 + track < data.length)
    (hroom : dimHeaderSize + bytesPerTrack geometry * (savedIndex + savedCount data tracks) ≤
      data.length) :
    Ends (readTracks data mediaType geometry tracks savedIndex) fun tracks =>
      ∀ sector ∈ tracks.flatMap (fun track => track.getD []), Good data sector := by
  induction tracks generalizing savedIndex with
  | nil => exact ends_pure fun _ h => nomatch h
  | cons track tracks ih =>
    obtain ⟨htrack, htracks⟩ := List.forall_mem_cons.mp htracks
    rw [savedCount, List.countP_cons, ← savedCount] at hroom
    have hstored : bytesPerTrack geometry * savedIndex ≤ bytesPerTrack geometry *
        (savedIndex + (savedCount data tracks +
          if data.getD (1 + track) 0 == 0x01 then 1 else 0)) :=
      Nat.mul_le_mul_left _ (Nat.le_add_right _ _)
    rw [readTracks, byte_of_lt htrack, pure_bind, times_of_lt (by omega), pure_bind,
      plus_of_lt (by omega), pure_bind]
    refine (readSectors_ends hlen hsize hcount (fun slot h => List.mem_range.mp h) ?_).bind ?_
    · intro hsaved
      rw [if_pos hsaved] at hroom
      have hnext : bytesPerTrack geometry * (savedIndex + 1) ≤
          bytesPerTrack geometry * (savedIndex + (savedCount data tracks + 1)) :=
        Nat.mul_le_mul_left _ (by omega)
      rw [Nat.mul_succ] at hnext
      omega
    · intro sectors hsectors
      refine (ih htracks ?_).bind fun others hothers => ends_pure ?_
      · refine le_trans (Nat.add_le_add_left (Nat.mul_le_mul_left _ ?_) _) hroom
        split
        · omega
        · omega
      · rw [List.flatMap_cons]
        exact List.forall_mem_append.mpr ⟨hsectors, hothers⟩

/-! ### The file -/

lemma slice_eq_map {first n : ℕ} (h : first + n ≤ data.length) :
    (data.drop first).take n = (List.range n).map fun i => data.getD (first + i) 0 := by
  refine List.ext_getElem ?_ fun i hi hi' => ?_
  · simp only [List.length_take, List.length_drop, List.length_map, List.length_range]
    omega
  · simp only [List.length_map, List.length_range] at hi'
    rw [List.getElem_take, List.getElem_drop, List.getElem_map, List.getElem_range]
    exact List.getElem_eq_getD 0

/-- **DIM files are parsed safely.** The parser ends on every file, and each sector of the disk
has as many bytes as its size code says: the ones of the file at the offset it records, or
filler when it records none. -/
theorem fromBytes_ends (hlen : data.length < 2 ^ 63) :
    Ends (fromBytes data) fun found => ∀ sector ∈ found.1.sectors, Good data sector := by
  rw [fromBytes]
  split
  · exact ends_throw
  split
  · exact ends_throw
  rename_i hheader _
  simp only [dimHeaderSize, Nat.not_lt] at hheader
  rw [byte_of_lt (by omega), pure_bind]
  refine ends_okOr.bind fun geometry hgeometry => ?_
  obtain ⟨hsize, hcount, htracks, hbytes⟩ := fromMediaType_bounds hgeometry
  have hflags : 1 + trackFlagCount ≤ data.length := by
    simp only [trackFlagCount]
    omega
  simp only
  rw [slice_of_le (Nat.le_add_right _ _) hflags, pure_bind]
  refine (ends_decided fun _ _ => trivial).bind fun _ _ => ?_
  rw [byte_of_lt (by omega), pure_bind]
  split
  · exact ends_throw
  rw [slice_of_le (Nat.le_add_right _ _) (by omega), pure_bind, Nat.add_sub_cancel_left,
    slice_eq_map (by omega), List.countP_map]
  have hsaved : savedCount data (List.range (tracksPerDisk geometry)) ≤ 160 :=
    (List.countP_le_length.trans_eq List.length_range).trans htracks
  have hstored : bytesPerTrack geometry * savedCount data (List.range (tracksPerDisk geometry)) ≤
      9216 * 160 := Nat.mul_le_mul hbytes hsaved
  change Ends (times (bytesPerTrack geometry)
    (savedCount data (List.range (tracksPerDisk geometry))) >>= _) _
  rw [times_of_lt (by omega), pure_bind, plus_of_lt (by simp only [dimHeaderSize]; omega),
    pure_bind]
  split
  · exact ends_throw
  rename_i hexpected
  rw [ne_eq, not_not] at hexpected
  rw [array_of_le (by simp only [dimHeaderSize]; omega), pure_bind]
  refine (readTracks_ends hlen hsize hcount ?_ ?_).bind fun tracks hgood => ends_pure hgood
  · intro track hmem
    rw [List.mem_range] at hmem
    omega
  · rw [Nat.zero_add]
    exact hexpected.ge

end Dim

end Neetan.Floppy
