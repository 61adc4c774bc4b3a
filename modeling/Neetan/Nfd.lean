import Neetan.D88

/-!
The NFD container in its two revisions.

R0 has a map of 163 × 26 entries, and the data of its sectors follows the header in the order
of the map. R1 has for each track a block of entries that a table points at, copies of a
sector behind its data, and further reads with data of their own. What a disk has no place
for is kept beside it.
-/

namespace Neetan.Floppy

open LittleEndian ByteReader

inductive NfdError
  | tooSmall
  | invalidMagic
  | headerTruncated (headerSize actual : ℕ)
  | dataTruncated (track offset : ℕ)
  | invalidTrackOffset (track offset : ℕ)
  | unknownPda (pda : UInt8)
  deriving DecidableEq, Repr

/-- What an R0 entry has beside the sector. -/
structure NfdR0SectorExtra where
  mfmByte : UInt8
  fdcStatus : Vector UInt8 3
  pda : UInt8
  reserved : Vector UInt8 5
  deriving DecidableEq

structure NfdR0Extra where
  headerTail : List UInt8
  tracks : List (List NfdR0SectorExtra)
  deriving DecidableEq

/-- What an R1 entry has beside the sector. -/
structure NfdR1SectorExtra where
  mfmByte : UInt8
  fdcStatus : Vector UInt8 3
  pda : UInt8
  reserved : Vector UInt8 4
  retryData : List (List UInt8)
  deriving DecidableEq

structure NfdDiagExtra where
  entry : Vector UInt8 16
  payload : List UInt8
  deriving DecidableEq

structure NfdR1TrackExtra where
  headerReserved : Vector UInt8 12
  sectors : List NfdR1SectorExtra
  diag : List NfdDiagExtra
  deriving DecidableEq

structure NfdR1Extra where
  headerGap : List UInt8
  additionalInfoOffset : ℕ
  canonicalLayout : Bool
  tracks : List (Option NfdR1TrackExtra)
  deriving DecidableEq

inductive NfdRevisionExtra
  | r0 (extra : NfdR0Extra)
  | r1 (extra : NfdR1Extra)
  deriving DecidableEq

structure NfdExtra where
  magicPad : UInt8
  comment : Vector UInt8 0x100
  protectByte : UInt8
  headCount : UInt8
  headerReserved : Vector UInt8 10
  trailing : List UInt8
  revision : NfdRevisionExtra
  deriving DecidableEq

namespace Nfd

/-- `T98FDDIMAGE.R0` and a zero byte. -/
def r0Magic : List UInt8 :=
  [0x54, 0x39, 0x38, 0x46, 0x44, 0x44, 0x49, 0x4D, 0x41, 0x47, 0x45, 0x2E, 0x52, 0x30, 0x00]

/-- `T98FDDIMAGE.R1` and a zero byte. -/
def r1Magic : List UInt8 :=
  [0x54, 0x39, 0x38, 0x46, 0x44, 0x44, 0x49, 0x4D, 0x41, 0x47, 0x45, 0x2E, 0x52, 0x31, 0x00]

def commonHeaderSize : ℕ := 0x120
def r0TrackMax : ℕ := 163
def r1TrackMax : ℕ := 164
def sectorsPerTrack : ℕ := 26
def sectorEntrySize : ℕ := 16
def diagEntrySize : ℕ := 16
def r1TrackHeaderSize : ℕ := 16
def r0SectorMapEnd : ℕ := commonHeaderSize + r0TrackMax * sectorsPerTrack * sectorEntrySize
def r1FixedHeaderEnd : ℕ := commonHeaderSize + r1TrackMax * 4

def mediaTypeFromPda (pda sizeCode : UInt8) : Except NfdError D88MediaType :=
  if pda = 0x10 then .ok .disk2DD
  else if pda = 0x30 ∨ pda = 0x90 then .ok .disk2HD
  else if pda = 0x00 then .ok (if sizeCode ≤ 1 then .disk2HD else .disk2DD)
  else .error (.unknownPda pda)

/-- The bytes of a sector: the bits that the shift moves out of the word are lost. -/
def sectorBytes (sizeCode : ℕ) : ℕ := (128 <<< sizeCode) % 2 ^ 64

/-- `128usize << n`, which stops the program from 64 on. -/
def sectorSize (sizeCode : UInt8) : Reading NfdError ℕ :=
  if sizeCode.toNat < 64 then pure (sectorBytes sizeCode.toNat) else stop

def mfmFlagOf (flMfm : UInt8) : UInt8 := if flMfm = 0 then 0x40 else 0x00

/-! ### Reading R0 -/

def r0EntryOffset (track slot : ℕ) : ℕ :=
  commonHeaderSize + (track * sectorsPerTrack + slot) * sectorEntrySize

/-- The entries of a track, among the slots given, that hold a sector. -/
def countSlots (data : List UInt8) (track : ℕ) : List ℕ → Reading NfdError ℕ
  | [] => pure 0
  | slot :: slots => do
    let cylinder ← byte data (r0EntryOffset track slot)
    let count ← countSlots data track slots
    return if cylinder = 0xFF then count else count + 1

def countTracks (data : List UInt8) : List ℕ → Reading NfdError (List ℕ)
  | [] => pure []
  | track :: tracks => do
    let count ← countSlots data track (List.range sectorsPerTrack)
    let counts ← countTracks data tracks
    return count :: counts

/-- The media type by the first entry that holds a sector. -/
def detectMedia (data : List UInt8) : List (ℕ × ℕ) → Reading NfdError D88MediaType
  | [] => pure .disk2HD
  | (track, slot) :: places => do
    let cylinder ← byte data (r0EntryOffset track slot)
    if cylinder = 0xFF then detectMedia data places
    else do
      let sizeCode ← byte data (r0EntryOffset track slot + 3)
      let pda ← byte data (r0EntryOffset track slot + 10)
      decided (mediaTypeFromPda pda sizeCode)

/-- A sector, and the offset behind its data. -/
def readR0Sector (data : List UInt8) (track slot count dataOffset : ℕ) :
    Reading NfdError ((D88Sector × NfdR0SectorExtra) × ℕ) := do
  let entryOffset := r0EntryOffset track slot
  let cylinder ← byte data entryOffset
  let head ← byte data (entryOffset + 1)
  let record ← byte data (entryOffset + 2)
  let sizeCode ← byte data (entryOffset + 3)
  let flMfm ← byte data (entryOffset + 4)
  let flDdam ← byte data (entryOffset + 5)
  let byStatus ← byte data (entryOffset + 6)
  let fdcStatus ← array data (entryOffset + 7) 3
  let pda ← byte data (entryOffset + 10)
  let reserved ← array data (entryOffset + 11) 5
  let sectorSize ← sectorSize sizeCode
  let dataEnd ← plus dataOffset sectorSize
  if data.length < dataEnd then throw (.dataTruncated track dataOffset)
  else do
    let sectorData ← slice data dataOffset dataEnd
    return (({
      cylinder, head, record, sizeCode
      sectorCount := .ofNat count, mfmFlag := mfmFlagOf flMfm, deleted := flDdam
      status := byStatus, reserved := Vector.replicate 5 0, data := sectorData
      sourceOffset := some dataOffset }, { mfmByte := flMfm, fdcStatus, pda, reserved }), dataEnd)

/-- The sectors of the slots given, and where the data behind them begins. -/
def readR0Slots (data : List UInt8) (track count : ℕ) :
    List ℕ → ℕ → Reading NfdError (List (D88Sector × NfdR0SectorExtra) × ℕ)
  | [], dataOffset => pure ([], dataOffset)
  | slot :: slots, dataOffset => do
    let cylinder ← byte data (r0EntryOffset track slot)
    if cylinder = 0xFF then readR0Slots data track count slots dataOffset
    else do
      let (sector, dataOffset) ← readR0Sector data track slot count dataOffset
      let (sectors, dataOffset) ← readR0Slots data track count slots dataOffset
      return (sector :: sectors, dataOffset)

/-- The tracks given with their counts, and where the data behind them begins. -/
def readR0Tracks (data : List UInt8) :
    List (ℕ × ℕ) → ℕ → Reading NfdError (List (List (D88Sector × NfdR0SectorExtra)) × ℕ)
  | [], dataOffset => pure ([], dataOffset)
  | (track, count) :: tracks, dataOffset => do
    let (sectors, dataOffset) ←
      readR0Slots data track count (List.range sectorsPerTrack) dataOffset
    let (others, dataOffset) ← readR0Tracks data tracks dataOffset
    return (sectors :: others, dataOffset)

/-- A track of the table: none when it has no sector. -/
def trackOf {α : Type} (sectors : List (D88Sector × α)) : Option D88Track :=
  if sectors = [] then none else some (sectors.map Prod.fst)

/-- The header fields that both revisions keep. -/
def readExtra (data : List UInt8) (trailing : List UInt8) (revision : NfdRevisionExtra) :
    Reading NfdError NfdExtra := do
  let magicPad ← byte data 0x0F
  let comment ← array data 0x10 0x100
  let protectByte ← byte data 0x114
  let headCount ← byte data 0x115
  let headerReserved ← array data 0x116 10
  return { magicPad, comment, protectByte, headCount, headerReserved, trailing, revision }

/-- The slots of the map, track by track. -/
def r0Places : List (ℕ × ℕ) := (List.range r0TrackMax).product (List.range sectorsPerTrack)

def parseR0 (data : List UInt8) : Reading NfdError (D88Disk × NfdExtra) := do
  let headSize ← word 4 data 0x110
  let protect ← byte data 0x114
  if data.length < headSize ∨ headSize < r0SectorMapEnd ∨ data.length < r0SectorMapEnd then
    throw (.headerTruncated headSize data.length)
  else do
    let validCounts ← countTracks data (List.range r0TrackMax)
    let mediaType ← detectMedia data r0Places
    let (tracks, dataOffset) ←
      readR0Tracks data ((List.range r0TrackMax).zip validCounts) headSize
    let headerTail ← slice data r0SectorMapEnd headSize
    let trailing ← slice data dataOffset data.length
    let extra ← readExtra data trailing
      (.r0 { headerTail, tracks := tracks.map (List.map Prod.snd) })
    return ({
      name := [], writeProtected := protect != 0, mediaType
      tracks := tracks.map trackOf }, extra)

/-! ### Reading R1 -/

/-- The copies of a sector behind its data. -/
def readRetries (data : List UInt8) (dataOffset sectorSize : ℕ) :
    List ℕ → Reading NfdError (List (List UInt8))
  | [] => pure []
  | copy :: copies => do
    let first := dataOffset + copy * sectorSize
    let retry ← slice data first (first + sectorSize)
    let retries ← readRetries data dataOffset sectorSize copies
    return retry :: retries

/-- What the loops over an R1 file carry: where the data goes on, and the media type once a
sector has shown it. -/
structure R1Place where
  dataOffset : ℕ
  mediaType : Option D88MediaType

/-- The media type that is known already, or the one that the sector shows. -/
def mediaTypeWith (known : Option D88MediaType) (pda sizeCode : UInt8) :
    Except NfdError D88MediaType :=
  match known with
  | some mediaType => .ok mediaType
  | none => mediaTypeFromPda pda sizeCode

def readR1Sector (data : List UInt8) (track sectorCount entryOffset : ℕ) (place : R1Place) :
    Reading NfdError ((D88Sector × NfdR1SectorExtra) × R1Place) := do
  let cylinder ← byte data entryOffset
  let head ← byte data (entryOffset + 1)
  let record ← byte data (entryOffset + 2)
  let sizeCode ← byte data (entryOffset + 3)
  let flMfm ← byte data (entryOffset + 4)
  let flDdam ← byte data (entryOffset + 5)
  let byStatus ← byte data (entryOffset + 6)
  let fdcStatus ← array data (entryOffset + 7) 3
  let byRetry ← byte data (entryOffset + 10)
  let pda ← byte data (entryOffset + 11)
  let reserved ← array data (entryOffset + 12) 4
  let sectorSize ← sectorSize sizeCode
  let totalSize ← times sectorSize (1 + byRetry.toNat)
  let dataEnd ← plus place.dataOffset totalSize
  if data.length < dataEnd then throw (.dataTruncated track place.dataOffset)
  else do
    let mediaType ← decided (mediaTypeWith place.mediaType pda sizeCode)
    let sectorData ← slice data place.dataOffset (place.dataOffset + sectorSize)
    let retryData ← readRetries data place.dataOffset sectorSize (List.range' 1 byRetry.toNat)
    return (({
      cylinder, head, record, sizeCode
      sectorCount := .ofNat sectorCount, mfmFlag := mfmFlagOf flMfm, deleted := flDdam
      status := byStatus, reserved := Vector.replicate 5 0, data := sectorData
      sourceOffset := some place.dataOffset },
      { mfmByte := flMfm, fdcStatus, pda, reserved, retryData }), ⟨dataEnd, some mediaType⟩)

/-- The `n` sectors whose entries begin at `entryOffset`. -/
def readR1Sectors (data : List UInt8) (track sectorCount : ℕ) :
    ℕ → ℕ → R1Place → Reading NfdError (List (D88Sector × NfdR1SectorExtra) × R1Place)
  | 0, _, place => pure ([], place)
  | n + 1, entryOffset, place => do
    let (sector, place) ← readR1Sector data track sectorCount entryOffset place
    let (sectors, place) ←
      readR1Sectors data track sectorCount n (entryOffset + sectorEntrySize) place
    return (sector :: sectors, place)

/-- The further reads whose entries begin at `diagOffset`, and the offset behind their data. -/
def readDiag (data : List UInt8) (track : ℕ) :
    ℕ → ℕ → ℕ → Reading NfdError (List NfdDiagExtra × ℕ)
  | 0, _, dataOffset => pure ([], dataOffset)
  | n + 1, diagOffset, dataOffset => do
    let entry ← array data diagOffset diagEntrySize
    let byRetry ← byte data (diagOffset + 9)
    let dwDataLen ← word 4 data (diagOffset + 10)
    let totalDiagSize ← times dwDataLen (1 + byRetry.toNat)
    let dataEnd ← plus dataOffset totalDiagSize
    if data.length < dataEnd then throw (.dataTruncated track dataOffset)
    else do
      let payload ← slice data dataOffset dataEnd
      let (diag, dataOffset) ← readDiag data track n (diagOffset + diagEntrySize) dataEnd
      return ({ entry, payload } :: diag, dataOffset)

/-- What the track loop carries. -/
structure R1State where
  place : R1Place
  canonicalLayout : Bool
  expectedMetadataOffset : ℕ

def readR1Track (data : List UInt8) (track trackMeta : ℕ) (state : R1State) :
    Reading NfdError ((List (D88Sector × NfdR1SectorExtra) × NfdR1TrackExtra) × R1State) := do
  let entriesStart ← plus trackMeta r1TrackHeaderSize
  if data.length < entriesStart then throw (.invalidTrackOffset track trackMeta)
  else do
    let sectorCount ← word 2 data trackMeta
    let diagCount ← word 2 data (trackMeta + 2)
    let headerReserved ← array data (trackMeta + 4) 12
    let entriesEnd ← plus entriesStart (sectorCount * sectorEntrySize)
    let diagEntriesEnd ← plus entriesEnd (diagCount * diagEntrySize)
    if data.length < diagEntriesEnd then throw (.invalidTrackOffset track trackMeta)
    else do
      let (sectors, place) ←
        readR1Sectors data track sectorCount sectorCount entriesStart state.place
      let (diag, dataOffset) ← readDiag data track diagCount entriesEnd place.dataOffset
      let expectedMetadataOffset ← plus state.expectedMetadataOffset
        (r1TrackHeaderSize + sectorCount * sectorEntrySize + diagCount * diagEntrySize)
      return ((sectors, { headerReserved, sectors := sectors.map Prod.snd, diag }), {
        place := ⟨dataOffset, place.mediaType⟩
        canonicalLayout := state.canonicalLayout && trackMeta == state.expectedMetadataOffset
        expectedMetadataOffset })

/-- A track of the file, none where the table has no pointer. -/
abbrev R1Track := Option (List (D88Sector × NfdR1SectorExtra) × NfdR1TrackExtra)

/-- The tracks at the given pointers, where the first one has the index `track`. -/
def readR1Tracks (data : List UInt8) :
    ℕ → List ℕ → R1State → Reading NfdError (List R1Track × R1State)
  | _, [], state => pure ([], state)
  | track, offset :: offsets, state =>
    if offset = 0 then do
      let (tracks, state) ← readR1Tracks data (track + 1) offsets state
      return (none :: tracks, state)
    else do
      let (found, state) ← readR1Track data track offset state
      let (tracks, state) ← readR1Tracks data (track + 1) offsets state
      return (some found :: tracks, state)

/-- The least pointer of the table, or the end of the header when it is empty. -/
def firstBlockOffset (offsets : List ℕ) (headSize : ℕ) : ℕ :=
  ((offsets.filter (· ≠ 0)).min?).getD headSize

def parseR1 (data : List UInt8) : Reading NfdError (D88Disk × NfdExtra) := do
  let headSize ← word 4 data 0x110
  let protect ← byte data 0x114
  if data.length < headSize ∨ data.length < r1FixedHeaderEnd ∨ headSize < r1FixedHeaderEnd then
    throw (.headerTruncated headSize data.length)
  else do
    let trackOffsets ← words 4 data commonHeaderSize r1TrackMax
    let firstBlock := firstBlockOffset trackOffsets headSize
    if firstBlock < r1FixedHeaderEnd ∨ data.length < firstBlock then
      throw (.invalidTrackOffset 0 firstBlock)
    else do
      let headerGap ← slice data r1FixedHeaderEnd firstBlock
      let expected ← plus r1FixedHeaderEnd headerGap.length
      let (tracks, state) ← readR1Tracks data 0 trackOffsets {
        place := ⟨headSize, none⟩, canonicalLayout := true, expectedMetadataOffset := expected }
      let trailing ← slice data state.place.dataOffset data.length
      let extra ← readExtra data trailing (.r1 {
        headerGap
        additionalInfoOffset := if 4 ≤ headerGap.length then fromLe (headerGap.take 4) else 0
        canonicalLayout := state.canonicalLayout && state.expectedMetadataOffset == headSize
        tracks := tracks.map (Option.map Prod.snd) })
      return ({
        name := [], writeProtected := protect != 0
        mediaType := state.place.mediaType.getD .disk2HD
        tracks := tracks.map fun track => track.bind fun found => trackOf found.1 }, extra)

def fromBytes (data : List UInt8) : Reading NfdError (D88Disk × NfdExtra) :=
  if data.length < commonHeaderSize then throw .tooSmall
  else do
    let magic ← slice data 0 15
    if magic = r0Magic then parseR0 data
    else if magic = r1Magic then parseR1 data
    else throw .invalidMagic

end Nfd

end Neetan.Floppy
