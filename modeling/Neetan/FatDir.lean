import Neetan.FatVolume
import Neetan.Utf8
import Mathlib.Data.List.DropRight

/-!
Directories of a FAT volume: the entries in their slots, searching and listing them.

A directory is the fixed root or a chain of clusters, and its sectors hold 32-byte slots. A
slot whose first byte is zero ends the directory, one whose first byte is `E5h` is free.
-/

namespace Neetan.Fat

open Disk Fallible MachineInt Utf8

def dirEntrySize : ℕ := 32
def reservedOffset : ℕ := 12
def extensionOffset : ℕ := 8
def timeOffset : ℕ := 22
def deletedEntryMarker : UInt8 := 0xE5
def escapedDeletedMarker : UInt8 := 0x05
def attrHidden : UInt8 := 0x02
def attrSystem : UInt8 := 0x04
def attrVolumeId : UInt8 := 0x08
def attrDirectory : UInt8 := 0x10

abbrev FcbName : Type := Vector UInt8 11

def dotName : FcbName := #v[0x2E, 0x20, 0x20, 0x20, 0x20, 0x20, 0x20, 0x20, 0x20, 0x20, 0x20]

def dotDotName : FcbName := #v[0x2E, 0x2E, 0x20, 0x20, 0x20, 0x20, 0x20, 0x20, 0x20, 0x20, 0x20]

/-- A parsed directory entry with its place on disk. -/
structure DirEntry where
  name : FcbName
  attr : UInt8
  reserved : Vector UInt8 10
  time : ℕ
  date : ℕ
  startCluster : ℕ
  fileSize : ℕ
  dirSector : ℕ
  dirOffset : ℕ
  deriving DecidableEq

/-! ### Names -/

def isShiftJisLeadByte (byte : UInt8) : Bool :=
  (0x81 ≤ byte && byte ≤ 0x9F) || (0xE0 ≤ byte && byte ≤ 0xFC)

def isShiftJisTrailByte (byte : UInt8) : Bool :=
  (0x40 ≤ byte && byte ≤ 0x7E) || (0x80 ≤ byte && byte ≤ 0xFC)

def invalidAsciiNameBytes : List UInt8 :=
  ['"', '*', '+', ',', '.', '/', ':', ';', '<', '=', '>', '?', '[', '\\', ']', '|'].map
    fun c => UInt8.ofNat c.toNat

def isInvalidAsciiNameByte (byte : UInt8) : Bool := invalidAsciiNameBytes.contains byte

def isValidFcbFieldLoop : List UInt8 → Bool
  | [] => true
  | byte :: rest =>
    if byte ≤ 0x20 || isInvalidAsciiNameByte byte then false
    else if isShiftJisLeadByte byte then
      match rest with
      | [] => false
      | trail :: rest => isShiftJisTrailByte trail && isValidFcbFieldLoop rest
    else if byte ≥ 0x80 && !(0xA1 ≤ byte && byte ≤ 0xDF) then false
    else isValidFcbFieldLoop rest

/-- A field of a name without the spaces behind it. -/
def trimmed (field : List UInt8) : List UInt8 := field.rdropWhile (· == 0x20)

def isValidFcbField (field : List UInt8) : Bool := isValidFcbFieldLoop (trimmed field)

/-- The reserved bytes up to the first zero byte continue the name on a Human68k volume. -/
def human68kNameContinuation (reserved : Vector UInt8 10) : List UInt8 :=
  reserved.toList.takeWhile (· != 0)

def isValidEntryName (name : FcbName) (continuation : List UInt8) : Bool :=
  if continuation.length > 10 then false
  else if name = dotName ∨ name = dotDotName then true
  else if name[0] = 0x20 then false
  else isValidFcbField (name.toList.take extensionOffset ++ continuation) &&
    isValidFcbField (name.toList.drop extensionOffset)

def isValidFcbName (name : FcbName) : Bool := isValidEntryName name []

def isValidHuman68kName (name : FcbName) (reserved : Vector UInt8 10) : Bool :=
  isValidEntryName name (human68kNameContinuation reserved)

/-- Base and extension with a dot between them if there is an extension. -/
def displayName (base extension : List UInt8) : List UInt8 :=
  trimmed base ++ if trimmed extension = [] then [] else 0x2E :: trimmed extension

def fcbToDisplayName (fcb : FcbName) : List UInt8 :=
  displayName (fcb.toList.take extensionOffset) (fcb.toList.drop extensionOffset)

def DirEntry.human68kDisplayName (entry : DirEntry) : List UInt8 :=
  displayName (entry.name.toList.take extensionOffset ++ human68kNameContinuation entry.reserved)
    (entry.name.toList.drop extensionOffset)

/-- The bytes for a field of a name, and what is left; a star fills the field. -/
def fillField (stopAtDot : Bool) : ℕ → List UInt8 → List UInt8 × List UInt8
  | 0, rest => ([], rest)
  | width + 1, [] => (List.replicate (width + 1) 0x20, [])
  | width + 1, byte :: rest =>
    if stopAtDot && byte == 0x2E then (List.replicate (width + 1) 0x20, byte :: rest)
    else if byte == 0x2A then (List.replicate (width + 1) 0x3F, byte :: rest)
    else
      let (field, left) := fillField stopAtDot width rest
      (byte :: field, left)

def nameToFcb (name : List UInt8) : FcbName :=
  if name = [0x2A, 0x2E, 0x2A] ∨ name = [0x2A] then Vector.replicate 11 0x3F
  else
    let (base, left) := fillField true 8 (name.map toAsciiUppercase)
    let (extension, _) := fillField false 3 ((left.dropWhile (· != 0x2E)).drop 1)
    Vector.ofFn fun i => (base ++ extension).getD i 0x20

/-! ### Slots -/

/-- The name in a slot. -/
def nameAt (data : List UInt8) : FcbName :=
  let name : FcbName := Vector.ofFn fun i => data.getD i 0
  if name[0] = escapedDeletedMarker then name.set 0 deletedEntryMarker else name

def parseEntry (data : List UInt8) (sector offset : ℕ) (human68k : Bool) : Option DirEntry :=
  if data.length < 32 then none else
  let firstByte := data.getD 0 0
  if firstByte = 0 ∨ firstByte = deletedEntryMarker then none else
  let name := nameAt data
  let attr := data.getD 11 0
  if attr &&& 0xC0 ≠ 0 ∨ attr = 0x0F then none else
  let reserved : Vector UInt8 10 := Vector.ofFn fun i => data.getD (reservedOffset + i) 0
  if isValidFcbName name || (human68k && isValidHuman68kName name reserved) then
    some {
      name, attr, reserved
      time := pairAt data timeOffset
      date := pairAt data 24
      startCluster := pairAt data 26
      fileSize := pairAt data 28 + 65536 * pairAt data 30
      dirSector := sector
      dirOffset := offset }
  else none

namespace FatVolume

def entriesPerSector (vol : FatVolume) : ℕ := vol.bpb.bytesPerSector / dirEntrySize

/-- The logical sectors from a physical one on. -/
def sectorsFrom (vol : FatVolume) (base count : ℕ) : List ℕ :=
  (List.range count).map fun i => wrappingAdd 32 base (i * vol.sectorRatio)

def clusterSectors (vol : FatVolume) (cluster : ℕ) : List ℕ :=
  vol.sectorsFrom (vol.clusterToLba cluster) vol.bpb.sectorsPerCluster

/-- The sectors of a chain of at most so many clusters. -/
def dirSectorsLoop (vol : FatVolume) : ℕ → ℕ → Except ℕ (List ℕ)
  | 0, _ => .error errorIo
  | clusterCount + 1, cluster => do
    match ← vol.nextChainCluster cluster with
    | some next => return vol.clusterSectors cluster ++ (← dirSectorsLoop vol clusterCount next)
    | none => return vol.clusterSectors cluster

def dirSectors (vol : FatVolume) (dirCluster : ℕ) : Except ℕ (List ℕ) :=
  if dirCluster = 0 then .ok (vol.sectorsFrom vol.rootDirLba vol.bpb.rootDirSectors)
  else if !vol.isDataCluster dirCluster then .error errorIo
  else vol.dirSectorsLoop vol.dataClusterCount dirCluster

end FatVolume

/-! ### Searching -/

inductive IterAction where
  | cont
  | ret (entry : DirEntry)

/-- How the search of a sector ends, with the state of the callback. -/
inductive Scan (σ : Type) where
  | ended (state : σ)
  | found (state : σ) (entry : DirEntry)
  | going (state : σ)
  | panicked

def scanSlots {σ : Type} (human68k : Bool) (sector : ℕ) (data : List UInt8)
    (callback : σ → DirEntry → σ × IterAction) : List ℕ → σ → Scan σ
  | [], state => .going state
  | i :: rest, state =>
    let offset := i * dirEntrySize
    match data[offset]? with
    | none => .panicked
    | some firstByte =>
      if firstByte = 0 then .ended state
      else if firstByte = deletedEntryMarker then scanSlots human68k sector data callback rest state
      else
        match slice? data offset dirEntrySize with
        | none => .panicked
        | some slot =>
          match parseEntry slot sector offset human68k with
          | none => scanSlots human68k sector data callback rest state
          | some entry =>
            match callback state entry with
            | (state, .cont) => scanSlots human68k sector data callback rest state
            | (state, .ret entry) => .found state entry

section

variable {δ : Type} [DiskIo δ]

def scanSectors {σ : Type} (vol : FatVolume) (callback : σ → DirEntry → σ × IterAction) :
    List ℕ → σ → DiskM δ (σ × Option DirEntry)
  | [], state => pure (state, none)
  | absSector :: rest, state => do
    let data ← vol.readSectorAbs absSector
    match scanSlots vol.human68k absSector data callback (List.range vol.entriesPerSector) state with
    | .ended state => pure (state, none)
    | .found state entry => pure (state, some entry)
    | .going state => scanSectors vol callback rest state
    | .panicked => diverge

/-- The state of the callback after the search, and the entry it returned. -/
def forEachEntry {σ : Type} (vol : FatVolume) (dirCluster : ℕ)
    (callback : σ → DirEntry → σ × IterAction) (state : σ) : DiskM δ (σ × Option DirEntry) := do
  let sectors ← ofExcept (vol.dirSectors dirCluster)
  scanSectors vol callback sectors state

/-- The callback that stops at a name. -/
def hasName (name : FcbName) (_ : Unit) (entry : DirEntry) : Unit × IterAction :=
  ((), if entry.name = name then .ret entry else .cont)

def findEntry (vol : FatVolume) (dirCluster : ℕ) (name : FcbName) : DiskM δ (Option DirEntry) := do
  let (_, entry) ← forEachEntry vol dirCluster (hasName name) ()
  return entry

def matchesPattern (name pattern : FcbName) : Bool :=
  (name.toList.zip pattern.toList).all fun (byte, wanted) => wanted == 0x3F || wanted == byte

/-- The attributes of an entry that a search with this mask may return. -/
def matchesAttribute (attr attrMask : UInt8) : Bool :=
  if attr &&& attrVolumeId ≠ 0 ∧ attrMask &&& attrVolumeId = 0 then false
  else if attrMask = attrVolumeId ∧ attr &&& attrVolumeId = 0 then false
  else if attr &&& attrHidden ≠ 0 ∧ attrMask &&& attrHidden = 0 then false
  else if attr &&& attrSystem ≠ 0 ∧ attrMask &&& attrSystem = 0 then false
  else if attr &&& attrDirectory ≠ 0 ∧ attrMask &&& attrDirectory = 0 then false
  else true

/-- The callback that counts entries and stops at the first match from a start index on. -/
def matchFrom (pattern : FcbName) (attrMask : UInt8) (startIndex currentIndex : ℕ)
    (entry : DirEntry) : ℕ × IterAction :=
  let nextIndex := wrappingAdd 16 currentIndex 1
  if currentIndex < startIndex then (nextIndex, .cont)
  else if matchesAttribute entry.attr attrMask && matchesPattern entry.name pattern then
    (nextIndex, .ret entry)
  else (nextIndex, .cont)

/-- The next match, and the index to resume from. -/
def findMatching (vol : FatVolume) (dirCluster : ℕ) (pattern : FcbName) (attrMask : UInt8)
    (startIndex : ℕ) : DiskM δ (Option (DirEntry × ℕ)) := do
  let (currentIndex, result) ←
    forEachEntry vol dirCluster (matchFrom pattern attrMask startIndex) 0
  return result.map fun entry => (entry, currentIndex)

/-! ### Listing -/

inductive FatError where
  | io
  | notFound
  | alreadyExists
  | notADirectory
  | isADirectory
  | diskFull
  | invalidPath
  | other (code : ℕ)
  deriving DecidableEq

def mapErr (code : ℕ) : FatError :=
  match code with
  | 0x0002 => .notFound
  | 0x0003 => .notFound
  | 0x0005 => .alreadyExists
  | 0x0008 => .diskFull
  | 0x000F => .io
  | 0x0012 => .isADirectory
  | 0x001F => .io
  | other => .other other

/-- A computation of the file system; its errors are those of the disk, mapped. -/
abbrev FatM (δ α : Type) : Type := Fallible δ FatError α

def mapped {α : Type} (m : DiskM δ α) : FatM δ α := fun disk =>
  (m disk).map fun r => (r.1.mapError mapErr, r.2)

structure Metadata where
  name : List UInt8
  fullName : List UInt8
  fcbName : FcbName
  size : ℕ
  attributes : UInt8
  time : ℕ
  date : ℕ
  startCluster : ℕ
  root : Bool

def metadataFromEntry (vol : FatVolume) (entry : DirEntry) : Metadata where
  name := fcbToDisplayName entry.name
  fullName := if vol.human68k then entry.human68kDisplayName else fcbToDisplayName entry.name
  fcbName := entry.name
  size := entry.fileSize
  attributes := entry.attr
  time := entry.time
  date := entry.date
  startCluster := entry.startCluster
  root := false

def anyPattern : FcbName := Vector.replicate 11 0x3F

def listMask : UInt8 := attrHidden ||| attrSystem ||| attrDirectory ||| attrVolumeId

/-- The entries that a listing leaves out are those of the directory itself and its parent. -/
def isListed (entry : DirEntry) : Bool := entry.name ≠ dotName && entry.name ≠ dotDotName

/-- Searches the directory from its start for each entry, at most so many times. -/
def listClusterDirLoop (vol : FatVolume) (dirCluster : ℕ) :
    ℕ → ℕ → List Metadata → FatM δ (List Metadata)
  | 0, _, _ => diverge
  | fuel + 1, index, out => do
    let next ← mapped (findMatching vol dirCluster anyPattern listMask index)
    match next with
    | some (entry, nextIndex) =>
      listClusterDirLoop vol dirCluster fuel nextIndex
        (if isListed entry then out ++ [metadataFromEntry vol entry] else out)
    | none => pure out

def listClusterDir (vol : FatVolume) (fuel dirCluster : ℕ) : FatM δ (List Metadata) :=
  listClusterDirLoop vol dirCluster fuel 0 []

/-! ### Paths -/

def component (current : List UInt8) : List (List UInt8) := if current = [] then [] else [current]

def splitComponents : List UInt8 → List UInt8 → List (List UInt8)
  | [], current => component current
  | byte :: rest, current =>
    if byte = 0 then component current
    else if byte = 0x5C ∨ byte = 0x2F then component current ++ splitComponents rest []
    else splitComponents rest (current ++ [byte])

def splitDosPath (path : List UInt8) : Except FatError (List (List UInt8)) :=
  match path with
  | letter :: 0x3A :: rest =>
    let letter := toAsciiUppercase letter
    if 0x41 ≤ letter ∧ letter ≤ 0x5A then .ok (splitComponents rest []) else .error .invalidPath
  | _ => .ok (splitComponents path [])

/-- Follows the parts of a path from a directory; a missing part is an error. -/
def walkDirParts (vol : FatVolume) : List (List UInt8) → ℕ → FatM δ ℕ
  | [], cluster => pure cluster
  | part :: rest, cluster => do
    let entry ← mapped (findEntry vol cluster (nameToFcb part))
    let entry ← okOr .notFound entry
    if entry.attr &&& attrDirectory ≠ 0 then walkDirParts vol rest entry.startCluster
    else fail .notADirectory

def resolveDirCluster (vol : FatVolume) (dosPath : List UInt8) : FatM δ ℕ := do
  let parts ← ofExcept (splitDosPath dosPath)
  walkDirParts vol parts 0

def listDir (vol : FatVolume) (fuel : ℕ) (dosPath : List UInt8) : FatM δ (List Metadata) := do
  let dirCluster ← resolveDirCluster vol dosPath
  listClusterDir vol fuel dirCluster

end

end Neetan.Fat
