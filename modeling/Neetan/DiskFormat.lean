import Neetan.FatVolume
import Neetan.HardDisk

/-!
Formatting a hard disk: its partition table, the boot sector, both copies of the FAT and the empty
root directory of the volume; and how the partition and the volume are found again.

The size of the FAT is found by a loop: a size leaves clusters, and these need a size. An index
out of bounds, a division by zero and a loop that does not end have no result.
-/

namespace Neetan.DiskFormat

open HardDisk LittleEndian Fallible MachineInt Disk

inductive PartitionTableType
  | pc98
  | pcAt
  deriving DecidableEq, Repr

structure BpbParams where
  bytesPerSector : ℕ
  sectorsPerCluster : ℕ
  reservedSectors : ℕ
  numFats : ℕ
  rootEntryCount : ℕ
  mediaDescriptor : UInt8
  sectorsPerFat : ℕ
  isFat16 : Bool
  deriving DecidableEq, Repr

inductive FormatError
  | imageTooSmall
  | sectorOutOfRange
  deriving DecidableEq, Repr

/-! ### The Layout of the Volume -/

/-- A quotient, rounded up. -/
def divCeil (a b : ℕ) : ℕ := (a + b - 1) / b

/-- The bytes that the entries of so many clusters take. -/
def fatBytes (clusterCount : ℕ) (isFat16 : Bool) : ℕ :=
  if isFat16 then (clusterCount + 2) * 2 else divCeil ((clusterCount + 2) * 3) 2

/-- Their sectors, before the number is cut to 16 bits. -/
def fatSectors (clusterCount bytesPerSector : ℕ) (isFat16 : Bool) : ℕ :=
  divCeil (fatBytes clusterCount isFat16) bytesPerSector

def fatSectorsFor (clusterCount bytesPerSector : ℕ) (isFat16 : Bool) : ℕ :=
  fatSectors clusterCount bytesPerSector isFat16 % 2 ^ 16

/-- The arguments that the solver does not change. -/
structure FatLayout where
  partitionSectors : ℕ
  bytesPerSector : ℕ
  sectorsPerCluster : ℕ
  reservedSectors : ℕ
  numFats : ℕ
  rootEntryCount : ℕ
  isFat16 : Bool

namespace FatLayout

variable (layout : FatLayout)

def rootDirSectors : ℕ := divCeil (layout.rootEntryCount * 32) layout.bytesPerSector

/-- The sectors in front of the data, with FATs of this size. -/
def systemSectors (sectorsPerFat : ℕ) : ℕ :=
  layout.reservedSectors + layout.numFats * sectorsPerFat + layout.rootDirSectors

/-- The clusters that FATs of this size leave. -/
def clusterCount (sectorsPerFat : ℕ) : ℕ :=
  (layout.partitionSectors - layout.systemSectors sectorsPerFat) / layout.sectorsPerCluster

/-- The size of the FATs for the clusters that FATs of this size leave. -/
def needed (sectorsPerFat : ℕ) : ℕ :=
  fatSectorsFor (layout.clusterCount sectorsPerFat) layout.bytesPerSector layout.isFat16

def solveLoop : ℕ → ℕ → Option (ℕ × ℕ)
  | 0, _ => none
  | fuel + 1, sectorsPerFat =>
    if layout.needed sectorsPerFat = sectorsPerFat then
      some (layout.clusterCount sectorsPerFat, sectorsPerFat)
    else solveLoop fuel (layout.needed sectorsPerFat)

def solveHddFatLayout (fuel : ℕ) : Option (ℕ × ℕ) :=
  if layout.bytesPerSector = 0 ∨ layout.sectorsPerCluster = 0 then none
  else layout.solveLoop fuel 1

end FatLayout

/-- Sectors per cluster, by the size of the volume. -/
def sectorsPerClusterFor (sectorSize partitionSectors : ℕ) : ℕ :=
  let volumeBytes := partitionSectors * sectorSize
  if sectorSize = 256 then
    if volumeBytes ≤ 64 <<< 20 then 8
    else if volumeBytes ≤ 128 <<< 20 then 16
    else if volumeBytes ≤ 256 <<< 20 then 32
    else 64
  else
    if volumeBytes ≤ 128 <<< 20 then 4
    else if volumeBytes ≤ 256 <<< 20 then 8
    else if volumeBytes ≤ 512 <<< 20 then 16
    else 32

/-- What the solver is asked for on a partition. -/
def hddLayout (sectorSize partitionSectors : ℕ) (isFat16 : Bool) : FatLayout where
  partitionSectors
  bytesPerSector := sectorSize
  sectorsPerCluster := sectorsPerClusterFor sectorSize partitionSectors
  reservedSectors := 1
  numFats := 2
  rootEntryCount := 512
  isFat16

/-- The parameters of a partition with FATs of this size. -/
def hddParams (sectorSize partitionSectors sectorsPerFat : ℕ) (isFat16 : Bool) : BpbParams where
  bytesPerSector := sectorSize
  sectorsPerCluster := sectorsPerClusterFor sectorSize partitionSectors
  reservedSectors := 1
  numFats := 2
  rootEntryCount := 512
  mediaDescriptor := 0xF8
  sectorsPerFat
  isFat16

def hddBpbParams (fuel sectorSize partitionSectors : ℕ) : Option BpbParams := do
  let (fat12Clusters, fat12SectorsPerFat) ←
    (hddLayout sectorSize partitionSectors false).solveHddFatLayout fuel
  if fat12Clusters ≥ 4085 then do
    let (_, fat16SectorsPerFat) ←
      (hddLayout sectorSize partitionSectors true).solveHddFatLayout fuel
    return hddParams sectorSize partitionSectors fat16SectorsPerFat true
  else return hddParams sectorSize partitionSectors fat12SectorsPerFat false

/-! ### Sectors -/

/-- Bytes copied to an offset of a sector that has room for them. -/
def put (sector : List UInt8) (field : ℕ × List UInt8) : Option (List UInt8) :=
  if field.1 + field.2.length ≤ sector.length then
    some (HddImage.patched sector field.1 field.2)
  else none

/-- A sector of zeros with these fields copied into it, one after the other. -/
def build (size : ℕ) (fields : List (ℕ × List UInt8)) : Option (List UInt8) :=
  fields.foldlM put (List.replicate size 0)

/-- `NEETAN` and ten blanks. -/
def pc98PartitionName : List UInt8 :=
  [0x4E, 0x45, 0x45, 0x54, 0x41, 0x4E] ++ List.replicate 10 0x20

def pc98PartitionTableSector (sectorSize totalSectors heads sectorsPerTrack : ℕ) :
    Option (List UInt8) :=
  let lastSector := totalSectors - 1
  let sectorsPerCylinder := heads * sectorsPerTrack
  let endCylinder := lastSector / sectorsPerCylinder
  let remainder := lastSector % sectorsPerCylinder
  let endHead := remainder / sectorsPerTrack
  let endSector := remainder % sectorsPerTrack
  if sectorsPerCylinder = 0 then none
  else build sectorSize
    [(0, [0x21]), (1, [0x81]), (8, [0]), (9, [1]), (10, [0]), (11, [0]),
      (12, [UInt8.ofNat endSector]), (13, [UInt8.ofNat endHead]), (14, [UInt8.ofNat endCylinder]),
      (15, [UInt8.ofNat (endCylinder >>> 8)]), (16, pc98PartitionName)]

def pc98NecPartitionStartCylinder : ℕ := 1

def pc98NecPartitionTableSector (sectorSize endCylinder : ℕ) : Option (List UInt8) :=
  let start := pc98NecPartitionStartCylinder
  build sectorSize
    [(0, [0x21]), (1, [0x81]), (6, [UInt8.ofNat start]), (7, [UInt8.ofNat (start / 256)]),
      (10, [UInt8.ofNat start]), (11, [UInt8.ofNat (start / 256)]),
      (14, [UInt8.ofNat endCylinder]), (15, [UInt8.ofNat (endCylinder / 256)]),
      (16, pc98PartitionName)]

/-- The program of the master boot record. -/
def atMbrBootstrap : List UInt8 :=
  [0xFA, 0x33, 0xC0, 0x8E, 0xD0, 0xBC, 0x00, 0x7C, 0xFB, 0x8E, 0xD8, 0x8E, 0xC0, 0xBE, 0x00, 0x7C,
    0xBF, 0x00, 0x06, 0xB9, 0x00, 0x01, 0xFC, 0xF3, 0xA5, 0xEA, 0x1E, 0x06, 0x00, 0x00, 0xBE, 0xBE,
    0x07, 0xB9, 0x04, 0x00, 0x80, 0x3C, 0x80, 0x74, 0x08, 0x83, 0xC6, 0x10, 0xE2, 0xF6, 0xEB, 0xFE,
    0x90, 0x8B, 0x14, 0x8B, 0x4C, 0x02, 0xBB, 0x00, 0x7C, 0xB8, 0x01, 0x02, 0xCD, 0x13, 0x72, 0xEE,
    0x81, 0x3E, 0xFE, 0x7D, 0x55, 0xAA, 0x75, 0xE6, 0xEA, 0x00, 0x7C, 0x00, 0x00]

def partitionEntryChs (lba heads sectorsPerTrack : ℕ) : List UInt8 :=
  let sectorsPerCylinder := heads * sectorsPerTrack
  let cylinder := min (lba / sectorsPerCylinder) 1023
  let head := lba / sectorsPerTrack % heads
  let sector := lba % sectorsPerTrack + 1
  [UInt8.ofNat head, UInt8.ofNat sector ||| UInt8.ofNat (cylinder >>> 2 &&& 0xC0),
    UInt8.ofNat (cylinder &&& 0xFF)]

def atMasterBootRecord (sectorSize partitionOffset partitionSectors heads sectorsPerTrack : ℕ) :
    Option (List UInt8) :=
  let entry := 0x1BE
  let startChs := partitionEntryChs partitionOffset heads sectorsPerTrack
  let endChs := partitionEntryChs (partitionOffset + partitionSectors - 1) heads sectorsPerTrack
  if heads = 0 ∨ sectorsPerTrack = 0 then none
  else build sectorSize
    [(0, atMbrBootstrap), (entry, [0x80]), (entry + 1, startChs), (entry + 4, [0x06]),
      (entry + 5, endChs), (entry + 8, toLe 4 partitionOffset),
      (entry + 12, toLe 4 partitionSectors), (510, [0x55]), (511, [0xAA])]

/-- `NEETAN` and two blanks. -/
def oemName : List UInt8 := [0x4E, 0x45, 0x45, 0x54, 0x41, 0x4E, 0x20, 0x20]

/-- `NO NAME` and four blanks. -/
def volumeLabel : List UInt8 :=
  [0x4E, 0x4F, 0x20, 0x4E, 0x41, 0x4D, 0x45, 0x20, 0x20, 0x20, 0x20]

/-- `FAT16` or `FAT12`, and three blanks. -/
def fatTypeName (isFat16 : Bool) : List UInt8 :=
  [0x46, 0x41, 0x54, 0x31, if isFat16 then 0x36 else 0x32, 0x20, 0x20, 0x20]

def volumeSerialNumber : ℕ := 0x4E455441

/-- The fields of the boot sector but for its signature. -/
def bootFields (bpb : BpbParams) (partitionSectors sectorsPerTrack heads partitionOffset : ℕ) :
    List (ℕ × List UInt8) :=
  [(0, [0xEB]), (1, [0x3C]), (2, [0x90]), (3, oemName), (11, toLe 2 bpb.bytesPerSector),
    (13, [UInt8.ofNat bpb.sectorsPerCluster]), (14, toLe 2 bpb.reservedSectors),
    (16, [UInt8.ofNat bpb.numFats]), (17, toLe 2 bpb.rootEntryCount)] ++
  (if partitionSectors ≤ 0xFFFF then [(19, toLe 2 partitionSectors)]
    else [(19, toLe 2 0), (32, toLe 4 partitionSectors)]) ++
  [(21, [bpb.mediaDescriptor]), (22, toLe 2 bpb.sectorsPerFat), (24, toLe 2 sectorsPerTrack),
    (26, toLe 2 heads), (28, toLe 4 partitionOffset), (36, [0x80]), (38, [0x29]),
    (39, toLe 4 volumeSerialNumber), (43, volumeLabel), (54, fatTypeName bpb.isFat16),
    (62, [0xEB]), (63, [0xFE])]

def hddBootSector (bpb : BpbParams)
    (sectorSize partitionSectors sectorsPerTrack heads partitionOffset : ℕ) :
    Option (List UInt8) :=
  let signatureOffset := sectorSize - 2
  build sectorSize <|
    bootFields bpb partitionSectors sectorsPerTrack heads partitionOffset ++
      [(signatureOffset, [0x55]), (signatureOffset + 1, [0xAA])]

def fatRegion (bpb : BpbParams) (sectorSize : ℕ) : Option (List UInt8) :=
  build (bpb.sectorsPerFat * sectorSize) <|
    if bpb.isFat16 then [(0, [bpb.mediaDescriptor]), (1, [0xFF]), (2, [0xFF]), (3, [0xFF])]
    else [(0, [bpb.mediaDescriptor]), (1, [0xFF]), (2, [0xFF])]

/-! ### Geometries -/

def isIdeSectorSize (sectorSize : ℕ) : Bool := sectorSize = 512

def isSasiSectorSize (sectorSize : ℕ) : Bool := sectorSize = 256

def isIdeImageFormat : HddFormat → Bool
  | .hdi | .nhd => true
  | .thd | .raw | .atFlat => false

def biosHeads : ℕ := 8
def biosSectorsPerTrack : ℕ := 17
def maximumCylinders : ℕ := 65535

def biosGeometry (geometry : HddGeometry) : HddGeometry :=
  if isIdeSectorSize geometry.sectorSize then
    { cylinders := min (geometry.totalSectors / (biosHeads * biosSectorsPerTrack)) maximumCylinders
      heads := biosHeads
      sectorsPerTrack := biosSectorsPerTrack
      sectorSize := 512 }
  else geometry

def pc98NecLayoutGeometry (image : HddImage) : Option HddGeometry :=
  if isIdeImageFormat image.format && isIdeSectorSize image.geometry.sectorSize then
    some (biosGeometry image.geometry)
  else if isSasiSectorSize image.geometry.sectorSize then some image.geometry
  else none

/-! ### Formatting -/

/-- A computation on an image. -/
abbrev FormatM (α : Type) : Type := Fallible HddImage FormatError α

def orPanic {α : Type} : Option α → FormatM α
  | some a => pure a
  | none => diverge

def write (lba : ℕ) (data : List UInt8) : FormatM Unit := fun image =>
  let (done, image) := image.writeSector lba data
  some (if done then .ok () else .error .sectorOutOfRange, image)

/-- Writes sectors one behind the other. -/
def writeRun (lba : ℕ) : List (List UInt8) → FormatM Unit
  | [] => pure ()
  | chunk :: chunks => do
    write lba chunk
    writeRun (lba + 1) chunks

/-- The whole pieces of this size. -/
def chunksExact (size : ℕ) (bytes : List UInt8) : List (List UInt8) :=
  (List.range (bytes.length / size)).map fun i => (bytes.drop (i * size)).take size

/-- Writes the copies of a FAT, from this one on. -/
def writeFats (fatBase sectorsPerFat : ℕ) (chunks : List (List UInt8)) : ℕ → ℕ → FormatM Unit
  | 0, _ => pure ()
  | copies + 1, fatIndex => do
    writeRun (fatBase + fatIndex * sectorsPerFat) chunks
    writeFats fatBase sectorsPerFat chunks copies (fatIndex + 1)

def writeTable (table : PartitionTableType) (necGeometry : Option HddGeometry)
    (geometry : HddGeometry) (partitionOffset partitionSectors : ℕ) : FormatM Unit :=
  match table with
  | .pc98 => do
    write 0 (List.replicate geometry.sectorSize 0)
    let part ← orPanic <|
      if necGeometry.isSome then
        pc98NecPartitionTableSector geometry.sectorSize (geometry.cylinders - 1)
      else
        pc98PartitionTableSector geometry.sectorSize geometry.totalSectors geometry.heads
          geometry.sectorsPerTrack
    write 1 part
  | .pcAt => do
    let mbr ← orPanic <| atMasterBootRecord geometry.sectorSize partitionOffset partitionSectors
      geometry.heads geometry.sectorsPerTrack
    write 0 mbr

def writeVolume (bpb : BpbParams) (geometry : HddGeometry)
    (partitionOffset partitionSectors : ℕ) : FormatM Unit := do
  let boot ← orPanic <| hddBootSector bpb geometry.sectorSize partitionSectors
    geometry.sectorsPerTrack geometry.heads partitionOffset
  write partitionOffset boot
  let fat ← orPanic <| fatRegion bpb geometry.sectorSize
  let fatBase := partitionOffset + bpb.reservedSectors
  writeFats fatBase bpb.sectorsPerFat (chunksExact geometry.sectorSize fat) bpb.numFats 0
  let rootBase := fatBase + bpb.numFats * bpb.sectorsPerFat
  let rootDirSectors := divCeil (bpb.rootEntryCount * 32) geometry.sectorSize
  writeRun rootBase
    (List.replicate rootDirSectors (List.replicate geometry.sectorSize 0))

/-- The geometry of the NEC layout that an image is formatted in, if it is. -/
def necGeometry (table : PartitionTableType) (image : HddImage) : Option HddGeometry :=
  match table with
  | .pc98 => pc98NecLayoutGeometry image
  | .pcAt => none

/-- The geometry that an image is formatted in. -/
def formatGeometry (table : PartitionTableType) (image : HddImage) : HddGeometry :=
  (necGeometry table image).getD image.geometry

/-- The first sector of the partition. -/
def partitionOffset (table : PartitionTableType) (image : HddImage) : ℕ :=
  let geometry := formatGeometry table image
  if (necGeometry table image).isSome then
    pc98NecPartitionStartCylinder * geometry.heads * geometry.sectorsPerTrack
  else geometry.sectorsPerTrack

def formatHddImage (fuel : ℕ) (table : PartitionTableType) : FormatM Unit := do
  let image ← reads id
  let geometry := formatGeometry table image
  let partitionOffset := partitionOffset table image
  if geometry.totalSectors ≤ partitionOffset then fail .imageTooSmall
  else do
    let partitionSectors := geometry.totalSectors - partitionOffset
    let bpb ← orPanic (hddBpbParams fuel geometry.sectorSize partitionSectors)
    writeTable table (necGeometry table image) geometry partitionOffset partitionSectors
    writeVolume bpb geometry partitionOffset partitionSectors

/-! ### Finding the Volume -/

def hddChsGeometry (image : HddImage) : HddGeometry :=
  if isIdeImageFormat image.format then biosGeometry image.geometry else image.geometry

/-- A hard disk image as a drive. -/
structure FileImageDiskIo where
  image : HddImage
  driveDa : ℕ

/-- So many sectors from one on, if the image has them. -/
def sectorsFrom (image : HddImage) (lba : ℕ) : ℕ → Option (List UInt8)
  | 0 => some []
  | count + 1 => do
    let front ← sectorsFrom image lba count
    let sector ← image.readSector (wrappingAdd 32 lba count)
    return front ++ sector

instance : DiskIo FileImageDiskIo where
  readSectors disk driveDa lba count :=
    (if driveDa ≠ disk.driveDa then .error 0x40
      else match sectorsFrom disk.image lba count with
        | some bytes => .ok bytes
        | none => .error 0x40, disk)
  sectorSize disk driveDa :=
    if driveDa ≠ disk.driveDa then none else some disk.image.geometry.sectorSize
  driveGeometry disk driveDa :=
    if driveDa ≠ disk.driveDa then none
    else
      let geometry := hddChsGeometry disk.image
      some (geometry.cylinders, geometry.heads, geometry.sectorsPerTrack)

/-- The byte at an offset. -/
def byteAt (bytes : List UInt8) (offset : ℕ) : UInt8 := bytes.getD offset 0

structure Pc98PartitionEntry where
  mid : UInt8
  sid : UInt8
  dataStartSector : ℕ
  dataStartHead : ℕ
  dataStartCylinder : ℕ

def isDosPartition (entry : Pc98PartitionEntry) : Bool :=
  entry.sid &&& 0x80 != 0 && entry.mid &&& 0x70 == 0x20

/-- The entries from one on, up to an empty one. -/
def parsePartitionTable (sector : List UInt8) : ℕ → ℕ → List Pc98PartitionEntry
  | 0, _ => []
  | rest + 1, i =>
    if i * 32 + 32 > sector.length then []
    else
      let d := sector.drop (i * 32)
      if byteAt d 0 = 0 ∧ byteAt d 1 = 0 then []
      else
        { mid := byteAt d 0
          sid := byteAt d 1
          dataStartSector := (byteAt d 8).toNat
          dataStartHead := (byteAt d 9).toNat
          dataStartCylinder := Fat.pairAt d 10 } :: parsePartitionTable sector rest (i + 1)

def chsToLba (cylinder head sector heads sectorsPerTrack : ℕ) : ℕ :=
  (cylinder * heads + head) * sectorsPerTrack + sector

structure MbrPartitionEntry where
  status : UInt8
  partitionType : UInt8
  startLba : ℕ

def isFatPartition (entry : MbrPartitionEntry) : Bool :=
  entry.partitionType ∈ [0x01, 0x04, 0x06, 0x0E]

/-- The entries of a master boot record from one on, without the empty ones. -/
def parseMbrPartitionTable (sector : List UInt8) : ℕ → ℕ → List MbrPartitionEntry
  | 0, _ => []
  | rest + 1, i =>
    let offset := 0x1BE + i * 16
    if offset + 16 > sector.length then []
    else
      let entry := sector.drop offset
      let entries := parseMbrPartitionTable sector rest (i + 1)
      if byteAt entry 4 = 0 then entries
      else
        { status := byteAt entry 0
          partitionType := byteAt entry 4
          startLba := Fat.pairAt entry 8 + 65536 * Fat.pairAt entry 10 } :: entries

inductive PartitionScheme
  | unpartitioned
  | pc98
  | masterBootRecord

section

variable {δ : Type} [DiskIo δ]

def findPartitionOffset (deviceId : ℕ) : Fat.DiskM δ ℕ := do
  let sectorData ← Fat.readSectors deviceId 1 1
  let geometry ← reads fun disk => DiskIo.driveGeometry disk deviceId
  let (_, heads, sectorsPerTrack) ← okOr Fat.errorIo geometry
  match (parsePartitionTable sectorData 16 0).find? isDosPartition with
  | some entry =>
    return chsToLba entry.dataStartCylinder entry.dataStartHead entry.dataStartSector heads
      sectorsPerTrack
  | none => return 0

def findMbrPartitionOffset (deviceId : ℕ) : Fat.DiskM δ ℕ := do
  let sectorData ← Fat.readSectors deviceId 0 1
  if sectorData.length < 512 ∨ byteAt sectorData 510 ≠ 0x55 ∨ byteAt sectorData 511 ≠ 0xAA then
    return 0
  else
    let entries := parseMbrPartitionTable sectorData 4 0
    if entries.isEmpty then return 0
    else
      let fatEntries := entries.filter isFatPartition
      let selected := (fatEntries.find? fun entry => entry.status &&& 0x80 != 0).or fatEntries.head?
      match selected with
      | some entry => return entry.startLba
      | none => fail Fat.errorIo

/-- The first sector of the volume on a device. -/
def PartitionScheme.volumeStart (scheme : PartitionScheme) (deviceId : ℕ) : Fat.DiskM δ ℕ :=
  match scheme with
  | .unpartitioned => pure 0
  | .pc98 => findPartitionOffset deviceId
  | .masterBootRecord => findMbrPartitionOffset deviceId

end

end Neetan.DiskFormat
