import Neetan.DiskIo
import Neetan.FatBpb
import Neetan.MachineInt
import Mathlib.Data.Nat.Bitwise

/-!
FAT12 and FAT16 volumes: mounting, the cached FAT and the clusters on disk.

A mounted volume keeps the first FAT in memory; the chains in it say which clusters belong
together. A computation that panics or does not come to an end has no result.
-/

namespace Neetan.Fat

open Disk Fallible MachineInt

def bootRecordMinimumLength : ℕ := 512
def firstDataCluster : ℕ := 2
def errorIo : ℕ := 0x001F
def errorUnknownMedia : ℕ := 0x001A

/-- Source of the parameter block of a volume. -/
inductive BpbSource where
  | bootRecord
  | bootRecordOrDefault
  | default
  | driver
  | fmTownsFloppy
  deriving DecidableEq

structure DriveGeometry where
  bpbSource : BpbSource
  defaultBpb : Bpb
  bpb : Bpb

structure FatVolume where
  deviceId : ℕ
  partitionOffset : ℕ
  bpb : Bpb
  firstRootSector : ℕ
  firstDataSector : ℕ
  dataClusterCount : ℕ
  isFat16 : Bool
  fatCache : List UInt8
  fatDirty : Bool
  sectorRatio : ℕ
  human68k : Bool

/-! ### Mounting -/

section

variable {δ : Type} [DiskIo δ]

/-- A computation on a disk; errors are DOS error codes. -/
abbrev DiskM (δ α : Type) : Type := Fallible δ ℕ α

def readSectors (device lba count : ℕ) : DiskM δ (List UInt8) := fun disk =>
  let (result, disk) := DiskIo.readSectors disk device lba count
  some (result.mapError fun _ => errorIo, disk)

lemma readSectors_ends [LawfulDisk δ] (disk : δ) (device lba count : ℕ) :
    (readSectors device lba count).Ends disk fun r disk' => SameDisk disk disk' ∧
      r = (sectorsOf disk device lba count).mapError fun _ => errorIo :=
  ⟨_, _, rfl, LawfulDisk.same_readSectors _ _ _ _, rfl⟩

/-- The physical sectors with the first 512 bytes of the volume, if they can be read. -/
def readBootRecord (deviceId partitionOffset physicalSectorSize : ℕ) :
    DiskM δ (Option (List UInt8)) :=
  if physicalSectorSize = 0 then diverge else do
    let count := (bootRecordMinimumLength + physicalSectorSize - 1) / physicalSectorSize
    return (← attempt (readSectors deviceId partitionOffset count)).toOption

def bootRecordBpb (bootRecord : List UInt8) (physicalSectorSize : ℕ) : Option Bpb :=
  let isUsable := fun bpb : Bpb => bpb.isSupportedWithPhysicalSectorSize physicalSectorSize
  ((Bpb.parse bootRecord).filter isUsable).or ((Bpb.parseHuman68k bootRecord).filter isUsable)

/-- The block if it describes a usable volume. -/
def supportedBpb (bpb : Bpb) (physicalSectorSize : ℕ) : DiskM δ Bpb :=
  if bpb.isSupportedWithPhysicalSectorSize physicalSectorSize then pure bpb else fail errorIo

def fmTownsFloppyBpb (deviceId partitionOffset physicalSectorSize : ℕ) : DiskM δ Bpb := do
  let geometry ← reads fun disk => DiskIo.driveGeometry disk deviceId
  let (_, _, sectorsPerTrack) ← okOr errorIo geometry
  let fatSector ← readSectors deviceId (wrappingAdd 32 partitionOffset 1) 1
  let fatId ← okOr errorIo fatSector.head?
  let bpb ← okOr errorUnknownMedia
    (FmTowns.floppyMediaBpb fatId physicalSectorSize sectorsPerTrack)
  supportedBpb bpb physicalSectorSize

/-- The default block, if the sectors, the device and the first FAT entries match it. -/
def validatedDefaultBpb (deviceId partitionOffset physicalSectorSize : ℕ) (defaultBpb : Bpb) :
    DiskM δ Bpb :=
  if physicalSectorSize ≠ defaultBpb.bytesPerSector then fail errorIo else do
    let geometry ← reads fun disk => DiskIo.driveGeometry disk deviceId
    let (cylinders, heads, sectorsPerTrack) ← okOr errorIo geometry
    if cylinders * heads * sectorsPerTrack ≠ defaultBpb.totalSectors then fail errorIo else do
      let fatData ← readSectors deviceId
        (wrappingAdd 32 partitionOffset defaultBpb.reservedSectors) 1
      if defaultBpb.hasValidInitialFatEntries fatData then pure defaultBpb else fail errorIo

/-- The parameter block of the volume, from the source that the geometry names. -/
def mountBpb (deviceId partitionOffset physicalSectorSize : ℕ) (geometry : DriveGeometry)
    (bootRecord : Option (List UInt8)) : DiskM δ Bpb :=
  match geometry.bpbSource with
  | .bootRecord => do
    let record ← okOr errorIo bootRecord
    okOr errorIo (bootRecordBpb record physicalSectorSize)
  | .bootRecordOrDefault => do
    let record ← okOr errorIo bootRecord
    match bootRecordBpb record physicalSectorSize with
    | some bpb => pure bpb
    | none => validatedDefaultBpb deviceId partitionOffset physicalSectorSize geometry.defaultBpb
  | .default => supportedBpb geometry.defaultBpb physicalSectorSize
  | .fmTownsFloppy => fmTownsFloppyBpb deviceId partitionOffset physicalSectorSize
  | .driver => supportedBpb geometry.bpb physicalSectorSize

/-- Loads the FAT of a volume with this block. -/
def mountVolume (deviceId partitionOffset physicalSectorSize : ℕ) (human68k : Bool) (bpb : Bpb) :
    DiskM δ FatVolume :=
  -- the cluster count is a division by the sectors per cluster
  if bpb.sectorsPerCluster = 0 then diverge else do
    let sectorRatio := bpb.bytesPerSector / physicalSectorSize
    let fatStart := wrappingAdd 32 partitionOffset (bpb.reservedSectors * sectorRatio)
    let fatSectors := bpb.sectorsPerFat * sectorRatio
    let fatData ← readSectors deviceId fatStart fatSectors
    return {
      deviceId, partitionOffset, bpb
      firstRootSector := bpb.firstRootSector
      firstDataSector := bpb.firstDataSector
      dataClusterCount := bpb.dataClusterCount
      isFat16 := bpb.isFat16
      fatCache := fatData
      fatDirty := false
      sectorRatio, human68k }

def mount (deviceId partitionOffset : ℕ) (geometry : DriveGeometry) : DiskM δ FatVolume := do
  let size ← reads fun disk => DiskIo.sectorSize disk deviceId
  let physicalSectorSize ← okOr errorIo size
  let bootRecord ← readBootRecord deviceId partitionOffset physicalSectorSize
  let human68k := bootRecord.any isHuman68kBootSector
  let bpb ← mountBpb deviceId partitionOffset physicalSectorSize geometry bootRecord
  mountVolume deviceId partitionOffset physicalSectorSize human68k bpb

end

/-! ### What a Mount Gives -/

/-- The layout of a volume is the one of its block, on sectors of this size. -/
structure FatVolume.Mounted (vol : FatVolume) (physicalSectorSize : ℕ) : Prop where
  ratio : vol.sectorRatio * physicalSectorSize = vol.bpb.bytesPerSector
  bytesPerSector : 0 < vol.bpb.bytesPerSector
  sectorsPerCluster : 0 < vol.bpb.sectorsPerCluster
  firstRootSector : vol.firstRootSector = vol.bpb.firstRootSector
  firstDataSector : vol.firstDataSector = vol.bpb.firstDataSector
  dataClusterCount : vol.dataClusterCount = vol.bpb.dataClusterCount
  isFat16 : vol.isFat16 = vol.bpb.isFat16

/-- The logical sectors are made of whole physical ones. -/
def Bpb.FitsSectors (bpb : Bpb) (physicalSectorSize : ℕ) : Prop :=
  0 < physicalSectorSize ∧ physicalSectorSize ≤ bpb.bytesPerSector ∧
    bpb.bytesPerSector % physicalSectorSize = 0

lemma fitsSectors_of_supported {δ : Type} {disk disk' : δ} {size : ℕ} {bpb bpb' : Bpb}
    (h : (supportedBpb bpb size : DiskM δ Bpb) disk = some (.ok bpb', disk')) :
    bpb'.FitsSectors size := by
  unfold supportedBpb at h
  split_ifs at h with hs
  · obtain ⟨rfl, -⟩ := pure_ok h
    exact Bpb.sizes_of_isSupported hs
  · cases h

section

variable {δ : Type} [DiskIo δ] {disk disk' : δ} {device offset size : ℕ}

lemma fitsSectors_of_bootRecord {record : List UInt8} {bpb : Bpb}
    (h : bootRecordBpb record size = some bpb) : bpb.FitsSectors size := by
  unfold bootRecordBpb at h
  rcases Option.or_eq_some_iff.mp h with h | ⟨-, h⟩
  · exact Bpb.sizes_of_isSupported (Option.filter_eq_some_iff.mp h).2
  · exact Bpb.sizes_of_isSupported (Option.filter_eq_some_iff.mp h).2

lemma fitsSectors_of_default {bpb bpb' : Bpb} (hsize : 0 < size)
    (h : (validatedDefaultBpb device offset size bpb : DiskM δ Bpb) disk =
      some (.ok bpb', disk')) : bpb'.FitsSectors size := by
  unfold validatedDefaultBpb at h
  split_ifs at h with heq
  · cases h
  obtain ⟨geometry, _, -, h⟩ := bind_ok h
  obtain ⟨⟨cylinders, heads, sectorsPerTrack⟩, _, -, h⟩ := bind_ok h
  dsimp only at h
  split_ifs at h with hsectors
  · cases h
  obtain ⟨fatData, _, -, h⟩ := bind_ok h
  split_ifs at h with hfat
  · obtain ⟨rfl, -⟩ := pure_ok h
    have heq : size = bpb.bytesPerSector := not_not.mp heq
    exact ⟨hsize, heq.le, heq ▸ Nat.mod_self size⟩
  · cases h

lemma fitsSectors_of_mountBpb {geometry : DriveGeometry} {record : Option (List UInt8)}
    {bpb : Bpb} (hsize : 0 < size)
    (h : (mountBpb device offset size geometry record : DiskM δ Bpb) disk =
      some (.ok bpb, disk')) : bpb.FitsSectors size := by
  unfold mountBpb at h
  cases hs : geometry.bpbSource <;> simp only [hs] at h
  case bootRecord =>
    obtain ⟨record, _, -, h⟩ := bind_ok h
    exact fitsSectors_of_bootRecord (okOr_ok h).1
  case bootRecordOrDefault =>
    obtain ⟨record, _, -, h⟩ := bind_ok h
    cases heq : bootRecordBpb record size with
    | some bpb' =>
      simp only [heq] at h
      obtain ⟨rfl, -⟩ := pure_ok h
      exact fitsSectors_of_bootRecord heq
    | none =>
      simp only [heq] at h
      exact fitsSectors_of_default hsize h
  case default => exact fitsSectors_of_supported h
  case driver => exact fitsSectors_of_supported h
  case fmTownsFloppy =>
    obtain ⟨_, _, -, h⟩ := bind_ok h
    obtain ⟨⟨_, _, _⟩, _, -, h⟩ := bind_ok h
    obtain ⟨_, _, -, h⟩ := bind_ok h
    obtain ⟨_, _, -, h⟩ := bind_ok h
    obtain ⟨_, _, -, h⟩ := bind_ok h
    exact fitsSectors_of_supported h

lemma mounted_of_mount {geometry : DriveGeometry} {vol : FatVolume}
    (h : mount device offset geometry disk = some (.ok vol, disk')) :
    ∃ size, DiskIo.sectorSize disk device = some size ∧ vol.deviceId = device ∧
      vol.Mounted size := by
  unfold mount at h
  obtain ⟨size?, _, hread, h⟩ := bind_ok h
  obtain ⟨rfl, rfl⟩ := reads_ok hread
  obtain ⟨size, _, hsome, h⟩ := bind_ok h
  obtain ⟨hsector, rfl⟩ := okOr_ok hsome
  obtain ⟨record, _, hrecord, h⟩ := bind_ok h
  have hsize : 0 < size := by
    unfold readBootRecord at hrecord
    split_ifs at hrecord with hzero
    · cases hrecord
    · exact Nat.pos_of_ne_zero hzero
  obtain ⟨bpb, _, hbpb, h⟩ := bind_ok h
  obtain ⟨-, hle, hmod⟩ := fitsSectors_of_mountBpb hsize hbpb
  unfold mountVolume at h
  split_ifs at h with hspc
  · cases h
  obtain ⟨fatData, _, -, h⟩ := bind_ok h
  obtain ⟨rfl, -⟩ := pure_ok h
  exact ⟨size, hsector, rfl, Nat.div_mul_cancel (Nat.dvd_of_mod_eq_zero hmod),
    hsize.trans_le hle, Nat.pos_of_ne_zero hspc, rfl, rfl, rfl, rfl⟩

end

/-! ### FAT Entries -/

def setPair (bytes : List UInt8) (offset value : ℕ) : List UInt8 :=
  (bytes.set offset (UInt8.ofNat value)).set (offset + 1) (UInt8.ofNat (value / 256))

namespace FatVolume

def readFatEntry (vol : FatVolume) (cluster : ℕ) : ℕ :=
  if vol.isFat16 then
    let offset := cluster * 2
    if offset + 1 ≥ vol.fatCache.length then 0xFFFF else pairAt vol.fatCache offset
  else
    let offset := cluster * 3 / 2
    if offset + 1 ≥ vol.fatCache.length then 0xFFF else
    let pair := pairAt vol.fatCache offset
    if cluster % 2 ≠ 0 then pair >>> 4 else pair &&& 0x0FFF

def writeFatEntry (vol : FatVolume) (cluster value : ℕ) : FatVolume :=
  if vol.isFat16 then
    let offset := cluster * 2
    if offset + 1 ≥ vol.fatCache.length then vol
    else { vol with fatCache := setPair vol.fatCache offset value, fatDirty := true }
  else
    let offset := cluster * 3 / 2
    if offset + 1 ≥ vol.fatCache.length then vol else
    let existing := pairAt vol.fatCache offset
    let newPair := if cluster % 2 ≠ 0 then existing &&& 0x000F ||| (value &&& 0x0FFF) <<< 4
      else existing &&& 0xF000 ||| value &&& 0x0FFF
    { vol with fatCache := setPair vol.fatCache offset newPair, fatDirty := true }

/-- The least entry that ends a chain. -/
def endOfChain (vol : FatVolume) : ℕ := if vol.isFat16 then 0xFFF8 else 0x0FF8

/-- The entry that is written to end a chain. -/
def endMark (vol : FatVolume) : ℕ := if vol.isFat16 then 0xFFFF else 0x0FFF

def nextCluster (vol : FatVolume) (cluster : ℕ) : Option ℕ :=
  let entry := vol.readFatEntry cluster
  if entry ≥ vol.endOfChain ∨ entry < 2 then none else some entry

def isDataCluster (vol : FatVolume) (cluster : ℕ) : Bool :=
  cluster ≥ firstDataCluster && cluster < vol.dataClusterCount + firstDataCluster

def nextChainCluster (vol : FatVolume) (cluster : ℕ) : Except ℕ (Option ℕ) :=
  let entry := vol.readFatEntry cluster
  if entry ≥ vol.endOfChain then .ok none
  else if vol.isDataCluster entry then .ok (some entry)
  else .error errorIo

/-- The scan for a free cluster stops before this number, a sum of 16 bits. -/
def scanLimit (vol : FatVolume) : ℕ := wrappingAdd 16 (vol.dataClusterCount % 2 ^ 16) 2

/-- Takes the first free cluster, and chains it after another one unless that is 0 or 1. -/
def allocateCluster (vol : FatVolume) (afterCluster : ℕ) : Option (ℕ × FatVolume) :=
  match (List.range' 2 (vol.scanLimit - 2)).find? fun candidate =>
      vol.readFatEntry candidate = 0 with
  | none => none
  | some candidate =>
    let vol := vol.writeFatEntry candidate vol.endMark
    some (candidate,
      if afterCluster ≥ 2 then vol.writeFatEntry afterCluster candidate else vol)

/-! ### Layout -/

/-- A cluster below the first data cluster maps to the first data cluster. -/
def clusterToLba (vol : FatVolume) (cluster : ℕ) : ℕ :=
  (vol.partitionOffset + vol.firstDataSector * vol.sectorRatio +
    (cluster - firstDataCluster) * vol.bpb.sectorsPerCluster * vol.sectorRatio) % 2 ^ 32

def rootDirLba (vol : FatVolume) : ℕ :=
  (vol.partitionOffset + vol.firstRootSector * vol.sectorRatio) % 2 ^ 32

section

variable {δ : Type} [DiskIo δ]

def readCluster (vol : FatVolume) (cluster : ℕ) : DiskM δ (List UInt8) :=
  readSectors vol.deviceId (vol.clusterToLba cluster)
    (vol.bpb.sectorsPerCluster * vol.sectorRatio)

def readSectorAbs (vol : FatVolume) (absLba : ℕ) : DiskM δ (List UInt8) :=
  readSectors vol.deviceId absLba vol.sectorRatio

end

end FatVolume

end Neetan.Fat
