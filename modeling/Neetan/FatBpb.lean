import Mathlib.Tactic.Common

/-!
BIOS parameter blocks of FAT volumes: parsing, validation and the layout they give.

A block comes from the boot record, little-endian as DOS has it or big-endian as Human68k
has it, or from the tables of a platform.
-/

namespace Neetan.Fat

/-- The little-endian pair of bytes at an offset. -/
def pairAt (bytes : List UInt8) (offset : ℕ) : ℕ :=
  (bytes.getD offset 0).toNat + 256 * (bytes.getD (offset + 1) 0).toNat

/-- The big-endian pair of bytes at an offset. -/
def bigPairAt (bytes : List UInt8) (offset : ℕ) : ℕ :=
  256 * (bytes.getD offset 0).toNat + (bytes.getD (offset + 1) 0).toNat

def bootSectorBpbOffset : ℕ := 11
def parameterBlockLength : ℕ := 25
def directoryEntrySize : ℕ := 32
def fat16MinimumClusterCount : ℕ := 4085
def human68kBootOpcode : UInt8 := 0x60

/-- `Hudson soft`. -/
def human68kHudsonSignature : List UInt8 :=
  [0x48, 0x75, 0x64, 0x73, 0x6F, 0x6E, 0x20, 0x73, 0x6F, 0x66, 0x74]

def human68kHudsonSignatureOffset : ℕ := 2

/-- `X68IPL`. -/
def human68kIplSignature : List UInt8 := [0x58, 0x36, 0x38, 0x49, 0x50, 0x4C]

def human68kIplSignatureOffset : ℕ := 3
def human68kBpbOffset : ℕ := 0x12
def human68kBpbLength : ℕ := 12

structure Bpb where
  bytesPerSector : ℕ
  sectorsPerCluster : ℕ
  reservedSectors : ℕ
  numFats : ℕ
  rootEntryCount : ℕ
  totalSectors16 : ℕ
  mediaDescriptor : UInt8
  sectorsPerFat : ℕ
  totalSectors32 : ℕ
  deriving DecidableEq

/-- The bytes from an offset on, if there are that many. -/
def slice? (bytes : List UInt8) (offset length : ℕ) : Option (List UInt8) :=
  if offset + length ≤ bytes.length then some ((bytes.drop offset).take length) else none

def hasSignature (sector : List UInt8) (offset : ℕ) (signature : List UInt8) : Bool :=
  sector.head? = some human68kBootOpcode && slice? sector offset signature.length = some signature

def isHuman68kBootSector (sector : List UInt8) : Bool :=
  hasSignature sector human68kHudsonSignatureOffset human68kHudsonSignature ||
    hasSignature sector human68kIplSignatureOffset human68kIplSignature

namespace Bpb

def withValidSizes (bpb : Bpb) : Option Bpb :=
  if bpb.bytesPerSector.isPowerOfTwo ∧ bpb.sectorsPerCluster.isPowerOfTwo then some bpb else none

def fromParameterBlock (block : List UInt8) : Option Bpb :=
  if block.length < parameterBlockLength then none
  else withValidSizes {
    bytesPerSector := pairAt block 0
    sectorsPerCluster := (block.getD 2 0).toNat
    reservedSectors := pairAt block 3
    numFats := (block.getD 5 0).toNat
    rootEntryCount := pairAt block 6
    totalSectors16 := pairAt block 8
    mediaDescriptor := block.getD 10 0
    sectorsPerFat := pairAt block 11
    totalSectors32 := pairAt block 21 + 65536 * pairAt block 23 }

def parse (sector : List UInt8) : Option Bpb :=
  if sector.length < 62 then none else fromParameterBlock (sector.drop bootSectorBpbOffset)

def parseHuman68k (sector : List UInt8) : Option Bpb :=
  if !hasSignature sector human68kHudsonSignatureOffset human68kHudsonSignature then none
  else do
    let block ← slice? sector human68kBpbOffset human68kBpbLength
    withValidSizes {
      bytesPerSector := bigPairAt block 0
      sectorsPerCluster := (block.getD 2 0).toNat
      numFats := (block.getD 3 0).toNat
      reservedSectors := bigPairAt block 4
      rootEntryCount := bigPairAt block 6
      totalSectors16 := bigPairAt block 8
      mediaDescriptor := block.getD 10 0
      sectorsPerFat := (block.getD 11 0).toNat
      totalSectors32 := 0 }

def totalSectors (bpb : Bpb) : ℕ :=
  if bpb.totalSectors16 ≠ 0 then bpb.totalSectors16 else bpb.totalSectors32

def rootDirSectors (bpb : Bpb) : ℕ :=
  (bpb.rootEntryCount * directoryEntrySize + bpb.bytesPerSector - 1) / bpb.bytesPerSector

def firstRootSector (bpb : Bpb) : ℕ := bpb.reservedSectors + bpb.numFats * bpb.sectorsPerFat

def firstDataSector (bpb : Bpb) : ℕ := bpb.firstRootSector + bpb.rootDirSectors

def dataClusterCount (bpb : Bpb) : ℕ :=
  (bpb.totalSectors - bpb.firstDataSector) / bpb.sectorsPerCluster

def isFat16 (bpb : Bpb) : Bool := bpb.dataClusterCount ≥ fat16MinimumClusterCount

def clusterSize (bpb : Bpb) : ℕ := bpb.bytesPerSector * bpb.sectorsPerCluster

def isSupportedWithPhysicalSectorSize (bpb : Bpb) (physicalSectorSize : ℕ) : Bool :=
  if physicalSectorSize = 0 || bpb.bytesPerSector < physicalSectorSize ||
      bpb.bytesPerSector % physicalSectorSize ≠ 0 then false
  else bpb.reservedSectors ≠ 0 && bpb.numFats ≠ 0 && bpb.rootEntryCount ≠ 0 &&
    bpb.sectorsPerFat ≠ 0 && bpb.totalSectors ≠ 0 && bpb.firstDataSector < bpb.totalSectors

def hasValidInitialFatEntries (bpb : Bpb) (fatData : List UInt8) : Bool :=
  if bpb.isFat16 then
    fatData.length ≥ 4 && fatData.take 4 == [bpb.mediaDescriptor, 0xFF, 0xFF, 0xFF]
  else fatData.length ≥ 3 && fatData.take 3 == [bpb.mediaDescriptor, 0xFF, 0xFF]

lemma sizes_of_isSupported {bpb : Bpb} {size : ℕ}
    (h : bpb.isSupportedWithPhysicalSectorSize size = true) :
    0 < size ∧ size ≤ bpb.bytesPerSector ∧ bpb.bytesPerSector % size = 0 := by
  unfold isSupportedWithPhysicalSectorSize at h
  split_ifs at h with hsize
  simp only [Bool.or_eq_true, decide_eq_true_eq, not_or, Nat.not_lt, ne_eq, not_not] at hsize
  exact ⟨Nat.pos_of_ne_zero hsize.1.1, hsize.1.2, hsize.2⟩

end Bpb

/-! ### The Media of FM Towns -/

namespace FmTowns

def floppyBpb : Bpb := ⟨0x0400, 1, 1, 2, 0x00C0, 0x04D0, 0x01, 2, 0⟩
def floppy2hd512Bpb : Bpb := ⟨0x0200, 1, 1, 2, 0x00E0, 0x0960, 0x02, 7, 0⟩
def floppy1440kBpb : Bpb := ⟨0x0200, 1, 1, 2, 0x00E0, 0x0B40, 0xF0, 9, 0⟩
def floppy128Bpb : Bpb := ⟨0x0080, 4, 1, 2, 0x0044, 0x07D2, 0x00, 6, 0⟩
def floppy1440kMode1024Bpb : Bpb := ⟨0x0400, 1, 1, 2, 0x00C0, 0x09A0, 0x03, 4, 0⟩

def floppy2ddFirstFatId : ℕ := 0xF8

def floppy2ddBpb (fatId : UInt8) (sectorsPerCluster rootEntryCount totalSectors sectorsPerFat : ℕ) :
    Bpb :=
  ⟨0x0200, sectorsPerCluster, 1, 2, rootEntryCount, totalSectors, fatId, sectorsPerFat, 0⟩

def floppy2ddBpbs : List Bpb :=
  [floppy2ddBpb 0xF8 2 0x70 0x02D0 2,
    floppy2ddBpb 0xF9 2 0x70 0x05A0 3,
    floppy2ddBpb 0xFA 2 0x70 0x0280 1,
    floppy2ddBpb 0xFB 2 0x70 0x0500 2,
    floppy2ddBpb 0xFC 1 0x40 0x0168 2,
    floppy2ddBpb 0xFD 2 0x70 0x02D0 2,
    floppy2ddBpb 0xFE 1 0x40 0x0140 1,
    floppy2ddBpb 0xFF 2 0x70 0x0280 1]

def floppy2hdFatIds : List UInt8 := [0xFE, 0xF9]
def floppy1440kFatId : UInt8 := 0xF0
def floppy1440kMode1024FatId : UInt8 := 0xFE

inductive FloppyDriveMode where
  | twoHd (sectorSize : ℕ)
  | twoDd
  | highDensity

def FloppyDriveMode.ofFormat (sectorSize sectorsPerTrack : ℕ) : FloppyDriveMode :=
  if sectorSize = 512 ∧ sectorsPerTrack = 18 then .highDensity
  else if sectorSize = 512 ∧ sectorsPerTrack ≤ 9 then .twoDd
  else .twoHd sectorSize

def floppyMediaBpb (fatId : UInt8) (sectorSize sectorsPerTrack : ℕ) : Option Bpb :=
  match FloppyDriveMode.ofFormat sectorSize sectorsPerTrack with
  | .highDensity =>
    if fatId = floppy1440kFatId then some floppy1440kBpb
    else if fatId = floppy1440kMode1024FatId then some floppy1440kMode1024Bpb
    else none
  | .twoDd =>
    if fatId.toNat < floppy2ddFirstFatId then none
    else floppy2ddBpbs[fatId.toNat - floppy2ddFirstFatId]?
  | .twoHd size =>
    if fatId ∉ floppy2hdFatIds then none
    else match size with
      | 1024 => some floppyBpb
      | 512 => some floppy2hd512Bpb
      | 128 => some floppy128Bpb
      | _ => none

end FmTowns

end Neetan.Fat
