import Neetan.LittleEndian

/-!
Images of hard disks with a header: parsing the NHD, HDI and THD formats, reading and writing
sectors, and giving the bytes back.

An image keeps the header of its file as it stands and the sectors behind it.
-/

namespace Neetan.HardDisk

open LittleEndian

structure HddGeometry where
  cylinders : ℕ
  heads : ℕ
  sectorsPerTrack : ℕ
  sectorSize : ℕ
  deriving DecidableEq, Repr

namespace HddGeometry

variable (geometry : HddGeometry)

def totalSectors : ℕ := geometry.cylinders * geometry.heads * geometry.sectorsPerTrack

def totalBytes : ℕ := geometry.totalSectors * geometry.sectorSize

end HddGeometry

inductive HddFormat
  | nhd
  | hdi
  | thd
  | raw
  | atFlat
  deriving DecidableEq, Repr

structure HddImage where
  geometry : HddGeometry
  format : HddFormat
  data : List UInt8
  headerBytes : List UInt8
  deriving DecidableEq

inductive HddError
  | tooSmall (format : String) (minimum actual : ℕ)
  | invalidSignature (format expected : String)
  | invalidGeometry (field : String) (value : ℕ)
  | dataTruncated (expected actual : ℕ)
  | unrecognizedFormat
  deriving DecidableEq, Repr

/-! ### Parsing -/

/-- The number in `size` bytes from an offset on. -/
def field (data : List UInt8) (offset size : ℕ) : ℕ := fromLe ((data.drop offset).take size)

def validateGeometry (cylinders heads sectorsPerTrack sectorSize : ℕ) : Except HddError Unit :=
  if cylinders = 0 then .error (.invalidGeometry "cylinders" cylinders)
  else if heads = 0 then .error (.invalidGeometry "heads" heads)
  else if sectorsPerTrack = 0 then .error (.invalidGeometry "sectors_per_track" sectorsPerTrack)
  else if sectorSize = 0 ∨ ¬ sectorSize.isPowerOfTwo then
    .error (.invalidGeometry "sector_size" sectorSize)
  else .ok ()

/-- The header and the sectors of an image, cut out of the file. -/
def cut (geometry : HddGeometry) (format : HddFormat) (dataStart : ℕ) (data : List UInt8) :
    Except HddError HddImage :=
  let expectedDataSize := geometry.totalBytes
  if data.length < dataStart + expectedDataSize then
    .error (.dataTruncated (dataStart + expectedDataSize) data.length)
  else
    .ok
      { geometry
        format
        data := (data.drop dataStart).take expectedDataSize
        headerBytes := data.take dataStart }

def hdiHeaderSize : ℕ := 32

def fromHdi (data : List UInt8) : Except HddError HddImage :=
  if data.length < hdiHeaderSize then .error (.tooSmall "HDI" hdiHeaderSize data.length)
  else
    let headerSize := field data 8 4
    let sectorSize := field data 16 4
    let sectorsPerTrack := field data 20 4
    let heads := field data 24 4
    let cylinders := field data 28 4
    match validateGeometry cylinders heads sectorsPerTrack (sectorSize % 2 ^ 16) with
    | .error error => .error error
    | .ok () =>
      let geometry :=
        { cylinders := cylinders % 2 ^ 16
          heads := heads % 2 ^ 8
          sectorsPerTrack := sectorsPerTrack % 2 ^ 8
          sectorSize := sectorSize % 2 ^ 16 }
      cut geometry .hdi headerSize data

/-- The text `T98HDDIMAGE.R0` and a NUL. -/
def nhdSignature : List UInt8 :=
  [0x54, 0x39, 0x38, 0x48, 0x44, 0x44, 0x49, 0x4D, 0x41, 0x47, 0x45, 0x2E, 0x52, 0x30, 0x00]

def nhdHeaderSize : ℕ := 512

def fromNhd (data : List UInt8) : Except HddError HddImage :=
  if data.length < nhdHeaderSize then .error (.tooSmall "NHD" nhdHeaderSize data.length)
  else if data.take 15 ≠ nhdSignature then .error (.invalidSignature "NHD" "T98HDDIMAGE.R0")
  else
    let headerSize := field data 0x110 4
    let cylinders := field data 0x114 4
    let heads := field data 0x118 2
    let sectorsPerTrack := field data 0x11A 2
    let sectorSize := field data 0x11C 2
    match validateGeometry cylinders heads sectorsPerTrack sectorSize with
    | .error error => .error error
    | .ok () =>
      let geometry :=
        { cylinders := cylinders % 2 ^ 16
          heads := heads % 2 ^ 8
          sectorsPerTrack := sectorsPerTrack % 2 ^ 8
          sectorSize }
      cut geometry .nhd headerSize data

def thdHeaderSize : ℕ := 256
def thdSectorsPerTrack : ℕ := 33
def thdHeads : ℕ := 8
def thdSectorSize : ℕ := 256

def fromThd (data : List UInt8) : Except HddError HddImage :=
  if data.length < thdHeaderSize then .error (.tooSmall "THD" thdHeaderSize data.length)
  else
    let cylinders := field data 0 2
    if cylinders = 0 then .error (.invalidGeometry "cylinders" cylinders)
    else
      let geometry :=
        { cylinders
          heads := thdHeads
          sectorsPerTrack := thdSectorsPerTrack
          sectorSize := thdSectorSize }
      cut geometry .thd thdHeaderSize data

/-- An image without a header, whose size is a whole number of cylinders. -/
def fromFlat (format : HddFormat) (heads sectorsPerTrack sectorSize maxCylinders : ℕ)
    (sizeField cylindersField : String) (data : List UInt8) : Except HddError HddImage :=
  let cylinderBytes := heads * sectorsPerTrack * sectorSize
  if data.isEmpty ∨ ¬ cylinderBytes ∣ data.length then
    .error (.invalidGeometry sizeField (data.length % 2 ^ 32))
  else
    let cylinders := data.length / cylinderBytes
    if maxCylinders < cylinders then
      .error (.invalidGeometry cylindersField (cylinders % 2 ^ 32))
    else
      .ok
        { geometry := { cylinders, heads, sectorsPerTrack, sectorSize }
          format
          data
          headerBytes := [] }

def fromRawFlat : List UInt8 → Except HddError HddImage :=
  fromFlat .raw 8 32 512 0xFFFF "raw image size (must be a nonzero multiple of 128 KiB)"
    "raw image cylinders"

def fromAtFlat : List UInt8 → Except HddError HddImage :=
  fromFlat .atFlat 16 63 512 1023 "AT flat image size (must be a nonzero multiple of 504 KiB)"
    "AT flat image cylinders (the CHS ceiling is 1023)"

/-- The image in a file, by its signature or by the extension of its path, in lower case. -/
def loadHddImage (extension : Option String) (data : List UInt8) : Except HddError HddImage :=
  if 15 ≤ data.length ∧ data.take 15 = nhdSignature then fromNhd data
  else
    match extension with
    | some "nhd" => fromNhd data
    | some "hdi" => fromHdi data
    | some "thd" => fromThd data
    | some "h0" | some "h1" | some "h2" | some "h3" | some "h4" => fromRawFlat data
    | some "hdd" => fromAtFlat data
    | _ => .error .unrecognizedFormat

/-! ### Sectors -/

namespace HddImage

variable (image : HddImage)

def readSector (lba : ℕ) : Option (List UInt8) :=
  if image.geometry.totalSectors ≤ lba then none
  else
    let offset := lba * image.geometry.sectorSize
    let last := offset + image.geometry.sectorSize
    if image.data.length < last then none
    else some ((image.data.drop offset).take image.geometry.sectorSize)

/-- The data with the bytes from an offset on replaced. -/
def patched (data : List UInt8) (offset : ℕ) (bytes : List UInt8) : List UInt8 :=
  data.take offset ++ bytes ++ data.drop (offset + bytes.length)

def writeSector (lba : ℕ) (sectorData : List UInt8) : Bool × HddImage :=
  if image.geometry.totalSectors ≤ lba then (false, image)
  else if sectorData.length ≠ image.geometry.sectorSize then (false, image)
  else
    let offset := lba * image.geometry.sectorSize
    let last := offset + image.geometry.sectorSize
    if image.data.length < last then (false, image)
    else (true, { image with data := patched image.data offset sectorData })

/-- The sectors of a track from `lba` on filled, `count` of them. -/
def formatTrack (image : HddImage) (lba : ℕ) : ℕ → Bool × HddImage
  | 0 => (true, image)
  | count + 1 =>
    if image.geometry.totalSectors ≤ lba then (false, image)
    else
      let offset := lba * image.geometry.sectorSize
      let last := offset + image.geometry.sectorSize
      if image.data.length < last then (false, image)
      else
        let filled := List.replicate image.geometry.sectorSize 0xE5
        formatTrack { image with data := patched image.data offset filled } (lba + 1) count

def toBytes : List UInt8 := image.headerBytes ++ image.data

end HddImage

end Neetan.HardDisk
