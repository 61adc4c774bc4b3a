import Neetan.Fallible

/-!
Disks of physical sectors, which computations read through an interface.

A disk is lawful when what a read returns does not depend on the reads before it. It may be of
any length: an image with sectors of their own lengths returns them as they are.
-/

namespace Neetan.Disk

/-- Disk access by device and physical sector; an error is a status of the drive. -/
class DiskIo (δ : Type) where
  readSectors : δ → ℕ → ℕ → ℕ → Except ℕ (List UInt8) × δ
  sectorSize : δ → ℕ → Option ℕ
  /-- Cylinders, heads and sectors per track. -/
  driveGeometry : δ → ℕ → Option (ℕ × ℕ × ℕ)

section

variable {δ : Type} [DiskIo δ]

/-- The bytes of sectors, or the status of the read. -/
def sectorsOf (disk : δ) (device lba count : ℕ) : Except ℕ (List UInt8) :=
  (DiskIo.readSectors disk device lba count).1

/-- The two disks hold the same. -/
structure SameDisk (disk disk' : δ) : Prop where
  sectors : ∀ device lba count, sectorsOf disk' device lba count = sectorsOf disk device lba count
  size : ∀ device, DiskIo.sectorSize disk' device = DiskIo.sectorSize disk device

lemma SameDisk.refl (disk : δ) : SameDisk disk disk := ⟨fun _ _ _ => rfl, fun _ => rfl⟩

lemma SameDisk.trans {first second third : δ} (h : SameDisk first second)
    (h' : SameDisk second third) : SameDisk first third :=
  ⟨fun device lba count => (h'.sectors device lba count).trans (h.sectors device lba count),
    fun device => (h'.size device).trans (h.size device)⟩

end

/-- Reading changes nothing that can be read. -/
class LawfulDisk (δ : Type) [DiskIo δ] : Prop where
  same_readSectors : ∀ (disk : δ) device lba count,
    SameDisk disk (DiskIo.readSectors disk device lba count).2

/-! ### An Image -/

/-- A disk image, with the size of its sectors and the number of reads so far. -/
structure Image where
  size : ℕ
  bytes : ℕ → UInt8
  reads : ℕ

namespace Image

/-- The bytes from an address on. -/
def bytesAt (bytes : ℕ → UInt8) (start length : ℕ) : List UInt8 :=
  (List.range length).map fun i => bytes (start + i)

instance : DiskIo Image where
  readSectors disk _ lba count :=
    (.ok (bytesAt disk.bytes (lba * disk.size) (count * disk.size)),
      { disk with reads := disk.reads + 1 })
  sectorSize disk _ := some disk.size
  driveGeometry _ _ := none

lemma sectorsOf_image (disk : Image) (device lba count : ℕ) :
    sectorsOf disk device lba count =
      .ok (bytesAt disk.bytes (lba * disk.size) (count * disk.size)) := rfl

instance : LawfulDisk Image where
  same_readSectors _ _ _ _ := ⟨fun _ _ _ => rfl, fun _ => rfl⟩

end Image

/-- A disk image whose sectors have lengths of their own. -/
structure SectorImage where
  size : ℕ
  sector : ℕ → List UInt8

namespace SectorImage

instance : DiskIo SectorImage where
  readSectors disk _ lba count :=
    (.ok ((List.range count).flatMap fun i => disk.sector (lba + i)), disk)
  sectorSize disk _ := some disk.size
  driveGeometry _ _ := none

instance : LawfulDisk SectorImage where
  same_readSectors disk _ _ _ := .refl disk

end SectorImage

end Neetan.Disk
