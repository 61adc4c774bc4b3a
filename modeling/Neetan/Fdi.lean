import Neetan.D88

/-!
The FDI container: a header with a geometry, and the sectors in the order of cylinder, head and
record.

The file has exactly the bytes that the header and the geometry give.
-/

namespace Neetan.Floppy

open ByteReader

/-- The geometry of a disk whose tracks all hold the same sectors. -/
structure FloppyGeometry where
  cylinders : ℕ
  heads : ℕ
  sectorsPerTrack : ℕ
  sectorSize : ℕ
  deriving DecidableEq

def smallestSectorSize : ℕ := 128
def largestSectorSize : ℕ := 16384

/-- The number of zero bits below the lowest one of a word of `w` bits. -/
def trailingZeros : ℕ → ℕ → ℕ
  | 0, _ => 0
  | w + 1, n => if n % 2 = 1 then 0 else trailingZeros w (n / 2) + 1

def FloppyGeometry.sizeCode (self : FloppyGeometry) : UInt8 :=
  .ofNat (trailingZeros 16 (self.sectorSize / smallestSectorSize))

inductive FdiError
  | tooShort (actual : ℕ)
  | invalidHeaderSize (headerSize fileSize : ℕ)
  | unknownMediaCode (code : ℕ)
  | invalidSectorSize (size : ℕ)
  | invalidSectorCount (count : ℕ)
  | invalidHeadCount (count : ℕ)
  | invalidCylinderCount (count : ℕ)
  | sizeMismatch (actual expected : ℕ)
  deriving DecidableEq, Repr

structure FdiHeaderFields where
  mediaType : D88MediaType
  headerSize : ℕ
  geometry : FloppyGeometry
  deriving DecidableEq

namespace Fdi

def geometryFieldsSize : ℕ := 32
def mediaCodeOffset : ℕ := 0x04
def headerSizeOffset : ℕ := 0x08
def sectorSizeOffset : ℕ := 0x10
def sectorsOffset : ℕ := 0x14
def headsOffset : ℕ := 0x18
def cylindersOffset : ℕ := 0x1C
def minSectorsPerTrack : ℕ := 1
def fdiHeads : ℕ := 2
def minCylinders : ℕ := 1
def maxCylinders : ℕ := 127

/-- The media type that the class bits of a media code select. -/
def mediaType (mediaCode : ℕ) : Option D88MediaType :=
  match mediaCode &&& 0xF0 with
  | 0x90 | 0x30 | 0xB0 => some .disk2HD
  | 0x10 | 0x70 | 0xF0 => some .disk2DD
  | 0x50 | 0xD0 => some .disk2D
  | _ => none

/-- The byte count of the sector data: a product of two words of 16 bits and two bytes. -/
def dataSize (geometry : FloppyGeometry) : ℕ :=
  geometry.sectorSize * geometry.sectorsPerTrack * geometry.heads * geometry.cylinders

def readHeader (header : List UInt8) : Reading FdiError FdiHeaderFields :=
  if header.length < geometryFieldsSize then throw (.tooShort header.length)
  else do
    let headerSizeField ← word 4 header headerSizeOffset
    let headerSize ← okOr (.invalidHeaderSize headerSizeField header.length) <|
      Option.guard (fun size => geometryFieldsSize ≤ size && size ≤ header.length) headerSizeField
    let mediaCode ← word 4 header mediaCodeOffset
    let mediaType ← okOr (.unknownMediaCode mediaCode) (mediaType mediaCode)
    let sectorSizeField ← word 4 header sectorSizeOffset
    let sectorSize ← okOr (.invalidSectorSize sectorSizeField) <|
      Option.guard (fun size => size < 2 ^ 16 && size.isPowerOfTwo &&
        smallestSectorSize ≤ size && size ≤ largestSectorSize) sectorSizeField
    let sectorsField ← word 4 header sectorsOffset
    let sectorsPerTrack ← okOr (.invalidSectorCount sectorsField) <|
      Option.guard (fun sectors => sectors < 2 ^ 8 && minSectorsPerTrack ≤ sectors) sectorsField
    let headsField ← word 4 header headsOffset
    if headsField ≠ fdiHeads then throw (.invalidHeadCount headsField)
    else do
      let cylindersField ← word 4 header cylindersOffset
      let cylinders ← okOr (.invalidCylinderCount cylindersField) <|
        Option.guard (fun cylinders => cylinders < 2 ^ 16 && minCylinders ≤ cylinders &&
          cylinders ≤ maxCylinders) cylindersField
      return {
        mediaType, headerSize
        geometry := { cylinders, heads := fdiHeads, sectorsPerTrack, sectorSize } }

/-- The place of a sector: its track index, cylinder, head and record. -/
structure SectorSlot where
  trackIndex : ℕ
  cylinder : ℕ
  head : ℕ
  record : ℕ

/-- The places of all sectors, in the order of the file. -/
def sectorSlots (geometry : FloppyGeometry) : List SectorSlot :=
  (List.range geometry.cylinders).flatMap fun cylinder =>
    (List.range geometry.heads).flatMap fun head =>
      (List.range' 1 geometry.sectorsPerTrack).map fun record =>
        { trackIndex := cylinder * 2 + head, cylinder, head, record }

/-- Puts the sectors at the given places, which begin at `offset` of the file, into the tracks. -/
def readSlots (data : List UInt8) (geometry : FloppyGeometry) :
    List SectorSlot → ℕ → List (Option D88Track) → Reading FdiError (List (Option D88Track))
  | [], _, trackSectors => pure trackSectors
  | slot :: slots, offset, trackSectors => do
    let last ← plus offset geometry.sectorSize
    let sectors ← orStop trackSectors[slot.trackIndex]?
    let sectorData ← slice data offset last
    let sector : D88Sector := {
      cylinder := .ofNat slot.cylinder, head := .ofNat slot.head, record := .ofNat slot.record
      sizeCode := geometry.sizeCode, sectorCount := .ofNat geometry.sectorsPerTrack
      mfmFlag := 0x00, deleted := 0x00, status := 0x00, reserved := Vector.replicate 5 0
      data := sectorData, sourceOffset := some offset }
    readSlots data geometry slots last
      (trackSectors.set slot.trackIndex (some (sectors.getD [] ++ [sector])))

/-- The disk, and a copy of the header. -/
def fromBytes (data : List UInt8) : Reading FdiError (D88Disk × List UInt8) := do
  let fields ← readHeader data
  let geometry := fields.geometry
  let expected ← plus fields.headerSize (dataSize geometry)
  if data.length ≠ expected then throw (.sizeMismatch data.length expected)
  else do
    let trackCount := geometry.cylinders * geometry.heads
    let trackSectors ← readSlots data geometry (sectorSlots geometry) fields.headerSize
      (List.replicate trackCount none)
    let header ← slice data 0 fields.headerSize
    return ({
      name := [], writeProtected := false, mediaType := fields.mediaType
      tracks := trackSectors }, header)

/-! ### The header -/

variable {data : List UInt8}

/-- What the checks of the header leave. -/
structure GoodFields (data : List UInt8) (fields : FdiHeaderFields) : Prop where
  headerSize : fields.headerSize ≤ data.length
  heads : fields.geometry.heads = 2
  small : dataSize fields.geometry < 2 ^ 63
  sectorSize : fields.geometry.sectorSize = 128 <<< fields.geometry.sizeCode.toNat

lemma sectorSize_eq {geometry : FloppyGeometry} (hpower : geometry.sectorSize.isPowerOfTwo)
    (hsmall : 128 ≤ geometry.sectorSize) (hlarge : geometry.sectorSize ≤ 16384) :
    geometry.sectorSize = 128 <<< geometry.sizeCode.toNat := by
  obtain ⟨k, hsize⟩ := hpower
  have hk : k < 15 := (Nat.pow_lt_pow_iff_right (by decide)).mp
    ((hsize ▸ hlarge).trans_lt (by decide : 16384 < 2 ^ 15))
  have hpowers : ∀ k < 15, 128 ≤ 2 ^ k → 2 ^ k ≤ 16384 →
      2 ^ k = 128 <<< (UInt8.ofNat (trailingZeros 16 (2 ^ k / 128))).toNat := by decide
  rw [FloppyGeometry.sizeCode, smallestSectorSize, hsize]
  exact hpowers k hk (hsize ▸ hsmall) (hsize ▸ hlarge)

lemma readHeader_ends : Ends (readHeader data) (GoodFields data) := by
  rw [readHeader]
  split
  · exact ends_throw
  rename_i hlen
  simp only [geometryFieldsSize, Nat.not_lt] at hlen
  simp (disch := omega) only [headerSizeOffset, mediaCodeOffset, sectorSizeOffset, sectorsOffset,
    headsOffset, cylindersOffset, word_of_le, pure_bind]
  refine ends_okOr.bind fun headerSize hheader => ?_
  refine ends_okOr.bind fun media _ => ?_
  refine ends_okOr.bind fun sectorSize hsize => ?_
  refine ends_okOr.bind fun sectorsPerTrack hsectors => ?_
  split
  · exact ends_throw
  refine ends_okOr.bind fun cylinders hcylinders => ends_pure ?_
  simp only [Option.guard_eq_some_iff, Bool.and_eq_true, decide_eq_true_eq, smallestSectorSize,
    largestSectorSize, maxCylinders] at hheader hsize hsectors hcylinders
  obtain ⟨rfl, -, hheader⟩ := hheader
  obtain ⟨rfl, ⟨⟨-, hpower⟩, hsmall⟩, hlarge⟩ := hsize
  obtain ⟨rfl, hsectors, -⟩ := hsectors
  obtain ⟨rfl, -, hcylinders⟩ := hcylinders
  have hlarge := of_decide_eq_true hlarge
  have hcylinders := of_decide_eq_true hcylinders
  refine ⟨hheader, rfl, ?_, sectorSize_eq hpower (of_decide_eq_true hsmall) hlarge⟩
  have htrack : wordAt 4 data 0x10 * wordAt 4 data 0x14 ≤ 16384 * 2 ^ 8 :=
    Nat.mul_le_mul hlarge (Nat.le_of_lt hsectors)
  exact lt_of_le_of_lt (Nat.mul_le_mul (Nat.mul_le_mul_right fdiHeads htrack) hcylinders)
    (by norm_num [fdiHeads])

/-! ### The sectors -/

lemma length_sectorSlots (geometry : FloppyGeometry) : (sectorSlots geometry).length *
    geometry.sectorSize = dataSize geometry := by
  have hlen : (sectorSlots geometry).length =
      geometry.cylinders * (geometry.heads * geometry.sectorsPerTrack) := by
    simp only [sectorSlots, List.length_flatMap, List.length_map, List.length_range',
      List.map_const', List.length_range, List.sum_replicate_nat]
  rw [hlen, dataSize]
  ring

lemma trackIndex_lt {geometry : FloppyGeometry} (hheads : geometry.heads = 2) {slot : SectorSlot}
    (h : slot ∈ sectorSlots geometry) : slot.trackIndex < geometry.cylinders * geometry.heads := by
  obtain ⟨cylinder, hcylinder, h⟩ := List.mem_flatMap.mp h
  obtain ⟨head, hhead, h⟩ := List.mem_flatMap.mp h
  obtain ⟨record, -, rfl⟩ := List.mem_map.mp h
  rw [List.mem_range] at hcylinder hhead
  rw [hheads] at hhead ⊢
  simp only
  omega

lemma readSlots_ends {geometry : FloppyGeometry} {slots : List SectorSlot} {offset : ℕ}
    {tracks : List (Option D88Track)} {P : D88Sector → Prop} (hlen : data.length < 2 ^ 63)
    (hroom : offset + slots.length * geometry.sectorSize ≤ data.length)
    (hslots : ∀ slot ∈ slots, slot.trackIndex < tracks.length)
    (hsector : ∀ sector : D88Sector, sector.sizeCode = geometry.sizeCode → sector.FromFile data →
      sector.data.length = geometry.sectorSize → P sector)
    (htracks : ∀ track ∈ tracks, ∀ sector ∈ track.getD [], P sector) :
    Ends (readSlots data geometry slots offset tracks) fun tracks =>
      ∀ track ∈ tracks, ∀ sector ∈ track.getD [], P sector := by
  induction slots generalizing offset tracks with
  | nil => exact ends_pure htracks
  | cons slot slots ih =>
    obtain ⟨hslot, hslots⟩ := List.forall_mem_cons.mp hslots
    rw [List.length_cons, Nat.succ_mul] at hroom
    have hlast : offset + geometry.sectorSize ≤ data.length := by omega
    rw [readSlots, plus_of_lt (by omega), pure_bind, List.getElem?_eq_getElem hslot]
    simp only [orStop, Option.elim_some, pure_bind, slice_of_le (Nat.le_add_right _ _) hlast]
    refine ih (by omega) (by rwa [List.length_set]) fun track htrack => ?_
    rcases List.mem_or_eq_of_mem_set htrack with htrack | rfl
    · exact htracks track htrack
    · refine List.forall_mem_append.mpr ⟨?_, List.forall_mem_singleton.mpr ?_⟩
      · exact htracks _ (List.getElem_mem hslot)
      · refine hsector _ rfl ⟨offset, rfl, standsAt_slice (Nat.le_add_right _ _) hlast⟩ ?_
        rw [length_slice hlast, Nat.add_sub_cancel_left]

/-- **FDI files are parsed safely.** The parser ends on every file, and each sector of the disk
holds the bytes of the file at the offset it records, as many as its size code says. -/
theorem fromBytes_ends (hlen : data.length < 2 ^ 63) :
    Ends (fromBytes data) fun found => ∀ sector ∈ found.1.sectors,
      sector.FromFile data ∧ sector.Sized := by
  rw [fromBytes]
  refine readHeader_ends.bind fun fields hfields => ?_
  have hheader := hfields.headerSize
  have hsmall := hfields.small
  simp only
  rw [plus_of_lt (by omega), pure_bind]
  split
  · exact ends_throw
  rename_i hsize
  rw [ne_eq, not_not] at hsize
  have hroom : fields.headerSize + (sectorSlots fields.geometry).length *
      fields.geometry.sectorSize ≤ data.length := by
    rw [length_sectorSlots, hsize]
  refine (readSlots_ends (P := fun sector => sector.FromFile data ∧ sector.Sized) hlen hroom ?_ ?_
    ?_).bind fun tracks htracks => ?_
  · intro slot hslot
    rw [List.length_replicate]
    exact trackIndex_lt hfields.heads hslot
  · intro sector hcode hfile hlength
    refine ⟨hfile, ?_⟩
    rw [D88Sector.Sized, hlength, hcode, hfields.sectorSize]
  · intro track htrack
    rw [List.eq_of_mem_replicate htrack]
    exact fun _ h => nomatch h
  · rw [slice_of_le (Nat.zero_le _) hheader, pure_bind]
    refine ends_pure fun sector hmem => ?_
    obtain ⟨track, htrack, hmem⟩ := List.mem_flatMap.mp hmem
    exact htracks track htrack sector hmem

end Fdi

end Neetan.Floppy
