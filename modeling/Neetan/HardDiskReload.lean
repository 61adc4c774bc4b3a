import Neetan.HardDisk
import Mathlib.Data.List.TakeDrop

/-!
Runs of writes on the image of a hard disk, and what its bytes load to.

The parser reads its fields from the start of the file. They stay as long as no write reaches
them, and then the bytes of the image load to the image.
-/

namespace Neetan.HardDisk

open LittleEndian

variable {data bytes file : List UInt8} {offset start n : ℕ}

/-! ### Patches -/

namespace HddImage

lemma length_patched (fits : offset + bytes.length ≤ data.length) :
    (patched data offset bytes).length = data.length := by
  simp only [patched, List.length_append, List.length_take, List.length_drop]
  omega

lemma patched_append (front : List UInt8) (data : List UInt8) (offset : ℕ) (bytes : List UInt8) :
    patched (front ++ data) (front.length + offset) bytes = front ++ patched data offset bytes := by
  rw [patched, patched, Nat.add_assoc, List.take_length_add_append, List.drop_length_add_append]
  simp only [List.append_assoc]

lemma getElem?_patched (fits : offset + bytes.length ≤ data.length) (i : ℕ) :
    (patched data offset bytes)[i]? =
      if offset ≤ i ∧ i < offset + bytes.length then bytes[i - offset]? else data[i]? := by
  have front : (data.take offset).length = offset := by
    rw [List.length_take]
    omega
  rw [patched, List.append_assoc, List.getElem?_append, front]
  by_cases before : i < offset
  · rw [if_pos before, if_neg (by omega), List.getElem?_take, if_pos before]
  rw [if_neg before, List.getElem?_append]
  by_cases inside : i - offset < bytes.length
  · rw [if_pos inside, if_pos (by omega)]
  · rw [if_neg inside, if_neg (by omega), List.getElem?_drop]
    congr 1
    omega

lemma take_patched (fits : offset + bytes.length ≤ data.length)
    (agree : ∀ i < bytes.length, offset + i < n → data[offset + i]? = bytes[i]?) :
    (patched data offset bytes).take n = data.take n := by
  refine List.ext_getElem? fun i => ?_
  rw [List.getElem?_take, List.getElem?_take, getElem?_patched fits]
  by_cases low : i < n
  · rw [if_pos low, if_pos low]
    split
    · rename_i inside
      have at_i := agree (i - offset) (by omega) (by omega)
      rw [Nat.add_sub_cancel' inside.1] at at_i
      exact at_i.symm
    · rfl
  · rw [if_neg low, if_neg low]

end HddImage

/-! ### What the parser reads -/

def HddFormat.HasHeader (format : HddFormat) : Prop :=
  format = .nhd ∨ format = .hdi ∨ format = .thd

/-- A bound for the header fields that the parser reads; it does not read every byte below. -/
def fieldsEnd : HddFormat → ℕ
  | .nhd => 0x11E
  | .hdi => hdiHeaderSize
  | .thd => thdHeaderSize
  | .raw | .atFlat => 0

def minimumSize : HddFormat → ℕ
  | .nhd => nhdHeaderSize
  | .hdi => hdiHeaderSize
  | .thd => thdHeaderSize
  | .raw | .atFlat => 0

/-- The geometry as the header has it. -/
def headerGeometry : HddFormat → List UInt8 → HddGeometry
  | .nhd, data => ⟨field data 0x114 4, field data 0x118 2, field data 0x11A 2, field data 0x11C 2⟩
  | .hdi, data => ⟨field data 28 4, field data 24 4, field data 20 4, field data 16 4⟩
  | .thd, data => ⟨field data 0 2, thdHeads, thdSectorsPerTrack, thdSectorSize⟩
  | .raw, _ | .atFlat, _ => ⟨0, 0, 0, 0⟩

def headerSize : HddFormat → List UInt8 → ℕ
  | .nhd, data => field data 0x110 4
  | .hdi, data => field data 8 4
  | .thd, _ => thdHeaderSize
  | .raw, _ | .atFlat, _ => 0

def parse : HddFormat → List UInt8 → Except HddError HddImage
  | .nhd => fromNhd
  | .hdi => fromHdi
  | .thd => fromThd
  | .raw => fromRawFlat
  | .atFlat => fromAtFlat

namespace HddGeometry

variable (geometry : HddGeometry)

/-- The geometry in the fields of an image. -/
def truncate : HddGeometry where
  cylinders := geometry.cylinders % 2 ^ 16
  heads := geometry.heads % 2 ^ 8
  sectorsPerTrack := geometry.sectorsPerTrack % 2 ^ 8
  sectorSize := geometry.sectorSize % 2 ^ 16

structure Nonzero : Prop where
  cylinders_ne : geometry.cylinders ≠ 0
  heads_ne : geometry.heads ≠ 0
  sectorsPerTrack_ne : geometry.sectorsPerTrack ≠ 0
  sectorSize_ne : geometry.sectorSize ≠ 0

/-- The geometry fits the fields of an image. -/
structure Fits : Prop where
  cylinders_lt : geometry.cylinders < 2 ^ 16
  heads_lt : geometry.heads < 2 ^ 8
  sectorsPerTrack_lt : geometry.sectorsPerTrack < 2 ^ 8
  sectorSize_lt : geometry.sectorSize < 2 ^ 16

/-- The geometry passes the checks of the parsers. -/
structure Acceptable : Prop where
  cylinders_ne : geometry.cylinders ≠ 0
  heads_ne : geometry.heads ≠ 0
  sectorsPerTrack_ne : geometry.sectorsPerTrack ≠ 0
  sectorSize_power : (geometry.sectorSize % 2 ^ 16).isPowerOfTwo

lemma truncate_eq_iff : geometry.truncate = geometry ↔ geometry.Fits := by
  obtain ⟨cylinders, heads, sectorsPerTrack, sectorSize⟩ := geometry
  simp only [truncate, HddGeometry.mk.injEq]
  constructor
  · rintro ⟨c, h, s, z⟩
    constructor <;> dsimp only <;> omega
  · rintro ⟨c, h, s, z⟩
    dsimp only at c h s z
    omega

lemma acceptable_iff :
    geometry.Acceptable ↔ geometry.cylinders ≠ 0 ∧ geometry.heads ≠ 0 ∧
      geometry.sectorsPerTrack ≠ 0 ∧ (geometry.sectorSize % 2 ^ 16).isPowerOfTwo :=
  ⟨fun ⟨c, h, s, z⟩ => ⟨c, h, s, z⟩, fun ⟨c, h, s, z⟩ => ⟨c, h, s, z⟩⟩

lemma Acceptable.nonzero {geometry : HddGeometry} (acceptable : geometry.Acceptable)
    (fits : geometry.Fits) : geometry.Nonzero := by
  refine ⟨acceptable.cylinders_ne, acceptable.heads_ne, acceptable.sectorsPerTrack_ne, ?_⟩
  have power := acceptable.sectorSize_power
  rw [Nat.mod_eq_of_lt fits.sectorSize_lt] at power
  exact (Nat.pos_of_isPowerOfTwo power).ne'

end HddGeometry

lemma field_lt (data : List UInt8) (offset size : ℕ) : field data offset size < 256 ^ size := by
  refine (fromLe_lt _).trans_le (Nat.pow_le_pow_right (by decide) ?_)
  rw [List.length_take]
  exact Nat.min_le_left _ _

lemma field_congr {size : ℕ} (same : data.take n = bytes.take n) (inside : offset + size ≤ n) :
    field data offset size = field bytes offset size := by
  have part (l : List UInt8) : (l.drop offset).take size = ((l.take n).drop offset).take size := by
    rw [List.drop_take, List.take_take, Nat.min_eq_left (by omega)]
  rw [field, field, part data, part bytes, same]

lemma headerGeometry_congr {format : HddFormat}
    (same : data.take (fieldsEnd format) = bytes.take (fieldsEnd format)) :
    headerGeometry format data = headerGeometry format bytes := by
  cases format with
  | nhd =>
    simp only [headerGeometry, field_congr same (show 0x114 + 4 ≤ _ by decide),
      field_congr same (show 0x118 + 2 ≤ _ by decide),
      field_congr same (show 0x11A + 2 ≤ _ by decide),
      field_congr same (show 0x11C + 2 ≤ _ by decide)]
  | hdi =>
    simp only [headerGeometry, field_congr same (show 28 + 4 ≤ _ by decide),
      field_congr same (show 24 + 4 ≤ _ by decide),
      field_congr same (show 20 + 4 ≤ _ by decide),
      field_congr same (show 16 + 4 ≤ _ by decide)]
  | thd => simp only [headerGeometry, field_congr same (show 0 + 2 ≤ _ by decide)]
  | raw => rfl
  | atFlat => rfl

lemma headerSize_congr {format : HddFormat}
    (same : data.take (fieldsEnd format) = bytes.take (fieldsEnd format)) :
    headerSize format data = headerSize format bytes := by
  cases format with
  | nhd => exact field_congr same (show 0x110 + 4 ≤ _ by decide)
  | hdi => exact field_congr same (show 8 + 4 ≤ _ by decide)
  | thd => rfl
  | raw => rfl
  | atFlat => rfl

lemma validateGeometry_ok_iff {cylinders heads sectorsPerTrack sectorSize : ℕ} :
    validateGeometry cylinders heads sectorsPerTrack sectorSize = .ok () ↔
      cylinders ≠ 0 ∧ heads ≠ 0 ∧ sectorsPerTrack ≠ 0 ∧ sectorSize.isPowerOfTwo := by
  unfold validateGeometry
  split_ifs with h₁ h₂ h₃ h₄
  · simp [h₁]
  · simp [h₂]
  · simp [h₃]
  · refine iff_of_false (by simp) fun all => ?_
    obtain rfl | power := h₄
    · exact Nat.not_isPowerOfTwo_zero all.2.2.2
    · exact power all.2.2.2
  · rw [not_or, not_not] at h₄
    exact iff_of_true rfl ⟨h₁, h₂, h₃, h₄.2⟩

/-- The image that a parser makes of a file. -/
def imageOf (format : HddFormat) (data : List UInt8) : HddImage where
  geometry := (headerGeometry format data).truncate
  format := format
  data := (data.drop (headerSize format data)).take (headerGeometry format data).truncate.totalBytes
  headerBytes := data.take (headerSize format data)

lemma cut_ok_iff {geometry : HddGeometry} {format : HddFormat} {image : HddImage} :
    cut geometry format start data = .ok image ↔
      start + geometry.totalBytes ≤ data.length ∧
        image =
          ⟨geometry, format, (data.drop start).take geometry.totalBytes, data.take start⟩ := by
  unfold cut
  dsimp only
  split_ifs with short
  · exact iff_of_false (by simp) fun both => absurd both.1 (by omega)
  · rw [Except.ok.injEq, and_iff_right (by omega), eq_comm]

/-- **When a parser accepts a file, and what it makes of it.** -/
theorem parse_ok_iff {format : HddFormat} (headed : format.HasHeader) {image : HddImage} :
    parse format data = .ok image ↔
      minimumSize format ≤ data.length ∧
      (format = .nhd → data.take 15 = nhdSignature) ∧
      (headerGeometry format data).Acceptable ∧
      headerSize format data + (headerGeometry format data).truncate.totalBytes ≤ data.length ∧
      image = imageOf format data := by
  obtain rfl | rfl | rfl := headed
  · have size_lt : field data 0x11C 2 < 2 ^ 16 := field_lt data 0x11C 2
    have truncated : (headerGeometry .nhd data).truncate =
        ⟨field data 0x114 4 % 2 ^ 16, field data 0x118 2 % 2 ^ 8, field data 0x11A 2 % 2 ^ 8,
          field data 0x11C 2⟩ := by
      rw [HddGeometry.truncate, headerGeometry, HddGeometry.mk.injEq]
      exact ⟨rfl, rfl, rfl, Nat.mod_eq_of_lt size_lt⟩
    have accepts : (headerGeometry .nhd data).Acceptable ↔
        validateGeometry (field data 0x114 4) (field data 0x118 2) (field data 0x11A 2)
          (field data 0x11C 2) = .ok () := by
      rw [validateGeometry_ok_iff, HddGeometry.acceptable_iff, headerGeometry,
        Nat.mod_eq_of_lt size_lt]
    rw [parse, fromNhd, accepts, imageOf, truncated,
      show minimumSize .nhd = nhdHeaderSize from rfl]
    by_cases short : data.length < nhdHeaderSize
    · rw [if_pos short]
      exact iff_of_false (by simp) fun all => absurd all.1 (Nat.not_le_of_lt short)
    rw [if_neg short, and_iff_right (Nat.le_of_not_lt short)]
    by_cases signed : data.take 15 = nhdSignature
    · rw [if_neg (not_not_intro signed), and_iff_right fun _ => signed]
      cases valid : validateGeometry (field data 0x114 4) (field data 0x118 2)
        (field data 0x11A 2) (field data 0x11C 2) with
      | error error => simp only [valid, reduceCtorEq, false_and]
      | ok checked => simp only [valid, cut_ok_iff, headerSize, true_and]
    · rw [if_pos signed]
      exact iff_of_false (by simp) fun all => signed (all.1 rfl)
  · have accepts : (headerGeometry .hdi data).Acceptable ↔
        validateGeometry (field data 28 4) (field data 24 4) (field data 20 4)
          (field data 16 4 % 2 ^ 16) = .ok () := by
      rw [validateGeometry_ok_iff, HddGeometry.acceptable_iff, headerGeometry]
    rw [parse, fromHdi, accepts, imageOf, show minimumSize .hdi = hdiHeaderSize from rfl]
    by_cases short : data.length < hdiHeaderSize
    · rw [if_pos short]
      exact iff_of_false (by simp) fun all => absurd all.1 (Nat.not_le_of_lt short)
    rw [if_neg short, and_iff_right (Nat.le_of_not_lt short), and_iff_right (by simp)]
    cases valid : validateGeometry (field data 28 4) (field data 24 4) (field data 20 4)
      (field data 16 4 % 2 ^ 16) with
    | error error => simp only [valid, reduceCtorEq, false_and]
    | ok checked =>
      simp only [valid, cut_ok_iff, headerSize, headerGeometry, HddGeometry.truncate, true_and]
  · have cylinders_lt : field data 0 2 < 2 ^ 16 := field_lt data 0 2
    have truncated : (headerGeometry .thd data).truncate =
        ⟨field data 0 2, thdHeads, thdSectorsPerTrack, thdSectorSize⟩ := by
      rw [HddGeometry.truncate, headerGeometry, HddGeometry.mk.injEq]
      exact ⟨Nat.mod_eq_of_lt cylinders_lt, rfl, rfl, rfl⟩
    have accepts : (headerGeometry .thd data).Acceptable ↔ field data 0 2 ≠ 0 := by
      rw [HddGeometry.acceptable_iff, headerGeometry]
      exact and_iff_left ⟨show thdHeads ≠ 0 by decide, show thdSectorsPerTrack ≠ 0 by decide,
        show (thdSectorSize % 2 ^ 16).isPowerOfTwo by decide⟩
    rw [parse, fromThd, accepts, imageOf, truncated,
      show minimumSize .thd = thdHeaderSize from rfl]
    by_cases short : data.length < thdHeaderSize
    · rw [if_pos short]
      exact iff_of_false (by simp) fun all => absurd all.1 (Nat.not_le_of_lt short)
    rw [if_neg short, and_iff_right (Nat.le_of_not_lt short), and_iff_right (by simp)]
    by_cases none : field data 0 2 = 0
    · simp [none]
    · simp only [none, if_false, cut_ok_iff, headerSize, ne_eq, not_false_eq_true, true_and]

/-! ### Writes -/

/-- A write of one sector, or of `count` sectors of a track. -/
inductive Write
  | sector (lba : ℕ) (sectorData : List UInt8)
  | track (startLba count : ℕ)
  deriving DecidableEq, Repr

namespace HddImage

variable (image : HddImage)

def apply : Write → HddImage
  | .sector lba sectorData => (image.writeSector lba sectorData).2
  | .track startLba count => (image.formatTrack startLba count).2

def run (writes : List Write) : HddImage := writes.foldl apply image

/-- The place of a sector among the bytes of the image. -/
def sectorStart (lba : ℕ) : ℕ := image.headerBytes.length + lba * image.geometry.sectorSize

/-- Where the sector reaches into what the parser reads, it has the bytes that stand there. -/
def Agrees (lba : ℕ) (sectorData : List UInt8) : Prop :=
  ∀ i < sectorData.length, image.sectorStart lba + i < fieldsEnd image.format →
    image.toBytes[image.sectorStart lba + i]? = sectorData[i]?

/-- A write that keeps what the parser reads. -/
def Harmless : Write → Prop
  | .sector lba sectorData =>
    lba < image.geometry.totalSectors → sectorData.length = image.geometry.sectorSize →
      image.Agrees lba sectorData
  | .track startLba count =>
    ∀ k < count, startLba + k < image.geometry.totalSectors →
      image.Agrees (startLba + k) (List.replicate image.geometry.sectorSize 0xE5)

def AllHarmless : HddImage → List Write → Prop
  | _, [] => True
  | image, write :: writes => image.Harmless write ∧ AllHarmless (image.apply write) writes

/-- The sectors fill the data. -/
def Full : Prop := image.data.length = image.geometry.totalBytes

/-- An image that a run of writes made of another one, with what the parser reads as it was. -/
structure Kept (original image : HddImage) : Prop where
  geometry_eq : image.geometry = original.geometry
  format_eq : image.format = original.format
  header_eq : image.headerBytes = original.headerBytes
  full : image.Full
  fields_eq : image.toBytes.take (fieldsEnd original.format) =
    original.toBytes.take (fieldsEnd original.format)

variable {original image : HddImage} {lba : ℕ} {sectorData : List UInt8}

lemma Full.room (full : image.Full) (inside : lba < image.geometry.totalSectors) :
    lba * image.geometry.sectorSize + image.geometry.sectorSize ≤ image.data.length := by
  rw [full, HddGeometry.totalBytes, ← Nat.succ_mul]
  exact Nat.mul_le_mul_right _ inside

lemma toBytes_patch (image : HddImage) (offset : ℕ) (sectorData : List UInt8) :
    { image with data := patched image.data offset sectorData }.toBytes =
      patched image.toBytes (image.headerBytes.length + offset) sectorData :=
  (patched_append image.headerBytes image.data offset sectorData).symm

/-- **What writing a sector does**: with a sector of the right size inside the disk, the bytes of
the sector change and no others. -/
theorem writeSector_eq (full : image.Full) (lba : ℕ) (sectorData : List UInt8) :
    image.writeSector lba sectorData =
      if lba < image.geometry.totalSectors ∧ sectorData.length = image.geometry.sectorSize then
        (true, { image with
          data := patched image.data (lba * image.geometry.sectorSize) sectorData })
      else (false, image) := by
  rw [writeSector]
  by_cases inside : lba < image.geometry.totalSectors
  · rw [if_neg (Nat.not_le_of_lt inside)]
    by_cases right_size : sectorData.length = image.geometry.sectorSize
    · rw [if_neg (not_not_intro right_size), if_neg (Nat.not_lt_of_le (full.room inside)),
        if_pos ⟨inside, right_size⟩]
    · rw [if_pos right_size, if_neg fun both => right_size both.2]
  · rw [if_pos (Nat.le_of_not_lt inside), if_neg fun both => inside both.1]

/-- **A sector with agreeing bytes keeps the image loadable.** -/
theorem Kept.patch (kept : Kept original image) (inside : lba < image.geometry.totalSectors)
    (right_size : sectorData.length = image.geometry.sectorSize)
    (agrees : image.Agrees lba sectorData) :
    Kept original
      { image with data := patched image.data (lba * image.geometry.sectorSize) sectorData } := by
  have room := kept.full.room inside
  have fits : lba * image.geometry.sectorSize + sectorData.length ≤ image.data.length := by
    rwa [right_size]
  refine ⟨kept.geometry_eq, kept.format_eq, kept.header_eq, ?_, ?_⟩
  · exact (length_patched fits).trans kept.full
  · rw [toBytes_patch, ← kept.fields_eq]
    refine take_patched ?_ fun i inside_i low => agrees i inside_i ?_
    · rw [toBytes, List.length_append]
      omega
    · rwa [kept.format_eq]

lemma Kept.agrees {later : HddImage} (kept : Kept original image) (keeps : Kept original later)
    (agrees : image.Agrees lba sectorData) : later.Agrees lba sectorData := by
  intro i inside low
  have start_eq : later.sectorStart lba = image.sectorStart lba := by
    rw [sectorStart, sectorStart, keeps.header_eq, kept.header_eq, keeps.geometry_eq,
      kept.geometry_eq]
  rw [start_eq, keeps.format_eq, ← kept.format_eq] at low
  rw [start_eq, ← agrees i inside low]
  have same := congrArg (fun l => l[image.sectorStart lba + i]?)
    (keeps.fields_eq.trans kept.fields_eq.symm)
  rw [kept.format_eq] at low
  simpa only [List.getElem?_take, if_pos low] using same

lemma Kept.formatTrack (kept : Kept original image) {count : ℕ}
    (agrees : ∀ k < count, lba + k < image.geometry.totalSectors →
      image.Agrees (lba + k) (List.replicate image.geometry.sectorSize 0xE5)) :
    Kept original (image.formatTrack lba count).2 := by
  induction count generalizing image lba with
  | zero => exact kept
  | succ count ih =>
    rw [HddImage.formatTrack]
    by_cases inside : lba < image.geometry.totalSectors
    · rw [if_neg (Nat.not_le_of_lt inside), if_neg (Nat.not_lt_of_le (kept.full.room inside))]
      have next := kept.patch inside List.length_replicate (agrees 0 (Nat.succ_pos _) inside)
      refine ih next fun k k_lt in_range => kept.agrees next ?_
      have at_k := agrees (k + 1) (by omega) (by
        rw [show lba + (k + 1) = lba + 1 + k by omega]
        exact in_range)
      rwa [show lba + (k + 1) = lba + 1 + k by omega] at at_k
    · rw [if_pos (Nat.le_of_not_lt inside)]
      exact kept

/-- **A harmless write keeps what the parser reads.** -/
theorem Kept.apply (kept : Kept original image) {write : Write} (harmless : image.Harmless write) :
    Kept original (image.apply write) := by
  cases write with
  | sector lba sectorData =>
    rw [HddImage.apply, writeSector_eq kept.full]
    split
    · rename_i both
      exact kept.patch both.1 both.2 (harmless both.1 both.2)
    · exact kept
  | track startLba count => exact kept.formatTrack harmless

/-- **So does a run of them.** -/
theorem Kept.run (kept : Kept original image) {writes : List Write}
    (harmless : image.AllHarmless writes) : Kept original (image.run writes) := by
  induction writes generalizing image with
  | nil => exact kept
  | cons write writes ih => exact ih (kept.apply harmless.1) harmless.2

lemma Full.patch (full : image.Full) (inside : lba < image.geometry.totalSectors)
    (right_size : sectorData.length = image.geometry.sectorSize) :
    Full
      { image with data := patched image.data (lba * image.geometry.sectorSize) sectorData } := by
  have room := full.room inside
  exact (length_patched (by rwa [right_size])).trans full

lemma Full.formatTrack (full : image.Full) (lba count : ℕ) :
    (image.formatTrack lba count).2.Full := by
  induction count generalizing image lba with
  | zero => exact full
  | succ count ih =>
    rw [HddImage.formatTrack]
    by_cases inside : lba < image.geometry.totalSectors
    · rw [if_neg (Nat.not_le_of_lt inside), if_neg (Nat.not_lt_of_le (full.room inside))]
      exact ih (full.patch inside List.length_replicate) (lba + 1)
    · rw [if_pos (Nat.le_of_not_lt inside)]
      exact full

lemma Full.run (full : image.Full) (writes : List Write) : (image.run writes).Full := by
  induction writes generalizing image with
  | nil => exact full
  | cons write writes ih =>
    refine ih ?_
    cases write with
    | sector lba sectorData =>
      rw [apply, writeSector_eq full]
      split
      · rename_i both
        exact full.patch both.1 both.2
      · exact full
    | track startLba count => exact full.formatTrack startLba count

end HddImage

/-! ### Loading -/

lemma headerSize_le {format : HddFormat} {image : HddImage}
    (headed : format.HasHeader) (loaded : parse format data = .ok image) :
    headerSize format data + image.geometry.totalBytes ≤ data.length := by
  obtain ⟨-, -, -, fits, rfl⟩ := (parse_ok_iff headed).1 loaded
  exact fits

lemma toBytes_imageOf (format : HddFormat) (data : List UInt8) :
    (imageOf format data).toBytes = data.take
      (headerSize format data + (headerGeometry format data).truncate.totalBytes) := by
  rw [HddImage.toBytes, imageOf, List.take_add]

lemma fieldsEnd_le_minimumSize (format : HddFormat) : fieldsEnd format ≤ minimumSize format := by
  cases format <;> decide

/-- An image is long enough for its format. -/
def LongEnough (image : HddImage) : Prop := minimumSize image.format ≤ image.toBytes.length

instance (image : HddImage) : Decidable (LongEnough image) :=
  inferInstanceAs (Decidable (_ ≤ _))

section Reload

variable {format : HddFormat} {original image : HddImage}

lemma kept_self (headed : format.HasHeader) (loaded : parse format file = .ok original) :
    HddImage.Kept original original := by
  obtain ⟨-, -, -, fits, rfl⟩ := (parse_ok_iff headed).1 loaded
  refine ⟨rfl, rfl, rfl, ?_, rfl⟩
  rw [HddImage.Full, imageOf, List.length_take, List.length_drop]
  dsimp only
  omega

lemma Kept.file_eq (headed : format.HasHeader) (loaded : parse format file = .ok original)
    (long : LongEnough original) (kept : HddImage.Kept original image) :
    image.toBytes.take (fieldsEnd format) = file.take (fieldsEnd format) := by
  obtain ⟨-, -, -, fits, rfl⟩ := (parse_ok_iff headed).1 loaded
  have fields_eq := kept.fields_eq
  have shorter := fieldsEnd_le_minimumSize format
  unfold LongEnough at long
  rw [toBytes_imageOf, List.length_take, Nat.min_eq_left fits] at long
  rw [toBytes_imageOf, List.take_take] at fields_eq
  change image.toBytes.take (fieldsEnd format) = _ at fields_eq
  rw [fields_eq]
  congr 1
  change minimumSize format ≤ _ at long
  exact Nat.min_eq_left (by
    change fieldsEnd format ≤ _
    omega)

/-- **The bytes of an image parse to the image**, as long as they begin like the file. -/
theorem Kept.parse_toBytes (headed : format.HasHeader) (loaded : parse format file = .ok original)
    (long : LongEnough original) (kept : HddImage.Kept original image) :
    parse format image.toBytes = .ok image := by
  have fields_eq := Kept.file_eq headed loaded long kept
  obtain ⟨minimum, signed, acceptable, fits, rfl⟩ := (parse_ok_iff headed).1 loaded
  have geometry_eq := headerGeometry_congr fields_eq
  have size_eq := headerSize_congr fields_eq
  have header_length : image.headerBytes.length = headerSize format file := by
    rw [kept.header_eq, imageOf, List.length_take]
    exact Nat.min_eq_left (by omega)
  have data_length : image.data.length = (headerGeometry format file).truncate.totalBytes := by
    rw [kept.full, kept.geometry_eq]
    rfl
  have length_eq : image.toBytes.length =
      headerSize format file + (headerGeometry format file).truncate.totalBytes := by
    rw [HddImage.toBytes, List.length_append, header_length, data_length]
  rw [parse_ok_iff headed, geometry_eq, size_eq, length_eq]
  refine ⟨?_, fun nhd => ?_, acceptable, le_rfl, ?_⟩
  · unfold LongEnough at long
    rwa [toBytes_imageOf, List.length_take, Nat.min_eq_left fits] at long
  · subst nhd
    have sign := congrArg (List.take 15) fields_eq
    rw [List.take_take, List.take_take] at sign
    exact sign.trans (signed rfl)
  · rw [imageOf, geometry_eq, size_eq]
    obtain ⟨geometry, format', data', header⟩ := image
    have geometry_is := kept.geometry_eq
    have format_is := kept.format_eq
    dsimp only [HddImage.toBytes, imageOf] at geometry_is format_is header_length data_length ⊢
    rw [HddImage.mk.injEq, ← header_length, List.drop_left, List.take_left, ← data_length,
      List.take_length]
    exact ⟨geometry_is, format_is, rfl, rfl⟩

/-- The parser that a file gets, by its extension and whether it begins with the signature. -/
def parserFor (extension : Option String) (signed : Bool) : List UInt8 → Except HddError HddImage :=
  if signed then parse .nhd
  else
    match extension with
    | some "nhd" => parse .nhd
    | some "hdi" => parse .hdi
    | some "thd" => parse .thd
    | some "h0" | some "h1" | some "h2" | some "h3" | some "h4" => parse .raw
    | some "hdd" => parse .atFlat
    | _ => fun _ => .error .unrecognizedFormat

def Signed (data : List UInt8) : Bool := decide (15 ≤ data.length ∧ data.take 15 = nhdSignature)

lemma loadHddImage_eq (extension : Option String) (data : List UInt8) :
    loadHddImage extension data = parserFor extension (Signed data) data := by
  unfold loadHddImage parserFor Signed
  by_cases signed : 15 ≤ data.length ∧ data.take 15 = nhdSignature
  · rw [if_pos signed, if_pos (decide_eq_true signed)]
    rfl
  · rw [if_neg signed, if_neg (by rw [decide_eq_true_eq]; exact signed)]
    split
    case h_10 => simp_all only [imp_false]
    all_goals rfl

lemma fromFlat_format {heads sectorsPerTrack sectorSize maxCylinders : ℕ}
    {sizeField cylindersField : String}
    (loaded : fromFlat format heads sectorsPerTrack sectorSize maxCylinders sizeField
      cylindersField data = .ok image) : image.format = format := by
  unfold fromFlat at loaded
  dsimp only at loaded
  split_ifs at loaded
  cases loaded
  rfl

lemma parse_format (loaded : parse format data = .ok image) : image.format = format := by
  cases format with
  | nhd =>
    obtain ⟨-, -, -, -, rfl⟩ := (parse_ok_iff (.inl rfl)).1 loaded
    rfl
  | hdi =>
    obtain ⟨-, -, -, -, rfl⟩ := (parse_ok_iff (.inr (.inl rfl))).1 loaded
    rfl
  | thd =>
    obtain ⟨-, -, -, -, rfl⟩ := (parse_ok_iff (.inr (.inr rfl))).1 loaded
    rfl
  | raw => exact fromFlat_format loaded
  | atFlat => exact fromFlat_format loaded

lemma parserFor_eq {extension : Option String} {signed : Bool}
    (loaded : parserFor extension signed data = .ok image) :
    parserFor extension signed = parse image.format := by
  unfold parserFor at loaded ⊢
  split_ifs at loaded ⊢
  · rw [parse_format loaded]
  · split at loaded
    · rw [parse_format loaded]
    · rw [parse_format loaded]
    · rw [parse_format loaded]
    · rw [parse_format loaded]
    · rw [parse_format loaded]
    · rw [parse_format loaded]
    · rw [parse_format loaded]
    · rw [parse_format loaded]
    · rw [parse_format loaded]
    · exact absurd loaded (by simp)

lemma load_parse {extension : Option String} (loaded : loadHddImage extension data = .ok image) :
    parse image.format data = .ok image := by
  rw [loadHddImage_eq] at loaded
  rw [← parserFor_eq loaded]
  exact loaded

lemma signed_congr {a b : List UInt8} {n : ℕ} (same : a.take n = b.take n) (n_ge : 15 ≤ n)
    (a_long : n ≤ a.length) (b_long : n ≤ b.length) : Signed a = Signed b := by
  have sign := congrArg (List.take 15) same
  rw [List.take_take, List.take_take, Nat.min_eq_left n_ge] at sign
  rw [Signed, Signed, sign]
  simp only [show 15 ≤ a.length by omega, show 15 ≤ b.length by omega]

/-- **The bytes of an image load to the image**, as long as they begin like the file. -/
theorem Kept.load_toBytes {extension : Option String} (headed : original.format.HasHeader)
    (loaded : loadHddImage extension file = .ok original) (long : LongEnough original)
    (kept : HddImage.Kept original image) :
    loadHddImage extension image.toBytes = .ok image := by
  have parsed := load_parse loaded
  have again := Kept.parse_toBytes headed parsed long kept
  have fields_eq := Kept.file_eq headed parsed long kept
  have enough : 15 ≤ fieldsEnd original.format := by
    obtain nhd | hdi | thd := headed
    · rw [nhd]; decide
    · rw [hdi]; decide
    · rw [thd]; decide
  have shorter := fieldsEnd_le_minimumSize original.format
  have file_long := ((parse_ok_iff headed).1 parsed).1
  have image_long := ((parse_ok_iff headed).1 again).1
  rw [loadHddImage_eq] at loaded ⊢
  rw [signed_congr fields_eq enough (by omega) (by omega), parserFor_eq loaded]
  exact again

end Reload

/-! ### Runs -/

section Runs

variable {extension : Option String} {image : HddImage}

/-- A sector of a loaded image is its part of the file. -/
theorem readSector_file (headed : image.format.HasHeader)
    (loaded : loadHddImage extension file = .ok image) {lba : ℕ}
    (inside : lba < image.geometry.totalSectors) :
    image.readSector lba = some ((file.drop (headerSize image.format file +
      lba * image.geometry.sectorSize)).take image.geometry.sectorSize) := by
  have parsed := load_parse loaded
  have full := (kept_self headed parsed).full
  have room := full.room inside
  obtain ⟨-, -, -, fits, image_eq⟩ := (parse_ok_iff headed).1 parsed
  have data_eq : image.data = (file.drop (headerSize image.format file)).take
      image.geometry.totalBytes := by
    rw [image_eq]
    rfl
  rw [HddImage.readSector, if_neg (Nat.not_le_of_lt inside), if_neg (Nat.not_lt_of_le room)]
  rw [full] at room
  rw [data_eq, List.drop_take, List.take_take, Nat.min_eq_left (by omega), List.drop_drop]

lemma sector_in_file (headed : image.format.HasHeader)
    (loaded : loadHddImage extension file = .ok image) {lba : ℕ}
    (inside : lba < image.geometry.totalSectors) :
    headerSize image.format file + (lba + 1) * image.geometry.sectorSize ≤ file.length := by
  have parsed := load_parse loaded
  have full := (kept_self headed parsed).full
  have room := full.room inside
  have fits := headerSize_le headed parsed
  rw [full] at room
  rw [Nat.add_mul, Nat.one_mul]
  omega

/-- **The geometry of a loaded image is the one of the header if and only if that fits the fields
of an image**; it is then nowhere zero. -/
theorem geometry_iff (headed : image.format.HasHeader)
    (loaded : loadHddImage extension file = .ok image) :
    image.geometry = headerGeometry image.format file ∧ image.geometry.Nonzero ↔
      (headerGeometry image.format file).Fits := by
  obtain ⟨-, -, acceptable, -, image_eq⟩ := (parse_ok_iff headed).1 (load_parse loaded)
  have geometry_eq : image.geometry = (headerGeometry image.format file).truncate := by
    rw [image_eq]
    rfl
  rw [geometry_eq, HddGeometry.truncate_eq_iff]
  refine and_iff_left_of_imp fun fits => ?_
  rw [(HddGeometry.truncate_eq_iff _).2 fits]
  exact acceptable.nonzero fits

/-- A write of a sector changes the bytes of the sector, if it is one of the disk and has its size,
and nothing else. -/
theorem writeSector_toBytes {current : HddImage} (full : current.Full) (lba : ℕ)
    (sectorData : List UInt8) :
    (current.writeSector lba sectorData).2.toBytes =
      if lba < current.geometry.totalSectors ∧ sectorData.length = current.geometry.sectorSize then
        HddImage.patched current.toBytes (current.sectorStart lba) sectorData
      else current.toBytes := by
  rw [HddImage.writeSector_eq full]
  split
  · exact HddImage.toBytes_patch current _ sectorData
  · rfl

/-- What a loaded image is to its file. The geometry is the one of the header if and only if that
fits the fields of an image. The sectors are those of the file. If the image is long enough for its
format, its bytes load to it after any run of writes that keep what the parser reads. After any run
of writes, a write of a sector changes the bytes of that sector only. -/
structure Reloads (extension : Option String) (file : List UInt8) (image : HddImage) : Prop where
  geometry : image.geometry = headerGeometry image.format file ∧ image.geometry.Nonzero ↔
    (headerGeometry image.format file).Fits
  sectors : ∀ lba < image.geometry.totalSectors,
    image.readSector lba = some ((file.drop (headerSize image.format file +
      lba * image.geometry.sectorSize)).take image.geometry.sectorSize) ∧
    headerSize image.format file + (lba + 1) * image.geometry.sectorSize ≤ file.length
  reload : ∀ writes, LongEnough image → image.AllHarmless writes →
    loadHddImage extension (image.run writes).toBytes = .ok (image.run writes) ∧
    (image.run writes).format = image.format ∧ (image.run writes).geometry = image.geometry
  patch : ∀ writes lba sectorData,
    ((image.run writes).writeSector lba sectorData).2.toBytes =
      if lba < (image.run writes).geometry.totalSectors ∧
          sectorData.length = (image.run writes).geometry.sectorSize then
        HddImage.patched (image.run writes).toBytes ((image.run writes).sectorStart lba) sectorData
      else (image.run writes).toBytes

/-- **A loaded image reloads.** -/
theorem loaded_image (headed : image.format.HasHeader)
    (loaded : loadHddImage extension file = .ok image) : Reloads extension file image := by
  have kept := kept_self headed (load_parse loaded)
  refine ⟨geometry_iff headed loaded,
    fun lba inside => ⟨readSector_file headed loaded inside, sector_in_file headed loaded inside⟩,
    fun writes long harmless => ?_,
    fun writes lba sectorData => writeSector_toBytes (kept.full.run writes) lba sectorData⟩
  have still := kept.run harmless
  exact ⟨Kept.load_toBytes headed loaded long still, still.format_eq, still.geometry_eq⟩

/-! ### Small images -/

/-- An HDI file of two sectors of one byte. -/
def smallHdi : List UInt8 :=
  [0, 0, 0, 0, 0, 0, 0, 0, 32, 0, 0, 0, 2, 0, 0, 0, 1, 0, 0, 0, 2, 0, 0, 0, 1, 0, 0, 0, 1, 0, 0, 0,
    0xAA, 0xBB]

/-- The same with 65537 cylinders. -/
def wideHdi : List UInt8 :=
  [0, 0, 0, 0, 0, 0, 0, 0, 32, 0, 0, 0, 2, 0, 0, 0, 1, 0, 0, 0, 2, 0, 0, 0, 1, 0, 0, 0, 1, 0, 1, 0,
    0xAA, 0xBB]

/-- A header of 16 bytes, with the one sector of 16 bytes over the fields of the geometry. -/
def overlappingHdi : List UInt8 :=
  [0, 0, 0, 0, 0, 0, 0, 0, 16, 0, 0, 0, 1, 0, 0, 0, 16, 0, 0, 0, 1, 0, 0, 0, 1, 0, 0, 0, 1, 0, 0, 0]

theorem loaded_image_small : Reloads (some "hdi") smallHdi (imageOf .hdi smallHdi) :=
  loaded_image (.inr (.inl rfl)) (by rfl)

/-- A header with too many cylinders loads to an image with fewer, and a write to a sector over the
header leaves bytes that do not load. -/
theorem loaded_image_ne :
    (∃ image, loadHddImage (some "hdi") wideHdi = .ok image ∧
      image.geometry ≠ headerGeometry .hdi wideHdi) ∧
    ∃ image, loadHddImage (some "hdi") overlappingHdi = .ok image ∧
      image.geometry = headerGeometry .hdi overlappingHdi ∧
      loadHddImage (some "hdi") (image.run [.sector 0 (List.replicate 16 0)]).toBytes =
        .error (.invalidGeometry "cylinders" 0) :=
  ⟨⟨imageOf .hdi wideHdi, by rfl, by decide⟩,
    imageOf .hdi overlappingHdi, by rfl, by decide, by rfl⟩

end Runs

end Neetan.HardDisk
