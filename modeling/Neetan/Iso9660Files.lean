import Neetan.Iso9660
import Mathlib.Algebra.BigOperators.Group.List.Basic

/-!
What chunks of a file read.

The sectors of an extent are full up to the last one, so that a chunk takes its bytes from the
place in the extent that its position names, and chunks behind one another give the file.
-/

namespace Neetan.Iso9660

open ByteReader MachineInt
open Fat (FcbName dotName attrVolumeId attrDirectory)

/-! ### Extents -/

/-- The bytes of `n` sectors. -/
def extent (cdrom : Cdrom) (lba n : ℕ) : List UInt8 :=
  (List.range n).flatMap fun i => (cdrom.sector (lba + i)).getD []

/-- The first `dataLength` bytes of an extent. -/
def fileBytes (cdrom : Cdrom) (entry : IsoDirEntry) : List UInt8 :=
  (extent cdrom entry.startLba.toNat (sectorCount entry.fileSize)).take entry.fileSize.toNat

/-- Every sector of the file can be read, with all the bytes of the file in it. -/
def Covers (cdrom : Cdrom) (entry : IsoDirEntry) : Prop :=
  ∀ i < sectorCount entry.fileSize, ∃ sector,
    cdrom.sector (entry.startLba.toNat + i) = some sector ∧
      min isoSectorSize (entry.fileSize.toNat - isoSectorSize * i) ≤ sector.length

variable {cdrom : Cdrom} {entry : IsoDirEntry}

lemma length_sector_le {lba : ℕ} {sector : List UInt8} (read : cdrom.sector lba = some sector) :
    sector.length ≤ isoSectorSize := by
  obtain ⟨⟨count, buffer⟩, -, rfl⟩ := Option.map_eq_some_iff.1 read
  exact (List.length_take_le _ _).trans (Nat.min_le_right _ _)

lemma extent_add (lba m n : ℕ) :
    extent cdrom lba (m + n) = extent cdrom lba m ++ extent cdrom (lba + m) n := by
  simp only [extent, List.range_add, List.flatMap_append, List.flatMap_map, Nat.add_assoc]

lemma extent_succ (lba n : ℕ) :
    extent cdrom lba (n + 1) =
      (cdrom.sector lba).getD [] ++ extent cdrom (lba + 1) n := by
  rw [Nat.add_comm n, extent_add]
  simp [extent]

lemma readSectors_eq {lba n : ℕ} (read : ∀ i < n, (cdrom.sector (lba + i)).isSome) :
    readSectors cdrom n lba = pure (extent cdrom lba n) := by
  induction n generalizing lba with
  | zero => rfl
  | succ n ih =>
    obtain ⟨sector, first⟩ := Option.isSome_iff_exists.1 (read 0 (Nat.succ_pos n))
    have others : readSectors cdrom n (lba + 1) = pure (extent cdrom (lba + 1) n) :=
        ih fun i less => by
      rw [Nat.add_assoc, Nat.add_comm 1]
      exact read (i + 1) (Nat.succ_lt_succ less)
    rw [Nat.add_zero] at first
    rw [readSectors, first, others, extent_succ, first]
    rfl

lemma readSectors_error {lba n : ℕ} (unread : ∃ i < n, cdrom.sector (lba + i) = none) :
    readSectors cdrom n lba = throw 0x001F := by
  induction n generalizing lba with
  | zero => simp at unread
  | succ n ih =>
    rw [readSectors]
    cases first : cdrom.sector lba with
    | none => rfl
    | some sector =>
      obtain ⟨i, less, none⟩ := unread
      cases i with
      | zero => simp [first] at none
      | succ i =>
        rw [ih ⟨i, by omega, by rwa [Nat.add_assoc, Nat.add_comm 1]⟩]
        rfl

lemma le_length_extent (covers : Covers cdrom entry) {n : ℕ} (le : n ≤ sectorCount entry.fileSize) :
    min (isoSectorSize * n) entry.fileSize.toNat ≤
        (extent cdrom entry.startLba.toNat n).length ∧
      (extent cdrom entry.startLba.toNat n).length ≤ isoSectorSize * n := by
  induction n with
  | zero => simp [extent]
  | succ n ih =>
    obtain ⟨sector, read, many⟩ := covers n le
    obtain ⟨low, high⟩ := ih (Nat.le_of_succ_le le)
    have most := length_sector_le read
    have last : extent cdrom (entry.startLba.toNat + n) 1 = sector := by
      simp [extent, read]
    rw [extent_add, last, List.length_append, Nat.mul_succ]
    omega

lemma take_middle {first middle behind : List UInt8} {offset n : ℕ}
    (room : offset + n ≤ middle.length) :
    ((first ++ (middle ++ behind)).drop (first.length + offset)).take n =
      (middle.drop offset).take n := by
  rw [← List.drop_drop, List.drop_left, List.drop_append_of_le_length (by omega),
    List.take_append_of_le_length]
  rw [List.length_drop]
  omega

lemma take_extent (covers : Covers cdrom entry) {position bytes last : ℕ} (some : 0 < bytes)
    (inside : position + bytes ≤ entry.fileSize.toNat)
    (last_eq : (position + bytes + (isoSectorSize - 1)) / isoSectorSize = last) :
    position / isoSectorSize ≤ last ∧ last ≤ sectorCount entry.fileSize ∧
      position % isoSectorSize + bytes ≤
        (extent cdrom (entry.startLba.toNat + position / isoSectorSize)
          (last - position / isoSectorSize)).length ∧
      ((extent cdrom (entry.startLba.toNat + position / isoSectorSize)
          (last - position / isoSectorSize)).drop (position % isoSectorSize)).take bytes =
        ((extent cdrom entry.startLba.toNat (sectorCount entry.fileSize)).drop position).take
          bytes := by
  unfold isoSectorSize at *
  have le_last : position / 2048 ≤ last := by omega
  have last_le : last ≤ sectorCount entry.fileSize := by
    unfold sectorCount isoSectorSize
    omega
  obtain ⟨low, high⟩ := le_length_extent covers (le_last.trans last_le)
  obtain ⟨enough, -⟩ := le_length_extent covers last_le
  unfold isoSectorSize at low high enough
  have before : (extent cdrom entry.startLba.toNat (position / 2048)).length =
      2048 * (position / 2048) := by omega
  have parts : extent cdrom entry.startLba.toNat last =
      extent cdrom entry.startLba.toNat (position / 2048) ++
        extent cdrom (entry.startLba.toNat + position / 2048)
          (last - position / 2048) := by
    rw [← extent_add, Nat.add_sub_cancel' le_last]
  have room : position % 2048 + bytes ≤
      (extent cdrom (entry.startLba.toNat + position / 2048)
        (last - position / 2048)).length := by
    rw [parts, List.length_append, before] at enough
    omega
  refine ⟨le_last, last_le, room, ?_⟩
  have place : (extent cdrom entry.startLba.toNat (position / 2048)).length + position % 2048 =
      position := by omega
  rw [← Nat.add_sub_cancel' last_le, extent_add, parts, List.append_assoc, ← take_middle room,
    place]

/-- **A chunk takes its bytes from its place in the file.** -/
theorem readFileChunk_eq (covers : Covers cdrom entry)
    (fits : entry.startLba.toNat + sectorCount entry.fileSize < 2 ^ 32) (position : UInt32)
    {maxBytes : ℕ} (small : maxBytes < 2 ^ 32) :
    readFileChunk entry position maxBytes cdrom =
      pure (((fileBytes cdrom entry).drop position.toNat).take maxBytes) := by
  have length : (fileBytes cdrom entry).length ≤ entry.fileSize.toNat := List.length_take_le _ _
  rw [readFileChunk]
  by_cases beyond : entry.fileSize ≤ position ∨ maxBytes = 0
  · rw [if_pos beyond]
    refine congrArg pure ?_
    obtain behind | rfl := beyond
    · rw [List.drop_eq_nil_of_le (length.trans (UInt32.le_iff_toNat_le.1 behind)), List.take_nil]
    · rw [List.take_zero]
  · rw [if_neg beyond, Nat.mod_eq_of_lt small]
    obtain ⟨inside, some⟩ := not_or.1 beyond
    rw [UInt32.not_le, UInt32.lt_iff_toNat_lt] at inside
    generalize bytes_eq : min maxBytes (entry.fileSize.toNat - position.toNat) = bytes
    obtain ⟨last, last_eq⟩ :
        ∃ last, (position.toNat + bytes + (isoSectorSize - 1)) / isoSectorSize = last := ⟨_, rfl⟩
    have some_bytes : 0 < bytes := by omega
    have inside_bytes : position.toNat + bytes ≤ entry.fileSize.toNat := by omega
    obtain ⟨le_last, last_le, room, same⟩ := take_extent covers some_bytes inside_bytes last_eq
    have first_word : checkedAdd 32 entry.startLba.toNat (position.toNat / isoSectorSize) =
        Option.some (entry.startLba.toNat + position.toNat / isoSectorSize) := if_pos (by omega)
    have last_word : checkedAdd 32 entry.startLba.toNat last =
        Option.some (entry.startLba.toNat + last) := if_pos (by omega)
    have read : readSectors cdrom (last - position.toNat / isoSectorSize)
        (entry.startLba.toNat + position.toNat / isoSectorSize) =
        pure (extent cdrom (entry.startLba.toNat + position.toNat / isoSectorSize)
          (last - position.toNat / isoSectorSize)) :=
      readSectors_eq fun i less => by
        obtain ⟨sector, read, -⟩ := covers (position.toNat / isoSectorSize + i) (by omega)
        rw [Nat.add_assoc, read]
        rfl
    rw [fileBytes, List.drop_take, List.take_take, bytes_eq, ← same]
    simp only [last_eq, first_word, last_word, orStop, Option.elim_some, pure_bind,
      Nat.add_sub_add_left, read]
    rw [slice_of_le (Nat.le_add_right _ _) room, Nat.add_sub_cancel_left]

/-- Chunks of these sizes, one behind the other. -/
def readChunks (cdrom : Cdrom) (entry : IsoDirEntry) : UInt32 → List ℕ → IsoM (List UInt8)
  | _, [] => pure []
  | position, size :: sizes => do
    let chunk ← readFileChunk entry position size cdrom
    let others ← readChunks cdrom entry (position + .ofNat chunk.length) sizes
    return chunk ++ others

/-- **Chunks behind one another are one piece of the file.** -/
theorem readChunks_eq (covers : Covers cdrom entry)
    (fits : entry.startLba.toNat + sectorCount entry.fileSize < 2 ^ 32) {sizes : List ℕ}
    (small : ∀ size ∈ sizes, size < 2 ^ 32) {position : UInt32}
    (inside : position ≤ entry.fileSize) :
    readChunks cdrom entry position sizes =
      pure (((fileBytes cdrom entry).drop position.toNat).take sizes.sum) := by
  induction sizes generalizing position with
  | nil => rfl
  | cons size sizes ih =>
    have length : (fileBytes cdrom entry).length ≤ entry.fileSize.toNat := List.length_take_le _ _
    have word := entry.fileSize.toNat_lt
    rw [UInt32.le_iff_toNat_le] at inside
    generalize chunk_eq : ((fileBytes cdrom entry).drop position.toNat).take size = chunk
    have most : position.toNat + chunk.length ≤ entry.fileSize.toNat := by
      rw [← chunk_eq, List.length_take, List.length_drop]
      omega
    have next : (position + UInt32.ofNat chunk.length).toNat = position.toNat + chunk.length := by
      rw [UInt32.toNat_add, UInt32.toNat_ofNat', Nat.add_mod_mod, Nat.mod_eq_of_lt (by omega)]
    have next_inside : position + UInt32.ofNat chunk.length ≤ entry.fileSize := by
      rw [UInt32.le_iff_toNat_le, next]
      exact most
    have others := ih (fun size mem => small size (List.mem_cons_of_mem _ mem)) next_inside
    have behind : (fileBytes cdrom entry).drop (position.toNat + chunk.length) =
        ((fileBytes cdrom entry).drop position.toNat).drop size := by
      rw [← List.drop_drop, ← chunk_eq, List.length_take]
      obtain fits | short := Nat.le_total size ((fileBytes cdrom entry).drop position.toNat).length
      · rw [Nat.min_eq_left fits]
      · rw [Nat.min_eq_right short, List.drop_eq_nil_of_le short, List.drop_length]
    rw [readChunks, readFileChunk_eq covers fits position (small size List.mem_cons_self), chunk_eq,
      pure_bind, others, pure_bind, next, behind, List.sum_cons, List.take_add, chunk_eq]

lemma readFileChunk_error
    (fits : entry.startLba.toNat + sectorCount entry.fileSize < 2 ^ 32) {position : UInt32}
    {maxBytes i : ℕ} (small : maxBytes < 2 ^ 32)
    (first : position.toNat / isoSectorSize ≤ i)
    (last : isoSectorSize * i < min (position.toNat + maxBytes) entry.fileSize.toNat)
    (inside : position < entry.fileSize) (some : 0 < maxBytes)
    (unread : cdrom.sector (entry.startLba.toNat + i) = none) :
    readFileChunk entry position maxBytes cdrom = throw 0x001F := by
  rw [UInt32.lt_iff_toNat_lt] at inside
  rw [readFileChunk, if_neg, Nat.mod_eq_of_lt small]
  · generalize bytes_eq : min maxBytes (entry.fileSize.toNat - position.toNat) = bytes
    obtain ⟨behind, behind_eq⟩ :
        ∃ behind, (position.toNat + bytes + (isoSectorSize - 1)) / isoSectorSize = behind :=
      ⟨_, rfl⟩
    have bounds : i < behind ∧ behind ≤ sectorCount entry.fileSize := by
      unfold sectorCount
      unfold isoSectorSize at *
      omega
    have first_word : checkedAdd 32 entry.startLba.toNat (position.toNat / isoSectorSize) =
        Option.some (entry.startLba.toNat + position.toNat / isoSectorSize) := if_pos (by omega)
    have last_word : checkedAdd 32 entry.startLba.toNat behind =
        Option.some (entry.startLba.toNat + behind) := if_pos (by omega)
    have read : readSectors cdrom (behind - position.toNat / isoSectorSize)
        (entry.startLba.toNat + position.toNat / isoSectorSize) = throw 0x001F :=
      readSectors_error ⟨i - position.toNat / isoSectorSize, by omega, by
        rwa [Nat.add_assoc, Nat.add_sub_cancel' first]⟩
    simp only [behind_eq, first_word, last_word, orStop, Option.elim_some, pure_bind,
      Nat.add_sub_add_left, read]
    rfl
  · rw [UInt32.le_iff_toNat_le]
    omega

/-! ### Discs of one sector -/

/-- A disc whose every sector holds these bytes alone. -/
def discOf (sector : List UInt8) (short : sector.length ≤ isoSectorSize) : Cdrom where
  mediaLoaded := true
  readSectorCooked _ := some (sector.length,
    ⟨(sector ++ List.replicate (isoSectorSize - sector.length) 0).toArray, by simp; omega⟩)

lemma sector_discOf (sector : List UInt8) (short : sector.length ≤ isoSectorSize) (lba : ℕ) :
    (discOf sector short).sector lba = some sector := by
  simp [discOf, Cdrom.sector, short]

/-- A record with an identifier of one byte, for an extent of five bytes. -/
def recordOf (flags identifier : UInt8) : List UInt8 :=
  [34, 0, 0, 0, 0, 0, 0, 0, 0, 0, 5, 0, 0, 0, 0, 0, 0, 5, 0, 0, 0, 0, 0, 0, 0, flags, 0, 0, 1, 0, 0,
    1, 1, identifier]

def recordDisc (flags identifier : UInt8) : Cdrom :=
  discOf (recordOf flags identifier) (show 34 ≤ isoSectorSize by decide)

def discVolume : IsoVolume := ⟨.iso9660, [], ⟨0, 34⟩⟩

def anyName : FcbName := Vector.replicate 11 0x3F

lemma records_recordOf (flags identifier : UInt8) :
    records (recordOf flags identifier) = ([recordOf flags identifier], none) := by
  rw [recordOf, records]
  simp [records]

lemma directoryListing_recordDisc (flags identifier : UInt8) :
    directoryListing discVolume ⟨0, 34⟩ (recordDisc flags identifier) =
      (accepted .iso9660 [recordOf flags identifier], none) := by
  have one : sectorCount (34 : UInt32) = 1 := rfl
  have read (lba : ℕ) : (recordDisc flags identifier).sector lba =
      some (recordOf flags identifier) := sector_discOf _ _ lba
  have loaded : (recordDisc flags identifier).mediaLoaded = true := rfl
  rw [directoryListing, if_pos loaded, one, listing, read]
  simp only [records_recordOf, listing, List.append_nil]
  rfl

/-! ### Directories and files -/

section Right

variable {volume : IsoVolume} {directory : IsoDirectory} {pattern : FcbName} {attrMask : UInt8}
  {sizes : List ℕ}

/-- **What the reader does with a disc.** Searches that resume one another enumerate the entries
that match, up to the first error; chunks behind one another are the file; and a chunk that takes
in a sector which cannot be read is an error. -/
theorem reads_right (ordinary : attrMask ≠ attrVolumeId)
    (numbered : directory.startLba.toNat + sectorCount directory.dataLength ≤ 2 ^ 32)
    (few : (directoryListing volume directory cdrom).1.length < 2 ^ 16)
    (fits : entry.startLba.toNat + sectorCount entry.fileSize < 2 ^ 32)
    (small : ∀ size ∈ sizes, size < 2 ^ 32) :
    Enumerates volume directory pattern attrMask cdrom 0
        ((directoryListing volume directory cdrom).1.filter (wanted pattern attrMask))
        (directoryListing volume directory cdrom).2 ∧
      (Covers cdrom entry →
        readChunks cdrom entry 0 sizes = pure ((fileBytes cdrom entry).take sizes.sum) ∧
          (fileBytes cdrom entry).length = entry.fileSize.toNat) ∧
      ∀ position < entry.fileSize, ∀ size ∈ sizes, 0 < size →
        (∃ i, position.toNat / isoSectorSize ≤ i ∧
          isoSectorSize * i < min (position.toNat + size) entry.fileSize.toNat ∧
          cdrom.sector (entry.startLba.toNat + i) = none) →
        readFileChunk entry position size cdrom = throw 0x001F := by
  refine ⟨enumerates ordinary numbered few, fun covers => ⟨?_, ?_⟩, ?_⟩
  · exact readChunks_eq covers fits small (UInt32.le_iff_toNat_le.2 (Nat.zero_le _))
  · obtain ⟨enough, -⟩ := le_length_extent covers (Nat.le_refl _)
    rw [fileBytes, List.length_take]
    unfold sectorCount isoSectorSize at *
    omega
  · rintro position inside size mem some ⟨i, first, last, unread⟩
    exact readFileChunk_error fits (small size mem) first last inside some unread

end Right

/-- A directory with one file, and the file in two chunks. -/
theorem reads_right_recordDisc :
    Enumerates discVolume ⟨0, 34⟩ anyName attrDirectory (recordDisc 0 0x41) 0
        ((accepted .iso9660 [recordOf 0 0x41]).filter (wanted anyName attrDirectory)) none ∧
      readChunks (recordDisc 0 0x41) ⟨dotName, 0, 0, 0, 0, 5, none⟩ 0 [2, 3] =
        pure [34, 0, 0, 0, 0] := by
  let file : IsoDirEntry := ⟨dotName, 0, 0, 0, 0, 5, none⟩
  have listed := directoryListing_recordDisc 0 0x41
  have one : sectorCount file.fileSize = 1 := by decide
  have read (lba : ℕ) : (recordDisc 0 0x41).sector lba = some (recordOf 0 0x41) :=
    sector_discOf _ _ lba
  have covers : Covers (recordDisc 0 0x41) file := fun i _ => by
    refine ⟨_, read _, (Nat.min_le_right _ _).trans ?_⟩
    exact (Nat.sub_le _ _).trans (show 5 ≤ 34 by decide)
  have few : (directoryListing discVolume ⟨0, 34⟩ (recordDisc 0 0x41)).1.length < 2 ^ 16 := by
    rw [listed]
    exact (List.length_filterMap_le _ _).trans_lt (show 1 < 2 ^ 16 by decide)
  have sizes : ∀ size ∈ [2, 3], size < 2 ^ 32 := by decide
  have right := @reads_right (recordDisc 0 0x41) file discVolume ⟨0, 34⟩ anyName attrDirectory
    [2, 3] (by decide) (by decide) few (by decide) sizes
  rw [listed] at right
  refine ⟨right.1, (right.2.1 covers).1.trans (congrArg pure ?_)⟩
  rw [fileBytes, one, extent]
  simp only [List.range_one, List.flatMap_singleton, read]
  rfl

/-! ### What the reader does not do -/

/-- The record of the directory itself is accepted and matches, and a search does not return it;
a sector that is short of a file stops its chunk. -/
theorem not_every_record :
    (∃ entry, parseDirectoryRecord (recordOf 2 0) .iso9660 = some entry ∧
      wanted anyName attrDirectory entry = true ∧
      findMatching discVolume ⟨0, 34⟩ anyName attrDirectory 0 (recordDisc 2 0) = pure none) ∧
    readFileChunk ⟨anyName, 0, 0, 0, 0, 2048, none⟩ 0 40 (recordDisc 2 0) = stop := by
  refine ⟨⟨_, rfl, by decide, ?_⟩, ?_⟩
  · rw [findMatching_eq (by decide) (by decide), directoryListing_recordDisc]
    rfl
  · have read : readSectors (recordDisc 2 0) 1 0 = pure (recordOf 2 0) := by
      rw [readSectors, show (recordDisc 2 0).sector 0 = some (recordOf 2 0) from
        sector_discOf _ _ _]
      rfl
    have bytes : min (40 % 2 ^ 32) ((2048 : UInt32).toNat - (0 : UInt32).toNat) = 40 := by decide
    have first : checkedAdd 32 (0 : UInt32).toNat ((0 : UInt32).toNat / isoSectorSize) =
        some 0 := by decide
    have last : checkedAdd 32 (0 : UInt32).toNat
        (((0 : UInt32).toNat + 40 + (isoSectorSize - 1)) / isoSectorSize) = some 1 := by decide
    rw [readFileChunk, if_neg (by decide)]
    simp only [bytes, first, last, orStop, Option.elim_some, pure_bind, Nat.sub_zero, read]
    rfl

end Neetan.Iso9660
