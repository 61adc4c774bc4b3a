import Neetan.DiskFormatSectors

/-!
A formatted disk: what its sectors are, and that the volume on it is found and mounted.

Every write gives one sector its content. The sectors of the volume lie one behind the other, so the
last write of each is the one that stays.
-/

namespace Neetan.DiskFormat

open HardDisk HddImage Fallible MachineInt Disk

/-! ### Writes -/

/-- What writes leave of an image: some sectors got a content, the others are as they were. -/
structure Rewritten (image image' : HddImage) (written : ℕ → Option (List UInt8)) : Prop where
  geometry_eq : image'.geometry = image.geometry
  format_eq : image'.format = image.format
  full : image'.Full
  sector : ∀ lba, image'.readSector lba = (written lba).or (image.readSector lba)

/-- The computation succeeds, and leaves that of the image. -/
def Rewrites (run : FormatM Unit) (image : HddImage) (written : ℕ → Option (List UInt8)) : Prop :=
  ∃ image', run image = some (.ok (), image') ∧ Rewritten image image' written

section

variable {image : HddImage} {written written' : ℕ → Option (List UInt8)} {lba k size : ℕ}
  {data : List UInt8} {chunks : List (List UInt8)} {run rest : FormatM Unit}

lemma Rewrites.seq (h : Rewrites run image written)
    (hrest : ∀ image', Rewritten image image' written → Rewrites rest image' written') :
    Rewrites (run >>= fun _ => rest) image fun lba => (written' lba).or (written lba) := by
  obtain ⟨middle, hrun, h⟩ := h
  obtain ⟨image', hlast, h'⟩ := hrest middle h
  exact ⟨image', (bind_of_ok hrun).trans hlast, h'.geometry_eq.trans h.geometry_eq,
    h'.format_eq.trans h.format_eq, h'.full,
    fun lba => by rw [h'.sector, h.sector, Option.or_assoc]⟩

lemma Rewrites.refl (full : image.Full) : Rewrites (pure ()) image fun _ => none :=
  ⟨image, rfl, rfl, rfl, full, fun _ => rfl⟩

lemma orPanic_bind {α β : Type} {o : Option α} {a : α} (h : o = some a) (f : α → FormatM β) :
    (orPanic o >>= f) = f a := by
  rw [h]
  rfl

/-- A sector of a full image is there. -/
lemma readSector_eq (full : image.Full) (hlba : lba < image.geometry.totalSectors) :
    image.readSector lba = some ((image.data.drop (lba * image.geometry.sectorSize)).take
      image.geometry.sectorSize) := by
  rw [readSector, if_neg (Nat.not_le_of_lt hlba), if_neg (Nat.not_lt_of_le (full.room hlba))]

lemma sectors_disjoint {i : ℕ} (hne : k ≠ lba) (hi : i < size) :
    ¬ (lba * size ≤ k * size + i ∧ k * size + i < lba * size + size) := by
  rintro ⟨hlow, hhigh⟩
  obtain hlt | hlt := Nat.lt_or_gt_of_ne hne
  · have := Nat.mul_le_mul_right size hlt
    rw [Nat.succ_mul] at this
    omega
  · have := Nat.mul_le_mul_right size hlt
    rw [Nat.succ_mul] at this
    omega

/-- The contents that a run of writes gives. -/
def runAt (lba : ℕ) (chunks : List (List UInt8)) (k : ℕ) : Option (List UInt8) :=
  if lba ≤ k then chunks[k - lba]? else none

lemma runAt_of_lt (h : k < lba) : runAt lba chunks k = none :=
  if_neg (by omega)

lemma runAt_add (lba : ℕ) (chunks : List (List UInt8)) (i : ℕ) :
    runAt lba chunks (lba + i) = chunks[i]? := by
  unfold runAt
  rw [if_pos (by omega), Nat.add_sub_cancel_left]

lemma runAt_one (lba : ℕ) (data : List UInt8) (k : ℕ) :
    runAt lba [data] k = if k = lba then some data else none := by
  obtain hlt | ⟨i, rfl⟩ := (Nat.lt_or_ge k lba).imp_right Nat.exists_eq_add_of_le
  · rw [runAt_of_lt hlt, if_neg (by omega)]
  · rw [runAt_add]
    cases i with
    | zero => exact (if_pos rfl).symm
    | succ i => exact (if_neg (by omega)).symm

lemma runAt_cons (lba : ℕ) (chunk : List UInt8) (chunks : List (List UInt8)) (k : ℕ) :
    (runAt (lba + 1) chunks k).or (runAt lba [chunk] k) = runAt lba (chunk :: chunks) k := by
  obtain hlt | ⟨i, rfl⟩ := (Nat.lt_or_ge k lba).imp_right Nat.exists_eq_add_of_le
  · rw [runAt_of_lt (by omega), runAt_of_lt hlt, runAt_of_lt hlt]
    rfl
  · rw [runAt_add, runAt_add]
    cases i with
    | zero =>
      rw [runAt_of_lt (by omega)]
      rfl
    | succ i =>
      rw [show lba + (i + 1) = lba + 1 + i by omega, runAt_add, List.getElem?_cons_succ,
        List.getElem?_cons_succ, List.getElem?_nil, Option.or_none]

lemma write_rewrites (full : image.Full) (hlba : lba < image.geometry.totalSectors)
    (hlength : data.length = image.geometry.sectorSize) :
    Rewrites (write lba data) image (runAt lba [data]) := by
  have hroom := full.room hlba
  have hfits : lba * image.geometry.sectorSize + data.length ≤ image.data.length := by omega
  have hfull : ({ image with
      data := patched image.data (lba * image.geometry.sectorSize) data } : HddImage).Full :=
    (length_patched hfits).trans full
  refine ⟨{ image with data := patched image.data (lba * image.geometry.sectorSize) data }, ?_, rfl,
    rfl, hfull, fun k => ?_⟩
  · unfold write
    rw [writeSector_eq full, if_pos ⟨hlba, hlength⟩]
    rfl
  rw [runAt_one]
  by_cases hk : k < image.geometry.totalSectors
  · rw [readSector_eq hfull hk, readSector_eq full hk]
    by_cases heq : k = lba
    · subst heq
      rw [if_pos rfl, Option.some_or]
      refine congrArg some (List.ext_getElem? fun i => ?_)
      dsimp only
      rw [List.getElem?_take, List.getElem?_drop, getElem?_patched hfits, hlength]
      by_cases hi : i < image.geometry.sectorSize
      · rw [if_pos hi, if_pos (by omega), Nat.add_sub_cancel_left]
      · rw [if_neg hi, List.getElem?_eq_none (by omega)]
    · rw [if_neg heq, Option.none_or]
      refine congrArg some (List.ext_getElem? fun i => ?_)
      dsimp only
      rw [List.getElem?_take, List.getElem?_take, List.getElem?_drop, List.getElem?_drop,
        getElem?_patched hfits, hlength]
      by_cases hi : i < image.geometry.sectorSize
      · rw [if_pos hi, if_pos hi, if_neg (sectors_disjoint heq hi)]
      · rw [if_neg hi, if_neg hi]
  · have hne : k ≠ lba := fun heq => hk (heq ▸ hlba)
    rw [if_neg hne, Option.none_or]
    unfold readSector
    rw [if_pos (Nat.le_of_not_lt hk), if_pos (Nat.le_of_not_lt hk)]

lemma writeRun_rewrites (full : image.Full)
    (hlba : lba + chunks.length ≤ image.geometry.totalSectors)
    (hlength : ∀ chunk ∈ chunks, chunk.length = image.geometry.sectorSize) :
    Rewrites (writeRun lba chunks) image (runAt lba chunks) := by
  induction chunks generalizing lba image with
  | nil =>
    refine (funext fun k => ?_ : (fun _ => none) = runAt lba []) ▸ Rewrites.refl full
    unfold runAt
    split_ifs <;> rfl
  | cons chunk chunks ih =>
    rw [List.length_cons] at hlba
    have hinside : lba < image.geometry.totalSectors := by omega
    have hfirst := write_rewrites full hinside (hlength chunk (by simp))
    rw [← funext (runAt_cons lba chunk chunks)]
    exact hfirst.seq fun image' h => ih h.full (by rw [h.geometry_eq]; omega)
      fun other mem => h.geometry_eq ▸ hlength other (by simp [mem])

end

/-! ### Pieces -/

lemma length_chunksExact {size n : ℕ} {bytes : List UInt8} (hsize : 0 < size)
    (h : bytes.length = n * size) : (chunksExact size bytes).length = n := by
  rw [chunksExact, List.length_map, List.length_range, h, Nat.mul_div_cancel _ hsize]

lemma length_of_mem_chunksExact {size n : ℕ} {bytes chunk : List UInt8} (hsize : 0 < size)
    (h : bytes.length = n * size) (mem : chunk ∈ chunksExact size bytes) : chunk.length = size := by
  obtain ⟨i, hi, rfl⟩ := List.mem_map.1 mem
  rw [List.mem_range, h, Nat.mul_div_cancel _ hsize] at hi
  have hmul := Nat.mul_le_mul_right size hi
  rw [Nat.succ_mul] at hmul
  rw [List.length_take, List.length_drop]
  omega

lemma flatten_chunksExact {size n : ℕ} {bytes : List UInt8} (hsize : 0 < size)
    (h : bytes.length = n * size) : (chunksExact size bytes).flatten = bytes := by
  have hfront (k : ℕ) (hk : k ≤ n) :
      ((List.range k).map fun i => (bytes.drop (i * size)).take size).flatten =
        bytes.take (k * size) := by
    induction k with
    | zero => simp
    | succ k ih =>
      rw [List.range_succ, List.map_append, List.flatten_append, ih (by omega), Nat.succ_mul,
        List.take_add]
      simp
  rw [chunksExact, h, Nat.mul_div_cancel _ hsize, hfront n le_rfl, ← h, List.take_length]

/-! ### The Formatted Image -/

def partitionSectors (table : PartitionTableType) (image : HddImage) : ℕ :=
  (formatGeometry table image).totalSectors - partitionOffset table image

/-- The sector with the partition table. -/
def tableLba : PartitionTableType → ℕ
  | .pc98 => 1
  | .pcAt => 0

/-- The partition table of an image. -/
def tableSector (table : PartitionTableType) (image : HddImage) : Option (List UInt8) :=
  let geometry := formatGeometry table image
  match table with
  | .pc98 =>
    if (necGeometry table image).isSome then
      pc98NecPartitionTableSector geometry.sectorSize (geometry.cylinders - 1)
    else
      pc98PartitionTableSector geometry.sectorSize geometry.totalSectors geometry.heads
        geometry.sectorsPerTrack
  | .pcAt =>
    atMasterBootRecord geometry.sectorSize (partitionOffset table image)
      (partitionSectors table image) geometry.heads geometry.sectorsPerTrack

/-- Where the sectors of a volume with FATs of `n` sectors are. -/
structure VolumeAt (sector : ℕ → Option (List UInt8)) (size offset n : ℕ) (boot fat : List UInt8) :
    Prop where
  boot_at : sector offset = some boot
  fat_at : ∀ copy < 2, ∀ i chunk, (chunksExact size fat)[i]? = some chunk →
    sector (offset + 1 + copy * n + i) = some chunk
  root_at : ∀ i < divCeil (512 * 32) size,
    sector (offset + 1 + 2 * n + i) = some (List.replicate size 0)

/-- The least sector that the formatter can build its sectors in. -/
def minimumSectorSize : PartitionTableType → ℕ
  | .pc98 => 64
  | .pcAt => 512

section

variable {table : PartitionTableType} {image : HddImage} {size offset sectors n : ℕ} {wide : Bool}

lemma VolumeAt.mono {sector sector' : ℕ → Option (List UInt8)} {boot fat : List UInt8}
    (h : VolumeAt sector size offset n boot fat)
    (hkeep : ∀ k data, sector k = some data → sector' k = some data) :
    VolumeAt sector' size offset n boot fat where
  boot_at := hkeep _ _ h.boot_at
  fat_at copy hcopy i chunk hchunk := hkeep _ _ (h.fat_at copy hcopy i chunk hchunk)
  root_at i hi := hkeep _ _ (h.root_at i hi)

lemma formatGeometry_sectorSize (table : PartitionTableType) (image : HddImage) :
    (formatGeometry table image).sectorSize = image.geometry.sectorSize := by
  unfold formatGeometry necGeometry
  cases table with
  | pcAt => rfl
  | pc98 =>
    dsimp only
    unfold pc98NecLayoutGeometry
    split_ifs with hide hsasi
    · rw [Bool.and_eq_true] at hide
      have hsize : isIdeSectorSize image.geometry.sectorSize = true := hide.2
      rw [Option.getD_some, biosGeometry, if_pos hsize]
      exact (of_decide_eq_true hsize).symm
    · rfl
    · rfl

lemma tableSector_builds (hsize : minimumSectorSize table ≤ image.geometry.sectorSize)
    (hheads : 0 < (formatGeometry table image).heads)
    (htrack : 0 < (formatGeometry table image).sectorsPerTrack) :
    ∃ sector, tableSector table image = some sector ∧
      sector.length = image.geometry.sectorSize := by
  rw [← formatGeometry_sectorSize table image] at hsize ⊢
  unfold tableSector
  cases table with
  | pc98 =>
    dsimp only
    split_ifs
    · refine build_fits fun field mem => le_trans ?_ hsize
      revert field mem
      simp [minimumSectorSize, pc98PartitionName]
    · unfold pc98PartitionTableSector
      dsimp only
      rw [if_neg (Nat.mul_pos hheads htrack).ne']
      refine build_fits fun field mem => le_trans ?_ hsize
      revert field mem
      simp [minimumSectorSize, pc98PartitionName]
  | pcAt =>
    unfold atMasterBootRecord
    dsimp only
    rw [if_neg (by omega)]
    refine build_fits fun field mem => le_trans ?_ hsize
    revert field mem
    simp [minimumSectorSize, atMbrBootstrap, partitionEntryChs]

/-- The partition table is written in front of sector 2. -/
lemma writeTable_rewrites (full : image.Full)
    (hsize : minimumSectorSize table ≤ image.geometry.sectorSize)
    (hheads : 0 < (formatGeometry table image).heads)
    (htrack : 0 < (formatGeometry table image).sectorsPerTrack)
    (htotal : 1 < image.geometry.totalSectors) :
    ∃ written sector, Rewrites (writeTable table (necGeometry table image)
        (formatGeometry table image) (partitionOffset table image) (partitionSectors table image))
        image written ∧
      (∀ k, 1 < k → written k = none) ∧ tableSector table image = some sector ∧
      written (tableLba table) = some sector := by
  obtain ⟨sector, hsector, hlength⟩ := tableSector_builds hsize hheads htrack
  have hzero : 0 < image.geometry.totalSectors := by omega
  cases table with
  | pc98 =>
    have hipl := write_rewrites full hzero
      ((@List.length_replicate _ _ (0 : UInt8)).trans (formatGeometry_sectorSize .pc98 image))
    have hpart : Rewrites (writeTable .pc98 (necGeometry .pc98 image) (formatGeometry .pc98 image)
        (partitionOffset .pc98 image) (partitionSectors .pc98 image)) image
        fun k => (runAt 1 [sector] k).or (runAt 0 _ k) :=
      hipl.seq fun image' h => (orPanic_bind hsector (write 1)).symm ▸
        write_rewrites h.full (h.geometry_eq ▸ htotal) (h.geometry_eq ▸ hlength)
    refine ⟨_, sector, hpart, fun k hk => ?_, hsector, rfl⟩
    rw [runAt_one, runAt_one, if_neg (by omega), if_neg (by omega)]
    rfl
  | pcAt =>
    refine ⟨runAt 0 [sector], sector, ?_, fun k hk => ?_, hsector, rfl⟩
    · change Rewrites (orPanic (tableSector .pcAt image) >>= write 0) image _
      rw [orPanic_bind hsector]
      exact write_rewrites full hzero hlength
    · rw [runAt_one, if_neg (by omega)]

/-- The sectors of the volume, each at its place. -/
lemma writeVolume_rewrites {geometry : HddGeometry} (full : image.Full)
    (hgeometry : geometry.sectorSize = image.geometry.sectorSize) (hsize : 64 ≤ geometry.sectorSize)
    (hn : 0 < n)
    (hroom : offset + 1 + 2 * n + divCeil (512 * 32) geometry.sectorSize ≤
      image.geometry.totalSectors) :
    ∃ written boot fat, Rewrites (writeVolume (hddParams geometry.sectorSize sectors n wide)
        geometry offset sectors) image written ∧
      (∀ k < offset, written k = none) ∧
      hddBootSector (hddParams geometry.sectorSize sectors n wide) geometry.sectorSize sectors
        geometry.sectorsPerTrack geometry.heads offset = some boot ∧
      fatRegion (hddParams geometry.sectorSize sectors n wide) geometry.sectorSize = some fat ∧
      VolumeAt written geometry.sectorSize offset n boot fat := by
  generalize hbpb : hddParams geometry.sectorSize sectors n wide = bpb
  obtain ⟨hreserved, hfats, hroot, hfatSize⟩ : bpb.reservedSectors = 1 ∧ bpb.numFats = 2 ∧
      bpb.rootEntryCount = 512 ∧ bpb.sectorsPerFat = n := hbpb ▸ ⟨rfl, rfl, rfl, rfl⟩
  obtain ⟨boot, hboot, hbootLength⟩ := @boot_builds bpb _ sectors geometry.sectorsPerTrack
    geometry.heads offset hsize
  have hpos : 0 < geometry.sectorSize := by omega
  obtain ⟨fat, hfat, hfatLength⟩ := @fat_builds bpb geometry.sectorSize (by
    have := Nat.mul_le_mul_right geometry.sectorSize hn
    rw [hfatSize]
    omega)
  rw [hfatSize] at hfatLength
  have hchunks := length_chunksExact hpos hfatLength
  have hchunk : ∀ chunk ∈ chunksExact geometry.sectorSize fat,
      chunk.length = image.geometry.sectorSize := fun chunk mem =>
    (length_of_mem_chunksExact hpos hfatLength mem).trans hgeometry
  have hinside : offset < image.geometry.totalSectors := by omega
  have hrun (lba : ℕ) (image' : HddImage) (full' : image'.Full)
      (hgeometry' : image'.geometry = image.geometry)
      (hlba : lba + n ≤ image.geometry.totalSectors) :
      Rewrites (writeRun lba (chunksExact geometry.sectorSize fat)) image'
        (runAt lba (chunksExact geometry.sectorSize fat)) :=
    writeRun_rewrites full' (by rw [hgeometry', hchunks]; exact hlba)
      fun chunk mem => hgeometry' ▸ hchunk chunk mem
  have hcopies (image' : HddImage) (full' : image'.Full)
      (hgeometry' : image'.geometry = image.geometry) :
      Rewrites (writeFats (offset + 1) n (chunksExact geometry.sectorSize fat) 2 0) image' _ :=
    (hrun (offset + 1 + 0 * n) image' full' hgeometry' (by omega)).seq fun first h =>
      (hrun (offset + 1 + 1 * n) first h.full (h.geometry_eq.trans hgeometry') (by omega)).seq
        fun _ h' => Rewrites.refl h'.full
  have hrootLength : ∀ chunk ∈ List.replicate (divCeil (512 * 32) geometry.sectorSize)
      (List.replicate geometry.sectorSize (0 : UInt8)),
      chunk.length = image.geometry.sectorSize := fun chunk mem => by
    rw [List.eq_of_mem_replicate mem, List.length_replicate, hgeometry]
  -- the boot sector, both copies of the FAT and the root directory, in this order
  have hall := (write_rewrites full hinside (hbootLength.trans hgeometry)).seq fun image₁ h₁ =>
    (hcopies image₁ h₁.full h₁.geometry_eq).seq fun image₂ h₂ =>
      @writeRun_rewrites image₂ (offset + 1 + 2 * n) _ h₂.full
        (by rw [h₂.geometry_eq, h₁.geometry_eq, List.length_replicate]; exact hroom)
        (fun chunk mem => h₂.geometry_eq ▸ h₁.geometry_eq ▸ hrootLength chunk mem)
  have hvolume : writeVolume bpb geometry offset sectors = (do
      write offset boot
      writeFats (offset + 1) n (chunksExact geometry.sectorSize fat) 2 0
      writeRun (offset + 1 + 2 * n) (List.replicate (divCeil (512 * 32) geometry.sectorSize)
        (List.replicate geometry.sectorSize 0))) := by
    unfold writeVolume
    rw [orPanic_bind hboot, orPanic_bind hfat, hreserved, hfats, hroot, hfatSize]
  rw [← hvolume] at hall
  refine ⟨_, boot, fat, hall, fun k hk => ?_, hboot, hfat, ?_, fun copy hcopy i chunk hi => ?_,
    fun i hi => ?_⟩
  · rw [runAt_of_lt (by omega), runAt_of_lt (by omega), runAt_of_lt (by omega),
      runAt_of_lt (by omega)]
    rfl
  · rw [runAt_of_lt (by omega), runAt_of_lt (by omega), runAt_of_lt (by omega), runAt_one,
      if_pos rfl]
    rfl
  · have hin : i < n := hchunks ▸ (List.getElem?_eq_some_iff.1 hi).1
    obtain rfl | rfl : copy = 0 ∨ copy = 1 := by omega
    · rw [runAt_of_lt (by omega), runAt_of_lt (by omega), runAt_add, hi]
      rfl
    · rw [runAt_of_lt (by omega), runAt_add, hi]
      rfl
  · rw [runAt_add, List.getElem?_replicate, if_pos hi]
    rfl

end

/-- The sectors of a formatted image. -/
structure Formatted (table : PartitionTableType) (image image' : HddImage) (n : ℕ)
    (sector boot fat : List UInt8) : Prop where
  geometry_eq : image'.geometry = image.geometry
  format_eq : image'.format = image.format
  full : image'.Full
  table_at : image'.readSector (tableLba table) = some sector
  volume : VolumeAt image'.readSector image.geometry.sectorSize (partitionOffset table image) n
    boot fat

section

variable {table : PartitionTableType} {image image' : HddImage} {n : ℕ}
  {sector boot fat : List UInt8}

lemma biosGeometry_totalSectors_le (geometry : HddGeometry) :
    (biosGeometry geometry).totalSectors ≤ geometry.totalSectors := by
  unfold biosGeometry
  split_ifs
  · refine le_trans ?_ (Nat.div_mul_le_self geometry.totalSectors (8 * 17))
    change min _ _ * 8 * 17 ≤ _
    rw [Nat.mul_assoc]
    exact Nat.mul_le_mul_right _ (Nat.min_le_left _ _)
  · exact le_rfl

lemma formatGeometry_pc98 (image : HddImage) :
    formatGeometry .pc98 image = hddChsGeometry image := by
  have hsame (hsize : isIdeSectorSize image.geometry.sectorSize ≠ true) :
      hddChsGeometry image = image.geometry := by
    unfold hddChsGeometry biosGeometry
    split_ifs
    · rfl
    · rfl
  unfold formatGeometry
  change (pc98NecLayoutGeometry image).getD _ = _
  unfold pc98NecLayoutGeometry
  split_ifs with hide hsasi
  · rw [Bool.and_eq_true] at hide
    exact (if_pos hide.1).symm
  · refine (hsame fun hsize => ?_).symm
    have h256 : image.geometry.sectorSize = 256 := of_decide_eq_true hsasi
    have h512 : image.geometry.sectorSize = 512 := of_decide_eq_true hsize
    omega
  · by_cases hsize : isIdeSectorSize image.geometry.sectorSize = true
    · rw [hsize, Bool.and_true] at hide
      exact (if_neg hide).symm
    · exact (hsame hsize).symm

lemma formatGeometry_totalSectors_le (table : PartitionTableType) (image : HddImage) :
    (formatGeometry table image).totalSectors ≤ image.geometry.totalSectors := by
  cases table with
  | pcAt => exact le_rfl
  | pc98 =>
    rw [formatGeometry_pc98]
    unfold hddChsGeometry
    split_ifs
    · exact biosGeometry_totalSectors_le _
    · exact le_rfl

lemma formatGeometry_pos (hgeometry : image.geometry.Nonzero) (table : PartitionTableType) :
    0 < (formatGeometry table image).heads ∧ 0 < (formatGeometry table image).sectorsPerTrack := by
  have himage : 0 < image.geometry.heads ∧ 0 < image.geometry.sectorsPerTrack :=
    ⟨Nat.pos_of_ne_zero hgeometry.heads_ne, Nat.pos_of_ne_zero hgeometry.sectorsPerTrack_ne⟩
  cases table with
  | pcAt => exact himage
  | pc98 =>
    rw [formatGeometry_pc98]
    unfold hddChsGeometry biosGeometry
    split_ifs
    · exact ⟨show 0 < 8 by decide, show 0 < 17 by decide⟩
    · exact himage
    · exact himage

lemma systemSectors_lt {layout : FatLayout} {n : ℕ} (h : 0 < layout.clusterCount n) :
    layout.systemSectors n < layout.partitionSectors := by
  by_contra hle
  rw [FatLayout.clusterCount, Nat.sub_eq_zero_of_le (Nat.le_of_not_lt hle), Nat.zero_div] at h
  exact absurd h (Nat.lt_irrefl 0)

lemma format_succeeds {fuel size sectors : ℕ} {wide : Bool} (full : image.Full)
    (hgeometry : image.geometry.Nonzero) (hsectorSize : image.geometry.sectorSize = size)
    (hsectors : partitionSectors table image = sectors) (hsize : minimumSectorSize table ≤ size)
    (hplace : 1 < partitionOffset table image)
    (hbpb : hddBpbParams fuel size sectors = some (hddParams size sectors n wide)) (hn : 0 < n)
    (hroom : 0 < (hddLayout size sectors wide).clusterCount n) :
    ∃ image' sector boot fat, formatHddImage fuel table image = some (.ok (), image') ∧
      tableSector table image = some sector ∧
      hddBootSector (hddParams size sectors n wide) size sectors
        (formatGeometry table image).sectorsPerTrack (formatGeometry table image).heads
        (partitionOffset table image) = some boot ∧
      fatRegion (hddParams size sectors n wide) size = some fat ∧
      Formatted table image image' n sector boot fat := by
  obtain ⟨hheads, htrack⟩ := formatGeometry_pos hgeometry table
  have hlarger := formatGeometry_totalSectors_le table image
  have hformat : (formatGeometry table image).sectorSize = size :=
    (formatGeometry_sectorSize table image).trans hsectorSize
  have hsystem : 1 + 2 * n + divCeil (512 * 32) size < sectors := systemSectors_lt hroom
  have htotal : (formatGeometry table image).totalSectors - partitionOffset table image = sectors :=
    hsectors
  have hlarge : 64 ≤ (formatGeometry table image).sectorSize := by
    refine hformat ▸ le_trans ?_ hsize
    cases table <;> decide
  have hone : 1 < image.geometry.totalSectors := by omega
  obtain ⟨written, sector, ⟨middle, htable, hrewrite⟩, hfront, hsector, htableAt⟩ :=
    writeTable_rewrites full (hsectorSize.symm ▸ hsize) hheads htrack hone
  obtain ⟨written', boot, fat, ⟨image', hvolume, hrewrite'⟩, hbehind, hboot, hfat, hat⟩ :=
    @writeVolume_rewrites middle (partitionOffset table image) sectors n wide
      (formatGeometry table image) hrewrite.full
      (by rw [hformat, hrewrite.geometry_eq, hsectorSize]) hlarge hn
      (by rw [hformat, hrewrite.geometry_eq]; omega)
  rw [hformat] at hboot hfat hat hvolume
  rw [hsectors] at htable
  refine ⟨image', sector, boot, fat, ?_, hsector, hboot, hfat,
    hrewrite'.geometry_eq.trans hrewrite.geometry_eq,
    hrewrite'.format_eq.trans hrewrite.format_eq, hrewrite'.full, ?_, ?_⟩
  · have hsolved : orPanic (hddBpbParams fuel (formatGeometry table image).sectorSize sectors)
        image = some (.ok (hddParams size sectors n wide), image) := by
      rw [hformat, hbpb]
      rfl
    unfold formatHddImage
    rw [bind_of_ok (rfl : reads id image = some (.ok image, image))]
    dsimp only [id]
    rw [if_neg (by omega), htotal]
    exact (bind_of_ok hsolved).trans ((bind_of_ok htable).trans hvolume)
  · have hlow : tableLba table < partitionOffset table image := by
      cases table
      · exact hplace
      · exact Nat.lt_of_succ_lt hplace
    rw [hrewrite'.sector, hbehind _ hlow, hrewrite.sector, htableAt]
    rfl
  · rw [hsectorSize]
    exact hat.mono fun k data hdata => by rw [hrewrite'.sector, hdata]; rfl

end

end Neetan.DiskFormat
