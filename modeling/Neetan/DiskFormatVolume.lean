import Neetan.DiskFormatMount

/-!
The volume of a formatted disk is mounted as it was laid out.

The boot sector is read as the block that was written, so the layout of the mounted volume is the
one that the loop solved for. Its FAT has an entry for every cluster. Whether these are free depends
on whether the reader, which counts the clusters, takes the entries to be as wide as they are.
-/

namespace Neetan.DiskFormat

open HardDisk HddImage Fallible MachineInt Disk

/-! ### Finding the Partition -/

section

variable {table : PartitionTableType} {image image' : HddImage} {n lba da : ℕ}
  {sector boot fat : List UInt8}

lemma sectorsFrom_eq {chunks : List (List UInt8)} (hlba : lba + chunks.length ≤ 2 ^ 32)
    (h : ∀ i < chunks.length, image.readSector (lba + i) = chunks[i]?) :
    sectorsFrom image lba chunks.length = some chunks.flatten := by
  have hfront (n : ℕ) (hn : n ≤ chunks.length) :
      sectorsFrom image lba n = some (chunks.take n).flatten := by
    induction n with
    | zero => rfl
    | succ n ih =>
      rw [sectorsFrom, ih (by omega), wrappingAdd_of_lt (by omega), h n hn,
        List.getElem?_eq_getElem hn, List.take_add_one, List.getElem?_eq_getElem hn,
        List.flatten_append]
      simp
  rw [hfront _ le_rfl, List.take_length]

/-- What is read from a sector on begins with the sector. -/
lemma sectorsFrom_begins (full : image.Full) {count : ℕ}
    (hroom : lba + count < image.geometry.totalSectors) (hlba : lba + count < 2 ^ 32)
    (h : image.readSector lba = some sector) :
    ∃ rest, sectorsFrom image lba (count + 1) = some (sector ++ rest) := by
  induction count with
  | zero =>
    refine ⟨[], ?_⟩
    rw [sectorsFrom, sectorsFrom, wrappingAdd_of_lt hlba, Nat.add_zero, h]
    exact congrArg some (List.append_nil sector).symm
  | succ count ih =>
    obtain ⟨rest, hrest⟩ := ih (by omega) (by omega)
    rw [sectorsFrom, hrest, wrappingAdd_of_lt hlba, readSector_eq full hroom]
    exact ⟨_, congrArg some (List.append_assoc sector rest _)⟩

lemma readSectors_eq {count : ℕ} {bytes : List UInt8}
    (h : sectorsFrom image lba count = some bytes) :
    Fat.readSectors da lba count (⟨image, da⟩ : FileImageDiskIo) =
      some (.ok bytes, ⟨image, da⟩) := by
  have hread : DiskIo.readSectors (⟨image, da⟩ : FileImageDiskIo) da lba count =
      (.ok bytes, ⟨image, da⟩) := by
    change (if da ≠ da then _ else _, _) = _
    rw [if_neg (not_not_intro rfl), h]
  unfold Fat.readSectors
  rw [hread]
  rfl

lemma readSectors_one {sector : List UInt8} (hlba : lba < 2 ^ 32)
    (h : image.readSector lba = some sector) :
    Fat.readSectors da lba 1 (⟨image, da⟩ : FileImageDiskIo) =
      some (.ok sector, ⟨image, da⟩) := by
  have hone := @sectorsFrom_eq image lba [sector] hlba fun i hi => by
    obtain rfl : i = 0 := by simpa using hi
    exact h
  exact readSectors_eq (hone.trans (by simp))

lemma totalSectors_lt (hfits : image.geometry.Fits) : image.geometry.totalSectors < 2 ^ 32 := by
  have hcylinders : image.geometry.cylinders ≤ 65535 := Nat.le_of_lt_succ hfits.cylinders_lt
  have hheads : image.geometry.heads ≤ 255 := Nat.le_of_lt_succ hfits.heads_lt
  have htrack : image.geometry.sectorsPerTrack ≤ 255 := Nat.le_of_lt_succ hfits.sectorsPerTrack_lt
  have hmul := Nat.mul_le_mul (Nat.mul_le_mul hcylinders hheads) htrack
  unfold HddGeometry.totalSectors
  omega

/-- The scheme under which a table is read. -/
def schemeOf : PartitionTableType → PartitionScheme
  | .pc98 => .pc98
  | .pcAt => .masterBootRecord

/-- The partition is found where it was made. -/
lemma Formatted.volumeStart (h : Formatted table image image' n sector boot fat)
    (hsector : tableSector table image = some sector)
    (hoffset : partitionOffset table image < 2 ^ 32) :
    (schemeOf table).volumeStart da (⟨image', da⟩ : FileImageDiskIo) =
      some (.ok (partitionOffset table image), ⟨image', da⟩) := by
  cases table with
  | pcAt =>
    obtain ⟨hlength, hlow, hhigh, entries, hentries⟩ := mbr_some hoffset hsector
    unfold schemeOf PartitionScheme.volumeStart findMbrPartitionOffset
    refine (bind_of_ok (readSectors_one (by decide) h.table_at)).trans ?_
    have hvalid :
        ¬ (sector.length < 512 ∨ byteAt sector 510 ≠ 0x55 ∨ byteAt sector 511 ≠ 0xAA) := by
      rw [hlow, hhigh]
      simpa using hlength
    have hfat (start : ℕ) : isFatPartition ⟨0x80, 0x06, start⟩ = true :=
      show decide ((0x06 : UInt8) ∈ [0x01, 0x04, 0x06, 0x0E]) = true by decide
    rw [if_neg hvalid, hentries]
    dsimp only
    rw [List.isEmpty_cons, if_neg (by decide), List.filter_cons_of_pos (hfat _),
      List.find?_cons_of_pos (by dsimp only; decide), Option.some_or]
    rfl
  | pc98 =>
    have hgeometry : hddChsGeometry image' = formatGeometry .pc98 image := by
      rw [formatGeometry_pc98, hddChsGeometry, hddChsGeometry, h.geometry_eq, h.format_eq]
    have hdrive : DiskIo.driveGeometry (⟨image', da⟩ : FileImageDiskIo) da =
        some ((formatGeometry .pc98 image).cylinders, (formatGeometry .pc98 image).heads,
          (formatGeometry .pc98 image).sectorsPerTrack) := by
      rw [← hgeometry]
      exact if_neg (not_not_intro rfl)
    unfold schemeOf PartitionScheme.volumeStart findPartitionOffset
    refine (bind_of_ok (readSectors_one (by decide) h.table_at)).trans ?_
    refine (bind_of_ok (rfl : reads _ _ = some (.ok _, _))).trans ?_
    rw [hdrive]
    refine (bind_of_ok (rfl : okOr _ (some _) _ = some (.ok _, _))).trans ?_
    dsimp only
    unfold tableSector at hsector
    dsimp only at hsector
    split_ifs at hsector with hnec
    · rw [find_nec hsector]
      have hwhere : partitionOffset .pc98 image = pc98NecPartitionStartCylinder *
          (formatGeometry .pc98 image).heads * (formatGeometry .pc98 image).sectorsPerTrack :=
        if_pos hnec
      rw [hwhere]
      rfl
    · rw [find_pc98 hsector]
      have hwhere : partitionOffset .pc98 image = (formatGeometry .pc98 image).sectorsPerTrack :=
        if_neg hnec
      rw [hwhere]
      refine congrArg (fun n => some (Except.ok n, _)) ?_
      dsimp only [chsToLba]
      omega

/-- The boot record as it is read: the boot sector, and what stands behind it. -/
lemma readBootRecord_begins {offset size : ℕ} (full : image.Full) (hsize : 0 < size)
    (hroom : offset + divCeil 512 size ≤ image.geometry.totalSectors)
    (htotal : image.geometry.totalSectors < 2 ^ 32) (h : image.readSector offset = some boot) :
    ∃ rest, Fat.readBootRecord da offset size (⟨image, da⟩ : FileImageDiskIo) =
      some (.ok (some (boot ++ rest)), ⟨image, da⟩) := by
  obtain ⟨count, hcount⟩ := Nat.exists_eq_add_of_le' (@divCeil_pos 512 size (by decide) hsize)
  obtain ⟨rest, hrest⟩ := @sectorsFrom_begins image offset boot full count (by omega) (by omega) h
  have hattempt : attempt (Fat.readSectors da offset (count + 1)) (⟨image, da⟩ : FileImageDiskIo) =
      some (.ok (.ok (boot ++ rest)), ⟨image, da⟩) := by
    unfold attempt
    rw [readSectors_eq hrest]
    rfl
  refine ⟨rest, ?_⟩
  unfold Fat.readBootRecord
  rw [if_neg (by omega), show (Fat.bootRecordMinimumLength + size - 1) / size = count + 1 from
    hcount]
  exact (bind_of_ok hattempt).trans rfl

/-- The volume with a block and a FAT. -/
def mountedVolume (da offset : ℕ) (block : Fat.Bpb) (human68k : Bool) (fat : List UInt8) :
    Fat.FatVolume where
  deviceId := da
  partitionOffset := offset
  bpb := block
  firstRootSector := block.firstRootSector
  firstDataSector := block.firstDataSector
  dataClusterCount := block.dataClusterCount
  isFat16 := block.isFat16
  fatCache := fat
  fatDirty := false
  sectorRatio := 1
  human68k

lemma mount_of_block {offset size : ℕ} {record : List UInt8} {block : Fat.Bpb}
    {geometry : Fat.DriveGeometry}
    (hsource : geometry.bpbSource = .bootRecord ∨ geometry.bpbSource = .bootRecordOrDefault)
    (hsize : image.geometry.sectorSize = size)
    (hrecord : Fat.readBootRecord da offset size (⟨image, da⟩ : FileImageDiskIo) =
      some (.ok (some record), ⟨image, da⟩))
    (hblock : Fat.bootRecordBpb record size = some block) (hcluster : 0 < block.sectorsPerCluster)
    (hratio : block.bytesPerSector / size = 1) (hreserved : block.reservedSectors = 1)
    (hoffset : offset + 1 < 2 ^ 32)
    (hfat : Fat.readSectors da (offset + 1) block.sectorsPerFat (⟨image, da⟩ : FileImageDiskIo) =
      some (.ok fat, ⟨image, da⟩)) :
    ∃ human68k, Fat.mount da offset geometry (⟨image, da⟩ : FileImageDiskIo) =
      some (.ok (mountedVolume da offset block human68k fat), ⟨image, da⟩) := by
  have hsizeOf : DiskIo.sectorSize (⟨image, da⟩ : FileImageDiskIo) da = some size :=
    (if_neg (not_not_intro rfl)).trans (congrArg some hsize)
  have hmountBpb : (Fat.mountBpb da offset size geometry (some record) :
      Fat.DiskM FileImageDiskIo _) ⟨image, da⟩ = some (.ok block, ⟨image, da⟩) := by
    unfold Fat.mountBpb
    rcases hsource with hsource | hsource
    · rw [hsource]
      refine (bind_of_ok (rfl : okOr _ (some _) _ = some (.ok _, _))).trans ?_
      rw [hblock]
      rfl
    · rw [hsource]
      refine (bind_of_ok (rfl : okOr _ (some _) _ = some (.ok _, _))).trans ?_
      rw [hblock]
      rfl
  refine ⟨Fat.isHuman68kBootSector record, ?_⟩
  unfold Fat.mount
  refine (bind_of_ok (rfl : reads _ _ = some (.ok _, _))).trans ?_
  rw [hsizeOf]
  refine (bind_of_ok (rfl : okOr _ (some _) _ = some (.ok _, _))).trans ?_
  refine (bind_of_ok hrecord).trans ((bind_of_ok hmountBpb).trans ?_)
  unfold Fat.mountVolume
  rw [if_neg hcluster.ne', hratio, Nat.mul_one, Nat.mul_one, hreserved, wrappingAdd_of_lt hoffset]
  exact (bind_of_ok hfat).trans rfl

end

/-! ### The Block -/

section

variable {size sectors sectorsPerFat : ℕ} {isFat16 : Bool}

lemma sectorsPerClusterFor_mem (size sectors : ℕ) :
    sectorsPerClusterFor size sectors ∈ [4, 8, 16, 32, 64] := by
  unfold sectorsPerClusterFor
  dsimp only
  split_ifs <;> decide

lemma sectorsPerClusterFor_bounds (size sectors : ℕ) :
    0 < sectorsPerClusterFor size sectors ∧ sectorsPerClusterFor size sectors < 2 ^ 8 ∧
      (sectorsPerClusterFor size sectors).isPowerOfTwo := by
  have hall : ∀ n ∈ [4, 8, 16, 32, 64], 0 < n ∧ n < 2 ^ 8 ∧ n.isPowerOfTwo := by decide
  exact hall _ (sectorsPerClusterFor_mem size sectors)

lemma hddParams_fits (hsize : size < 2 ^ 16) (hfat : sectorsPerFat < 2 ^ 16) :
    (hddParams size sectors sectorsPerFat isFat16).Fits where
  bytesPerSector_lt := hsize
  sectorsPerCluster_lt := (sectorsPerClusterFor_bounds size sectors).2.1
  reservedSectors_lt := show 1 < 2 ^ 16 by decide
  numFats_lt := show 2 < 2 ^ 8 by decide
  rootEntryCount_lt := show 512 < 2 ^ 16 by decide
  sectorsPerFat_lt := hfat

lemma bootBlock_totalSectors {bpb : BpbParams} (hsectors : 0 < sectors) :
    (bootBlock bpb sectors).totalSectors = sectors := by
  unfold Fat.Bpb.totalSectors bootBlock
  dsimp only
  by_cases hsmall : sectors ≤ 0xFFFF
  · rw [if_pos hsmall, if_pos hsectors.ne']
  · rw [if_neg hsmall, if_neg (not_not_intro rfl), if_neg hsmall]

/-- The block gives the layout that was solved for. -/
lemma bootBlock_layout (hsectors : 0 < sectors) :
    let block := bootBlock (hddParams size sectors sectorsPerFat isFat16) sectors
    let layout := hddLayout size sectors isFat16
    block.firstDataSector = layout.systemSectors sectorsPerFat ∧
      block.dataClusterCount = layout.clusterCount sectorsPerFat := by
  intro block layout
  have hfirst : block.firstDataSector = layout.systemSectors sectorsPerFat := rfl
  refine ⟨hfirst, ?_⟩
  unfold Fat.Bpb.dataClusterCount
  rw [bootBlock_totalSectors hsectors, hfirst]
  rfl

lemma withValidSizes_bootBlock (hpower : size.isPowerOfTwo) :
    (bootBlock (hddParams size sectors sectorsPerFat isFat16) sectors).withValidSizes =
      some (bootBlock (hddParams size sectors sectorsPerFat isFat16) sectors) := by
  exact if_pos ⟨hpower, (sectorsPerClusterFor_bounds size sectors).2.2⟩

lemma supported_bootBlock (hsize : 0 < size) (hfat : 0 < sectorsPerFat)
    (hroom : 0 < (hddLayout size sectors isFat16).clusterCount sectorsPerFat) :
    (bootBlock (hddParams size sectors sectorsPerFat isFat16)
      sectors).isSupportedWithPhysicalSectorSize size = true := by
  have hdata : (hddLayout size sectors isFat16).systemSectors sectorsPerFat < sectors :=
    systemSectors_lt hroom
  have hsectors : 0 < sectors := by omega
  unfold Fat.Bpb.isSupportedWithPhysicalSectorSize
  have hphysical : ¬ (decide (size = 0) ||
      decide ((bootBlock (hddParams size sectors sectorsPerFat isFat16) sectors).bytesPerSector <
        size) ||
      decide ((bootBlock (hddParams size sectors sectorsPerFat isFat16) sectors).bytesPerSector %
        size ≠ 0)) = true := by
    rw [show (bootBlock (hddParams size sectors sectorsPerFat isFat16) sectors).bytesPerSector =
      size from rfl]
    simp [hsize.ne']
  rw [if_neg hphysical, bootBlock_totalSectors hsectors, (bootBlock_layout hsectors).1]
  simp only [bootBlock, hddParams]
  simp [hfat.ne', hsectors.ne', hdata]

end

/-! ### The Volume -/

/-- The bytes of the FAT up to the end of an entry. -/
def entryEnd (isFat16 : Bool) (cluster : ℕ) : ℕ :=
  if isFat16 then cluster * 2 + 2 else cluster * 3 / 2 + 2

/-- The FAT of a layout has an entry for each of its clusters. -/
lemma entryEnd_le {clusters cluster : ℕ} (isFat16 : Bool) (h : cluster < clusters + 2) :
    entryEnd isFat16 cluster ≤ fatBytes clusters isFat16 := by
  cases isFat16
  · have hup := @le_divCeil_mul ((clusters + 2) * 3) 2 (by omega)
    change cluster * 3 / 2 + 2 ≤ divCeil _ 2
    omega
  · change cluster * 2 + 2 ≤ (clusters + 2) * 2
    omega

/-- A volume as it was laid out. -/
structure LaidOut (layout : FatLayout) (bpb : BpbParams) (vol : Fat.FatVolume) : Prop where
  block : vol.bpb = bootBlock bpb layout.partitionSectors
  clusters : vol.dataClusterCount = layout.clusterCount bpb.sectorsPerFat
  width : vol.isFat16 = decide (4085 ≤ vol.dataClusterCount)
  /-- Every cluster has its entry. -/
  described : ∀ cluster, vol.isDataCluster cluster = true →
    entryEnd bpb.isFat16 cluster ≤ vol.fatCache.length
  /-- No cluster reaches behind the partition. -/
  inside : vol.firstDataSector + vol.dataClusterCount * layout.sectorsPerCluster ≤
    layout.partitionSectors
  /-- The volume is empty if and only if its entries are as wide as the reader takes them to be. -/
  empty_iff : (∀ cluster, vol.isDataCluster cluster = true → vol.readFatEntry cluster = 0) ↔
    vol.isFat16 = bpb.isFat16

/-! ### The Entries -/

section

variable {vol : Fat.FatVolume} {size cluster : ℕ} {bpb : BpbParams} {fat : List UInt8}

/-- Entries of the width that the FAT was written with are free. -/
lemma readFatEntry_free (hfat : fatRegion bpb size = some vol.fatCache)
    (hwidth : vol.isFat16 = bpb.isFat16) (hcluster : 2 ≤ cluster)
    (hend : entryEnd bpb.isFat16 cluster ≤ vol.fatCache.length) : vol.readFatEntry cluster = 0 := by
  obtain ⟨-, hzero, hthree⟩ := fat_some hfat
  unfold Fat.FatVolume.readFatEntry
  unfold entryEnd at hend
  cases hwide : bpb.isFat16 with
  | true =>
    rw [hwide] at hwidth
    rw [hwide, if_pos rfl] at hend
    rw [if_pos hwidth]
    dsimp only
    rw [if_neg (by omega), pairAt_eq, hzero _ (by omega), hzero _ (by omega)]
    rfl
  | false =>
    rw [hwide] at hwidth hthree
    rw [hwide, if_neg Bool.false_ne_true] at hend
    have hbyte (i : ℕ) (hi : 3 ≤ i) : byteAt vol.fatCache i = 0 := by
      obtain rfl | hlt := Nat.eq_or_lt_of_le hi
      · exact hthree
      · exact hzero i hlt
    rw [if_neg (hwidth ▸ Bool.false_ne_true)]
    dsimp only
    rw [if_neg (by omega), pairAt_eq, hbyte _ (by omega), hbyte _ (by omega)]
    split_ifs <;> rfl

/-- Read with 12 bits, the first entry of a FAT of 16 bits is not free. -/
lemma readFatEntry_narrow (hfat : fatRegion bpb size = some vol.fatCache)
    (hwide : bpb.isFat16 = true) (hwidth : vol.isFat16 = false)
    (hlength : 4 < vol.fatCache.length) : vol.readFatEntry 2 ≠ 0 := by
  obtain ⟨-, hzero, hthree⟩ := fat_some hfat
  rw [hwide, if_pos rfl] at hthree
  unfold Fat.FatVolume.readFatEntry
  rw [if_neg (hwidth ▸ Bool.false_ne_true)]
  dsimp only
  rw [if_neg (by omega), pairAt_eq, show 2 * 3 / 2 = 3 from rfl, hthree, hzero 4 le_rfl]
  decide

end

section

variable {size sectors n : ℕ} {wide : Bool}

lemma laidOut_mounted {da offset : ℕ} {human68k : Bool} {fat : List UInt8} (hsize : 4 < size)
    (hfits : FatFits size sectors) (hneeded : (hddLayout size sectors wide).needed n = n)
    (hfew : wide = false → (hddLayout size sectors wide).clusterCount n < 4085)
    (hroom : 0 < (hddLayout size sectors wide).clusterCount n)
    (hfat : fatRegion (hddParams size sectors n wide) size = some fat) :
    LaidOut (hddLayout size sectors wide) (hddParams size sectors n wide)
      (mountedVolume da offset (bootBlock (hddParams size sectors n wide) sectors) human68k
        fat) := by
  generalize hvol : mountedVolume da offset (bootBlock (hddParams size sectors n wide) sectors)
    human68k fat = vol
  have hsystem : (hddLayout size sectors wide).systemSectors n < sectors := systemSectors_lt hroom
  obtain ⟨hfirst, hclusters⟩ : vol.firstDataSector = (hddLayout size sectors wide).systemSectors n ∧
      vol.dataClusterCount = (hddLayout size sectors wide).clusterCount n :=
    hvol ▸ bootBlock_layout (by omega)
  have hcache : vol.fatCache = fat := hvol ▸ rfl
  have hwidth : vol.isFat16 = decide (4085 ≤ vol.dataClusterCount) := hvol ▸ rfl
  have hlength : fat.length = n * size := (fat_some hfat).1
  have hbounds := fatBytes_bounds ((hddLayout size sectors wide).clusterCount n) wide
  have hbytes : fatBytes ((hddLayout size sectors wide).clusterCount n) wide ≤ fat.length := by
    have hceil := @le_divCeil_mul (fatBytes ((hddLayout size sectors wide).clusterCount n) wide)
      size (by omega)
    rw [FatLayout.needed_eq (hfits.untruncated wide)] at hneeded
    rw [hlength]
    exact hceil.trans (Nat.mul_le_mul_right size hneeded.le)
  have hdata (cluster : ℕ) : vol.isDataCluster cluster = true ↔
      2 ≤ cluster ∧ cluster < (hddLayout size sectors wide).clusterCount n + 2 := by
    unfold Fat.FatVolume.isDataCluster
    rw [Bool.and_eq_true, decide_eq_true_eq, decide_eq_true_eq, hclusters]
    rfl
  have hdescribed (cluster : ℕ) (hcluster : vol.isDataCluster cluster = true) :
      entryEnd wide cluster ≤ vol.fatCache.length := by
    rw [hcache]
    exact (entryEnd_le wide ((hdata cluster).1 hcluster).2).trans hbytes
  refine ⟨hvol ▸ rfl, hclusters, hwidth, hdescribed, ?_, fun hfree => ?_,
    fun hsame cluster hcluster => ?_⟩
  · have hmul := Nat.div_mul_le_self (sectors - (hddLayout size sectors wide).systemSectors n)
      (hddLayout size sectors wide).sectorsPerCluster
    rw [hfirst, hclusters, FatLayout.clusterCount]
    change _ + (sectors - _) / _ * _ ≤ sectors
    omega
  · by_contra hne
    cases wide with
    | true =>
      have hnarrow : vol.isFat16 = false := Bool.eq_false_of_not_eq_true hne
      have hlong : 4 < vol.fatCache.length := by
        rw [hcache]
        omega
      exact readFatEntry_narrow (hcache.symm ▸ hfat) rfl hnarrow hlong
        (hfree 2 ((hdata 2).2 ⟨le_rfl, by omega⟩))
    | false =>
      refine hne ?_
      rw [hwidth, hclusters, decide_eq_false (Nat.not_le_of_lt (hfew rfl))]
      rfl
  · exact readFatEntry_free (hcache.symm ▸ hfat) hsame ((hdata cluster).1 hcluster).1
      (hdescribed cluster hcluster)

end

section

variable {table : PartitionTableType} {image : HddImage} {bpb : BpbParams}

/-- **A disk is formatted, and mounted as it was laid out.** Where the layout settles and leaves a
cluster, formatting succeeds. The partition is found where it was made; its boot record gives the
layout that was solved for, with an entry for every cluster; both copies of the FAT are the same;
and the root directory is empty. -/
theorem format_mounts {fuel : ℕ} (full : image.Full) (hacceptable : image.geometry.Acceptable)
    (hfits : image.geometry.Fits) (hsize : minimumSectorSize table ≤ image.geometry.sectorSize)
    (hplace : 1 < partitionOffset table image)
    (hfatFits : FatFits image.geometry.sectorSize (partitionSectors table image))
    (hbpb : hddBpbParams fuel image.geometry.sectorSize (partitionSectors table image) = some bpb)
    (hroom : 0 < (hddLayout image.geometry.sectorSize (partitionSectors table image)
      bpb.isFat16).clusterCount bpb.sectorsPerFat)
    (da : ℕ) {geometry : Fat.DriveGeometry}
    (hsource : geometry.bpbSource = .bootRecord ∨ geometry.bpbSource = .bootRecordOrDefault) :
    ∃ image' vol, formatHddImage fuel table image = some (.ok (), image') ∧
      (schemeOf table).volumeStart da (⟨image', da⟩ : FileImageDiskIo) =
        some (.ok (partitionOffset table image), ⟨image', da⟩) ∧
      Fat.mount da (partitionOffset table image) geometry (⟨image', da⟩ : FileImageDiskIo) =
        some (.ok vol, ⟨image', da⟩) ∧
      LaidOut (hddLayout image.geometry.sectorSize (partitionSectors table image) bpb.isFat16) bpb
        vol ∧
      (∀ i < bpb.sectorsPerFat,
        image'.readSector (partitionOffset table image + 1 + bpb.sectorsPerFat + i) =
          image'.readSector (partitionOffset table image + 1 + i)) ∧
      ∀ i < divCeil (512 * 32) image.geometry.sectorSize,
        image'.readSector (partitionOffset table image + 1 + 2 * bpb.sectorsPerFat + i) =
          some (List.replicate image.geometry.sectorSize 0) := by
  have hpower := hacceptable.sectorSize_power
  rw [Nat.mod_eq_of_lt hfits.sectorSize_lt] at hpower
  have hgeometry := hacceptable.nonzero hfits
  have hpos : 0 < image.geometry.sectorSize := Nat.pos_of_ne_zero hgeometry.sectorSize_ne
  obtain ⟨n, wide, rfl, hneeded, hfew⟩ := hddBpbParams_some hbpb
  change 0 < (hddLayout _ _ wide).clusterCount n at hroom
  have hn : 0 < n := by
    rw [← hneeded, FatLayout.needed_eq (hfatFits.untruncated wide)]
    exact fatSectors_pos hpos _ _
  have hbounded : n < 2 ^ 16 := hneeded ▸ Nat.mod_lt _ (by decide)
  obtain ⟨image', sector, boot, fat, hformat, hsector, hboot, hfat, h⟩ :=
    format_succeeds full hgeometry rfl rfl hsize hplace hbpb hn hroom
  have htotal := totalSectors_lt hfits
  have hlarger := formatGeometry_totalSectors_le table image
  have hsystem : 1 + 2 * n + divCeil (512 * 32) image.geometry.sectorSize <
      (formatGeometry table image).totalSectors - partitionOffset table image :=
    systemSectors_lt hroom
  have hshort : divCeil 512 image.geometry.sectorSize ≤
      divCeil (512 * 32) image.geometry.sectorSize := divCeil_mono (by decide)
  have hsame : image'.geometry.totalSectors = image.geometry.totalSectors :=
    congrArg HddGeometry.totalSectors h.geometry_eq
  have hpartition : partitionSectors table image < 2 ^ 32 := by
    unfold partitionSectors
    omega
  -- the boot record holds the block, and the first FAT is the one that was written
  obtain ⟨rest, hrecord⟩ := @readBootRecord_begins image' da boot _ _ h.full hpos
    (by omega) (by omega) h.volume.boot_at
  have hblock : Fat.bootRecordBpb (boot ++ rest) image.geometry.sectorSize =
      some (bootBlock (hddParams image.geometry.sectorSize (partitionSectors table image) n wide)
        (partitionSectors table image)) := by
    have hparse := parse_boot (hddParams_fits hfits.sectorSize_lt hbounded) hpartition hboot rest
    rw [withValidSizes_bootBlock hpower] at hparse
    unfold Fat.bootRecordBpb
    dsimp only
    rw [hparse, Option.filter_some, if_pos (supported_bootBlock hpos hn hroom), Option.some_or]
  obtain ⟨hlength, -, -⟩ := fat_some hfat
  have hchunks := length_chunksExact hpos hlength
  have hlist := @sectorsFrom_eq image' (partitionOffset table image + 1)
    (chunksExact image.geometry.sectorSize fat) (by rw [hchunks]; change _ + n ≤ _; omega)
    (fun i hi => by
      have hfirst := h.volume.fat_at 0 (by decide) i _ (List.getElem?_eq_getElem hi)
      rwa [Nat.zero_mul, Nat.add_zero, ← List.getElem?_eq_getElem hi] at hfirst)
  rw [hchunks, flatten_chunksExact hpos hlength] at hlist
  obtain ⟨human68k, hmount⟩ := mount_of_block hsource
    (congrArg HddGeometry.sectorSize h.geometry_eq) hrecord hblock
    (sectorsPerClusterFor_bounds _ _).1 (Nat.div_self hpos) rfl (by omega) (readSectors_eq hlist)
  refine ⟨image', _, hformat, h.volumeStart hsector (by omega), hmount,
    laidOut_mounted ((boot_some hboot).1.trans' (by decide)) hfatFits hneeded hfew hroom hfat,
    fun i hi => ?_, h.volume.root_at⟩
  have hin : i < (chunksExact image.geometry.sectorSize fat).length := hchunks ▸ hi
  have hfirst := h.volume.fat_at 0 (by decide) i _ (List.getElem?_eq_getElem hin)
  have hsecond := h.volume.fat_at 1 (by decide) i _ (List.getElem?_eq_getElem hin)
  rw [Nat.zero_mul, Nat.add_zero] at hfirst
  rw [Nat.one_mul] at hsecond
  exact hsecond.trans hfirst.symm

end

/-- A blank disk of 5 MB. -/
def blankMb5 : HddImage where
  geometry := ⟨153, 4, 33, 256⟩
  format := .nhd
  data := List.replicate (153 * 4 * 33 * 256) 0
  headerBytes := []

def bootRecordDrive : Fat.DriveGeometry where
  bpbSource := .bootRecord
  defaultBpb := Fat.FmTowns.floppyBpb
  bpb := Fat.FmTowns.floppyBpb

/-- The disk is formatted with 2496 clusters. -/
theorem format_mounts_blankMb5 :
    ∃ image' vol, formatHddImage 4 .pc98 blankMb5 = some (.ok (), image') ∧
      Fat.mount 0x80 132 bootRecordDrive (⟨image', 0x80⟩ : FileImageDiskIo) =
        some (.ok vol, ⟨image', 0x80⟩) ∧
      vol.dataClusterCount = 2496 := by
  have hbpb : hddBpbParams 4 blankMb5.geometry.sectorSize (partitionSectors .pc98 blankMb5) =
      some (hddParams 256 20064 15 false) := by decide
  have full : blankMb5.Full := List.length_replicate
  have hsource : bootRecordDrive.bpbSource = .bootRecord ∨
      bootRecordDrive.bpbSource = .bootRecordOrDefault := .inl rfl
  obtain ⟨image', vol, hformat, -, hmount, hlaid, -, -⟩ := format_mounts full
    ⟨by decide, by decide, by decide, by decide⟩ ⟨by decide, by decide, by decide, by decide⟩
    (by decide) (by decide) (by unfold FatFits FatLayout.Untruncated; decide) hbpb (by decide) 0x80
    hsource
  exact ⟨image', vol, hformat, hmount, hlaid.clusters.trans (by decide)⟩

end Neetan.DiskFormat
