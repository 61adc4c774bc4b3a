import Neetan.DiskFormatLayout
import Neetan.HardDiskReload

/-!
What stands in the sectors that the formatter builds, and what the parsers read from them.

A byte of a built sector is the one that the last field over it has, or zero.
-/

namespace Neetan.DiskFormat

open HardDisk LittleEndian HddImage

/-! ### Fields -/

/-- The fields copied one after the other. -/
def patchAll (sector : List UInt8) (fields : List (ℕ × List UInt8)) : List UInt8 :=
  fields.foldl (fun sector field => patched sector field.1 field.2) sector

/-- The field lies over a byte. -/
def covers (i : ℕ) (field : ℕ × List UInt8) : Bool :=
  Nat.ble field.1 i && Nat.blt i (field.1 + field.2.length)

/-- The byte that the last field over it has. -/
def lastByte (fields : List (ℕ × List UInt8)) (i : ℕ) : UInt8 :=
  match fields.reverse.find? (covers i) with
  | some field => byteAt field.2 (i - field.1)
  | none => 0

section

variable {sector result : List UInt8} {field : ℕ × List UInt8} {fields : List (ℕ × List UInt8)}

lemma foldlM_put (h : fields.foldlM put sector = some result) :
    (∀ field ∈ fields, field.1 + field.2.length ≤ sector.length) ∧
      result = patchAll sector fields ∧ result.length = sector.length := by
  induction fields generalizing sector with
  | nil =>
    obtain rfl := Option.some.inj h
    exact ⟨by simp, rfl, rfl⟩
  | cons field fields ih =>
    rw [List.foldlM_cons] at h
    obtain ⟨next, hput, h⟩ := Option.bind_eq_some_iff.1 h
    unfold put at hput
    split_ifs at hput with hfits
    obtain rfl := Option.some.inj hput
    obtain ⟨hrest, rfl, hlength⟩ := ih h
    rw [length_patched hfits] at hrest hlength
    exact ⟨List.forall_mem_cons.2 ⟨hfits, hrest⟩, rfl, hlength⟩

lemma byteAt_patched (hfits : field.1 + field.2.length ≤ sector.length) (i : ℕ) :
    byteAt (patched sector field.1 field.2) i =
      if covers i field then byteAt field.2 (i - field.1) else byteAt sector i := by
  have hcovers : covers i field = true ↔ field.1 ≤ i ∧ i < field.1 + field.2.length := by
    rw [covers, Bool.and_eq_true, Nat.ble_eq, Nat.blt_eq]
  unfold byteAt
  rw [List.getD_eq_getElem?_getD, getElem?_patched hfits]
  by_cases hin : field.1 ≤ i ∧ i < field.1 + field.2.length
  · rw [if_pos hin, if_pos (hcovers.2 hin), List.getD_eq_getElem?_getD]
  · rw [if_neg hin, if_neg (fun hc => hin (hcovers.1 hc)), List.getD_eq_getElem?_getD]

lemma patchAll_append (fields : List (ℕ × List UInt8)) (field : ℕ × List UInt8) :
    patchAll sector (fields ++ [field]) = patched (patchAll sector fields) field.1 field.2 := by
  rw [patchAll, List.foldl_append]
  rfl

lemma length_patchAll (hfits : ∀ field ∈ fields, field.1 + field.2.length ≤ sector.length) :
    (patchAll sector fields).length = sector.length := by
  induction fields using List.reverseRecOn with
  | nil => rfl
  | append_singleton fields field ih =>
    have hlength := ih fun other mem => hfits other (List.mem_append_left _ mem)
    rw [patchAll_append, length_patched (hlength ▸ hfits field (by simp)), hlength]

lemma lastByte_append (fields : List (ℕ × List UInt8)) (field : ℕ × List UInt8) (i : ℕ) :
    lastByte (fields ++ [field]) i =
      if covers i field then byteAt field.2 (i - field.1) else lastByte fields i := by
  rw [lastByte, List.reverse_append, List.reverse_singleton, List.singleton_append,
    List.find?_cons]
  cases covers i field
  · rfl
  · rfl

lemma lastByte_eq_zero {i : ℕ} (h : ∀ field ∈ fields, field.1 + field.2.length ≤ i) :
    lastByte fields i = 0 := by
  have hnone : fields.reverse.find? (covers i) = none := by
    refine List.find?_eq_none.2 fun field mem => ?_
    have hle := h field (List.mem_reverse.1 mem)
    rw [covers, Bool.and_eq_true, Nat.ble_eq, Nat.blt_eq]
    omega
  rw [lastByte, hnone]

lemma byteAt_patchAll (hfits : ∀ field ∈ fields, field.1 + field.2.length ≤ sector.length)
    (hzero : ∀ i, byteAt sector i = 0) (i : ℕ) :
    byteAt (patchAll sector fields) i = lastByte fields i := by
  induction fields using List.reverseRecOn with
  | nil => exact hzero i
  | append_singleton fields field ih =>
    have hrest : ∀ other ∈ fields, other.1 + other.2.length ≤ sector.length := fun other mem =>
      hfits other (List.mem_append_left _ mem)
    rw [patchAll_append, byteAt_patched (length_patchAll hrest ▸ hfits field (by simp)),
      lastByte_append, ih hrest]

lemma build_some {size : ℕ} (h : build size fields = some result) :
    (∀ field ∈ fields, field.1 + field.2.length ≤ size) ∧ result.length = size ∧
      ∀ i, byteAt result i = lastByte fields i := by
  obtain ⟨hfits, rfl, hlength⟩ := foldlM_put h
  have hzero (i : ℕ) : byteAt (List.replicate size 0) i = 0 := by
    unfold byteAt
    rw [List.getD_eq_getElem?_getD, List.getElem?_replicate]
    split_ifs <;> rfl
  have hall : ∀ field ∈ fields, field.1 + field.2.length ≤ size := fun field mem => by
    simpa using hfits field mem
  exact ⟨hall, by simpa using hlength, byteAt_patchAll hfits hzero⟩

lemma build_fits {size : ℕ} (h : ∀ field ∈ fields, field.1 + field.2.length ≤ size) :
    ∃ result, build size fields = some result ∧ result.length = size := by
  have hrun (sector : List UInt8) (hlength : sector.length = size) :
      ∃ result, fields.foldlM put sector = some result := by
    induction fields generalizing sector with
    | nil => exact ⟨sector, rfl⟩
    | cons field fields ih =>
      have hfield : field.1 + field.2.length ≤ sector.length := hlength ▸ h field (by simp)
      rw [List.foldlM_cons, put, if_pos hfield]
      exact ih (fun other mem => h other (by simp [mem])) _
        ((length_patched hfield).trans hlength)
  obtain ⟨result, hresult⟩ := hrun _ List.length_replicate
  exact ⟨result, hresult, (build_some hresult).2.1⟩

lemma byteAt_append_left {front back : List UInt8} {i : ℕ} (h : i < front.length) :
    byteAt (front ++ back) i = byteAt front i := by
  rw [byteAt, List.getD_append _ _ _ _ h]
  rfl

lemma byteAt_drop (bytes : List UInt8) (start i : ℕ) :
    byteAt (bytes.drop start) i = byteAt bytes (start + i) := by
  simp only [byteAt, List.getD_eq_getElem?_getD, List.getElem?_drop]

lemma pairAt_eq (bytes : List UInt8) (i : ℕ) :
    Fat.pairAt bytes i = (byteAt bytes i).toNat + 256 * (byteAt bytes (i + 1)).toNat := rfl

end

/-! ### The Boot Sector -/

/-- The parameter block in the boot sector. -/
def bootBlock (bpb : BpbParams) (partitionSectors : ℕ) : Fat.Bpb where
  bytesPerSector := bpb.bytesPerSector
  sectorsPerCluster := bpb.sectorsPerCluster
  reservedSectors := bpb.reservedSectors
  numFats := bpb.numFats
  rootEntryCount := bpb.rootEntryCount
  totalSectors16 := if partitionSectors ≤ 0xFFFF then partitionSectors else 0
  mediaDescriptor := bpb.mediaDescriptor
  sectorsPerFat := bpb.sectorsPerFat
  totalSectors32 := if partitionSectors ≤ 0xFFFF then 0 else partitionSectors

/-- The parameters fit the fields of the boot sector. -/
structure BpbParams.Fits (bpb : BpbParams) : Prop where
  bytesPerSector_lt : bpb.bytesPerSector < 2 ^ 16
  sectorsPerCluster_lt : bpb.sectorsPerCluster < 2 ^ 8
  reservedSectors_lt : bpb.reservedSectors < 2 ^ 16
  numFats_lt : bpb.numFats < 2 ^ 8
  rootEntryCount_lt : bpb.rootEntryCount < 2 ^ 16
  sectorsPerFat_lt : bpb.sectorsPerFat < 2 ^ 16

section

variable {bpb : BpbParams} {size partitionSectors sectorsPerTrack heads partitionOffset : ℕ}
  {boot : List UInt8}

lemma toNat_pair {n : ℕ} (h : n < 2 ^ 16) :
    (UInt8.ofNat n).toNat + 256 * (UInt8.ofNat (n / 256)).toNat = n := by
  rw [UInt8.toNat_ofNat', UInt8.toNat_ofNat']
  omega

lemma toNat_quad {n : ℕ} (h : n < 2 ^ 32) :
    (UInt8.ofNat n).toNat + 256 * (UInt8.ofNat (n / 256)).toNat +
      65536 * ((UInt8.ofNat (n / 256 / 256)).toNat +
        256 * (UInt8.ofNat (n / 256 / 256 / 256)).toNat) = n := by
  simp only [UInt8.toNat_ofNat']
  omega

lemma boot_some
    (h : hddBootSector bpb size partitionSectors sectorsPerTrack heads partitionOffset =
      some boot) :
    64 ≤ size ∧ boot.length = size ∧ ∀ i < 62, byteAt boot i =
      lastByte (bootFields bpb partitionSectors sectorsPerTrack heads partitionOffset) i := by
  obtain ⟨hfits, hlength, hbyte⟩ := build_some h
  have hsize : 63 + 1 ≤ size := hfits (63, [0xFE]) (by simp [bootFields])
  refine ⟨hsize, hlength, fun i hi => ?_⟩
  have hcovers {start : ℕ} {value : UInt8} (hstart : i < start) :
      covers i (start, [value]) = false := by
    have hble : Nat.ble start i = false :=
      Bool.eq_false_of_not_eq_true fun hle => by
        have := Nat.le_of_ble_eq_true hle
        omega
    rw [covers, hble, Bool.false_and]
  rw [hbyte, show (_ ++ [_, _] : List (ℕ × List UInt8)) = (_ ++ [_]) ++ [_] by
    rw [List.append_assoc]; rfl]
  rw [lastByte_append, if_neg (by rw [hcovers (by omega)]; decide), lastByte_append,
    if_neg (by rw [hcovers (by omega)]; decide)]

lemma boot_builds (hsize : 64 ≤ size) :
    ∃ boot, hddBootSector bpb size partitionSectors sectorsPerTrack heads partitionOffset =
      some boot ∧ boot.length = size := by
  refine build_fits fun field mem => ?_
  rcases List.mem_append.1 mem with mem | mem
  · have hall : ∀ field ∈ bootFields bpb partitionSectors sectorsPerTrack heads partitionOffset,
        field.1 + field.2.length ≤ 64 := by
      unfold bootFields
      split_ifs <;> simp [oemName, volumeLabel, fatTypeName]
    exact (hall field mem).trans hsize
  · simp only [List.mem_cons, List.not_mem_nil, or_false] at mem
    rcases mem with rfl | rfl <;> simp only [List.length_singleton] <;> omega

lemma parse_boot (hfits : bpb.Fits) (hpartition : partitionSectors < 2 ^ 32)
    (h : hddBootSector bpb size partitionSectors sectorsPerTrack heads partitionOffset = some boot)
    (rest : List UInt8) :
    Fat.Bpb.parse (boot ++ rest) = (bootBlock bpb partitionSectors).withValidSizes := by
  obtain ⟨hsize, hlength, hbyte⟩ := boot_some h
  have hlong : 64 ≤ (boot ++ rest).length := by
    rw [List.length_append]
    omega
  -- the bytes of the block, one by one
  have hat (i : ℕ) (hi : i < 51) : byteAt ((boot ++ rest).drop 11) i =
      lastByte (bootFields bpb partitionSectors sectorsPerTrack heads partitionOffset)
        (11 + i) := by
    rw [byteAt_drop, byteAt_append_left (by omega), hbyte _ (by omega)]
  have hpair {o n : ℕ} (ho : o < 50) (hn : n < 2 ^ 16)
      (hlow : lastByte (bootFields bpb partitionSectors sectorsPerTrack heads partitionOffset)
        (11 + o) = UInt8.ofNat n)
      (hhigh : lastByte (bootFields bpb partitionSectors sectorsPerTrack heads partitionOffset)
        (11 + (o + 1)) = UInt8.ofNat (n / 256)) :
      Fat.pairAt ((boot ++ rest).drop 11) o = n := by
    rw [pairAt_eq, hat o (by omega), hat (o + 1) (by omega), hlow, hhigh, toNat_pair hn]
  have hone {o n : ℕ} (ho : o < 50) (hn : n < 2 ^ 8)
      (hbyte : lastByte (bootFields bpb partitionSectors sectorsPerTrack heads partitionOffset)
        (11 + o) = UInt8.ofNat n) : (byteAt ((boot ++ rest).drop 11) o).toNat = n := by
    rw [hat o (by omega), hbyte, UInt8.toNat_ofNat', Nat.mod_eq_of_lt hn]
  unfold Fat.Bpb.parse
  rw [if_neg (by omega)]
  unfold Fat.Bpb.fromParameterBlock
  have hblock : ¬ ((boot ++ rest).drop 11).length < Fat.parameterBlockLength := by
    rw [List.length_drop, Fat.parameterBlockLength]
    omega
  rw [show Fat.bootSectorBpbOffset = 11 from rfl, if_neg hblock]
  congr 1
  refine Fat.Bpb.mk.injEq .. ▸ ⟨?_, ?_, ?_, ?_, ?_, ?_, ?_, ?_, ?_⟩
  · exact hpair (by decide) hfits.bytesPerSector_lt (by unfold bootFields; split_ifs <;> rfl)
      (by unfold bootFields; split_ifs <;> rfl)
  · exact hone (by decide) hfits.sectorsPerCluster_lt (by unfold bootFields; split_ifs <;> rfl)
  · exact hpair (by decide) hfits.reservedSectors_lt (by unfold bootFields; split_ifs <;> rfl)
      (by unfold bootFields; split_ifs <;> rfl)
  · exact hone (by decide) hfits.numFats_lt (by unfold bootFields; split_ifs <;> rfl)
  · exact hpair (by decide) hfits.rootEntryCount_lt (by unfold bootFields; split_ifs <;> rfl)
      (by unfold bootFields; split_ifs <;> rfl)
  · by_cases hsmall : partitionSectors ≤ 0xFFFF
    · rw [if_pos hsmall]
      exact hpair (by decide) (by omega) (by unfold bootFields; rw [if_pos hsmall]; rfl)
        (by unfold bootFields; rw [if_pos hsmall]; rfl)
    · rw [if_neg hsmall]
      exact hpair (by decide) (by decide) (by unfold bootFields; rw [if_neg hsmall]; rfl)
        (by unfold bootFields; rw [if_neg hsmall]; rfl)
  · exact (hat 10 (by decide)).trans (by unfold bootFields; split_ifs <;> rfl)
  · exact hpair (by decide) hfits.sectorsPerFat_lt (by unfold bootFields; split_ifs <;> rfl)
      (by unfold bootFields; split_ifs <;> rfl)
  · by_cases hsmall : partitionSectors ≤ 0xFFFF
    · rw [if_pos hsmall,
        @hpair _ 0 (by decide) (by decide) (by unfold bootFields; rw [if_pos hsmall]; rfl)
          (by unfold bootFields; rw [if_pos hsmall]; rfl),
        @hpair _ 0 (by decide) (by decide) (by unfold bootFields; rw [if_pos hsmall]; rfl)
          (by unfold bootFields; rw [if_pos hsmall]; rfl)]
    · rw [if_neg hsmall, pairAt_eq, pairAt_eq, hat 21 (by decide), hat 22 (by decide),
        hat 23 (by decide), hat 24 (by decide)]
      refine Eq.trans ?_ (toNat_quad hpartition)
      unfold bootFields
      rw [if_neg hsmall]
      rfl

end

/-! ### The FAT -/

section

variable {bpb : BpbParams} {size : ℕ} {fat : List UInt8}

lemma fat_some (h : fatRegion bpb size = some fat) :
    fat.length = bpb.sectorsPerFat * size ∧ (∀ i ≥ 4, byteAt fat i = 0) ∧
      byteAt fat 3 = if bpb.isFat16 then 0xFF else 0 := by
  obtain ⟨-, hlength, hbyte⟩ := build_some h
  refine ⟨hlength, fun i hi => ?_, ?_⟩
  · rw [hbyte]
    refine lastByte_eq_zero fun field mem => ?_
    split_ifs at mem
    · simp only [List.mem_cons, List.not_mem_nil, or_false] at mem
      rcases mem with rfl | rfl | rfl | rfl <;> simp only [List.length_singleton] <;> omega
    · simp only [List.mem_cons, List.not_mem_nil, or_false] at mem
      rcases mem with rfl | rfl | rfl <;> simp only [List.length_singleton] <;> omega
  · rw [hbyte]
    split_ifs <;> rfl

lemma fat_builds (hsize : 4 ≤ bpb.sectorsPerFat * size) :
    ∃ fat, fatRegion bpb size = some fat ∧ fat.length = bpb.sectorsPerFat * size := by
  refine build_fits fun field mem => ?_
  have hall : ∀ field ∈ (if bpb.isFat16 then
      [(0, [bpb.mediaDescriptor]), (1, [0xFF]), (2, [0xFF]), (3, [0xFF])]
      else [(0, [bpb.mediaDescriptor]), (1, [0xFF]), (2, [0xFF])] : List (ℕ × List UInt8)),
      field.1 + field.2.length ≤ 4 := by
    split_ifs <;> simp
  exact (hall field mem).trans hsize

end

/-! ### The Partition Tables -/

section

variable {sector : List UInt8}

lemma find_dosPartition {rest : ℕ} (hlength : 32 ≤ sector.length) (hmid : byteAt sector 0 = 0x21)
    (hsid : byteAt sector 1 = 0x81) :
    (parsePartitionTable sector (rest + 1) 0).find? isDosPartition = some
      { mid := 0x21
        sid := 0x81
        dataStartSector := (byteAt sector 8).toNat
        dataStartHead := (byteAt sector 9).toNat
        dataStartCylinder := Fat.pairAt sector 10 } := by
  have hdos (start head cylinder : ℕ) : isDosPartition ⟨0x21, 0x81, start, head, cylinder⟩ = true :=
    show ((0x81 : UInt8) &&& 0x80 != 0 && (0x21 : UInt8) &&& 0x70 == 0x20) = true by decide
  rw [parsePartitionTable, if_neg (by omega)]
  dsimp only
  rw [Nat.zero_mul, List.drop_zero, hmid, hsid, if_neg (by decide), List.find?_cons, hdos]

lemma find_nec {size endCylinder : ℕ}
    (h : pc98NecPartitionTableSector size endCylinder = some sector) :
    (parsePartitionTable sector 16 0).find? isDosPartition =
      some ⟨0x21, 0x81, 0, 0, pc98NecPartitionStartCylinder⟩ := by
  obtain ⟨hfits, hlength, hbyte⟩ := build_some h
  have hsize : 16 + 16 ≤ size := hfits (16, pc98PartitionName) (by simp)
  rw [find_dosPartition (by omega) (hbyte 0) (hbyte 1), pairAt_eq, hbyte 8, hbyte 9, hbyte 10,
    hbyte 11]
  rfl

lemma find_pc98 {size totalSectors heads sectorsPerTrack : ℕ}
    (h : pc98PartitionTableSector size totalSectors heads sectorsPerTrack = some sector) :
    (parsePartitionTable sector 16 0).find? isDosPartition = some ⟨0x21, 0x81, 0, 1, 0⟩ := by
  unfold pc98PartitionTableSector at h
  dsimp only at h
  split_ifs at h
  obtain ⟨hfits, hlength, hbyte⟩ := build_some h
  have hsize : 16 + 16 ≤ size := hfits (16, pc98PartitionName) (by simp)
  rw [find_dosPartition (by omega) (hbyte 0) (hbyte 1), pairAt_eq, hbyte 8, hbyte 9, hbyte 10,
    hbyte 11]
  rfl

lemma mbr_some {size offset partitionSectors heads sectorsPerTrack : ℕ} (hoffset : offset < 2 ^ 32)
    (h : atMasterBootRecord size offset partitionSectors heads sectorsPerTrack = some sector) :
    512 ≤ sector.length ∧ byteAt sector 510 = 0x55 ∧ byteAt sector 511 = 0xAA ∧
      ∃ entries, parseMbrPartitionTable sector 4 0 = ⟨0x80, 0x06, offset⟩ :: entries := by
  unfold atMasterBootRecord at h
  dsimp only at h
  split_ifs at h
  obtain ⟨hfits, hlength, hbyte⟩ := build_some h
  have hsize : 511 + 1 ≤ size := hfits (511, [0xAA]) (by simp)
  have hstatus : byteAt sector 446 = 0x80 := hbyte 446
  have htype : byteAt sector 450 = 0x06 := hbyte 450
  have hstart : (byteAt sector 454).toNat + 256 * (byteAt sector 455).toNat +
      65536 * ((byteAt sector 456).toNat + 256 * (byteAt sector 457).toNat) = offset := by
    rw [hbyte 454, hbyte 455, hbyte 456, hbyte 457]
    exact toNat_quad hoffset
  refine ⟨by omega, hbyte 510, hbyte 511, parseMbrPartitionTable sector 3 1, ?_⟩
  rw [parseMbrPartitionTable]
  dsimp only
  rw [if_neg (by omega)]
  simp only [byteAt_drop, pairAt_eq, Nat.zero_mul, Nat.reduceAdd, hstatus, htype, hstart]
  rw [if_neg (by decide)]

end

end Neetan.DiskFormat
