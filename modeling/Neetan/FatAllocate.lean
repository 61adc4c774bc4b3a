import Neetan.FatEntries

/-!
Allocating a cluster: when it keeps what it promises.

The scan for a free cluster is bounded by a sum of 16 bits, although a volume may have more
clusters, and the cluster to chain after is taken as it is given.
-/

namespace Neetan.Fat.FatVolume

/-- A data cluster with a zero FAT entry. -/
structure Free (vol : FatVolume) (cluster : ℕ) : Prop where
  word : cluster < 2 ^ 16
  data : vol.isDataCluster cluster = true
  entry : vol.readFatEntry cluster = 0

/-- What an allocation promises. -/
def AllocationMeets (vol : FatVolume) (after : ℕ) : Prop :=
  match vol.allocateCluster after with
  | none => ∀ cluster, ¬ vol.Free cluster
  | some (cluster, vol') =>
    vol.Free cluster ∧ vol.endOfChain ≤ vol'.readFatEntry cluster ∧
      (2 ≤ after → vol'.nextCluster after = some cluster) ∧
      ∀ other < 2 ^ 16, other ≠ cluster → (2 ≤ after → other ≠ after) →
        vol'.readFatEntry other = vol.readFatEntry other

/-- The scan can find a free cluster. -/
def Reachable (vol : FatVolume) : Prop := ∃ cluster < vol.scanLimit, vol.Free cluster

/-- The state of the FAT in which an allocation keeps its promise. -/
structure AllocationSafe (vol : FatVolume) (after : ℕ) : Prop where
  /-- If a cluster is free, then one below the limit of the scan. -/
  scan : ∀ cluster, vol.Free cluster → vol.Reachable
  /-- The cluster to chain after has an entry in the FAT. -/
  holds : 2 ≤ after → vol.Reachable → vol.Holds after
  /-- The cluster to chain after is not the lowest free one. -/
  other : 2 ≤ after → vol.Free after → ∃ cluster < after, vol.Free cluster
  /-- A free cluster does not have the number of an end mark. -/
  below : 2 ≤ after → vol.Reachable → ∃ cluster < vol.endOfChain, vol.Free cluster

section

variable {vol vol' : FatVolume} {cluster after : ℕ}

lemma isDataCluster_iff :
    vol.isDataCluster cluster = true ↔ 2 ≤ cluster ∧ cluster < vol.dataClusterCount + 2 := by
  rw [isDataCluster, Bool.and_eq_true]
  exact and_congr decide_eq_true_iff decide_eq_true_iff

lemma two_le_endOfChain (vol : FatVolume) : 2 ≤ vol.endOfChain := by
  unfold endOfChain
  split_ifs <;> omega

lemma endOfChain_le_endMark (vol : FatVolume) : vol.endOfChain ≤ vol.endMark := by
  unfold endOfChain endMark
  split_ifs <;> omega

lemma endMark_lt (vol : FatVolume) : vol.endMark < vol.entryLimit := by
  unfold endMark entryLimit
  split_ifs <;> omega

lemma endOfChain_lt (vol : FatVolume) : vol.endOfChain < vol.entryLimit := by
  unfold endOfChain entryLimit
  split_ifs <;> omega

lemma SameLayout.endOfChain (h : SameLayout vol vol') : vol'.endOfChain = vol.endOfChain := by
  unfold FatVolume.endOfChain
  rw [h.isFat16]

lemma SameLayout.entryLimit (h : SameLayout vol vol') : vol'.entryLimit = vol.entryLimit := by
  unfold FatVolume.entryLimit
  rw [h.isFat16]

lemma nextCluster_eq_some {next : ℕ} :
    vol.nextCluster cluster = some next ↔
      vol.readFatEntry cluster = next ∧ 2 ≤ next ∧ next < vol.endOfChain := by
  unfold nextCluster
  dsimp only
  split_ifs with h
  · refine iff_of_false (by simp) ?_
    rintro ⟨rfl, h1, h2⟩
    omega
  · refine ⟨fun he => ?_, fun he => congrArg some he.1⟩
    obtain rfl := Option.some.inj he
    omega

lemma readFatEntry_of_not_holds (h : ¬ vol.Holds cluster) :
    vol.readFatEntry cluster = vol.endMark := by
  unfold Holds entryOffset at h
  unfold readFatEntry endMark
  dsimp only
  split_ifs at h ⊢ <;> first | rfl | omega

lemma Free.holds (h : vol.Free cluster) : vol.Holds cluster := by
  by_contra hn
  have hzero := h.entry
  have htwo := two_le_endOfChain vol
  have hmark := endOfChain_le_endMark vol
  rw [readFatEntry_of_not_holds hn] at hzero
  omega

lemma writeFatEntry_of_not_holds (h : ¬ vol.Holds cluster) (value : ℕ) :
    vol.writeFatEntry cluster value = vol := by
  unfold Holds entryOffset at h
  unfold writeFatEntry
  dsimp only
  split_ifs at h ⊢ <;> first | rfl | omega

/-! ### The Scan -/

lemma scanLimit_le (vol : FatVolume) : vol.scanLimit ≤ vol.dataClusterCount + 2 := by
  unfold scanLimit MachineInt.wrappingAdd
  omega

lemma scanLimit_lt (vol : FatVolume) : vol.scanLimit < 2 ^ 16 := Nat.mod_lt _ (by norm_num)

lemma free_of_scanned (h2 : 2 ≤ cluster) (hlimit : cluster < vol.scanLimit)
    (hzero : vol.readFatEntry cluster = 0) : vol.Free cluster :=
  ⟨hlimit.trans (scanLimit_lt vol),
    isDataCluster_iff.mpr ⟨h2, hlimit.trans_le (scanLimit_le vol)⟩, hzero⟩

lemma Free.two_le (h : vol.Free cluster) : 2 ≤ cluster := (isDataCluster_iff.mp h.data).1

lemma allocateCluster_eq_none (after : ℕ) :
    vol.allocateCluster after = none ↔ ¬ vol.Reachable := by
  have hfind : vol.allocateCluster after = none ↔
      (List.range' 2 (vol.scanLimit - 2)).find?
        (fun candidate => vol.readFatEntry candidate = 0) = none := by
    unfold allocateCluster
    split <;> simp [*]
  rw [hfind, List.find?_eq_none]
  refine not_iff_not.mp ?_
  push Not
  constructor
  · rintro ⟨c, hmem, hzero⟩
    rw [List.mem_range'_1] at hmem
    have hlimit : c < vol.scanLimit := by omega
    exact ⟨c, hlimit, free_of_scanned hmem.1 hlimit (of_decide_eq_true hzero)⟩
  · rintro ⟨c, hlimit, hfree⟩
    have h2 := hfree.two_le
    exact ⟨c, List.mem_range'_1.mpr ⟨h2, by omega⟩, decide_eq_true hfree.entry⟩

/-- The FAT after the two writes of an allocation. -/
def chained (vol : FatVolume) (after cluster : ℕ) : FatVolume :=
  let marked := vol.writeFatEntry cluster vol.endMark
  if after ≥ 2 then marked.writeFatEntry after cluster else marked

/-- The lowest free cluster below the limit of the scan. -/
structure Lowest (vol : FatVolume) (cluster : ℕ) : Prop where
  free : vol.Free cluster
  limit : cluster < vol.scanLimit
  least : ∀ other < cluster, ¬ vol.Free other

lemma Lowest.reachable (h : vol.Lowest cluster) : vol.Reachable := ⟨cluster, h.limit, h.free⟩

lemma Lowest.le (h : vol.Lowest cluster) {other : ℕ} (hfree : vol.Free other) :
    cluster ≤ other := not_lt.mp fun hlt => h.least other hlt hfree

/-- An allocation takes the lowest free cluster, if there is one below the limit. -/
lemma allocateCluster_of_reachable (h : vol.Reachable) (after : ℕ) :
    ∃ cluster, vol.Lowest cluster ∧
      vol.allocateCluster after = some (cluster, vol.chained after cluster) := by
  cases hfind : (List.range' 2 (vol.scanLimit - 2)).find?
      fun candidate => vol.readFatEntry candidate = 0 with
  | none =>
    refine absurd h ((allocateCluster_eq_none after).mp ?_)
    unfold allocateCluster
    rw [hfind]
  | some c =>
    obtain ⟨hzero, hmem, hleast⟩ := List.find?_range'_eq_some.mp hfind
    rw [List.mem_range'_1] at hmem
    have hlimit : c < vol.scanLimit := by omega
    refine ⟨c, ⟨free_of_scanned hmem.1 hlimit (of_decide_eq_true hzero), hlimit,
      fun other hlt hfree => ?_⟩, ?_⟩
    · have hne := hleast other hfree.two_le hlt
      simp [hfree.entry] at hne
    · unfold allocateCluster
      rw [hfind]
      rfl

/-! ### The Two Writes -/

lemma sameLayout_chained (vol : FatVolume) (after cluster : ℕ) :
    SameLayout vol (vol.chained after cluster) := by
  unfold chained
  dsimp only
  split_ifs
  · exact (sameLayout_writeFatEntry _ _ _).trans (sameLayout_writeFatEntry _ _ _)
  · exact sameLayout_writeFatEntry _ _ _

lemma readFatEntry_chained_other (hfree : vol.Free cluster) {other : ℕ} (hne : other ≠ cluster)
    (hafter : 2 ≤ after → other ≠ after) :
    (vol.chained after cluster).readFatEntry other = vol.readFatEntry other := by
  have hmarked : (vol.writeFatEntry cluster vol.endMark).readFatEntry other =
      vol.readFatEntry other := readFatEntry_writeFatEntry_ne hfree.holds hne
  unfold chained
  dsimp only
  split_ifs with h2
  · by_cases hholds : (vol.writeFatEntry cluster vol.endMark).Holds after
    · rw [readFatEntry_writeFatEntry_ne hholds (hafter h2), hmarked]
    · rw [writeFatEntry_of_not_holds hholds, hmarked]
  · exact hmarked

lemma readFatEntry_chained_self (hfree : vol.Free cluster) (hafter : 2 ≤ after → cluster ≠ after) :
    (vol.chained after cluster).readFatEntry cluster = vol.endMark := by
  have hmarked := readFatEntry_writeFatEntry_same hfree.holds (endMark_lt vol)
  unfold chained
  dsimp only
  split_ifs with h2
  · by_cases hholds : (vol.writeFatEntry cluster vol.endMark).Holds after
    · rw [readFatEntry_writeFatEntry_ne hholds (hafter h2), hmarked]
    · rw [writeFatEntry_of_not_holds hholds, hmarked]
  · exact hmarked

lemma readFatEntry_chained_after (h2 : 2 ≤ after) (hholds : vol.Holds after)
    (hlt : cluster < vol.entryLimit) :
    (vol.chained after cluster).readFatEntry after = cluster := by
  have hl := sameLayout_writeFatEntry vol cluster vol.endMark
  unfold chained
  dsimp only
  rw [if_pos h2]
  exact readFatEntry_writeFatEntry_same (holds_writeFatEntry.mpr hholds)
    (hl.entryLimit ▸ hlt)

/-- The cluster is chained after the other one, if its number is no mark and is stored. -/
lemma nextCluster_chained (hfree : vol.Free cluster) (h2 : 2 ≤ after) :
    (vol.chained after cluster).nextCluster after = some cluster ↔
      vol.Holds after ∧ cluster < vol.endOfChain := by
  have hl := sameLayout_chained vol after cluster
  rw [nextCluster_eq_some, hl.endOfChain]
  constructor
  · rintro ⟨hread, -, hlt⟩
    refine ⟨?_, hlt⟩
    by_contra hn
    have hmark := endOfChain_le_endMark vol
    have houter : ¬ (vol.chained after cluster).Holds after := by
      unfold Holds entryOffset at hn ⊢
      rwa [hl.isFat16, hl.fatLength]
    have hend : (vol.chained after cluster).endMark = vol.endMark := by
      unfold endMark
      rw [hl.isFat16]
    rw [readFatEntry_of_not_holds houter, hend] at hread
    omega
  · rintro ⟨hholds, hlt⟩
    exact ⟨readFatEntry_chained_after h2 hholds (hlt.trans (endOfChain_lt vol)), hfree.two_le, hlt⟩

/-! ### The Condition -/

lemma allocationMeets_of_none (h : ¬ vol.Reachable) :
    vol.AllocationMeets after ↔ ∀ cluster, ¬ vol.Free cluster := by
  unfold AllocationMeets
  rw [(allocateCluster_eq_none after).mpr h]

lemma allocationMeets_of_lowest (h : vol.Lowest cluster)
    (halloc : vol.allocateCluster after = some (cluster, vol.chained after cluster)) :
    vol.AllocationMeets after ↔
      (2 ≤ after → cluster ≠ after ∧ vol.Holds after ∧ cluster < vol.endOfChain) := by
  unfold AllocationMeets
  rw [halloc]
  constructor
  · rintro ⟨-, hmark, hnext, -⟩ h2
    have hne : cluster ≠ after := by
      rintro rfl
      -- chained to itself, the cluster is its own successor
      have hlt := (nextCluster_eq_some.mp (hnext h2)).2.2
      have hread := (nextCluster_eq_some.mp (hnext h2)).1
      rw [(sameLayout_chained vol cluster cluster).endOfChain] at hlt
      omega
    exact ⟨hne, (nextCluster_chained h.free h2).mp (hnext h2)⟩
  · intro hcond
    have hne : 2 ≤ after → cluster ≠ after := fun h2 => (hcond h2).1
    refine ⟨h.free, ?_, fun h2 => (nextCluster_chained h.free h2).mpr (hcond h2).2,
      fun other _ hother hafter => readFatEntry_chained_other h.free hother hafter⟩
    rw [readFatEntry_chained_self h.free hne]
    exact endOfChain_le_endMark vol

lemma allocationSafe_of_none (h : ¬ vol.Reachable) :
    vol.AllocationSafe after ↔ ∀ cluster, ¬ vol.Free cluster := by
  refine ⟨fun hs cluster hfree => h (hs.scan cluster hfree), fun hnone => ⟨fun cluster hfree => ?_,
    fun _ hr => absurd hr h, fun _ hfree => ?_, fun _ hr => absurd hr h⟩⟩
  · exact absurd hfree (hnone cluster)
  · exact absurd hfree (hnone after)

lemma allocationSafe_of_lowest (h : vol.Lowest cluster) :
    vol.AllocationSafe after ↔
      (2 ≤ after → cluster ≠ after ∧ vol.Holds after ∧ cluster < vol.endOfChain) := by
  constructor
  · intro hs h2
    refine ⟨?_, hs.holds h2 h.reachable, ?_⟩
    · rintro rfl
      obtain ⟨other, hlt, hfree⟩ := hs.other h2 h.free
      exact h.least other hlt hfree
    · obtain ⟨other, hlt, hfree⟩ := hs.below h2 h.reachable
      exact (h.le hfree).trans_lt hlt
  · intro hcond
    refine ⟨fun _ _ => h.reachable, fun h2 _ => (hcond h2).2.1, fun h2 hfree => ?_,
      fun h2 _ => ⟨cluster, (hcond h2).2.2, h.free⟩⟩
    exact ⟨cluster, lt_of_le_of_ne (h.le hfree) (hcond h2).1, h.free⟩

end

/-- **An allocation** gives the lowest free cluster, ends its chain, chains it after the given
cluster and keeps the other entries, and refuses only without a free cluster, exactly if a free
cluster lies below the limit of the scan when there is one, and the cluster to chain after has
an entry in the FAT, is not the lowest free one itself, and some free cluster does not have the
number of an end mark. -/
theorem allocateCluster_meets_iff (vol : FatVolume) (after : ℕ) :
    vol.AllocationMeets after ↔ vol.AllocationSafe after := by
  by_cases hr : vol.Reachable
  · obtain ⟨cluster, hlowest, halloc⟩ := allocateCluster_of_reachable hr after
    rw [allocationMeets_of_lowest hlowest halloc, allocationSafe_of_lowest hlowest]
  · rw [allocationMeets_of_none hr, allocationSafe_of_none hr]

/-! ### Mounted Volumes -/

section

variable {δ : Type} [Disk.DiskIo δ] {disk disk' : δ} {device offset after : ℕ}
  {geometry : DriveGeometry} {vol : FatVolume}

end

/-- A boot record of 512-byte sectors with 65536 clusters of one sector, and an empty FAT. -/
def wideDisk : Disk.Image where
  size := 512
  bytes := fun address => [(12, 2), (13, 1), (14, 1), (16, 1), (17, 16), (22, 1), (32, 3),
    (34, 1)].lookup address |>.getD 0
  reads := 0

def wideGeometry : DriveGeometry where
  bpbSource := .bootRecord
  defaultBpb := FmTowns.floppyBpb
  bpb := FmTowns.floppyBpb

/-- On a volume of 65536 clusters, all of them free, an allocation finds none. -/
theorem allocateCluster_misses_free :
    ∃ vol disk', mount 0x80 0 wideGeometry wideDisk = some (.ok vol, disk') ∧
      vol.dataClusterCount = 65536 ∧ vol.Free 2 ∧ vol.allocateCluster 0 = none ∧
      ¬ vol.AllocationMeets 0 := by
  have hrun : Fallible.passes (fun vol => vol.dataClusterCount == 65536 && vol.isDataCluster 2 &&
      vol.readFatEntry 2 == 0 && (vol.allocateCluster 0).isNone)
      (mount 0x80 0 wideGeometry wideDisk) = true := by decide +kernel
  obtain ⟨vol, disk', hmount, hvolume⟩ := Fallible.passes_iff.mp hrun
  simp only [Bool.and_eq_true, beq_iff_eq, Option.isNone_iff_eq_none] at hvolume
  obtain ⟨⟨⟨hcount, hdata⟩, hzero⟩, halloc⟩ := hvolume
  have hfree : vol.Free 2 := ⟨by norm_num, hdata, hzero⟩
  refine ⟨vol, disk', hmount, hcount, hfree, halloc, fun hmeets => ?_⟩
  unfold AllocationMeets at hmeets
  rw [halloc] at hmeets
  exact hmeets 2 hfree

end Neetan.Fat.FatVolume
