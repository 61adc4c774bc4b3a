import Neetan.AntitoneRuns
import Neetan.DiskFormat
import Mathlib.Order.Interval.Finset.Nat

/-!
The loop that solves for the size of the FAT.

More FAT sectors leave fewer clusters, which need fewer FAT sectors: the loop applies an antitone
function to its own result. Clusters are so large and entries so small that sizes which lead to each
other are neighbours.
-/

namespace Neetan.DiskFormat

open AntitoneRuns

/-! ### Rounding Up -/

lemma divCeil_mono {a b c : ℕ} (h : a ≤ b) : divCeil a c ≤ divCeil b c :=
  Nat.div_le_div_right (by omega)

lemma le_divCeil_mul {a b : ℕ} (hb : 0 < b) : a ≤ divCeil a b * b := by
  have hmod := Nat.mod_lt (a + b - 1) hb
  have hdiv := Nat.div_add_mod' (a + b - 1) b
  unfold divCeil
  omega

lemma divCeil_mul_lt {a b : ℕ} (hb : 0 < b) : divCeil a b * b < a + b := by
  have hdiv := Nat.div_add_mod' (a + b - 1) b
  unfold divCeil
  omega

lemma divCeil_pos {a b : ℕ} (ha : 0 < a) (hb : 0 < b) : 0 < divCeil a b :=
  Nat.div_pos (by omega) hb

lemma fatBytes_bounds (clusterCount : ℕ) (isFat16 : Bool) :
    3 * (clusterCount + 2) ≤ 2 * fatBytes clusterCount isFat16 ∧
      fatBytes clusterCount isFat16 ≤ 2 * (clusterCount + 2) := by
  have hlow := @le_divCeil_mul ((clusterCount + 2) * 3) 2 (by omega)
  have hup := @divCeil_mul_lt ((clusterCount + 2) * 3) 2 (by omega)
  cases isFat16
  · change 3 * (clusterCount + 2) ≤ 2 * divCeil _ 2 ∧ divCeil _ 2 ≤ _
    omega
  · change 3 * (clusterCount + 2) ≤ 2 * ((clusterCount + 2) * 2) ∧ (clusterCount + 2) * 2 ≤ _
    omega

lemma fatBytes_mono_le {a b : ℕ} (h : a ≤ b) (isFat16 : Bool) :
    fatBytes a isFat16 ≤ fatBytes b isFat16 ∧
      fatBytes b isFat16 ≤ fatBytes a isFat16 + 2 * (b - a) := by
  cases isFat16
  · have ha := @divCeil_mul_lt ((a + 2) * 3) 2 (by omega)
    have ha' := @le_divCeil_mul ((a + 2) * 3) 2 (by omega)
    have hb := @divCeil_mul_lt ((b + 2) * 3) 2 (by omega)
    have hb' := @le_divCeil_mul ((b + 2) * 3) 2 (by omega)
    change divCeil _ 2 ≤ divCeil _ 2 ∧ divCeil _ 2 ≤ divCeil _ 2 + _
    omega
  · change (a + 2) * 2 ≤ (b + 2) * 2 ∧ (b + 2) * 2 ≤ (a + 2) * 2 + _
    omega

lemma fatSectors_mono {a b : ℕ} (h : a ≤ b) (bytesPerSector : ℕ) (isFat16 : Bool) :
    fatSectors a bytesPerSector isFat16 ≤ fatSectors b bytesPerSector isFat16 :=
  divCeil_mono (fatBytes_mono_le h isFat16).1

lemma fatSectors_pos {bytesPerSector : ℕ} (hb : 0 < bytesPerSector) (clusterCount : ℕ)
    (isFat16 : Bool) : 0 < fatSectors clusterCount bytesPerSector isFat16 := by
  have := fatBytes_bounds clusterCount isFat16
  exact divCeil_pos (by omega) hb

lemma fatSectors_le (clusterCount bytesPerSector : ℕ) (isFat16 : Bool) :
    fatSectors clusterCount bytesPerSector isFat16 ≤
      fatSectors clusterCount bytesPerSector true :=
  divCeil_mono ((fatBytes_bounds clusterCount isFat16).2.trans (Nat.mul_comm _ _).le)

namespace FatLayout

variable {layout : FatLayout}

/-! ### The Step of the Loop -/

lemma clusterCount_antitone : Antitone layout.clusterCount := fun n m h => by
  have hmul : layout.numFats * n ≤ layout.numFats * m := Nat.mul_le_mul_left _ h
  refine Nat.div_le_div_right ?_
  unfold systemSectors
  omega

/-- The largest size that can be needed is a number of 16 bits. -/
def Untruncated (layout : FatLayout) : Prop :=
  fatSectors (layout.partitionSectors / layout.sectorsPerCluster) layout.bytesPerSector
    layout.isFat16 < 2 ^ 16

lemma needed_eq (h : layout.Untruncated) (n : ℕ) :
    layout.needed n = fatSectors (layout.clusterCount n) layout.bytesPerSector layout.isFat16 := by
  have hle : layout.clusterCount n ≤ layout.partitionSectors / layout.sectorsPerCluster :=
    Nat.div_le_div_right (Nat.sub_le _ _)
  exact Nat.mod_eq_of_lt ((fatSectors_mono hle _ _).trans_lt h)

lemma needed_antitone (h : layout.Untruncated) : Antitone layout.needed := fun n m hle => by
  rw [needed_eq h, needed_eq h]
  exact fatSectors_mono (clusterCount_antitone hle) _ _

lemma solveLoop_eq (fuel n : ℕ) :
    layout.solveLoop fuel n =
      (settle layout.needed fuel n).map fun n => (layout.clusterCount n, n) := by
  induction fuel generalizing n with
  | zero => rfl
  | succ fuel ih =>
    rw [solveLoop, settle]
    split_ifs with hfix
    · rfl
    · exact ih _

lemma solve_some {fuel clusters sectorsPerFat : ℕ}
    (h : layout.solveHddFatLayout fuel = some (clusters, sectorsPerFat)) :
    layout.needed sectorsPerFat = sectorsPerFat ∧ clusters = layout.clusterCount sectorsPerFat := by
  unfold solveHddFatLayout at h
  split_ifs at h with hzero
  rw [solveLoop_eq] at h
  obtain ⟨n, hsettle, hpair⟩ := Option.map_eq_some_iff.1 h
  obtain ⟨rfl, rfl⟩ := Prod.mk.inj hpair
  exact ⟨fixed_of_settle hsettle, rfl⟩

lemma solve_mono {fuel fuel' : ℕ} {result : ℕ × ℕ} (h : layout.solveHddFatLayout fuel = some result)
    (hle : fuel ≤ fuel') : layout.solveHddFatLayout fuel' = some result := by
  unfold solveHddFatLayout at h ⊢
  split_ifs at h ⊢ with hzero
  rw [solveLoop_eq] at h ⊢
  obtain ⟨n, hsettle, hpair⟩ := Option.map_eq_some_iff.1 h
  exact Option.map_eq_some_iff.2 ⟨n, settle_mono hsettle hle, hpair⟩

/-- The solver returns. -/
def Solves (layout : FatLayout) : Prop := ∃ fuel result, layout.solveHddFatLayout fuel = some result

/-- A size is one too small for the clusters that it leaves, and the next one is one larger than its
own clusters need. -/
def Crosses (layout : FatLayout) (n : ℕ) : Prop :=
  layout.needed n = n + 1 ∧ layout.needed (n + 1) = n

lemma clusters_lost {data lost size : ℕ} (hsize : 4 ≤ size) :
    4 * (data / size) ≤ 4 * ((data - lost) / size) + lost + 3 := by
  have hpos : 0 < size := by omega
  obtain hle | hlt := Nat.le_total (data / size) ((data - lost) / size)
  · omega
  -- all but one of the clusters lost are whole
  obtain ⟨k, hk⟩ := Nat.exists_eq_add_of_le hlt
  obtain rfl | hone := Nat.eq_zero_or_pos k
  · omega
  have hdata := Nat.div_mul_le_self data size
  have hrest := Nat.lt_div_mul_add (a := data - lost) hpos
  rw [hk, Nat.add_mul] at hdata
  have hwhole : 4 * (k - 1) ≤ (k - 1) * size := by
    rw [Nat.mul_comm]
    exact Nat.mul_le_mul_left _ hsize
  have hsplit : k * size = (k - 1) * size + size := by
    conv_lhs => rw [← Nat.sub_add_cancel hone, Nat.succ_mul]
  omega

lemma alternate_neighbours (h : layout.Untruncated) (hfats : layout.numFats = 2)
    (hcluster : 4 ≤ layout.sectorsPerCluster) (hsector : 3 ≤ layout.bytesPerSector) {a b : ℕ}
    (hlt : a < b) (ha : layout.needed a = b) (hb : layout.needed b = a) : b = a + 1 := by
  rw [needed_eq h] at ha hb
  have hpos : 0 < layout.bytesPerSector := by omega
  have hclusters : 4 * layout.clusterCount a ≤ 4 * layout.clusterCount b + 2 * (b - a) + 3 := by
    have hlost := @clusters_lost (layout.partitionSectors - layout.systemSectors a) (2 * (b - a))
      layout.sectorsPerCluster hcluster
    have hsystem : layout.partitionSectors - layout.systemSectors a - 2 * (b - a) =
        layout.partitionSectors - layout.systemSectors b := by
      unfold systemSectors
      rw [hfats]
      omega
    rwa [hsystem] at hlost
  -- the sectors are those of the bytes, and there are at most two bytes for each cluster
  have hmore : layout.clusterCount b ≤ layout.clusterCount a := clusterCount_antitone hlt.le
  have hbytes := (fatBytes_mono_le hmore layout.isFat16).2
  have hx := @le_divCeil_mul (fatBytes (layout.clusterCount b) layout.isFat16) _ hpos
  have hy := @divCeil_mul_lt (fatBytes (layout.clusterCount a) layout.isFat16) _ hpos
  change divCeil _ _ = _ at ha hb
  rw [ha] at hy
  rw [hb] at hx
  obtain ⟨d, rfl⟩ := Nat.exists_eq_add_of_lt hlt
  have hmul : (a + d + 1) * layout.bytesPerSector =
      a * layout.bytesPerSector + d * layout.bytesPerSector + layout.bytesPerSector := by ring
  have hthree : d * 3 ≤ d * layout.bytesPerSector := Nat.mul_le_mul_left _ hsector
  omega

/-- The solver returns exactly if no size is one too small for its clusters while the next one is
too large for its own. -/
lemma solves_iff (h : layout.Untruncated) (hfats : layout.numFats = 2)
    (hcluster : 4 ≤ layout.sectorsPerCluster) (hsector : 3 ≤ layout.bytesPerSector) :
    layout.Solves ↔ ∀ n, ¬ layout.Crosses n := by
  have hsettles : layout.Solves ↔ Settles layout.needed 1 := by
    have hzero : ¬ (layout.bytesPerSector = 0 ∨ layout.sectorsPerCluster = 0) := by omega
    unfold Solves solveHddFatLayout Settles
    simp only [if_neg hzero, solveLoop_eq, Option.map_eq_some_iff]
    exact ⟨fun ⟨fuel, _, n, hn, _⟩ => ⟨fuel, n, hn⟩, fun ⟨fuel, n, hn⟩ => ⟨fuel, _, n, hn, rfl⟩⟩
  have hfirst (n : ℕ) : 1 ≤ layout.needed n := by
    rw [needed_eq h]
    exact fatSectors_pos (by omega) _ _
  rw [hsettles, settles_iff (needed_antitone h) hfirst]
  constructor
  · rintro hall n ⟨hup, hdown⟩
    exact hall n (n + 1) ⟨by omega, hup, hdown⟩
  · rintro hall a b ⟨hne, ha, hb⟩
    obtain hlt | hlt := Nat.lt_or_gt_of_ne hne
    · obtain rfl := alternate_neighbours h hfats hcluster hsector hlt ha hb
      exact hall a ⟨ha, hb⟩
    · obtain rfl := alternate_neighbours h hfats hcluster hsector hlt hb ha
      exact hall b ⟨hb, ha⟩

end FatLayout

/-! ### The Parameters of a Partition -/

lemma four_le_sectorsPerClusterFor (sectorSize partitionSectors : ℕ) :
    4 ≤ sectorsPerClusterFor sectorSize partitionSectors := by
  unfold sectorsPerClusterFor
  dsimp only
  split_ifs <;> decide

section

variable {sectorSize partitionSectors : ℕ}

/-- The FATs of the partition have sizes of 16 bits. -/
def FatFits (sectorSize partitionSectors : ℕ) : Prop :=
  (hddLayout sectorSize partitionSectors true).Untruncated

lemma FatFits.untruncated (h : FatFits sectorSize partitionSectors) (isFat16 : Bool) :
    (hddLayout sectorSize partitionSectors isFat16).Untruncated :=
  (fatSectors_le _ _ _).trans_lt h

lemma hddLayout_solves_iff (h : FatFits sectorSize partitionSectors) (hsector : 3 ≤ sectorSize)
    (isFat16 : Bool) :
    (hddLayout sectorSize partitionSectors isFat16).Solves ↔
      ∀ n, ¬ (hddLayout sectorSize partitionSectors isFat16).Crosses n :=
  FatLayout.solves_iff (h.untruncated isFat16) rfl (four_le_sectorsPerClusterFor _ _) hsector

lemma hddBpbParams_some {fuel : ℕ} {bpb : BpbParams}
    (h : hddBpbParams fuel sectorSize partitionSectors = some bpb) :
    ∃ n wide, bpb = hddParams sectorSize partitionSectors n wide ∧
      (hddLayout sectorSize partitionSectors wide).needed n = n ∧
      (wide = false → (hddLayout sectorSize partitionSectors wide).clusterCount n < 4085) := by
  obtain ⟨⟨clusters, sectors⟩, hfat12, h⟩ := Option.bind_eq_some_iff.1 h
  dsimp only at h
  split_ifs at h with hmany
  · obtain ⟨⟨_, sectors16⟩, hfat16, h⟩ := Option.bind_eq_some_iff.1 h
    exact ⟨_, true, (Option.some.inj h).symm, (FatLayout.solve_some hfat16).1, by simp⟩
  · obtain ⟨hneeded, rfl⟩ := FatLayout.solve_some hfat12
    exact ⟨_, false, (Option.some.inj h).symm, hneeded, fun _ => Nat.lt_of_not_le hmany⟩

/-- A size of FAT12 that settles, with clusters for FAT16. -/
def WantsFat16 (sectorSize partitionSectors : ℕ) : Prop :=
  ∃ n, (hddLayout sectorSize partitionSectors false).needed n = n ∧
    4085 ≤ (hddLayout sectorSize partitionSectors false).clusterCount n

/-- **The parameters of a partition are found** exactly if no size of the FAT is one too small for
the clusters that it leaves while the next size is one too large, for FAT12, and for FAT16 where
FAT12 settles with too many clusters. -/
theorem hddBpbParams_returns_iff (hfits : FatFits sectorSize partitionSectors)
    (hsector : 3 ≤ sectorSize) :
    (∃ fuel bpb, hddBpbParams fuel sectorSize partitionSectors = some bpb) ↔
      (∀ n, ¬ (hddLayout sectorSize partitionSectors false).Crosses n) ∧
        (WantsFat16 sectorSize partitionSectors →
          ∀ n, ¬ (hddLayout sectorSize partitionSectors true).Crosses n) := by
  rw [← hddLayout_solves_iff hfits hsector, ← hddLayout_solves_iff hfits hsector]
  constructor
  · rintro ⟨fuel, bpb, h⟩
    obtain ⟨⟨clusters, sectors⟩, hfat12, h⟩ := Option.bind_eq_some_iff.1 h
    refine ⟨⟨fuel, _, hfat12⟩, fun ⟨n, hfix, hmany⟩ => ?_⟩
    -- the size that settles is the one that was found
    obtain ⟨hfound, hclusters⟩ := FatLayout.solve_some hfat12
    obtain rfl := fixed_unique (FatLayout.needed_antitone (hfits.untruncated false)) hfix hfound
    dsimp only at h
    rw [if_pos (hclusters ▸ hmany)] at h
    obtain ⟨result, hfat16, -⟩ := Option.bind_eq_some_iff.1 h
    exact ⟨fuel, result, hfat16⟩
  · rintro ⟨⟨fuel, ⟨clusters, sectors⟩, hfat12⟩, hwants⟩
    obtain ⟨hfound, hclusters⟩ := FatLayout.solve_some hfat12
    by_cases hmany : clusters ≥ 4085
    · obtain ⟨fuel', ⟨clusters', sectors'⟩, hfat16⟩ := hwants ⟨sectors, hfound, hclusters ▸ hmany⟩
      refine ⟨max fuel fuel', hddParams sectorSize partitionSectors sectors' true, ?_⟩
      unfold hddBpbParams
      rw [FatLayout.solve_mono hfat12 (Nat.le_max_left _ _),
        FatLayout.solve_mono hfat16 (Nat.le_max_right _ _)]
      exact if_pos hmany
    · refine ⟨fuel, hddParams sectorSize partitionSectors sectors false, ?_⟩
      unfold hddBpbParams
      rw [hfat12]
      exact if_neg hmany

/-- On 1419 sectors of 256 bytes one FAT sector leaves 169 clusters, which need two sectors, and two
leave 168 clusters, which need one. -/
theorem hddBpbParams_1419 :
    ¬ ∃ fuel bpb, hddBpbParams fuel 256 1419 = some bpb := fun h =>
  ((hddBpbParams_returns_iff (by unfold FatFits FatLayout.Untruncated; decide) (by decide)).1 h).1 1
    ⟨by decide, by decide⟩

end

end Neetan.DiskFormat
