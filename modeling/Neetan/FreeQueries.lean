import Neetan.PoolGrid
import Mathlib.Algebra.BigOperators.Ring.List

/-!
What the memory manager reports as free.

The queries add up rounded parts of the free regions, and an allocation searches the regions for
one that holds the request. All regions start on a grid, so the two agree: the reported amount
can be allocated, and nothing more.
-/

namespace Neetan.Ems

open Neetan.MachineInt Neetan.BestFit Neetan.Tiling Neetan.EmulatedMemory MemoryAccess
open MemoryManager

/-! ### Queries -/

/-- The whole 4 KB pages of a free region, in KB. -/
def xmsUsableRegionKb (offset size : ℕ) : ℕ :=
  let start := alignUpTo offset pageSize4k
  let stop := min (offset + size) (2 ^ 32 - 1)
  if start ≥ stop then 0 else (stop - start) / pageSize4k * (pageSize4k / 1024)

namespace MemoryManager

def xmsRegionsKb (self : MemoryManager) : List ℕ :=
  self.allocator.freeByOffset.entries.map fun (offset, region) =>
    xmsUsableRegionKb offset region.size

def xmsLargestFreeKb (self : MemoryManager) : ℕ := self.xmsRegionsKb.max?.getD 0

def xmsTotalFreeKb (self : MemoryManager) : ℕ := self.xmsRegionsKb.foldl (wrappingAdd 32) 0

/-- The largest block and the sum of all, as `u16` values. -/
def xmsQueryFree (self : MemoryManager) : ℕ × ℕ :=
  (min self.xmsLargestFreeKb 0xFFFF, min self.xmsTotalFreeKb 0xFFFF)

def xmsQueryFree32 (self : MemoryManager) : ℕ × ℕ := (self.xmsLargestFreeKb, self.xmsTotalFreeKb)

end MemoryManager

variable {step : ℕ} {m : MemoryManager} {s : BestFitAllocator} {r : Region}

/-! ### XMS Blocks -/

lemma alignUpTo_eq {k v : ℕ} (h : v + (2 ^ k - 1) < 2 ^ 32) :
    alignUpTo v (2 ^ k) = roundUp (2 ^ k) v := by
  have hpos := Nat.two_pow_pos k
  have hk : k ≤ 32 := (Nat.pow_le_pow_iff_right (by norm_num : 1 < 2)).mp (by omega)
  have hsum : wrappingSub 32 (wrappingAdd 32 v (2 ^ k)) 1 = v + (2 ^ k - 1) := by
    generalize 2 ^ k = step at h hpos
    simp only [wrappingSub, wrappingAdd]
    omega
  unfold alignUpTo
  rw [hsum, land_complement hk h]
  rfl

/-- A region on the 4 KB grid is usable but for the end that is no whole page. -/
lemma xmsUsableRegionKb_eq {offset size : ℕ} (hdvd : pageSize4k ∣ offset)
    (hlt : offset + size < 2 ^ 32) : xmsUsableRegionKb offset size = size / 4096 * 4 := by
  have hbound : offset + (2 ^ 12 - 1) < 2 ^ 32 := by
    obtain ⟨c, hc⟩ := hdvd
    simp only [pageSize4k] at hc
    omega
  have hstart : alignUpTo offset pageSize4k = offset :=
    (alignUpTo_eq hbound).trans (roundUp_of_dvd hdvd)
  unfold xmsUsableRegionKb
  rw [hstart]
  simp only [pageSize4k]
  split_ifs <;> omega

lemma xmsLargestFreeKb_spec (h : Gridded step m.allocator) (hdvd : pageSize4k ∣ step) :
    (∀ r ∈ freeRegions m.allocator, r.size / 4096 * 4 ≤ m.xmsLargestFreeKb) ∧
      (m.xmsLargestFreeKb = 0 ∨
        ∃ r ∈ freeRegions m.allocator, r.size / 4096 * 4 = m.xmsLargestFreeKb) := by
  have hregions : m.xmsRegionsKb = (freeRegions m.allocator).map fun r => r.size / 4096 * 4 := by
    unfold xmsRegionsKb freeRegions
    rw [List.map_map]
    refine List.map_congr_left fun e he => ?_
    have hmem := mem_freeRegions.mpr he
    have hend : e.1 + e.2.size ≤ m.allocator.size := h.settled.1.free_end_le hmem
    exact xmsUsableRegionKb_eq (hdvd.trans (h.free_dvd hmem)) (hend.trans_lt h.settled.1.size_lt)
  unfold xmsLargestFreeKb
  rw [hregions]
  cases hmax : ((freeRegions m.allocator).map fun r => r.size / 4096 * 4).max? with
  | none =>
    rw [List.max?_eq_none_iff, List.map_eq_nil_iff] at hmax
    rw [hmax]
    exact ⟨fun r hr => absurd hr List.not_mem_nil, Or.inl rfl⟩
  | some largest =>
    obtain ⟨hmem, hle⟩ := List.max?_eq_some_iff.mp hmax
    exact ⟨fun r hr => hle _ (List.mem_map_of_mem hr), Or.inr (List.mem_map.mp hmem)⟩

/-- An allocation of whole pages fails only for want of a region of the size. -/
lemma allocate4k_room (h : Gridded step s) (hdvd : pageSize4k ∣ step) {size : ℕ}
    (hsize : pageSize4k ∣ size) (hpos : 0 < size) (hlt : size < 2 ^ 32) :
    ∃ result s', s.allocateAligned size pageSize4k = some (result, s') ∧
      (result = none → s' = s ∧ ∀ r ∈ freeRegions s, r.size < size) ∧
      ∀ a, result = some a → ∃ r ∈ freeRegions s, size ≤ r.size := by
  have hle := Nat.le_of_dvd hpos hsize
  have hround : ∀ r ∈ freeRegions s, roundUp (2 ^ 12) r.offset = r.offset := fun r hr =>
    roundUp_of_dvd (hdvd.trans (h.free_dvd hr))
  obtain ⟨result, s', hs', hnone, hsome⟩ := allocateAligned_clear h.settled size 12
    (Dvd.dvd.trans (by decide) hsize) (le_trans (by decide) hle) hlt (by norm_num) fun r hr => by
      obtain ⟨c, hc⟩ := hdvd.trans (h.free_dvd hr)
      have hend := h.settled.1.free_end_le hr
      have hshape := (h.settled.1.free_shaped hr).pos
      have hbound := h.settled.1.size_lt
      refine ⟨?_, Or.inl (hround r hr), by rw [hround r hr]; omega⟩
      simp only [pageSize4k] at hc
      omega
  refine ⟨result, s', hs', fun hr => ⟨(hnone hr).1, fun r hmem => ?_⟩, fun a ha => ?_⟩
  · have := (hnone hr).2 r hmem
    rw [hround r hmem] at this
    omega
  · obtain ⟨-, r, hmem, hfits, -⟩ := hsome a ha
    rw [hround r hmem] at hfits
    exact ⟨r, hmem, by omega⟩

/-- The call gives a handle back. -/
def Succeeds (result : Run (Except ℕ ℕ × MemoryManager)) : Prop :=
  ∃ handle m', result = some (.ok handle, m')

/-- The call fails, and leaves the manager as it was. -/
def Fails (m : MemoryManager) (result : Run (Except ℕ ℕ × MemoryManager)) : Prop :=
  ∃ code, result = some (.error code, m)

lemma xmsAllocateBytes_room (h : Gridded step m.allocator) (hdvd : pageSize4k ∣ step) (i : ℕ)
    {sizeKb : ℕ} (hlt : sizeKb < 2 ^ 32) :
    (sizeKb ≤ m.xmsLargestFreeKb → Succeeds (m.xmsAllocateBytes i (sizeKb * 1024) sizeKb)) ∧
      (m.xmsLargestFreeKb < sizeKb → Fails m (m.xmsAllocateBytes i (sizeKb * 1024) sizeKb)) := by
  obtain ⟨hlargest, hsome⟩ := xmsLargestFreeKb_spec h hdvd
  have hbounds : ∀ r ∈ freeRegions m.allocator, r.size < 2 ^ 32 := fun r hr => by
    have := h.settled.1.free_end_le hr
    have := h.settled.1.size_lt
    omega
  have hround : roundUp pageSize4k (sizeKb * 1024) = (sizeKb * 1024 + 4095) / 4096 * 4096 := rfl
  unfold xmsAllocateBytes
  rw [pageAlignedAllocationSize_eq (by omega), hround]
  rcases Nat.eq_zero_or_pos sizeKb with rfl | hpos
  · exact ⟨fun _ => ⟨_, _, rfl⟩, fun hc => absurd hc (Nat.not_lt_zero _)⟩
  -- a size that is not above the largest has a region, and fits a `u32` for that
  by_cases hfits : (sizeKb * 1024 + 4095) / 4096 * 4096 < 2 ^ 32
  swap
  · rw [if_neg hfits]
    refine ⟨fun hle => absurd hle ?_, fun _ => ⟨_, rfl⟩⟩
    rcases hsome with hzero | ⟨r, hr, hsize⟩
    · omega
    · have := hbounds r hr
      omega
  rw [if_pos hfits]
  have hwhole : pageSize4k ∣ (sizeKb * 1024 + 4095) / 4096 * 4096 := Dvd.intro_left _ rfl
  obtain ⟨result, s', hs', hnone, hfound⟩ := allocate4k_room h hdvd hwhole (by omega) hfits
  dsimp only
  rw [if_neg (by omega), hs']
  cases result with
  | none =>
    obtain ⟨rfl, hsmall⟩ := hnone rfl
    refine ⟨fun hle => absurd hle ?_, fun _ => ⟨_, rfl⟩⟩
    rcases hsome with hzero | ⟨r, hr, hsize⟩
    · omega
    · have := hsmall r hr
      omega
  | some a =>
    refine ⟨fun _ => ⟨_, _, rfl⟩, fun hc => ?_⟩
    obtain ⟨r, hr, hle⟩ := hfound a rfl
    have := hlargest r hr
    omega

/-! ### EMS Pages -/

/-- The whole pages of a region. -/
def pagesIn (r : Region) : ℕ := (r.offset + r.size - roundUp (2 ^ 14) r.offset) / 2 ^ 14

def pagesFree (s : BestFitAllocator) : ℕ := ((freeRegions s).map pagesIn).sum

lemma foldl_wrappingAdd (l : List ℕ) (acc : ℕ) (h : acc + l.sum < 2 ^ 32) :
    l.foldl (wrappingAdd 32) acc = acc + l.sum := by
  induction l generalizing acc with
  | nil => rfl
  | cons x l ih =>
    rw [List.sum_cons] at h
    rw [List.foldl_cons, wrappingAdd_of_lt (by omega), ih _ (by omega), List.sum_cons, Nat.add_assoc]

section Pages

variable (hdvd : pageSize4k ∣ step) (haligns : step = emsPageSize ∨ s.size + emsPageSize ≤ 2 ^ 32)
include hdvd haligns

lemma clear_page (h : Gridded step s) (hr : r ∈ freeRegions s) :
    Clear 14 emsPageSize r.offset := by
  have hpage : emsPageSize = 2 ^ 14 := rfl
  have hsmall : r.offset % 2 ^ 12 = 0 := Nat.mod_eq_zero_of_dvd (hdvd.trans (h.free_dvd hr))
  have hend := h.settled.1.free_end_le hr
  have hsize := h.settled.1.size_lt
  have hpos := (h.settled.1.free_shaped hr).pos
  have hbound : r.offset + (2 ^ 14 - 1) < 2 ^ 32 := by
    rcases haligns with hstep | hle
    · have hmod : r.offset % 2 ^ 14 = 0 := by
        rw [← hpage, ← hstep]
        exact Nat.mod_eq_zero_of_dvd (h.free_dvd hr)
      omega
    · omega
  refine ⟨hbound, ?_, ?_⟩
  · simp only [roundUp]
    omega
  · have := roundUp_bounds 14 r.offset
    rw [hpage]
    omega

omit hdvd haligns in
lemma pagesIn_le (r : Region) : pagesIn r * 2 ^ 14 ≤ r.size := by
  have hround := (roundUp_bounds 14 r.offset).1
  calc pagesIn r * 2 ^ 14 ≤ r.offset + r.size - roundUp (2 ^ 14) r.offset := Nat.div_mul_le_self _ _
    _ ≤ r.size := by omega

omit hdvd haligns in
lemma pagesFree_le (h : Gridded step s) : pagesFree s * 2 ^ 14 ≤ s.size := by
  have hsum := h.settled.1.sum_le
  rw [List.map_nil, List.sum_nil, Nat.zero_add] at hsum
  calc pagesFree s * 2 ^ 14 = ((freeRegions s).map fun r => pagesIn r * 2 ^ 14).sum :=
        (List.sum_map_mul_right _ _ _).symm
    _ ≤ ((freeRegions s).map Region.size).sum := List.sum_le_sum fun r _ => pagesIn_le r
    _ ≤ s.size := hsum

omit hdvd haligns in
lemma pagesIn_eq_zero (h : r.offset + r.size < roundUp (2 ^ 14) r.offset + 2 ^ 14) :
    pagesIn r = 0 := by
  unfold pagesIn
  omega

omit hdvd haligns in
/-- What is left before the first page of a region holds none, what is left behind it one less
than the region. -/
lemma pagesIn_remains (h : roundUp (2 ^ 14) r.offset + 2 ^ 14 ≤ r.offset + r.size) :
    ((remains (2 ^ 14) r.offset r.size (roundUp (2 ^ 14) r.offset)).map pagesIn).sum + 1 =
      pagesIn r := by
  have hup := roundUp_bounds 14 r.offset
  have hdvd : 2 ^ 14 ∣ roundUp (2 ^ 14) r.offset + 2 ^ 14 :=
    Nat.dvd_add (Dvd.intro_left _ rfl) (dvd_refl _)
  have hlead : (List.map pagesIn (if r.offset < roundUp (2 ^ 14) r.offset then
      [⟨r.offset, roundUp (2 ^ 14) r.offset - r.offset⟩] else [])).sum = 0 := by
    split_ifs
    · rw [List.map_singleton, List.sum_singleton, pagesIn, Nat.add_sub_cancel' hup.1, Nat.sub_self,
        Nat.zero_div]
    · rfl
  have htrail : (List.map pagesIn (if r.offset + r.size - (roundUp (2 ^ 14) r.offset + 2 ^ 14) ≥ 16
      then [⟨roundUp (2 ^ 14) r.offset + 2 ^ 14,
        r.offset + r.size - (roundUp (2 ^ 14) r.offset + 2 ^ 14)⟩] else [])).sum =
      (r.offset + r.size - (roundUp (2 ^ 14) r.offset + 2 ^ 14)) / 2 ^ 14 := by
    split_ifs
    · rw [List.map_singleton, List.sum_singleton, pagesIn, roundUp_of_dvd hdvd,
        Nat.add_sub_cancel_left]
    · rw [List.map_nil, List.sum_nil, Nat.div_eq_of_lt (by omega)]
  have hsub : r.offset + r.size - roundUp (2 ^ 14) r.offset =
      r.offset + r.size - (roundUp (2 ^ 14) r.offset + 2 ^ 14) + 2 ^ 14 := by omega
  rw [remains, List.map_append, List.sum_append, hlead, htrail, Nat.zero_add, pagesIn, hsub,
    Nat.add_div_right _ (Nat.two_pow_pos 14)]

/-- A page can be had as long as some region has a whole one, and takes one of these. -/
lemma allocatePage_room (h : Gridded step s) :
    ∃ result s', s.allocateAligned emsAllocationSize emsPageSize = some (result, s') ∧
      (result = none → pagesFree s = 0) ∧
      ∀ a, result = some a → pagesFree s' + 1 = pagesFree s := by
  have hpage : emsPageSize = 2 ^ 14 := rfl
  have hclear : ∀ r ∈ freeRegions s, Clear 14 (2 ^ 14) r.offset := fun r hr =>
    hpage ▸ clear_page hdvd haligns h hr
  rw [emsAllocationSize_eq, hpage]
  obtain ⟨result, s', hs', hnone, hsome⟩ := allocateAligned_clear
    h.settled (2 ^ 14) 14 (by decide) (by decide) (by decide) (by norm_num) hclear
  refine ⟨result, s', hs', fun hr => ?_, fun a ha => ?_⟩
  · refine List.sum_eq_zero fun n hn => ?_
    obtain ⟨r, hmem, rfl⟩ := List.mem_map.mp hn
    exact pagesIn_eq_zero ((hnone hr).2 r hmem)
  · obtain ⟨-, r, -, hfits, rest, hbefore, hafter⟩ := hsome a ha
    unfold pagesFree
    rw [(hafter.map pagesIn).sum_eq, (hbefore.map pagesIn).sum_eq, List.map_append,
      List.sum_append, List.map_cons, List.sum_cons, ← pagesIn_remains hfits]
    omega

end Pages

lemma freeEmsPages_eq (h : Tidy step m) (hdvd : pageSize4k ∣ step) :
    m.freeEmsPages = min (pagesFree m.allocator) (2 ^ 16 - 1) := by
  have hpages : m.allocator.freeByOffset.entries.map (fun (offset, region) =>
      let start := alignUpTo offset emsPageSize
      let stop := wrappingAdd 32 offset region.size
      if start ≥ stop then 0 else (stop - start) / emsPageSize) =
      (freeRegions m.allocator).map pagesIn := by
    unfold freeRegions
    rw [List.map_map]
    refine List.map_congr_left fun e he => ?_
    have hmem := mem_freeRegions.mpr he
    have hend : e.1 + e.2.size ≤ m.allocator.size := h.gridded.settled.1.free_end_le hmem
    have hsize := h.gridded.settled.1.size_lt
    have hstart : alignUpTo e.1 emsPageSize = roundUp (2 ^ 14) e.1 :=
      alignUpTo_eq (k := 14) (clear_page hdvd h.aligns h.gridded hmem).aligns
    dsimp only
    rw [hstart, wrappingAdd_of_lt (by omega)]
    rw [Function.comp_apply, pagesIn, show emsPageSize = 2 ^ 14 from rfl]
    split_ifs with hempty
    · have hnone : e.1 + e.2.size - roundUp (2 ^ 14) e.1 = 0 := Nat.sub_eq_zero_of_le hempty
      rw [hnone, Nat.zero_div]
    · rfl
  have hle := pagesFree_le h.gridded
  have hsize := h.gridded.settled.1.size_lt
  have hlt : 0 + pagesFree m.allocator < 2 ^ 32 := by
    generalize pagesFree m.allocator = pages at hle
    omega
  unfold freeEmsPages
  rw [hpages]
  exact congrArg (min · (2 ^ 16 - 1)) ((foldl_wrappingAdd _ 0 hlt).trans (Nat.zero_add _))

lemma allocatePageLoop_room (hfour : 4 ∣ step) (hpage : step ∣ emsPageSize)
    (hdvd : pageSize4k ∣ step) (n : ℕ) (pages : List Allocation) (h : Gridded step s)
    (haligns : step = emsPageSize ∨ s.size + emsPageSize ≤ 2 ^ 32) (hle : n ≤ pagesFree s) :
    ∃ pages' s', allocatePageLoop n s pages = some (some pages', s') := by
  induction n generalizing s pages with
  | zero => exact ⟨pages, s, rfl⟩
  | succ n ih =>
    obtain ⟨result, s₁, hs₁, hnone, hsome⟩ := allocatePage_room hdvd haligns h
    obtain ⟨result', s₁', hs₁', h₁, hsize₁⟩ := h.allocateAligned
      (step_dvd hpage) hfour emsAllocationSize 14 (emsAllocationSize_eq ▸ hpage) (by decide)
      (Or.inl hpage)
    obtain ⟨rfl, rfl⟩ := Prod.mk.inj (Option.some.inj (hs₁.symm.trans hs₁'))
    cases result with
    | none =>
      have := hnone rfl
      omega
    | some alloc =>
      have hless := hsome alloc rfl
      obtain ⟨pages', s₂, hs₂⟩ := ih (pages ++ [alloc]) h₁ (hsize₁ ▸ haligns) (by omega)
      exact ⟨pages', s₂, by simp [allocatePageLoop, hs₁, hs₂]⟩

/-! ### Agreement -/

/-- What the queries report can be allocated on a free handle, and nothing more. -/
structure QueriesAgree (m : MemoryManager) : Prop where
  xms : (∃ handle ∈ m.xmsHandles, handle.active = false) →
    Succeeds (m.xmsAllocate m.xmsQueryFree.1) ∧
      ∀ sizeKb < 2 ^ 16, m.xmsQueryFree.1 < sizeKb → Fails m (m.xmsAllocate sizeKb)
  xms32 : (∃ handle ∈ m.xmsHandles, handle.active = false) →
    Succeeds (m.xmsAllocate32 m.xmsQueryFree32.1) ∧
      ∀ sizeKb < 2 ^ 32, m.xmsQueryFree32.1 < sizeKb → Fails m (m.xmsAllocate32 sizeKb)
  ems : m.emsWindow.isSome = true → (∃ handle ∈ m.emsHandles.drop 1, handle.active = false) →
    ∀ count < 2 ^ 16, 1 ≤ count →
      (count ≤ m.emsUnallocatedPages.1 → Succeeds (m.emsAllocatePages count)) ∧
      (m.emsUnallocatedPages.1 < count → Fails m (m.emsAllocatePages count))

lemma findFreeXmsHandle_of_exists (h : ∃ handle ∈ m.xmsHandles, handle.active = false) :
    ∃ i, m.findFreeXmsHandle = some i := by
  obtain ⟨handle, hmem, hactive⟩ := h
  refine Option.isSome_iff_exists.mp ?_
  rw [findFreeXmsHandle, List.findIdx?_isSome]
  exact List.any_eq_true.mpr ⟨handle, hmem, by simp [hactive]⟩

lemma findFreeEmsHandle_of_exists (h : ∃ handle ∈ m.emsHandles.drop 1, handle.active = false) :
    ∃ i, m.findFreeEmsHandle = some i := by
  obtain ⟨handle, hmem, hactive⟩ := h
  refine Option.isSome_iff_exists.mp ?_
  rw [findFreeEmsHandle, Option.isSome_map, List.findIdx?_isSome]
  exact List.any_eq_true.mpr ⟨handle, hmem, by simp [hactive]⟩

lemma emsAllocatePages_room (h : Tidy step m) (hfour : 4 ∣ step) (hpage : step ∣ emsPageSize)
    (hdvd : pageSize4k ∣ step) (hfree : ∃ handle ∈ m.emsHandles.drop 1, handle.active = false)
    {count : ℕ} (hpos : 1 ≤ count) :
    (count ≤ m.emsUnallocatedPages.1 → Succeeds (m.emsAllocatePages count)) ∧
      (m.emsUnallocatedPages.1 < count → Fails m (m.emsAllocatePages count)) := by
  obtain ⟨i, hi⟩ := findFreeEmsHandle_of_exists hfree
  unfold emsAllocatePages emsAllocate
  rw [if_neg (by omega), hi]
  dsimp only
  constructor
  · intro hle
    have hreport : m.emsUnallocatedPages.1 ≤ m.totalEmsPages ∧
        m.emsUnallocatedPages.1 ≤ m.freeEmsPages := by
      unfold emsUnallocatedPages
      split_ifs
      · exact ⟨Nat.zero_le _, Nat.zero_le _⟩
      · exact ⟨min_le_right _ _, min_le_left _ _⟩
    have hpages := freeEmsPages_eq h hdvd
    rw [if_neg (by omega), if_neg (by omega)]
    obtain ⟨pages, s, hs⟩ := allocatePageLoop_room hfour hpage hdvd count [] h.gridded h.aligns
      (by omega)
    rw [hs]
    exact ⟨_, _, rfl⟩
  · intro hlt
    split_ifs
    · exact ⟨_, rfl⟩
    · exact ⟨_, rfl⟩

lemma Tidy.queriesAgree (h : Tidy step m) (hfour : 4 ∣ step) (hpage : step ∣ emsPageSize)
    (hdvd : pageSize4k ∣ step) : QueriesAgree m := by
  constructor
  · intro hfree
    obtain ⟨i, hi⟩ := findFreeXmsHandle_of_exists hfree
    simp only [xmsAllocate, hi, xmsQueryFree]
    refine ⟨?_, fun sizeKb hlt hlarge => ?_⟩
    · exact (xmsAllocateBytes_room h.gridded hdvd i (by omega)).1 (min_le_left _ _)
    · exact (xmsAllocateBytes_room h.gridded hdvd i (by omega)).2 (by omega)
  · intro hfree
    obtain ⟨i, hi⟩ := findFreeXmsHandle_of_exists hfree
    have hbytes : m.xmsLargestFreeKb * 1024 < 2 ^ 32 := by
      rcases (xmsLargestFreeKb_spec h.gridded hdvd).2 with hzero | ⟨r, hr, hsize⟩
      · omega
      · have hend := h.gridded.settled.1.free_end_le hr
        have hbound := h.gridded.settled.1.size_lt
        omega
    unfold xmsAllocate32 xmsQueryFree32
    rw [hi]
    refine ⟨?_, fun sizeKb hlt hlarge => ?_⟩
    · dsimp only
      rw [if_neg (by omega)]
      exact (xmsAllocateBytes_room h.gridded hdvd i (by omega)).1 le_rfl
    · dsimp only
      split_ifs
      · exact ⟨_, rfl⟩
      · exact (xmsAllocateBytes_room h.gridded hdvd i hlt).2 hlarge
  · exact fun _ hfree count _ hpos => emsAllocatePages_room h hfour hpage hdvd hfree hpos

variable {σ : Type} [MemoryAccess σ]

/-- **The free memory queries.** In every state that a new manager reaches through calls as
programs make them, with a free handle, the largest XMS block reported can be allocated and no
larger one, and each number of EMS pages up to the one reported and none above. -/
theorem free_queries_agree (extendedMemorySize : ℕ) (hsize : extendedMemorySize < 2 ^ 32)
    (emsWindow : Option EmsWindow) (xmsEnabled : Bool) (umbWindow : Option UmbWindow) (mem : σ) :
    ∃ m₀ mem₀, new extendedMemorySize emsWindow xmsEnabled umbWindow mem = some (m₀, mem₀) ∧
      ∀ calls, (∀ call ∈ calls, Issued xmsEnabled call) →
        ∃ m mem', run m₀ mem₀ calls = some (m, mem') ∧ QueriesAgree m := by
  obtain ⟨m₀, mem₀, hnew, h₀⟩ := new_tidy hsize emsWindow xmsEnabled umbWindow mem
  refine ⟨m₀, mem₀, hnew, fun calls hcalls => ?_⟩
  obtain ⟨m, mem', hrun, h⟩ := run_tidy h₀ mem₀ calls hcalls
  obtain ⟨hfour, hpage⟩ := gridStep_dvd xmsEnabled
  exact ⟨m, mem', hrun, h.queriesAgree hfour hpage (by cases xmsEnabled <;> decide)⟩

/-- A run that leaves a hole between an EMS page and an XMS block. -/
theorem free_queries_agree_small : ∃ m₀ mem₀,
    new 0x40000 (some ⟨0xC000⟩) true none Machine.new = some (m₀, mem₀) ∧
      ∃ m mem, run m₀ mem₀ [.xmsAllocate 5, .emsAllocatePages 2, .xmsAllocate32 9,
        .emsDeallocate 1, .xmsReallocate 1 3] = some (m, mem) ∧ QueriesAgree m := by
  obtain ⟨m₀, mem₀, hnew, hruns⟩ := free_queries_agree 0x40000 (by norm_num) (some ⟨0xC000⟩) true
    none Machine.new
  refine ⟨m₀, mem₀, hnew, hruns _ ?_⟩
  simp [Issued]

end Neetan.Ems
