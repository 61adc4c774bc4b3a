import Neetan.BestFitRun

/-!
The best-fit allocator on a grid.

While all requests are multiples of a grid's step and ask for multiples of it as alignment, every
region, free or active, starts on the grid. The search for a region then passes over none that
holds the request, so an allocation fails only where every free region is too small.
-/

namespace Neetan.BestFit

open Neetan.MachineInt Neetan.OrderedMap Neetan.Tiling
open BestFitAllocator (findCandidate)

/-- Every region starts at a multiple of the step. -/
structure OnGrid (step : ℕ) (s : BestFitAllocator) : Prop where
  free : ∀ e ∈ s.freeByOffset.entries, step ∣ e.1
  active : ∀ slot ∈ s.activeAllocations, ∀ active, slot.allocation = some active →
    step ∣ active.offset

/-- A pool between operations, with all regions on a grid whose steps hold a region. -/
structure Gridded (step : ℕ) (s : BestFitAllocator) : Prop where
  settled : Settled s
  grid : OnGrid step s

variable {step o n o' n' : ℕ} {s s' : BestFitAllocator}

lemma Gridded.free_dvd (h : Gridded step s) {r : Region} (hr : r ∈ freeRegions s) :
    step ∣ r.offset := h.grid.free _ (mem_freeRegions.mp hr)

lemma Gridded.held_dvd (h : Gridded step s) {a : Allocation} (ha : Holds s a n) :
    step ∣ a.offset := h.grid.active _ (List.mem_of_getElem? ha) _ rfl

/-! ### Steps of the Operations -/

lemma dvd_wrappingAdd {a b : ℕ} (hstep : step ∣ 2 ^ 32) (ha : step ∣ a) (hb : step ∣ b) :
    step ∣ wrappingAdd 32 a b := (Nat.dvd_mod_iff hstep).mpr (Nat.dvd_add ha hb)

lemma OnGrid.removeFreeRegion {region : FreeRegion} (h : OnGrid step s)
    (hs : s.removeFreeRegion o = some (region, s')) : OnGrid step s' := by
  obtain ⟨found, -, hfound⟩ := Option.bind_eq_some_iff.mp hs
  obtain ⟨-, rfl⟩ := Prod.mk.inj (Option.some.inj hfound)
  exact ⟨fun e he => h.free e (List.mem_filter.mp he).1, h.active⟩

lemma OnGrid.insertFreeRegion (h : OnGrid step s) (ho : step ∣ o) (n : ℕ) :
    OnGrid step (s.insertFreeRegion o n) := by
  refine ⟨fun e he => ?_, h.active⟩
  rcases mem_insertEntry he with rfl | he
  · exact ho
  · exact h.free e he

lemma OnGrid.setSlot (h : OnGrid step s) {i : ℕ} {slot : AllocationSlot}
    (hslot : ∀ active, slot.allocation = some active → step ∣ active.offset) :
    ∀ slot' ∈ s.activeAllocations.set i slot, ∀ active, slot'.allocation = some active →
      step ∣ active.offset := by
  intro slot' hslot'
  rcases List.mem_or_eq_of_mem_set hslot' with hmem | rfl
  · exact h.active slot' hmem
  · exact hslot

lemma OnGrid.createAllocation {a : Allocation} (h : OnGrid step s) (ho : step ∣ o)
    (hs : s.createAllocation o n = some (a, s')) : OnGrid step s' := by
  have hnew : ∀ active, some (ActiveAllocation.mk o n) = some active → step ∣ active.offset := by
    rintro _ ⟨⟩
    exact ho
  unfold BestFitAllocator.createAllocation at hs
  cases hreuse : s.reusableAllocationIds with
  | nil =>
    rw [hreuse] at hs
    obtain ⟨slot, -, hslot⟩ := Option.bind_eq_some_iff.mp hs
    obtain ⟨-, rfl⟩ := Prod.mk.inj (Option.some.inj hslot)
    have hgrown : OnGrid step { s with
        activeAllocations := s.activeAllocations ++ [AllocationSlot.new] } := by
      refine ⟨h.free, fun slot hslot active hactive => ?_⟩
      rcases List.mem_append.mp hslot with hmem | hmem
      · exact h.active slot hmem active hactive
      · rw [List.mem_singleton.mp hmem] at hactive
        cases hactive
    exact ⟨h.free, hgrown.setSlot hnew⟩
  | cons id ids =>
    rw [hreuse] at hs
    obtain ⟨slot, -, hslot⟩ := Option.bind_eq_some_iff.mp hs
    obtain ⟨-, rfl⟩ := Prod.mk.inj (Option.some.inj hslot)
    exact ⟨h.free, h.setSlot hnew⟩

lemma OnGrid.joinPrevious (h : OnGrid step s) (ho : step ∣ o)
    (hs : s.joinPrevious o n = some (o', n', s')) : OnGrid step s' ∧ step ∣ o' := by
  unfold BestFitAllocator.joinPrevious at hs
  cases hlast : s.freeByOffset.lastBelow o with
  | none =>
    rw [hlast] at hs
    obtain ⟨rfl, -, rfl⟩ : o = o' ∧ n = n' ∧ s = s' := by simpa using hs
    exact ⟨h, ho⟩
  | some e =>
    obtain ⟨po, region⟩ := e
    rw [hlast] at hs
    dsimp only at hs
    split_ifs at hs
    · obtain ⟨removed, hremoved, hjoined⟩ := Option.bind_eq_some_iff.mp hs
      obtain ⟨rfl, -, rfl⟩ : po = o' ∧ _ ∧ removed.2 = s' := by simpa using hjoined
      exact ⟨h.removeFreeRegion hremoved, h.free _ (BTreeMap.lastBelow_mem hlast).1⟩
    · obtain ⟨rfl, -, rfl⟩ : o = o' ∧ n = n' ∧ s = s' := by simpa using hs
      exact ⟨h, ho⟩

lemma OnGrid.joinNext (h : OnGrid step s) (hs : s.joinNext o n = some (n', s')) :
    OnGrid step s' := by
  unfold BestFitAllocator.joinNext at hs
  cases hfirst : s.freeByOffset.firstFrom o with
  | none =>
    rw [hfirst] at hs
    obtain ⟨-, rfl⟩ : n = n' ∧ s = s' := by simpa using hs
    exact h
  | some e =>
    rw [hfirst] at hs
    dsimp only at hs
    split_ifs at hs
    · obtain ⟨removed, hremoved, hjoined⟩ := Option.bind_eq_some_iff.mp hs
      obtain ⟨-, rfl⟩ : _ ∧ removed.2 = s' := by simpa using hjoined
      exact h.removeFreeRegion hremoved
    · obtain ⟨-, rfl⟩ : n = n' ∧ s = s' := by simpa using hs
      exact h

lemma OnGrid.insertCoalescedFreeRegion (h : OnGrid step s) (ho : step ∣ o)
    (hs : s.insertCoalescedFreeRegion o n = some s') : OnGrid step s' := by
  unfold BestFitAllocator.insertCoalescedFreeRegion at hs
  split_ifs at hs
  · obtain rfl : s = s' := by simpa using hs
    exact h
  · obtain ⟨⟨o₁, n₁, s₁⟩, h₁, hs⟩ := Option.bind_eq_some_iff.mp hs
    obtain ⟨⟨n₂, s₂⟩, h₂, hs⟩ := Option.bind_eq_some_iff.mp hs
    obtain rfl : s₂.insertFreeRegion o₁ n₂ = s' := by simpa using hs
    obtain ⟨hgrid₁, ho₁⟩ := h.joinPrevious ho h₁
    exact (hgrid₁.joinNext h₂).insertFreeRegion ho₁ n₂

lemma OnGrid.carve {request ro rs ao : ℕ} {a : Allocation} (h : OnGrid step s)
    (hstep : step ∣ 2 ^ 32) (hreq : step ∣ request) (hro : step ∣ ro) (hao : step ∣ ao)
    (hs : s.carve request ro rs ao = some (a, s')) : OnGrid step s' := by
  unfold BestFitAllocator.carve at hs
  obtain ⟨⟨region, s₁⟩, h₁, hs⟩ := Option.bind_eq_some_iff.mp hs
  have hgrid₁ := h.removeFreeRegion h₁
  have hgrid₂ : OnGrid step (if wrappingSub 32 ao ro > 0 then
      s₁.insertFreeRegion ro (wrappingSub 32 ao ro) else s₁) := by
    split_ifs
    · exact hgrid₁.insertFreeRegion hro _
    · exact hgrid₁
  dsimp only at hs
  generalize (if wrappingSub 32 ao ro > 0 then
      s₁.insertFreeRegion ro (wrappingSub 32 ao ro) else s₁) = s₂ at hs hgrid₂
  split_ifs at hs
  · exact (hgrid₂.insertFreeRegion (dvd_wrappingAdd hstep hao hreq) _).createAllocation hao hs
  · exact hgrid₂.createAllocation hao hs

/-! ### Operations -/

/-- A size that is a multiple of the step and holds a region is taken as it is. -/
lemma normalizeAllocationSize_of_dvd {size request : ℕ} (h4 : 4 ∣ size) (h16 : 16 ≤ size)
    (h : normalizeAllocationSize size = some request) : request = size := by
  unfold normalizeAllocationSize at h
  obtain ⟨sum, hsum, hr⟩ := Option.bind_eq_some_iff.mp h
  obtain ⟨rfl, hlt⟩ := checkedAdd_eq_some.mp hsum
  have hmask := land_complement (k := 2) (by norm_num : 2 ≤ 32) hlt
  simp only [alignSize, blockSizeMin] at hlt hmask hr
  norm_num at hmask hr
  rw [hmask] at hr
  omega

lemma normalizeAllocationSize_of_lt {size : ℕ} (h4 : 4 ∣ size) (h16 : 16 ≤ size)
    (hlt : size < 2 ^ 32) : normalizeAllocationSize size = some size := by
  have hsum : checkedAdd 32 size (alignSize - 1) = some (size + 3) :=
    checkedAdd_eq_some.mpr ⟨rfl, by omega⟩
  have hmask := land_complement (k := 2) (by norm_num : 2 ≤ 32) (show size + 3 < 2 ^ 32 by omega)
  unfold normalizeAllocationSize
  rw [hsum, Option.bind_eq_bind, Option.bind_some]
  simp only [alignSize, blockSizeMin] at hmask ⊢
  norm_num at hmask ⊢
  rw [hmask]
  omega

lemma roundUp_of_dvd {k v : ℕ} (h : 2 ^ k ∣ v) : roundUp (2 ^ k) v = v := by
  obtain ⟨c, rfl⟩ := h
  have hpos := Nat.two_pow_pos k
  rw [roundUp, Nat.mul_add_div hpos, Nat.div_eq_of_lt (by omega), Nat.add_zero, Nat.mul_comm]

section Operations

variable (hstep : step ∣ 2 ^ 32) (hfour : 4 ∣ step)
include hstep hfour

/-- An allocation of a multiple of the step. Where the step is a multiple of the alignment, the
regions are aligned as they are. -/
lemma Gridded.allocateAligned (h : Gridded step s) (size k : ℕ) (hsize : step ∣ size)
    (hmin : 16 ≤ size) (halign : step ∣ 2 ^ k ∨ 2 ^ k ∣ step) :
    ∃ result s', s.allocateAligned size (2 ^ k) = some (result, s') ∧ Gridded step s' ∧
      s'.size = s.size := by
  obtain ⟨result, s', hs', hset, hsame, -⟩ := allocateAligned_spec h.settled size (2 ^ k)
  refine ⟨result, s', hs', ⟨hset, ?_⟩, hsame⟩
  unfold BestFitAllocator.allocateAligned at hs'
  cases hreq : normalizeAllocationSize size with
  | none =>
    rw [hreq] at hs'
    obtain ⟨-, rfl⟩ := Prod.mk.inj (Option.some.inj hs')
    exact h.grid
  | some request =>
    obtain rfl := normalizeAllocationSize_of_dvd (hfour.trans hsize) hmin hreq
    rw [hreq] at hs'
    dsimp only at hs'
    split_ifs at hs' with hbad
    · obtain ⟨-, rfl⟩ := Prod.mk.inj (Option.some.inj hs')
      exact h.grid
    cases hcand : findCandidate request (2 ^ k) s.freeByOffset.entries with
    | none =>
      rw [hcand] at hs'
      obtain ⟨-, rfl⟩ := Prod.mk.inj (Option.some.inj hs')
      exact h.grid
    | some c =>
      obtain ⟨ro, rs, ao⟩ := c
      rw [hcand] at hs'
      obtain ⟨⟨a, s₁⟩, hcarve, hs'⟩ := Option.bind_eq_some_iff.mp hs'
      obtain ⟨-, rfl⟩ := Prod.mk.inj (Option.some.inj hs')
      obtain ⟨hmem, hup, -⟩ := findCandidate_spec _ hcand
      have hao : step ∣ ao := by
        rw [(alignUp_eq_some hup).1]
        rcases halign with hdvd | hdvd
        · exact Dvd.dvd.mul_left hdvd _
        · rw [roundUp_of_dvd (hdvd.trans (h.grid.free _ hmem))]
          exact h.grid.free _ hmem
      exact h.grid.carve hstep hsize (h.grid.free _ hmem) hao hcarve

omit hstep hfour in
lemma Gridded.deallocate (h : Gridded step s) (a : Allocation) :
    ∃ s', s.deallocate a = some s' ∧ Gridded step s' ∧ s'.size = s.size := by
  by_cases hlive : Live s a
  swap
  · exact ⟨s, deallocate_stale hlive, h, rfl⟩
  obtain ⟨s', hs', hset, hsame, -⟩ := deallocate_live h.settled hlive
  refine ⟨s', hs', ⟨hset, ?_⟩, hsame⟩
  rw [BestFitAllocator.deallocate, validateAllocationIndex_of_live hlive] at hs'
  obtain ⟨m, hm⟩ := hlive
  simp only [hm, Option.bind_eq_bind, Option.bind_some] at hs'
  have hreleased : OnGrid step (releaseSlot s a.allocationId a.generation) :=
    ⟨h.grid.free, h.grid.setSlot (by rintro _ ⟨⟩)⟩
  exact hreleased.insertCoalescedFreeRegion (h.held_dvd hm) hs'

omit hfour in
lemma OnGrid.growInPlace {i request : ℕ} {slot : AllocationSlot} {active : ActiveAllocation}
    (h : OnGrid step s) (hslot : step ∣ active.offset) (hreq : step ∣ request)
    (hle : active.size ≤ request) (hlt : request < 2 ^ 32)
    (hs : s.growInPlace i slot active request = some (some s')) : OnGrid step s' := by
  unfold BestFitAllocator.growInPlace at hs
  dsimp only at hs
  cases hget : s.freeByOffset.get (wrappingAdd 32 active.offset active.size) with
  | none =>
    rw [hget] at hs
    cases hs
  | some region =>
    rw [hget] at hs
    dsimp only at hs
    have hsame : ∀ m active', some (ActiveAllocation.mk active.offset m) = some active' →
        step ∣ active'.offset := by
      rintro m _ ⟨⟩
      exact hslot
    split_ifs at hs
    · cases hs
    · obtain ⟨⟨removed, s₁⟩, h₁, hs⟩ := Option.bind_eq_some_iff.mp hs
      obtain rfl := Option.some.inj (Option.some.inj hs)
      -- the remainder starts where the resized region ends
      have hend : step ∣ wrappingAdd 32 (wrappingAdd 32 active.offset active.size)
          (wrappingSub 32 request active.size) := by
        have e : wrappingAdd 32 (wrappingAdd 32 active.offset active.size)
            (wrappingSub 32 request active.size) = wrappingAdd 32 active.offset request := by
          rw [wrappingSub_of_le hle hlt]
          simp only [wrappingAdd]
          omega
        rw [e]
        exact dvd_wrappingAdd hstep hslot hreq
      have hgrid := (h.removeFreeRegion h₁).insertFreeRegion hend
        (wrappingSub 32 region.size (wrappingSub 32 request active.size))
      exact ⟨hgrid.free, hgrid.setSlot (hsame _)⟩
    · obtain ⟨⟨removed, s₁⟩, h₁, hs⟩ := Option.bind_eq_some_iff.mp hs
      obtain rfl := Option.some.inj (Option.some.inj hs)
      have hgrid := h.removeFreeRegion h₁
      exact ⟨hgrid.free, hgrid.setSlot (hsame _)⟩

lemma Gridded.reallocateInPlace (h : Gridded step s) (a : Allocation) (size : ℕ)
    (hsize : step ∣ size) (hmin : 16 ≤ size) :
    ∃ result s', s.reallocateInPlace a size = some (result, s') ∧ Gridded step s' ∧
      s'.size = s.size := by
  obtain ⟨result, s', hs', hset, hsame, -, hstale, -⟩ := reallocateInPlace_spec h.settled a size
  refine ⟨result, s', hs', ⟨hset, ?_⟩, hsame⟩
  by_cases hlive : Live s a
  swap
  · rw [hstale hlive]
    exact h.grid
  unfold BestFitAllocator.reallocateInPlace at hs'
  cases hreq : normalizeAllocationSize size with
  | none =>
    rw [hreq] at hs'
    obtain ⟨-, rfl⟩ := Prod.mk.inj (Option.some.inj hs')
    exact h.grid
  | some request =>
    have hmax := (normalizeAllocationSize_spec hreq).2.2.1
    obtain rfl := normalizeAllocationSize_of_dvd (hfour.trans hsize) hmin hreq
    rw [hreq, validateAllocationIndex_of_live hlive] at hs'
    obtain ⟨m, hm⟩ := hlive
    simp only [hm, Option.bind_eq_bind, Option.bind_some] at hs'
    have hoffset := h.held_dvd hm
    split_ifs at hs' with heq hlt hgap
    · obtain ⟨-, rfl⟩ := Prod.mk.inj (Option.some.inj hs')
      exact h.grid
    · obtain ⟨s₁, h₁, hs'⟩ := Option.bind_eq_some_iff.mp hs'
      obtain ⟨-, rfl⟩ := Prod.mk.inj (Option.some.inj hs')
      have hresized : OnGrid step (s.resizeSlot a.allocationId ⟨some ⟨a.offset, m⟩, a.generation⟩
          a.offset request) := ⟨h.grid.free, h.grid.setSlot (by rintro _ ⟨⟩; exact hoffset)⟩
      exact hresized.insertCoalescedFreeRegion (dvd_wrappingAdd hstep hoffset hsize) h₁
    · obtain ⟨-, rfl⟩ := Prod.mk.inj (Option.some.inj hs')
      exact h.grid
    · obtain ⟨grown, hgrow, hs'⟩ := Option.bind_eq_some_iff.mp hs'
      cases grown with
      | none =>
        obtain ⟨-, rfl⟩ := Prod.mk.inj (Option.some.inj hs')
        exact h.grid
      | some s₁ =>
        obtain ⟨-, rfl⟩ := Prod.mk.inj (Option.some.inj hs')
        exact h.grid.growInPlace hstep hoffset hsize (by simp only; omega) hmax hgrow

end Operations

lemma gridded_new {size : ℕ} (h : size < 2 ^ 32) (step : ℕ) :
    Gridded step (BestFitAllocator.new size) := by
  refine ⟨(settled_new h).1, ?_⟩
  unfold BestFitAllocator.new BestFitAllocator.reset
  dsimp only
  split_ifs
  all_goals
    refine ⟨?_, fun slot hslot => absurd hslot List.not_mem_nil⟩
    simp [BestFitAllocator.insertFreeRegion, BTreeMap.insert, BTreeMap.empty, insertEntry]

/-! ### Room -/

lemma roundUp_bounds (k v : ℕ) : v ≤ roundUp (2 ^ k) v ∧ roundUp (2 ^ k) v ≤ v + (2 ^ k - 1) := by
  have hpos := Nat.two_pow_pos k
  have h := Nat.div_add_mod (v + (2 ^ k - 1)) (2 ^ k)
  have hlt := Nat.mod_lt (v + (2 ^ k - 1)) hpos
  rw [Nat.mul_comm] at h
  unfold roundUp
  omega

lemma alignUp_of_lt {k v : ℕ} (h : v + (2 ^ k - 1) < 2 ^ 32) :
    alignUp v (2 ^ k) = some (roundUp (2 ^ k) v) := by
  have hk : k ≤ 32 := (Nat.pow_le_pow_iff_right (by norm_num : 1 < 2)).mp (by omega)
  have hsum : checkedAdd 32 v (2 ^ k - 1) = some (v + (2 ^ k - 1)) :=
    checkedAdd_eq_some.mpr ⟨rfl, h⟩
  unfold alignUp
  rw [hsum, Option.bind_eq_bind, Option.bind_some, land_complement hk h]
  rfl

/-- The search stops at a region from this offset on only to take it. -/
structure Clear (k request offset : ℕ) : Prop where
  aligns : offset + (2 ^ k - 1) < 2 ^ 32
  leading : roundUp (2 ^ k) offset = offset ∨ offset + 16 ≤ roundUp (2 ^ k) offset
  needs : roundUp (2 ^ k) offset - offset + request < 2 ^ 32

lemma findCandidate_eq_none {k request : ℕ} {entries : List (ℕ × FreeRegion)}
    (hclear : ∀ e ∈ entries, Clear k request e.1)
    (h : findCandidate request (2 ^ k) entries = none) :
    ∀ e ∈ entries, e.1 + e.2.size < roundUp (2 ^ k) e.1 + request := by
  induction entries with
  | nil => exact fun e he => absurd he List.not_mem_nil
  | cons e es ih =>
    obtain ⟨o, ⟨n⟩⟩ := e
    obtain ⟨haligns, hleading, hneeds⟩ := hclear _ List.mem_cons_self
    have hle := (roundUp_bounds k o).1
    have hlead : checkedSub (roundUp (2 ^ k) o) o = some (roundUp (2 ^ k) o - o) :=
      checkedSub_eq_some.mpr ⟨hle, rfl⟩
    have hneed : checkedAdd 32 (roundUp (2 ^ k) o - o) request =
        some (roundUp (2 ^ k) o - o + request) := checkedAdd_eq_some.mpr ⟨rfl, hneeds⟩
    rw [findCandidate, alignUp_of_lt haligns] at h
    simp only [Option.bind_eq_bind, Option.bind_some, hlead, hneed, blockSizeMin] at h hleading
    rw [if_neg (by omega)] at h
    split_ifs at h with hfits
    intro e he
    rcases List.mem_cons.mp he with rfl | he
    · simp only
      omega
    · exact ih (fun e he => hclear e (List.mem_cons_of_mem _ he)) h e he

/-- Where the search passes over no region that would do, an allocation fails only for want of
room, and cuts what it takes out of one region. -/
lemma allocateAligned_clear (h : Settled s) (size k : ℕ) (h4 : 4 ∣ size) (h16 : 16 ≤ size)
    (hlt : size < 2 ^ 32) (hk : 2 ≤ k) (hclear : ∀ r ∈ freeRegions s, Clear k size r.offset) :
    ∃ result s', s.allocateAligned size (2 ^ k) = some (result, s') ∧
      (result = none → s' = s ∧
        ∀ r ∈ freeRegions s, r.offset + r.size < roundUp (2 ^ k) r.offset + size) ∧
      ∀ a, result = some a → Settled s' ∧ ∃ r ∈ freeRegions s,
        roundUp (2 ^ k) r.offset + size ≤ r.offset + r.size ∧
          Carves s s' size r.offset r.size (roundUp (2 ^ k) r.offset) := by
  have hpow : ¬ (2 ^ k < alignSize ∨ ¬ 2 ^ (2 ^ k).log2 = 2 ^ k) := by
    have : 2 ^ 2 ≤ 2 ^ k := Nat.pow_le_pow_right (by norm_num) hk
    rw [Nat.log2_two_pow]
    rintro (hc | hc)
    · exact absurd hc (not_lt.mpr this)
    · exact hc rfl
  unfold BestFitAllocator.allocateAligned
  rw [normalizeAllocationSize_of_lt h4 h16 hlt]
  dsimp only
  rw [if_neg hpow]
  cases hcand : findCandidate size (2 ^ k) s.freeByOffset.entries with
  | none =>
    refine ⟨none, s, rfl, fun _ => ⟨rfl, fun r hr => ?_⟩, (by rintro _ ⟨⟩)⟩
    exact findCandidate_eq_none (fun e he => hclear _ (mem_freeRegions.mpr he)) hcand _
      (mem_freeRegions.mp hr)
  | some c =>
    obtain ⟨ro, rs, ao⟩ := c
    obtain ⟨hmem, hup, hlead, hfits⟩ := findCandidate_spec _ hcand
    obtain ⟨a, s', n, hs', hset, -, -, -, hcarves⟩ := carve_spec h
      ⟨mem_freeRegions.mpr hmem, alignUp_dvd hk hup, hlead, hfits⟩ ⟨h4, h16⟩
    refine ⟨some a, s', by simp [hs'], (by rintro ⟨⟩), fun a' _ =>
      ⟨hset, ⟨ro, rs⟩, mem_freeRegions.mpr hmem, ?_⟩⟩
    rw [← (alignUp_eq_some hup).1]
    exact ⟨hfits, hcarves⟩

end Neetan.BestFit
