import Neetan.XmsManager
import Neetan.BestFitGrid

/-!
The pool of the memory manager on a grid.

EMS pages, XMS blocks and the region behind the upper memory blocks all come from one pool.
Whatever the calls made on it, every region of the pool starts at a multiple of 4 KB, and of the
page size of EMS while there are no XMS blocks. Mapping pages, saving and restoring page maps and
naming handles leave the pool alone.
-/

namespace Neetan.Ems

section

open Neetan.MachineInt Neetan.BestFit Neetan.EmulatedMemory MemoryAccess
open MemoryManager

/-- The part of an EMS handle that concerns the pool. -/
def EmsHandle.share (handle : EmsHandle) : Bool × List Allocation := (handle.active, handle.pages)

/-- The pool, and who has what of it, is the same. -/
structure SamePool (m m' : MemoryManager) : Prop where
  allocator : m'.allocator = m.allocator
  size : m'.extendedMemorySize = m.extendedMemorySize
  base : m'.allocatorBaseOffset = m.allocatorBaseOffset
  window : m'.emsWindow = m.emsWindow
  xms : m'.xmsHandles = m.xmsHandles
  ems : m'.emsHandles.map EmsHandle.share = m.emsHandles.map EmsHandle.share

variable {σ : Type} [MemoryAccess σ] {m m' m'' : MemoryManager} {mem : σ}

lemma SamePool.refl (m : MemoryManager) : SamePool m m := ⟨rfl, rfl, rfl, rfl, rfl, rfl⟩

lemma SamePool.trans (h : SamePool m m') (h' : SamePool m' m'') : SamePool m m'' :=
  ⟨h'.allocator.trans h.allocator, h'.size.trans h.size, h'.base.trans h.base,
    h'.window.trans h.window, h'.xms.trans h.xms, h'.ems.trans h.ems⟩

lemma samePool_setSlot (physical : Fin physicalPages) (mapping : Option EmsMapping) (mem : σ) :
    SamePool m (m.setSlot physical mapping mem).1 := ⟨rfl, rfl, rfl, rfl, rfl, rfl⟩

lemma activeEmsHandle_getElem? {i : ℕ} {handle : EmsHandle}
    (h : m.activeEmsHandle i = some handle) : m.emsHandles[i]? = some handle :=
  (Option.filter_eq_some_iff.mp h).1

lemma samePool_setHandle {i : ℕ} {handle handle' : EmsHandle}
    (hi : m.emsHandles[i]? = some handle) (hshare : handle'.share = handle.share) :
    SamePool m { m with emsHandles := m.emsHandles.set i handle' } := by
  refine ⟨rfl, rfl, rfl, rfl, rfl, ?_⟩
  have hlt := (List.getElem?_eq_some_iff.mp hi).1
  refine List.ext_getElem? fun j => ?_
  change ((m.emsHandles.set i handle').map EmsHandle.share)[j]? = _
  rw [List.getElem?_map, List.getElem?_map, List.getElem?_set]
  by_cases hij : i = j
  · subst hij
    rw [if_pos rfl, if_pos hlt, hi, Option.map_some, Option.map_some, hshare]
  · rw [if_neg hij]

lemma samePool_unmapSlots (i : ℕ) (slots : List (Fin physicalPages)) :
    SamePool m (slots.foldl (unmapSlotOf i) (m, mem)).1 := by
  induction slots generalizing m mem with
  | nil => exact SamePool.refl m
  | cons slot slots ih =>
    rw [List.foldl_cons]
    unfold unmapSlotOf
    cases m.emsPageMapping slot with
    | none => exact ih
    | some mapping =>
      dsimp only
      split_ifs
      · exact (samePool_setSlot slot none mem).trans ih
      · exact ih

lemma samePool_emsMapPage (handle logicalPage physicalPage : ℕ) :
    SamePool m (m.emsMapPage handle logicalPage physicalPage mem).2.1 := by
  unfold emsMapPage
  split_ifs
  · cases m.activeEmsHandle handle with
    | none => exact SamePool.refl m
    | some found =>
      dsimp only
      cases found.pages[logicalPage]? with
      | none => exact SamePool.refl m
      | some page => exact samePool_setSlot _ _ mem
  · exact SamePool.refl m

lemma samePool_emsUnmapPage (physicalPage : ℕ) :
    SamePool m (m.emsUnmapPage physicalPage mem).2.1 := by
  unfold emsUnmapPage
  split_ifs
  · exact samePool_setSlot _ _ mem
  · exact SamePool.refl m

lemma samePool_setPartialEntries (src : List UInt8) (entries : List ℕ) :
    SamePool m (setPartialEntries src entries m mem).2.1 := by
  induction entries generalizing m mem with
  | nil => exact SamePool.refl m
  | cons i entries ih =>
    unfold setPartialEntries
    dsimp only
    cases m.physicalPageForSegment (saveArrayWord src (1 + i * 6)) with
    | none => exact SamePool.refl m
    | some physical =>
      dsimp only
      have hentry : ∀ state : ℕ × MemoryManager × σ, SamePool m state.2.1 →
          SamePool m (if state.1 ≠ 0 then state
            else setPartialEntries src entries state.2.1 state.2.2).2.1 := fun state hs => by
        split_ifs
        · exact hs
        · exact hs.trans ih
      by_cases hunmap : saveArrayWord src (1 + i * 6 + 2) = 0xFFFF ∨
          saveArrayWord src (1 + i * 6 + 4) = 0xFFFF
      · rw [if_pos hunmap]
        exact hentry _ (samePool_emsUnmapPage physical)
      · rw [if_neg hunmap]
        exact hentry _ (samePool_emsMapPage _ _ physical)

lemma samePool_emsSetPartialPageMap (src : List UInt8) :
    SamePool m (m.emsSetPartialPageMap src mem).2.1 := by
  unfold emsSetPartialPageMap
  cases src with
  | nil => exact SamePool.refl m
  | cons count src =>
    dsimp only
    split_ifs
    · exact SamePool.refl m
    · exact samePool_setPartialEntries _ _

lemma samePool_emsSavePageMap (i : ℕ) : SamePool m (m.emsSavePageMap i).2 := by
  unfold emsSavePageMap
  cases hactive : m.activeEmsHandle i with
  | none => exact SamePool.refl m
  | some handle =>
    dsimp only
    split_ifs
    · exact SamePool.refl m
    · exact samePool_setHandle (activeEmsHandle_getElem? hactive) rfl

lemma samePool_emsSetHandleName (i : ℕ) (name : List UInt8) :
    SamePool m (m.emsSetHandleName i name).2 := by
  unfold emsSetHandleName
  cases hactive : m.activeEmsHandle i with
  | none => exact SamePool.refl m
  | some handle =>
    dsimp only
    split_ifs
    · exact SamePool.refl m
    · exact samePool_setHandle (activeEmsHandle_getElem? hactive) rfl

lemma samePool_emsSetPageMap (saved : PageMap) : SamePool m (m.emsSetPageMap saved mem).1 :=
  ⟨rfl, rfl, rfl, rfl, rfl, rfl⟩

lemma samePool_emsRestorePageMap (i : ℕ) : SamePool m (m.emsRestorePageMap i mem).2.1 := by
  unfold emsRestorePageMap
  cases hactive : m.activeEmsHandle i with
  | none => exact SamePool.refl m
  | some handle =>
    dsimp only
    cases handle.saveContext with
    | none => exact SamePool.refl m
    | some saved =>
      exact (samePool_emsSetPageMap saved).trans
        (samePool_setHandle (activeEmsHandle_getElem? hactive) rfl)

lemma samePool_int67SetPageMap (srcAddr : ℕ) :
    SamePool m (m.int67SetPageMap srcAddr mem).2.1 := by
  unfold int67SetPageMap
  cases m.readPageMapFromMemory mem srcAddr with
  | error => exact SamePool.refl m
  | ok map => exact samePool_emsSetPageMap map

end

/-! ### The grid -/

section

open Neetan.MachineInt Neetan.BestFit Neetan.Tiling Neetan.EmulatedMemory MemoryAccess
open MemoryManager

/-- A call as a program makes it: XMS calls come only while XMS is enabled, and the size in such
a call is a `u16` or a `u32`. -/
def Issued (xmsEnabled : Bool) : Call → Prop
  | .xmsAllocate sizeKb | .xmsReallocate _ sizeKb => xmsEnabled = true ∧ sizeKb < 2 ^ 16
  | .xmsAllocate32 sizeKb | .xmsReallocate32 _ sizeKb => xmsEnabled = true ∧ sizeKb < 2 ^ 32
  | .xmsFree _ | .xmsLock _ | .xmsUnlock _ => xmsEnabled = true
  | _ => True

/-! ### The Grid of a Manager -/

/-- All regions of the pool lie on the grid, and the start of a page is a `u32` for each. -/
structure Tidy (step : ℕ) (m : MemoryManager) : Prop where
  gridded : Gridded step m.allocator
  aligns : step = emsPageSize ∨ m.allocator.size + emsPageSize ≤ 2 ^ 32

variable {σ : Type} [MemoryAccess σ]
variable {step : ℕ} {m m' : MemoryManager} {mem : σ} {s : BestFitAllocator}

lemma Tidy.congr (h : Tidy step m) (hsame : m'.allocator = m.allocator) : Tidy step m' :=
  ⟨hsame ▸ h.gridded, hsame ▸ h.aligns⟩

lemma Tidy.setAllocator (h : Tidy step m) (hs : Gridded step s)
    (hsize : s.size = m.allocator.size) (hm' : m'.allocator = s) : Tidy step m' := by
  subst hm'
  exact ⟨hs, hsize ▸ h.aligns⟩

/-! ### Calls on the Grid -/

lemma emsAllocationSize_eq : emsAllocationSize = emsPageSize := by decide

lemma deallocateAll_gridded (allocs : List Allocation) (h : Gridded step s) :
    ∃ s', deallocateAll s allocs = some s' ∧ Gridded step s' ∧ s'.size = s.size := by
  induction allocs generalizing s with
  | nil => exact ⟨s, rfl, h, rfl⟩
  | cons alloc allocs ih =>
    obtain ⟨s₁, hs₁, h₁, hsize₁⟩ := h.deallocate alloc
    obtain ⟨s₂, hs₂, h₂, hsize₂⟩ := ih h₁
    exact ⟨s₂, by simp [deallocateAll, hs₁, hs₂], h₂, hsize₂.trans hsize₁⟩

lemma popPages_gridded (n : ℕ) (pages : List Allocation) (h : Gridded step s) :
    ∃ rest s', popPages n s pages = some (rest, s') ∧ Gridded step s' ∧ s'.size = s.size := by
  induction n generalizing s pages with
  | zero => exact ⟨pages, s, rfl, h, rfl⟩
  | succ n ih =>
    unfold popPages
    cases pages.getLast? with
    | none => exact ⟨pages, s, rfl, h, rfl⟩
    | some alloc =>
      obtain ⟨s₁, hs₁, h₁, hsize₁⟩ := h.deallocate alloc
      obtain ⟨rest, s₂, hs₂, h₂, hsize₂⟩ := ih pages.dropLast h₁
      exact ⟨rest, s₂, by simp [hs₁, hs₂], h₂, hsize₂.trans hsize₁⟩

lemma deallocateOption_gridded (alloc : Option Allocation) (h : Gridded step s) :
    ∃ s', deallocateOption s alloc = some s' ∧ Gridded step s' ∧ s'.size = s.size := by
  cases alloc with
  | none => exact ⟨s, rfl, h, rfl⟩
  | some a => exact h.deallocate a

lemma pageAlignedAllocationSize_dvd {sizeBytes alignedSize : ℕ}
    (h : pageAlignedAllocationSize sizeBytes = some alignedSize) : pageSize4k ∣ alignedSize := by
  unfold pageAlignedAllocationSize at h
  split_ifs at h with hzero
  · obtain rfl : 0 = alignedSize := by simpa using h
    exact dvd_zero _
  · dsimp only at h
    split_ifs at h with hlt
    obtain rfl := Option.some.inj h
    have hmask : complement 64 (pageSize4k - 1) % 2 ^ 12 = 0 := by decide
    refine Nat.dvd_of_mod_eq_zero ?_
    change (_ &&& _) % 2 ^ 12 = 0
    rw [Nat.and_mod_two_pow, hmask, Nat.and_zero]

lemma pageAlignedAllocationSize_eq {sizeBytes : ℕ} (h : sizeBytes < 2 ^ 63) :
    pageAlignedAllocationSize sizeBytes =
      if roundUp pageSize4k sizeBytes < 2 ^ 32 then some (roundUp pageSize4k sizeBytes)
      else none := by
  have hmask := land_complement (k := 12) (by norm_num : 12 ≤ 64)
    (show sizeBytes + pageSize4k - 1 < 2 ^ 64 by simp only [pageSize4k]; omega)
  unfold pageAlignedAllocationSize
  by_cases hzero : sizeBytes = 0
  · subst hzero
    decide
  · rw [if_neg hzero]
    change (if (sizeBytes + pageSize4k - 1) &&& complement 64 (2 ^ 12 - 1) < 2 ^ 32 then
      some ((sizeBytes + pageSize4k - 1) &&& complement 64 (2 ^ 12 - 1)) else none) = _
    rw [hmask]
    rfl

section Grid

variable (hfour : 4 ∣ step) (hpage : step ∣ emsPageSize)
include hfour hpage

omit hfour in
lemma step_dvd : step ∣ 2 ^ 32 := hpage.trans (by decide)

lemma allocatePageLoop_gridded (n : ℕ) (pages : List Allocation) (h : Gridded step s) :
    ∃ result s', allocatePageLoop n s pages = some (result, s') ∧ Gridded step s' ∧
      s'.size = s.size := by
  induction n generalizing s pages with
  | zero => exact ⟨_, s, rfl, h, rfl⟩
  | succ n ih =>
    obtain ⟨result, s₁, hs₁, h₁, hsize₁⟩ := h.allocateAligned
      (step_dvd hpage) hfour emsAllocationSize 14 (emsAllocationSize_eq ▸ hpage) (by decide)
      (Or.inl hpage)
    change s.allocateAligned emsAllocationSize emsPageSize = _ at hs₁
    cases result with
    | none =>
      obtain ⟨s₂, hs₂, h₂, hsize₂⟩ := deallocateAll_gridded pages h₁
      exact ⟨none, s₂, by simp [allocatePageLoop, hs₁, hs₂], h₂, hsize₂.trans hsize₁⟩
    | some alloc =>
      obtain ⟨result, s₂, hs₂, h₂, hsize₂⟩ := ih (pages ++ [alloc]) h₁
      exact ⟨result, s₂, by simp [allocatePageLoop, hs₁, hs₂], h₂, hsize₂.trans hsize₁⟩

lemma emsAllocate_tidy (h : Tidy step m) (count : ℕ) :
    ∃ result m', m.emsAllocate count = some (result, m') ∧ Tidy step m' := by
  unfold emsAllocate
  cases m.findFreeEmsHandle with
  | none => exact ⟨_, m, rfl, h⟩
  | some i =>
    dsimp only
    split_ifs
    · exact ⟨_, m, rfl, h⟩
    · exact ⟨_, m, rfl, h⟩
    · obtain ⟨result, s, hs, hgrid, hsize⟩ :=
        allocatePageLoop_gridded hfour hpage count [] h.gridded
      rw [hs]
      cases result with
      | none => exact ⟨_, _, rfl, h.setAllocator hgrid hsize rfl⟩
      | some pages => exact ⟨_, _, rfl, h.setAllocator hgrid hsize rfl⟩

lemma emsReallocate_tidy (h : Tidy step m) (i newCount : ℕ) :
    ∃ result m', m.emsReallocate i newCount = some (result, m') ∧ Tidy step m' := by
  unfold emsReallocate
  cases m.activeEmsHandle i with
  | none => exact ⟨_, m, rfl, h⟩
  | some handle =>
    dsimp only
    split_ifs
    · exact ⟨_, m, rfl, h⟩
    · exact ⟨_, m, rfl, h⟩
    · exact ⟨_, m, rfl, h⟩
    · obtain ⟨result, s, hs, hgrid, hsize⟩ :=
        allocatePageLoop_gridded hfour hpage _ [] h.gridded
      rw [hs]
      cases result with
      | none => exact ⟨_, _, rfl, h.setAllocator hgrid hsize rfl⟩
      | some pages => exact ⟨_, _, rfl, h.setAllocator hgrid hsize rfl⟩
    · obtain ⟨rest, s, hs, hgrid, hsize⟩ := popPages_gridded
        (handle.pages.length - newCount) handle.pages h.gridded
      rw [hs]
      exact ⟨_, _, rfl, h.setAllocator hgrid hsize rfl⟩

omit hfour hpage in
lemma emsDeallocate_tidy (h : Tidy step m) (i : ℕ) (mem : σ) :
    ∃ status m' mem', m.emsDeallocate i mem = some (status, m', mem') ∧ Tidy step m' := by
  unfold emsDeallocate
  cases m.activeEmsHandle i with
  | none => exact ⟨_, m, mem, rfl, h⟩
  | some handle =>
    by_cases hcontext : handle.saveContext.isSome = true
    · exact ⟨_, m, mem, if_pos hcontext, h⟩
    obtain ⟨s, hs, hgrid, hsize⟩ := deallocateAll_gridded handle.pages h.gridded
    dsimp only
    rw [if_neg hcontext, (samePool_unmapSlots i (List.finRange physicalPages)).allocator, hs]
    exact ⟨_, _, _, rfl, h.setAllocator hgrid hsize rfl⟩

end Grid

/-! ### XMS Calls on the Grid -/

section Xms

variable (hfour : 4 ∣ step) (hpage : step ∣ pageSize4k)
include hfour hpage

lemma allocate4k_gridded {size : ℕ} (h : Gridded step s) (hsize : pageSize4k ∣ size)
    (hpos : size ≠ 0) :
    ∃ result s', s.allocateAligned size pageSize4k = some (result, s') ∧ Gridded step s' ∧
      s'.size = s.size :=
  have hle := Nat.le_of_dvd (Nat.pos_of_ne_zero hpos) hsize
  h.allocateAligned (hpage.trans (by decide)) hfour size 12 (hpage.trans hsize)
    (le_trans (by decide) hle) (Or.inl hpage)

lemma xmsAllocateBytes_tidy (h : Tidy step m) (i sizeBytes sizeKb : ℕ) :
    ∃ result m', m.xmsAllocateBytes i sizeBytes sizeKb = some (result, m') ∧ Tidy step m' := by
  unfold xmsAllocateBytes
  cases hsize : pageAlignedAllocationSize sizeBytes with
  | none => exact ⟨_, m, rfl, h⟩
  | some alignedSize =>
    dsimp only
    by_cases hzero : alignedSize = 0
    · rw [if_pos hzero]
      exact ⟨_, _, rfl, h.congr rfl⟩
    rw [if_neg hzero]
    obtain ⟨result, s, hs, hgrid, hsame⟩ := allocate4k_gridded hfour hpage h.gridded
      (pageAlignedAllocationSize_dvd hsize) hzero
    rw [hs]
    cases result with
    | none => exact ⟨_, _, rfl, h.setAllocator hgrid hsame rfl⟩
    | some a => exact ⟨_, _, rfl, h.setAllocator hgrid hsame rfl⟩

lemma xmsAllocate_tidy (h : Tidy step m) (sizeKb : ℕ) :
    ∃ result m', m.xmsAllocate sizeKb = some (result, m') ∧ Tidy step m' := by
  unfold xmsAllocate
  cases m.findFreeXmsHandle with
  | none => exact ⟨_, m, rfl, h⟩
  | some i => exact xmsAllocateBytes_tidy hfour hpage h i _ _

lemma xmsAllocate32_tidy (h : Tidy step m) (sizeKb : ℕ) :
    ∃ result m', m.xmsAllocate32 sizeKb = some (result, m') ∧ Tidy step m' := by
  unfold xmsAllocate32
  cases m.findFreeXmsHandle with
  | none => exact ⟨_, m, rfl, h⟩
  | some i =>
    dsimp only
    split_ifs
    · exact ⟨_, m, rfl, h⟩
    · exact xmsAllocateBytes_tidy hfour hpage h i _ _

omit hfour hpage in
lemma xmsFree_tidy (h : Tidy step m) (handleId : ℕ) :
    ∃ result m', m.xmsFree handleId = some (result, m') ∧ Tidy step m' := by
  unfold xmsFree
  cases m.activeXmsHandle handleId with
  | none => exact ⟨_, m, rfl, h⟩
  | some found =>
    dsimp only
    split_ifs
    · exact ⟨_, m, rfl, h⟩
    obtain ⟨s, hs, hgrid, hsize⟩ := deallocateOption_gridded found.2.allocation h.gridded
    rw [hs]
    exact ⟨_, _, rfl, h.setAllocator hgrid hsize rfl⟩

omit hfour hpage in
lemma xmsLock_tidy (h : Tidy step m) (handleId : ℕ) : Tidy step (m.xmsLock handleId).2 := by
  unfold xmsLock
  cases m.activeXmsHandle handleId with
  | none => exact h
  | some found =>
    dsimp only
    split_ifs
    · exact h
    · exact h.congr rfl

omit hfour hpage in
lemma xmsUnlock_tidy (h : Tidy step m) (handleId : ℕ) : Tidy step (m.xmsUnlock handleId).2 := by
  unfold xmsUnlock
  cases m.activeXmsHandle handleId with
  | none => exact h
  | some found =>
    dsimp only
    split_ifs
    · exact h
    · exact h.congr rfl

section Reallocate

variable {alignedSize : ℕ} (haligned : pageSize4k ∣ alignedSize) (hpos : alignedSize ≠ 0)
include haligned hpos

lemma xmsReplace_tidy (h : Tidy step m) (i : ℕ) (handle : XmsHandle) (newSizeKb copyBytes : ℕ) :
    ∃ result m' mem', m.xmsReplace i handle newSizeKb alignedSize copyBytes mem =
      some (result, m', mem') ∧ Tidy step m' := by
  unfold xmsReplace
  cases handle.allocation with
  | none => exact ⟨_, m, mem, rfl, h⟩
  | some old =>
    obtain ⟨s₁, hs₁, h₁, hsize₁⟩ := h.gridded.deallocate old
    obtain ⟨result, s₂, hs₂, h₂, hsize₂⟩ := allocate4k_gridded hfour hpage h₁ haligned hpos
    simp only [hs₁, hs₂, Option.bind_eq_bind, Option.bind_some]
    cases result with
    | some new => exact ⟨_, _, _, rfl, h.setAllocator h₂ (hsize₂.trans hsize₁) rfl⟩
    | none =>
      dsimp only
      by_cases hzero : (pageAlignedAllocationSize (handle.sizeKb * 1024)).getD 0 = 0
      · rw [if_pos hzero]
        exact ⟨_, _, _, rfl, h.setAllocator h₂ (hsize₂.trans hsize₁) rfl⟩
      rw [if_neg hzero]
      have hold : pageSize4k ∣ (pageAlignedAllocationSize (handle.sizeKb * 1024)).getD 0 := by
        cases hsize : pageAlignedAllocationSize (handle.sizeKb * 1024) with
        | none => exact dvd_zero _
        | some oldSize => exact pageAlignedAllocationSize_dvd hsize
      obtain ⟨result, s₃, hs₃, h₃, hsize₃⟩ := allocate4k_gridded hfour hpage h₂ hold hzero
      simp only [hs₃, Option.bind_some]
      cases result with
      | some restored =>
        exact ⟨_, _, _, rfl, h.setAllocator h₃ (hsize₃.trans (hsize₂.trans hsize₁)) rfl⟩
      | none => exact ⟨_, _, _, rfl, h.setAllocator h₃ (hsize₃.trans (hsize₂.trans hsize₁)) rfl⟩

lemma xmsRelocate_tidy (h : Tidy step m) (i : ℕ) (handle : XmsHandle) (newSizeKb copyBytes : ℕ) :
    ∃ result m' mem', m.xmsRelocate i handle newSizeKb alignedSize copyBytes mem =
      some (result, m', mem') ∧ Tidy step m' := by
  unfold xmsRelocate
  obtain ⟨result, s₁, hs₁, h₁, hsize₁⟩ := allocate4k_gridded hfour hpage h.gridded haligned hpos
  simp only [hs₁, Option.bind_eq_bind, Option.bind_some]
  cases result with
  | none =>
    exact xmsReplace_tidy hfour hpage haligned hpos (h.setAllocator h₁ hsize₁ rfl) i handle _ _
  | some new =>
    obtain ⟨s₂, hs₂, h₂, hsize₂⟩ := deallocateOption_gridded handle.allocation h₁
    simp only [hs₂, Option.bind_some]
    exact ⟨_, _, _, rfl, h.setAllocator h₂ (hsize₂.trans hsize₁) rfl⟩

lemma xmsResize_tidy (h : Tidy step m) (i : ℕ) (handle : XmsHandle) (newSizeKb copyBytes : ℕ) :
    ∃ result m' mem', m.xmsResize i handle newSizeKb alignedSize copyBytes mem =
      some (result, m', mem') ∧ Tidy step m' := by
  unfold xmsResize
  cases handle.allocation with
  | none => exact xmsRelocate_tidy hfour hpage haligned hpos h i handle _ _
  | some old =>
    have hle := Nat.le_of_dvd (Nat.pos_of_ne_zero hpos) haligned
    obtain ⟨result, s, hs, hgrid, hsize⟩ := h.gridded.reallocateInPlace
      (hpage.trans (by decide)) hfour old alignedSize (hpage.trans haligned)
      (le_trans (by decide) hle)
    simp only [hs, Option.bind_eq_bind, Option.bind_some]
    cases result with
    | some resized => exact ⟨_, _, _, rfl, h.setAllocator hgrid hsize rfl⟩
    | none =>
      exact xmsRelocate_tidy hfour hpage haligned hpos (h.setAllocator hgrid hsize rfl) i handle _ _

end Reallocate

lemma xmsReallocateInternal_tidy (h : Tidy step m) (handleId : ℕ) {newSizeKb : ℕ}
    (hlt : newSizeKb < 2 ^ 32) (mem : σ) :
    ∃ result m' mem', m.xmsReallocateInternal handleId newSizeKb mem = some (result, m', mem') ∧
      Tidy step m' := by
  unfold xmsReallocateInternal
  cases m.activeXmsHandle handleId with
  | none => exact ⟨_, m, mem, rfl, h⟩
  | some found =>
    obtain ⟨i, handle⟩ := found
    dsimp only
    split_ifs with hlock hsame hzero
    · exact ⟨_, m, mem, rfl, h⟩
    · exact ⟨_, m, mem, rfl, h⟩
    · obtain ⟨s, hs, hgrid, hsize⟩ := deallocateOption_gridded handle.allocation h.gridded
      rw [hs]
      exact ⟨_, _, _, rfl, h.setAllocator hgrid hsize rfl⟩
    · cases hsize : pageAlignedAllocationSize (newSizeKb * 1024) with
      | none => exact ⟨_, m, mem, rfl, h⟩
      | some alignedSize =>
        have haligned := pageAlignedAllocationSize_dvd hsize
        have hpos : alignedSize ≠ 0 := by
          rw [pageAlignedAllocationSize_eq (by omega)] at hsize
          split_ifs at hsize
          obtain rfl := Option.some.inj hsize
          have := (roundUp_bounds 12 (newSizeKb * 1024)).1
          change roundUp (2 ^ 12) _ ≠ 0
          omega
        exact xmsResize_tidy hfour hpage haligned hpos h i handle _ _

lemma xmsReallocate32_tidy (h : Tidy step m) (handleId : ℕ) {newSizeKb : ℕ}
    (hlt : newSizeKb < 2 ^ 32) (mem : σ) :
    ∃ result m' mem', m.xmsReallocate32 handleId newSizeKb mem = some (result, m', mem') ∧
      Tidy step m' := by
  unfold xmsReallocate32
  split_ifs
  · exact ⟨_, m, mem, rfl, h⟩
  · exact xmsReallocateInternal_tidy hfour hpage h _ hlt mem

end Xms

/-! ### Runs on the Grid -/

/-- The grid of a manager: 4 KB pages for XMS blocks, and EMS pages where there are none. -/
def gridStep (xmsEnabled : Bool) : ℕ := if xmsEnabled then pageSize4k else emsPageSize

lemma gridStep_dvd (xmsEnabled : Bool) : 4 ∣ gridStep xmsEnabled ∧
    gridStep xmsEnabled ∣ emsPageSize := by
  cases xmsEnabled
  · decide
  · decide

lemma step_tidy {xmsEnabled : Bool} (h : Tidy (gridStep xmsEnabled) m) (mem : σ) (call : Call)
    (hcall : Issued xmsEnabled call) :
    ∃ m' mem', Ems.step m mem call = some (m', mem') ∧ Tidy (gridStep xmsEnabled) m' := by
  obtain ⟨hfour, hpage⟩ := gridStep_dvd xmsEnabled
  have hsmall : xmsEnabled = true → gridStep xmsEnabled ∣ pageSize4k := by
    rintro rfl
    exact dvd_refl _
  cases call with
  | emsAllocatePages count =>
    by_cases hzero : count = 0
    · exact ⟨m, mem, by simp [Ems.step, emsAllocatePages, hzero], h⟩
    · obtain ⟨result, m', hm', h'⟩ := emsAllocate_tidy hfour hpage h count
      exact ⟨m', mem, by simp [Ems.step, emsAllocatePages, hzero, hm'], h'⟩
  | emsAllocatePagesZeroAllowed count =>
    obtain ⟨result, m', hm', h'⟩ := emsAllocate_tidy hfour hpage h count
    exact ⟨m', mem, by simp [Ems.step, emsAllocatePagesZeroAllowed, hm'], h'⟩
  | emsMapPage handle logicalPage physicalPage =>
    exact ⟨_, _, rfl, h.congr (samePool_emsMapPage handle logicalPage physicalPage).allocator⟩
  | emsUnmapPage physicalPage =>
    exact ⟨_, _, rfl, h.congr (samePool_emsUnmapPage physicalPage).allocator⟩
  | emsDeallocate handle =>
    obtain ⟨status, m', mem', hm', h'⟩ := emsDeallocate_tidy h handle mem
    exact ⟨m', mem', by simp [Ems.step, hm'], h'⟩
  | emsSavePageMap handle => exact ⟨_, _, rfl, h.congr (samePool_emsSavePageMap handle).allocator⟩
  | emsRestorePageMap handle =>
    exact ⟨_, _, rfl, h.congr (samePool_emsRestorePageMap handle).allocator⟩
  | int67SetPageMap srcAddr =>
    exact ⟨_, _, rfl, h.congr (samePool_int67SetPageMap srcAddr).allocator⟩
  | emsSetPartialPageMap src =>
    exact ⟨_, _, rfl, h.congr (samePool_emsSetPartialPageMap src).allocator⟩
  | emsReallocate handle newCount =>
    obtain ⟨result, m', hm', h'⟩ := emsReallocate_tidy hfour hpage h handle newCount
    exact ⟨m', mem, by simp [Ems.step, hm'], h'⟩
  | emsSetHandleName handle name =>
    exact ⟨_, _, rfl, h.congr (samePool_emsSetHandleName handle name).allocator⟩
  | xmsAllocate sizeKb =>
    obtain ⟨result, m', hm', h'⟩ := xmsAllocate_tidy hfour (hsmall hcall.1) h sizeKb
    exact ⟨m', mem, by simp [Ems.step, hm'], h'⟩
  | xmsAllocate32 sizeKb =>
    obtain ⟨result, m', hm', h'⟩ := xmsAllocate32_tidy hfour (hsmall hcall.1) h sizeKb
    exact ⟨m', mem, by simp [Ems.step, hm'], h'⟩
  | xmsFree handleId =>
    obtain ⟨result, m', hm', h'⟩ := xmsFree_tidy h handleId
    exact ⟨m', mem, by simp [Ems.step, hm'], h'⟩
  | xmsLock handleId => exact ⟨_, _, rfl, xmsLock_tidy h handleId⟩
  | xmsUnlock handleId => exact ⟨_, _, rfl, xmsUnlock_tidy h handleId⟩
  | xmsReallocate handleId newSizeKb =>
    obtain ⟨henabled, hlt⟩ := hcall
    obtain ⟨result, m', mem', hm', h'⟩ := xmsReallocateInternal_tidy hfour
      (hsmall henabled) h handleId (show newSizeKb < 2 ^ 32 by omega) mem
    exact ⟨m', mem', by simp [Ems.step, xmsReallocate, hm'], h'⟩
  | xmsReallocate32 handleId newSizeKb =>
    obtain ⟨henabled, hlt⟩ := hcall
    obtain ⟨result, m', mem', hm', h'⟩ :=
      xmsReallocate32_tidy hfour (hsmall henabled) h handleId hlt mem
    exact ⟨m', mem', by simp [Ems.step, hm'], h'⟩
  | store address bytes => exact ⟨m, _, rfl, h⟩

lemma run_tidy {xmsEnabled : Bool} (h : Tidy (gridStep xmsEnabled) m) (mem : σ) (calls : List Call)
    (hcalls : ∀ call ∈ calls, Issued xmsEnabled call) :
    ∃ m' mem', run m mem calls = some (m', mem') ∧ Tidy (gridStep xmsEnabled) m' := by
  induction calls generalizing m mem with
  | nil => exact ⟨m, mem, rfl, h⟩
  | cons call calls ih =>
    obtain ⟨m₁, mem₁, hstep, h₁⟩ := step_tidy h mem call (hcalls call List.mem_cons_self)
    obtain ⟨m₂, mem₂, hrun, h₂⟩ := ih h₁ mem₁ fun c hc => hcalls c (List.mem_cons_of_mem _ hc)
    exact ⟨m₂, mem₂, by simp [run, hstep, hrun], h₂⟩

lemma poolSize_le (size : ℕ) : poolSize size ≤ size := by
  unfold poolSize
  split_ifs <;> omega

lemma new_tidy {extendedMemorySize : ℕ} (hsize : extendedMemorySize < 2 ^ 32)
    (emsWindow : Option EmsWindow) (xmsEnabled : Bool) (umbWindow : Option UmbWindow) (mem : σ) :
    ∃ m' mem', new extendedMemorySize emsWindow xmsEnabled umbWindow mem = some (m', mem') ∧
      Tidy (gridStep xmsEnabled) m' := by
  obtain ⟨hfour, hpage⟩ := gridStep_dvd xmsEnabled
  unfold new
  dsimp only
  generalize hbase : (if (xmsEnabled && decide (extendedMemorySize ≥ hmaPoolReservationBytes)) = true
    then hmaPoolReservationBytes else 0) = base
  have hgrid := gridded_new (show extendedMemorySize - base < 2 ^ 32 by omega) (gridStep xmsEnabled)
  have hpool := (settled_new (show extendedMemorySize - base < 2 ^ 32 by omega)).2
  have haligns : ∀ size ≤ poolSize (extendedMemorySize - base),
      gridStep xmsEnabled = emsPageSize ∨ size + emsPageSize ≤ 2 ^ 32 := fun size hle => by
    have hpoolSize := poolSize_le (extendedMemorySize - base)
    cases xmsEnabled with
    | false => exact Or.inl rfl
    | true =>
      right
      simp only [emsPageSize]
      split_ifs at hbase with hbig
      · simp only [hmaPoolReservationBytes] at hbase
        omega
      · have hsmall : ¬ extendedMemorySize ≥ 64 * 1024 := fun hc => hbig (decide_eq_true hc)
        omega
  generalize (if emsWindow.isSome = true then enableEmsPageFrame mem else mem) = mem₁
  split_ifs with humb
  · obtain ⟨result, s, hs, hgrid', hsize'⟩ := hgrid.allocateAligned
      (step_dvd hpage) hfour umbBackingBytes 12 (hpage.trans (by decide)) (by decide)
      (by cases xmsEnabled <;> decide)
    change (BestFitAllocator.new (extendedMemorySize - base)).allocateAligned umbBackingBytes
      pageSize4k = _ at hs
    rw [hs]
    exact ⟨_, _, rfl, hgrid', haligns _ (hsize'.trans hpool).le⟩
  · exact ⟨_, _, rfl, hgrid, haligns _ hpool.le⟩

end

end Neetan.Ems
