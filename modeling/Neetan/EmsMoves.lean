import Neetan.EmsTransfer
import Neetan.PageFrameCells

/-!
What a move or an exchange leaves in memory.

A region of expanded memory is made of cells that no other region of a handle and no conventional
address outside the page frame shows. Two conventional regions may share cells, and then an
exchange leaves neither with what the other held.
-/

namespace Neetan.Ems

open Neetan.MachineInt Neetan.BestFit Neetan.EmulatedMemory MemoryAccess
open MemoryManager CellMemory

variable {σ : Type} [MemoryAccess σ]

/-! ### Requests -/

/-- The region that a request names. -/
def requestedRegion (memoryType handle offset segPage : ℕ) : EmsTransferRegion :=
  if memoryType = 0 then .conventional (segPage * 16 + offset)
  else .expanded handle (segPage * emsPageSize + offset)

def EmsMoveParams.srcRegion (params : EmsMoveParams) : EmsTransferRegion :=
  requestedRegion params.srcType params.srcHandle params.srcOffset params.srcSegPage

def EmsMoveParams.dstRegion (params : EmsMoveParams) : EmsTransferRegion :=
  requestedRegion params.dstType params.dstHandle params.dstOffset params.dstSegPage

variable {setup : Setup} {m : MemoryManager} {n memoryType handle offset segPage code : ℕ}
variable {region : EmsTransferRegion}

variable {regionOffset a k b : ℕ}

lemma checkedAdd_eq_some {x : ℕ} (h : checkedAdd 32 a b = some x) : x = a + b := by
  unfold checkedAdd at h
  split_ifs at h
  exact (Option.some.inj h).symm

lemma checkedMul_eq_some {x : ℕ} (h : checkedMul 32 a b = some x) : x = a * b := by
  unfold checkedMul at h
  split_ifs at h
  exact (Option.some.inj h).symm

lemma checkedAddress_eq_some {c x : ℕ}
    (h : ((checkedMul 32 a b).bind fun base => checkedAdd 32 base c) = some x) : x = a * b + c := by
  obtain ⟨base, hbase, hx⟩ := Option.bind_eq_some_iff.mp h
  rw [checkedAdd_eq_some hx, checkedMul_eq_some hbase]

/-- What comes of a request: the region named, if it lies where it should, or a failure code. -/
def Resolves (m : MemoryManager) (n : ℕ) (requested : EmsTransferRegion) :
    Except ℕ EmsTransferRegion → Prop
  | .ok region => Resolved m n region ∧ region = requested
  | .error code => code ≠ 0x00 ∧ code ≠ 0x92

lemma resolveEmsTransferRegion_resolves (h : Owned setup m)
    (memoryType handle offset segPage n : ℕ) :
    Resolves m n (requestedRegion memoryType handle offset segPage)
      (m.resolveEmsTransferRegion memoryType handle offset segPage n) := by
  unfold resolveEmsTransferRegion
  split
  · split
    · exact ⟨by decide, by decide⟩
    · rename_i linearAddress haddress
      split
      · exact ⟨by decide, by decide⟩
      · rename_i stop hstop
        split_ifs with hend
        · exact ⟨by decide, by decide⟩
        · rw [checkedAdd_eq_some hstop] at hend
          exact ⟨not_lt.mp hend, by rw [checkedAddress_eq_some haddress]; rfl⟩
  · by_cases hoffset : offset ≥ emsPageSize
    · rw [if_pos hoffset]
      exact ⟨by decide, by decide⟩
    rw [if_neg hoffset]
    cases hactive : m.activeEmsHandle handle with
    | none =>
      rw [if_pos (by simp [emsIsValidHandle, hactive])]
      exact ⟨by decide, by decide⟩
    | some found =>
      have hcount := h.counted found (List.mem_of_getElem? (activeEmsHandle_getElem? hactive))
      rw [if_neg (by simp [emsIsValidHandle, hactive])]
      simp only [emsHandlePages, hactive, Nat.mod_eq_of_lt hcount.count]
      split
      · exact ⟨by decide, by decide⟩
      · rename_i regionOffset haddress
        split_ifs with hpage
        · exact ⟨by decide, by decide⟩
        split
        · exact ⟨by decide, by decide⟩
        · rename_i totalBytes htotal
          split
          · exact ⟨by decide, by decide⟩
          · rename_i stop hstop
            split_ifs with hend
            · exact ⟨by decide, by decide⟩
            · rw [checkedAdd_eq_some hstop, checkedMul_eq_some htotal] at hend
              exact ⟨⟨found, hactive, not_lt.mp hend⟩,
                by rw [checkedAddress_eq_some haddress]; rfl⟩
  · exact ⟨by decide, by decide⟩

lemma resolveEmsTransferRegion_conventional (hend : segPage * 16 + offset + n ≤ 0x100000) :
    m.resolveEmsTransferRegion 0 handle offset segPage n =
      .ok (.conventional (segPage * 16 + offset)) := by
  have haddress : ((checkedMul 32 segPage 16).bind fun base => checkedAdd 32 base offset) =
      some (segPage * 16 + offset) := by
    rw [checkedMul, if_pos (by omega), Option.bind_some, checkedAdd, if_pos (by omega)]
  have hstop : checkedAdd 32 (segPage * 16 + offset) n = some (segPage * 16 + offset + n) :=
    if_pos (by omega)
  unfold resolveEmsTransferRegion
  simp only [haddress, hstop]
  exact if_neg (by omega)

/-! ### Cells of Regions -/

lemma emsPageSize_pos : 0 < emsPageSize := by decide

section Cells

variable [CellMemory σ] {mem : σ}
variable (hsize : extendedRamBase + setup.extendedMemorySize ≤ 2 ^ 32) (h : Owned setup m)

include h in
omit [CellMemory σ] in
lemma Owned.page_unique {i j l l' : ℕ} {u v : EmsHandle} {page : Allocation}
    (hi : m.emsHandles[i]? = some u) (hj : m.emsHandles[j]? = some v)
    (hu : u.pages[l]? = some page) (hv : v.pages[l']? = some page) : i = j ∧ l = l' := by
  have hnodup := h.leased.nodup
  rw [leases, List.map_append, List.map_flatMap] at hnodup
  have hpages := (List.nodup_append.mp hnodup).1
  have hmem : ∀ (w : EmsHandle) (k : ℕ), w.pages[k]? = some page →
      page ∈ (emsLeases w).map Prod.fst := fun w k hk => List.mem_map.mpr
    ⟨(page, emsPageSize), List.mem_map.mpr ⟨page, List.mem_of_getElem? hk, rfl⟩, rfl⟩
  obtain rfl := index_unique hpages hi hj (hmem u l hu) (hmem v l' hv)
  obtain rfl := Option.some.inj (hi.symm.trans hj)
  have hhandle : ((emsLeases u).map Prod.fst).Nodup :=
    (List.nodup_flatMap.mp hpages).1 u (List.mem_of_getElem? hi)
  have hfst : (emsLeases u).map Prod.fst = u.pages := by
    simp [emsLeases, pageLeases, Function.comp_def]
  rw [hfst] at hhandle
  obtain ⟨hlt, hl⟩ := List.getElem?_eq_some_iff.mp hu
  obtain ⟨hlt', hl'⟩ := List.getElem?_eq_some_iff.mp hv
  exact ⟨rfl, hhandle.getElem_inj_iff.mp (hl.trans hl'.symm)⟩

include hsize h

lemma expanded_cell [DirectCells σ extendedRamBase setup.extendedMemorySize]
    (hr : Resolved m n (.expanded handle regionOffset)) (hk : k < n) (mem : σ) :
    ∃ found page, m.emsHandles[handle]? = some found ∧
      found.pages[(regionOffset + k) / emsPageSize]? = some page ∧
      location mem (m.regionAddress (.expanded handle regionOffset) k) =
        extendedRamBase + setup.allocatorBaseOffset +
          (page.offset + (regionOffset + k) % emsPageSize) := by
  obtain ⟨found, hactive, hend⟩ := hr
  obtain ⟨page, hpage, hoffset⟩ := emsPageAllocationOffset_at hactive
    (show regionOffset + k < found.pages.length * emsPageSize by omega)
  have hi := activeEmsHandle_getElem? hactive
  have hmod : (regionOffset + k) % emsPageSize < emsPageSize := Nat.mod_lt _ emsPageSize_pos
  have hlease : (page, emsPageSize) ∈ leases m setup.reserved :=
    mem_leases_page (List.mem_of_getElem? hi) (List.mem_of_getElem? hpage)
  have haddress := pageAddress_add (x := 0) (k := (regionOffset + k) % emsPageSize) hsize h hactive
    (List.mem_of_getElem? hpage) (by omega)
  rw [Nat.add_zero, Nat.zero_add] at haddress
  have hlocation : location mem (m.extendedPoolLinearAddress page.offset +
      (regionOffset + k) % emsPageSize) = _ := location_lease hsize h hlease hmod
  refine ⟨found, page, hi, hpage, ?_⟩
  rw [regionAddress, hoffset, Option.getD_some, ← haddress]
  exact hlocation

variable [DirectCells σ extendedRamBase setup.extendedMemorySize]

lemma expanded_unique {handle' regionOffset' n' k' : ℕ}
    (hr : Resolved m n (.expanded handle regionOffset))
    (hr' : Resolved m n' (.expanded handle' regionOffset')) (hk : k < n) (hk' : k' < n')
    (hsame : location mem (m.regionAddress (.expanded handle regionOffset) k) =
      location mem (m.regionAddress (.expanded handle' regionOffset') k')) :
    handle = handle' ∧ regionOffset + k = regionOffset' + k' := by
  obtain ⟨found, page, hi, hpage, hcell⟩ := expanded_cell hsize h hr hk mem
  obtain ⟨found', page', hi', hpage', hcell'⟩ := expanded_cell hsize h hr' hk' mem
  rw [hcell, hcell'] at hsame
  have hbytes : page.offset + (regionOffset + k) % emsPageSize =
      page'.offset + (regionOffset' + k') % emsPageSize := Nat.add_left_cancel hsame
  obtain rfl : page = page' := by
    by_contra hne
    exact h.disjoint (mem_leases_page (List.mem_of_getElem? hi) (List.mem_of_getElem? hpage))
      (mem_leases_page (List.mem_of_getElem? hi') (List.mem_of_getElem? hpage')) hne
      (Nat.mod_lt _ emsPageSize_pos) (Nat.mod_lt _ emsPageSize_pos) hbytes
  obtain ⟨rfl, hnumber⟩ := h.page_unique hi hi' hpage hpage'
  refine ⟨rfl, ?_⟩
  rw [← Nat.div_add_mod (regionOffset + k) emsPageSize, hnumber, Nat.add_left_cancel hbytes,
    Nat.div_add_mod]

/-- The cell of a conventional address outside the page frame is no byte of a handle. -/
lemma conventional_ne_expanded (hout : Outside setup mem) (ha : a < extendedRamBase)
    (hframe : ¬ InFrame a) (hr : Resolved m n (.expanded handle regionOffset)) (hk : k < n) :
    location mem a ≠ location mem (m.regionAddress (.expanded handle regionOffset) k) := by
  obtain ⟨found, page, hi, hpage, hcell⟩ := expanded_cell hsize h hr hk mem
  rw [hcell]
  rcases hout a ha hframe with hsame | ⟨lease, hlease, j, hj, -, hlocation⟩
  · omega
  · rw [hlocation]
    intro hc
    have hmem := List.mem_of_getElem? hi
    have hmemPage := List.mem_of_getElem? hpage
    refine h.disjoint (List.mem_append_right _ (List.mem_append_right _ hlease))
      (mem_leases_page hmem hmemPage) (fun heq => ?_) hj (Nat.mod_lt _ emsPageSize_pos)
      (Nat.add_left_cancel hc)
    have hnodup := h.leased.nodup
    rw [leases, List.map_append, List.map_append] at hnodup
    refine (List.nodup_append.mp hnodup).2.2 page (List.mem_map.mpr ⟨(page, emsPageSize), ?_, rfl⟩)
      lease.1 (List.mem_append_right _ (List.mem_map_of_mem hlease)) heq.symm
    exact List.mem_flatMap.mpr ⟨found, hmem, List.mem_map_of_mem hmemPage⟩

omit hsize [DirectCells σ extendedRamBase setup.extendedMemorySize] in
lemma conventional_unique (hout : Outside setup mem) (ha : a < extendedRamBase)
    (hb : b < extendedRamBase) (hframe : ¬ InFrame a) (hframe' : ¬ InFrame b)
    (hsame : location mem a = location mem b) : a = b := by
  rcases hout a ha hframe with hown | ⟨lease, hlease, j, hj, haj, hlocation⟩
  · rcases hout b hb hframe' with hown' | ⟨lease', hlease', k, hk, hbk, hlocation'⟩
    · omega
    · omega
  · rcases hout b hb hframe' with hown' | ⟨lease', hlease', k, hk, hbk, hlocation'⟩
    · omega
    · rw [hlocation, hlocation'] at hsame
      have hbytes := Nat.add_left_cancel hsame
      by_cases heq : lease.1 = lease'.1
      · rw [heq] at hbytes
        omega
      · exact absurd hbytes (h.disjoint (List.mem_append_right _ (List.mem_append_right _ hlease))
          (List.mem_append_right _ (List.mem_append_right _ hlease')) heq hj hk)

/-- The region is expanded, or lies outside the page frame. -/
def ClearOfFrame (n : ℕ) : EmsTransferRegion → Prop
  | .conventional linearAddress => ∀ k < n, ¬ InFrame (linearAddress + k)
  | .expanded _ _ => True

lemma region_injective (hout : Outside setup mem) (hr : Resolved m n region)
    (hclear : ClearOfFrame n region) {j : ℕ} (hj : j < n) (hk : k < n)
    (hsame : location mem (m.regionAddress region j) = location mem (m.regionAddress region k)) :
    j = k := by
  cases region with
  | conventional linearAddress =>
    have hend : linearAddress + n ≤ extendedRamBase := hr
    exact Nat.add_left_cancel (conventional_unique h hout (by omega) (by omega) (hclear j hj)
      (hclear k hk) hsame)
  | expanded handle regionOffset =>
    exact Nat.add_left_cancel (expanded_unique hsize h hr hr hj hk hsame).2

variable {srcRegion dstRegion : EmsTransferRegion}

def BothConventional (srcRegion dstRegion : EmsTransferRegion) : Prop :=
  ∃ a b, srcRegion = .conventional a ∧ dstRegion = .conventional b

omit hsize h [CellMemory σ] [DirectCells σ extendedRamBase setup.extendedMemorySize] in
lemma rangesOverlap_eq_false {l l' : ℕ} (ha : a + l < 2 ^ 32) (hb : b + l' < 2 ^ 32)
    (hno : rangesOverlap a l b l' = false) : b + l' ≤ a ∨ a + l ≤ b := by
  simp only [rangesOverlap, wrappingAdd_of_lt ha, wrappingAdd_of_lt hb, Bool.and_eq_false_iff,
    decide_eq_false_iff_not, not_lt] at hno
  exact hno

omit hsize [CellMemory σ] [DirectCells σ extendedRamBase setup.extendedMemorySize] in
lemma expanded_end_lt (hr : Resolved m n (.expanded handle regionOffset)) :
    regionOffset + n < 2 ^ 32 := by
  obtain ⟨found, hactive, hend⟩ := hr
  have hcount := (h.counted found (List.mem_of_getElem? (activeEmsHandle_getElem? hactive))).count
  have hpage : emsPageSize = 16384 := rfl
  rw [hpage] at hend
  omega

/-- Regions that are not both conventional share no cell, if they pass the checks. -/
lemma regions_apart (hout : Outside setup mem) (hsrc : Resolved m n srcRegion)
    (hdst : Resolved m n dstRegion) (hclear : ClearOfFrame n srcRegion)
    (hclear' : ClearOfFrame n dstRegion) (hkind : ¬ BothConventional srcRegion dstRegion)
    (hno : sameHandleOverlap srcRegion dstRegion n = false) {j : ℕ} (hj : j < n) (hk : k < n) :
    location mem (m.regionAddress dstRegion j) ≠ location mem (m.regionAddress srcRegion k) := by
  cases srcRegion with
  | conventional a =>
    have hend : a + n ≤ extendedRamBase := hsrc
    cases dstRegion with
    | conventional b => exact absurd ⟨a, b, rfl, rfl⟩ hkind
    | expanded handle regionOffset =>
      exact (conventional_ne_expanded hsize h hout (by omega) (hclear k hk) hdst hj).symm
  | expanded handle regionOffset =>
    cases dstRegion with
    | conventional b =>
      have hend : b + n ≤ extendedRamBase := hdst
      exact conventional_ne_expanded hsize h hout (show b + j < extendedRamBase by omega)
        (hclear' j hj) hsrc hk
    | expanded handle' regionOffset' =>
      intro hsame
      obtain ⟨rfl, hbytes⟩ := expanded_unique hsize h hdst hsrc hj hk hsame
      have hranges := rangesOverlap_eq_false (expanded_end_lt h hsrc) (expanded_end_lt h hdst)
        (by simpa [sameHandleOverlap] using hno)
      omega

omit hsize [CellMemory σ] [DirectCells σ extendedRamBase setup.extendedMemorySize] in
lemma window_of_expanded (hr : Resolved m n (.expanded handle regionOffset)) (hpos : 0 < n) :
    ∃ window, m.emsWindow = some window := by
  obtain ⟨found, hactive, hend⟩ := hr
  cases hwindow : m.emsWindow with
  | some window => exact ⟨window, rfl⟩
  | none =>
    have hpages :=
      (h.counted found (List.mem_of_getElem? (activeEmsHandle_getElem? hactive))).shown hwindow
    rw [hpages, List.length_nil, Nat.zero_mul] at hend
    omega

omit hsize h [CellMemory σ] [DirectCells σ extendedRamBase setup.extendedMemorySize] in
lemma clearOfFrame_conventional {window : EmsWindow} (hwindow : window.pageFrameSegment = 0xC000)
    (hend : a + n ≤ extendedRamBase)
    (hno : rangesOverlap a n window.baseAddress window.size = false) :
    ClearOfFrame n (.conventional a) := by
  intro k hk hframe
  have hbase : window.baseAddress = emsPageFrameBase := by
    rw [EmsWindow.baseAddress, hwindow]
    rfl
  have hsize : window.size = physicalPages * 0x4000 := rfl
  rw [hbase, hsize] at hno
  have hranges := rangesOverlap_eq_false (by simp only [extendedRamBase] at hend; omega)
    (by decide) hno
  obtain ⟨hle, hlt⟩ := hframe
  omega

omit hsize [CellMemory σ] [DirectCells σ extendedRamBase setup.extendedMemorySize] in
lemma clearOfFrame
    (hwindow : ∀ window, m.emsWindow = some window → window.pageFrameSegment = 0xC000)
    (hsrc : Resolved m n srcRegion) (hdst : Resolved m n dstRegion) (hpos : 0 < n)
    (hkind : ¬ BothConventional srcRegion dstRegion)
    (hno : m.emsRegionsOverlapPageFrame srcRegion dstRegion n = false) :
    ClearOfFrame n srcRegion ∧ ClearOfFrame n dstRegion := by
  cases srcRegion with
  | conventional a =>
    cases dstRegion with
    | conventional b => exact absurd ⟨a, b, rfl, rfl⟩ hkind
    | expanded handle regionOffset =>
      obtain ⟨window, hw⟩ := window_of_expanded h hdst hpos
      rw [emsRegionsOverlapPageFrame, hw] at hno
      exact ⟨clearOfFrame_conventional (hwindow window hw) hsrc hno, trivial⟩
  | expanded handle regionOffset =>
    cases dstRegion with
    | conventional b =>
      obtain ⟨window, hw⟩ := window_of_expanded h hsrc hpos
      rw [emsRegionsOverlapPageFrame, hw] at hno
      exact ⟨trivial, clearOfFrame_conventional (hwindow window hw) hdst hno⟩
    | expanded handle' regionOffset' => exact ⟨trivial, trivial⟩

end Cells

end Neetan.Ems
