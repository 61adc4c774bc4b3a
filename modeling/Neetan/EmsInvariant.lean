import Neetan.BestFitLeases
import Neetan.XmsManager
import Mathlib.Tactic.FinCases

/-!
What the memory manager keeps between calls.

The pages of all EMS handles, the XMS blocks and the region behind the upper memory blocks are
held in the pool without repetition. Each physical page names a page of an active handle with
the offset of its allocation, and the machine's slot registers agree with the mappings.
-/

namespace Neetan.Ems

open Neetan.MachineInt Neetan.BestFit Neetan.Tiling Neetan.EmulatedMemory MemoryAccess
open FrameRegisters MemoryManager

variable {σ : Type} [MemoryAccess σ] [FrameRegisters σ]

def emsPages (m : MemoryManager) : List Allocation := m.emsHandles.flatMap EmsHandle.pages

def xmsAllocations (m : MemoryManager) : List Allocation :=
  m.xmsHandles.flatMap fun handle => handle.allocation.toList

/-- The mapping names a page of an active handle, with the offset of its allocation. -/
def Current (m : MemoryManager) (mapping : EmsMapping) : Prop :=
  m.emsPageAllocationOffset mapping.handle mapping.logicalPage = some mapping.allocationOffset

/-- The state between calls; `reserved` is held by no handle. -/
structure Inv (reserved : List Allocation) (m : MemoryManager) (mem : σ) : Prop where
  held : Held emsPageSize m.allocator (emsPages m) (xmsAllocations m ++ reserved)
  current : ∀ slot mapping, m.emsPageMapping slot = some mapping → Current m mapping
  shown : ∀ slot, slotBacking mem slot = (m.emsPageMapping slot).map fun mapping =>
    m.extendedPoolLinearAddress mapping.allocationOffset

variable {reserved : List Allocation} {m : MemoryManager} {mem : σ}

/-! ### Handles -/

lemma activeEmsHandle_eq_some {i : ℕ} {handle : EmsHandle} :
    m.activeEmsHandle i = some handle ↔ m.emsHandles[i]? = some handle ∧ handle.active = true := by
  simp [activeEmsHandle, Option.filter_eq_some_iff]

lemma emsPageAllocationOffset_eq_some {i l o : ℕ} :
    m.emsPageAllocationOffset i l = some o ↔ ∃ handle a, m.emsHandles[i]? = some handle ∧
      handle.active = true ∧ handle.pages[l]? = some a ∧ a.offset = o := by
  simp only [emsPageAllocationOffset, Option.bind_eq_bind, Option.bind_eq_some_iff,
    activeEmsHandle_eq_some, Option.pure_def, Option.some.injEq]
  constructor
  · rintro ⟨handle, ⟨hi, hactive⟩, a, ha, ho⟩
    exact ⟨handle, a, hi, hactive, ha, ho⟩
  · rintro ⟨handle, a, hi, hactive, ha, ho⟩
    exact ⟨handle, ⟨hi, hactive⟩, a, ha, ho⟩

lemma Current.congr {m' : MemoryManager} {mapping : EmsMapping} (h : Current m mapping)
    (hh : m'.emsHandles = m.emsHandles) : Current m' mapping := by
  unfold Current at h ⊢
  rw [emsPageAllocationOffset_eq_some] at h ⊢
  rwa [hh]

/-- One handle, in front of all that is held: the state after it has been replaced. -/
lemma Inv.focus (h : Inv reserved m mem) {i : ℕ} {handle : EmsHandle}
    (hi : m.emsHandles[i]? = some handle) :
    ∃ rest, (emsPages m).Perm (handle.pages ++ rest) ∧
      ∀ s' handle', Held emsPageSize s' (handle'.pages ++ rest) (xmsAllocations m ++ reserved) →
        (∀ slot mapping, m.emsPageMapping slot = some mapping → mapping.handle = i →
          handle'.active = true ∧ ∃ a, handle'.pages[mapping.logicalPage]? = some a ∧
            a.offset = mapping.allocationOffset) →
        Inv reserved { m with allocator := s', emsHandles := m.emsHandles.set i handle' } mem := by
  have hlt := (List.getElem?_eq_some_iff.mp hi).1
  obtain ⟨rest, hbefore, hafter⟩ := flatMap_set_perm EmsHandle.pages hi
  refine ⟨rest, hbefore, fun s' handle' hheld hcur => ?_⟩
  refine ⟨hheld.perm (hafter handle').symm (List.Perm.refl _),
    fun slot mapping hmap => ?_, h.shown⟩
  rw [Current, emsPageAllocationOffset_eq_some]
  by_cases hne : mapping.handle = i
  · obtain ⟨hactive, a, ha, ho⟩ := hcur slot mapping hmap hne
    exact ⟨handle', a, by rw [hne]; exact List.getElem?_set_self hlt, hactive, ha, ho⟩
  · obtain ⟨old, a, hold, hactive, ha, ho⟩ :=
      emsPageAllocationOffset_eq_some.mp (h.current slot mapping hmap)
    exact ⟨old, a, (List.getElem?_set_ne (Ne.symm hne)).trans hold, hactive, ha, ho⟩

/-- One XMS handle, in front of all that is held: the state after it has been replaced. -/
lemma Inv.focusXms (h : Inv reserved m mem) {i : ℕ} {handle : XmsHandle}
    (hi : m.xmsHandles[i]? = some handle) :
    ∃ rest, (xmsAllocations m ++ reserved).Perm (handle.allocation.toList ++ rest) ∧
      ∀ s' handle' (mem' : σ), Held emsPageSize s' (emsPages m) (handle'.allocation.toList ++ rest) →
        slotBacking mem' = slotBacking mem →
        Inv reserved ({ m with allocator := s' }.setXmsHandle i handle') mem' := by
  obtain ⟨rest, hbefore, hafter⟩ := flatMap_set_perm (fun h : XmsHandle => h.allocation.toList) hi
  refine ⟨rest ++ reserved, ?_, fun s' handle' mem' hheld hmem =>
    ⟨hheld.perm (List.Perm.refl _) ?_, fun slot mapping hmap =>
      (h.current slot mapping hmap).congr rfl, fun slot => ?_⟩⟩
  · rw [← List.append_assoc]
    exact hbefore.append_right _
  · rw [← List.append_assoc]
    exact (hafter handle').symm.append_right _
  · rw [hmem]
    exact h.shown slot

/-! ### Physical Pages -/

lemma Inv.setSlot (h : Inv reserved m mem) (physical : Fin physicalPages)
    {mapping : Option EmsMapping} (hcur : ∀ new, mapping = some new → Current m new) :
    Inv reserved (m.setSlot physical mapping mem).1 (m.setSlot physical mapping mem).2 := by
  refine ⟨h.held, fun slot old hold => ?_, fun slot => ?_⟩
  · change Function.update m.emsPageMapping physical mapping slot = some old at hold
    rw [Function.update_apply] at hold
    split_ifs at hold with hslot
    · exact (hcur old hold).congr rfl
    · exact (h.current slot old hold).congr rfl
  · change slotBacking (mapEmsPageFrameSlot mem physical
      ((Function.update m.emsPageMapping physical mapping physical).map _)) slot =
      (Function.update m.emsPageMapping physical mapping slot).map _
    rw [slotBacking_mapEmsPageFrameSlot, Function.update_self, Function.update_apply]
    by_cases hslot : slot = physical
    · rw [if_pos (congrArg Fin.val hslot), if_pos hslot]
      rfl
    · rw [if_neg fun hc => hslot (Fin.ext hc), if_neg hslot]
      exact h.shown slot

lemma emsMapPage_spec (h : Inv reserved m mem) (handle logicalPage physicalPage : ℕ) :
    Inv reserved (m.emsMapPage handle logicalPage physicalPage mem).2.1
      (m.emsMapPage handle logicalPage physicalPage mem).2.2 := by
  unfold emsMapPage
  split_ifs with hphys
  swap
  · exact h
  cases hactive : m.activeEmsHandle handle with
  | none => exact h
  | some found =>
    cases hpage : found.pages[logicalPage]? with
    | none => simpa only [hpage] using h
    | some page =>
      simp only [hpage]
      refine h.setSlot _ fun new hnew => ?_
      obtain rfl := Option.some.inj hnew
      obtain ⟨hi, ha⟩ := activeEmsHandle_eq_some.mp hactive
      exact emsPageAllocationOffset_eq_some.mpr ⟨found, page, hi, ha, hpage, rfl⟩

lemma emsUnmapPage_spec (h : Inv reserved m mem) (physicalPage : ℕ) :
    Inv reserved (m.emsUnmapPage physicalPage mem).2.1 (m.emsUnmapPage physicalPage mem).2.2 := by
  unfold emsUnmapPage
  split_ifs with hphys
  · exact h.setSlot _ fun new hnew => by cases hnew
  · exact h

lemma slotBacking_applyAll (slots : List (Fin physicalPages)) (slot : Fin physicalPages) :
    slotBacking (slots.foldl (fun mem slot => m.applyEmsPageFrameSlotMapping slot mem) mem) slot =
      if slot ∈ slots then (m.emsPageMapping slot).map fun mapping =>
        m.extendedPoolLinearAddress mapping.allocationOffset
      else slotBacking mem slot := by
  induction slots generalizing mem with
  | nil => rfl
  | cons first slots ih =>
    rw [List.foldl_cons, ih, applyEmsPageFrameSlotMapping, slotBacking_mapEmsPageFrameSlot]
    by_cases hmem : slot ∈ slots
    · rw [if_pos hmem, if_pos (List.mem_cons_of_mem _ hmem)]
    · rw [if_neg hmem]
      by_cases hslot : slot = first
      · rw [if_pos (congrArg Fin.val hslot), if_pos (hslot ▸ List.mem_cons_self), hslot]
      · rw [if_neg fun hc => hslot (Fin.ext hc), if_neg (by simp [hslot, hmem])]

lemma emsSetPageMap_spec (h : Inv reserved m mem) {saved : PageMap}
    (hcur : ∀ slot mapping, saved slot = some mapping → Current m mapping) :
    Inv reserved (m.emsSetPageMap saved mem).1 (m.emsSetPageMap saved mem).2 := by
  refine ⟨h.held, fun slot mapping hmap => (hcur slot mapping hmap).congr rfl, fun slot => ?_⟩
  exact (slotBacking_applyAll (List.finRange physicalPages) slot).trans
    (if_pos (List.mem_finRange slot))

omit [FrameRegisters σ] in
lemma readPageMapSlot_current {srcAddr : ℕ} {i : Fin physicalPages} {mapping : EmsMapping}
    (h : m.readPageMapSlot mem srcAddr i = .ok (some mapping)) : Current m mapping := by
  unfold readPageMapSlot at h
  dsimp only at h
  split_ifs at h
  · cases h
  · split at h
    · cases h
    · obtain rfl : _ = mapping := by simpa using h
      assumption

omit [FrameRegisters σ] in
lemma readPageMapFromMemory_current {srcAddr : ℕ} {map : PageMap}
    (h : m.readPageMapFromMemory mem srcAddr = .ok map) (slot : Fin physicalPages)
    (mapping : EmsMapping) (hmap : map slot = some mapping) : Current m mapping := by
  unfold readPageMapFromMemory at h
  cases h0 : m.readPageMapSlot mem srcAddr 0 with
  | error => rw [h0] at h; cases h
  | ok slot0 =>
  cases h1 : m.readPageMapSlot mem srcAddr 1 with
  | error => rw [h0, h1] at h; cases h
  | ok slot1 =>
  cases h2 : m.readPageMapSlot mem srcAddr 2 with
  | error => rw [h0, h1, h2] at h; cases h
  | ok slot2 =>
  cases h3 : m.readPageMapSlot mem srcAddr 3 with
  | error => rw [h0, h1, h2, h3] at h; cases h
  | ok slot3 =>
    rw [h0, h1, h2, h3] at h
    obtain rfl : ![slot0, slot1, slot2, slot3] = map := by cases h; rfl
    fin_cases slot
    · exact readPageMapSlot_current (h0.trans (congrArg _ hmap))
    · exact readPageMapSlot_current (h1.trans (congrArg _ hmap))
    · exact readPageMapSlot_current (h2.trans (congrArg _ hmap))
    · exact readPageMapSlot_current (h3.trans (congrArg _ hmap))

lemma int67SetPageMap_spec (h : Inv reserved m mem) (srcAddr : ℕ) :
    Inv reserved (m.int67SetPageMap srcAddr mem).2.1 (m.int67SetPageMap srcAddr mem).2.2 := by
  unfold int67SetPageMap
  cases hread : m.readPageMapFromMemory mem srcAddr with
  | error => exact h
  | ok map => exact emsSetPageMap_spec h (readPageMapFromMemory_current hread)

lemma setPartialEntries_spec (src : List UInt8) (entries : List ℕ) (h : Inv reserved m mem) :
    Inv reserved (setPartialEntries src entries m mem).2.1
      (setPartialEntries src entries m mem).2.2 := by
  induction entries generalizing m mem with
  | nil => exact h
  | cons i entries ih =>
    unfold setPartialEntries
    dsimp only
    cases m.physicalPageForSegment (saveArrayWord src (1 + i * 6)) with
    | none => exact h
    | some physical =>
      dsimp only
      have hentry : ∀ state : ℕ × MemoryManager × σ, Inv reserved state.2.1 state.2.2 →
          Inv reserved (if state.1 ≠ 0 then state
            else setPartialEntries src entries state.2.1 state.2.2).2.1
          (if state.1 ≠ 0 then state
            else setPartialEntries src entries state.2.1 state.2.2).2.2 := fun state hs => by
        split_ifs
        · exact hs
        · exact ih hs
      by_cases hunmap : saveArrayWord src (1 + i * 6 + 2) = 0xFFFF ∨
          saveArrayWord src (1 + i * 6 + 4) = 0xFFFF
      · rw [if_pos hunmap]
        exact hentry _ (emsUnmapPage_spec h physical)
      · rw [if_neg hunmap]
        exact hentry _ (emsMapPage_spec h _ _ physical)

lemma emsSetPartialPageMap_spec (h : Inv reserved m mem) (src : List UInt8) :
    Inv reserved (m.emsSetPartialPageMap src mem).2.1 (m.emsSetPartialPageMap src mem).2.2 := by
  unfold emsSetPartialPageMap
  cases src with
  | nil => exact h
  | cons count src =>
    dsimp only
    split_ifs
    · exact h
    · exact setPartialEntries_spec _ _ h

end Neetan.Ems
