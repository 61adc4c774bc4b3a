import Neetan.XmsContents

/-!
Conventional memory outside the page frame.

The calls of the memory manager map the slots of the page frame and copy blocks. Neither changes
where a conventional address outside the frame leads, so that it never leads to a page.
-/

namespace Neetan.Ems

open Neetan.MachineInt Neetan.BestFit Neetan.EmulatedMemory MemoryAccess
open MemoryManager CellMemory FrameCells

variable {σ : Type} [MemoryAccess σ] [CellMemory σ]
variable {m m' : MemoryManager} {mem mem' mem'' : σ} {setup : Setup}

/-- Outside the page frame, each address leads where it led. -/
def SameOutside (mem mem' : σ) : Prop :=
  ∀ a, ¬ InFrame a → location mem' a = location mem a

lemma SameOutside.refl (mem : σ) : SameOutside mem mem := fun _ _ => rfl

lemma SameOutside.trans (h : SameOutside mem mem') (h' : SameOutside mem' mem'') :
    SameOutside mem mem'' := fun a ha => (h' a ha).trans (h a ha)

/-! ### Mapping Calls -/

section Calls

variable [FrameCells σ]

lemma sameOutside_applySlot (slot : Fin physicalPages) (mem : σ) :
    SameOutside mem (m.applyEmsPageFrameSlotMapping slot mem) := fun a ha =>
  location_mapEmsPageFrameSlot mem _ _ a ha

lemma sameOutside_setSlot (physical : Fin physicalPages) (mapping : Option EmsMapping) (mem : σ) :
    SameOutside mem (m.setSlot physical mapping mem).2 := sameOutside_applySlot physical mem

lemma sameOutside_unmapSlots (i : ℕ) (slots : List (Fin physicalPages)) :
    SameOutside mem (slots.foldl (unmapSlotOf i) (m, mem)).2 := by
  induction slots generalizing m mem with
  | nil => exact SameOutside.refl mem
  | cons slot slots ih =>
    rw [List.foldl_cons]
    unfold unmapSlotOf
    cases m.emsPageMapping slot with
    | none => exact ih
    | some mapping =>
      dsimp only
      split_ifs
      · exact (sameOutside_setSlot slot none mem).trans ih
      · exact ih

lemma sameOutside_emsMapPage (handle logicalPage physicalPage : ℕ) :
    SameOutside mem (m.emsMapPage handle logicalPage physicalPage mem).2.2 := by
  unfold emsMapPage
  split_ifs
  · cases m.activeEmsHandle handle with
    | none => exact SameOutside.refl mem
    | some found =>
      dsimp only
      cases found.pages[logicalPage]? with
      | none => exact SameOutside.refl mem
      | some page => exact sameOutside_setSlot _ _ mem
  · exact SameOutside.refl mem

lemma sameOutside_emsUnmapPage (physicalPage : ℕ) :
    SameOutside mem (m.emsUnmapPage physicalPage mem).2.2 := by
  unfold emsUnmapPage
  split_ifs
  · exact sameOutside_setSlot _ _ mem
  · exact SameOutside.refl mem

lemma sameOutside_setPartialEntries (src : List UInt8) (entries : List ℕ) :
    SameOutside mem (setPartialEntries src entries m mem).2.2 := by
  induction entries generalizing m mem with
  | nil => exact SameOutside.refl mem
  | cons i entries ih =>
    unfold setPartialEntries
    dsimp only
    cases m.physicalPageForSegment (saveArrayWord src (1 + i * 6)) with
    | none => exact SameOutside.refl mem
    | some physical =>
      dsimp only
      have hentry : ∀ state : ℕ × MemoryManager × σ, SameOutside mem state.2.2 →
          SameOutside mem (if state.1 ≠ 0 then state
            else setPartialEntries src entries state.2.1 state.2.2).2.2 := fun state hs => by
        split_ifs
        · exact hs
        · exact hs.trans ih
      by_cases hunmap : saveArrayWord src (1 + i * 6 + 2) = 0xFFFF ∨
          saveArrayWord src (1 + i * 6 + 4) = 0xFFFF
      · rw [if_pos hunmap]
        exact hentry _ (sameOutside_emsUnmapPage physical)
      · rw [if_neg hunmap]
        exact hentry _ (sameOutside_emsMapPage _ _ physical)

lemma sameOutside_emsSetPartialPageMap (src : List UInt8) :
    SameOutside mem (m.emsSetPartialPageMap src mem).2.2 := by
  unfold emsSetPartialPageMap
  cases src with
  | nil => exact SameOutside.refl mem
  | cons count src =>
    dsimp only
    split_ifs
    · exact SameOutside.refl mem
    · exact sameOutside_setPartialEntries _ _

lemma sameOutside_emsSetPageMap (saved : PageMap) :
    SameOutside mem (m.emsSetPageMap saved mem).2 := by
  have hslots : ∀ (m : MemoryManager) (slots : List (Fin physicalPages)) (mem : σ), SameOutside mem
      (slots.foldl (fun mem slot => m.applyEmsPageFrameSlotMapping slot mem) mem) := by
    intro m slots
    induction slots with
    | nil => exact SameOutside.refl
    | cons slot slots ih => exact fun mem => (sameOutside_applySlot slot mem).trans (ih _)
  exact hslots _ _ mem

lemma sameOutside_emsRestorePageMap (i : ℕ) : SameOutside mem (m.emsRestorePageMap i mem).2.2 := by
  unfold emsRestorePageMap
  cases m.activeEmsHandle i with
  | none => exact SameOutside.refl mem
  | some handle =>
    dsimp only
    cases handle.saveContext with
    | none => exact SameOutside.refl mem
    | some saved => exact sameOutside_emsSetPageMap saved

lemma sameOutside_int67SetPageMap (srcAddr : ℕ) :
    SameOutside mem (m.int67SetPageMap srcAddr mem).2.2 := by
  unfold int67SetPageMap
  cases m.readPageMapFromMemory mem srcAddr with
  | error => exact SameOutside.refl mem
  | ok map => exact sameOutside_emsSetPageMap map

lemma sameOutside_emsDeallocate {i status : ℕ}
    (h : m.emsDeallocate i mem = some (status, m', mem')) : SameOutside mem mem' := by
  unfold emsDeallocate at h
  cases hactive : m.activeEmsHandle i with
  | none =>
    rw [hactive] at h
    cases h
    exact SameOutside.refl mem
  | some handle =>
    rw [hactive] at h
    dsimp only at h
    by_cases hcontext : handle.saveContext.isSome = true
    · rw [if_pos hcontext] at h
      cases h
      exact SameOutside.refl mem
    · rw [if_neg hcontext] at h
      obtain ⟨s, -, hs⟩ := Option.bind_eq_some_iff.mp h
      cases hs
      exact sameOutside_unmapSlots i _

lemma Reallocated.sameOutside {i newSizeKb : ℕ} {handle handle' : XmsHandle}
    {result : Except ℕ Unit} (h : Reallocated m mem i handle newSizeKb result handle' m' mem') :
    SameOutside mem mem' := by
  obtain ⟨rfl, -⟩ | ⟨source, target, -, -, rfl⟩ := h.carried
  · exact SameOutside.refl _
  · intro a _
    unfold copyBlock
    split_ifs
    · rw [location_writeBlock]
    · rfl

lemma sameOutside_xmsReallocateInternal {step handleId newSizeKb : ℕ} {result : Except ℕ Unit}
    (hdvd : pageSize4k ∣ step) (hgrid : Gridded step m.allocator) (h : Owned setup m)
    (hlt : newSizeKb < 2 ^ 32)
    (hs : m.xmsReallocateInternal handleId newSizeKb mem = some (result, m', mem')) :
    SameOutside mem mem' := by
  cases hactive : m.activeXmsHandle handleId with
  | none =>
    rw [xmsReallocateInternal, hactive] at hs
    cases hs
    exact SameOutside.refl mem
  | some found =>
    obtain ⟨result', handle', m₁, mem₁, hrun, -, hr⟩ :=
      xmsReallocateInternal_reallocates hdvd hgrid h hactive mem hlt
    obtain ⟨rfl, hrest⟩ := Prod.mk.inj (Option.some.inj (hrun.symm.trans hs))
    obtain ⟨rfl, rfl⟩ := Prod.mk.inj hrest
    exact hr.sameOutside

/-! ### Runs -/

omit [MemoryAccess σ] [CellMemory σ] [FrameCells σ] in
lemma mem_of_bind {α : Type} {call : Run (α × MemoryManager)}
    (h : (call.bind fun result => some (result.2, mem)) = some (m', mem')) : mem' = mem := by
  obtain ⟨result, -, hr⟩ := Option.bind_eq_some_iff.mp h
  exact (Prod.mk.inj (Option.some.inj hr)).2.symm

lemma step_sameOutside {xmsEnabled : Bool} (ht : Tidy (gridStep xmsEnabled) m)
    (h : Owned setup m) (mem : σ) (call : Call) (hcall : Issued xmsEnabled call)
    (hstep : Ems.step m mem call = some (m', mem')) : SameOutside mem mem' := by
  have hdvd : pageSize4k ∣ gridStep xmsEnabled := by cases xmsEnabled <;> decide
  have hsame : mem' = mem → SameOutside mem mem' := fun hc => hc ▸ SameOutside.refl mem
  -- a call that only maps slots
  have hmaps : ∀ state : MemoryManager × σ, some state = some (m', mem') →
      SameOutside mem state.2 → SameOutside mem mem' := fun state hs hc => by
    rwa [Option.some.inj hs] at hc
  -- a call on an XMS handle that copies its block
  have hcopies : ∀ run : Run (Except ℕ Unit × MemoryManager × σ),
      (run.bind fun result => some result.2) = some (m', mem') →
      (∀ result m'' mem'', run = some (result, m'', mem'') → SameOutside mem mem'') →
      SameOutside mem mem' := fun run hrun hc => by
    obtain ⟨⟨result, m'', mem''⟩, hs, hr⟩ := Option.bind_eq_some_iff.mp hrun
    cases hr
    exact hc result _ _ hs
  cases call with
  | emsAllocatePages count => exact hsame (mem_of_bind hstep)
  | emsAllocatePagesZeroAllowed count => exact hsame (mem_of_bind hstep)
  | emsMapPage handle logicalPage physicalPage =>
    exact hmaps _ hstep (sameOutside_emsMapPage handle logicalPage physicalPage)
  | emsUnmapPage physicalPage => exact hmaps _ hstep (sameOutside_emsUnmapPage physicalPage)
  | emsDeallocate handle =>
    obtain ⟨⟨status, m'', mem''⟩, hs, hr⟩ := Option.bind_eq_some_iff.mp hstep
    cases hr
    exact sameOutside_emsDeallocate hs
  | emsSavePageMap handle => exact hsame (Prod.mk.inj (Option.some.inj hstep)).2.symm
  | emsRestorePageMap handle => exact hmaps _ hstep (sameOutside_emsRestorePageMap handle)
  | int67SetPageMap srcAddr => exact hmaps _ hstep (sameOutside_int67SetPageMap srcAddr)
  | emsSetPartialPageMap src => exact hmaps _ hstep (sameOutside_emsSetPartialPageMap src)
  | emsReallocate handle newCount => exact hsame (mem_of_bind hstep)
  | emsSetHandleName handle name => exact hsame (Prod.mk.inj (Option.some.inj hstep)).2.symm
  | xmsAllocate sizeKb => exact hsame (mem_of_bind hstep)
  | xmsAllocate32 sizeKb => exact hsame (mem_of_bind hstep)
  | xmsFree handleId => exact hsame (mem_of_bind hstep)
  | xmsLock handleId => exact hsame (Prod.mk.inj (Option.some.inj hstep)).2.symm
  | xmsUnlock handleId => exact hsame (Prod.mk.inj (Option.some.inj hstep)).2.symm
  | xmsReallocate handleId newSizeKb =>
    obtain ⟨henabled, hlt⟩ := hcall
    exact hcopies _ hstep fun _ _ _ hs => sameOutside_xmsReallocateInternal hdvd ht.gridded h
      (show newSizeKb < 2 ^ 32 by omega) hs
  | xmsReallocate32 handleId newSizeKb =>
    refine hcopies _ hstep fun result m'' mem'' hs => ?_
    unfold xmsReallocate32 at hs
    split_ifs at hs
    · cases hs
      exact SameOutside.refl mem
    · exact sameOutside_xmsReallocateInternal hdvd ht.gridded h hcall.2 hs
  | store address bytes =>
    cases hstep
    exact fun a _ => congrFun (location_writeBlock mem address bytes) a

lemma run_sameOutside {xmsEnabled : Bool} (ht : Tidy (gridStep xmsEnabled) m)
    (h : Owned setup m) (mem : σ) (calls : List Call)
    (hcalls : ∀ call ∈ calls, Issued xmsEnabled call)
    (hrun : run m mem calls = some (m', mem')) : SameOutside mem mem' := by
  induction calls generalizing m mem with
  | nil =>
    cases hrun
    exact SameOutside.refl _
  | cons call calls ih =>
    have hcall := hcalls call List.mem_cons_self
    obtain ⟨⟨m₁, mem₁⟩, hstep, hrest⟩ := Option.bind_eq_some_iff.mp hrun
    obtain ⟨m₂, mem₂, hstep', h₁⟩ := step_owned ht h mem call hcall
    obtain ⟨rfl, rfl⟩ := Prod.mk.inj (Option.some.inj (hstep'.symm.trans hstep))
    obtain ⟨m₂, mem₂, hstep', ht₁⟩ := step_tidy ht mem call hcall
    obtain ⟨rfl, rfl⟩ := Prod.mk.inj (Option.some.inj (hstep'.symm.trans hstep))
    exact (step_sameOutside ht h mem call hcall hstep).trans
      (ih ht₁ h₁ _ (fun c hc => hcalls c (List.mem_cons_of_mem _ hc)) hrest)

/-! ### Conventional Addresses -/

/-- Outside the page frame a conventional address shows a cell of its own, which is its number or
lies in the region behind the upper memory blocks. -/
def Outside (setup : Setup) (mem : σ) : Prop :=
  ∀ a < extendedRamBase, ¬ InFrame a → location mem a = a ∨
    ∃ lease ∈ setup.reserved, ∃ k < lease.2, a = 0xC0000 + k ∧
      location mem a = extendedRamBase + setup.allocatorBaseOffset + (lease.1.offset + k)

lemma location_writeUmbBlocks (blocks : List UmbBlock) (mem : σ) :
    location (writeUmbBlocks mem blocks) = location mem := by
  induction blocks generalizing mem with
  | nil => rfl
  | cons block blocks ih =>
    rw [writeUmbBlocks, ih]
    simp [writeMcb, location_writeBlock, location_writeWord, location_writeByte]

/-- A new manager redirects at most the addresses of the upper memory blocks. -/
lemma outside_new (hsize : extendedRamBase + setup.extendedMemorySize ≤ 2 ^ 32)
    (h : Owned setup m') (hp : Prepared mem setup.reserved m' mem')
    (hmem : ∀ a < extendedRamBase, ¬ InFrame a → location mem a = a) : Outside setup mem' := by
  obtain ⟨mem₁, hframe, hmem'⟩ := hp
  have hmem₁ : ∀ a < extendedRamBase, ¬ InFrame a → location mem₁ a = a := fun a ha hout => by
    rcases hframe with hframe | hframe
    · rw [hframe]
      exact hmem a ha hout
    · rw [hframe, location_enableEmsPageFrame mem a hout]
      exact hmem a ha hout
  intro a ha hout
  rcases hmem' with rfl | ⟨backing, window, emsEnabled, hreserved, rfl⟩
  · exact Or.inl (hmem₁ a ha hout)
  · rw [writeUmbChain, location_writeUmbBlocks]
    rcases location_enableUmbRegion mem₁ (m'.extendedPoolLinearAddress backing.offset) a hout with
      hsame | ⟨k, hk, hak, hlocation⟩
    · exact Or.inl (hsame.trans (hmem₁ a ha hout))
    · have hlease : (backing, umbBackingBytes) ∈ setup.reserved := by
        rw [hreserved]
        exact List.mem_singleton_self _
      have hend := h.leased.end_le (List.mem_append_right _ (List.mem_append_right _ hlease))
      have hwithin := h.within
      dsimp only at hend
      have hbytes : umbBackingBytes = 0x20000 := rfl
      refine Or.inr ⟨_, hlease, k, hk, hak, ?_⟩
      rw [hlocation, extendedPoolLinearAddress_eq hsize h (by omega), Nat.add_assoc]

end Calls

end Neetan.Ems
