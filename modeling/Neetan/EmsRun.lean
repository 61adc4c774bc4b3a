import Neetan.EmsCalls

/-!
Runs of EMS and XMS calls.

In a run in which no handle loses a page that a physical page shows, and no page map is
restored that names a page since freed, the page frame shows nothing but the pages its
mappings name. Shrinking a handle whose last page is mapped leaves the frame on free memory.
-/

namespace Neetan.Ems

open Neetan.MachineInt Neetan.BestFit Neetan.Tiling Neetan.EmulatedMemory MemoryAccess
open FrameRegisters MemoryManager

variable {σ : Type} [MemoryAccess σ] [FrameRegisters σ]
variable {reserved : List Allocation} {m : MemoryManager} {mem : σ}

/-! ### One Call -/

/-- The call leaves no physical page behind: shrinking a handle takes none of its pages that is
mapped, and a page map to restore names only pages as they are allocated now. -/
def Refreshes (self : MemoryManager) : Call → Prop
  | .emsReallocate i newCount => ∀ slot mapping, self.emsPageMapping slot = some mapping →
      mapping.handle = i → mapping.logicalPage < newCount
  | .emsRestorePageMap i => ∀ handle saved, self.activeEmsHandle i = some handle →
      handle.saveContext = some saved → ∀ slot mapping, saved slot = some mapping →
        self.emsPageAllocationOffset mapping.handle mapping.logicalPage =
          some mapping.allocationOffset
  | _ => True

lemma step_spec (h : Inv reserved m mem) (call : Call) (hcall : Refreshes m call) :
    ∃ m' mem', step m mem call = some (m', mem') ∧ Inv reserved m' mem' := by
  cases call with
  | emsAllocatePages count =>
    obtain ⟨result, m', hm', h'⟩ := emsAllocatePages_spec h count
    exact ⟨m', mem, by simp [step, hm'], h'⟩
  | emsAllocatePagesZeroAllowed count =>
    obtain ⟨result, m', hm', h'⟩ := emsAllocate_spec h count
    exact ⟨m', mem, by simp [step, emsAllocatePagesZeroAllowed, hm'], h'⟩
  | emsMapPage handle logicalPage physicalPage =>
    exact ⟨_, _, rfl, emsMapPage_spec h handle logicalPage physicalPage⟩
  | emsUnmapPage physicalPage => exact ⟨_, _, rfl, emsUnmapPage_spec h physicalPage⟩
  | emsDeallocate handle =>
    obtain ⟨status, m', mem', hm', h'⟩ := emsDeallocate_spec h handle
    exact ⟨m', mem', by simp [step, hm'], h'⟩
  | emsSavePageMap handle => exact ⟨_, _, rfl, emsSavePageMap_spec h handle⟩
  | emsRestorePageMap handle => exact ⟨_, _, rfl, emsRestorePageMap_spec h handle hcall⟩
  | int67SetPageMap srcAddr => exact ⟨_, _, rfl, int67SetPageMap_spec h srcAddr⟩
  | emsSetPartialPageMap src => exact ⟨_, _, rfl, emsSetPartialPageMap_spec h src⟩
  | emsReallocate handle newCount =>
    obtain ⟨result, m', hm', h'⟩ := emsReallocate_spec h handle newCount hcall
    exact ⟨m', mem, by simp [step, hm'], h'⟩
  | emsSetHandleName handle name => exact ⟨_, _, rfl, emsSetHandleName_spec h handle name⟩
  | xmsAllocate sizeKb =>
    obtain ⟨result, m', hm', h'⟩ := xmsAllocate_spec h sizeKb
    exact ⟨m', mem, by simp [step, hm'], h'⟩
  | xmsAllocate32 sizeKb =>
    obtain ⟨result, m', hm', h'⟩ := xmsAllocate32_spec h sizeKb
    exact ⟨m', mem, by simp [step, hm'], h'⟩
  | xmsFree handleId =>
    obtain ⟨result, m', hm', h'⟩ := xmsFree_spec h handleId
    exact ⟨m', mem, by simp [step, hm'], h'⟩
  | xmsLock handleId => exact ⟨_, _, rfl, xmsLock_spec h handleId⟩
  | xmsUnlock handleId => exact ⟨_, _, rfl, xmsUnlock_spec h handleId⟩
  | xmsReallocate handleId newSizeKb =>
    obtain ⟨result, m', mem', hm', h'⟩ := xmsReallocateInternal_spec h handleId newSizeKb
    exact ⟨m', mem', by simp [step, xmsReallocate, hm'], h'⟩
  | xmsReallocate32 handleId newSizeKb =>
    obtain ⟨result, m', mem', hm', h'⟩ := xmsReallocate32_spec h handleId newSizeKb
    exact ⟨m', mem', by simp [step, hm'], h'⟩
  | store address bytes =>
    refine ⟨m, _, rfl, h.held, h.current, fun slot => ?_⟩
    rw [slotBacking_writeBlock]
    exact h.shown slot

/-! ### Runs -/

/-- Every call of the run refreshes what it must. -/
def Refreshed (self : MemoryManager) (mem : σ) : List Call → Prop
  | [] => True
  | call :: calls => Refreshes self call ∧
      ∀ self' mem', step self mem call = some (self', mem') → Refreshed self' mem' calls

instance (self : MemoryManager) : (call : Call) → Decidable (Refreshes self call)
  | .emsReallocate i newCount => decidable_of_iff (∀ slot, ∀ mapping ∈ self.emsPageMapping slot,
      mapping.handle = i → mapping.logicalPage < newCount) Iff.rfl
  | .emsRestorePageMap i => decidable_of_iff (∀ handle ∈ self.activeEmsHandle i,
      ∀ saved ∈ handle.saveContext, ∀ slot, ∀ mapping ∈ saved slot,
        self.emsPageAllocationOffset mapping.handle mapping.logicalPage =
          some mapping.allocationOffset)
      ⟨fun h handle saved hhandle hsaved => h handle hhandle saved hsaved,
        fun h handle hhandle saved hsaved => h handle saved hhandle hsaved⟩
  | .emsAllocatePages _ | .emsAllocatePagesZeroAllowed _ | .emsMapPage .. | .emsUnmapPage _
  | .emsDeallocate _ | .emsSavePageMap _ | .int67SetPageMap _ | .emsSetPartialPageMap _
  | .emsSetHandleName .. | .xmsAllocate _ | .xmsAllocate32 _ | .xmsFree _ | .xmsLock _
  | .xmsUnlock _ | .xmsReallocate .. | .xmsReallocate32 .. | .store .. => isTrue trivial

instance decideRefreshed : (calls : List Call) → (self : MemoryManager) → (mem : σ) →
    Decidable (Refreshed self mem calls)
  | [], _, _ => isTrue trivial
  | call :: calls, self, mem =>
    match hstep : step self mem call with
    | none => decidable_of_iff (Refreshes self call)
        ⟨fun h => ⟨h, fun _ _ h' => by rw [hstep] at h'; cases h'⟩, And.left⟩
    | some (self', mem') =>
      have := decideRefreshed calls self' mem'
      decidable_of_iff (Refreshes self call ∧ Refreshed self' mem' calls)
        ⟨fun h => ⟨h.1, fun _ _ h' => by rw [hstep] at h'; cases h'; exact h.2⟩,
          fun h => ⟨h.1, h.2 _ _ hstep⟩⟩

lemma run_spec (h : Inv reserved m mem) (calls : List Call) (hcalls : Refreshed m mem calls) :
    ∃ m' mem', run m mem calls = some (m', mem') ∧ Inv reserved m' mem' := by
  induction calls generalizing m mem with
  | nil => exact ⟨m, mem, rfl, h⟩
  | cons call calls ih =>
    obtain ⟨m₁, mem₁, hstep, h₁⟩ := step_spec h call hcalls.1
    obtain ⟨m₂, mem₂, hrun, h₂⟩ := ih h₁ (hcalls.2 m₁ mem₁ hstep)
    exact ⟨m₂, mem₂, by simp [run, hstep, hrun], h₂⟩

lemma slotBacking_writeUmbBlocks (blocks : List UmbBlock) :
    slotBacking (writeUmbBlocks mem blocks) = slotBacking mem := by
  induction blocks generalizing mem with
  | nil => rfl
  | cons block blocks ih =>
    rw [writeUmbBlocks, ih]
    simp [writeMcb]

lemma new_spec {extendedMemorySize : ℕ} (hsize : extendedMemorySize < 2 ^ 32)
    (emsWindow : Option EmsWindow) (xmsEnabled : Bool) (umbWindow : Option UmbWindow)
    (hmem : ∀ slot, slotBacking mem slot = none) :
    ∃ m' mem' reserved, new extendedMemorySize emsWindow xmsEnabled umbWindow mem =
      some (m', mem') ∧ Inv reserved m' mem' := by
  unfold new
  dsimp only
  generalize hbase : (if (xmsEnabled && decide (extendedMemorySize ≥ hmaPoolReservationBytes)) = true
    then hmaPoolReservationBytes else 0) = base
  have hpool : Held emsPageSize (BestFitAllocator.new (extendedMemorySize - base)) [] [] :=
    ⟨(settled_new (by omega)).1, List.nodup_nil, fun _ ha => absurd ha List.not_mem_nil,
      fun _ ha => absurd ha List.not_mem_nil⟩
  have hems : ∀ h : EmsHandle, h.pages = [] →
      ((List.replicate maxEmsHandles EmsHandle.newInactive).set emsOsReservedHandle h).flatMap
        EmsHandle.pages = [] := fun h hh => List.flatMap_eq_nil_iff.mpr fun handle hhandle => by
    rcases List.mem_or_eq_of_mem_set hhandle with hmem | rfl
    · rw [List.eq_of_mem_replicate hmem]
      rfl
    · exact hh
  have hxms : (List.replicate maxXmsHandles XmsHandle.newInactive).flatMap
      (fun handle => handle.allocation.toList) = [] :=
    List.flatMap_eq_nil_iff.mpr fun handle hhandle => by
      rw [List.eq_of_mem_replicate hhandle]
      rfl
  have hframe : ∀ slot,
      slotBacking (if emsWindow.isSome = true then enableEmsPageFrame mem else mem) slot = none :=
    fun slot => by
      split_ifs
      · rw [slotBacking_enableEmsPageFrame]
        exact hmem slot
      · exact hmem slot
  -- what is reserved, and what the memory shows, do not touch the empty page map
  have hinv : ∀ (s : BestFitAllocator) (reserved : List Allocation) (mem' : σ),
      Held emsPageSize s [] reserved → (∀ slot, slotBacking mem' slot = none) →
      Inv reserved
        { allocator := s
          extendedMemorySize
          allocatorBaseOffset := base
          emsWindow
          emsHandles := (List.replicate maxEmsHandles EmsHandle.newInactive).set emsOsReservedHandle
            { EmsHandle.newInactive with active := true }
          emsPageMapping := fun _ => none
          xmsHandles := List.replicate maxXmsHandles XmsHandle.newInactive } mem' :=
    fun s reserved mem' hheld hshown =>
      ⟨by rw [emsPages, xmsAllocations, hems _ rfl, hxms]; exact hheld,
        (fun _ _ hc => by cases hc), hshown⟩
  generalize (if emsWindow.isSome = true then enableEmsPageFrame mem else mem) = mem₁ at hframe ⊢
  split_ifs with humb
  · obtain ⟨result, s, hs, hnone, hsome⟩ := hpool.allocate umbBackingBytes pageSize4k
    rw [hs]
    simp only [Option.bind_eq_bind, Option.bind_some]
    cases result with
    | none =>
      refine ⟨_, _, [], rfl, hinv s [] _ (hnone rfl) fun slot => ?_⟩
      split
      · rename_i hc
        cases hc
      · exact hframe slot
    | some backing =>
      refine ⟨_, _, [backing], rfl, hinv s _ _ (hsome backing rfl).1 fun slot => ?_⟩
      split
      · rw [writeUmbChain, slotBacking_writeUmbBlocks, slotBacking_enableUmbRegion]
        exact hframe slot
      · exact hframe slot
  · simp only [Option.bind_eq_bind, Option.bind_some]
    refine ⟨_, _, [], rfl, hinv _ [] _ hpool fun slot => ?_⟩
    split
    · rename_i hc
      cases hc
    · exact hframe slot

/-! ### The Page Frame -/

/-- The pool position lies in the page's allocation. -/
def EmsOwns (m : MemoryManager) (i l x : ℕ) : Prop :=
  ∃ handle a n, m.emsHandles[i]? = some handle ∧ handle.pages[l]? = some a ∧
    Holds m.allocator a n ∧ (⟨a.offset, n⟩ : Region).Contains x

/-- The pool position lies in the handle's block. -/
def XmsOwns (m : MemoryManager) (i x : ℕ) : Prop :=
  ∃ handle a n, m.xmsHandles[i]? = some handle ∧ handle.allocation = some a ∧
    Holds m.allocator a n ∧ (⟨a.offset, n⟩ : Region).Contains x

def FreeAt (m : MemoryManager) (x : ℕ) : Prop := ∃ r ∈ freeRegions m.allocator, r.Contains x

/-- The mappings are up to date, and each byte of a mapped slot is a byte of the page that its
mapping names, which is neither free nor part of another page or block. -/
structure Coherent (m : MemoryManager) (mem : σ) : Prop where
  mappings : ∀ slot mapping, m.emsPageMapping slot = some mapping →
    ∃ handle, m.emsHandles[mapping.handle]? = some handle ∧ handle.active = true ∧
      ∃ h : mapping.logicalPage < handle.pages.length,
        handle.pages[mapping.logicalPage].offset = mapping.allocationOffset
  shows : ∀ slot backing k, slotBacking mem slot = some backing → k < emsPageSize →
    ∃ mapping x, m.emsPageMapping slot = some mapping ∧ x < m.allocator.size ∧
      m.extendedPoolLinearAddress x = wrappingAdd 32 backing k ∧
      (∀ y < m.allocator.size,
        m.extendedPoolLinearAddress y = wrappingAdd 32 backing k → y = x) ∧
      EmsOwns m mapping.handle mapping.logicalPage x ∧ ¬ FreeAt m x ∧
      (∀ i l, EmsOwns m i l x → i = mapping.handle ∧ l = mapping.logicalPage) ∧
      ∀ i, ¬ XmsOwns m i x

lemma index_unique {α β : Type} {f : α → List β} {l : List α} (h : (l.flatMap f).Nodup)
    {i j : ℕ} {u v : α} {a : β} (hi : l[i]? = some u) (hj : l[j]? = some v) (hu : a ∈ f u)
    (hv : a ∈ f v) : i = j := by
  have hpair := (List.nodup_flatMap.mp h).2
  rw [List.pairwise_iff_getElem] at hpair
  obtain ⟨hilt, rfl⟩ := List.getElem?_eq_some_iff.mp hi
  obtain ⟨hjlt, rfl⟩ := List.getElem?_eq_some_iff.mp hj
  rcases Nat.lt_trichotomy i j with hlt | heq | hgt
  · exact absurd hv (hpair i j hilt hjlt hlt hu)
  · exact heq
  · exact absurd hu (hpair j i hjlt hilt hgt hv)

lemma mem_emsPages {i l : ℕ} {handle : EmsHandle} {a : Allocation}
    (hi : m.emsHandles[i]? = some handle) (ha : handle.pages[l]? = some a) : a ∈ emsPages m :=
  List.mem_flatMap.mpr ⟨handle, List.mem_of_getElem? hi, List.mem_of_getElem? ha⟩

lemma Inv.emsOwns_unique (h : Inv reserved m mem) {i j l k : ℕ} {handle : EmsHandle}
    {a : Allocation} {n x : ℕ} (hi : m.emsHandles[i]? = some handle)
    (ha : handle.pages[l]? = some a) (hn : Holds m.allocator a n)
    (hx : (⟨a.offset, n⟩ : Region).Contains x) (hother : EmsOwns m j k x) : j = i ∧ k = l := by
  obtain ⟨handle', b, n', hj, hb, hn', hx'⟩ := hother
  obtain rfl := h.held.settled.held_unique hn hn' hx hx'
  have hnodup : (emsPages m).Nodup := (List.nodup_append.mp h.held.nodup).1
  obtain rfl := index_unique hnodup hi hj (List.mem_of_getElem? ha) (List.mem_of_getElem? hb)
  rw [hi] at hj
  obtain rfl := Option.some.inj hj
  have hpages : handle.pages.Nodup :=
    (List.nodup_flatMap.mp hnodup).1 handle (List.mem_of_getElem? hi)
  exact ⟨rfl, (List.getElem?_inj (List.getElem?_eq_some_iff.mp hb).1 hpages).mp (hb.trans ha.symm)⟩

lemma Inv.not_xmsOwns (h : Inv reserved m mem) {i l : ℕ} {handle : EmsHandle} {a : Allocation}
    {n x : ℕ} (hi : m.emsHandles[i]? = some handle) (ha : handle.pages[l]? = some a)
    (hn : Holds m.allocator a n) (hx : (⟨a.offset, n⟩ : Region).Contains x) (j : ℕ) :
    ¬ XmsOwns m j x := by
  rintro ⟨handle', b, n', hj, hb, hn', hx'⟩
  obtain rfl := h.held.settled.held_unique hn hn' hx hx'
  have hmem : a ∈ xmsAllocations m :=
    List.mem_flatMap.mpr ⟨handle', List.mem_of_getElem? hj, by simp [hb]⟩
  exact (List.nodup_append.mp h.held.nodup).2.2 a (mem_emsPages hi ha) a
    (List.mem_append_left _ hmem) rfl

lemma Inv.coherent (h : Inv reserved m mem) : Coherent m mem := by
  constructor
  · intro slot mapping hmap
    obtain ⟨handle, a, hi, hactive, ha, ho⟩ :=
      emsPageAllocationOffset_eq_some.mp (h.current slot mapping hmap)
    obtain ⟨hlt, hget⟩ := List.getElem?_eq_some_iff.mp ha
    exact ⟨handle, hi, hactive, hlt, by rw [hget, ho]⟩
  · intro slot backing k hbacking hk
    rw [h.shown slot] at hbacking
    obtain ⟨mapping, hmap, rfl⟩ := Option.map_eq_some_iff.mp hbacking
    obtain ⟨handle, a, hi, hactive, ha, ho⟩ :=
      emsPageAllocationOffset_eq_some.mp (h.current slot mapping hmap)
    obtain ⟨n, hn, hle⟩ := h.held.page a (mem_emsPages hi ha)
    have hend := h.held.settled.held_end_le hn
    have hsize := h.held.settled.1.size_lt
    have hx : (⟨a.offset, n⟩ : Region).Contains (a.offset + k) :=
      ⟨Nat.le_add_right _ _, by simp only; omega⟩
    have haddr : m.extendedPoolLinearAddress (a.offset + k) =
        wrappingAdd 32 (m.extendedPoolLinearAddress mapping.allocationOffset) k := by
      rw [← ho]
      simp only [extendedPoolLinearAddress, wrappingAdd]
      omega
    refine ⟨mapping, a.offset + k, hmap, by omega, haddr, fun y hy hyaddr => ?_,
      ⟨handle, a, n, hi, ha, hn, hx⟩, ?_, fun j l hother => h.emsOwns_unique hi ha hn hx hother,
      h.not_xmsOwns hi ha hn hx⟩
    · rw [← haddr] at hyaddr
      simp only [extendedPoolLinearAddress, wrappingAdd] at hyaddr
      omega
    · rintro ⟨r, hr, hrx⟩
      exact h.held.settled.held_not_free hn hx hr hrx

/-- **The page frame.** From a new manager, every run whose calls refresh what they must goes
through to a state in which the page frame shows the pages its mappings name. -/
theorem page_frame_coherent (extendedMemorySize : ℕ) (hsize : extendedMemorySize < 2 ^ 32)
    (emsWindow : Option EmsWindow) (xmsEnabled : Bool) (umbWindow : Option UmbWindow) (mem : σ)
    (hmem : ∀ slot, slotBacking mem slot = none) :
    ∃ m₀ mem₀, new extendedMemorySize emsWindow xmsEnabled umbWindow mem = some (m₀, mem₀) ∧
      ∀ calls, Refreshed m₀ mem₀ calls →
        ∃ m mem', run m₀ mem₀ calls = some (m, mem') ∧ Coherent m mem' := by
  obtain ⟨m₀, mem₀, reserved, hnew, h₀⟩ := new_spec hsize emsWindow xmsEnabled umbWindow hmem
  refine ⟨m₀, mem₀, hnew, fun calls hcalls => ?_⟩
  obtain ⟨m, mem', hrun, h⟩ := run_spec h₀ calls hcalls
  exact ⟨m, mem', hrun, h.coherent⟩

/-- A run that saves the mapping of a page and restores it, reallocates its handle and frees it. -/
def savedRun : List Call :=
  [.emsAllocatePages 2, .emsMapPage 1 1 0, .emsSavePageMap 1, .emsUnmapPage 0, .xmsAllocate 8,
    .emsRestorePageMap 1, .emsReallocate 1 3, .emsDeallocate 1]

theorem page_frame_coherent_saved : ∃ m₀ mem₀,
    new 0x40000 (some ⟨0xC000⟩) true none Machine.new = some (m₀, mem₀) ∧
      ∃ m mem, run m₀ mem₀ savedRun = some (m, mem) ∧ Coherent m mem := by
  obtain ⟨m₀, mem₀, hnew, hruns⟩ := page_frame_coherent 0x40000 (by norm_num) (some ⟨0xC000⟩) true
    none Machine.new fun _ => rfl
  have hrefreshed : (new 0x40000 (some ⟨0xC000⟩) true none Machine.new).map (fun state =>
      decide (Refreshed state.1 state.2 savedRun)) = some true := by decide +kernel
  rw [hnew] at hrefreshed
  exact ⟨m₀, mem₀, hnew, hruns _ (of_decide_eq_true (Option.some.inj hrefreshed))⟩

/-- Shrinking a handle leaves its mapped last page on memory that is free again. -/
theorem page_frame_shows_free : ∃ m₀ mem₀ m mem,
    new 0x10000 (some ⟨0xC000⟩) false none Machine.new = some (m₀, mem₀) ∧
      run m₀ mem₀ [.emsAllocatePages 2, .emsMapPage 1 1 0, .emsReallocate 1 1] = some (m, mem) ∧
      (slotBacking mem 0 = some (m.extendedPoolLinearAddress 16384) ∧ FreeAt m 16384) ∧
      ¬ Coherent m mem := by
  have hrun : ((new 0x10000 (some ⟨0xC000⟩) false none Machine.new).bind fun state =>
      run state.1 state.2 [.emsAllocatePages 2, .emsMapPage 1 1 0, .emsReallocate 1 1]).map
      (fun state => decide (state.1.emsPageMapping 0 = some ⟨1, 1, 16384⟩ ∧
        state.1.emsHandles[1]?.map (·.pages.length) = some 1 ∧
        state.2.emsPageFrameSlotMappings 0 = some 0x104000 ∧ state.1.allocatorBaseOffset = 0 ∧
        state.1.allocator.freeByOffset.entries = [(16384, ⟨49152⟩)])) = some true := by
    decide +kernel
  obtain ⟨⟨m, mem⟩, hbind, hfacts⟩ := Option.map_eq_some_iff.mp hrun
  obtain ⟨⟨m₀, mem₀⟩, hnew, hrun'⟩ := Option.bind_eq_some_iff.mp hbind
  obtain ⟨hmap, hpages, hslot, hbase, hfree⟩ := of_decide_eq_true hfacts
  refine ⟨m₀, mem₀, m, mem, hnew, hrun', ⟨?_, ⟨16384, 49152⟩, ?_, by decide⟩, fun hc => ?_⟩
  · rw [extendedPoolLinearAddress, hbase]
    exact hslot
  · exact mem_freeRegions.mpr (hfree ▸ List.mem_singleton_self _)
  · obtain ⟨handle, hi, -, hlt, -⟩ := hc.mappings 0 _ hmap
    rw [hi] at hpages
    obtain hlen : handle.pages.length = 1 := by simpa using hpages
    simp only [hlen, lt_irrefl] at hlt

end Neetan.Ems
