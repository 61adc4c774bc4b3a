import Neetan.EmsInvariant

/-!
The calls of the memory manager keep its invariant.

Two calls do so only under a condition: a handle may shrink only while no physical page shows
one of the pages it loses, and a page map may be restored only while all it names is still
allocated as it was.
-/

namespace Neetan.Ems

open Neetan.MachineInt Neetan.BestFit Neetan.Tiling Neetan.EmulatedMemory MemoryAccess
open FrameRegisters MemoryManager

variable {s : BestFitAllocator} {pages others : List Allocation}

/-! ### Loops over Pages -/

lemma deallocateAll_spec (allocs : List Allocation)
    (h : Held emsPageSize s (allocs ++ pages) others) :
    ∃ s', deallocateAll s allocs = some s' ∧ Held emsPageSize s' pages others := by
  induction allocs generalizing s with
  | nil => exact ⟨s, rfl, h⟩
  | cons alloc allocs ih =>
    obtain ⟨s₁, hs₁, h₁⟩ := h.deallocatePage
    obtain ⟨s₂, hs₂, h₂⟩ := ih h₁
    exact ⟨s₂, by simp [deallocateAll, hs₁, hs₂], h₂⟩

lemma emsPageSize_le : emsPageSize ≤ emsAllocationSize := by decide

lemma allocatePageLoop_spec (n : ℕ) (new : List Allocation)
    (h : Held emsPageSize s (new ++ pages) others) :
    ∃ result s', allocatePageLoop n s new = some (result, s') ∧
      (result = none → Held emsPageSize s' pages others) ∧
      ∀ new', result = some new' → Held emsPageSize s' (new' ++ pages) others := by
  induction n generalizing s new with
  | zero =>
    refine ⟨some new, s, rfl, (by intro hc; cases hc), fun new' hnew => ?_⟩
    obtain rfl := Option.some.inj hnew
    exact h
  | succ n ih =>
    obtain ⟨result, s₁, hs₁, hnone, hsome⟩ := h.allocate emsAllocationSize emsPageSize
    cases result with
    | none =>
      obtain ⟨s₂, hs₂, h₂⟩ := deallocateAll_spec new (hnone rfl)
      exact ⟨none, s₂, by simp [allocatePageLoop, hs₁, hs₂], fun _ => h₂, fun _ hc => by cases hc⟩
    | some alloc =>
      have hperm : (alloc :: (new ++ pages)).Perm (new ++ [alloc] ++ pages) := by
        rw [List.append_assoc]
        exact List.perm_middle.symm
      obtain ⟨result, s₂, hs₂, h₂⟩ :=
        ih (new ++ [alloc]) (((hsome alloc rfl).2 emsPageSize_le).perm hperm (List.Perm.refl _))
      exact ⟨result, s₂, by simp [allocatePageLoop, hs₁, hs₂], h₂⟩

lemma popPages_spec (n : ℕ) (mine : List Allocation)
    (h : Held emsPageSize s (mine ++ pages) others) :
    ∃ s', popPages n s mine = some (mine.take (mine.length - n), s') ∧
      Held emsPageSize s' (mine.take (mine.length - n) ++ pages) others := by
  induction n generalizing s mine with
  | zero => exact ⟨s, by simp [popPages], by simpa using h⟩
  | succ n ih =>
    rcases List.eq_nil_or_concat mine with rfl | ⟨init, last, rfl⟩
    · exact ⟨s, by simp [popPages], by simpa using h⟩
    · rw [List.concat_eq_append] at h ⊢
      have hperm : (init ++ [last] ++ pages).Perm (last :: (init ++ pages)) := by
        rw [List.append_assoc]
        exact List.perm_middle
      obtain ⟨s₁, hs₁, h₁⟩ := (h.perm hperm (List.Perm.refl _)).deallocatePage
      obtain ⟨s₂, hs₂, h₂⟩ := ih init h₁
      have htake : (init ++ [last]).take ((init ++ [last]).length - (n + 1)) =
          init.take (init.length - n) := by
        rw [List.length_append, List.length_singleton, Nat.add_sub_add_right,
          List.take_append_of_le_length (Nat.sub_le _ _)]
      rw [htake]
      exact ⟨s₂, by simp [popPages, hs₁, hs₂], h₂⟩

variable {σ : Type} [MemoryAccess σ] [FrameRegisters σ]
variable {reserved : List Allocation} {m : MemoryManager} {mem : σ}

/-! ### Handle Calls -/

lemma Inv.setAllocator (h : Inv reserved m mem)
    (hheld : Held emsPageSize s (emsPages m) (xmsAllocations m ++ reserved)) :
    Inv reserved { m with allocator := s } mem :=
  ⟨hheld, fun slot mapping hmap => (h.current slot mapping hmap).congr rfl, h.shown⟩

variable {handle : XmsHandle} {i : ℕ}

lemma findFreeEmsHandle_spec (h : m.findFreeEmsHandle = some i) :
    ∃ handle, m.emsHandles[i]? = some handle ∧ handle.active = false := by
  unfold findFreeEmsHandle at h
  obtain ⟨j, hj, rfl⟩ := Option.map_eq_some_iff.mp h
  obtain ⟨hlt, hp, -⟩ := List.findIdx?_eq_some_iff_getElem.mp hj
  refine ⟨(m.emsHandles.drop 1)[j], ?_, by simpa using hp⟩
  rw [Nat.add_comm j 1, ← List.getElem?_drop]
  exact List.getElem?_eq_getElem hlt

lemma emsAllocate_spec (h : Inv reserved m mem) (count : ℕ) :
    ∃ result m', m.emsAllocate count = some (result, m') ∧ Inv reserved m' mem := by
  unfold emsAllocate
  cases hfree : m.findFreeEmsHandle with
  | none => exact ⟨_, m, rfl, h⟩
  | some i =>
    dsimp only
    split_ifs
    · exact ⟨_, m, rfl, h⟩
    · exact ⟨_, m, rfl, h⟩
    obtain ⟨result, s, hs, hnone, hsome⟩ := allocatePageLoop_spec count [] h.held
    rw [hs]
    cases result with
    | none => exact ⟨_, _, rfl, h.setAllocator (hnone rfl)⟩
    | some new =>
      obtain ⟨handle, hi, hinactive⟩ := findFreeEmsHandle_spec hfree
      obtain ⟨rest, hperm, hset⟩ := h.focus hi
      refine ⟨_, _, rfl, hset s _ ?_ fun slot mapping hmap hhandle => ?_⟩
      · exact ((hsome new rfl).perm (hperm.append_left new) (List.Perm.refl _)).sublist
          ((List.sublist_append_right _ _).append_left new) (List.Sublist.refl _)
      -- no physical page shows a page of an inactive handle
      · obtain ⟨old, -, hold, hactive, -⟩ :=
          emsPageAllocationOffset_eq_some.mp (h.current slot mapping hmap)
        rw [hhandle, hi] at hold
        obtain rfl := Option.some.inj hold
        rw [hinactive] at hactive
        cases hactive

lemma emsAllocatePages_spec (h : Inv reserved m mem) (count : ℕ) :
    ∃ result m', m.emsAllocatePages count = some (result, m') ∧ Inv reserved m' mem := by
  unfold emsAllocatePages
  split_ifs
  · exact ⟨_, m, rfl, h⟩
  · exact emsAllocate_spec h count

lemma unmapSlots_spec (handleIndex : ℕ) (slots : List (Fin physicalPages))
    (h : Inv reserved m mem) :
    ∃ m' mem', slots.foldl (unmapSlotOf handleIndex) (m, mem) = (m', mem') ∧
      Inv reserved m' mem' ∧ m'.emsHandles = m.emsHandles ∧
      ∀ slot mapping, m'.emsPageMapping slot = some mapping →
        m.emsPageMapping slot = some mapping ∧ (slot ∈ slots → mapping.handle ≠ handleIndex) := by
  induction slots generalizing m mem with
  | nil => exact ⟨m, mem, rfl, h, rfl, fun _ _ hmap => ⟨hmap, fun hc => absurd hc List.not_mem_nil⟩⟩
  | cons slot slots ih =>
    rw [List.foldl_cons]
    -- one slot, cleared or not of this handle
    obtain ⟨m₁, mem₁, h₁, hinv₁, hhandles₁, hmaps₁⟩ : ∃ m₁ mem₁,
        unmapSlotOf handleIndex (m, mem) slot = (m₁, mem₁) ∧ Inv reserved m₁ mem₁ ∧
        m₁.emsHandles = m.emsHandles ∧ ∀ other mapping,
          m₁.emsPageMapping other = some mapping → m.emsPageMapping other = some mapping ∧
            (other = slot → mapping.handle ≠ handleIndex) := by
      unfold unmapSlotOf
      dsimp only
      cases hslot : m.emsPageMapping slot with
      | none =>
        refine ⟨m, mem, rfl, h, rfl, fun other mapping hmap => ⟨hmap, fun heq => ?_⟩⟩
        rw [heq, hslot] at hmap
        cases hmap
      | some found =>
        dsimp only
        split_ifs with hfound
        · refine ⟨_, _, rfl, h.setSlot slot (fun _ hc => by cases hc), rfl,
            fun other mapping hmap => ?_⟩
          change Function.update m.emsPageMapping slot none other = some mapping at hmap
          rw [Function.update_apply] at hmap
          split_ifs at hmap with hother
          exact ⟨hmap, fun heq => absurd heq hother⟩
        · refine ⟨m, mem, rfl, h, rfl, fun other mapping hmap => ⟨hmap, fun heq => ?_⟩⟩
          rw [heq, hslot] at hmap
          obtain rfl := Option.some.inj hmap
          exact hfound
    obtain ⟨m₂, mem₂, h₂, hinv₂, hhandles₂, hmaps₂⟩ := ih hinv₁
    refine ⟨m₂, mem₂, h₁ ▸ h₂, hinv₂, hhandles₂.trans hhandles₁, fun other mapping hmap => ?_⟩
    obtain ⟨hmap₁, hne₂⟩ := hmaps₂ other mapping hmap
    obtain ⟨hmap₀, hne₁⟩ := hmaps₁ other mapping hmap₁
    exact ⟨hmap₀, fun hmem => (List.mem_cons.mp hmem).elim hne₁ hne₂⟩

lemma emsDeallocate_spec (h : Inv reserved m mem) (i : ℕ) :
    ∃ status m' mem', m.emsDeallocate i mem = some (status, m', mem') ∧ Inv reserved m' mem' := by
  unfold emsDeallocate
  cases hactive : m.activeEmsHandle i with
  | none => exact ⟨_, m, mem, rfl, h⟩
  | some handle =>
    dsimp only
    by_cases hcontext : handle.saveContext.isSome = true
    · rw [if_pos hcontext]
      exact ⟨_, m, mem, rfl, h⟩
    rw [if_neg hcontext]
    obtain ⟨m₁, mem₁, h₁, hinv₁, hhandles₁, hmaps₁⟩ :=
      unmapSlots_spec i (List.finRange physicalPages) h
    have hi := hhandles₁ ▸ (activeEmsHandle_eq_some.mp hactive).1
    obtain ⟨rest, hperm, hset⟩ := hinv₁.focus hi
    obtain ⟨s, hs, hheld⟩ :=
      deallocateAll_spec handle.pages (hinv₁.held.perm hperm (List.Perm.refl _))
    rw [h₁]
    simp only [hs, Option.bind_eq_bind, Option.bind_some]
    refine ⟨_, _, _, rfl, hset s _ hheld fun slot mapping hmap hhandle => ?_⟩
    exact absurd hhandle ((hmaps₁ slot mapping hmap).2 (List.mem_finRange slot))

lemma Inv.setHandle (h : Inv reserved m mem) {handle handle' : EmsHandle}
    (hi : m.emsHandles[i]? = some handle) (hactive : handle'.active = handle.active)
    (hpages : handle'.pages = handle.pages) :
    Inv reserved { m with emsHandles := m.emsHandles.set i handle' } mem := by
  obtain ⟨rest, hperm, hset⟩ := h.focus hi
  refine hset m.allocator handle' ?_ fun slot mapping hmap hhandle => ?_
  · rw [hpages]
    exact h.held.perm hperm (List.Perm.refl _)
  · obtain ⟨old, a, hold, hold_active, ha, ho⟩ :=
      emsPageAllocationOffset_eq_some.mp (h.current slot mapping hmap)
    rw [hhandle, hi] at hold
    obtain rfl := Option.some.inj hold
    exact ⟨hactive.trans hold_active, a, hpages ▸ ha, ho⟩

lemma emsSavePageMap_spec (h : Inv reserved m mem) (i : ℕ) :
    Inv reserved (m.emsSavePageMap i).2 mem := by
  unfold emsSavePageMap
  cases hactive : m.activeEmsHandle i with
  | none => exact h
  | some handle =>
    dsimp only
    split_ifs
    · exact h
    · exact h.setHandle (activeEmsHandle_eq_some.mp hactive).1 rfl rfl

lemma emsSetHandleName_spec (h : Inv reserved m mem) (i : ℕ) (name : List UInt8) :
    Inv reserved (m.emsSetHandleName i name).2 mem := by
  unfold emsSetHandleName
  cases hactive : m.activeEmsHandle i with
  | none => exact h
  | some handle =>
    dsimp only
    split_ifs
    · exact h
    · exact h.setHandle (activeEmsHandle_eq_some.mp hactive).1 rfl rfl

lemma emsRestorePageMap_spec (h : Inv reserved m mem) (i : ℕ)
    (hsaved : ∀ handle saved, m.activeEmsHandle i = some handle →
      handle.saveContext = some saved →
      ∀ slot mapping, saved slot = some mapping → Current m mapping) :
    Inv reserved (m.emsRestorePageMap i mem).2.1 (m.emsRestorePageMap i mem).2.2 := by
  unfold emsRestorePageMap
  cases hactive : m.activeEmsHandle i with
  | none => exact h
  | some handle =>
    dsimp only
    cases hcontext : handle.saveContext with
    | none => exact h
    | some saved =>
      exact (emsSetPageMap_spec h (hsaved handle saved hactive hcontext)).setHandle
        (activeEmsHandle_eq_some.mp hactive).1 rfl rfl

lemma emsReallocate_spec (h : Inv reserved m mem) (i newCount : ℕ)
    (hshown : ∀ slot mapping, m.emsPageMapping slot = some mapping → mapping.handle = i →
      mapping.logicalPage < newCount) :
    ∃ result m', m.emsReallocate i newCount = some (result, m') ∧ Inv reserved m' mem := by
  unfold emsReallocate
  cases hactive : m.activeEmsHandle i with
  | none => exact ⟨_, m, rfl, h⟩
  | some handle =>
    have hi := (activeEmsHandle_eq_some.mp hactive).1
    -- what the physical pages show of this handle
    have hmapped : ∀ slot mapping, m.emsPageMapping slot = some mapping → mapping.handle = i →
        handle.active = true ∧ ∃ a, handle.pages[mapping.logicalPage]? = some a ∧
          a.offset = mapping.allocationOffset := fun slot mapping hmap hhandle => by
      obtain ⟨old, a, hold, hold_active, ha, ho⟩ :=
        emsPageAllocationOffset_eq_some.mp (h.current slot mapping hmap)
      rw [hhandle, hi] at hold
      obtain rfl := Option.some.inj hold
      exact ⟨hold_active, a, ha, ho⟩
    dsimp only
    split_ifs with htotal hsame hgrow hfree
    · exact ⟨_, m, rfl, h⟩
    · exact ⟨_, m, rfl, h⟩
    · exact ⟨_, m, rfl, h⟩
    · obtain ⟨result, s, hs, hnone, hsome⟩ := allocatePageLoop_spec _ [] h.held
      rw [hs]
      cases result with
      | none => exact ⟨_, _, rfl, h.setAllocator (hnone rfl)⟩
      | some new =>
        obtain ⟨rest, hperm, hset⟩ := h.focus hi
        refine ⟨_, _, rfl, hset s _ ?_ fun slot mapping hmap hhandle => ?_⟩
        · refine (hsome new rfl).perm ((hperm.append_left new).trans ?_) (List.Perm.refl _)
          rw [← List.append_assoc]
          exact List.perm_append_comm.append_right rest
        · obtain ⟨hact, a, ha, ho⟩ := hmapped slot mapping hmap hhandle
          exact ⟨hact, a,
            (List.getElem?_append_left (List.getElem?_eq_some_iff.mp ha).1).trans ha, ho⟩
    · obtain ⟨rest, hperm, hset⟩ := h.focus hi
      obtain ⟨s, hs, hheld⟩ := popPages_spec (handle.pages.length - newCount) handle.pages
        (h.held.perm hperm (List.Perm.refl _))
      rw [hs]
      refine ⟨_, _, rfl, hset s _ hheld fun slot mapping hmap hhandle => ?_⟩
      obtain ⟨hact, a, ha, ho⟩ := hmapped slot mapping hmap hhandle
      have hlt := hshown slot mapping hmap hhandle
      have hlen := (List.getElem?_eq_some_iff.mp ha).1
      refine ⟨hact, a, ?_, ho⟩
      rw [List.getElem?_take_of_lt (by omega)]
      exact ha

/-! ### XMS Calls -/

lemma activeXmsHandle_eq_some {handleId : ℕ} (h : m.activeXmsHandle handleId = some (i, handle)) :
    m.xmsHandles[i]? = some handle := by
  simp only [activeXmsHandle, Option.bind_eq_bind, Option.bind_eq_some_iff, Option.pure_def,
    Option.some.injEq, Prod.mk.injEq, Option.filter_eq_some_iff] at h
  obtain ⟨index, -, found, ⟨hfound, -⟩, rfl, rfl⟩ := h
  exact hfound

lemma findFreeXmsHandle_spec (h : m.findFreeXmsHandle = some i) :
    ∃ handle, m.xmsHandles[i]? = some handle := by
  obtain ⟨hlt, -⟩ := List.findIdx?_eq_some_iff_getElem.mp h
  exact ⟨_, List.getElem?_eq_getElem hlt⟩

lemma deallocateOption_spec (alloc : Option Allocation)
    (h : Held emsPageSize s pages (alloc.toList ++ others)) :
    ∃ s', deallocateOption s alloc = some s' ∧ Held emsPageSize s' pages others := by
  cases alloc with
  | none => exact ⟨s, rfl, h⟩
  | some a => exact h.deallocateOther

lemma xmsAllocateBytes_spec (h : Inv reserved m mem) (hi : m.xmsHandles[i]? = some handle)
    (sizeBytes sizeKb : ℕ) :
    ∃ result m', m.xmsAllocateBytes i sizeBytes sizeKb = some (result, m') ∧
      Inv reserved m' mem := by
  obtain ⟨rest, hperm, hset⟩ := h.focusXms hi
  have hrest : Held emsPageSize m.allocator (emsPages m) rest :=
    (h.held.perm (List.Perm.refl _) hperm).sublist (List.Sublist.refl _)
      (List.sublist_append_right _ _)
  unfold xmsAllocateBytes
  cases pageAlignedAllocationSize sizeBytes with
  | none => exact ⟨_, m, rfl, h⟩
  | some alignedSize =>
    dsimp only
    by_cases hzero : alignedSize = 0
    · rw [if_pos hzero]
      exact ⟨_, _, rfl, hset m.allocator _ mem hrest rfl⟩
    rw [if_neg hzero]
    obtain ⟨result, s, hs, hnone, hsome⟩ := h.held.allocate alignedSize pageSize4k
    rw [hs]
    cases result with
    | none => exact ⟨_, _, rfl, h.setAllocator (hnone rfl)⟩
    | some a =>
      refine ⟨_, _, rfl, hset s _ mem ?_ rfl⟩
      exact ((hsome a rfl).1.perm (List.Perm.refl _) (hperm.cons a)).sublist (List.Sublist.refl _)
        ((List.sublist_append_right _ _).cons_cons a)

lemma xmsAllocate_spec (h : Inv reserved m mem) (sizeKb : ℕ) :
    ∃ result m', m.xmsAllocate sizeKb = some (result, m') ∧ Inv reserved m' mem := by
  unfold xmsAllocate
  cases hfree : m.findFreeXmsHandle with
  | none => exact ⟨_, m, rfl, h⟩
  | some i =>
    obtain ⟨handle, hi⟩ := findFreeXmsHandle_spec hfree
    exact xmsAllocateBytes_spec h hi _ _

lemma xmsAllocate32_spec (h : Inv reserved m mem) (sizeKb : ℕ) :
    ∃ result m', m.xmsAllocate32 sizeKb = some (result, m') ∧ Inv reserved m' mem := by
  unfold xmsAllocate32
  cases hfree : m.findFreeXmsHandle with
  | none => exact ⟨_, m, rfl, h⟩
  | some i =>
    obtain ⟨handle, hi⟩ := findFreeXmsHandle_spec hfree
    dsimp only
    split_ifs
    · exact ⟨_, m, rfl, h⟩
    · exact xmsAllocateBytes_spec h hi _ _

lemma Inv.setXms (h : Inv reserved m mem) {handle' : XmsHandle}
    (hi : m.xmsHandles[i]? = some handle) (halloc : handle'.allocation = handle.allocation) :
    Inv reserved (m.setXmsHandle i handle') mem := by
  obtain ⟨rest, hperm, hset⟩ := h.focusXms hi
  refine hset m.allocator handle' mem ?_ rfl
  rw [halloc]
  exact h.held.perm (List.Perm.refl _) hperm

lemma xmsFree_spec (h : Inv reserved m mem) (handleId : ℕ) :
    ∃ result m', m.xmsFree handleId = some (result, m') ∧ Inv reserved m' mem := by
  unfold xmsFree
  cases hactive : m.activeXmsHandle handleId with
  | none => exact ⟨_, m, rfl, h⟩
  | some found =>
    obtain ⟨i, handle⟩ := found
    dsimp only
    split_ifs
    · exact ⟨_, m, rfl, h⟩
    obtain ⟨rest, hperm, hset⟩ := h.focusXms (activeXmsHandle_eq_some hactive)
    obtain ⟨s, hs, hheld⟩ :=
      deallocateOption_spec handle.allocation (h.held.perm (List.Perm.refl _) hperm)
    rw [hs]
    exact ⟨_, _, rfl, hset s _ mem hheld rfl⟩

lemma xmsLock_spec (h : Inv reserved m mem) (handleId : ℕ) :
    Inv reserved (m.xmsLock handleId).2 mem := by
  unfold xmsLock
  cases hactive : m.activeXmsHandle handleId with
  | none => exact h
  | some found =>
    obtain ⟨i, handle⟩ := found
    dsimp only
    split_ifs
    · exact h
    · exact h.setXms (activeXmsHandle_eq_some hactive) rfl

lemma xmsUnlock_spec (h : Inv reserved m mem) (handleId : ℕ) :
    Inv reserved (m.xmsUnlock handleId).2 mem := by
  unfold xmsUnlock
  cases hactive : m.activeXmsHandle handleId with
  | none => exact h
  | some found =>
    obtain ⟨i, handle⟩ := found
    dsimp only
    split_ifs
    · exact h
    · exact h.setXms (activeXmsHandle_eq_some hactive) rfl

/-! ### Moving Blocks -/

lemma slotBacking_copyBlock (source target : Allocation) (copyBytes : ℕ) :
    slotBacking (m.copyBlock mem source target copyBytes) = slotBacking mem := by
  unfold copyBlock
  split_ifs
  · rw [slotBacking_writeBlock]
  · rfl

lemma xmsReplace_spec (h : Inv reserved m mem) (hi : m.xmsHandles[i]? = some handle)
    (newSizeKb alignedSize copyBytes : ℕ) :
    ∃ result m' mem', m.xmsReplace i handle newSizeKb alignedSize copyBytes mem =
      some (result, m', mem') ∧ Inv reserved m' mem' := by
  obtain ⟨rest, hperm, hset⟩ := h.focusXms hi
  unfold xmsReplace
  cases halloc : handle.allocation with
  | none => exact ⟨_, m, mem, rfl, h⟩
  | some old =>
    rw [halloc] at hperm
    obtain ⟨s₁, hs₁, h₁⟩ := (h.held.perm (List.Perm.refl _) hperm).deallocateOther
    obtain ⟨result, s₂, hs₂, hnone₂, hsome₂⟩ := h₁.allocate alignedSize pageSize4k
    simp only [hs₁, hs₂, Option.bind_eq_bind, Option.bind_some]
    cases result with
    | some new =>
      exact ⟨_, _, _, rfl, hset s₂ _ _ (hsome₂ new rfl).1 (slotBacking_copyBlock _ _ _)⟩
    | none =>
      dsimp only
      by_cases hzero : (pageAlignedAllocationSize (handle.sizeKb * 1024)).getD 0 = 0
      · rw [if_pos hzero]
        exact ⟨_, _, _, rfl, hset s₂ _ _ (hnone₂ rfl) rfl⟩
      rw [if_neg hzero]
      obtain ⟨result, s₃, hs₃, hnone₃, hsome₃⟩ := (hnone₂ rfl).allocate
        ((pageAlignedAllocationSize (handle.sizeKb * 1024)).getD 0) pageSize4k
      simp only [hs₃, Option.bind_some]
      cases result with
      | some restored =>
        exact ⟨_, _, _, rfl, hset s₃ _ _ (hsome₃ restored rfl).1 (slotBacking_copyBlock _ _ _)⟩
      | none => exact ⟨_, _, _, rfl, hset s₃ _ _ (hnone₃ rfl) rfl⟩

lemma xmsRelocate_spec (h : Inv reserved m mem) (hi : m.xmsHandles[i]? = some handle)
    (newSizeKb alignedSize copyBytes : ℕ) :
    ∃ result m' mem', m.xmsRelocate i handle newSizeKb alignedSize copyBytes mem =
      some (result, m', mem') ∧ Inv reserved m' mem' := by
  unfold xmsRelocate
  obtain ⟨result, s₁, hs₁, hnone, hsome⟩ := h.held.allocate alignedSize pageSize4k
  simp only [hs₁, Option.bind_eq_bind, Option.bind_some]
  cases result with
  | none => exact xmsReplace_spec (h.setAllocator (hnone rfl)) hi _ _ _
  | some new =>
    obtain ⟨rest, hperm, hset⟩ := h.focusXms hi
    -- the new block is held beside the old one until that is given back
    have hboth : Held emsPageSize s₁ (emsPages m) (handle.allocation.toList ++ (new :: rest)) :=
      (hsome new rfl).1.perm (List.Perm.refl _) ((hperm.cons new).trans List.perm_middle.symm)
    obtain ⟨s₂, hs₂, h₂⟩ := deallocateOption_spec handle.allocation hboth
    simp only [hs₂, Option.bind_some]
    refine ⟨_, _, _, rfl, hset s₂ _ _ h₂ ?_⟩
    cases handle.allocation with
    | none => rfl
    | some old => exact slotBacking_copyBlock _ _ _

lemma xmsResize_spec (h : Inv reserved m mem) (hi : m.xmsHandles[i]? = some handle)
    (newSizeKb alignedSize copyBytes : ℕ) :
    ∃ result m' mem', m.xmsResize i handle newSizeKb alignedSize copyBytes mem =
      some (result, m', mem') ∧ Inv reserved m' mem' := by
  unfold xmsResize
  cases halloc : handle.allocation with
  | none => exact xmsRelocate_spec h hi _ _ _
  | some old =>
    obtain ⟨rest, hperm, hset⟩ := h.focusXms hi
    have hperm' := hperm
    rw [halloc] at hperm'
    obtain ⟨result, s, hs, hheld, hsame⟩ :=
      (h.held.perm (List.Perm.refl _) hperm').resizeOther alignedSize
    simp only [hs, Option.bind_eq_bind, Option.bind_some]
    cases result with
    | some resized =>
      refine ⟨_, _, _, rfl, hset s _ _ ?_ rfl⟩
      rw [hsame resized rfl]
      exact hheld
    | none =>
      exact xmsRelocate_spec (h.setAllocator (hheld.perm (List.Perm.refl _) hperm'.symm)) hi _ _ _

lemma xmsReallocateInternal_spec (h : Inv reserved m mem) (handleId newSizeKb : ℕ) :
    ∃ result m' mem', m.xmsReallocateInternal handleId newSizeKb mem = some (result, m', mem') ∧
      Inv reserved m' mem' := by
  unfold xmsReallocateInternal
  cases hactive : m.activeXmsHandle handleId with
  | none => exact ⟨_, m, mem, rfl, h⟩
  | some found =>
    obtain ⟨i, handle⟩ := found
    have hi := activeXmsHandle_eq_some hactive
    dsimp only
    split_ifs
    · exact ⟨_, m, mem, rfl, h⟩
    · exact ⟨_, m, mem, rfl, h⟩
    · obtain ⟨rest, hperm, hset⟩ := h.focusXms hi
      obtain ⟨s, hs, hheld⟩ :=
        deallocateOption_spec handle.allocation (h.held.perm (List.Perm.refl _) hperm)
      rw [hs]
      exact ⟨_, _, _, rfl, hset s _ mem hheld rfl⟩
    · cases pageAlignedAllocationSize (newSizeKb * 1024) with
      | none => exact ⟨_, m, mem, rfl, h⟩
      | some alignedSize => exact xmsResize_spec h hi _ _ _

lemma xmsReallocate32_spec (h : Inv reserved m mem) (handleId newSizeKb : ℕ) :
    ∃ result m' mem', m.xmsReallocate32 handleId newSizeKb mem = some (result, m', mem') ∧
      Inv reserved m' mem' := by
  unfold xmsReallocate32
  split_ifs
  · exact ⟨_, m, mem, rfl, h⟩
  · exact xmsReallocateInternal_spec h _ _

end Neetan.Ems
