import Neetan.PoolLeases

/-!
Reallocation of XMS blocks.

A block is resized where it is, moved to a new region, or given back and moved over its own
region. Whatever way is taken, what is kept of it goes with it, and a failure restores it.
-/

namespace Neetan.Ems

open Neetan.MachineInt Neetan.BestFit Neetan.Tiling Neetan.EmulatedMemory MemoryAccess
open MemoryManager

variable {setup : Setup} {m m' : MemoryManager}
variable {s : BestFitAllocator}
variable {σ : Type} [MemoryAccess σ] {mem : σ} {i newSizeKb : ℕ} {handle : XmsHandle}

/-! ### Reallocation -/

/-- What is kept of a block that gets another size went with it. -/
def Carried (m : MemoryManager) (mem : σ) (handle handle' : XmsHandle) (mem' : σ) : Prop :=
  let copyBytes := min handle.sizeKb handle'.sizeKb * 1024
  mem' = mem ∧ (handle'.allocation = handle.allocation ∨ copyBytes = 0) ∨
    ∃ source target, handle.allocation = some source ∧ handle'.allocation = some target ∧
      mem' = m.copyBlock mem source target copyBytes

/-- The handle has its new size, or its old one with an error; no other handle has changed. -/
structure Reallocated (m : MemoryManager) (mem : σ) (i : ℕ) (handle : XmsHandle) (newSizeKb : ℕ)
    (result : Except ℕ Unit) (handle' : XmsHandle) (m' : MemoryManager) (mem' : σ) : Prop where
  others : m' = { m with
    allocator := m'.allocator, xmsHandles := m.xmsHandles.set i handle' }
  active : handle'.active = handle.active
  sizeKb : handle'.sizeKb = if result = .ok () then newSizeKb else handle.sizeKb
  carried : Carried m mem handle handle' mem'

lemma Reallocated.unchanged (hi : m.xmsHandles[i]? = some handle) {result : Except ℕ Unit}
    (hkb : result = .ok () → handle.sizeKb = newSizeKb) :
    Reallocated m mem i handle newSizeKb result handle m mem := by
  have hself : m.xmsHandles.set i handle = m.xmsHandles := by
    obtain ⟨hlt, rfl⟩ := List.getElem?_eq_some_iff.mp hi
    exact List.set_getElem_self hlt
  refine ⟨by rw [hself], rfl, ?_, Or.inl ⟨rfl, Or.inl rfl⟩⟩
  split_ifs with hok
  · exact hkb hok
  · rfl

/-- What a reallocation comes to: no panic, leases as before, and the contents carried over. -/
def Reallocates (setup : Setup) (m : MemoryManager) (mem : σ) (i : ℕ)
    (handle : XmsHandle) (newSizeKb : ℕ) (run : Run (Except ℕ Unit × MemoryManager × σ)) : Prop :=
  ∃ result handle' m' mem', run = some (result, m', mem') ∧ Owned setup m' ∧
    Reallocated m mem i handle newSizeKb result handle' m' mem'

section Blocks

variable {step : ℕ} (hdvd : pageSize4k ∣ step) (hgrid : Gridded step m.allocator)
  (h : Owned setup m) (hi : m.xmsHandles[i]? = some handle) (hpos : 0 < newSizeKb)
  (hfits : blockBytes newSizeKb < 2 ^ 32)
include h hi hpos hfits

include hdvd hgrid in
/-- The block given back is free again until the new one is found, so that the old size can
always be had. -/
lemma xmsReplace_reallocates (hgrow : handle.sizeKb < newSizeKb) :
    Reallocates setup m mem i handle newSizeKb (m.xmsReplace i handle newSizeKb
      (blockBytes newSizeKb) (min handle.sizeKb newSizeKb * 1024) mem) := by
  have hsized := h.sized handle (List.mem_of_getElem? hi)
  obtain ⟨rest, hperm, hset⟩ := h.focusXms hi
  have hfront := h.leased.perm hperm
  unfold xmsReplace
  cases hblock : handle.allocation with
  | none => exact ⟨_, handle, m, mem, rfl, h, Reallocated.unchanged hi (by rintro ⟨⟩)⟩
  | some old =>
    rw [Sized, hblock] at hsized
    have hold : 0 < handle.sizeKb := hsized.mp rfl
    rw [xmsLeases, hblock] at hfront
    obtain ⟨s₁, hs₁, hsize₁, h₁, r, hr, hstart, hend⟩ := Leased.deallocate hfront
    obtain ⟨s₁', hs₁', hgrid₁, -⟩ := hgrid.deallocate old
    obtain rfl := Option.some.inj (hs₁.symm.trans hs₁')
    obtain ⟨result, s₂, hs₂, hsize₂, hnone₂, hsome₂⟩ :=
      h₁.allocate (blockBytes newSizeKb) pageSize4k
    simp only [hs₁, hs₂, Option.bind_eq_bind, Option.bind_some]
    cases result with
    | some new =>
      have hleased : Leased s₂ (xmsLeases { handle with
          allocation := some new, sizeKb := newSizeKb } ++ rest) := by
        rw [xmsLeases_some rfl]
        exact hsome₂ new rfl
      refine ⟨_, _, _, _, rfl, hset s₂ _ hleased (hsize₂.trans hsize₁) ?_,
        rfl, rfl, rfl, Or.inr ⟨old, new, hblock, rfl, rfl⟩⟩
      exact ⟨fun _ => hpos, fun _ => rfl⟩
    | none =>
      obtain rfl := hnone₂ rfl
      have holdFits : blockBytes handle.sizeKb < 2 ^ 32 :=
        (blockBytes_mono hgrow.le).trans_lt hfits
      have holdPos := (pageSize4k_le_blockBytes hold).trans_lt' (by decide : 0 < pageSize4k)
      have haligned : (pageAlignedAllocationSize (handle.sizeKb * 1024)).getD 0 =
          blockBytes handle.sizeKb := by
        have hle := le_blockBytes handle.sizeKb
        rw [pageAlignedAllocationSize_eq (by omega)]
        exact congrArg (Option.getD · 0) (if_pos holdFits)
      obtain ⟨result, s₃, hs₃, hsize₃, -, hsome₃⟩ :=
        h₁.allocate (blockBytes handle.sizeKb) pageSize4k
      dsimp only
      rw [haligned, if_neg holdPos.ne', hs₃]
      simp only [Option.bind_some]
      cases result with
      | none =>
        -- the region of the old block is part of a free region that holds it
        obtain ⟨result, s₃', hs₃', hroom, -⟩ := allocate4k_room hgrid₁ hdvd
          (pageSize4k_dvd_blockBytes handle.sizeKb) holdPos holdFits
        obtain ⟨rfl, -⟩ := Prod.mk.inj (Option.some.inj (hs₃.symm.trans hs₃'))
        have := (hroom rfl).2 r hr
        omega
      | some restored =>
        refine ⟨_, _, _, _, rfl, hset s₃ _ (hsome₃ restored rfl) (hsize₃.trans hsize₁) ?_,
          rfl, rfl, rfl, Or.inr ⟨old, restored, hblock, rfl, ?_⟩⟩
        · exact ⟨fun _ => hold, fun _ => rfl⟩
        · rw [min_eq_left hgrow.le, min_self]

include hdvd hgrid in
lemma xmsRelocate_reallocates (hgrow : handle.sizeKb < newSizeKb) :
    Reallocates setup m mem i handle newSizeKb (m.xmsRelocate i handle newSizeKb
      (blockBytes newSizeKb) (min handle.sizeKb newSizeKb * 1024) mem) := by
  have hsized := h.sized handle (List.mem_of_getElem? hi)
  obtain ⟨rest, hperm, hset⟩ := h.focusXms hi
  unfold xmsRelocate
  obtain ⟨result, s₁, hs₁, hsize₁, hnone₁, hsome₁⟩ :=
    (h.leased.perm hperm).allocate (blockBytes newSizeKb) pageSize4k
  simp only [hs₁, Option.bind_eq_bind, Option.bind_some]
  cases result with
  | none =>
    obtain rfl := hnone₁ rfl
    exact xmsReplace_reallocates hdvd hgrid h hi hpos hfits hgrow
  | some new =>
    obtain ⟨s₂, hs₂, hsize₂, h₂⟩ := deallocateOption_leased handle.allocation
      ((hsome₁ new rfl).perm List.perm_middle.symm)
    simp only [hs₂, Option.bind_some]
    refine ⟨_, _, _, _, rfl, hset s₂ _ h₂ (hsize₂.trans hsize₁) ⟨fun _ => hpos, fun _ => rfl⟩,
      rfl, rfl, rfl, ?_⟩
    cases hblock : handle.allocation with
    | none =>
      have hzero : handle.sizeKb = 0 := by
        rw [Sized, hblock] at hsized
        exact Nat.eq_zero_of_not_pos fun hc => by cases hsized.mpr hc
      exact Or.inl ⟨rfl, Or.inr (by rw [hzero, Nat.zero_min])⟩
    | some old => exact Or.inr ⟨old, new, hblock, rfl, rfl⟩

include hdvd hgrid in
lemma xmsResize_reallocates :
    Reallocates setup m mem i handle newSizeKb (m.xmsResize i handle newSizeKb
      (blockBytes newSizeKb) (min handle.sizeKb newSizeKb * 1024) mem) := by
  have hsized := h.sized handle (List.mem_of_getElem? hi)
  obtain ⟨rest, hperm, hset⟩ := h.focusXms hi
  have hfront := h.leased.perm hperm
  unfold xmsResize
  cases hblock : handle.allocation with
  | none =>
    have hzero : handle.sizeKb = 0 := by
      rw [Sized, hblock] at hsized
      exact Nat.eq_zero_of_not_pos fun hc => by cases hsized.mpr hc
    exact xmsRelocate_reallocates hdvd hgrid h hi hpos hfits (by omega)
  | some old =>
    rw [xmsLeases, hblock] at hfront
    obtain ⟨result, s, hs, hsize, hnone, hsome⟩ := Leased.resize hfront (blockBytes newSizeKb)
    simp only [hs, Option.bind_eq_bind, Option.bind_some]
    cases result with
    | none =>
      obtain ⟨rfl, hlt⟩ := hnone rfl
      refine xmsRelocate_reallocates hdvd hgrid h hi hpos hfits ?_
      by_contra hc
      exact absurd (blockBytes_mono (not_lt.mp hc)) (not_le.mpr hlt)
    | some resized =>
      obtain ⟨rfl, hresized⟩ := hsome resized rfl
      have hleased : Leased s (xmsLeases { handle with
          allocation := some resized, sizeKb := newSizeKb } ++ rest) := by
        rw [xmsLeases_some rfl]
        exact hresized
      exact ⟨_, _, _, _, rfl, hset s _ hleased hsize ⟨fun _ => hpos, fun _ => rfl⟩,
        rfl, rfl, rfl, Or.inl ⟨rfl, Or.inl hblock.symm⟩⟩

end Blocks

section Grid

variable {step : ℕ} (hdvd : pageSize4k ∣ step) (hgrid : Gridded step m.allocator)
  (h : Owned setup m) {handleId : ℕ}
  (hactive : m.activeXmsHandle handleId = some (i, handle)) (mem : σ) (hlt : newSizeKb < 2 ^ 32)
include hdvd hgrid h hactive hlt

lemma xmsReallocateInternal_reallocates :
    Reallocates setup m mem i handle newSizeKb
      (m.xmsReallocateInternal handleId newSizeKb mem) := by
  have hi := activeXmsHandle_eq_some hactive
  unfold xmsReallocateInternal
  rw [hactive]
  dsimp only
  split_ifs with hlock hsame hzero
  · exact ⟨_, handle, m, mem, rfl, h, Reallocated.unchanged hi (by rintro ⟨⟩)⟩
  · exact ⟨_, handle, m, mem, rfl, h, Reallocated.unchanged hi fun _ => hsame.symm⟩
  · obtain ⟨rest, hperm, hset⟩ := h.focusXms hi
    obtain ⟨s, hs, hsize, hrest⟩ :=
      deallocateOption_leased handle.allocation (h.leased.perm hperm)
    rw [hs]
    exact ⟨_, _, _, mem, rfl, hset s _ hrest hsize (by simp [Sized]), rfl, rfl, hzero.symm,
      Or.inl ⟨rfl, Or.inr (by rw [Nat.min_zero, Nat.zero_mul])⟩⟩
  · cases haligned : pageAlignedAllocationSize (newSizeKb * 1024) with
    | none => exact ⟨_, handle, m, mem, rfl, h, Reallocated.unchanged hi (by rintro ⟨⟩)⟩
    | some alignedSize =>
      obtain ⟨rfl, hfits⟩ := pageAlignedAllocationSize_kb hlt haligned
      have hle := le_blockBytes newSizeKb
      have hmin := Nat.min_le_right handle.sizeKb newSizeKb
      have hcopy : min handle.sizeKb newSizeKb * 1024 % 2 ^ 32 =
          min handle.sizeKb newSizeKb * 1024 := Nat.mod_eq_of_lt (by omega)
      dsimp only
      rw [hcopy]
      exact xmsResize_reallocates hdvd hgrid h hi (Nat.pos_of_ne_zero hzero) hfits

lemma xmsReallocate32_reallocates :
    Reallocates setup m mem i handle newSizeKb
      (m.xmsReallocate32 handleId newSizeKb mem) := by
  unfold xmsReallocate32
  split_ifs
  · exact ⟨_, handle, m, mem, rfl, h,
      Reallocated.unchanged (activeXmsHandle_eq_some hactive) (by rintro ⟨⟩)⟩
  · exact xmsReallocateInternal_reallocates hdvd hgrid h hactive mem hlt

end Grid

/-! ### Runs -/

lemma step_owned {xmsEnabled : Bool} (ht : Tidy (gridStep xmsEnabled) m)
    (h : Owned setup m) (mem : σ) (call : Call) (hcall : Issued xmsEnabled call) :
    ∃ m' mem', Ems.step m mem call = some (m', mem') ∧ Owned setup m' := by
  have hdvd : pageSize4k ∣ gridStep xmsEnabled := by cases xmsEnabled <;> decide
  cases call with
  | emsAllocatePages count =>
    obtain ⟨result, m', hm', h'⟩ := emsAllocatePages_owned h count
    exact ⟨m', mem, by simp [Ems.step, hm'], h'⟩
  | emsAllocatePagesZeroAllowed count =>
    obtain ⟨result, m', hm', h'⟩ := emsAllocate_owned h count
    exact ⟨m', mem, by simp [Ems.step, emsAllocatePagesZeroAllowed, hm'], h'⟩
  | emsMapPage handle logicalPage physicalPage =>
    exact ⟨_, _, rfl, h.samePool (samePool_emsMapPage handle logicalPage physicalPage)⟩
  | emsUnmapPage physicalPage => exact ⟨_, _, rfl, h.samePool (samePool_emsUnmapPage physicalPage)⟩
  | emsDeallocate handle =>
    obtain ⟨status, m', mem', hm', h'⟩ := emsDeallocate_owned h handle mem
    exact ⟨m', mem', by simp [Ems.step, hm'], h'⟩
  | emsSavePageMap handle => exact ⟨_, _, rfl, h.samePool (samePool_emsSavePageMap handle)⟩
  | emsRestorePageMap handle => exact ⟨_, _, rfl, h.samePool (samePool_emsRestorePageMap handle)⟩
  | int67SetPageMap srcAddr => exact ⟨_, _, rfl, h.samePool (samePool_int67SetPageMap srcAddr)⟩
  | emsSetPartialPageMap src => exact ⟨_, _, rfl, h.samePool (samePool_emsSetPartialPageMap src)⟩
  | emsReallocate handle newCount =>
    obtain ⟨result, m', hm', h'⟩ := emsReallocate_owned h handle newCount
    exact ⟨m', mem, by simp [Ems.step, hm'], h'⟩
  | emsSetHandleName handle name =>
    exact ⟨_, _, rfl, h.samePool (samePool_emsSetHandleName handle name)⟩
  | xmsAllocate sizeKb =>
    obtain ⟨henabled, hlt⟩ := hcall
    obtain ⟨result, m', hm', h'⟩ := xmsAllocate_owned h (show sizeKb < 2 ^ 32 by omega)
    exact ⟨m', mem, by simp [Ems.step, hm'], h'⟩
  | xmsAllocate32 sizeKb =>
    obtain ⟨result, m', hm', h'⟩ := xmsAllocate32_owned h hcall.2
    exact ⟨m', mem, by simp [Ems.step, hm'], h'⟩
  | xmsFree handleId =>
    obtain ⟨result, m', hm', h'⟩ := xmsFree_owned h handleId
    exact ⟨m', mem, by simp [Ems.step, hm'], h'⟩
  | xmsLock handleId => exact ⟨_, _, rfl, xmsLock_owned h handleId⟩
  | xmsUnlock handleId => exact ⟨_, _, rfl, xmsUnlock_owned h handleId⟩
  | xmsReallocate handleId newSizeKb =>
    obtain ⟨henabled, hlt⟩ := hcall
    cases hactive : m.activeXmsHandle handleId with
    | none =>
      exact ⟨m, mem, by simp [Ems.step, xmsReallocate, xmsReallocateInternal, hactive], h⟩
    | some found =>
      obtain ⟨result, handle', m', mem', hm', h', -⟩ := xmsReallocateInternal_reallocates
        hdvd ht.gridded h hactive mem (show newSizeKb < 2 ^ 32 by omega)
      exact ⟨m', mem', by simp [Ems.step, xmsReallocate, hm'], h'⟩
  | xmsReallocate32 handleId newSizeKb =>
    cases hactive : m.activeXmsHandle handleId with
    | none =>
      refine ⟨m, mem, ?_, h⟩
      simp only [Ems.step, xmsReallocate32, xmsReallocateInternal, hactive]
      split_ifs <;> rfl
    | some found =>
      obtain ⟨result, handle', m', mem', hm', h', -⟩ := xmsReallocate32_reallocates
        hdvd ht.gridded h hactive mem hcall.2
      exact ⟨m', mem', by simp [Ems.step, hm'], h'⟩
  | store address bytes => exact ⟨m, _, rfl, h⟩

lemma run_owned {xmsEnabled : Bool} (ht : Tidy (gridStep xmsEnabled) m)
    (h : Owned setup m) (mem : σ) (calls : List Call)
    (hcalls : ∀ call ∈ calls, Issued xmsEnabled call) :
    ∃ m' mem', run m mem calls = some (m', mem') ∧ Owned setup m' := by
  induction calls generalizing m mem with
  | nil => exact ⟨m, mem, rfl, h⟩
  | cons call calls ih =>
    have hcall := hcalls call List.mem_cons_self
    obtain ⟨m₁, mem₁, hstep, h₁⟩ := step_owned ht h mem call hcall
    obtain ⟨m₁', mem₁', hstep', ht₁⟩ := step_tidy ht mem call hcall
    obtain ⟨rfl, rfl⟩ := Prod.mk.inj (Option.some.inj (hstep.symm.trans hstep'))
    obtain ⟨m₂, mem₂, hrun, h₂⟩ := ih ht₁ h₁ mem₁ fun c hc => hcalls c (List.mem_cons_of_mem _ hc)
    exact ⟨m₂, mem₂, by simp [run, hstep, hrun], h₂⟩

/-- The memory that a new manager leaves: with the page frame, and with the chain of the upper
memory blocks if there is a region behind them. -/
def Prepared (mem : σ) (reserved : List (Allocation × ℕ)) (m' : MemoryManager) (mem' : σ) : Prop :=
  ∃ mem₁, (mem₁ = mem ∨ mem₁ = enableEmsPageFrame mem) ∧ (mem' = mem₁ ∨
    ∃ backing window emsEnabled, reserved = [(backing, umbBackingBytes)] ∧
      mem' = writeUmbChain (enableUmbRegion mem₁
        (some (m'.extendedPoolLinearAddress backing.offset))) window emsEnabled)

/-- A new manager has leased the region behind the upper memory blocks at most. -/
lemma new_owned {extendedMemorySize : ℕ} (hsize : extendedMemorySize < 2 ^ 32)
    (emsWindow : Option EmsWindow) (xmsEnabled : Bool) (umbWindow : Option UmbWindow) (mem : σ) :
    ∃ m' mem' base reserved, new extendedMemorySize emsWindow xmsEnabled umbWindow mem =
      some (m', mem') ∧ Owned ⟨extendedMemorySize, base, emsWindow, reserved⟩ m' ∧
      Prepared mem reserved m' mem' := by
  unfold new
  dsimp only
  generalize hbase : (if (xmsEnabled && decide (extendedMemorySize ≥ hmaPoolReservationBytes)) = true
    then hmaPoolReservationBytes else 0) = base
  have hle : base ≤ extendedMemorySize := by
    split_ifs at hbase with hbig
    · rw [Bool.and_eq_true, decide_eq_true_eq] at hbig
      omega
    · omega
  obtain ⟨hset, hpool⟩ := settled_new (show extendedMemorySize - base < 2 ^ 32 by omega)
  have hpoolSize := poolSize_le (extendedMemorySize - base)
  have hempty : Leased (BestFitAllocator.new (extendedMemorySize - base)) [] :=
    ⟨hset, List.nodup_nil, fun _ ha => absurd ha List.not_mem_nil⟩
  -- the handles of a new manager have nothing
  have hems : ∀ handle ∈ (List.replicate maxEmsHandles EmsHandle.newInactive).set
      emsOsReservedHandle { EmsHandle.newInactive with active := true }, handle.pages = [] :=
    fun handle hhandle => by
      rcases List.mem_or_eq_of_mem_set hhandle with hmem | rfl
      · rw [List.eq_of_mem_replicate hmem]
        rfl
      · rfl
  have hxms : ∀ handle ∈ List.replicate maxXmsHandles XmsHandle.newInactive,
      handle = XmsHandle.newInactive := fun handle hhandle => List.eq_of_mem_replicate hhandle
  have howned : ∀ (s : BestFitAllocator) (reserved : List (Allocation × ℕ)),
      Leased s reserved → s.size = (BestFitAllocator.new (extendedMemorySize - base)).size →
      Owned ⟨extendedMemorySize, base, emsWindow, reserved⟩
        { allocator := s
          extendedMemorySize
          allocatorBaseOffset := base
          emsWindow
          emsHandles := (List.replicate maxEmsHandles EmsHandle.newInactive).set emsOsReservedHandle
            { EmsHandle.newInactive with active := true }
          emsPageMapping := fun _ => none
          xmsHandles := List.replicate maxXmsHandles XmsHandle.newInactive } :=
    fun s reserved hleased hs => by
      refine ⟨?_, rfl, rfl, ?_, fun handle hhandle => ?_, fun handle hhandle => ?_⟩
      · have hnoEms : ((List.replicate maxEmsHandles EmsHandle.newInactive).set emsOsReservedHandle
            { EmsHandle.newInactive with active := true }).flatMap emsLeases = [] :=
          List.flatMap_eq_nil_iff.mpr fun handle hhandle =>
            congrArg pageLeases (hems handle hhandle)
        have hnoXms : (List.replicate maxXmsHandles XmsHandle.newInactive).flatMap xmsLeases = [] :=
          List.flatMap_eq_nil_iff.mpr fun handle hhandle => by rw [hxms handle hhandle]; rfl
        rw [leases, hnoEms, hnoXms]
        exact hleased
      · change base + s.size ≤ extendedMemorySize
        omega
      · rw [hxms handle hhandle]
        simp [Sized, XmsHandle.newInactive]
      · exact ⟨by rw [hems handle hhandle]; norm_num, fun _ => hems handle hhandle⟩
  have hframe : (if emsWindow.isSome = true then enableEmsPageFrame mem else mem) = mem ∨
      (if emsWindow.isSome = true then enableEmsPageFrame mem else mem) =
        enableEmsPageFrame mem := by
    split_ifs
    · exact Or.inr rfl
    · exact Or.inl rfl
  generalize (if emsWindow.isSome = true then enableEmsPageFrame mem else mem) = mem₁ at hframe ⊢
  split_ifs with humb
  · obtain ⟨result, s, hs, hsame, hnone, hsome⟩ := hempty.allocate umbBackingBytes pageSize4k
    rw [hs]
    obtain ⟨window, hwindow⟩ := Option.isSome_iff_exists.mp humb
    rw [hwindow]
    cases result with
    | none =>
      obtain rfl := hnone rfl
      exact ⟨_, _, base, [], rfl, howned _ [] hempty rfl, mem₁, hframe, Or.inl rfl⟩
    | some backing =>
      exact ⟨_, _, base, [(backing, umbBackingBytes)], rfl, howned s _ (hsome backing rfl) hsame,
        mem₁, hframe, Or.inr ⟨backing, window, emsWindow.isSome, rfl, rfl⟩⟩
  · rw [Option.not_isSome_iff_eq_none] at humb
    rw [humb]
    exact ⟨_, _, base, [], rfl, howned _ [] hempty rfl, mem₁, hframe, Or.inl rfl⟩

end Neetan.Ems
