import Neetan.BestFitLeases
import Neetan.EmsCalls
import Neetan.FreeQueries

/-!
Who has what of the memory manager's pool.

Every page of an EMS handle is a lease of one page, every XMS block a lease of its size in whole
4 KB pages. Whatever the calls made, in any order, all of them are leased at once, beside the
region behind the upper memory blocks, which no handle has.
-/

namespace Neetan.Ems

open Neetan.MachineInt Neetan.BestFit Neetan.Tiling Neetan.EmulatedMemory MemoryAccess
open MemoryManager

/-- The bytes behind a size in KB. -/
def blockBytes (sizeKb : ℕ) : ℕ := roundUp pageSize4k (sizeKb * 1024)

def pageLeases (pages : List Allocation) : List (Allocation × ℕ) :=
  pages.map fun page => (page, emsPageSize)

def emsLeases (handle : EmsHandle) : List (Allocation × ℕ) := pageLeases handle.pages

def xmsLeases (handle : XmsHandle) : List (Allocation × ℕ) :=
  handle.allocation.toList.map fun block => (block, blockBytes handle.sizeKb)

def leases (m : MemoryManager) (reserved : List (Allocation × ℕ)) : List (Allocation × ℕ) :=
  m.emsHandles.flatMap emsLeases ++ (m.xmsHandles.flatMap xmsLeases ++ reserved)

/-- There is a block just when the size is not zero. -/
def Sized (handle : XmsHandle) : Prop := handle.allocation.isSome = true ↔ 0 < handle.sizeKb

/-- A handle has a `u16` of pages, and none while there is no window to show them. -/
structure Counted (window : Option EmsWindow) (handle : EmsHandle) : Prop where
  count : handle.pages.length < 2 ^ 16
  shown : window = none → handle.pages = []

/-- What stays fixed as long as a manager runs. -/
structure Setup where
  extendedMemorySize : ℕ
  allocatorBaseOffset : ℕ
  emsWindow : Option EmsWindow
  reserved : List (Allocation × ℕ)

/-- All that the handles and the reserve have is leased, from a pool within extended memory. -/
structure Owned (setup : Setup) (m : MemoryManager) : Prop where
  leased : Leased m.allocator (leases m setup.reserved)
  base : m.allocatorBaseOffset = setup.allocatorBaseOffset
  window : m.emsWindow = setup.emsWindow
  within : setup.allocatorBaseOffset + m.allocator.size ≤ setup.extendedMemorySize
  sized : ∀ handle ∈ m.xmsHandles, Sized handle
  counted : ∀ handle ∈ m.emsHandles, Counted m.emsWindow handle

variable {setup : Setup} {reserved : List (Allocation × ℕ)} {m m' : MemoryManager}
variable {s : BestFitAllocator}

variable {handle : XmsHandle} {sizeKb : ℕ}

lemma pageSize4k_le_blockBytes (h : 0 < sizeKb) : pageSize4k ≤ blockBytes sizeKb := by
  have hle := (roundUp_bounds 12 (sizeKb * 1024)).1
  obtain ⟨c, hc⟩ : pageSize4k ∣ blockBytes sizeKb := Dvd.intro_left _ rfl
  change sizeKb * 1024 ≤ blockBytes sizeKb at hle
  simp only [pageSize4k] at hc ⊢
  omega

lemma le_blockBytes (sizeKb : ℕ) : sizeKb * 1024 ≤ blockBytes sizeKb :=
  (roundUp_bounds 12 (sizeKb * 1024)).1

lemma blockBytes_mono {a b : ℕ} (h : a ≤ b) : blockBytes a ≤ blockBytes b :=
  Nat.mul_le_mul_right _ (Nat.div_le_div_right (by omega))

lemma pageSize4k_dvd_blockBytes (sizeKb : ℕ) : pageSize4k ∣ blockBytes sizeKb :=
  Dvd.intro_left _ rfl

/-! ### One Handle -/

lemma emsLeases_congr {handles handles' : List EmsHandle}
    (h : handles'.map EmsHandle.share = handles.map EmsHandle.share) :
    handles'.flatMap emsLeases = handles.flatMap emsLeases := by
  have key : ∀ l : List EmsHandle, l.flatMap emsLeases =
      (l.map EmsHandle.share).flatMap fun share => pageLeases share.2 :=
    fun l => by
      rw [List.flatMap_map]
      rfl
  rw [key, key, h]

lemma xmsLeases_some {block : Allocation} (h : handle.allocation = some block) :
    xmsLeases handle = [(block, blockBytes handle.sizeKb)] := by
  rw [xmsLeases, h]
  rfl

lemma Owned.samePool (h : Owned setup m) (hsame : SamePool m m') :
    Owned setup m' := by
  refine ⟨?_, hsame.base.trans h.base, hsame.window.trans h.window, ?_, ?_, fun handle hmem => ?_⟩
  · rw [leases, emsLeases_congr hsame.ems, hsame.xms, hsame.allocator]
    exact h.leased
  · rw [hsame.allocator]
    exact h.within
  · rw [hsame.xms]
    exact h.sized
  · have hshare : handle.share ∈ m.emsHandles.map EmsHandle.share :=
      hsame.ems ▸ List.mem_map_of_mem hmem
    obtain ⟨old, hold, he⟩ := List.mem_map.mp hshare
    obtain ⟨hcount, hwindow⟩ := h.counted old hold
    have hpages : handle.pages = old.pages := (congrArg Prod.snd he).symm
    exact ⟨hpages ▸ hcount, fun hw => hpages.trans (hwindow (hsame.window ▸ hw))⟩

/-- One EMS handle, in front of all leases: the state after it has been replaced. -/
lemma Owned.focusEms (h : Owned setup m) {i : ℕ} {handle : EmsHandle}
    (hi : m.emsHandles[i]? = some handle) :
    ∃ rest, (leases m setup.reserved).Perm (emsLeases handle ++ rest) ∧
      ∀ s' handle', Leased s' (emsLeases handle' ++ rest) → s'.size = m.allocator.size →
        Counted m.emsWindow handle' →
        Owned setup
          { m with allocator := s', emsHandles := m.emsHandles.set i handle' } := by
  obtain ⟨rest, hbefore, hafter⟩ := flatMap_set_perm emsLeases hi
  refine ⟨rest ++ (m.xmsHandles.flatMap xmsLeases ++ setup.reserved), ?_,
    fun s' handle' hleased hsize hcounted => ⟨?_, h.base, h.window, hsize ▸ h.within,
      h.sized, fun other hother => ?_⟩⟩
  · rw [← List.append_assoc]
    exact hbefore.append_right _
  · refine hleased.perm ?_
    rw [← List.append_assoc]
    exact (hafter handle').symm.append_right _
  · rcases List.mem_or_eq_of_mem_set hother with hother | rfl
    · exact h.counted other hother
    · exact hcounted

/-- One XMS handle, in front of all leases: the state after it has been replaced. -/
lemma Owned.focusXms (h : Owned setup m) {i : ℕ} (hi : m.xmsHandles[i]? = some handle) :
    ∃ rest, (leases m setup.reserved).Perm (xmsLeases handle ++ rest) ∧
      ∀ s' handle', Leased s' (xmsLeases handle' ++ rest) → s'.size = m.allocator.size →
        Sized handle' → Owned setup ({ m with allocator := s' }.setXmsHandle i handle') := by
  obtain ⟨rest, hbefore, hafter⟩ := flatMap_set_perm xmsLeases hi
  have hfront : ∀ mine : List (Allocation × ℕ),
      (m.emsHandles.flatMap emsLeases ++ (mine ++ (rest ++ setup.reserved))).Perm
        (mine ++ (m.emsHandles.flatMap emsLeases ++ (rest ++ setup.reserved))) :=
    fun mine => List.perm_append_comm_assoc _ _ _
  refine ⟨m.emsHandles.flatMap emsLeases ++ (rest ++ setup.reserved), ?_,
    fun s' handle' hleased hsize hsized => ⟨?_, h.base, h.window, hsize ▸ h.within,
      fun other hother => ?_, h.counted⟩⟩
  · refine List.Perm.trans (List.Perm.append_left _ ?_) (hfront _)
    rw [← List.append_assoc]
    exact hbefore.append_right _
  · refine (hleased.perm (hfront _).symm).perm (List.Perm.append_left _ ?_)
    rw [← List.append_assoc]
    exact (hafter handle').symm.append_right _
  · rcases List.mem_or_eq_of_mem_set hother with hother | rfl
    · exact h.sized other hother
    · exact hsized

/-! ### EMS Calls -/

variable {rest : List (Allocation × ℕ)}

lemma pageLeases_append (pages new : List Allocation) :
    pageLeases (pages ++ new) = pageLeases pages ++ pageLeases new := List.map_append

lemma deallocateAll_leased (pages : List Allocation) (h : Leased s (pageLeases pages ++ rest)) :
    ∃ s', deallocateAll s pages = some s' ∧ s'.size = s.size ∧ Leased s' rest := by
  induction pages generalizing s with
  | nil => exact ⟨s, rfl, rfl, h⟩
  | cons page pages ih =>
    obtain ⟨s₁, hs₁, hsize₁, h₁, -⟩ := Leased.deallocate h
    obtain ⟨s₂, hs₂, hsize₂, h₂⟩ := ih h₁
    exact ⟨s₂, by simp [deallocateAll, hs₁, hs₂], hsize₂.trans hsize₁, h₂⟩

lemma allocatePageLoop_leased (n : ℕ) (pages : List Allocation)
    (h : Leased s (pageLeases pages ++ rest)) :
    ∃ result s', allocatePageLoop n s pages = some (result, s') ∧ s'.size = s.size ∧
      (result = none → Leased s' rest) ∧
      ∀ pages', result = some pages' → Leased s' (pageLeases pages' ++ rest) ∧
        pages'.length = pages.length + n := by
  induction n generalizing s pages with
  | zero =>
    refine ⟨some pages, s, rfl, rfl, (by rintro ⟨⟩), ?_⟩
    rintro _ ⟨⟩
    exact ⟨h, rfl⟩
  | succ n ih =>
    obtain ⟨result, s₁, hs₁, hsize₁, hnone, hsome⟩ := h.allocate emsAllocationSize emsPageSize
    cases result with
    | none =>
      rw [hnone rfl] at hs₁
      obtain ⟨s₂, hs₂, hsize₂, h₂⟩ := deallocateAll_leased pages h
      exact ⟨none, s₂, by simp [allocatePageLoop, hs₁, hs₂], hsize₂, fun _ => h₂,
        (by rintro _ ⟨⟩)⟩
    | some page =>
      have hleased : Leased s₁ (pageLeases (pages ++ [page]) ++ rest) := by
        have hmiddle : (pageLeases (pages ++ [page]) ++ rest).Perm
            ((page, emsAllocationSize) :: (pageLeases pages ++ rest)) := by
          rw [emsAllocationSize_eq, pageLeases_append, List.append_assoc]
          exact List.perm_middle
        exact (hsome page rfl).perm hmiddle.symm
      obtain ⟨result, s₂, hs₂, hsize₂, hnone₂, hsome₂⟩ := ih (pages ++ [page]) hleased
      refine ⟨result, s₂, by simp [allocatePageLoop, hs₁, hs₂], hsize₂.trans hsize₁, hnone₂,
        fun pages' hp => ?_⟩
      obtain ⟨h₂, hlen⟩ := hsome₂ pages' hp
      rw [List.length_append, List.length_singleton] at hlen
      exact ⟨h₂, by omega⟩

lemma popPages_leased (n : ℕ) (pages : List Allocation)
    (h : Leased s (pageLeases pages ++ rest)) :
    ∃ s', popPages n s pages = some (pages.take (pages.length - n), s') ∧ s'.size = s.size ∧
      Leased s' (pageLeases (pages.take (pages.length - n)) ++ rest) := by
  induction n generalizing s pages with
  | zero => exact ⟨s, by simp [popPages], rfl, by simpa using h⟩
  | succ n ih =>
    rcases List.eq_nil_or_concat pages with rfl | ⟨init, last, rfl⟩
    · exact ⟨s, by simp [popPages], rfl, by simpa using h⟩
    · rw [List.concat_eq_append] at h ⊢
      have hfront : (pageLeases (init ++ [last]) ++ rest).Perm
          ((last, emsPageSize) :: (pageLeases init ++ rest)) := by
        rw [pageLeases_append, List.append_assoc]
        exact List.perm_middle
      obtain ⟨s₁, hs₁, hsize₁, h₁, -⟩ := (h.perm hfront).deallocate
      obtain ⟨s₂, hs₂, hsize₂, h₂⟩ := ih init h₁
      have htake : (init ++ [last]).take ((init ++ [last]).length - (n + 1)) =
          init.take (init.length - n) := by
        rw [List.length_append, List.length_singleton, Nat.add_sub_add_right,
          List.take_append_of_le_length (Nat.sub_le _ _)]
      rw [htake]
      refine ⟨s₂, ?_, hsize₂.trans hsize₁, h₂⟩
      simp [popPages, hs₁, hs₂]

lemma totalEmsPages_lt (m : MemoryManager) : m.totalEmsPages < 2 ^ 16 :=
  Nat.mod_lt _ (by norm_num)

lemma emsUnallocatedPages_of_none (h : m.emsWindow = none) : m.emsUnallocatedPages.1 = 0 := by
  simp [emsUnallocatedPages, h]

lemma Owned.setAllocator (h : Owned setup m) (hleased : Leased s (leases m setup.reserved))
    (hsize : s.size = m.allocator.size) : Owned setup { m with allocator := s } :=
  ⟨hleased, h.base, h.window, hsize ▸ h.within, h.sized, h.counted⟩

lemma emsAllocate_owned (h : Owned setup m) (count : ℕ) :
    ∃ result m', m.emsAllocate count = some (result, m') ∧ Owned setup m' := by
  unfold emsAllocate
  cases hfree : m.findFreeEmsHandle with
  | none => exact ⟨_, m, rfl, h⟩
  | some i =>
    dsimp only
    split_ifs with htotal havail
    · exact ⟨_, m, rfl, h⟩
    · exact ⟨_, m, rfl, h⟩
    obtain ⟨handle, hi, -⟩ := findFreeEmsHandle_spec hfree
    obtain ⟨rest, hperm, hset⟩ := h.focusEms hi
    obtain ⟨result, s, hs, hsize, hnone, hsome⟩ := allocatePageLoop_leased count [] h.leased
    rw [hs]
    cases result with
    | none => exact ⟨_, _, rfl, h.setAllocator (hnone rfl) hsize⟩
    | some pages =>
      obtain ⟨hleased, hlen⟩ := hsome pages rfl
      rw [List.length_nil, Nat.zero_add] at hlen
      refine ⟨_, _, rfl, hset s _ ?_ hsize ⟨?_, fun hwindow => ?_⟩⟩
      · exact (hleased.perm (hperm.append_left _)).sublist
          ((List.sublist_append_right _ _).append_left _)
      · have := totalEmsPages_lt m
        change pages.length < _
        omega
      · rw [emsUnallocatedPages_of_none hwindow] at havail
        exact List.eq_nil_of_length_eq_zero (show pages.length = 0 by omega)

lemma emsAllocatePages_owned (h : Owned setup m) (count : ℕ) :
    ∃ result m', m.emsAllocatePages count = some (result, m') ∧ Owned setup m' := by
  unfold emsAllocatePages
  split_ifs
  · exact ⟨_, m, rfl, h⟩
  · exact emsAllocate_owned h count

lemma emsReallocate_owned (h : Owned setup m) (i newCount : ℕ) :
    ∃ result m', m.emsReallocate i newCount = some (result, m') ∧ Owned setup m' := by
  unfold emsReallocate
  cases hactive : m.activeEmsHandle i with
  | none => exact ⟨_, m, rfl, h⟩
  | some handle =>
    have hi := activeEmsHandle_getElem? hactive
    have hcounted := h.counted handle (List.mem_of_getElem? hi)
    have htotal := totalEmsPages_lt m
    obtain ⟨rest, hperm, hset⟩ := h.focusEms hi
    dsimp only
    rw [Nat.mod_eq_of_lt hcounted.count]
    split_ifs with hmany hsame hgrow hfree
    · exact ⟨_, m, rfl, h⟩
    · exact ⟨_, m, rfl, h⟩
    · exact ⟨_, m, rfl, h⟩
    · obtain ⟨result, s, hs, hsize, hnone, hsome⟩ :=
        allocatePageLoop_leased (newCount - handle.pages.length) [] h.leased
      rw [hs]
      cases result with
      | none => exact ⟨_, _, rfl, h.setAllocator (hnone rfl) hsize⟩
      | some new =>
        obtain ⟨hleased, hlen⟩ := hsome new rfl
        rw [List.length_nil, Nat.zero_add] at hlen
        refine ⟨_, _, rfl, hset s _ ?_ hsize ⟨?_, fun hwindow => ?_⟩⟩
        · refine (hleased.perm (hperm.append_left _)).perm ?_
          rw [← List.append_assoc, emsLeases, emsLeases, pageLeases_append]
          exact List.perm_append_comm.append_right rest
        · change (handle.pages ++ new).length < _
          rw [List.length_append]
          omega
        · rw [emsUnallocatedPages_of_none hwindow] at hfree
          omega
    · obtain ⟨s, hs, hsize, hleased⟩ := popPages_leased (handle.pages.length - newCount)
        handle.pages (h.leased.perm hperm)
      rw [hs]
      refine ⟨_, _, rfl, hset s _ hleased hsize ⟨?_, fun hwindow => ?_⟩⟩
      · exact (List.length_take_le _ _).trans_lt (by have := hcounted.count; omega)
      · change handle.pages.take _ = []
        rw [hcounted.shown hwindow, List.take_nil]

lemma emsDeallocate_owned {σ : Type} [MemoryAccess σ] (h : Owned setup m) (i : ℕ)
    (mem : σ) :
    ∃ status m' mem', m.emsDeallocate i mem = some (status, m', mem') ∧
      Owned setup m' := by
  unfold emsDeallocate
  cases hactive : m.activeEmsHandle i with
  | none => exact ⟨_, m, mem, rfl, h⟩
  | some handle =>
    by_cases hcontext : handle.saveContext.isSome = true
    · exact ⟨_, m, mem, if_pos hcontext, h⟩
    have hsame : SamePool m ((List.finRange physicalPages).foldl (unmapSlotOf i) (m, mem)).1 :=
      samePool_unmapSlots i _
    dsimp only
    rw [if_neg hcontext]
    generalize (List.finRange physicalPages).foldl (unmapSlotOf i) (m, mem) = unmapped at hsame ⊢
    -- the handle with its slots clear has the pages it had
    obtain ⟨cleared, hcleared, hshare⟩ : ∃ cleared, unmapped.1.emsHandles[i]? = some cleared ∧
        cleared.share = handle.share := by
      have hmap := congrArg (fun shares => shares[i]?) hsame.ems
      simp only [List.getElem?_map, activeEmsHandle_getElem? hactive, Option.map_some] at hmap
      obtain ⟨cleared, hcleared, hshare⟩ := Option.map_eq_some_iff.mp hmap
      exact ⟨cleared, hcleared, hshare⟩
    have hpages : cleared.pages = handle.pages := congrArg Prod.snd hshare
    have h₁ := h.samePool hsame
    obtain ⟨rest, hperm, hset⟩ := h₁.focusEms hcleared
    have hleased : Leased unmapped.1.allocator (pageLeases handle.pages ++ rest) :=
      hpages ▸ h₁.leased.perm hperm
    obtain ⟨s, hs, hsize, hrest⟩ := deallocateAll_leased handle.pages hleased
    rw [hs]
    exact ⟨_, _, _, rfl, hset s _ hrest hsize ⟨by norm_num, fun _ => rfl⟩⟩

/-! ### XMS Calls -/

lemma pageAlignedAllocationSize_kb {alignedSize : ℕ} (hlt : sizeKb < 2 ^ 32)
    (h : pageAlignedAllocationSize (sizeKb * 1024) = some alignedSize) :
    alignedSize = blockBytes sizeKb ∧ blockBytes sizeKb < 2 ^ 32 := by
  rw [pageAlignedAllocationSize_eq (by omega)] at h
  split_ifs at h with hfits
  exact ⟨(Option.some.inj h).symm, hfits⟩

lemma Owned.setXms (h : Owned setup m) {i : ℕ} {handle' : XmsHandle}
    (hi : m.xmsHandles[i]? = some handle) (hblock : handle'.allocation = handle.allocation)
    (hkb : handle'.sizeKb = handle.sizeKb) : Owned setup (m.setXmsHandle i handle') := by
  obtain ⟨rest, hperm, hset⟩ := h.focusXms hi
  have hsized := h.sized handle (List.mem_of_getElem? hi)
  refine hset m.allocator handle' ?_ rfl ?_
  · rw [xmsLeases, hblock, hkb]
    exact h.leased.perm hperm
  · rw [Sized, hblock, hkb]
    exact hsized

lemma deallocateOption_leased (block : Option Allocation) {n : ℕ}
    (h : Leased s ((block.toList.map fun block => (block, n)) ++ rest)) :
    ∃ s', deallocateOption s block = some s' ∧ s'.size = s.size ∧ Leased s' rest := by
  cases block with
  | none => exact ⟨s, rfl, rfl, h⟩
  | some a =>
    obtain ⟨s', hs', hsize, hleased, -⟩ := Leased.deallocate h
    exact ⟨s', hs', hsize, hleased⟩

lemma xmsAllocateBytes_owned (h : Owned setup m) {i : ℕ} (hi : m.xmsHandles[i]? = some handle)
    (hlt : sizeKb < 2 ^ 32) :
    ∃ result m', m.xmsAllocateBytes i (sizeKb * 1024) sizeKb = some (result, m') ∧
      Owned setup m' := by
  obtain ⟨rest, hperm, hset⟩ := h.focusXms hi
  have hdrop : rest.Sublist (xmsLeases handle ++ rest) := List.sublist_append_right _ _
  unfold xmsAllocateBytes
  cases haligned : pageAlignedAllocationSize (sizeKb * 1024) with
  | none => exact ⟨_, m, rfl, h⟩
  | some alignedSize =>
    obtain ⟨rfl, hfits⟩ := pageAlignedAllocationSize_kb hlt haligned
    dsimp only
    split_ifs with hzero
    · exact ⟨_, _, rfl, hset m.allocator _ ((h.leased.perm hperm).sublist hdrop) rfl
        (by simp [Sized])⟩
    obtain ⟨result, s, hs, hsize, hnone, hsome⟩ := h.leased.allocate (blockBytes sizeKb) pageSize4k
    rw [hs]
    cases result with
    | none => exact ⟨_, _, rfl, (hnone rfl) ▸ h⟩
    | some a =>
      refine ⟨_, _, rfl, hset s _ ?_ hsize ?_⟩
      · exact ((hsome a rfl).perm (hperm.cons _)).sublist (hdrop.cons_cons _)
      · have hpos : 0 < sizeKb := Nat.pos_of_ne_zero fun hc => hzero (by rw [hc]; rfl)
        exact ⟨fun _ => hpos, fun _ => rfl⟩

lemma xmsAllocate_owned (h : Owned setup m) (hlt : sizeKb < 2 ^ 32) :
    ∃ result m', m.xmsAllocate sizeKb = some (result, m') ∧ Owned setup m' := by
  unfold xmsAllocate
  cases hfree : m.findFreeXmsHandle with
  | none => exact ⟨_, m, rfl, h⟩
  | some i =>
    obtain ⟨handle, hi⟩ := findFreeXmsHandle_spec hfree
    exact xmsAllocateBytes_owned h hi hlt

lemma xmsAllocate32_owned (h : Owned setup m) (hlt : sizeKb < 2 ^ 32) :
    ∃ result m', m.xmsAllocate32 sizeKb = some (result, m') ∧ Owned setup m' := by
  unfold xmsAllocate32
  cases hfree : m.findFreeXmsHandle with
  | none => exact ⟨_, m, rfl, h⟩
  | some i =>
    obtain ⟨handle, hi⟩ := findFreeXmsHandle_spec hfree
    dsimp only
    split_ifs
    · exact ⟨_, m, rfl, h⟩
    · exact xmsAllocateBytes_owned h hi hlt

lemma xmsFree_owned (h : Owned setup m) (handleId : ℕ) :
    ∃ result m', m.xmsFree handleId = some (result, m') ∧ Owned setup m' := by
  unfold xmsFree
  cases hactive : m.activeXmsHandle handleId with
  | none => exact ⟨_, m, rfl, h⟩
  | some found =>
    obtain ⟨i, handle⟩ := found
    dsimp only
    split_ifs
    · exact ⟨_, m, rfl, h⟩
    obtain ⟨rest, hperm, hset⟩ := h.focusXms (activeXmsHandle_eq_some hactive)
    obtain ⟨s, hs, hsize, hrest⟩ :=
      deallocateOption_leased handle.allocation (h.leased.perm hperm)
    rw [hs]
    exact ⟨_, _, rfl, hset s _ hrest hsize (by simp [Sized])⟩

lemma xmsLock_owned (h : Owned setup m) (handleId : ℕ) :
    Owned setup (m.xmsLock handleId).2 := by
  unfold xmsLock
  cases hactive : m.activeXmsHandle handleId with
  | none => exact h
  | some found =>
    dsimp only
    split_ifs
    · exact h
    · exact h.setXms (activeXmsHandle_eq_some hactive) rfl rfl

lemma xmsUnlock_owned (h : Owned setup m) (handleId : ℕ) :
    Owned setup (m.xmsUnlock handleId).2 := by
  unfold xmsUnlock
  cases hactive : m.activeXmsHandle handleId with
  | none => exact h
  | some found =>
    dsimp only
    split_ifs
    · exact h
    · exact h.setXms (activeXmsHandle_eq_some hactive) rfl rfl

end Neetan.Ems
