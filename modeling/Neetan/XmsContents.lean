import Neetan.EmulatedMemory
import Neetan.EmsRun
import Neetan.XmsReallocation

/-!
What XMS blocks hold when one of them gets another size.

No two blocks and pages share an address, so a copy to where a block went leaves every other one
as it was, and the block itself is read before the copy is written.
-/

namespace Neetan.Ems

open Neetan.MachineInt Neetan.BestFit Neetan.Tiling Neetan.EmulatedMemory MemoryAccess
open MemoryManager CellMemory

variable {σ : Type} [MemoryAccess σ]

namespace MemoryManager

/-- Where the block of a handle starts, as a lock tells it. -/
def xmsBase (self : MemoryManager) (handle : XmsHandle) : ℕ :=
  match handle.allocation with
  | some alloc => self.extendedPoolLinearAddress alloc.offset
  | none => self.extendedPoolLinearAddress 0

def xmsContents (self : MemoryManager) (mem : σ) (handle : XmsHandle) : List UInt8 :=
  readBlock mem (self.xmsBase handle) (handle.sizeKb * 1024)

def emsPageContents (self : MemoryManager) (mem : σ) (page : Allocation) : List UInt8 :=
  readBlock mem (self.extendedPoolLinearAddress page.offset) emsPageSize

end MemoryManager

/-- A reallocation either gives the size and keeps what both sizes have, or fails and keeps all;
every other block and page is where it was, with what it held. -/
structure ReallocationKeeps (m : MemoryManager) (mem : σ) (handleId i : ℕ) (handle : XmsHandle)
    (newSizeKb : ℕ) (result : Except ℕ Unit) (m' : MemoryManager) (mem' : σ) : Prop where
  handle : ∃ handle', m'.activeXmsHandle handleId = some (i, handle') ∧
    (result = .ok () → handle'.sizeKb = newSizeKb ∧
      (m'.xmsContents mem' handle').take (min handle.sizeKb newSizeKb * 1024) =
        (m.xmsContents mem handle).take (min handle.sizeKb newSizeKb * 1024)) ∧
    ∀ code, result = .error code → handle'.sizeKb = handle.sizeKb ∧
      m'.xmsContents mem' handle' = m.xmsContents mem handle
  blocks : ∀ j ≠ i, m'.xmsHandles[j]? = m.xmsHandles[j]? ∧
    ∀ other, m.xmsHandles[j]? = some other → m'.xmsBase other = m.xmsBase other ∧
      m'.xmsContents mem' other = m.xmsContents mem other
  pages : m'.emsHandles = m.emsHandles ∧ ∀ other ∈ m.emsHandles, ∀ page ∈ other.pages,
    m'.extendedPoolLinearAddress page.offset = m.extendedPoolLinearAddress page.offset ∧
      m'.emsPageContents mem' page = m.emsPageContents mem page

/-! ### Leases of Different Handles -/

variable {setup : Setup} {reserved : List (Allocation × ℕ)} {m m' : MemoryManager}

lemma mem_leases_page {handle : EmsHandle} {page : Allocation} (hi : handle ∈ m.emsHandles)
    (hp : page ∈ handle.pages) : (page, emsPageSize) ∈ leases m reserved :=
  List.mem_append_left _ (List.mem_flatMap.mpr ⟨handle, hi, List.mem_map.mpr ⟨page, hp, rfl⟩⟩)

lemma mem_leases_block {handle : XmsHandle} {block : Allocation} (hi : handle ∈ m.xmsHandles)
    (hb : handle.allocation = some block) :
    (block, blockBytes handle.sizeKb) ∈ leases m reserved :=
  List.mem_append_right _ (List.mem_append_left _ (List.mem_flatMap.mpr ⟨handle, hi, by
    rw [xmsLeases_some hb]
    exact List.mem_singleton_self _⟩))

lemma Owned.sizeKb_eq_zero (h : Owned setup m) {handle : XmsHandle}
    (hi : handle ∈ m.xmsHandles) (hb : handle.allocation = none) : handle.sizeKb = 0 := by
  have hsized := h.sized handle hi
  rw [Sized, hb] at hsized
  exact Nat.eq_zero_of_not_pos fun hc => by cases hsized.mpr hc

lemma Owned.blockBytes_pos (h : Owned setup m) {handle : XmsHandle} {block : Allocation}
    (hi : handle ∈ m.xmsHandles) (hb : handle.allocation = some block) :
    0 < blockBytes handle.sizeKb := by
  have hsized := h.sized handle hi
  rw [Sized, hb] at hsized
  have hpage : 0 < pageSize4k := by decide
  exact hpage.trans_le (pageSize4k_le_blockBytes (hsized.mp rfl))

lemma Owned.disjoint (h : Owned setup m) {u v : Allocation × ℕ}
    (hu : u ∈ leases m setup.reserved) (hv : v ∈ leases m setup.reserved) (hne : u.1 ≠ v.1)
    {j k : ℕ} (hj : j < u.2) (hk : k < v.2) : u.1.offset + j ≠ v.1.offset + k := by
  intro hc
  obtain ⟨n, hn, hun⟩ := h.leased.holds u hu
  obtain ⟨n', hn', hvn⟩ := h.leased.holds v hv
  refine hne (h.leased.settled.held_unique (x := u.1.offset + j) hn hn' ⟨?_, ?_⟩ ⟨?_, ?_⟩)
  · exact Nat.le_add_right _ _
  · exact Nat.add_lt_add_left (hj.trans_le hun) _
  · exact hc ▸ Nat.le_add_right _ _
  · exact hc ▸ Nat.add_lt_add_left (hk.trans_le hvn) _

lemma Owned.block_ne (h : Owned setup m) {i j : ℕ} (hne : i ≠ j) {u v : XmsHandle}
    {a b : Allocation} (hi : m.xmsHandles[i]? = some u) (hj : m.xmsHandles[j]? = some v)
    (ha : u.allocation = some a) (hb : v.allocation = some b) : a ≠ b := by
  rintro rfl
  have hnodup := h.leased.nodup
  rw [leases, List.map_append, List.map_append, List.map_flatMap, List.map_flatMap] at hnodup
  have hblocks := (List.nodup_append.mp (List.nodup_append.mp hnodup).2.1).1
  refine hne (index_unique hblocks hi hj (a := a) ?_ ?_)
  · rw [xmsLeases_some ha]
    exact List.mem_singleton_self _
  · rw [xmsLeases_some hb]
    exact List.mem_singleton_self _

lemma Owned.page_ne_block (h : Owned setup m) {u : EmsHandle} {v : XmsHandle}
    {a b : Allocation} (hu : u ∈ m.emsHandles) (hv : v ∈ m.xmsHandles) (ha : a ∈ u.pages)
    (hb : v.allocation = some b) : a ≠ b := by
  have hnodup := h.leased.nodup
  rw [leases, List.map_append, List.map_append, List.map_flatMap, List.map_flatMap] at hnodup
  refine (List.nodup_append.mp hnodup).2.2 a ?_ b (List.mem_append_left _ ?_)
  · exact List.mem_flatMap.mpr ⟨u, hu, List.mem_map.mpr
      ⟨(a, emsPageSize), List.mem_map.mpr ⟨a, ha, rfl⟩, rfl⟩⟩
  · refine List.mem_flatMap.mpr ⟨v, hv, ?_⟩
    rw [xmsLeases_some hb]
    exact List.mem_singleton_self _

/-! ### Addresses of the Pool -/

/-- Extended memory lies behind the page frame. -/
instance (size : ℕ) : DirectCells Machine extendedRamBase size :=
  inferInstanceAs (DirectCells Machine 0x100000 size)

variable [CellMemory σ] {mem mem' : σ}

section Pool

variable (hsize : extendedRamBase + setup.extendedMemorySize ≤ 2 ^ 32)
include hsize

lemma extendedPoolLinearAddress_eq (h : Owned setup m) {x : ℕ}
    (hx : setup.allocatorBaseOffset + x < setup.extendedMemorySize) :
    m.extendedPoolLinearAddress x = extendedRamBase + setup.allocatorBaseOffset + x := by
  have hbase : wrappingAdd 32 extendedRamBase m.allocatorBaseOffset =
      extendedRamBase + setup.allocatorBaseOffset := by
    rw [h.base]
    exact wrappingAdd_of_lt (by omega)
  rw [extendedPoolLinearAddress, hbase, wrappingAdd_of_lt (by omega)]

lemma location_lease [DirectCells σ extendedRamBase setup.extendedMemorySize] (h : Owned setup m)
    {lease : Allocation × ℕ} (hl : lease ∈ leases m setup.reserved) {k : ℕ} (hk : k < lease.2) :
    location mem (m.extendedPoolLinearAddress lease.1.offset + k) =
      extendedRamBase + setup.allocatorBaseOffset + (lease.1.offset + k) := by
  have hend := h.leased.end_le hl
  have hwithin := h.within
  have hdirect := @DirectCells.location_direct σ _ _ extendedRamBase
    setup.extendedMemorySize _
  rw [extendedPoolLinearAddress_eq hsize h (by omega), Nat.add_assoc]
  exact hdirect mem _ (by omega) (by omega)

lemma lease_address_le (h : Owned setup m) {lease : Allocation × ℕ}
    (hl : lease ∈ leases m setup.reserved) (hpos : 0 < lease.2) :
    m.extendedPoolLinearAddress lease.1.offset + lease.2 ≤ 2 ^ 32 := by
  have hend := h.leased.end_le hl
  have hwithin := h.within
  rw [extendedPoolLinearAddress_eq hsize h (by omega)]
  omega

omit hsize in
lemma xmsBase_lt (m : MemoryManager) (handle : XmsHandle) : m.xmsBase handle < 2 ^ 32 := by
  have hlt : ∀ x, m.extendedPoolLinearAddress x < 2 ^ 32 := fun x =>
    Nat.mod_lt _ (Nat.two_pow_pos 32)
  unfold xmsBase
  split
  · exact hlt _
  · exact hlt _

variable [DirectCells σ extendedRamBase setup.extendedMemorySize] {i newSizeKb : ℕ}
variable {handle handle' : XmsHandle}

lemma copyBlock_written (h : Owned setup m) {source target : Allocation} {n bytes : ℕ}
    (hsource : m.extendedPoolLinearAddress source.offset + n ≤ 2 ^ 32)
    (htarget : (target, bytes) ∈ leases m setup.reserved) (hn : n ≤ bytes) :
    Written mem (fun k => extendedRamBase + setup.allocatorBaseOffset + (target.offset + k)) n
      (fun k => byteAt mem (m.extendedPoolLinearAddress source.offset + k))
      (m.copyBlock mem source target n) := by
  unfold copyBlock
  split_ifs with hpos
  · have hend : m.extendedPoolLinearAddress target.offset + bytes ≤ 2 ^ 32 :=
      lease_address_le hsize h htarget (hpos.trans_le hn)
    have hlen : (readBlock mem (m.extendedPoolLinearAddress source.offset) n).length = n :=
      length_readBlock hsource
    have hwritten : Written mem
        (fun k => location mem (m.extendedPoolLinearAddress target.offset + k)) _ _ _ :=
      writeBlock_written (readBlock mem (m.extendedPoolLinearAddress source.offset) n) (by omega)
    rw [hlen] at hwritten
    refine hwritten.congr (fun k hk => ?_) fun k hk => ?_
    · exact (location_lease hsize h htarget (hk.trans_le hn)).symm
    · exact (getD_readBlock hsource hk).symm
  · obtain rfl : n = 0 := by omega
    exact Written.nothing mem _ _

omit [DirectCells σ extendedRamBase setup.extendedMemorySize] in
lemma take_xmsContents {i : ℕ} {handle : XmsHandle} (h : Owned setup m)
    (hi : m.xmsHandles[i]? = some handle) (mem : σ) {n : ℕ} (hn : n ≤ handle.sizeKb * 1024) :
    (m.xmsContents mem handle).take n = readBlock mem (m.xmsBase handle) n := by
  refine take_readBlock ?_ hn
  have hlt := xmsBase_lt m handle
  have hmem := List.mem_of_getElem? hi
  cases hblock : handle.allocation with
  | none =>
    rw [h.sizeKb_eq_zero hmem hblock]
    omega
  | some block =>
    have hend := lease_address_le hsize h (mem_leases_block hmem hblock)
      (h.blockBytes_pos hmem hblock)
    have hle := le_blockBytes handle.sizeKb
    have hbase : m.xmsBase handle = m.extendedPoolLinearAddress block.offset := by
      rw [xmsBase, hblock]
    rw [hbase]
    dsimp only at hend
    omega

section Reallocation

variable {result : Except ℕ Unit} (h : Owned setup m) (h' : Owned setup m')
  (hi : m.xmsHandles[i]? = some handle)
  (hr : Reallocated m mem i handle newSizeKb result handle' m' mem')
include h h' hi hr

omit hsize [CellMemory σ] [DirectCells σ extendedRamBase setup.extendedMemorySize] h h' in
lemma Reallocated.getElem? : m'.xmsHandles[i]? = some handle' := by
  rw [hr.others]
  exact List.getElem?_set_self (List.getElem?_eq_some_iff.mp hi).1

omit hsize [CellMemory σ] [DirectCells σ extendedRamBase setup.extendedMemorySize] h h' hi in
lemma Reallocated.linearAddress (x : ℕ) :
    m'.extendedPoolLinearAddress x = m.extendedPoolLinearAddress x := by rw [hr.others]; rfl

omit hsize [CellMemory σ] [DirectCells σ extendedRamBase setup.extendedMemorySize] h h' hi in
lemma Reallocated.xmsBase_eq {u v : XmsHandle} (hsame : u.allocation = v.allocation) :
    m'.xmsBase u = m.xmsBase v := by
  unfold xmsBase
  rw [hsame]
  split
  · exact hr.linearAddress _
  · exact hr.linearAddress _

lemma Reallocated.written : mem' = mem ∧
      (handle'.allocation = handle.allocation ∨ min handle.sizeKb handle'.sizeKb * 1024 = 0) ∨
    ∃ source target, handle.allocation = some source ∧ handle'.allocation = some target ∧
      Written mem (fun k => extendedRamBase + setup.allocatorBaseOffset + (target.offset + k))
        (min handle.sizeKb handle'.sizeKb * 1024)
        (fun k => byteAt mem (m.extendedPoolLinearAddress source.offset + k)) mem' := by
  rcases hr.carried with hsame | ⟨source, target, hold, hnew, hcarried⟩
  · exact Or.inl hsame
  refine Or.inr ⟨source, target, hold, hnew, ?_⟩
  have hmem := List.mem_of_getElem? hi
  have hend := lease_address_le hsize h (mem_leases_block hmem hold) (h.blockBytes_pos hmem hold)
  have hfrom := le_blockBytes handle.sizeKb
  have hto := le_blockBytes handle'.sizeKb
  have hle := Nat.min_le_left handle.sizeKb handle'.sizeKb
  have hle' := Nat.min_le_right handle.sizeKb handle'.sizeKb
  have hsource : m.extendedPoolLinearAddress source.offset +
      min handle.sizeKb handle'.sizeKb * 1024 ≤ 2 ^ 32 := by
    dsimp only at hend
    omega
  have htarget : min handle.sizeKb handle'.sizeKb * 1024 ≤ blockBytes handle'.sizeKb :=
    (Nat.mul_le_mul_right 1024 hle').trans hto
  have hcopy : m.copyBlock mem source target (min handle.sizeKb handle'.sizeKb * 1024) =
      m'.copyBlock mem source target (min handle.sizeKb handle'.sizeKb * 1024) := by
    unfold copyBlock
    rw [hr.linearAddress, hr.linearAddress]
  rw [hcarried, hcopy, ← hr.linearAddress]
  rw [← hr.linearAddress] at hsource
  exact copyBlock_written hsize h' hsource
    (mem_leases_block (List.mem_of_getElem? (hr.getElem? hi)) hnew) htarget

lemma Reallocated.keeps_lease {lease : Allocation × ℕ} (hl : lease ∈ leases m' setup.reserved)
    (hne : ∀ target, handle'.allocation = some target → target ≠ lease.1) {n : ℕ}
    (hpos : 0 < lease.2) (hn : n ≤ lease.2) :
    readBlock mem' (m.extendedPoolLinearAddress lease.1.offset) n =
      readBlock mem (m.extendedPoolLinearAddress lease.1.offset) n := by
  rcases hr.written hsize h h' hi with ⟨rfl, -⟩ | ⟨source, target, hsource, htarget, hwritten⟩
  · rfl
  have hend := lease_address_le hsize h' hl hpos
  rw [← hr.linearAddress]
  refine readBlock_congr (by omega) (by omega) fun k hk => ?_
  unfold byteAt
  rw [hwritten.location, location_lease hsize h' hl (by omega)]
  refine hwritten.outside fun j hj => ?_
  have hto := le_blockBytes handle'.sizeKb
  have hle' := Nat.min_le_right handle.sizeKb handle'.sizeKb
  have hdisjoint := h'.disjoint (j := j) (k := k)
    (mem_leases_block (List.mem_of_getElem? (hr.getElem? hi)) htarget) hl (hne target htarget)
    (by dsimp only; omega) (by omega)
  dsimp only at hdisjoint
  omega

lemma Reallocated.keeps_block {n : ℕ} (hn : n ≤ min handle.sizeKb handle'.sizeKb * 1024) :
    readBlock mem' (m'.xmsBase handle') n = readBlock mem (m.xmsBase handle) n := by
  rcases hr.written hsize h h' hi with
    ⟨rfl, hsame | hnothing⟩ | ⟨source, target, hold, hnew, hwritten⟩
  · rw [hr.xmsBase_eq hsame]
  · have hbase := xmsBase_lt m handle
    have hbase' := xmsBase_lt m' handle'
    exact readBlock_congr (by omega) (by omega) fun k hk => by omega
  · have hbase : m.xmsBase handle = m.extendedPoolLinearAddress source.offset := by
      rw [xmsBase, hold]
    have hbase' : m'.xmsBase handle' = m'.extendedPoolLinearAddress target.offset := by
      rw [xmsBase, hnew]
    have hmem := List.mem_of_getElem? hi
    have hmem' := List.mem_of_getElem? (hr.getElem? hi)
    have hend := lease_address_le hsize h (mem_leases_block hmem hold) (h.blockBytes_pos hmem hold)
    have hend' := lease_address_le hsize h' (mem_leases_block hmem' hnew)
      (h'.blockBytes_pos hmem' hnew)
    have hfrom := (Nat.mul_le_mul_right 1024 (Nat.min_le_left handle.sizeKb handle'.sizeKb)).trans
      (le_blockBytes handle.sizeKb)
    have hto := (Nat.mul_le_mul_right 1024 (Nat.min_le_right handle.sizeKb handle'.sizeKb)).trans
      (le_blockBytes handle'.sizeKb)
    rw [hbase, hbase']
    dsimp only at hend hend'
    refine readBlock_congr (by omega) (by omega) fun k hk => ?_
    have hlocation : location mem' (m'.extendedPoolLinearAddress target.offset + k) = _ :=
      location_lease hsize h' (mem_leases_block hmem' hnew) (hk.trans_le (hn.trans hto))
    have hcell := hwritten.inside_iff.mpr (fun j _ k _ hc => by rw [Nat.add_left_cancel
      (Nat.add_left_cancel hc)]) k (hk.trans_le hn)
    rw [byteAt, hlocation]
    exact hcell

omit hsize [CellMemory σ] [DirectCells σ extendedRamBase setup.extendedMemorySize] h h' hi in
lemma Reallocated.activeXmsHandle_eq {handleId : ℕ}
    (hactive : m.activeXmsHandle handleId = some (i, handle)) :
    m'.activeXmsHandle handleId = some (i, handle') := by
  have hget := hr.getElem? (activeXmsHandle_eq_some hactive)
  simp only [activeXmsHandle, Option.bind_eq_bind, Option.bind_eq_some_iff,
    Option.pure_def, Option.some.injEq, Prod.mk.injEq, Option.filter_eq_some_iff] at hactive ⊢
  obtain ⟨index, hindex, found, ⟨hfound, hon⟩, rfl, rfl⟩ := hactive
  exact ⟨index, hindex, handle', ⟨hget, hr.active.trans hon⟩, rfl, rfl⟩

/-- A reallocation that carries over what it keeps keeps everything else as well. -/
lemma Reallocated.keeps {handleId : ℕ} (hactive : m.activeXmsHandle handleId = some (i, handle)) :
    ReallocationKeeps m mem handleId i handle newSizeKb result m' mem' := by
  have hget := hr.getElem? hi
  have hmem' := List.mem_of_getElem? hget
  have hxms : m'.xmsHandles = m.xmsHandles.set i handle' := by rw [hr.others]
  have hems : m'.emsHandles = m.emsHandles := by rw [hr.others]
  have hkb := hr.sizeKb
  refine ⟨⟨handle', hr.activeXmsHandle_eq hactive, fun hok => ?_, fun code herror => ?_⟩,
    fun j hj => ⟨?_, fun other hother => ⟨?_, ?_⟩⟩, hems, fun other hother page hpage => ⟨?_, ?_⟩⟩
  · rw [if_pos hok] at hkb
    refine ⟨hkb, ?_⟩
    rw [take_xmsContents hsize h hi mem (Nat.mul_le_mul_right _ (Nat.min_le_left _ _)),
      take_xmsContents hsize h' hget mem'
        (Nat.mul_le_mul_right _ (hkb ▸ Nat.min_le_right _ _)), ← hkb]
    exact hr.keeps_block hsize h h' hi le_rfl
  · rw [if_neg (by rw [herror]; rintro ⟨⟩)] at hkb
    refine ⟨hkb, ?_⟩
    rw [xmsContents, xmsContents, hkb]
    exact hr.keeps_block hsize h h' hi (by rw [hkb, Nat.min_self])
  · rw [hxms]
    exact List.getElem?_set_ne hj.symm
  · exact hr.xmsBase_eq rfl
  · have hother' : m'.xmsHandles[j]? = some other :=
      (hxms ▸ List.getElem?_set_ne hj.symm).trans hother
    have hlt := xmsBase_lt m other
    have hmemOther := List.mem_of_getElem? hother'
    rw [xmsContents, xmsContents, hr.xmsBase_eq rfl]
    cases hblock : other.allocation with
    | none =>
      rw [h'.sizeKb_eq_zero hmemOther hblock]
      exact readBlock_congr (by omega) (by omega) fun k hk => by omega
    | some block =>
      rw [xmsBase, hblock]
      refine hr.keeps_lease hsize h h' hi (mem_leases_block hmemOther hblock)
        (fun target htarget => ?_) (h'.blockBytes_pos hmemOther hblock) (le_blockBytes _)
      exact h'.block_ne hj.symm hget hother' htarget hblock
  · exact hr.linearAddress _
  · have hlease : (page, emsPageSize) ∈ leases m' setup.reserved :=
      mem_leases_page (hems ▸ hother) hpage
    unfold emsPageContents
    rw [hr.linearAddress]
    refine hr.keeps_lease hsize h h' hi hlease (fun target htarget => ?_)
      (show 0 < emsPageSize by decide) le_rfl
    exact (h'.page_ne_block (hems ▸ hother) hmem' hpage htarget).symm

end Reallocation

end Pool

/-- Every reallocation of an active handle, locked or not, keeps what it should. -/
def ReallocationsKeep (m : MemoryManager) (mem : σ) : Prop :=
  ∀ handleId i handle, m.activeXmsHandle handleId = some (i, handle) →
    (∀ newSizeKb < 2 ^ 16, ∃ result m' mem',
      m.xmsReallocate handleId newSizeKb mem = some (result, m', mem') ∧
        ReallocationKeeps m mem handleId i handle newSizeKb result m' mem') ∧
    ∀ newSizeKb < 2 ^ 32, ∃ result m' mem',
      m.xmsReallocate32 handleId newSizeKb mem = some (result, m', mem') ∧
        ReallocationKeeps m mem handleId i handle newSizeKb result m' mem'

/-- **Reallocation of XMS blocks.** In every state that a new manager reaches through calls as
programs make them, a reallocation gives a handle its new size with the contents that both sizes
have, or an error with its old size and all contents; every other block, and every page, stays
where it is with what it holds. -/
theorem xms_reallocations_keep (extendedMemorySize : ℕ)
    [DirectCells σ extendedRamBase extendedMemorySize]
    (hsize : extendedRamBase + extendedMemorySize ≤ 2 ^ 32) (emsWindow : Option EmsWindow)
    (xmsEnabled : Bool) (umbWindow : Option UmbWindow) (mem : σ) :
    ∃ m₀ mem₀, new extendedMemorySize emsWindow xmsEnabled umbWindow mem = some (m₀, mem₀) ∧
      ∀ calls, (∀ call ∈ calls, Issued xmsEnabled call) →
        ∃ m mem', run m₀ mem₀ calls = some (m, mem') ∧ ReallocationsKeep m mem' := by
  have hlt : extendedMemorySize < 2 ^ 32 := by
    simp only [extendedRamBase] at hsize
    omega
  obtain ⟨m₀, mem₀, hnew, ht₀⟩ := new_tidy hlt emsWindow xmsEnabled umbWindow mem
  obtain ⟨m₀', mem₀', base, reserved, hnew', h₀, -⟩ :=
    new_owned hlt emsWindow xmsEnabled umbWindow mem
  obtain ⟨rfl, rfl⟩ := Prod.mk.inj (Option.some.inj (hnew.symm.trans hnew'))
  refine ⟨m₀, mem₀, hnew, fun calls hcalls => ?_⟩
  obtain ⟨m, mem', hrun, ht⟩ := run_tidy ht₀ mem₀ calls hcalls
  obtain ⟨m₁, mem₁, hrun', h⟩ := run_owned ht₀ h₀ mem₀ calls hcalls
  obtain ⟨rfl, rfl⟩ := Prod.mk.inj (Option.some.inj (hrun.symm.trans hrun'))
  have hdvd : pageSize4k ∣ gridStep xmsEnabled := by cases xmsEnabled <;> decide
  refine ⟨m, mem', hrun, fun handleId i handle hactive => ⟨fun newSizeKb hkb => ?_,
    fun newSizeKb hkb => ?_⟩⟩
  · obtain ⟨result, handle', m', mem'', hm', h', hr⟩ := xmsReallocateInternal_reallocates
      hdvd ht.gridded h hactive mem' (show newSizeKb < 2 ^ 32 by omega)
    exact ⟨result, m', mem'', hm', hr.keeps hsize h h' (activeXmsHandle_eq_some hactive) hactive⟩
  · obtain ⟨result, handle', m', mem'', hm', h', hr⟩ := xmsReallocate32_reallocates
      hdvd ht.gridded h hactive mem' hkb
    exact ⟨result, m', mem'', hm', hr.keeps hsize h h' (activeXmsHandle_eq_some hactive) hactive⟩

/-- A run that leaves a block between two others. -/
theorem xms_reallocations_keep_small : ∃ m₀ mem₀,
    new 0x40000 (some ⟨0xC000⟩) true none Machine.new = some (m₀, mem₀) ∧
      ∃ m mem, run m₀ mem₀ [.xmsAllocate 5, .emsAllocatePages 1, .xmsAllocate32 9,
        .xmsReallocate 1 40, .xmsFree 2] = some (m, mem) ∧ ReallocationsKeep m mem := by
  obtain ⟨m₀, mem₀, hnew, hruns⟩ := xms_reallocations_keep 0x40000 (by decide) (some ⟨0xC000⟩) true
    none Machine.new
  refine ⟨m₀, mem₀, hnew, hruns _ ?_⟩
  simp [Issued]

end Neetan.Ems
