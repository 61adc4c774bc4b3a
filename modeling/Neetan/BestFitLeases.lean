import Neetan.BestFitRun

/-!
Leases on the pool of the best-fit allocator, and the handles held by a client.

A lease is a live handle with a size that its region has at least. A client holds each handle in
one lease only. The operations of the allocator add, end and resize leases, two leases never share
an address with each other or with free memory, and what a lease gives back can be had again.

A client of the allocator keeps two lists of live handles without repetition: pages, whose regions
have at least a given size, and others.
-/

namespace Neetan.BestFit

open Neetan.Tiling

variable {s s' : BestFitAllocator} {a b : Allocation} {n m x : ℕ}

/-! ### Regions of handles -/

lemma Holds.mem_activeRegions (h : Holds s a n) : (⟨a.offset, n⟩ : Region) ∈ activeRegions s :=
  List.mem_flatMap.mpr ⟨_, List.mem_of_getElem? h, List.mem_singleton_self _⟩

lemma Settled.held_shaped (h : Settled s) (ha : Holds s a n) : Shaped ⟨a.offset, n⟩ :=
  h.1.active_shaped ha.mem_activeRegions

lemma Settled.held_end_le (h : Settled s) (ha : Holds s a n) : a.offset + n ≤ s.size :=
  h.1.tiles.end_le (List.mem_append_right _ (List.mem_append_right _ ha.mem_activeRegions))
    (h.held_shaped ha).pos

lemma Settled.held_not_free (h : Settled s) (ha : Holds s a n)
    (hx : (⟨a.offset, n⟩ : Region).Contains x) {r : Region} (hr : r ∈ freeRegions s) :
    ¬ r.Contains x := by
  have ht : Tiles (freeRegions s ++ activeRegions s) s.size := h.1.tiles
  intro hrx
  exact (List.pairwise_append.mp ht.pairwise).2.2 r hr _ ha.mem_activeRegions x ⟨hrx, hx⟩

lemma Settled.held_unique (h : Settled s) (ha : Holds s a n) (hb : Holds s b m)
    (hax : (⟨a.offset, n⟩ : Region).Contains x) (hbx : (⟨b.offset, m⟩ : Region).Contains x) :
    a = b := by
  have ht : Tiles (freeRegions s ++ activeRegions s) s.size := h.1.tiles
  have hslots := (List.pairwise_flatMap.mp (List.pairwise_append.mp ht.pairwise).2.1).2
  rw [List.pairwise_iff_getElem] at hslots
  obtain ⟨hi, hai⟩ := List.getElem?_eq_some_iff.mp ha
  obtain ⟨hj, hbj⟩ := List.getElem?_eq_some_iff.mp hb
  rcases Nat.lt_trichotomy a.allocationId b.allocationId with hlt | heq | hgt
  · refine absurd ⟨hax, hbx⟩ (hslots _ _ hi hj hlt ⟨a.offset, n⟩ ?_ ⟨b.offset, m⟩ ?_ x)
    · rw [hai]
      exact List.mem_singleton_self _
    · rw [hbj]
      exact List.mem_singleton_self _
  · unfold Holds at ha hb
    rw [heq, hb] at ha
    obtain ⟨o, i, g⟩ := a
    obtain ⟨o', i', g'⟩ := b
    simp only [Option.some.injEq, AllocationSlot.mk.injEq, ActiveAllocation.mk.injEq] at ha heq
    simp [ha.1.1, ha.2, heq]
  · refine absurd ⟨hbx, hax⟩ (hslots _ _ hj hi hgt ⟨b.offset, m⟩ ?_ ⟨a.offset, n⟩ ?_ x)
    · rw [hbj]
      exact List.mem_singleton_self _
    · rw [hai]
      exact List.mem_singleton_self _

lemma Settled.free_interval (h : Settled s) {o : ℕ} (hn : 0 < n)
    (hfree : ∀ x, o ≤ x → x < o + n → ∃ r ∈ freeRegions s, r.Contains x) :
    ∃ r ∈ freeRegions s, r.offset ≤ o ∧ o + n ≤ r.offset + r.size := by
  obtain ⟨r, hr, hle, hlt⟩ := hfree o le_rfl (by omega)
  refine ⟨r, hr, hle, ?_⟩
  by_contra hend
  -- the region that holds the first address behind this one would be adjacent to it
  obtain ⟨r', hr', hle', hlt'⟩ := hfree (r.offset + r.size) (by omega) (by omega)
  have hsep := h.2 r hr r' hr'
  have hshared : r' = r := h.1.free_unique hr' hr (x := r.offset + r.size - 1)
    ⟨by omega, by omega⟩ ⟨by omega, by omega⟩
  rw [hshared] at hlt'
  omega

/-! ### Leases -/

structure Leased (s : BestFitAllocator) (leases : List (Allocation × ℕ)) : Prop where
  settled : Settled s
  nodup : (leases.map Prod.fst).Nodup
  holds : ∀ lease ∈ leases, ∃ n, Holds s lease.1 n ∧ lease.2 ≤ n

variable {leases leases' : List (Allocation × ℕ)}

lemma Leased.perm (h : Leased s leases) (hp : leases.Perm leases') : Leased s leases' :=
  ⟨h.settled, (hp.map Prod.fst).nodup_iff.mp h.nodup, fun l hl => h.holds l (hp.mem_iff.mpr hl)⟩

lemma Leased.sublist (h : Leased s leases) (hp : leases'.Sublist leases) : Leased s leases' :=
  ⟨h.settled, h.nodup.sublist (hp.map Prod.fst), fun l hl => h.holds l (hp.subset hl)⟩

lemma Leased.weaken (h : Leased s ((a, n) :: leases)) (hle : m ≤ n) :
    Leased s ((a, m) :: leases) := by
  refine ⟨h.settled, h.nodup, fun l hl => ?_⟩
  rcases List.mem_cons.mp hl with rfl | hl
  · obtain ⟨k, hk, hk'⟩ := h.holds _ List.mem_cons_self
    exact ⟨k, hk, hle.trans hk'⟩
  · exact h.holds l (List.mem_cons_of_mem _ hl)

lemma Leased.fresh (h : Leased s ((a, n) :: leases)) {lease : Allocation × ℕ}
    (hl : lease ∈ leases) : lease.1 ≠ a := fun hc =>
  (List.nodup_cons.mp h.nodup).1 (List.mem_map.mpr ⟨lease, hl, hc⟩)

lemma Leased.end_le (h : Leased s leases) {lease : Allocation × ℕ} (hl : lease ∈ leases) :
    lease.1.offset + lease.2 ≤ s.size := by
  obtain ⟨k, hk, hle⟩ := h.holds _ hl
  have := h.settled.held_end_le hk
  omega

lemma Leased.allocate (h : Leased s leases) (size alignment : ℕ) :
    ∃ result s', s.allocateAligned size alignment = some (result, s') ∧ s'.size = s.size ∧
      (result = none → s' = s) ∧ ∀ a, result = some a → Leased s' ((a, size) :: leases) := by
  obtain ⟨result, s', hs', hset, hsize, hnone, hsome⟩ :=
    allocateAligned_spec h.settled size alignment
  refine ⟨result, s', hs', hsize, hnone, fun a ha => ?_⟩
  obtain ⟨k, hk, hands⟩ := hsome a ha
  refine ⟨hset, List.nodup_cons.mpr ⟨fun hmem => ?_, h.nodup⟩, fun l hl => ?_⟩
  · obtain ⟨l, hl, rfl⟩ := List.mem_map.mp hmem
    obtain ⟨k', hk', -⟩ := h.holds l hl
    exact hands.fresh k' hk'
  · rcases List.mem_cons.mp hl with rfl | hl
    · exact ⟨k, hands.holds, hk⟩
    · obtain ⟨k', hk', hle⟩ := h.holds l hl
      exact ⟨k', hands.keeps _ _ hk', hle⟩

lemma Leased.deallocate (h : Leased s ((a, n) :: leases)) :
    ∃ s', s.deallocate a = some s' ∧ s'.size = s.size ∧ Leased s' leases ∧
      ∃ r ∈ freeRegions s', r.offset ≤ a.offset ∧ a.offset + n ≤ r.offset + r.size := by
  obtain ⟨k, hk, hle⟩ := h.holds _ List.mem_cons_self
  obtain ⟨s', hs', hset, hsize, hslots⟩ := deallocate_live h.settled ⟨k, hk⟩
  have hkeeps := holds_set hk hslots
  have hpos := (h.settled.held_shaped hk).pos
  have hend := h.settled.held_end_le hk
  simp only at hle hpos hend
  have hfree : ∀ x, a.offset ≤ x → x < a.offset + k → ∃ r ∈ freeRegions s', r.Contains x := by
    intro x hx hx'
    have ht : Tiles (freeRegions s' ++ activeRegions s') s'.size := hset.1.tiles
    obtain ⟨r, hr, hrx⟩ := ht.exists_contains (x := x) (by omega)
    rcases List.mem_append.mp hr with hr | hr
    · exact ⟨r, hr, hrx⟩
    · -- an active region over the address was active before, beside the one given back
      obtain ⟨slot, hslot, hr⟩ := List.mem_flatMap.mp hr
      obtain ⟨i, hi⟩ := List.mem_iff_getElem?.mp hslot
      obtain ⟨_ | ⟨o, k'⟩, g⟩ := slot
      · exact absurd hr List.not_mem_nil
      · obtain rfl := List.mem_singleton.mp hr
        obtain ⟨hk', hne⟩ := (hkeeps ⟨o, i, g⟩ k').mp hi
        exact absurd (h.settled.held_unique hk' hk hrx ⟨hx, hx'⟩) hne
  obtain ⟨r, hr, hle', hend'⟩ := hset.free_interval hpos hfree
  refine ⟨s', hs', hsize, ⟨hset, (List.nodup_cons.mp h.nodup).2, fun l hl => ?_⟩, r, hr, hle',
    by omega⟩
  obtain ⟨k', hk', hle'⟩ := h.holds l (List.mem_cons_of_mem _ hl)
  exact ⟨k', (hkeeps _ _).mpr ⟨hk', h.fresh hl⟩, hle'⟩

lemma Leased.resize (h : Leased s ((a, n) :: leases)) (size : ℕ) :
    ∃ result s', s.reallocateInPlace a size = some (result, s') ∧ s'.size = s.size ∧
      (result = none → s' = s ∧ n < size) ∧
      ∀ a', result = some a' → a' = a ∧ Leased s' ((a, size) :: leases) := by
  obtain ⟨k, hk, hle⟩ := h.holds _ List.mem_cons_self
  obtain ⟨result, s', hs', hset, hsize, hnone, -, hsome⟩ := reallocateInPlace_spec h.settled a size
  refine ⟨result, s', hs', hsize, fun hr => ⟨hnone hr, ?_⟩, fun a' ha' => ?_⟩
  · by_contra hc
    have hfits : size ≤ k := (not_lt.mp hc).trans hle
    obtain ⟨s'', hs''⟩ := reallocateInPlace_fits h.settled hk hfits
    rw [hs''] at hs'
    cases hs'
    cases hr
  · obtain ⟨rfl, ⟨k', hk', hholds⟩, hkeeps⟩ := hsome a' ha'
    refine ⟨rfl, hset, h.nodup, fun l hl => ?_⟩
    rcases List.mem_cons.mp hl with rfl | hl
    · exact ⟨k', hholds, hk'⟩
    · obtain ⟨k', hk', hle'⟩ := h.holds l (List.mem_cons_of_mem _ hl)
      exact ⟨k', hkeeps _ _ (h.fresh hl) hk', hle'⟩

variable {pageSize : ℕ}

/-! ### Clients -/

/-- What a client holds: live handles, each once, the pages with regions of the page size. -/
structure Held (pageSize : ℕ) (s : BestFitAllocator) (pages others : List Allocation) : Prop where
  settled : Settled s
  nodup : (pages ++ others).Nodup
  page : ∀ a ∈ pages, ∃ n, Holds s a n ∧ pageSize ≤ n
  other : ∀ a ∈ others, Live s a

variable {pages others pages' others' : List Allocation}

/-- The leases of a client: pages of the page size, and others of no size in particular. -/
def clientLeases (pageSize : ℕ) (pages others : List Allocation) : List (Allocation × ℕ) :=
  (pages.map fun a => (a, pageSize)) ++ others.map fun a => (a, 0)

lemma held_iff_leased :
    Held pageSize s pages others ↔ Leased s (clientLeases pageSize pages others) := by
  have hmap : (clientLeases pageSize pages others).map Prod.fst = pages ++ others := by
    simp [clientLeases, Function.comp_def]
  constructor
  · rintro ⟨hset, hnodup, hpage, hother⟩
    refine ⟨hset, hmap ▸ hnodup, fun lease hlease => ?_⟩
    rcases List.mem_append.mp hlease with hl | hl
    · obtain ⟨a, ha, rfl⟩ := List.mem_map.mp hl
      exact hpage a ha
    · obtain ⟨a, ha, rfl⟩ := List.mem_map.mp hl
      obtain ⟨n, hn⟩ := hother a ha
      exact ⟨n, hn, Nat.zero_le n⟩
  · rintro ⟨hset, hnodup, hholds⟩
    refine ⟨hset, hmap ▸ hnodup, fun a ha => ?_, fun a ha => ?_⟩
    · exact hholds (a, pageSize) (List.mem_append_left _ (List.mem_map_of_mem ha))
    · obtain ⟨n, hn, -⟩ :=
        hholds (a, 0) (List.mem_append_right _ (List.mem_map.mpr ⟨a, ha, rfl⟩))
      exact ⟨n, hn⟩

lemma Held.leased (h : Held pageSize s pages others) :
    Leased s (clientLeases pageSize pages others) := held_iff_leased.mp h

lemma clientLeases_other :
    (clientLeases pageSize pages (a :: others)).Perm
      ((a, 0) :: clientLeases pageSize pages others) :=
  List.perm_middle

lemma Held.perm (h : Held pageSize s pages others) (hp : pages.Perm pages')
    (ho : others.Perm others') : Held pageSize s pages' others' :=
  held_iff_leased.mpr (h.leased.perm ((hp.map _).append (ho.map _)))

lemma Held.sublist (h : Held pageSize s pages others) (hp : pages'.Sublist pages)
    (ho : others'.Sublist others) : Held pageSize s pages' others' :=
  held_iff_leased.mpr (h.leased.sublist ((hp.map _).append (ho.map _)))

lemma Held.allocate (h : Held pageSize s pages others) (size alignment : ℕ) :
    ∃ result s', s.allocateAligned size alignment = some (result, s') ∧
      (result = none → Held pageSize s' pages others) ∧
      ∀ a, result = some a → Held pageSize s' pages (a :: others) ∧
        (pageSize ≤ size → Held pageSize s' (a :: pages) others) := by
  obtain ⟨result, s', hs', -, hnone, hsome⟩ := h.leased.allocate size alignment
  refine ⟨result, s', hs', fun hr => hnone hr ▸ h, fun a ha => ⟨?_, fun hle => ?_⟩⟩
  · exact held_iff_leased.mpr
      (((hsome a ha).weaken (Nat.zero_le _)).perm clientLeases_other.symm)
  · exact held_iff_leased.mpr ((hsome a ha).weaken hle)

lemma Held.deallocatePage (h : Held pageSize s (a :: pages) others) :
    ∃ s', s.deallocate a = some s' ∧ Held pageSize s' pages others := by
  obtain ⟨s', hs', -, hleased, -⟩ := Leased.deallocate h.leased
  exact ⟨s', hs', held_iff_leased.mpr hleased⟩

lemma Held.deallocateOther (h : Held pageSize s pages (a :: others)) :
    ∃ s', s.deallocate a = some s' ∧ Held pageSize s' pages others := by
  obtain ⟨s', hs', -, hleased, -⟩ := (h.leased.perm clientLeases_other).deallocate
  exact ⟨s', hs', held_iff_leased.mpr hleased⟩

lemma Held.resizeOther (h : Held pageSize s pages (a :: others)) (size : ℕ) :
    ∃ result s', s.reallocateInPlace a size = some (result, s') ∧
      Held pageSize s' pages (a :: others) ∧ ∀ a', result = some a' → a' = a := by
  obtain ⟨result, s', hs', -, hnone, hsome⟩ := (h.leased.perm clientLeases_other).resize size
  refine ⟨result, s', hs', ?_, fun a' ha' => (hsome a' ha').1⟩
  cases result with
  | none => exact (hnone rfl).1 ▸ h
  | some a' =>
    exact held_iff_leased.mpr
      (((hsome a' rfl).2.weaken (Nat.zero_le _)).perm clientLeases_other.symm)

end Neetan.BestFit
