import Neetan.BestFit
import Mathlib.Algebra.Order.Group.Nat

/-!
The layout of the best-fit allocator's pool.

In the middle of an operation some regions are neither free nor active; they are pending.
An operation moves regions between the free map, the slots and the pending ones, and splits
or merges pending regions, so that all of them together always tile the pool.
-/

namespace Neetan.BestFit

open Neetan.MachineInt Neetan.OrderedMap Neetan.Tiling

def freeRegions (s : BestFitAllocator) : List Region :=
  s.freeByOffset.entries.map fun e => ⟨e.1, e.2.size⟩

/-- The region of a slot, if it is active. -/
def slotRegions (slot : AllocationSlot) : List Region :=
  match slot.allocation with
  | some active => [⟨active.offset, active.size⟩]
  | none => []

def activeRegions (s : BestFitAllocator) : List Region := s.activeAllocations.flatMap slotRegions

/-- The entry of a free region in the size index. -/
def sizeKey (r : Region) : ℕ ×ₗ ℕ := toLex (r.size, r.offset)

/-- Aligned, and not too small. -/
def Shaped (r : Region) : Prop := 4 ∣ r.offset ∧ 4 ∣ r.size ∧ 16 ≤ r.size

/-- No region starts where another one, or itself, ends. -/
def Separate (rs : List Region) : Prop := ∀ r ∈ rs, ∀ r' ∈ rs, r.offset + r.size ≠ r'.offset

/-- The state of the pool while the given regions are pending. -/
structure Valid (s : BestFitAllocator) (pending : List Region) : Prop where
  tiles : Tiles (pending ++ (freeRegions s ++ activeRegions s)) s.size
  shaped : ∀ r ∈ freeRegions s ++ activeRegions s, Shaped r
  bySize : (s.freeBySize.entries.map Prod.fst).Perm ((freeRegions s).map sizeKey)
  total : s.totalFreeSize = ((freeRegions s).map Region.size).sum
  reusable : ∀ id, id ∈ s.reusableAllocationIds ↔ ∃ g, s.activeAllocations[id]? = some ⟨none, g⟩
  reusable_nodup : s.reusableAllocationIds.Nodup
  count : s.activeCount = (activeRegions s).length
  capacity : 16 * s.activeAllocations.length ≤ s.size
  size_lt : s.size < 2 ^ 32

/-- Only the free regions differ. -/
def SameSlots (s s' : BestFitAllocator) : Prop :=
  s'.size = s.size ∧ s'.activeAllocations = s.activeAllocations ∧
    s'.reusableAllocationIds = s.reusableAllocationIds ∧ s'.activeCount = s.activeCount

variable {s' : BestFitAllocator} {pending' : List Region} {o n : ℕ}

lemma SameSlots.trans {s s'' : BestFitAllocator} (h : SameSlots s s') (h' : SameSlots s' s'') :
    SameSlots s s'' := by
  obtain ⟨h1, h2, h3, h4⟩ := h
  obtain ⟨h1', h2', h3', h4'⟩ := h'
  exact ⟨h1'.trans h1, h2'.trans h2, h3'.trans h3, h4'.trans h4⟩

lemma SameSlots.activeRegions {s : BestFitAllocator} (h : SameSlots s s') :
    activeRegions s' = activeRegions s := by
  unfold BestFit.activeRegions
  rw [h.2.1]

variable {s : BestFitAllocator} {pending : List Region} {r : Region}

lemma mem_freeRegions :
    (⟨o, n⟩ : Region) ∈ freeRegions s ↔ (o, FreeRegion.mk n) ∈ s.freeByOffset.entries := by
  unfold freeRegions
  constructor
  · intro h
    obtain ⟨⟨o', n'⟩, he, h⟩ := List.mem_map.mp h
    obtain ⟨rfl, rfl⟩ : o' = o ∧ n'.size = n := by simpa using h
    exact he
  · exact fun h => List.mem_map.mpr ⟨_, h, rfl⟩

lemma Shaped.pos (h : Shaped r) : 0 < r.size := by
  have := h.2.2
  omega

lemma Valid.free_shaped (h : Valid s pending) (hr : r ∈ freeRegions s) : Shaped r :=
  h.shaped r (List.mem_append_left _ hr)

lemma Valid.free_end_le (h : Valid s pending) (hr : r ∈ freeRegions s) :
    r.offset + r.size ≤ s.size :=
  h.tiles.end_le (List.mem_append_right _ (List.mem_append_left _ hr)) (h.free_shaped hr).pos

lemma Valid.pending_end_le (h : Valid s (r :: pending)) (hr : 0 < r.size) :
    r.offset + r.size ≤ s.size :=
  h.tiles.end_le (List.mem_append_left _ List.mem_cons_self) hr

lemma Valid.ordered (h : Valid s (r :: pending)) (hr : 0 < r.size) {r' : Region}
    (hr' : r' ∈ freeRegions s) :
    r.offset + r.size ≤ r'.offset ∨ r'.offset + r'.size ≤ r.offset :=
  have ht : Tiles (r :: (pending ++ (freeRegions s ++ activeRegions s))) s.size := h.tiles
  ht.ordered (List.mem_append_right _ (List.mem_append_left _ hr')) hr (h.free_shaped hr').pos

/-- The regions outside the free map can be exchanged for others over the same addresses. -/
lemma Valid.exchange (h : Valid s pending) (hc : ∀ x, cover pending x = cover pending' x) :
    Valid s pending' := by
  refine { h with tiles := fun x => ?_ }
  rw [← h.tiles x]
  simp only [cover_append, hc]

lemma Valid.split {a b : ℕ} (h : Valid s (⟨o, a + b⟩ :: pending)) :
    Valid s (⟨o, a⟩ :: ⟨o + a, b⟩ :: pending) :=
  h.exchange fun x => by simp only [cover_cons, hits_split]; omega

lemma Valid.merge {a b : ℕ} (h : Valid s (⟨o, a⟩ :: ⟨o + a, b⟩ :: pending)) :
    Valid s (⟨o, a + b⟩ :: pending) :=
  h.exchange fun x => by simp only [cover_cons, hits_split]; omega

lemma Valid.drop_empty (h : Valid s (⟨o, 0⟩ :: pending)) : Valid s pending :=
  h.exchange fun x => by
    have : (Region.mk o 0).hits x = 0 := if_neg (by simp)
    rw [cover_cons, this, Nat.zero_add]

/-! ### The free map -/

lemma Valid.sum_le (h : Valid s pending) :
    (pending.map Region.size).sum + ((freeRegions s).map Region.size).sum ≤ s.size := by
  have hs := h.tiles.sum_size
  simp only [List.map_append, List.sum_append] at hs
  omega

/-- The pool stays valid when a change of the free map and of its index is made good by the
pending regions. -/
lemma Valid.of_free (h : Valid s pending) (hs : SameSlots s s')
    (hc : ∀ x, cover pending' x + cover (freeRegions s') x =
      cover pending x + cover (freeRegions s) x) (hshaped : ∀ r ∈ freeRegions s', Shaped r)
    (hsize : (s'.freeBySize.entries.map Prod.fst).Perm ((freeRegions s').map sizeKey))
    (htotal : s'.totalFreeSize = ((freeRegions s').map Region.size).sum) : Valid s' pending' := by
  have ha := hs.activeRegions
  obtain ⟨h1, h2, h3, h4⟩ := hs
  refine ⟨fun x => ?_, fun r hr => ?_, hsize, htotal, ?_, ?_, ?_, ?_, ?_⟩
  · rw [h1, ← h.tiles x, ha]
    simp only [cover_append]
    have := hc x
    omega
  · rw [ha] at hr
    rcases List.mem_append.mp hr with hr | hr
    · exact hshaped r hr
    · exact h.shaped r (List.mem_append_right _ hr)
  · rw [h2, h3]
    exact h.reusable
  · rw [h3]
    exact h.reusable_nodup
  · rw [h4, ha]
    exact h.count
  · rw [h1, h2]
    exact h.capacity
  · rw [h1]
    exact h.size_lt

lemma removeFreeRegion_spec (h : Valid s pending) (hr : r ∈ freeRegions s) :
    ∃ s', s.removeFreeRegion r.offset = some (⟨r.size⟩, s') ∧ Valid s' (r :: pending) ∧
      (freeRegions s).Perm (r :: freeRegions s') ∧ SameSlots s s' := by
  have hm : (r.offset, FreeRegion.mk r.size) ∈ s.freeByOffset.entries := mem_freeRegions.mp hr
  have hget : (s.freeByOffset.remove r.offset).1 = some ⟨r.size⟩ := BTreeMap.get_eq_some.mpr hm
  have hkey : sizeKey r ∈ s.freeBySize.entries.map Prod.fst :=
    h.bySize.mem_iff.mpr (List.mem_map_of_mem hr)
  have hmem : (sizeKey r, ()) ∈ s.freeBySize.entries := by
    obtain ⟨e, he, hk⟩ := List.mem_map.mp hkey
    exact hk ▸ he
  let s' : BestFitAllocator := { s with
    freeByOffset := (s.freeByOffset.remove r.offset).2
    freeBySize := (s.freeBySize.remove (sizeKey r)).2
    totalFreeSize := wrappingSub 32 s.totalFreeSize r.size }
  have hperm : (freeRegions s).Perm (r :: freeRegions s') := (BTreeMap.remove_perm hm).map _
  have hsame : SameSlots s s' := ⟨rfl, rfl, rfl, rfl⟩
  refine ⟨s', ?_, ?_, hperm, hsame⟩
  · rw [BestFitAllocator.removeFreeRegion, hget]
    rfl
  refine h.of_free hsame (fun x => ?_) (fun a ha => ?_) ?_ ?_
  · rw [cover_perm hperm, cover_cons, cover_cons]
    omega
  · exact h.free_shaped (hperm.mem_iff.mpr (List.mem_cons_of_mem _ ha))
  · have h1 := ((BTreeMap.remove_perm hmem).map Prod.fst).symm.trans
      (h.bySize.trans (hperm.map sizeKey))
    exact List.Perm.cons_inv h1
  · have hsum := h.total
    rw [(hperm.map Region.size).sum_eq, List.map_cons, List.sum_cons] at hsum
    have hle := h.sum_le
    rw [← h.total] at hle
    have hlt := h.size_lt
    change wrappingSub 32 s.totalFreeSize r.size = _
    rw [wrappingSub_of_le (by omega) (by omega)]
    omega

lemma insertFreeRegion_spec (h : Valid s (r :: pending)) (hr : Shaped r) :
    Valid (s.insertFreeRegion r.offset r.size) pending ∧
      (freeRegions (s.insertFreeRegion r.offset r.size)).Perm (r :: freeRegions s) ∧
      SameSlots s (s.insertFreeRegion r.offset r.size) := by
  have hnew : ∀ a ∈ freeRegions s, a.offset ≠ r.offset := fun a ha he => by
    have ho := h.ordered hr.pos ha
    have := hr.pos
    have := (h.free_shaped ha).pos
    omega
  have hoffset : ∀ e ∈ s.freeByOffset.entries, e.1 ≠ r.offset := fun e he =>
    hnew _ (mem_freeRegions.mpr he)
  have hkey : ∀ e ∈ s.freeBySize.entries, e.1 ≠ sizeKey r := fun e he hk => by
    obtain ⟨a, ha, hk'⟩ := List.mem_map.mp (h.bySize.mem_iff.mp (List.mem_map_of_mem he))
    have hk2 : sizeKey a = sizeKey r := hk'.trans hk
    exact hnew a ha (congrArg (fun p => (ofLex p).2) hk2)
  have hperm : (freeRegions (s.insertFreeRegion r.offset r.size)).Perm (r :: freeRegions s) :=
    (BTreeMap.insert_perm _ hoffset).map _
  have hsame : SameSlots s (s.insertFreeRegion r.offset r.size) := ⟨rfl, rfl, rfl, rfl⟩
  refine ⟨h.of_free hsame (fun x => ?_) (fun a ha => ?_) ?_ ?_, hperm, hsame⟩
  · rw [cover_perm hperm, cover_cons, cover_cons]
    omega
  · rcases List.mem_cons.mp (hperm.mem_iff.mp ha) with rfl | ha
    · exact hr
    · exact h.free_shaped ha
  · have h1 : ((s.insertFreeRegion r.offset r.size).freeBySize.entries.map Prod.fst).Perm
        (sizeKey r :: s.freeBySize.entries.map Prod.fst) :=
      (BTreeMap.insert_perm () hkey).map Prod.fst
    exact h1.trans ((h.bySize.cons (sizeKey r)).trans (hperm.map sizeKey).symm)
  · have hle := h.sum_le
    have hlt := h.size_lt
    rw [List.map_cons, List.sum_cons, ← h.total] at hle
    change wrappingAdd 32 s.totalFreeSize r.size = _
    rw [(hperm.map Region.size).sum_eq, List.map_cons, List.sum_cons, ← h.total,
      wrappingAdd_of_lt (by omega)]
    omega

/-! ### Slots -/

lemma flatMap_set_perm {α β : Type} (f : α → List β) {l : List α} {i : ℕ} {a : α}
    (h : l[i]? = some a) :
    ∃ rest, (l.flatMap f).Perm (f a ++ rest) ∧
      ∀ b, ((l.set i b).flatMap f).Perm (f b ++ rest) := by
  induction l generalizing i with
  | nil => simp at h
  | cons c l ih =>
    cases i with
    | zero =>
      obtain rfl : c = a := by simpa using h
      exact ⟨l.flatMap f, List.Perm.refl _, fun b => List.Perm.refl _⟩
    | succ i =>
      obtain ⟨rest, h1, h2⟩ := ih (by simpa using h)
      have hfront : ∀ l', (f c ++ (l' ++ rest)).Perm (l' ++ (f c ++ rest)) := fun l' => by
        rw [← List.append_assoc, ← List.append_assoc]
        exact List.perm_append_comm.append_right rest
      exact ⟨f c ++ rest, (h1.append_left (f c)).trans (hfront _),
        fun b => ((h2 b).append_left (f c)).trans (hfront _)⟩

lemma Valid.active_shaped (h : Valid s pending) (hr : r ∈ activeRegions s) : Shaped r :=
  h.shaped r (List.mem_append_right _ hr)

/-- There is room for sixteen bytes in each active region besides the pending ones. -/
lemma Valid.active_length (h : Valid s pending) :
    16 * (activeRegions s).length + (pending.map Region.size).sum ≤ s.size := by
  have key : ∀ l : List Region, (∀ a ∈ l, Shaped a) → 16 * l.length ≤ (l.map Region.size).sum := by
    intro l
    induction l with
    | nil => simp
    | cons a l ih =>
      intro hl
      have h1 := ih fun b hb => hl b (List.mem_cons_of_mem _ hb)
      have h2 := (hl a List.mem_cons_self).2.2
      simp only [List.length_cons, List.map_cons, List.sum_cons]
      omega
  have h1 := key (activeRegions s) fun a ha => h.active_shaped ha
  have h2 := h.tiles.sum_size
  simp only [List.map_append, List.sum_append] at h2
  omega

/-- Only the slots and their accounting differ. -/
def SameFree (s s' : BestFitAllocator) : Prop :=
  s'.size = s.size ∧ s'.freeByOffset = s.freeByOffset ∧ s'.freeBySize = s.freeBySize ∧
    s'.totalFreeSize = s.totalFreeSize

lemma SameFree.freeRegions {s : BestFitAllocator} (h : SameFree s s') :
    freeRegions s' = freeRegions s := by
  unfold BestFit.freeRegions
  rw [h.2.1]

/-- The pool stays valid when a change of the slots is made good by the pending regions. -/
lemma Valid.of_slots (h : Valid s pending) (hs : SameFree s s')
    (hc : ∀ x, cover pending' x + cover (activeRegions s') x =
      cover pending x + cover (activeRegions s) x) (hshaped : ∀ r ∈ activeRegions s', Shaped r)
    (hreusable : ∀ id, id ∈ s'.reusableAllocationIds ↔
      ∃ g, s'.activeAllocations[id]? = some ⟨none, g⟩) (hnodup : s'.reusableAllocationIds.Nodup)
    (hcount : s'.activeCount = (activeRegions s').length)
    (hcapacity : 16 * s'.activeAllocations.length ≤ s.size) : Valid s' pending' := by
  have hf := hs.freeRegions
  obtain ⟨h1, h2, h3, h4⟩ := hs
  refine ⟨fun x => ?_, fun r hr => ?_, ?_, ?_, hreusable, hnodup, hcount, h1 ▸ hcapacity,
    h1 ▸ h.size_lt⟩
  · rw [h1, ← h.tiles x, hf]
    simp only [cover_append]
    have := hc x
    omega
  · rw [hf] at hr
    rcases List.mem_append.mp hr with hr | hr
    · exact h.free_shaped hr
    · exact hshaped r hr
  · rw [hf, h3]
    exact h.bySize
  · rw [hf, h4]
    exact h.total

lemma Valid.length_of_full (h : Valid s pending) (hr : s.reusableAllocationIds = []) :
    (activeRegions s).length = s.activeAllocations.length := by
  have hactive : ∀ slot ∈ s.activeAllocations, (slotRegions slot).length = 1 := by
    intro slot hslot
    obtain ⟨i, hi⟩ := List.mem_iff_getElem?.mp hslot
    obtain ⟨_ | active, g⟩ := slot
    · have := (h.reusable i).mpr ⟨g, hi⟩
      rw [hr] at this
      exact absurd this List.not_mem_nil
    · rfl
  rw [activeRegions, List.length_flatMap, List.map_congr_left hactive]
  simp

lemma Valid.activate (h : Valid s (⟨o, n⟩ :: pending)) (hr : Shaped ⟨o, n⟩) (hs : SameFree s s')
    {rest : List Region} (hbefore : (activeRegions s).Perm rest)
    (hafter : (activeRegions s').Perm (⟨o, n⟩ :: rest))
    (hreusable : ∀ id, id ∈ s'.reusableAllocationIds ↔
      ∃ g, s'.activeAllocations[id]? = some ⟨none, g⟩) (hnodup : s'.reusableAllocationIds.Nodup)
    (hcount : s'.activeCount = wrappingAdd 32 s.activeCount 1)
    (hcapacity : 16 * s'.activeAllocations.length ≤ s.size) : Valid s' pending := by
  have hlen := h.active_length
  have hsize := hr.2.2
  have hlt := h.size_lt
  simp only [List.map_cons, List.sum_cons] at hlen hsize
  refine h.of_slots hs (fun x => ?_) (fun a ha => ?_) hreusable hnodup ?_ hcapacity
  · rw [cover_perm hafter, cover_perm hbefore, cover_cons, cover_cons]
    omega
  · rcases List.mem_cons.mp (hafter.mem_iff.mp ha) with rfl | ha
    · exact hr
    · exact h.active_shaped (hbefore.mem_iff.mpr ha)
  · rw [hcount, h.count, wrappingAdd_of_lt (by omega), hafter.length_eq, hbefore.length_eq]
    rfl

/-- The handle names an active region of this size, in its present generation. -/
def Holds (s : BestFitAllocator) (a : Allocation) (n : ℕ) : Prop :=
  s.activeAllocations[a.allocationId]? = some ⟨some ⟨a.offset, n⟩, a.generation⟩

/-- A new handle, for a region of this size, beside all the handles there were. -/
structure Hands (s s' : BestFitAllocator) (a : Allocation) (n : ℕ) : Prop where
  holds : Holds s' a n
  fresh : ∀ m, ¬ Holds s a m
  keeps : ∀ b m, Holds s b m → Holds s' b m

lemma Hands.of_slots {s₁ : BestFitAllocator} {a : Allocation} (h : Hands s₁ s' a n)
    (hs : s₁.activeAllocations = s.activeAllocations) : Hands s s' a n := by
  obtain ⟨h1, h2, h3⟩ := h
  unfold Holds at h2 h3
  rw [hs] at h2 h3
  exact ⟨h1, h2, h3⟩

lemma createAllocation_spec (h : Valid s (⟨o, n⟩ :: pending)) (hr : Shaped ⟨o, n⟩) :
    ∃ a s', s.createAllocation o n = some (a, s') ∧ Valid s' pending ∧ SameFree s s' ∧
      Hands s s' a n := by
  cases hreuse : s.reusableAllocationIds with
  | nil =>
    have hlen := h.length_of_full hreuse
    have hcap := h.active_length
    have hsize := hr.2.2
    have hlt := h.size_lt
    simp only [List.map_cons, List.sum_cons] at hcap hsize
    have hmod : s.activeAllocations.length % 2 ^ 32 = s.activeAllocations.length :=
      Nat.mod_eq_of_lt (by omega)
    let s' : BestFitAllocator := { s with
      activeAllocations := s.activeAllocations ++ [⟨some ⟨o, n⟩, 0⟩]
      activeCount := wrappingAdd 32 s.activeCount 1 }
    refine ⟨⟨o, s.activeAllocations.length, 0⟩, s', ?_, ?_, ⟨rfl, rfl, rfl, rfl⟩, ?_, ?_, ?_⟩
    · simp only [BestFitAllocator.createAllocation, hreuse, hmod, AllocationSlot.new]
      simp [s', hreuse]
    · have hsame : SameFree s s' := ⟨rfl, rfl, rfl, rfl⟩
      refine h.activate hr hsame (List.Perm.refl _) ?_ (fun id => ?_) h.reusable_nodup rfl ?_
      · rw [activeRegions, List.flatMap_append]
        exact List.perm_append_comm
      · rw [h.reusable id]
        by_cases hid : id < s.activeAllocations.length
        · rw [List.getElem?_append_left hid]
        · have h1 : s.activeAllocations[id]? = none := List.getElem?_eq_none (by omega)
          rw [h1, List.getElem?_append_right (by omega)]
          cases id - s.activeAllocations.length <;> simp
      · rw [List.length_append]
        simp only [List.length_singleton]
        omega
    · exact List.getElem?_concat_length
    · intro m hm
      exact absurd (List.getElem?_eq_some_iff.mp hm).1 (lt_irrefl _)
    · intro b m hb
      exact (List.getElem?_append_left (List.getElem?_eq_some_iff.mp hb).1).trans hb
  | cons id ids =>
    obtain ⟨g, hg⟩ := (h.reusable id).mp (by rw [hreuse]; exact List.mem_cons_self)
    have hnodup := h.reusable_nodup
    rw [hreuse, List.nodup_cons] at hnodup
    obtain ⟨rest, hbefore, hafter⟩ := flatMap_set_perm slotRegions hg
    let s' : BestFitAllocator := { s with
      activeAllocations := s.activeAllocations.set id ⟨some ⟨o, n⟩, g⟩
      reusableAllocationIds := ids
      activeCount := wrappingAdd 32 s.activeCount 1 }
    refine ⟨⟨o, id, g⟩, s', ?_, ?_, ⟨rfl, rfl, rfl, rfl⟩, ?_, ?_, ?_⟩
    · simp [BestFitAllocator.createAllocation, hreuse, hg, s']
    · have hsame : SameFree s s' := ⟨rfl, rfl, rfl, rfl⟩
      refine h.activate hr hsame hbefore (hafter ⟨some ⟨o, n⟩, g⟩) (fun id' => ?_) hnodup.2 rfl ?_
      · have hid := h.reusable id'
        rw [hreuse, List.mem_cons] at hid
        change id' ∈ ids ↔ ∃ g', (s.activeAllocations.set id _)[id']? = _
        rw [List.getElem?_set]
        split_ifs with heq hlt
        · subst heq
          simp [hnodup.1]
        · subst heq
          simp [hnodup.1]
        · rw [← hid]
          simp [Ne.symm heq]
      · rw [List.length_set]
        exact h.capacity
    · exact List.getElem?_set_self (List.getElem?_eq_some_iff.mp hg).1
    · intro m hm
      exact absurd (hm.symm.trans hg) (by simp)
    · intro b m hb
      have hne : id ≠ b.allocationId := fun hid => by
        rw [Holds, ← hid, hg] at hb
        cases hb
      exact (List.getElem?_set_ne hne).trans hb

/-- The state after a slot has given up its region. -/
def releaseSlot (s : BestFitAllocator) (i g : ℕ) : BestFitAllocator :=
  { s with
    activeAllocations := s.activeAllocations.set i ⟨none, wrappingAdd 32 g 1⟩
    reusableAllocationIds := i :: s.reusableAllocationIds
    activeCount := wrappingSub 32 s.activeCount 1 }

lemma releaseSlot_spec {i g : ℕ} (h : Valid s pending)
    (hi : s.activeAllocations[i]? = some ⟨some ⟨o, n⟩, g⟩) :
    Valid (releaseSlot s i g) (⟨o, n⟩ :: pending) ∧ Shaped ⟨o, n⟩ := by
  obtain ⟨rest, hbefore, hafter'⟩ := flatMap_set_perm slotRegions hi
  have hafter := hafter' ⟨none, wrappingAdd 32 g 1⟩
  change (activeRegions s).Perm (⟨o, n⟩ :: rest) at hbefore
  change (activeRegions (releaseSlot s i g)).Perm rest at hafter
  have hshape : Shaped ⟨o, n⟩ := h.active_shaped (hbefore.mem_iff.mpr List.mem_cons_self)
  have hlen : i < s.activeAllocations.length := (List.getElem?_eq_some_iff.mp hi).1
  have hcount := h.count
  rw [hbefore.length_eq, List.length_cons] at hcount
  refine ⟨h.of_slots ⟨rfl, rfl, rfl, rfl⟩ (fun x => ?_) (fun a ha => ?_) (fun id => ?_) ?_ ?_ ?_,
    hshape⟩
  · rw [cover_perm hafter, cover_perm hbefore, cover_cons, cover_cons]
    omega
  · exact h.active_shaped (hbefore.mem_iff.mpr (List.mem_cons_of_mem _ (hafter.mem_iff.mp ha)))
  · change id ∈ i :: s.reusableAllocationIds ↔ ∃ g', (s.activeAllocations.set i _)[id]? = _
    rw [List.mem_cons, h.reusable id, List.getElem?_set]
    split_ifs with heq
    · subst heq
      simp
    · simp [Ne.symm heq]
  · refine List.nodup_cons.mpr ⟨fun hmem => ?_, h.reusable_nodup⟩
    obtain ⟨g', hg'⟩ := (h.reusable i).mp hmem
    rw [hi] at hg'
    cases hg'
  · change wrappingSub 32 s.activeCount 1 = _
    have hle := h.active_length
    have hlt := h.size_lt
    rw [hbefore.length_eq, List.length_cons] at hle
    rw [hafter.length_eq, wrappingSub_of_le (by omega) (by omega)]
    omega
  · change 16 * (s.activeAllocations.set i _).length ≤ s.size
    rw [List.length_set]
    exact h.capacity

lemma resizeSlot_spec {m i : ℕ} {slot : AllocationSlot} (h : Valid s pending)
    (hi : s.activeAllocations[i]? = some slot) (hslot : slot.allocation = some ⟨o, n⟩)
    (hr : Shaped ⟨o, m⟩) (hc : ∀ x, cover (⟨o, n⟩ :: pending) x = cover (⟨o, m⟩ :: pending') x) :
    Valid (s.resizeSlot i slot o m) pending' := by
  obtain ⟨rest, hbefore, hafter'⟩ := flatMap_set_perm slotRegions hi
  have hafter := hafter' { slot with allocation := some ⟨o, m⟩ }
  have hregions : slotRegions slot = [⟨o, n⟩] := by rw [slotRegions, hslot]
  rw [hregions] at hbefore
  change (activeRegions s).Perm (⟨o, n⟩ :: rest) at hbefore
  change (activeRegions (s.resizeSlot i slot o m)).Perm (⟨o, m⟩ :: rest) at hafter
  have hlen : i < s.activeAllocations.length := (List.getElem?_eq_some_iff.mp hi).1
  refine h.of_slots ⟨rfl, rfl, rfl, rfl⟩ (fun x => ?_) (fun a ha => ?_) (fun id => ?_)
    h.reusable_nodup ?_ ?_
  · have hx := hc x
    rw [cover_perm hafter, cover_perm hbefore]
    simp only [cover_cons] at hx ⊢
    omega
  · rcases List.mem_cons.mp (hafter.mem_iff.mp ha) with rfl | ha
    · exact hr
    · exact h.active_shaped (hbefore.mem_iff.mpr (List.mem_cons_of_mem _ ha))
  · change id ∈ s.reusableAllocationIds ↔ ∃ g', (s.activeAllocations.set i _)[id]? = _
    rw [h.reusable id, List.getElem?_set]
    split_ifs with heq
    · subst heq
      rw [hi]
      obtain ⟨_, g⟩ := slot
      cases hslot
      simp
    · rfl
  · change s.activeCount = _
    rw [h.count, hafter.length_eq, hbefore.length_eq]
    rfl
  · change 16 * (s.activeAllocations.set i _).length ≤ s.size
    rw [List.length_set]
    exact h.capacity

end Neetan.BestFit
