import Neetan.HeapCompact

/-!
A collection of a valid heap keeps what is reachable, with its contents, and leaves a valid
heap whose holes are the maximal runs of free slots.
-/

namespace Neetan.Gc

open Neetan.Bytecode

/-! ### The invariant -/

/-- The spans of different slots lie apart. -/
def Separate (position : Object → Option (ℕ × ℕ)) (slots : List (Option Object)) : Prop :=
  slots.Pairwise fun slot slot' =>
    ∀ p q, slot.bind position = some p → slot'.bind position = some q → Apart p q

namespace Heap

/-- The representation invariant: empty slots are tagged free, handles denote spans of their
own in the arenas, and strings are text. -/
structure Valid (heap : Heap) : Prop where
  tagged : Tagged heap.cells
  inside : ∀ object, some object ∈ slotsOf heap.cells →
    ∃ content, object.content heap.byteArena heap.valueArena = some content
  bytesApart : Separate Object.byteSpan (slotsOf heap.cells)
  valuesApart : Separate Object.valueSpan (slotsOf heap.cells)
  text : ∀ object, some object ∈ slotsOf heap.cells → ∀ bytes chars,
    object.content heap.byteArena heap.valueArena = some (.string bytes chars) →
      ∃ text : String, text.toUTF8.toList = bytes

/-- No slot carries the color of the next collection. -/
def FreshColor (heap : Heap) : Prop := ∀ k, ¬ Marked heap.currentMark.rotate heap.cells k

/-- The arenas and the slot table can be addressed with 32 bits. -/
structure Addressable (heap : Heap) : Prop where
  bytes : heap.byteArena.length < 2 ^ 32
  values : heap.valueArena.length < 2 ^ 32
  cells : heap.cells.length < 2 ^ 32

/-- What is read of the object in slot `i`, and whether it is immutable. -/
def contents (heap : Heap) (i : ℕ) : Option (Content × Bool) := do
  let cell ← heap.cells[i]?
  let object ← cell.slot
  let content ← object.content heap.byteArena heap.valueArena
  return (content, cell.byte &&& metaImmutable ≠ 0)

/-- The slots that the roots of a collection lead to. -/
def Live (heap : Heap) (extraRoots : List Value) : ℕ → Prop :=
  Reachable heap.valueArena (slotsOf heap.cells) (heap.roots extraRoots)

end Heap

/-! ### Room -/

lemma keptLength_le {color : MarkColor} {position : Object → Option (ℕ × ℕ)} {cells : List Cell}
    {size : ℕ} (ha : Separate position (slotsOf cells))
    (hin : ∀ object, some object ∈ slotsOf cells → ∀ p, position object = some p →
      p.1 + p.2 ≤ size) : keptLength color position cells ≤ size := by
  let positions := (slotsOf cells).filterMap fun slot => slot.bind position
  have hle : keptLength color position cells ≤ (positions.map Prod.snd).sum := by
    have hsum : (positions.map Prod.snd).sum =
        (cells.map fun cell => spanLength (cell.slot.bind position)).sum := by
      simp only [positions, slotsOf]
      clear ha hin positions
      induction cells with
      | nil => rfl
      | cons cell cells ih =>
        cases hp : cell.slot.bind position <;>
          simp [hp, spanLength] <;> simpa [spanLength] using ih
    rw [hsum]
    apply List.sum_le_sum
    intro cell _
    unfold keptSpan
    split_ifs <;> simp
  refine hle.trans (sum_length_le ?_ ?_)
  · refine List.Pairwise.filterMap _ (fun slot slot' h p hp q hq => h p q hp hq) ha
  · intro p hp
    obtain ⟨slot, hslot, hbind⟩ := List.mem_filterMap.mp hp
    obtain ⟨object, rfl, hpos⟩ := Option.bind_eq_some_iff.mp hbind
    exact hin object hslot p hpos

lemma Laid.separate {position : Object → Option (ℕ × ℕ)} {cells : List Cell} {start : ℕ}
    (h : Laid position start cells) : Separate position (slotsOf cells) := by
  refine List.pairwise_iff_getElem.mpr fun i j hi hj hij p q hp hq => .inl ?_
  simp only [slotsOf, List.getElem_map, List.length_map] at hi hj hp hq
  exact h.apart hij (List.getElem?_eq_getElem hi) (List.getElem?_eq_getElem hj) hp hq

/-! ### A collection -/

lemma reachable_congr {valueArena : List Value} {slots : List (Option Object)}
    {roots roots' : List Value} (h : ∀ value ∈ roots, value ∈ roots') {i : ℕ}
    (hr : Reachable valueArena slots roots i) : Reachable valueArena slots roots' i := by
  induction hr with
  | root hv hi => exact .root (h _ hv) hi
  | edge _ ho hv hj ih => exact .edge ih ho hv hj

lemma Cell.mark_immutable (color : MarkColor) (cell : Cell) :
    (cell.mark color).byte &&& metaImmutable = cell.byte &&& metaImmutable := by
  have h : ∀ b : BitVec 8, ((b &&& 8#8) ||| color.bits.toBitVec) &&& 8#8 = b &&& 8#8 := by
    intro b
    cases color <;>
      (apply BitVec.eq_of_getLsbD_eq; intro i hi; interval_cases i <;> simp [MarkColor.bits])
  exact UInt8.toBitVec_inj.mp (h cell.byte.toBitVec)

/-- The cells after the mark phase. -/
def Heap.marked (heap : Heap) (extraRoots : List Value) : List Cell :=
  markFrom heap.valueArena heap.currentMark.rotate heap.cells (heap.roots extraRoots).reverse

/-- What the sweep makes of the marked cells. -/
def Heap.swept (owned : Object → ℕ) (heap : Heap) (extraRoots : List Value) :
    List Cell × Sweep :=
  sweepSlots owned heap.byteArena heap.valueArena heap.currentMark.rotate 0
    (heap.marked extraRoots) ⟨[], [], [], none, 0, 0⟩

section
variable (owned : Object → ℕ) (heap : Heap) (extraRoots : List Value)

lemma collectWith_cells :
    (heap.collectWith owned extraRoots).cells = (heap.swept owned extraRoots).1 := by
  simp [Heap.collectWith, Heap.sweep, Heap.markRoots, Heap.swept, Heap.marked, sweepCells_eq,
    Heap.roots]

lemma collectWith_arenas :
    (heap.collectWith owned extraRoots).byteArena = (heap.swept owned extraRoots).2.byteArena ∧
    (heap.collectWith owned extraRoots).valueArena =
      (heap.swept owned extraRoots).2.valueArena := by
  simp only [Heap.collectWith, Heap.sweep, Heap.markRoots, Heap.swept, Heap.marked, sweepCells_eq,
    Heap.roots]
  unfold Sweep.closeRun
  split <;> exact ⟨rfl, rfl⟩

lemma collectWith_holes :
    (heap.collectWith owned extraRoots).holes =
      ((heap.swept owned extraRoots).2.closeRun (heap.marked extraRoots).length).holes := by
  simp [Heap.collectWith, Heap.sweep, Heap.markRoots, Heap.swept, Heap.marked, sweepCells_eq,
    Heap.roots]

lemma collectWith_currentMark :
    (heap.collectWith owned extraRoots).currentMark = heap.currentMark.rotate := by
  simp [Heap.collectWith, Heap.sweep, Heap.markRoots]

lemma marked_slots : slotsOf (heap.marked extraRoots) = slotsOf heap.cells :=
  markFrom_slots _

lemma marked_tagged (h : heap.Valid) : Tagged (heap.marked extraRoots) :=
  markFrom_tagged _ h.tagged

lemma marked_length : (heap.marked extraRoots).length = heap.cells.length := by
  simpa [slotsOf] using congrArg List.length (marked_slots heap extraRoots)

lemma marked_live (h : heap.Valid) (hf : heap.FreshColor) (i : ℕ) :
    Marked heap.currentMark.rotate (heap.marked extraRoots) i ↔ heap.Live extraRoots i := by
  refine (marked_iff_reachable _ h.tagged hf i).trans ⟨?_, ?_⟩
  · exact reachable_congr fun value hv => List.mem_reverse.mp hv
  · exact reachable_congr fun value hv => List.mem_reverse.mpr hv

lemma mem_slotsOf {cells : List Cell} {cell : Cell} {slot : Option Object} (h : cell ∈ cells)
    (hs : cell.slot = slot) : slot ∈ slotsOf cells :=
  hs ▸ List.mem_map_of_mem h

lemma swept_spec (h : heap.Valid) (hs : heap.Addressable) :
    List.Forall₂ (Swept heap.byteArena heap.valueArena heap.currentMark.rotate
      (heap.swept owned extraRoots).2.byteArena (heap.swept owned extraRoots).2.valueArena)
      (heap.marked extraRoots) (heap.swept owned extraRoots).1 ∧
    Laid Object.byteSpan 0 (heap.swept owned extraRoots).1 ∧
    Laid Object.valueSpan 0 (heap.swept owned extraRoots).1 ∧
    (heap.swept owned extraRoots).2.byteArena.length ≤ heap.byteArena.length ∧
    (heap.swept owned extraRoots).2.valueArena.length ≤ heap.valueArena.length := by
  have hslots := marked_slots heap extraRoots
  have hbytes : keptLength heap.currentMark.rotate Object.byteSpan (heap.marked extraRoots) ≤
      heap.byteArena.length := by
    refine keptLength_le (hslots ▸ h.bytesApart) fun object hobject p hp => ?_
    obtain ⟨content, hc⟩ := h.inside object (hslots ▸ hobject)
    exact (Object.span_inside hc).1 hp
  have hvalues : keptLength heap.currentMark.rotate Object.valueSpan (heap.marked extraRoots) ≤
      heap.valueArena.length := by
    refine keptLength_le (hslots ▸ h.valuesApart) fun object hobject p hp => ?_
    obtain ⟨content, hc⟩ := h.inside object (hslots ▸ hobject)
    exact (Object.span_inside hc).2 hp
  have hb := hs.bytes
  have hv := hs.values
  obtain ⟨⟨bytes, hba, hbl⟩, ⟨values, hva, hvl⟩, hswept, hlaid, hlaid'⟩ :=
    @sweepSlots_spec owned heap.byteArena heap.valueArena heap.currentMark.rotate _
      (marked_tagged heap extraRoots h)
      (fun cell hcell object hobject => h.inside object (hslots ▸ mem_slotsOf hcell hobject)) 0
      ⟨[], [], [], none, 0, 0⟩ (by simp; omega) (by simp; omega)
  refine ⟨hswept, hlaid, hlaid', ?_, ?_⟩
  · exact (congrArg List.length hba).trans_le (by simp; omega)
  · exact (congrArg List.length hva).trans_le (by simp; omega)

lemma collected_cell (h : heap.Valid) (hs : heap.Addressable) {i : ℕ} {cell : Cell}
    (hi : heap.cells[i]? = some cell) :
    ∃ marked after, (heap.marked extraRoots)[i]? = some marked ∧
      (heap.collectWith owned extraRoots).cells[i]? = some after ∧ marked.slot = cell.slot ∧
      marked.byte &&& metaImmutable = cell.byte &&& metaImmutable ∧
      Swept heap.byteArena heap.valueArena heap.currentMark.rotate
        (heap.collectWith owned extraRoots).byteArena
        (heap.collectWith owned extraRoots).valueArena marked after := by
  obtain ⟨marked, hm, hshade⟩ : ∃ after, (heap.marked extraRoots)[i]? = some after ∧
      Shaded heap.currentMark.rotate cell after := markFrom_shaded _ hi
  have hsame : marked.slot = cell.slot ∧
      marked.byte &&& metaImmutable = cell.byte &&& metaImmutable := by
    rcases hshade with rfl | ⟨-, rfl⟩
    · exact ⟨rfl, rfl⟩
    · exact ⟨rfl, Cell.mark_immutable ..⟩
  obtain ⟨hlen, hswept⟩ := List.forall₂_iff_get.mp (swept_spec owned heap extraRoots h hs).1
  obtain ⟨hmi, rfl⟩ := List.getElem?_eq_some_iff.mp hm
  rw [collectWith_cells, (collectWith_arenas owned heap extraRoots).1,
    (collectWith_arenas owned heap extraRoots).2]
  exact ⟨_, _, hm, List.getElem?_eq_getElem (hlen ▸ hmi), hsame.1, hsame.2,
    hswept i hmi (hlen ▸ hmi)⟩

lemma collected_length (h : heap.Valid) (hs : heap.Addressable) :
    (heap.collectWith owned extraRoots).cells.length = heap.cells.length := by
  rw [collectWith_cells, ← (List.forall₂_iff_get.mp (swept_spec owned heap extraRoots h hs).1).1,
    marked_length]

lemma collected_origin (h : heap.Valid) (hs : heap.Addressable) {i : ℕ} {after : Cell}
    (hi : (heap.collectWith owned extraRoots).cells[i]? = some after) :
    ∃ cell marked, heap.cells[i]? = some cell ∧ (heap.marked extraRoots)[i]? = some marked ∧
      marked.slot = cell.slot ∧ marked.byte &&& metaImmutable = cell.byte &&& metaImmutable ∧
      Swept heap.byteArena heap.valueArena heap.currentMark.rotate
        (heap.collectWith owned extraRoots).byteArena
        (heap.collectWith owned extraRoots).valueArena marked after := by
  have hlt := (List.getElem?_eq_some_iff.mp hi).1
  rw [collected_length owned heap extraRoots h hs] at hlt
  obtain ⟨marked, after', hm, ha, hslot, himm, hsw⟩ :=
    collected_cell owned heap extraRoots h hs (List.getElem?_eq_getElem hlt)
  obtain rfl : after = after' := Option.some.inj (hi.symm.trans ha)
  exact ⟨_, marked, List.getElem?_eq_getElem hlt, hm, hslot, himm, hsw⟩

/-- A slot is taken after a collection exactly when its object was reachable. -/
lemma collected_kept (h : heap.Valid) (hf : heap.FreshColor) (hs : heap.Addressable) (i : ℕ) :
    (∃ object, (slotsOf (heap.collectWith owned extraRoots).cells)[i]? = some (some object)) ↔
      heap.Live extraRoots i := by
  rw [← marked_live heap extraRoots h hf]
  constructor
  · rintro ⟨object, hobject⟩
    rw [slotsOf_getElem?] at hobject
    obtain ⟨after, ha, hslot⟩ := Option.map_eq_some_iff.mp hobject
    obtain ⟨cell, marked, -, hm, -, -, hsw⟩ := collected_origin owned heap extraRoots h hs ha
    cases hsw with
    | kept hstate _ _ _ => exact ⟨marked, hm, hstate⟩
    | freed _ hnone _ => simp [hnone] at hslot
  · rintro ⟨marked, hm, hstate⟩
    have hlt := (List.getElem?_eq_some_iff.mp hm).1
    rw [marked_length] at hlt
    obtain ⟨marked', after, hm', ha, -, -, hsw⟩ :=
      collected_cell owned heap extraRoots h hs (List.getElem?_eq_getElem hlt)
    obtain rfl : marked = marked' := Option.some.inj (hm.symm.trans hm')
    cases hsw with
    | kept _ _ _ _ => exact ⟨_, by rw [slotsOf_getElem?, ha]; rfl⟩
    | freed hne _ _ => exact absurd hstate hne

lemma collected_contents (h : heap.Valid) (hf : heap.FreshColor) (hs : heap.Addressable) {i : ℕ}
    (hlive : heap.Live extraRoots i) :
    (heap.collectWith owned extraRoots).contents i = heap.contents i := by
  obtain ⟨marked, hm, hstate⟩ := (marked_live heap extraRoots h hf i).mpr hlive
  have hlt := (List.getElem?_eq_some_iff.mp hm).1
  rw [marked_length] at hlt
  obtain ⟨marked', after, hm', ha, hslot, himm, hsw⟩ :=
    collected_cell owned heap extraRoots h hs (List.getElem?_eq_getElem hlt)
  obtain rfl : marked = marked' := Option.some.inj (hm.symm.trans hm')
  cases hsw with
  | kept hst hobject hc hc' =>
    have hcell : heap.cells[i].slot = some _ := hslot.symm.trans hobject
    simp only [Heap.contents, ha, List.getElem?_eq_getElem hlt, Option.bind_eq_bind,
      Option.bind_some, hcell, hc, hc', himm]
  | freed hne _ _ => exact absurd hstate hne

lemma collected_valid (h : heap.Valid) (hs : heap.Addressable) :
    (heap.collectWith owned extraRoots).Valid := by
  obtain ⟨hsw, hlaid, hlaid', -, -⟩ := swept_spec owned heap extraRoots h hs
  have horigin : ∀ after ∈ (heap.collectWith owned extraRoots).cells, ∃ cell marked,
      cell ∈ heap.cells ∧ marked.slot = cell.slot ∧
      Swept heap.byteArena heap.valueArena heap.currentMark.rotate
        (heap.collectWith owned extraRoots).byteArena
        (heap.collectWith owned extraRoots).valueArena marked after := by
    intro after hmem
    obtain ⟨i, hi⟩ := List.mem_iff_getElem?.mp hmem
    obtain ⟨cell, marked, hc, -, hslot, -, hsw⟩ := collected_origin owned heap extraRoots h hs hi
    exact ⟨cell, marked, List.mem_of_getElem? hc, hslot, hsw⟩
  -- an object of the collected heap reads as the one it was
  have hobject : ∀ object, some object ∈ slotsOf (heap.collectWith owned extraRoots).cells →
      ∃ before content, some before ∈ slotsOf heap.cells ∧
        before.content heap.byteArena heap.valueArena = some content ∧
        object.content (heap.collectWith owned extraRoots).byteArena
          (heap.collectWith owned extraRoots).valueArena = some content := by
    intro object hmem
    obtain ⟨after, hafter, hslot⟩ := List.mem_map.mp hmem
    obtain ⟨cell, marked, hcell, hms, hsw⟩ := horigin after hafter
    cases hsw with
    | kept _ hbefore hc hc' =>
      obtain rfl := Option.some.inj hslot
      exact ⟨_, _, mem_slotsOf hcell (hms.symm.trans hbefore), hc, hc'⟩
    | freed _ hnone _ => simp [hnone] at hslot
  refine ⟨?_, ?_, ?_, ?_, ?_⟩
  · intro after hmem
    obtain ⟨cell, marked, -, -, hsw⟩ := horigin after hmem
    cases hsw with
    | kept hstate _ _ _ =>
      simp only [reduceCtorEq, false_iff]
      exact hstate ▸ MarkColor.bits_ne_free _
    | freed _ hnone hfree => simp [hnone, hfree]
  · intro object hmem
    obtain ⟨before, content, -, -, hc⟩ := hobject object hmem
    exact ⟨content, hc⟩
  · rw [collectWith_cells]
    exact hlaid.separate
  · rw [collectWith_cells]
    exact hlaid'.separate
  · intro object hmem bytes chars hc
    obtain ⟨before, content, hbefore, hcb, hca⟩ := hobject object hmem
    obtain rfl := Option.some.inj (hc.symm.trans hca)
    exact h.text before hbefore bytes chars hcb

lemma collected_freshColor (h : heap.Valid) (hs : heap.Addressable) :
    (heap.collectWith owned extraRoots).FreshColor := by
  rintro k ⟨after, ha, hstate⟩
  obtain ⟨cell, marked, -, -, -, -, hsw⟩ := collected_origin owned heap extraRoots h hs ha
  rw [collectWith_currentMark] at hstate
  cases hsw with
  | kept hst _ _ _ =>
    have hne : ∀ color : MarkColor, color.bits ≠ color.rotate.bits := by
      intro color
      cases color <;> decide
    exact hne _ (hst.symm.trans hstate)
  | freed _ _ hfree => exact MarkColor.bits_ne_free _ (hstate.symm.trans hfree)

lemma collected_addressable (h : heap.Valid) (hs : heap.Addressable) :
    (heap.collectWith owned extraRoots).Addressable := by
  obtain ⟨-, -, -, hb, hv⟩ := swept_spec owned heap extraRoots h hs
  refine ⟨?_, ?_, ?_⟩
  · rw [(collectWith_arenas owned heap extraRoots).1]
    exact hb.trans_lt hs.bytes
  · rw [(collectWith_arenas owned heap extraRoots).2]
    exact hv.trans_lt hs.values
  · rw [collected_length owned heap extraRoots h hs]
    exact hs.cells

lemma collected_holes (h : heap.Valid) (hs : heap.Addressable) :
    MaximalRuns (heap.collectWith owned extraRoots).cells
      (heap.collectWith owned extraRoots).holes := by
  have hruns : Runs ([] ++ keptFlags heap.currentMark.rotate (heap.marked extraRoots))
      (heap.swept owned extraRoots).2.holes (heap.swept owned extraRoots).2.runStart :=
    sweepSlots_runs owned heap.byteArena heap.valueArena heap.currentMark.rotate Runs.nil
  have hflags : (keptFlags heap.currentMark.rotate (heap.marked extraRoots)).length =
      (heap.marked extraRoots).length := by simp [keptFlags]
  rw [collectWith_holes, ← hflags]
  rw [List.nil_append] at hruns
  refine hruns.maximal fun k => ?_
  have hflag : (keptFlags heap.currentMark.rotate (heap.marked extraRoots))[k]? = some false ↔
      ∃ marked, (heap.marked extraRoots)[k]? = some marked ∧
        marked.state ≠ heap.currentMark.rotate.bits := by
    simp [keptFlags]
  rw [hflag]
  constructor
  · rintro ⟨after, ha, hnone⟩
    obtain ⟨cell, marked, -, hm, -, -, hsw⟩ := collected_origin owned heap extraRoots h hs ha
    refine ⟨marked, hm, ?_⟩
    cases hsw with
    | kept _ _ _ _ => simp at hnone
    | freed hne _ _ => exact hne
  · rintro ⟨marked, hm, hne⟩
    have hlt := (List.getElem?_eq_some_iff.mp hm).1
    rw [marked_length] at hlt
    obtain ⟨marked', after, hm', ha, -, -, hsw⟩ :=
      collected_cell owned heap extraRoots h hs (List.getElem?_eq_getElem hlt)
    obtain rfl : marked = marked' := Option.some.inj (hm.symm.trans hm')
    refine ⟨after, ha, ?_⟩
    cases hsw with
    | kept hst _ _ _ => exact absurd hst hne
    | freed _ hnone _ => exact hnone

end

end Neetan.Gc
