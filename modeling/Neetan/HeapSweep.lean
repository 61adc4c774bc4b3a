import Neetan.HeapCollect

/-!
The two phases of a collection.

After the mark phase the cells of the new color are those reachable from the roots. Marking changes
metadata bytes only, so reachability is stated over the slots. In the sweep, reading eight metadata
bytes at a time does what reading them one by one does.
-/

namespace Neetan.Gc

open Neetan.Bytecode

/-- A value that refers to the object in slot `i`. -/
def Refers (slots : List (Option Object)) (value : Value) (i : ℕ) : Prop :=
  ∃ reference object, value.heapRef = some reference ∧ reference.toNat = i ∧
    slots[i]? = some (some object)

/-- The slots that the roots lead to. -/
inductive Reachable (valueArena : List Value) (slots : List (Option Object))
    (roots : List Value) : ℕ → Prop
  | root {value : Value} {i : ℕ} : value ∈ roots → Refers slots value i →
    Reachable valueArena slots roots i
  | edge {value : Value} {object : Object} {i j : ℕ} : Reachable valueArena slots roots i →
    slots[i]? = some (some object) → value ∈ object.edges valueArena → Refers slots value j →
    Reachable valueArena slots roots j

def slotsOf (cells : List Cell) : List (Option Object) := cells.map Cell.slot

lemma slotsOf_getElem? (cells : List Cell) (i : ℕ) :
    (slotsOf cells)[i]? = cells[i]?.map Cell.slot := by
  simp [slotsOf]

/-- A slot is empty exactly when its state is `metaFree`. -/
def Tagged (cells : List Cell) : Prop :=
  ∀ cell ∈ cells, cell.slot = none ↔ cell.state = metaFree

def Marked (color : MarkColor) (cells : List Cell) (i : ℕ) : Prop :=
  ∃ cell, cells[i]? = some cell ∧ cell.state = color.bits

lemma MarkColor.bits_ne_free (color : MarkColor) : color.bits ≠ metaFree := by
  cases color <;> decide

/-! ### One mark -/

variable {color : MarkColor} {cells : List Cell} {i : ℕ} {cell : Cell}

lemma slotsOf_mark (h : cells[i]? = some cell) :
    slotsOf (cells.set i (cell.mark color)) = slotsOf cells := by
  obtain ⟨hi, rfl⟩ := List.getElem?_eq_some_iff.mp h
  apply List.ext_getElem?
  intro k
  rw [slotsOf_getElem?, slotsOf_getElem?, List.getElem?_set]
  by_cases hk : i = k
  · subst hk
    simp [hi, Cell.mark]
  · rw [if_neg hk]

lemma Tagged.mark (ht : Tagged cells) (h : cells[i]? = some cell) (hu : cell.Unmarked color) :
    Tagged (cells.set i (cell.mark color)) := by
  intro other hother
  rcases List.mem_or_eq_of_mem_set hother with hmem | rfl
  · exact ht other hmem
  · have hs := (ht cell (List.mem_of_getElem? h)).not.mpr hu.2
    simp only [Cell.state_mark, color.bits_ne_free, iff_false]
    exact hs

lemma marked_set (h : cells[i]? = some cell) {k : ℕ} :
    Marked color (cells.set i (cell.mark color)) k ↔ k = i ∨ Marked color cells k := by
  obtain ⟨hi, rfl⟩ := List.getElem?_eq_some_iff.mp h
  unfold Marked
  simp only [List.getElem?_set]
  by_cases hk : i = k
  · subst hk
    simp [hi]
  · simp [hk, Ne.symm hk]

/-- What a step of the mark loop may do to a cell. -/
def Shaded (color : MarkColor) (cell cell' : Cell) : Prop :=
  cell' = cell ∨ cell.Unmarked color ∧ cell' = cell.mark color

lemma Shaded.trans {first second third : Cell} (h : Shaded color first second)
    (h' : Shaded color second third) : Shaded color first third := by
  rcases h with rfl | ⟨hu, rfl⟩
  · exact h'
  · rcases h' with rfl | ⟨hu', -⟩
    · exact .inr ⟨hu, rfl⟩
    · exact absurd (Cell.state_mark color first) hu'.1

/-! ### The mark loop -/

variable {valueArena : List Value}

lemma markFrom_shaded (worklist : List Value) {k : ℕ} {before : Cell}
    (h : cells[k]? = some before) :
    ∃ after, (markFrom valueArena color cells worklist)[k]? = some after ∧
      Shaded color before after := by
  fun_induction markFrom valueArena color cells worklist generalizing before with
  | case1 cells => exact ⟨before, h, .inl rfl⟩
  | case2 cells value rest hr ih => exact ih h
  | case3 cells value rest reference hr hc ih => exact ih h
  | case4 cells value rest reference hr cell hc hu ih =>
    by_cases hk : reference.toNat = k
    · subst hk
      obtain rfl : cell = before := Option.some.inj (hc.symm.trans h)
      obtain ⟨hi, -⟩ := List.getElem?_eq_some_iff.mp hc
      obtain ⟨after, hafter, hs⟩ := ih (List.getElem?_set_self hi)
      exact ⟨after, hafter, Shaded.trans (.inr ⟨hu, rfl⟩) hs⟩
    · exact ih (by rwa [List.getElem?_set_ne hk])
  | case5 cells value rest reference hr cell hc hu ih => exact ih h

lemma markFrom_slots (worklist : List Value) :
    slotsOf (markFrom valueArena color cells worklist) = slotsOf cells := by
  fun_induction markFrom valueArena color cells worklist with
  | case1 cells => rfl
  | case2 cells value rest hr ih => exact ih
  | case3 cells value rest reference hr hc ih => exact ih
  | case4 cells value rest reference hr cell hc hu ih => rw [ih, slotsOf_mark hc]
  | case5 cells value rest reference hr cell hc hu ih => exact ih

lemma markFrom_tagged (worklist : List Value) (ht : Tagged cells) :
    Tagged (markFrom valueArena color cells worklist) := by
  fun_induction markFrom valueArena color cells worklist with
  | case1 cells => exact ht
  | case2 cells value rest hr ih => exact ih ht
  | case3 cells value rest reference hr hc ih => exact ih ht
  | case4 cells value rest reference hr cell hc hu ih => exact ih (ht.mark hc hu)
  | case5 cells value rest reference hr cell hc hu ih => exact ih ht

lemma marked_mono (worklist : List Value) {k : ℕ} (h : Marked color cells k) :
    Marked color (markFrom valueArena color cells worklist) k := by
  fun_induction markFrom valueArena color cells worklist with
  | case1 cells => exact h
  | case2 cells value rest hr ih => exact ih h
  | case3 cells value rest reference hr hc ih => exact ih h
  | case4 cells value rest reference hr cell hc hu ih => exact ih ((marked_set hc).mpr (.inr h))
  | case5 cells value rest reference hr cell hc hu ih => exact ih h

lemma markFrom_sound (worklist : List Value) (ht : Tagged cells) {P : ℕ → Prop}
    (hclosed : ∀ {i j object value}, P i → (slotsOf cells)[i]? = some (some object) →
      value ∈ object.edges valueArena → Refers (slotsOf cells) value j → P j)
    (hwork : ∀ value ∈ worklist, ∀ i, Refers (slotsOf cells) value i → P i) {k : ℕ}
    (h : Marked color (markFrom valueArena color cells worklist) k) :
    Marked color cells k ∨ P k := by
  fun_induction markFrom valueArena color cells worklist with
  | case1 cells => exact .inl h
  | case2 cells value rest hr ih => exact ih ht hclosed (fun v hv => hwork v (by simp [hv])) h
  | case3 cells value rest reference hr hc ih =>
    exact ih ht hclosed (fun v hv => hwork v (by simp [hv])) h
  | case4 cells value rest reference hr cell hc hu ih =>
    have hs : slotsOf (cells.set reference.toNat (cell.mark color)) = slotsOf cells :=
      slotsOf_mark hc
    obtain ⟨object, hobject⟩ := Option.ne_none_iff_exists'.mp
      ((ht cell (List.mem_of_getElem? hc)).not.mpr hu.2)
    have hslot : (slotsOf cells)[reference.toNat]? = some (some object) := by
      simp [slotsOf_getElem?, hc, hobject]
    have hp : P reference.toNat := hwork value (by simp) _ ⟨reference, object, hr, rfl, hslot⟩
    rw [hs] at ih
    have hwork' : ∀ v ∈ ((cell.slot.map (Object.edges valueArena)).getD []).reverse ++ rest,
        ∀ i, Refers (slotsOf cells) v i → P i := by
      intro v hv i hi
      simp only [hobject, Option.map_some, Option.getD_some, List.mem_append,
        List.mem_reverse] at hv
      rcases hv with hv | hv
      · exact hclosed hp hslot hv hi
      · exact hwork v (by simp [hv]) i hi
    rcases ih (ht.mark hc hu) hclosed hwork' h with hm | hm
    · rcases (marked_set hc).mp hm with rfl | hm
      · exact .inr hp
      · exact .inl hm
    · exact .inr hm
  | case5 cells value rest reference hr cell hc hu ih =>
    exact ih ht hclosed (fun v hv => hwork v (by simp [hv])) h

lemma markFrom_complete (worklist : List Value) (ht : Tagged cells) :
    (∀ value ∈ worklist, ∀ i, Refers (slotsOf cells) value i →
      Marked color (markFrom valueArena color cells worklist) i) ∧
    ∀ k, Marked color (markFrom valueArena color cells worklist) k → Marked color cells k ∨
      ∀ object, (slotsOf cells)[k]? = some (some object) → ∀ value ∈ object.edges valueArena,
        ∀ i, Refers (slotsOf cells) value i →
          Marked color (markFrom valueArena color cells worklist) i := by
  fun_induction markFrom valueArena color cells worklist with
  | case1 cells => exact ⟨by simp, fun k hk => .inl hk⟩
  | case2 cells value rest hr ih =>
    obtain ⟨hwork, hdone⟩ := ih ht
    refine ⟨fun v hv i hi => ?_, hdone⟩
    rcases List.mem_cons.mp hv with rfl | hv
    · obtain ⟨reference, object, hr', -⟩ := hi
      rw [hr] at hr'
      cases hr'
    · exact hwork v hv i hi
  | case3 cells value rest reference hr hc ih =>
    obtain ⟨hwork, hdone⟩ := ih ht
    refine ⟨fun v hv i hi => ?_, hdone⟩
    rcases List.mem_cons.mp hv with rfl | hv
    · obtain ⟨reference', object, hr', rfl, hslot⟩ := hi
      obtain rfl : reference = reference' := Option.some.inj (hr.symm.trans hr')
      rw [slotsOf_getElem?, hc] at hslot
      cases hslot
    · exact hwork v hv i hi
  | case4 cells value rest reference hr cell hc hu ih =>
    obtain ⟨hwork, hdone⟩ := ih (ht.mark hc hu)
    rw [slotsOf_mark hc] at hwork hdone
    have hself : Marked color (cells.set reference.toNat (cell.mark color)) reference.toNat :=
      (marked_set hc).mpr (.inl rfl)
    refine ⟨fun v hv i hi => ?_, fun k hk => ?_⟩
    · rcases List.mem_cons.mp hv with rfl | hv
      · obtain ⟨reference', object, hr', rfl, -⟩ := hi
        obtain rfl : reference = reference' := Option.some.inj (hr.symm.trans hr')
        exact marked_mono _ hself
      · exact hwork v (by simp [hv]) i hi
    · rcases hdone k hk with hm | hm
      · rcases (marked_set hc).mp hm with rfl | hm
        · -- its edges went onto the worklist
          refine .inr fun object hobject v hv i hi => hwork v ?_ i hi
          have hslot : cell.slot = some object := by simpa [slotsOf_getElem?, hc] using hobject
          simp [hslot, hv]
        · exact .inl hm
      · exact .inr hm
  | case5 cells value rest reference hr cell hc hu ih =>
    obtain ⟨hwork, hdone⟩ := ih ht
    refine ⟨fun v hv i hi => ?_, hdone⟩
    rcases List.mem_cons.mp hv with rfl | hv
    · obtain ⟨reference', object, hr', rfl, hslot⟩ := hi
      obtain rfl : reference = reference' := Option.some.inj (hr.symm.trans hr')
      have hs : cell.slot = some object := by simpa [slotsOf_getElem?, hc] using hslot
      have hstate : cell.state ≠ metaFree :=
        (ht cell (List.mem_of_getElem? hc)).not.mp (by simp [hs])
      have hcolor : cell.state = color.bits := by
        by_contra hne
        exact hu ⟨hne, hstate⟩
      exact marked_mono _ ⟨cell, hc, hcolor⟩
    · exact hwork v hv i hi

/-- **The mark phase marks what is reachable.** -/
theorem marked_iff_reachable (roots : List Value) (ht : Tagged cells)
    (hfresh : ∀ k, ¬ Marked color cells k) (k : ℕ) :
    Marked color (markFrom valueArena color cells roots) k ↔
      Reachable valueArena (slotsOf cells) roots k := by
  constructor
  · intro h
    exact (markFrom_sound roots ht (fun hi ho hv hj => .edge hi ho hv hj)
      (fun v hv i hi => .root hv hi) h).resolve_left (hfresh k)
  · intro h
    obtain ⟨hroots, hdone⟩ := @markFrom_complete color cells valueArena roots ht
    induction h with
    | root hv hi => exact hroots _ hv _ hi
    | edge _ ho hv hj ih => exact ((hdone _ ih).resolve_left (hfresh _)) _ ho _ hv _ hj

/-! ### The sweep -/

open Neetan.LittleEndian

namespace Sweep

@[simp] lemma closeRun_runStart (sweep : Sweep) (index : ℕ) :
    (sweep.closeRun index).runStart = none := by
  cases h : sweep.runStart <;> simp [closeRun, h]

lemma closeRun_of_none {sweep : Sweep} (h : sweep.runStart = none) (index : ℕ) :
    sweep.closeRun index = sweep := by
  simp [closeRun, h]

lemma openRun_openRun (sweep : Sweep) (index index' : ℕ) :
    (sweep.openRun index).openRun index' = sweep.openRun index := by
  simp [openRun]

end Sweep

section
variable (owned : Object → ℕ) (fromBytes : List UInt8) (fromValues : List Value)
  (color : MarkColor)

/-! ### Survivors -/

lemma sweepSurvivor_frame (object : Object) (sweep : Sweep) :
    (sweepSurvivor owned fromBytes fromValues object sweep).2.1.runStart = sweep.runStart ∧
    (sweepSurvivor owned fromBytes fromValues object sweep).2.1.holes = sweep.holes ∧
    (sweepSurvivor owned fromBytes fromValues object sweep).2.1.live = sweep.live := by
  unfold sweepSurvivor
  split <;> (try split) <;> exact ⟨rfl, rfl, rfl⟩

lemma sweepSurvivor_live (object : Object) (sweep : Sweep) (live : ℕ) :
    sweepSurvivor owned fromBytes fromValues object { sweep with live } =
      ((sweepSurvivor owned fromBytes fromValues object sweep).1,
        { (sweepSurvivor owned fromBytes fromValues object sweep).2.1 with live },
        (sweepSurvivor owned fromBytes fromValues object sweep).2.2) := by
  unfold sweepSurvivor
  split <;> (try split) <;> rfl

lemma keepCell_frame (cell : Cell) (sweep : Sweep) :
    (keepCell owned fromBytes fromValues cell sweep).2.runStart = sweep.runStart ∧
    (keepCell owned fromBytes fromValues cell sweep).2.holes = sweep.holes ∧
    (keepCell owned fromBytes fromValues cell sweep).2.live = sweep.live := by
  unfold keepCell
  split
  · exact sweepSurvivor_frame owned fromBytes fromValues _ sweep
  · exact ⟨rfl, rfl, rfl⟩

lemma keepCell_live (cell : Cell) (sweep : Sweep) (live : ℕ) :
    keepCell owned fromBytes fromValues cell { sweep with live } =
      ((keepCell owned fromBytes fromValues cell sweep).1,
        { (keepCell owned fromBytes fromValues cell sweep).2 with live }) := by
  unfold keepCell
  split
  · simp only [sweepSurvivor_live]
  · rfl

lemma keepCells_live (cells : List Cell) (sweep : Sweep) (live : ℕ) :
    keepCells owned fromBytes fromValues cells { sweep with live } =
      ((keepCells owned fromBytes fromValues cells sweep).1,
        { (keepCells owned fromBytes fromValues cells sweep).2 with live }) := by
  induction cells generalizing sweep with
  | nil => rfl
  | cons cell cells ih => simp only [keepCells, keepCell_live, ih]

/-! ### Words -/

lemma state_of_byte {cell : Cell} (h : cell.byte = 0) : cell.state = metaFree := by
  rw [Cell.state, h]
  rfl

lemma sweepSlot_free {cell : Cell} (h : cell.state = metaFree) (index : ℕ) (sweep : Sweep) :
    sweepSlot owned fromBytes fromValues color index cell sweep = (cell, sweep.openRun index) := by
  simp [sweepSlot, h, Ne.symm color.bits_ne_free]

lemma sweepSlots_free {cells : List Cell} (h : ∀ cell ∈ cells, cell.state = metaFree)
    (index : ℕ) (sweep : Sweep) (hrun : ∃ i, sweep = sweep.openRun i) :
    sweepSlots owned fromBytes fromValues color index cells sweep = (cells, sweep) := by
  induction cells generalizing index with
  | nil => rfl
  | cons cell cells ih =>
    obtain ⟨i, hi⟩ := hrun
    have hopen : sweep.openRun index = sweep := by
      rw [hi, Sweep.openRun_openRun]
    simp only [sweepSlots, sweepSlot_free owned fromBytes fromValues color (h cell (by simp)),
      hopen, ih (fun c hc => h c (by simp [hc]))]

lemma sweepSlots_live {cells : List Cell} (h : ∀ cell ∈ cells, cell.state = color.bits)
    (index : ℕ) (sweep : Sweep) (hrun : sweep.runStart = none) :
    sweepSlots owned fromBytes fromValues color index cells sweep =
      keepCells owned fromBytes fromValues cells
        { sweep with live := sweep.live + cells.length } := by
  induction cells generalizing index sweep with
  | nil => rfl
  | cons cell cells ih =>
    have hframe := keepCell_frame owned fromBytes fromValues cell sweep
    simp only [sweepSlots, sweepSlot, h cell (by simp), if_true, Sweep.closeRun_of_none hrun,
      keepCell_live, keepCells, List.length_cons]
    rw [ih (fun c hc => h c (by simp [hc])) _ _ (by simpa using hframe.1.trans hrun)]
    simp only [keepCells_live, Nat.add_assoc, Nat.add_comm 1]

lemma land_stateWord {cells : List Cell} (h : cells.length = 8) :
    fromLe (cells.map Cell.byte) &&& stateWord = fromLe (cells.map Cell.state) := by
  have hmask : stateWord = fromLe (List.replicate (cells.map Cell.byte).length metaStateMask) := by
    rw [List.length_map, h]
    rfl
  rw [hmask, fromLe_land, List.map_map]
  rfl

lemma liveWord_eq : liveWord color = fromLe (List.replicate 8 color.bits) := by
  cases color <;> rfl

lemma sweepWord_eq {cells : List Cell} (h : cells.length = 8) (index : ℕ) (sweep : Sweep) :
    sweepWord owned fromBytes fromValues color index cells sweep =
      sweepSlots owned fromBytes fromValues color index cells sweep := by
  unfold sweepWord
  simp only [land_stateWord h, liveWord_eq]
  split_ifs with hzero hlive
  · have hfree : ∀ cell ∈ cells, cell.state = metaFree := fun cell hcell =>
      state_of_byte ((fromLe_eq_zero _).mp hzero _ (List.mem_map_of_mem hcell))
    cases cells with
    | nil => simp at h
    | cons cell cells =>
      rw [sweepSlots, sweepSlot_free owned fromBytes fromValues color (hfree cell (by simp))]
      simp only
      rw [sweepSlots_free owned fromBytes fromValues color (fun c hc => hfree c (by simp [hc])) _ _
        ⟨index, (Sweep.openRun_openRun ..).symm⟩]
  · have hstates := fromLe_inj (by simp [h]) hlive
    have hall : ∀ cell ∈ cells, cell.state = color.bits := fun cell hcell =>
      List.eq_of_mem_replicate (hstates ▸ List.mem_map_of_mem hcell)
    cases cells with
    | nil => simp at h
    | cons cell cells =>
      have hrun := Sweep.closeRun_runStart sweep index
      simp only [sweepSlots, sweepSlot, hall cell (by simp), if_true, keepCell_live]
      rw [sweepSlots_live owned fromBytes fromValues color (fun c hc => hall c (by simp [hc])) _ _
        (by simpa using (keepCell_frame owned fromBytes fromValues cell _).1.trans hrun)]
      have hlen : cells.length = 7 := by simpa using h
      simp only [keepCells, keepCell_live, keepCells_live, hlen, Nat.add_assoc, Nat.reduceAdd]
  · rfl

lemma sweepSlots_append (first second : List Cell) (index : ℕ) (sweep : Sweep) :
    sweepSlots owned fromBytes fromValues color index (first ++ second) sweep =
      ((sweepSlots owned fromBytes fromValues color index first sweep).1 ++
        (sweepSlots owned fromBytes fromValues color (index + first.length) second
          (sweepSlots owned fromBytes fromValues color index first sweep).2).1,
        (sweepSlots owned fromBytes fromValues color (index + first.length) second
          (sweepSlots owned fromBytes fromValues color index first sweep).2).2) := by
  induction first generalizing index sweep with
  | nil => simp [sweepSlots]
  | cons cell first ih =>
    simp only [List.cons_append, sweepSlots, ih, List.length_cons, Nat.add_assoc,
      Nat.add_comm 1 first.length]

/-- **The word-wise sweep is the sweep slot by slot.** -/
theorem sweepCells_eq (index : ℕ) (cells : List Cell) (sweep : Sweep) :
    sweepCells owned fromBytes fromValues color index cells sweep =
      sweepSlots owned fromBytes fromValues color index cells sweep := by
  fun_induction sweepCells owned fromBytes fromValues color index cells sweep with
  | case1 index cells sweep h first sweep' hword rest sweep'' hrest ih =>
    have hlen : (cells.take 8).length = 8 := by simp [h]
    rw [sweepWord_eq owned fromBytes fromValues color hlen] at hword
    conv_rhs => rw [← List.take_append_drop 8 cells]
    rw [sweepSlots_append, hword, hlen, ← ih, hrest]
  | case2 index cells sweep h => rfl

end

end Neetan.Gc
