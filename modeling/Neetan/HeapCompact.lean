import Neetan.HeapSweep
import Mathlib.Data.List.Forall2
import Mathlib.Algebra.Order.BigOperators.Group.List
import Mathlib.Order.Interval.Finset.Nat

/-!
The holes and the compaction: the sweep records the maximal runs of free slots, and survivors keep
their contents and get the spans of the fresh arenas one after the other.

The invariant of the sweep is about the flags of the slots scanned so far, `true` for a survivor.
-/

namespace Neetan.Gc

open Neetan.Bytecode

/-- The runs recorded after a scan, and the one still open. -/
structure Runs (flags : List Bool) (holes : List Hole) (runStart : Option ℕ) : Prop where
  hole : ∀ hole ∈ holes, hole.start < hole.stop ∧
    (∀ k, hole.start ≤ k → k < hole.stop → flags[k]? = some false) ∧
    flags[hole.stop]? = some true ∧
    (hole.start = 0 ∨ flags[hole.start - 1]? = some true)
  opened : ∀ start, runStart = some start → start < flags.length ∧
    (∀ k, start ≤ k → k < flags.length → flags[k]? = some false) ∧
    (start = 0 ∨ flags[start - 1]? = some true)
  closed : runStart = none → flags.length = 0 ∨ flags[flags.length - 1]? = some true
  cover : ∀ k, flags[k]? = some false →
    (∃ hole ∈ holes, hole.start ≤ k ∧ k < hole.stop) ∨ ∃ start, runStart = some start ∧ start ≤ k
  ordered : holes.Pairwise fun hole hole' => hole.stop < hole'.start

namespace Runs
variable {flags : List Bool} {holes : List Hole} {runStart : Option ℕ}

lemma nil : Runs [] [] none := by
  constructor <;> simp

lemma snoc_of_some {flag value : Bool} {k : ℕ} (h : flags[k]? = some value) :
    (flags ++ [flag])[k]? = some value := by
  rw [List.getElem?_append_left (List.getElem?_eq_some_iff.mp h).1]
  exact h

lemma cases_snoc {flag value : Bool} {k : ℕ} (h : (flags ++ [flag])[k]? = some value) :
    flags[k]? = some value ∨ k = flags.length ∧ flag = value := by
  by_cases hk : k < flags.length
  · rw [List.getElem?_append_left hk] at h
    exact .inl h
  · rw [List.getElem?_append_right (by omega)] at h
    have h0 : k - flags.length = 0 := by
      by_contra hne
      rw [List.getElem?_eq_none (by simp; omega)] at h
      cases h
    rw [h0] at h
    exact .inr ⟨by omega, by simpa using h⟩

lemma hole_snoc (h : Runs flags holes runStart) (flag : Bool) :
    ∀ hole ∈ holes, hole.start < hole.stop ∧
      (∀ k, hole.start ≤ k → k < hole.stop → (flags ++ [flag])[k]? = some false) ∧
      (flags ++ [flag])[hole.stop]? = some true ∧
      (hole.start = 0 ∨ (flags ++ [flag])[hole.start - 1]? = some true) := by
  intro hole hmem
  obtain ⟨hlt, hfree, hstop, hstart⟩ := h.hole hole hmem
  exact ⟨hlt, fun k hk hk' => snoc_of_some (hfree k hk hk'), snoc_of_some hstop,
    hstart.imp_right snoc_of_some⟩

lemma snoc_free (h : Runs flags holes runStart) :
    Runs (flags ++ [false]) holes (some (runStart.getD flags.length)) where
  hole := h.hole_snoc false
  opened := by
    intro start hs
    obtain rfl := Option.some.inj hs
    have hlast : (flags ++ [false])[flags.length]? = some false := by simp
    cases hr : runStart with
    | none =>
      refine ⟨by simp, fun k hk hk' => ?_, (h.closed hr).imp (by simp) snoc_of_some⟩
      obtain rfl : k = flags.length := by simp at hk hk'; omega
      exact hlast
    | some start =>
      obtain ⟨hlt, hfree, hstart⟩ := h.opened start hr
      refine ⟨by simp; omega, fun k hk hk' => ?_, hstart.imp_right snoc_of_some⟩
      by_cases hkl : k < flags.length
      · exact snoc_of_some (hfree k hk hkl)
      · obtain rfl : k = flags.length := by simp at hk'; omega
        exact hlast
  closed := by simp
  cover := by
    intro k hk
    rcases cases_snoc hk with hk | ⟨rfl, -⟩
    · rcases h.cover k hk with hcov | ⟨start, hs, hle⟩
      · exact .inl hcov
      · exact .inr ⟨start, by simp [hs], hle⟩
    · refine .inr ⟨_, rfl, ?_⟩
      cases hr : runStart with
      | none => simp
      | some start => exact (h.opened start hr).1.le
  ordered := h.ordered

lemma snoc_kept (h : Runs flags holes runStart) :
    Runs (flags ++ [true]) (holes ++ (runStart.map fun start => ⟨start, flags.length⟩).toList)
      none where
  hole := by
    intro hole hmem
    rcases List.mem_append.mp hmem with hmem | hmem
    · exact h.hole_snoc true hole hmem
    · obtain ⟨start, hr, rfl⟩ : ∃ start, runStart = some start ∧ ⟨start, flags.length⟩ = hole := by
        simpa using hmem
      obtain ⟨hlt, hfree, hstart⟩ := h.opened start hr
      exact ⟨hlt, fun k hk hk' => snoc_of_some (hfree k hk hk'), by simp,
        hstart.imp_right snoc_of_some⟩
  opened := by simp
  closed := by simp
  cover := by
    intro k hk
    rcases cases_snoc hk with hk | ⟨-, hflag⟩
    · rcases h.cover k hk with ⟨hole, hmem, hin⟩ | ⟨start, hs, hle⟩
      · exact .inl ⟨hole, by simp [hmem], hin⟩
      · exact .inl ⟨⟨start, flags.length⟩, by simp [hs], hle, (List.getElem?_eq_some_iff.mp hk).1⟩
    · cases hflag
  ordered := by
    refine List.pairwise_append.mpr ⟨h.ordered, ?_, ?_⟩
    · cases runStart <;> simp
    · intro hole hmem hole' hmem'
      obtain ⟨start, hr, rfl⟩ : ∃ start, runStart = some start ∧ ⟨start, flags.length⟩ = hole' := by
        simpa using hmem'
      -- the end of a hole is a survivor, the open run has none
      by_contra hle
      have hstop := (h.hole hole hmem).2.2.1
      have hfree := (h.opened start hr).2.1 hole.stop (by simpa using hle)
        (List.getElem?_eq_some_iff.mp hstop).1
      rw [hstop] at hfree
      cases hfree

end Runs

/-! ### The sweep -/

section
variable (owned : Object → ℕ) (fromBytes : List UInt8) (fromValues : List Value)
  (color : MarkColor)

lemma closeRun_runs {flags : List Bool} {sweep : Sweep}
    (h : Runs flags sweep.holes sweep.runStart) :
    Runs (flags ++ [true]) (sweep.closeRun flags.length).holes
      (sweep.closeRun flags.length).runStart := by
  have hkept := h.snoc_kept
  unfold Sweep.closeRun
  split <;> rename_i hr <;> simpa [hr] using hkept

/-- The survivors of a scan. -/
def keptFlags (cells : List Cell) : List Bool :=
  cells.map fun cell => decide (cell.state = color.bits)

lemma sweepSlots_runs {cells : List Cell} {flags : List Bool} {sweep : Sweep}
    (h : Runs flags sweep.holes sweep.runStart) :
    let swept := sweepSlots owned fromBytes fromValues color flags.length cells sweep
    Runs (flags ++ keptFlags color cells) swept.2.holes swept.2.runStart := by
  induction cells generalizing flags sweep with
  | nil => simpa [keptFlags, sweepSlots] using h
  | cons cell cells ih =>
    generalize hfirst : sweepSlot owned fromBytes fromValues color flags.length cell sweep = first
    have hnext : Runs (flags ++ [decide (cell.state = color.bits)]) first.2.holes
        first.2.runStart := by
      subst hfirst
      unfold sweepSlot
      by_cases hstate : cell.state = color.bits
      · obtain ⟨hrun, hholes, -⟩ := keepCell_frame owned fromBytes fromValues cell
          { sweep.closeRun flags.length with live := (sweep.closeRun flags.length).live + 1 }
        simp only [hstate, if_true, decide_true]
        rw [hrun, hholes]
        exact closeRun_runs h
      · simp only [hstate, decide_false]
        exact h.snoc_free
    have hrest := ih hnext
    simp only [List.length_append, List.length_singleton] at hrest
    simpa [sweepSlots, hfirst, keptFlags] using hrest

end

/-! ### Holes -/

/-- Slot `i` is there and holds no object. -/
def Vacant (cells : List Cell) (i : ℕ) : Prop := ∃ cell, cells[i]? = some cell ∧ cell.slot = none

/-- The holes are the maximal runs of free slots. -/
structure MaximalRuns (cells : List Cell) (holes : List Hole) : Prop where
  run : ∀ hole ∈ holes, hole.start < hole.stop ∧
    (∀ k, hole.start ≤ k → k < hole.stop → Vacant cells k) ∧ ¬ Vacant cells hole.stop ∧
    (hole.start = 0 ∨ ¬ Vacant cells (hole.start - 1))
  cover : ∀ k, Vacant cells k → ∃ hole ∈ holes, hole.start ≤ k ∧ k < hole.stop
  ordered : holes.Pairwise fun hole hole' => hole.stop < hole'.start

lemma Runs.maximal {flags : List Bool} {sweep : Sweep} {cells : List Cell}
    (h : Runs flags sweep.holes sweep.runStart)
    (hv : ∀ k, Vacant cells k ↔ flags[k]? = some false) :
    MaximalRuns cells (sweep.closeRun flags.length).holes := by
  have hclosed := closeRun_runs h
  have hkept : ∀ {k : ℕ}, (flags ++ [true])[k]? = some true → ¬ Vacant cells k := by
    intro k hk hvac
    have hfalse : (flags ++ [true])[k]? = some false := Runs.snoc_of_some ((hv k).mp hvac)
    rw [hk] at hfalse
    cases hfalse
  have hfree : ∀ {k : ℕ}, (flags ++ [true])[k]? = some false → Vacant cells k := by
    intro k hk
    rcases Runs.cases_snoc hk with hk | ⟨-, hflag⟩
    · exact (hv k).mpr hk
    · cases hflag
  refine ⟨fun hole hmem => ?_, fun k hk => ?_, hclosed.ordered⟩
  · obtain ⟨hlt, hin, hstop, hstart⟩ := hclosed.hole hole hmem
    exact ⟨hlt, fun k hk hk' => hfree (hin k hk hk'), hkept hstop, hstart.imp_right hkept⟩
  · rcases hclosed.cover k (Runs.snoc_of_some ((hv k).mp hk)) with hcov | ⟨start, hs, -⟩
    · exact hcov
    · simp at hs

/-! ### Contents -/

/-- What is read of an object through its handle. -/
inductive Content
  | vector (values : List Value)
  | bytevector (bytes : List UInt8)
  | string (bytes : List UInt8) (chars : ℕ)
  | plain (object : Object)

def Object.content (bytes : List UInt8) (values : List Value) : Object → Option Content
  | .vector off len => (span values off len).map .vector
  | .bytevector off len => (span bytes off len).map .bytevector
  | .string off byteLen chars => (span bytes off byteLen).map (.string · chars)
  | object => some (.plain object)

/-- Offset and length of an object's span in the byte arena. -/
def Object.byteSpan : Object → Option (ℕ × ℕ)
  | .bytevector off len => some (off, len)
  | .string off byteLen _ => some (off, byteLen)
  | _ => none

/-- Offset and length of an object's span in the value arena. -/
def Object.valueSpan : Object → Option (ℕ × ℕ)
  | .vector off len => some (off, len)
  | _ => none

/-- Two spans have no element in common. -/
def Apart (first second : ℕ × ℕ) : Prop :=
  first.1 + first.2 ≤ second.1 ∨ second.1 + second.2 ≤ first.1

def spanLength (position : Option (ℕ × ℕ)) : ℕ := position.elim 0 Prod.snd

section Span
variable {α : Type} {arena : List α} {off len : ℕ} {elements : List α}

lemma span_eq_some (h : span arena off len = some elements) :
    off + len ≤ arena.length ∧ elements.length = len := by
  unfold span at h
  split_ifs at h with hin
  obtain rfl := Option.some.inj h
  exact ⟨hin, by simp; omega⟩

lemma span_append_left (h : span arena off len = some elements) (more : List α) :
    span (arena ++ more) off len = some elements := by
  have hin := (span_eq_some h).1
  rw [← h]
  unfold span
  rw [if_pos hin, if_pos (by simp; omega), List.drop_append_of_le_length (by omega),
    List.take_append_of_le_length (by simp; omega)]

lemma span_append_self (arena : List α) {elements : List α} (h : elements.length = len) :
    span (arena ++ elements) arena.length len = some elements := by
  subst h
  simp [span]

end Span

lemma Object.content_append {object : Object} {bytes : List UInt8} {values : List Value}
    {content : Content} (h : object.content bytes values = some content)
    (moreBytes : List UInt8) (moreValues : List Value) :
    object.content (bytes ++ moreBytes) (values ++ moreValues) = some content := by
  unfold Object.content at h ⊢
  split at h
  case h_1 off len | h_2 off len | h_3 off len chars =>
    obtain ⟨elements, hs, rfl⟩ := Option.map_eq_some_iff.mp h
    simp [span_append_left hs]
  case h_4 => exact h

lemma Object.span_inside {object : Object} {bytes : List UInt8} {values : List Value}
    {content : Content} (h : object.content bytes values = some content) {off len : ℕ} :
    (object.byteSpan = some (off, len) → off + len ≤ bytes.length) ∧
    (object.valueSpan = some (off, len) → off + len ≤ values.length) := by
  cases object
  case vector | bytevector | string =>
    obtain ⟨elements, hs, -⟩ := Option.map_eq_some_iff.mp h
    refine ⟨fun hp => ?_, fun hp => ?_⟩ <;> cases hp
    exact (span_eq_some hs).1
  all_goals exact ⟨fun hp => (by cases hp), fun hp => (by cases hp)⟩

/-! ### One survivor -/

section
variable (owned : Object → ℕ) (fromBytes : List UInt8) (fromValues : List Value)

/-- The span a survivor gets. -/
def moved (position : Option (ℕ × ℕ)) (start : ℕ) : Option (ℕ × ℕ) :=
  position.map fun position => (start, position.2)

lemma sweepSurvivor_spec {object : Object} {content : Content}
    (h : object.content fromBytes fromValues = some content) {sweep : Sweep}
    (hb : sweep.byteArena.length < 2 ^ 32) (hv : sweep.valueArena.length < 2 ^ 32) :
    let kept := sweepSurvivor owned fromBytes fromValues object sweep
    (∃ bytes, kept.2.1.byteArena = sweep.byteArena ++ bytes ∧
      bytes.length = spanLength object.byteSpan) ∧
    (∃ values, kept.2.1.valueArena = sweep.valueArena ++ values ∧
      values.length = spanLength object.valueSpan) ∧
    kept.1.content kept.2.1.byteArena kept.2.1.valueArena = some content ∧
    kept.1.byteSpan = moved object.byteSpan sweep.byteArena.length ∧
    kept.1.valueSpan = moved object.valueSpan sweep.valueArena.length := by
  cases object with
  | vector off len =>
    obtain ⟨values, hs, rfl⟩ := Option.map_eq_some_iff.mp h
    have hlen := (span_eq_some hs).2
    simp only [sweepSurvivor, hs, Nat.mod_eq_of_lt hv]
    refine ⟨⟨[], by simp, rfl⟩, ⟨values, rfl, hlen⟩, ?_, rfl, rfl⟩
    simp [Object.content, span_append_self _ hlen]
  | bytevector off len =>
    obtain ⟨bytes, hs, rfl⟩ := Option.map_eq_some_iff.mp h
    have hlen := (span_eq_some hs).2
    simp only [sweepSurvivor, hs, Nat.mod_eq_of_lt hb]
    refine ⟨⟨bytes, rfl, hlen⟩, ⟨[], by simp, rfl⟩, ?_, rfl, rfl⟩
    simp [Object.content, span_append_self _ hlen]
  | string off len chars =>
    obtain ⟨bytes, hs, rfl⟩ := Option.map_eq_some_iff.mp h
    have hlen := (span_eq_some hs).2
    simp only [sweepSurvivor, hs, Nat.mod_eq_of_lt hb]
    refine ⟨⟨bytes, rfl, hlen⟩, ⟨[], by simp, rfl⟩, ?_, rfl, rfl⟩
    simp [Object.content, span_append_self _ hlen]
  | _ => exact ⟨⟨[], by simp [sweepSurvivor], rfl⟩, ⟨[], by simp [sweepSurvivor], rfl⟩, h, rfl, rfl⟩

/-! ### One slot -/

variable (color : MarkColor)

/-- What the sweep makes of a cell, given the fresh arenas. -/
inductive Swept (bytes : List UInt8) (values : List Value) : Cell → Cell → Prop
  | kept {cell : Cell} {object object' : Object} {content : Content} :
    cell.state = color.bits → cell.slot = some object →
    object.content fromBytes fromValues = some content →
    object'.content bytes values = some content →
    Swept bytes values cell { cell with slot := some object' }
  | freed {cell cell' : Cell} : cell.state ≠ color.bits → cell'.slot = none →
    cell'.state = metaFree → Swept bytes values cell cell'

variable {fromBytes fromValues color} in
lemma Swept.append {bytes : List UInt8} {values : List Value} {cell cell' : Cell}
    (h : Swept fromBytes fromValues color bytes values cell cell') (moreBytes : List UInt8)
    (moreValues : List Value) :
    Swept fromBytes fromValues color (bytes ++ moreBytes) (values ++ moreValues) cell cell' := by
  cases h with
  | kept hstate hslot hc hc' =>
    exact .kept hstate hslot hc (Object.content_append hc' moreBytes moreValues)
  | freed hstate hslot hfree => exact .freed hstate hslot hfree

/-- The length of the span of a cell that is kept. -/
def keptSpan (position : Object → Option (ℕ × ℕ)) (cell : Cell) : ℕ :=
  if cell.state = color.bits then spanLength (cell.slot.bind position) else 0

def keptLength (position : Object → Option (ℕ × ℕ)) (cells : List Cell) : ℕ :=
  (cells.map (keptSpan color position)).sum

lemma sweepSlot_spec {cell : Cell} (ht : cell.slot = none ↔ cell.state = metaFree)
    (hc : ∀ object, cell.slot = some object →
      ∃ content, object.content fromBytes fromValues = some content)
    (index : ℕ) {sweep : Sweep} (hb : sweep.byteArena.length < 2 ^ 32)
    (hv : sweep.valueArena.length < 2 ^ 32) :
    let swept := sweepSlot owned fromBytes fromValues color index cell sweep
    (∃ bytes, swept.2.byteArena = sweep.byteArena ++ bytes ∧
      bytes.length = keptSpan color Object.byteSpan cell) ∧
    (∃ values, swept.2.valueArena = sweep.valueArena ++ values ∧
      values.length = keptSpan color Object.valueSpan cell) ∧
    Swept fromBytes fromValues color swept.2.byteArena swept.2.valueArena cell swept.1 ∧
    (swept.1.slot.bind Object.byteSpan = none ∧ keptSpan color Object.byteSpan cell = 0 ∨
      swept.1.slot.bind Object.byteSpan =
        some (sweep.byteArena.length, keptSpan color Object.byteSpan cell)) ∧
    (swept.1.slot.bind Object.valueSpan = none ∧ keptSpan color Object.valueSpan cell = 0 ∨
      swept.1.slot.bind Object.valueSpan =
        some (sweep.valueArena.length, keptSpan color Object.valueSpan cell)) := by
  have hclose : (sweep.closeRun index).byteArena = sweep.byteArena ∧
      (sweep.closeRun index).valueArena = sweep.valueArena := by
    unfold Sweep.closeRun
    split <;> exact ⟨rfl, rfl⟩
  unfold sweepSlot keptSpan
  by_cases hstate : cell.state = color.bits
  · obtain ⟨object, hobject⟩ := Option.ne_none_iff_exists'.mp
      (ht.not.mpr (hstate ▸ color.bits_ne_free))
    obtain ⟨content, hcontent⟩ := hc object hobject
    have hspec := @sweepSurvivor_spec owned fromBytes fromValues object content hcontent
      { sweep.closeRun index with live := (sweep.closeRun index).live + 1 }
      (by simpa [hclose.1] using hb) (by simpa [hclose.2] using hv)
    simp only [hclose.1, hclose.2] at hspec
    obtain ⟨hbytes, hvalues, hnew, hbyte, hvalue⟩ := hspec
    simp only [hstate, if_true, keepCell, hobject, Option.bind_some, hclose.1, hclose.2]
    refine ⟨hbytes, hvalues, .kept hstate hobject hcontent hnew, ?_, ?_⟩
    · rw [hbyte]
      cases object.byteSpan <;> simp [moved, spanLength]
    · rw [hvalue]
      cases object.valueSpan <;> simp [moved, spanLength]
  · simp only [if_neg hstate]
    refine ⟨⟨[], by simp [Sweep.openRun], rfl⟩, ⟨[], by simp [Sweep.openRun], rfl⟩, ?_⟩
    by_cases hfree : cell.state = metaFree
    · rw [if_neg (not_not.mpr hfree)]
      have hnone := ht.mpr hfree
      exact ⟨.freed hstate hnone hfree, .inl ⟨by simp [hnone], trivial⟩,
        .inl ⟨by simp [hnone], trivial⟩⟩
    · rw [if_pos hfree]
      exact ⟨.freed hstate rfl rfl, .inl ⟨rfl, trivial⟩, .inl ⟨rfl, trivial⟩⟩

/-! ### All slots -/

/-- The spans of the objects lie one behind the other from `start` on. -/
def Laid (position : Object → Option (ℕ × ℕ)) : ℕ → List Cell → Prop
  | _, [] => True
  | start, cell :: cells =>
    match cell.slot.bind position with
    | none => Laid position start cells
    | some (off, len) => off = start ∧ Laid position (start + len) cells

lemma Laid.cons {position : Object → Option (ℕ × ℕ)} {start len : ℕ} {cell : Cell}
    {cells : List Cell}
    (h : cell.slot.bind position = none ∧ len = 0 ∨ cell.slot.bind position = some (start, len))
    (hl : Laid position (start + len) cells) : Laid position start (cell :: cells) := by
  unfold Laid
  rcases h with ⟨h, rfl⟩ | h
  · rw [h]
    exact hl
  · rw [h]
    exact ⟨rfl, hl⟩

lemma Laid.le {position : Object → Option (ℕ × ℕ)} {cells : List Cell} {start i : ℕ}
    (h : Laid position start cells) {cell : Cell} (hi : cells[i]? = some cell) {p : ℕ × ℕ}
    (hp : cell.slot.bind position = some p) : start ≤ p.1 := by
  induction cells generalizing start i with
  | nil => simp at hi
  | cons first cells ih =>
    unfold Laid at h
    cases i with
    | zero =>
      obtain rfl : first = cell := by simpa using hi
      rw [hp] at h
      exact h.1.ge
    | succ i =>
      have hi' : cells[i]? = some cell := by simpa using hi
      split at h
      · exact ih h hi'
      · exact le_trans (Nat.le_add_right _ _) (ih h.2 hi')

lemma Laid.apart {position : Object → Option (ℕ × ℕ)} {cells : List Cell} {start i j : ℕ}
    (h : Laid position start cells) (hij : i < j) {cell cell' : Cell}
    (hi : cells[i]? = some cell) (hj : cells[j]? = some cell') {p q : ℕ × ℕ}
    (hp : cell.slot.bind position = some p) (hq : cell'.slot.bind position = some q) :
    p.1 + p.2 ≤ q.1 := by
  induction cells generalizing start i j with
  | nil => simp at hi
  | cons first cells ih =>
    unfold Laid at h
    obtain ⟨j, rfl⟩ := Nat.exists_eq_succ_of_ne_zero (Nat.ne_zero_of_lt hij)
    have hj' : cells[j]? = some cell' := by simpa using hj
    cases i with
    | zero =>
      obtain rfl : first = cell := by simpa using hi
      rw [hp] at h
      rw [h.1]
      exact h.2.le hj' hq
    | succ i =>
      have hi' : cells[i]? = some cell := by simpa using hi
      split at h
      · exact ih h (by omega) hi' hj'
      · exact ih h.2 (by omega) hi' hj'

lemma sweepSlots_spec {cells : List Cell} (ht : Tagged cells)
    (hc : ∀ cell ∈ cells, ∀ object, cell.slot = some object →
      ∃ content, object.content fromBytes fromValues = some content)
    (index : ℕ) {sweep : Sweep}
    (hb : sweep.byteArena.length + keptLength color Object.byteSpan cells < 2 ^ 32)
    (hv : sweep.valueArena.length + keptLength color Object.valueSpan cells < 2 ^ 32) :
    let swept := sweepSlots owned fromBytes fromValues color index cells sweep
    (∃ bytes, swept.2.byteArena = sweep.byteArena ++ bytes ∧
      bytes.length = keptLength color Object.byteSpan cells) ∧
    (∃ values, swept.2.valueArena = sweep.valueArena ++ values ∧
      values.length = keptLength color Object.valueSpan cells) ∧
    List.Forall₂ (Swept fromBytes fromValues color swept.2.byteArena swept.2.valueArena)
      cells swept.1 ∧
    Laid Object.byteSpan sweep.byteArena.length swept.1 ∧
    Laid Object.valueSpan sweep.valueArena.length swept.1 := by
  induction cells generalizing index sweep with
  | nil =>
    exact ⟨⟨[], by simp [sweepSlots], rfl⟩, ⟨[], by simp [sweepSlots], rfl⟩, .nil, trivial,
      trivial⟩
  | cons cell cells ih =>
    simp only [keptLength, List.map_cons, List.sum_cons] at hb hv ⊢
    obtain ⟨⟨bytes, hbytes, hblen⟩, ⟨values, hvalues, hvlen⟩, hswept, hbyte, hvalue⟩ :=
      sweepSlot_spec owned fromBytes fromValues color (ht cell (by simp)) (hc cell (by simp)) index
        (by omega : sweep.byteArena.length < 2 ^ 32) (by omega)
    generalize hfirst : sweepSlot owned fromBytes fromValues color index cell sweep = first at *
    have hb' : first.2.byteArena.length = sweep.byteArena.length +
        keptSpan color Object.byteSpan cell := by
      rw [hbytes, List.length_append, hblen]
    have hv' : first.2.valueArena.length = sweep.valueArena.length +
        keptSpan color Object.valueSpan cell := by
      rw [hvalues, List.length_append, hvlen]
    obtain ⟨⟨moreBytes, hmore, hmlen⟩, ⟨moreValues, hmoreV, hmVlen⟩, hrest, hlaid, hlaidV⟩ :=
      @ih (fun c hm => ht c (by simp [hm])) (fun c hm => hc c (by simp [hm])) (index + 1) first.2
        (by unfold keptLength; omega) (by unfold keptLength; omega)
    simp only [sweepSlots, hfirst]
    generalize hsecond : sweepSlots owned fromBytes fromValues color (index + 1) cells first.2 =
      second at *
    refine ⟨⟨bytes ++ moreBytes, ?_, ?_⟩, ⟨values ++ moreValues, ?_, ?_⟩, ?_, ?_, ?_⟩
    · rw [hmore, hbytes, List.append_assoc]
    · rw [List.length_append, hblen, hmlen]
      rfl
    · rw [hmoreV, hvalues, List.append_assoc]
    · rw [List.length_append, hvlen, hmVlen]
      rfl
    · refine .cons ?_ hrest
      rw [hmore, hmoreV]
      exact hswept.append moreBytes moreValues
    · exact .cons hbyte (hb' ▸ hlaid)
    · exact .cons hvalue (hv' ▸ hlaidV)

end

/-! ### Room -/

lemma sum_length_le {size : ℕ} {positions : List (ℕ × ℕ)} (hp : positions.Pairwise Apart)
    (hin : ∀ p ∈ positions, p.1 + p.2 ≤ size) : (positions.map Prod.snd).sum ≤ size := by
  have hcard : ∀ {positions : List (ℕ × ℕ)}, positions.Pairwise Apart →
      (positions.map Prod.snd).sum =
        (positions.toFinset.biUnion fun p => Finset.Ico p.1 (p.1 + p.2)).card := by
    intro positions hp
    induction positions with
    | nil => rfl
    | cons p positions ih =>
      obtain ⟨hfirst, hrest⟩ := List.pairwise_cons.mp hp
      have hd : Disjoint (Finset.Ico p.1 (p.1 + p.2))
          (positions.toFinset.biUnion fun p => Finset.Ico p.1 (p.1 + p.2)) := by
        refine (Finset.disjoint_biUnion_right _ _ _).mpr fun q hq => ?_
        have := hfirst q (by simpa using hq)
        rw [Finset.disjoint_left]
        intro x hx hx'
        simp only [Finset.mem_Ico] at hx hx'
        unfold Apart at this
        omega
      rw [List.toFinset_cons, Finset.biUnion_insert, Finset.card_union_of_disjoint hd, ← ih hrest]
      simp
  rw [hcard hp]
  refine le_trans (Finset.card_le_card (t := Finset.range size) ?_) (by simp)
  intro x hx
  obtain ⟨p, hmem, hx⟩ := Finset.mem_biUnion.mp hx
  have := hin p (by simpa using hmem)
  simp only [Finset.mem_Ico] at hx
  simp only [Finset.mem_range]
  omega

end Neetan.Gc
