import Neetan.StringAllocations

/-!
Runs of string operations: every answer is that of strings represented as plain lists of
characters.

What carries the run is that the heap is sound, its strings are counted and the cached
positions are boundaries; each operation keeps it and makes the step of the lists.
-/

namespace Neetan.Gc

open Neetan.Bytecode Neetan.StringCursor

section
variable {boxed : Object → ℕ} {state : StringHeap}

/-! ### Allocations -/

lemma operation_perform (owned : Object → ℕ) (allocation : Allocation) :
    allocation.operation.perform owned = Functor.discard (allocation.perform owned) := by
  cases allocation <;> rfl

lemma perform_allocation_held {heap : Heap} (h : heap.Held (owns boxed)) {allocation : Allocation}
    (hproper : allocation.operation.Proper heap) :
    Ends (allocation.perform (owns boxed)) heap (fun _ after => after.Held (owns boxed))
      (fun after => after.Held (owns boxed)) := by
  have hends := perform_held h hproper
  rw [operation_perform] at hends
  have hdiscard : Functor.discard (allocation.perform (owns boxed)) heap =
      match allocation.perform (owns boxed) heap with
      | .ok result => .ok ((), result.2)
      | .error failure => .error failure := by
    have hrun : Functor.discard (allocation.perform (owns boxed)) =
        allocation.perform (owns boxed) >>= fun _ => pure () := by
      rw [Functor.discard, map_const, Function.comp_apply, map_eq_pure_bind]
    rw [hrun]
    show (allocation.perform (owns boxed) heap >>= fun result => Except.ok ((), result.2)) = _
    cases allocation.perform (owns boxed) heap <;> rfl
  unfold Ends at hends ⊢
  rw [hdiscard] at hends
  cases hrun : allocation.perform (owns boxed) heap with
  | error failure =>
    rw [hrun] at hends
    exact hends.1
  | ok result =>
    rw [hrun] at hends
    exact hends.1

lemma sound_of_survivors {heap : Heap} {quiet : Bool} (made : ℕ → Prop)
    (h : state.Sound (owns boxed)) (hheld : heap.Held (owns boxed))
    (hmade : ∀ i, made i → ∀ bytes chars immutable,
      heap.contents i = some (.string bytes chars, immutable) →
        ∃ text, bytes = Utf8.encode text ∧ chars = text.length)
    (hothers : ∀ i, ¬ made i → heap.contents i = state.heap.contents i ∨ heap.contents i = none)
    (hquiet : quiet = true → ∀ i, (made i → state.heap.contents i = none) ∧
      (¬ made i → heap.contents i = state.heap.contents i)) :
    StringHeap.Sound (owns boxed)
      ⟨heap, if quiet then state.cursors else state.cursors.clear⟩ := by
  refine ⟨hheld, fun i bytes chars immutable hi => ?_, ?_⟩
  · by_cases hnew : made i
    · exact hmade i hnew bytes chars immutable hi
    · rcases hothers i hnew with hsame | hnone
      · exact h.counted i bytes chars immutable (hsame.symm.trans hi)
      · rw [hnone] at hi
        cases hi
  · cases quiet with
    | false => exact new_sound _
    | true =>
      refine h.cursors.mono fun i text htext => ?_
      obtain ⟨hnone, hsame⟩ := hquiet rfl i
      unfold Heap.chars at htext ⊢
      by_cases hnew : made i
      · rw [texts_of_none (hnone hnew)] at htext
        cases htext
      · rw [texts_congr (hsame hnew)]
        exact htext

lemma drops_of_contents {before after : Heap} {i : ℕ}
    (h : after.contents i = before.contents i ∨ ¬ before.Secure i ∧ after.contents i = none) :
    Texts.Drops before.Secure before.texts after.texts i :=
  h.imp texts_congr fun ⟨hloose, hnone⟩ => ⟨hloose, texts_of_none hnone⟩

/-- **An allocation**: a new string has the text it was asked for, and every other string is as
it was, or was not bound to stay. -/
lemma allocate_spec (h : state.Sound (owns boxed)) {allocation : Allocation}
    (hproper : allocation.operation.Proper state.heap) :
    (state.allocate (owns boxed) allocation).2.Sound (owns boxed) ∧
      ((∃ reference, (state.allocate (owns boxed) allocation).1 = .ok (.heap reference) ∧
          (state.heap.texts reference.toNat = none ∨ ¬ state.heap.Secure reference.toNat) ∧
          (state.allocate (owns boxed) allocation).2.heap.texts reference.toNat =
            state.heap.texts.made allocation ∧
          ∀ i, i ≠ reference.toNat → Texts.Drops state.heap.Secure state.heap.texts
            (state.allocate (owns boxed) allocation).2.heap.texts i) ∨
        ∃ error, (state.allocate (owns boxed) allocation).1 = .error error ∧
          ∀ i, Texts.Drops state.heap.Secure state.heap.texts
            (state.allocate (owns boxed) allocation).2.heap.texts i) := by
  have hheld := perform_allocation_held h.held hproper
  obtain ⟨content, htext, hmakes⟩ := perform_makes h.held h.counted hproper
  have hflip : (if allocation.collects (owns boxed) state.heap then state.cursors.clear
      else state.cursors) = if !allocation.collects (owns boxed) state.heap then state.cursors
        else state.cursors.clear := by
    cases allocation.collects (owns boxed) state.heap <;> rfl
  unfold StringHeap.allocate
  unfold Makes Ends at hmakes
  unfold Ends at hheld
  rw [hflip]
  cases hrun : allocation.perform (owns boxed) state.heap with
  | error failure =>
    rw [hrun] at hmakes hheld
    obtain ⟨error, after⟩ := failure
    obtain ⟨hsurvives, hstay⟩ := hmakes
    refine ⟨sound_of_survivors (fun _ => False) h hheld (fun _ hnew => hnew.elim)
      (fun i _ => (hsurvives i).imp_right fun hgone => hgone.2) fun hquiet i => ?_,
      .inr ⟨error, rfl, fun i => drops_of_contents (hsurvives i)⟩⟩
    exact ⟨fun hnew => hnew.elim, fun _ => hstay (by simpa using hquiet) i⟩
  | ok result =>
    rw [hrun] at hmakes hheld
    obtain ⟨value, after⟩ := result
    obtain ⟨reference, rfl, hmade⟩ := hmakes
    refine ⟨sound_of_survivors (fun i => i = reference.toNat) h hheld ?_
      (fun i hne => (hmade.others i hne).imp_right fun hgone => hgone.2) fun hquiet i => ?_,
      .inl ⟨reference, rfl, hmade.vacant.imp_left texts_of_none, ?_,
        fun i hne => drops_of_contents (hmade.others i hne)⟩⟩
    · rintro i rfl bytes chars immutable hcontents
      obtain ⟨rfl, -⟩ := Prod.mk.inj (Option.some.inj (hmade.contents.symm.trans hcontents))
      obtain ⟨text, hbytes, hchars, -⟩ := htext
      exact ⟨text, hbytes, hchars⟩
    · obtain ⟨hnone, hsame⟩ := hmade.quiet (by simpa using hquiet)
      exact ⟨fun hnew => hnew ▸ hnone, fun hne => hsame i hne⟩
    · cases content with
      | string bytes chars =>
        obtain ⟨text, rfl, rfl, hmadeText⟩ := htext
        rw [hmadeText]
        exact texts_of_string hmade.contents
      | vector values =>
        rw [show state.heap.texts.made allocation = none from htext]
        simp [Heap.texts, hmade.contents]
      | bytevector bytes =>
        rw [show state.heap.texts.made allocation = none from htext]
        simp [Heap.texts, hmade.contents]
      | plain object =>
        rw [show state.heap.texts.made allocation = none from htext]
        simp [Heap.texts, hmade.contents]

/-! ### Collections and what happens in between -/

lemma collect_spec (h : state.Sound (owns boxed)) (extraRoots : List Value) :
    (state.collectWith (owns boxed) extraRoots).Sound (owns boxed) ∧
      (∀ i, state.heap.Live extraRoots i →
        (state.collectWith (owns boxed) extraRoots).heap.texts i = state.heap.texts i) ∧
      ∀ i, ¬ state.heap.Live extraRoots i →
        (state.collectWith (owns boxed) extraRoots).heap.texts i = none := by
  have hkept : ∀ i, state.heap.Live extraRoots i →
      (state.heap.collectWith (owns boxed) extraRoots).contents i = state.heap.contents i :=
    fun i hlive => collected_contents (owns boxed) state.heap extraRoots h.held.sound.valid
      h.held.sound.fresh h.held.sound.ready.addressable hlive
  have hgone : ∀ i, ¬ state.heap.Live extraRoots i →
      (state.heap.collectWith (owns boxed) extraRoots).contents i = none :=
    fun i hdead => collected_none h.held.sound hdead
  refine ⟨⟨(h.held.collectWith extraRoots).1, fun i bytes chars immutable hi => ?_, new_sound _⟩,
    fun i hlive => texts_congr (hkept i hlive), fun i hdead => texts_of_none (hgone i hdead)⟩
  by_cases hlive : state.heap.Live extraRoots i
  · exact h.counted i bytes chars immutable ((hkept i hlive).symm.trans hi)
  · have hnone : (state.collectWith (owns boxed) extraRoots).heap.contents i = none :=
      hgone i hlive
    rw [hnone] at hi
    cases hi

lemma SameStrings.counted {before after : Heap} (h : SameStrings before after)
    (hc : before.Counted) : after.Counted := by
  intro i bytes chars immutable hi
  obtain ⟨immutable', hbefore⟩ := (h i bytes chars).mp ⟨immutable, hi⟩
  exact hc i bytes chars immutable' hbefore

lemma SameStrings.chars {before after : Heap} (h : SameStrings before after)
    (hc : before.Counted) (i : ℕ) : after.chars i = before.chars i := by
  have hiff : ∀ text, after.chars i = some text ↔ before.chars i = some text := by
    intro text
    rw [chars_eq_some, chars_eq_some]
    simp only [texts_eq_some hc, texts_eq_some (h.counted hc)]
    exact h i _ _
  cases hbefore : before.chars i with
  | none =>
    cases hafter : after.chars i with
    | none => rfl
    | some text =>
      rw [(hiff text).mp hafter] at hbefore
      cases hbefore
  | some text => exact (hiff text).mpr hbefore

lemma StringHeap.Sound.of_contents {heap : Heap} (h : state.Sound (owns boxed))
    (hheld : heap.Held (owns boxed)) (hsame : ∀ i, heap.contents i = state.heap.contents i) :
    StringHeap.Sound (owns boxed) { state with heap } ∧ heap.texts = state.heap.texts := by
  have htexts : heap.texts = state.heap.texts := funext fun i => texts_congr (hsame i)
  refine ⟨⟨hheld, fun i bytes chars immutable hi =>
    h.counted i bytes chars immutable ((hsame i).symm.trans hi), ?_⟩, htexts⟩
  unfold Heap.chars
  rw [htexts]
  exact h.cursors

/-! ### Runs -/

lemma new_strings (limits : Limits) :
    StringHeap.Sound (owns boxed) ⟨.new limits, .new⟩ ∧
      (Heap.new limits).texts = fun _ => none := by
  have hempty : ∀ i, (Heap.new limits).contents i = none := fun i => by
    simp [Heap.contents, Heap.new]
  refine ⟨⟨(new_held (owns boxed) limits).1, fun i _ _ _ hi => ?_, new_sound _⟩,
    funext fun i => texts_of_none (hempty i)⟩
  rw [show _ = none from hempty i] at hi
  cases hi

/-- What holds after every step of a run: the heap is sound, and the lists have made the same
steps with the same answers. -/
lemma StringSession.run {limits : Limits} {log : List StringEvent}
    (h : StringSession boxed limits log state) :
    state.Sound (owns boxed) ∧ ListRun log state.heap.texts := by
  induction h with
  | fresh =>
    obtain ⟨hsound, htexts⟩ := @new_strings boxed limits
    exact ⟨hsound, htexts ▸ .fresh⟩
  | ref value index _ ih =>
    obtain ⟨hanswer, hheap, hsound⟩ := stringRef_spec ih.1 value index
    rw [hanswer, hheap]
    exact ⟨hsound, .ref value index ih.2⟩
  | @range log state value start stop _ hle hstop ih =>
    rw [stringRange_spec ih.1 hle hstop]
    exact ⟨ih.1, .range value start stop ih.2⟩
  | len value _ ih =>
    rw [stringLen_spec ih.1]
    exact ⟨ih.1, .len value ih.2⟩
  | @set log state after value index replacement done _ hset ih =>
    obtain ⟨hsound, ⟨rfl, chars, hsettable, htexts⟩ | ⟨rfl, hnot, rfl⟩⟩ := stringSet_spec ih.1 hset
    · rw [htexts]
      exact ⟨hsound, .set replacement ih.2 hsettable⟩
    · exact ⟨hsound, .setRefused replacement ih.2 hnot⟩
  | setFails _ hset ih =>
    obtain ⟨chars, hsettable, hkind, hwidth⟩ := stringSet_fails ih.1 hset
    exact ⟨ih.1, .setFails _ ih.2 hsettable hkind hwidth⟩
  | allocate allocation _ hproper ih =>
    obtain ⟨hsound, ⟨reference, hanswer, hfresh, hmade, hothers⟩ | ⟨error, hanswer, hothers⟩⟩ :=
      allocate_spec ih.1 hproper
    · rw [hanswer]
      exact ⟨hsound, .allocate ih.2 hfresh hmade hothers⟩
    · rw [hanswer]
      exact ⟨hsound, .allocateFails allocation error ih.2 hothers⟩
  | collect extraRoots _ ih =>
    obtain ⟨hsound, hkept, hgone⟩ := collect_spec ih.1 extraRoots
    exact ⟨hsound, .collect ih.2 hkept hgone⟩
  | @write log state heap _ hwrites hsame ih =>
    have hchars := hsame.chars ih.1.counted
    refine ⟨⟨(ih.1.held.rewrites hwrites).1, hsame.counted ih.1.counted, ?_⟩, .write ih.2 hchars⟩
    exact ih.1.cursors.mono fun i text htext => (hchars i).trans htext
  | roots temporaryRoots hostRoots engineRoots _ ih =>
    obtain ⟨hsound, htexts⟩ := ih.1.of_contents
      (ih.1.held.withRoots temporaryRoots hostRoots engineRoots) fun _ => rfl
    exact ⟨hsound, htexts.symm ▸ ih.2⟩
  | enter vmActive _ ih =>
    obtain ⟨hsound, htexts⟩ := ih.1.of_contents (ih.1.held.withActive vmActive) fun _ => rfl
    exact ⟨hsound, htexts.symm ▸ ih.2⟩

/-- Without its cursors a heap gives the same answers and makes the same mutations. -/
lemma answers_uncached (h : state.Sound (owns boxed)) :
    (∀ value index, (state.stringRef value index).1 =
      ((⟨state.heap, .new⟩ : StringHeap).stringRef value index).1) ∧
    (∀ value start stop, start ≤ stop → (∀ chars, state.stringLen value = some chars →
      stop ≤ chars) → state.stringRange value start stop =
        (⟨state.heap, .new⟩ : StringHeap).stringRange value start stop) ∧
    ∀ value index replacement,
      (state.stringSet value index replacement).map (fun result => (result.1, result.2.heap)) =
        ((⟨state.heap, .new⟩ : StringHeap).stringSet value index replacement).map
          fun result => (result.1, result.2.heap) := by
  have hplain : StringHeap.Sound (owns boxed) ⟨state.heap, .new⟩ :=
    ⟨h.held, h.counted, new_sound _⟩
  refine ⟨fun value index => ?_, fun value start stop hle hstop => ?_,
    fun value index replacement => ?_⟩
  · rw [(stringRef_spec h value index).1, (stringRef_spec hplain value index).1]
  · rw [stringRange_spec h hle hstop, stringRange_spec hplain hle hstop]
  · have hrun := (stringSet_heap h value index replacement).symm.trans
      (stringSet_heap hplain value index replacement)
    cases hcached : state.stringSet value index replacement with
    | error error =>
      cases huncached : (⟨state.heap, .new⟩ : StringHeap).stringSet value index replacement with
      | error error' =>
        rw [hcached, huncached] at hrun
        cases hrun
        rfl
      | ok result =>
        rw [hcached, huncached] at hrun
        cases hrun
    | ok result =>
      cases huncached : (⟨state.heap, .new⟩ : StringHeap).stringSet value index replacement with
      | error error' =>
        rw [hcached, huncached] at hrun
        cases hrun
      | ok result' =>
        rw [hcached, huncached] at hrun
        exact congrArg Except.ok (Except.ok.inj hrun)

end

/-- Three characters of two bytes in a fresh heap. -/
def accents : Except Error Value × StringHeap :=
  (⟨.new ⟨8, 8, 1000⟩, .new⟩ : StringHeap).allocate (owns fun _ => 0) (.stringFilled 'é' 3)

end Neetan.Gc
