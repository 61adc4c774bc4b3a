import Neetan.HeapStrings
import Neetan.HeapSpans

/-!
Sequences of operations on a heap and its limits.

The slot limit holds after every operation, and what fails fails at a limit and leaves the
live objects alone. The byte limit needs the span ahead of the cursor to be clamped whenever
bytes are charged; where that is left out, the pairs that follow can overrun it.
-/

namespace Neetan.Gc

open Neetan.Bytecode

/-! ### Sizes -/

/-- What an object owns out of line. The kinds that are held in the slot itself own nothing. -/
def owns (boxed : Object → ℕ) : Object → ℕ
  | .pair .. | .native .. | .apply | .box .. | .recordType .. | .port .. | .environment ..
  | .randomSource .. => 0
  | .promise (.pending ..) | .promise (.forcing ..) | .promise (.forward ..) => 0
  | object => boxed object

/-! ### Operations -/

namespace Operation

/-- What the callers of an operation see to: only the constructors of payloads make handles,
and the parts of a concatenation have been checked. -/
def Proper (heap : Heap) : Operation → Prop
  | .alloc object => object.byteSpan = none ∧ object.valueSpan = none
  | .allocStringConcat parts totalBytes totalChars => heap.Checked parts totalBytes totalChars
  | _ => True

section
variable (owned : Object → ℕ)

/-- The out-of-line bytes of an allocation. -/
def payload : Operation → ℕ
  | .alloc object => object.bytes owned - objectSize
  | .allocVector values => saturatingMul values.length valueSize
  | .allocVectorFilled _ count => saturatingMul count valueSize
  | .allocBytevector bytes => bytes.length
  | .allocBytevectorFilled _ count => count
  | .allocString text => text.toUTF8.toList.length
  | .allocStringFilled fill count => count * fill.utf8Size
  | .allocStringConcat _ totalBytes _ => totalBytes
  | .allocPair .. | .stringSet .. | .collect _ => 0

/-- What is charged leaves the byte limit room for the span ahead of the cursor. -/
def LeavesRoom (heap : Heap) : Operation → Prop
  | .stringSet value index replacement => heap.LeavesRoomForCopy value index replacement
  | op => heap.LeavesRoomFor owned (op.payload owned)

end

end Operation

/-- A carried out operation. -/
def Carried (owned : Object → ℕ) (op : Operation) (before after : Heap) : Prop :=
  after.Held owned ∧ after.maxSlots = before.maxSlots ∧ after.maxBytes = before.maxBytes ∧
    (before.Spare 0 → (after.Spare 0 ↔ op.LeavesRoom owned before))

lemma Ends.discard {α : Type} {heap : Heap} {run : HeapM α} {post fail : Heap → Prop}
    (h : Ends run heap (fun _ => post) fail) :
    Ends (Functor.discard run) heap (fun _ => post) fail := by
  have hrun : Functor.discard run = run >>= fun _ => Pure.pure () := by
    rw [Functor.discard, map_const, Function.comp_apply, map_eq_pure_bind]
  rw [hrun]
  exact h.bind fun _ _ h => h

lemma perform_held {boxed : Object → ℕ} {heap : Heap} (h : heap.Held (owns boxed))
    {op : Operation} (hp : op.Proper heap) :
    Ends (op.perform (owns boxed)) heap (fun _ after => Carried (owns boxed) op heap after)
      (fun after => Failed (owns boxed) heap after) := by
  cases op with
  | alloc object => exact (alloc_held h hp.1 hp.2).discard
  | allocPair car cdr => exact (allocPair_held h rfl).discard
  | allocVector values => exact (allocVector_held h values).discard
  | allocVectorFilled fill count => exact (allocVectorFilled_held h fill count).discard
  | allocBytevector bytes => exact (allocBytevector_held h bytes).discard
  | allocBytevectorFilled fill count => exact (allocBytevectorFilled_held h fill count).discard
  | allocString text => exact (allocString_held h text).discard
  | allocStringFilled fill count => exact (allocStringFilled_held h fill count).discard
  | allocStringConcat parts totalBytes totalChars =>
    exact (allocStringConcat_held h hp).discard
  | stringSet value index replacement =>
    refine ((stringSet_held h value index replacement).mono (fun _ _ h => h) ?_).discard
    rintro after rfl
    exact ⟨h, Keeps.refl _, fun h => h⟩
  | collect extraRoots =>
    obtain ⟨hheld, hle⟩ := h.collectWith extraRoots
    obtain ⟨-, -, hslots, hbytes, hcursor, hlimit, -⟩ := @collectWith_frame (owns boxed) heap
      extraRoots
    refine ⟨hheld, hslots, hbytes, fun hspare => iff_of_true ?_ fun hne => absurd rfl hne⟩
    exact spare_of_used (hlimit.trans hcursor.symm).le (hle.trans hspare.total)

/-! ### Errors -/

/-- The run fails at a limit, if at all. -/
def FailsAtLimit {α : Type} (run : HeapM α) (heap : Heap) : Prop :=
  ∀ failure, run heap = .error failure → failure.1.kind = .heapLimitExceeded

section FailsAtLimit
variable {α β : Type} {run : HeapM α} {heap : Heap}

lemma FailsAtLimit.bind {next : α → HeapM β} (h : FailsAtLimit run heap)
    (hnext : ∀ value after, run heap = .ok (value, after) → FailsAtLimit (next value) after) :
    FailsAtLimit (run >>= next) heap := by
  intro failure hfailure
  replace hfailure : (run heap >>= fun result => next result.1 result.2) = _ := hfailure
  cases hrun : run heap with
  | error failure' =>
    rw [hrun] at hfailure
    cases hfailure
    exact h _ hrun
  | ok result =>
    rw [hrun] at hfailure
    exact hnext result.1 result.2 hrun failure hfailure

lemma FailsAtLimit.get {next : Heap → HeapM β} (h : FailsAtLimit (next heap) heap) :
    FailsAtLimit ((MonadState.get : HeapM Heap) >>= next) heap := h

lemma FailsAtLimit.of_ok {value : α} {after : Heap} (h : run heap = .ok (value, after)) :
    FailsAtLimit run heap := by
  intro failure hfailure
  rw [h] at hfailure
  cases hfailure

lemma failsAtLimit_raise (message : String) : FailsAtLimit (raise (heapLimit message) : HeapM α)
    heap := by
  intro failure hfailure
  cases hfailure
  rfl

lemma FailsAtLimit.discard (h : FailsAtLimit run heap) :
    FailsAtLimit (Functor.discard run) heap := by
  have hrun : Functor.discard run = run >>= fun _ => Pure.pure () := by
    rw [Functor.discard, map_const, Function.comp_apply, map_eq_pure_bind]
  rw [hrun]
  exact h.bind fun _ _ _ => .of_ok rfl

variable (owned : Object → ℕ)

lemma authorize_failsAtLimit (heap : Heap) : FailsAtLimit authorize heap := by
  rintro ⟨error, after⟩ h
  rcases (refuses_of_authorize h).1 with ⟨-, rfl⟩ | ⟨-, -, -, -, rfl⟩ <;> rfl

lemma refillSpan_failsAtLimit (heap : Heap) : FailsAtLimit (refillSpan owned) heap := by
  intro failure h
  rw [refillSpan_eq] at h
  exact authorize_failsAtLimit _ failure h

lemma preAccountDynamic_failsAtLimit (heap : Heap) (payload : ℕ) :
    FailsAtLimit (preAccountDynamic owned payload) heap := by
  intro failure h
  rw [preAccountDynamic_eq] at h
  split_ifs at h
  cases h
  rfl

lemma writeAuthorizedSlot_failsAtLimit (heap : Heap) (object : Object) :
    FailsAtLimit (writeAuthorizedSlot object) heap := by
  show FailsAtLimit (fun heap => (if heap.cursor < heap.limit ∧ heap.cursor < heap.cells.length
    then _ else _ : HeapM Value) heap) heap
  intro failure h
  by_cases hin : heap.cursor < heap.limit ∧ heap.cursor < heap.cells.length
  · simp only [hin] at h
    cases h
  · simp only [hin] at h
    cases h
    rfl

lemma ensureSlotAndBytes_failsAtLimit (heap : Heap) (payload : ℕ) :
    FailsAtLimit (ensureSlotAndBytes owned payload) heap := by
  have hensure : ensureSlotAndBytes owned payload =
      (if payload ≠ 0 then preAccountDynamic owned payload else pure ()) >>= fun _ =>
        (get : HeapM Heap) >>= fun heap =>
          if heap.cursor ≥ heap.limit then refillSpan owned else pure () := by
    unfold ensureSlotAndBytes
    split_ifs <;> rfl
  rw [hensure]
  refine FailsAtLimit.bind ?_ fun _ mid _ => ?_
  · split_ifs
    · exact preAccountDynamic_failsAtLimit owned heap payload
    · exact .of_ok rfl
  · show FailsAtLimit (fun heap => (if heap.cursor ≥ heap.limit then refillSpan owned
      else pure () : HeapM Unit) heap) mid
    intro failure h
    by_cases hused : mid.cursor ≥ mid.limit
    · simp only [hused] at h
      exact refillSpan_failsAtLimit owned mid failure h
    · simp only [hused] at h
      cases h

lemma arenaOffset_failsAtLimit (heap : Heap) (len count : ℕ) :
    FailsAtLimit (arenaOffset len count) heap := by
  unfold arenaOffset
  split_ifs
  · exact failsAtLimit_raise _
  · exact .of_ok rfl

lemma allocate_failsAtLimit {heap : Heap} {payload : ℕ} {append : HeapM ℕ} {object : ℕ → Object}
    (happend : ∀ mid, ensureSlotAndBytes owned payload heap = .ok ((), mid) →
      FailsAtLimit append mid) :
    FailsAtLimit (ensureSlotAndBytes owned payload >>= fun _ => append >>= fun off =>
      writeAuthorizedSlot (object off) >>= fun value => charge payload >>= fun _ => pure value)
      heap := by
  refine (ensureSlotAndBytes_failsAtLimit owned heap payload).bind fun _ mid hmid => ?_
  refine (happend mid hmid).bind fun off after _ => ?_
  refine (writeAuthorizedSlot_failsAtLimit after (object off)).bind fun _ _ _ => ?_
  exact .of_ok rfl

lemma byteArenaAppend_failsAtLimit (heap : Heap) (bytes : List UInt8) :
    FailsAtLimit (byteArenaAppend bytes) heap := by
  show FailsAtLimit (arenaOffset heap.byteArena.length bytes.length >>= fun off =>
    set { heap with byteArena := heap.byteArena ++ bytes } >>= fun _ => pure off) heap
  exact (arenaOffset_failsAtLimit heap _ _).bind fun _ _ _ => .of_ok rfl

lemma valueArenaAppend_failsAtLimit (heap : Heap) (values : List Value) :
    FailsAtLimit (valueArenaAppend values) heap := by
  show FailsAtLimit (arenaOffset heap.valueArena.length values.length >>= fun off =>
    set { heap with valueArena := heap.valueArena ++ values } >>= fun _ => pure off) heap
  exact (arenaOffset_failsAtLimit heap _ _).bind fun _ _ _ => .of_ok rfl

lemma stringSet_failsAtLimit (heap : Heap) (value : Value) (index : ℕ) (replacement : Char) :
    FailsAtLimit (stringSet value index replacement) heap := by
  unfold stringSet
  apply FailsAtLimit.get
  cases heap.stringTarget value index with
  | none => exact .of_ok rfl
  | some target =>
    simp only
    split_ifs
    all_goals first | exact .of_ok rfl | exact failsAtLimit_raise _

variable {owned} in
lemma alloc_failsAtLimit {heap : Heap} (h : heap.Held owned) (object : Object) :
    FailsAtLimit (alloc owned object) heap := by
  intro failure hfailure
  rw [alloc_eq h object] at hfailure
  exact @allocate_failsAtLimit owned heap _ (pure 0) (fun _ => object)
    (fun _ _ => .of_ok rfl) failure hfailure

lemma allocStringFilled_failsAtLimit (heap : Heap) (fill : Char) (count : ℕ) :
    FailsAtLimit (allocStringFilled owned fill count) heap := by
  unfold allocStringFilled
  simp only
  split_ifs
  · exact failsAtLimit_raise _
  · exact (ensureSlotAndBytes_failsAtLimit owned heap _).bind fun _ _ _ => failsAtLimit_raise _
  · exact allocate_failsAtLimit owned fun mid _ => byteArenaAppend_failsAtLimit mid _

variable {owned} in
lemma allocStringConcat_failsAtLimit {heap : Heap} (h : heap.Held owned) {parts : List Value}
    {totalBytes totalChars : ℕ} (hparts : heap.Checked parts totalBytes totalChars) :
    FailsAtLimit (allocStringConcat owned parts totalBytes totalChars) heap := by
  rw [allocStringConcat_eq]
  refine allocate_failsAtLimit owned fun mid hmid => ?_
  have hsecured := ensureSlotAndBytes_held h totalBytes
  unfold Ends at hsecured
  rw [hmid] at hsecured
  obtain ⟨texts, htexts, -⟩ := hparts
  have hrun := appendParts_ends (htexts.imp fun _ _ hpart => hsecured.2.1.isPart hpart) []
  have hsame : mid.extended [] [] = mid := by simp [Heap.extended]
  show FailsAtLimit (arenaOffset mid.byteArena.length totalBytes >>= fun off =>
    appendParts parts >>= fun _ => pure off) mid
  refine (arenaOffset_failsAtLimit mid _ _).bind fun off after hafter => ?_
  obtain rfl : after = mid := by
    unfold arenaOffset at hafter
    split_ifs at hafter
    · cases hafter
    · cases hafter
      rfl
  refine FailsAtLimit.bind ?_ fun _ _ _ => .of_ok rfl
  intro failure hfailure
  unfold Ends at hrun
  rw [hsame, hfailure] at hrun
  exact hrun.elim

variable {owned} in
lemma allocPair_failsAtLimit {heap : Heap} (h : heap.Held owned) (car cdr : Value) :
    FailsAtLimit (allocPair owned car cdr) heap := by
  intro failure hfailure
  replace hfailure : allocInner owned (.pair car cdr) heap = _ := hfailure
  rw [allocInner_eq h.sound.ready] at hfailure
  have hensure : ensureSlotAndBytes owned 0 = (get : HeapM Heap) >>= fun heap =>
      if heap.cursor ≥ heap.limit then refillSpan owned else pure () := rfl
  rw [← hensure] at hfailure
  exact ((ensureSlotAndBytes_failsAtLimit owned heap 0).bind fun _ mid _ =>
    writeAuthorizedSlot_failsAtLimit mid _) failure hfailure

end FailsAtLimit

lemma perform_failsAtLimit {owned : Object → ℕ} {heap : Heap} (h : heap.Held owned)
    {op : Operation} (hp : op.Proper heap) : FailsAtLimit (op.perform owned) heap := by
  cases op with
  | alloc object => exact (alloc_failsAtLimit h object).discard
  | allocPair car cdr => exact (allocPair_failsAtLimit h car cdr).discard
  | allocVector values =>
    exact (allocate_failsAtLimit owned fun mid _ => valueArenaAppend_failsAtLimit mid _).discard
  | allocVectorFilled fill count =>
    exact (allocate_failsAtLimit owned fun mid _ => valueArenaAppend_failsAtLimit mid _).discard
  | allocBytevector bytes =>
    exact (allocate_failsAtLimit owned fun mid _ => byteArenaAppend_failsAtLimit mid _).discard
  | allocBytevectorFilled fill count =>
    exact (allocate_failsAtLimit owned fun mid _ => byteArenaAppend_failsAtLimit mid _).discard
  | allocString text =>
    exact (allocate_failsAtLimit owned fun mid _ => byteArenaAppend_failsAtLimit mid _).discard
  | allocStringFilled fill count =>
    exact (allocStringFilled_failsAtLimit owned heap fill count).discard
  | allocStringConcat parts totalBytes totalChars =>
    exact (allocStringConcat_failsAtLimit h hp).discard
  | stringSet value index replacement =>
    exact (stringSet_failsAtLimit heap value index replacement).discard
  | collect extraRoots => exact .of_ok rfl

end Neetan.Gc
