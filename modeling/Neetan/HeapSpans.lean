import Neetan.HeapValid
import Neetan.HeapAllocate

/-!
The allocator: what it hands out before the next collection is free.

While the virtual machine is active nothing is collected in an allocation, so a pair for
which there is no slot is refused again, with the same error, for as long as no collection
runs.
-/

namespace Neetan.Gc

open Neetan.Bytecode

/-! ### Outcomes of heap computations -/

/-- The computation ends with `post`, or with an error and `fail`. -/
def Ends {α : Type} (run : HeapM α) (heap : Heap) (post : α → Heap → Prop) (fail : Heap → Prop) :
    Prop :=
  match run heap with
  | .ok (value, heap') => post value heap'
  | .error (_, heap') => fail heap'

section Ends
variable {α β : Type} {heap : Heap} {run : HeapM α} {post post' : α → Heap → Prop}
  {fail fail' : Heap → Prop}

lemma Ends.pure {value : α} (h : post value heap) : Ends (pure value) heap post fail := h

lemma Ends.bind {next : α → HeapM β} {postNext : β → Heap → Prop} (h : Ends run heap post fail)
    (hnext : ∀ value heap', post value heap' → Ends (next value) heap' postNext fail) :
    Ends (run >>= next) heap postNext fail := by
  unfold Ends at h
  show match (run heap >>= fun result => next result.1 result.2) with
    | .ok (value, heap') => postNext value heap'
    | .error (_, heap') => fail heap'
  cases hr : run heap with
  | error failure =>
    rw [hr] at h
    exact h
  | ok result =>
    rw [hr] at h
    exact hnext result.1 result.2 h

lemma Ends.get {next : Heap → HeapM β} {postNext : β → Heap → Prop}
    (h : Ends (next heap) heap postNext fail) :
    Ends ((get : HeapM Heap) >>= next) heap postNext fail := h

lemma Ends.mono (h : Ends run heap post fail) (hp : ∀ value heap', post value heap' →
    post' value heap') (hf : ∀ heap', fail heap' → fail' heap') : Ends run heap post' fail' := by
  unfold Ends at h ⊢
  cases hr : run heap with
  | error failure =>
    rw [hr] at h
    exact hf _ h
  | ok result =>
    rw [hr] at h
    exact hp _ _ h

end Ends

/-! ### Free spans -/

/-- The region under the cursor and the holes are free and have no slot in common. -/
structure Heap.FreeSpans (heap : Heap) : Prop where
  limit_le : heap.limit ≤ heap.regionEnd
  region : ∀ k, heap.cursor ≤ k → k < heap.regionEnd → Vacant heap.cells k
  hole : ∀ hole ∈ heap.holes, hole.start < hole.stop ∧
    ∀ k, hole.start ≤ k → k < hole.stop → Vacant heap.cells k
  apart : ∀ hole ∈ heap.holes, ∀ k, heap.cursor ≤ k → k < heap.regionEnd →
    ¬ (hole.start ≤ k ∧ k < hole.stop)
  holesApart : heap.holes.Pairwise fun hole hole' => ∀ k, hole.start ≤ k → k < hole.stop →
    ¬ (hole'.start ≤ k ∧ k < hole'.stop)

/-- The free spans are sound and everything can be addressed. -/
structure Heap.Ready (heap : Heap) : Prop where
  spans : heap.FreeSpans
  addressable : heap.Addressable

/-- Free slots and payload have been added, and no object was touched. -/
structure Grows (heap heap' : Heap) : Prop where
  cells : ∃ n, heap'.cells = heap.cells ++ List.replicate n ⟨none, metaFree⟩
  bytes : ∃ more, heap'.byteArena = heap.byteArena ++ more
  values : ∃ more, heap'.valueArena = heap.valueArena ++ more
  currentMark : heap'.currentMark = heap.currentMark
  vmActive : heap'.vmActive = heap.vmActive

/-- Only the accounting has changed, and the authorization did not grow. -/
structure Accounts (heap heap' : Heap) : Prop where
  cells : heap'.cells = heap.cells
  bytes : heap'.byteArena = heap.byteArena
  values : heap'.valueArena = heap.valueArena
  holes : heap'.holes = heap.holes
  cursor : heap'.cursor = heap.cursor
  regionEnd : heap'.regionEnd = heap.regionEnd
  limit : heap'.limit ≤ heap.limit
  currentMark : heap'.currentMark = heap.currentMark
  vmActive : heap'.vmActive = heap.vmActive

lemma Grows.refl (heap : Heap) : Grows heap heap :=
  ⟨⟨0, by simp⟩, ⟨[], by simp⟩, ⟨[], by simp⟩, rfl, rfl⟩

lemma Grows.trans {first second third : Heap} (h : Grows first second) (h' : Grows second third) :
    Grows first third := by
  obtain ⟨⟨n, hc⟩, ⟨bytes, hb⟩, ⟨values, hv⟩, hm, ha⟩ := h
  obtain ⟨⟨n', hc'⟩, ⟨bytes', hb'⟩, ⟨values', hv'⟩, hm', ha'⟩ := h'
  exact ⟨⟨n + n', by rw [hc', hc, List.append_assoc, List.replicate_append_replicate]⟩,
    ⟨bytes ++ bytes', by rw [hb', hb, List.append_assoc]⟩,
    ⟨values ++ values', by rw [hv', hv, List.append_assoc]⟩, hm'.trans hm, ha'.trans ha⟩

lemma Accounts.grows {heap heap' : Heap} (h : Accounts heap heap') : Grows heap heap' :=
  ⟨⟨0, by simp [h.cells]⟩, ⟨[], by simp [h.bytes]⟩, ⟨[], by simp [h.values]⟩, h.currentMark,
    h.vmActive⟩

lemma Accounts.ready {heap heap' : Heap} (h : Accounts heap heap') (hr : heap.Ready) :
    heap'.Ready := by
  obtain ⟨⟨hl, hreg, hhole, hap, hha⟩, ⟨hb, hv, hc⟩⟩ := hr
  refine ⟨⟨?_, ?_, ?_, ?_, ?_⟩, ⟨by rwa [h.bytes], by rwa [h.values], by rwa [h.cells]⟩⟩
  · rw [h.regionEnd]
    exact h.limit.trans hl
  · rwa [h.cursor, h.regionEnd, h.cells]
  · rwa [h.holes, h.cells]
  · rwa [h.holes, h.cursor, h.regionEnd]
  · rwa [h.holes]

lemma accounts_retire (heap : Heap) : Accounts heap heap.retire :=
  ⟨rfl, rfl, rfl, rfl, rfl, rfl, le_rfl, rfl, rfl⟩

lemma accounts_pending (heap : Heap) (pendingCollection : Bool) :
    Accounts heap { heap with pendingCollection } :=
  ⟨rfl, rfl, rfl, rfl, rfl, rfl, le_rfl, rfl, rfl⟩

lemma Accounts.trans {first second third : Heap} (h : Accounts first second)
    (h' : Accounts second third) : Accounts first third :=
  ⟨h'.cells.trans h.cells, h'.bytes.trans h.bytes, h'.values.trans h.values,
    h'.holes.trans h.holes, h'.cursor.trans h.cursor, h'.regionEnd.trans h.regionEnd,
    h'.limit.trans h.limit, h'.currentMark.trans h.currentMark, h'.vmActive.trans h.vmActive⟩

/-! ### Authorizing -/

lemma spanBudget_pos {heap : Heap} (h : heap.allowance ≠ 0) : 0 < heap.spanBudget := by
  unfold Heap.spanBudget
  split_ifs
  · omega
  · simp only
    omega

lemma growth_spec {heap : Heap} (h : heap.cells.length < u32Max) :
    0 < heap.growth ∧ heap.cells.length + heap.growth ≤ u32Max := by
  unfold Heap.growth
  simp only
  omega

lemma authorize_spec {heap : Heap} (hr : heap.Ready) :
    Ends authorize heap
      (fun _ heap' => Grows heap heap' ∧ heap'.Ready ∧ heap'.cursor < heap'.limit)
      (fun heap' => heap' = heap) := by
  obtain ⟨⟨hl, hreg, hhole, hap, hha⟩, ⟨hb, hv, hc⟩⟩ := hr
  unfold authorize
  apply Ends.get
  split_ifs with hallow hregion
  · exact rfl
  · have hpos := spanBudget_pos hallow
    refine ⟨⟨⟨0, by simp⟩, ⟨[], by simp⟩, ⟨[], by simp⟩, rfl, rfl⟩,
      ⟨⟨?_, hreg, hhole, hap, hha⟩, ⟨hb, hv, hc⟩⟩, ?_⟩ <;> simp only <;> omega
  · have hpos := spanBudget_pos hallow
    split
    · rename_i hole holes hh
      rw [hh] at hhole hap hha
      obtain ⟨hlt, hfree⟩ := hhole hole (by simp)
      obtain ⟨hfirst, hrest⟩ := List.pairwise_cons.mp hha
      refine ⟨⟨⟨0, by simp⟩, ⟨[], by simp⟩, ⟨[], by simp⟩, rfl, rfl⟩,
        ⟨⟨?_, hfree, fun other hother => hhole other (by simp [hother]),
          fun other hother k hk hk' => hfirst other hother k hk hk', hrest⟩, ⟨hb, hv, hc⟩⟩, ?_⟩ <;>
        simp only <;> omega
    · rename_i hh
      dsimp only
      split_ifs with hfull
      · exact rfl
      · obtain ⟨hgpos, hgle⟩ := growth_spec (not_le.mp hfull)
        refine ⟨⟨⟨heap.growth, rfl⟩, ⟨[], by simp⟩, ⟨[], by simp⟩, rfl, rfl⟩,
          ⟨⟨?_, ?_, by simp [hh], by simp [hh], by simp [hh]⟩, ⟨hb, hv, ?_⟩⟩, ?_⟩
        · simp only
          omega
        · intro k hk hk'
          simp only at hk hk'
          refine ⟨⟨none, metaFree⟩, ?_, rfl⟩
          rw [List.getElem?_append_right hk, List.getElem?_replicate, if_pos (by omega)]
        · simp only [List.length_append, List.length_replicate]
          unfold u32Max at hgle
          omega
        · simp only
          omega

/-! ### Refilling -/

section Refill
variable (owned : Object → ℕ)

lemma refillSpan_spec {heap : Heap} (hr : heap.Ready)
    (hq : heap.vmActive = true ∨ ¬ heap.retire.softReached) :
    Ends (refillSpan owned) heap
      (fun _ heap' => Grows heap heap' ∧ heap'.Ready ∧ heap'.cursor < heap'.limit)
      (fun heap' => Accounts heap heap') := by
  have hauthorize : ∀ {mid : Heap}, Accounts heap mid →
      Ends authorize mid
        (fun _ heap' => Grows heap heap' ∧ heap'.Ready ∧ heap'.cursor < heap'.limit)
        (fun heap' => Accounts heap heap') := by
    intro mid hm
    refine (authorize_spec (hm.ready hr)).mono ?_ ?_
    · rintro - heap' ⟨hg, hready, hlt⟩
      exact ⟨hm.grows.trans hg, hready, hlt⟩
    · rintro heap' rfl
      exact hm
  have hretire := accounts_retire heap
  show Ends (do
    let mid ← (get : HeapM Heap)
    if mid.softReached then
      if mid.vmActive then set { mid with pendingCollection := true }
      else set (mid.collect owned).retire
    authorize) heap.retire _ _
  apply Ends.get
  split_ifs with hsoft hactive
  · exact hauthorize (hretire.trans (accounts_pending _ true))
  · rcases hq with hq | hq
    · exact absurd (hretire.vmActive.trans hq) hactive
    · exact absurd hsoft hq
  · exact hauthorize hretire

lemma preAccountDynamic_spec {heap : Heap} {dynamic : ℕ}
    (hq : heap.vmActive = true ∨
      saturatingAdd heap.totalBytes (saturatingAdd objectSize dynamic) ≤ heap.byteThreshold) :
    Ends (preAccountDynamic owned dynamic) heap (fun _ heap' => Accounts heap heap')
      (fun heap' => Accounts heap heap') := by
  have hrest : ∀ {mid : Heap}, Accounts heap mid →
      Ends (do
        let mid ← (get : HeapM Heap)
        let after := saturatingAdd mid.totalBytes (saturatingAdd objectSize dynamic)
        if after > mid.maxBytes then raise (heapLimit "heap limit exceeded")
        else
          let remainingSlots := (mid.maxBytes - after) / objectSize
          let clamp := min (min (saturatingAdd remainingSlots 1) u32Max + mid.cursor) u32Max
          set { mid with limit := min mid.limit clamp }) mid
        (fun _ heap' => Accounts heap heap') (fun heap' => Accounts heap heap') := by
    intro mid hm
    apply Ends.get
    dsimp only
    split_ifs
    · exact hm
    · exact hm.trans ⟨rfl, rfl, rfl, rfl, rfl, rfl, min_le_left _ _, rfl, rfl⟩
  unfold preAccountDynamic
  apply Ends.get
  split_ifs with hover hactive
  · exact hrest (accounts_pending heap true)
  · rcases hq with hq | hq
    · exact absurd hq hactive
    · exact absurd hover (by omega)
  · exact hrest (accounts_pending heap heap.pendingCollection)

/-- A request with this payload runs no collection: the virtual machine is active, or no soft
threshold is in the way. -/
def Quiet (heap : Heap) (payload : ℕ) : Prop :=
  heap.vmActive = true ∨
    (payload ≠ 0 → saturatingAdd heap.totalBytes (saturatingAdd objectSize payload) ≤
      heap.byteThreshold) ∧
    ∀ heap', (if payload ≠ 0 then preAccountDynamic owned payload else pure ()) heap =
      .ok ((), heap') → heap'.cursor < heap'.limit ∨ ¬ heap'.retire.softReached

lemma account_spec {heap : Heap} {payload : ℕ} (hq : Quiet owned heap payload) :
    Ends (if payload ≠ 0 then preAccountDynamic owned payload else pure ()) heap
      (fun _ heap' => Accounts heap heap' ∧
        (heap'.cursor < heap'.limit ∨ heap'.vmActive = true ∨ ¬ heap'.retire.softReached))
      (fun heap' => Accounts heap heap') := by
  have hends : Ends (if payload ≠ 0 then preAccountDynamic owned payload else pure ()) heap
      (fun _ heap' => Accounts heap heap') (fun heap' => Accounts heap heap') := by
    split_ifs with hpayload
    · exact preAccountDynamic_spec owned (hq.imp_right fun hq => hq.1 hpayload)
    · exact accounts_pending heap heap.pendingCollection
  unfold Ends at hends ⊢
  cases hrun : (if payload ≠ 0 then preAccountDynamic owned payload else pure ()) heap with
  | error failure =>
    rw [hrun] at hends
    exact hends
  | ok result =>
    rw [hrun] at hends
    refine ⟨hends, ?_⟩
    rcases hq with hq | hq
    · exact .inr (.inl (hends.vmActive.trans hq))
    · exact (hq.2 result.2 hrun).imp_right .inr

lemma ensureSlotAndBytes_spec {heap : Heap} (hr : heap.Ready) {payload : ℕ}
    (hq : Quiet owned heap payload) :
    Ends (ensureSlotAndBytes owned payload) heap
      (fun _ heap' => Grows heap heap' ∧ heap'.Ready ∧ heap'.cursor < heap'.limit)
      (fun heap' => Accounts heap heap') := by
  have hensure : ensureSlotAndBytes owned payload =
      (if payload ≠ 0 then preAccountDynamic owned payload else pure ()) >>= fun _ =>
        (get : HeapM Heap) >>= fun heap =>
          if heap.cursor ≥ heap.limit then refillSpan owned else pure () := by
    unfold ensureSlotAndBytes
    split_ifs <;> rfl
  rw [hensure]
  refine (account_spec owned hq).bind fun _ mid ⟨hm, hquiet⟩ => ?_
  apply Ends.get
  have hready := hm.ready hr
  split_ifs with hfull
  · refine (refillSpan_spec owned hready (hquiet.resolve_left (by omega))).mono ?_ ?_
    · rintro - heap' ⟨hg, hready', hlt⟩
      exact ⟨hm.grows.trans hg, hready', hlt⟩
    · exact fun heap' h => hm.trans h
  · exact ⟨hm.grows, hready, by omega⟩

end Refill

/-! ### Writing a slot -/

/-- The heap with an object in the slot under the cursor. -/
def Heap.written (heap : Heap) (object : Object) : Heap :=
  { heap with
    cells := heap.cells.set heap.cursor ⟨some object, metaYoung⟩, cursor := heap.cursor + 1 }

lemma Heap.Ready.vacant {heap : Heap} (hr : heap.Ready) (hlt : heap.cursor < heap.limit) :
    Vacant heap.cells heap.cursor :=
  hr.spans.region _ le_rfl (hlt.trans_le hr.spans.limit_le)

lemma Vacant.lt {cells : List Cell} {k : ℕ} (h : Vacant cells k) : k < cells.length := by
  obtain ⟨cell, hk, -⟩ := h
  exact (List.getElem?_eq_some_iff.mp hk).1

lemma Vacant.set {cells : List Cell} {k i : ℕ} (h : Vacant cells k) (hne : i ≠ k) (cell : Cell) :
    Vacant (cells.set i cell) k := by
  obtain ⟨other, hk, hnone⟩ := h
  exact ⟨other, by rw [List.getElem?_set_ne hne, hk], hnone⟩

/-- A refill retires the span, collects or defers that if the soft threshold is reached, and
authorizes. -/
lemma refillSpan_cases (owned : Object → ℕ) (heap : Heap) :
    refillSpan owned heap =
      if heap.retire.softReached then
        if heap.retire.vmActive then authorize { heap.retire with pendingCollection := true }
        else authorize (heap.retire.collect owned).retire
      else authorize heap.retire := by
  have hrefill : refillSpan owned heap = (do
      let mid ← (get : HeapM Heap)
      if mid.softReached then
        if mid.vmActive then set { mid with pendingCollection := true }
        else set (mid.collect owned).retire
      authorize) heap.retire := rfl
  rw [hrefill]
  change (if heap.retire.softReached then if heap.retire.vmActive then _ else _
    else _ : HeapM Unit) heap.retire = _
  split_ifs <;> rfl

lemma writeAuthorizedSlot_eq {heap : Heap} (hr : heap.Ready) (hlt : heap.cursor < heap.limit)
    (object : Object) :
    writeAuthorizedSlot object heap =
      .ok (.heap (UInt32.ofNat heap.cursor), heap.written object) := by
  have hin := (hr.vacant hlt).lt
  change (if heap.cursor < heap.limit ∧ heap.cursor < heap.cells.length then _
    else _ : HeapM Value) heap = _
  rw [if_pos ⟨hlt, hin⟩]
  rfl

lemma Heap.Ready.written {heap : Heap} (hr : heap.Ready) (hlt : heap.cursor < heap.limit)
    (object : Object) : (heap.written object).Ready := by
  obtain ⟨⟨hl, hreg, hhole, hap, hha⟩, ⟨hb, hv, hc⟩⟩ := hr
  refine ⟨⟨hl, ?_, ?_, ?_, hha⟩, ⟨hb, hv, by simpa [Heap.written] using hc⟩⟩
  · intro k hk hk'
    simp only [Heap.written] at hk hk'
    exact (hreg k (by omega) hk').set (by omega) _
  · intro hole hmem
    obtain ⟨hlt', hfree⟩ := hhole hole hmem
    refine ⟨hlt', fun k hk hk' => (hfree k hk hk').set ?_ _⟩
    rintro rfl
    exact hap hole hmem heap.cursor le_rfl (hlt.trans_le hl) ⟨hk, hk'⟩
  · intro hole hmem k hk hk'
    simp only [Heap.written] at hk hk'
    exact hap hole hmem k (by omega) hk'

/-! ### Refused pairs -/

namespace Heap

/-- No slot can be authorized, and why. -/
def Refuses (heap : Heap) (error : Error) : Prop :=
  heap.allowance = 0 ∧ error = heapLimit "heap limit exceeded" ∨
    heap.allowance ≠ 0 ∧ heap.regionEnd ≤ heap.cursor ∧ heap.holes = [] ∧
      u32Max ≤ heap.cells.length ∧ error = heapLimit "heap slot index exhausted"

/-- A request is refused: the authorized span is used up and there is no other. -/
structure Exhausted (heap : Heap) (error : Error) : Prop where
  used : heap.limit ≤ heap.cursor
  refuses : heap.retire.Refuses error

end Heap

/-! ### The authorization -/

variable {error : Error}

lemma authorize_refuses {heap : Heap} (h : heap.Refuses error) :
    authorize heap = .error (error, heap) := by
  unfold authorize
  show (if heap.allowance = 0 then _ else _ : HeapM Unit) heap = _
  rcases h with ⟨hallow, rfl⟩ | ⟨hallow, hregion, hholes, hfull, rfl⟩
  · rw [if_pos hallow]
    rfl
  · rw [if_neg hallow, if_neg (not_lt.mpr hregion), hholes]
    show (if heap.cells.length ≥ u32Max then _ else _ : HeapM Unit) heap = _
    rw [if_pos hfull]
    rfl

lemma refuses_of_authorize {heap after : Heap} (h : authorize heap = .error (error, after)) :
    heap.Refuses error ∧ after = heap := by
  unfold authorize at h
  replace h : (if heap.allowance = 0 then _ else _ : HeapM Unit) heap = _ := h
  by_cases hallow : heap.allowance = 0
  · rw [if_pos hallow] at h
    cases h
    exact ⟨.inl ⟨hallow, rfl⟩, rfl⟩
  rw [if_neg hallow] at h
  by_cases hregion : heap.cursor < heap.regionEnd
  · rw [if_pos hregion] at h
    cases h
  rw [if_neg hregion] at h
  cases hholes : heap.holes with
  | cons hole holes =>
    rw [hholes] at h
    cases h
  | nil =>
    rw [hholes] at h
    replace h : (if heap.cells.length ≥ u32Max then _ else _ : HeapM Unit) heap = _ := h
    by_cases hfull : heap.cells.length ≥ u32Max
    · rw [if_pos hfull] at h
      cases h
      exact ⟨.inr ⟨hallow, not_lt.mp hregion, hholes, hfull, rfl⟩, rfl⟩
    · rw [if_neg hfull] at h
      cases h

section
variable (owned : Object → ℕ)

/-! ### The refill -/

/-- The heap in which an active refill authorizes: the span is retired, and a soft threshold
that is reached makes a collection due. -/
def Heap.deferred (heap : Heap) : Heap :=
  { heap.retire with
    pendingCollection := decide heap.retire.softReached || heap.pendingCollection }

lemma refillSpan_active {heap : Heap} (ha : heap.vmActive = true) :
    refillSpan owned heap = authorize heap.deferred := by
  have hactive : heap.retire.vmActive = true := ha
  rw [refillSpan_cases]
  by_cases hsoft : heap.retire.softReached
  · rw [if_pos hsoft, if_pos hactive, Heap.deferred, decide_eq_true hsoft, Bool.true_or]
  · rw [if_neg hsoft, Heap.deferred, decide_eq_false hsoft, Bool.false_or]
    rfl

lemma retire_deferred (heap : Heap) : heap.deferred.retire = heap.deferred := by
  simp [Heap.deferred, Heap.retire]

lemma deferred_deferred (heap : Heap) : heap.deferred.deferred = heap.deferred := by
  have hpending : (decide heap.deferred.softReached || heap.deferred.pendingCollection) =
      heap.deferred.pendingCollection := by
    have hsoft : heap.deferred.softReached ↔ heap.retire.softReached := Iff.rfl
    by_cases h : heap.retire.softReached
    · simp [Heap.deferred, h]
    · simp [hsoft, h]
  show { heap.deferred.retire with
    pendingCollection :=
      decide heap.deferred.retire.softReached || heap.deferred.pendingCollection } = _
  rw [retire_deferred, hpending]

/-! ### The request -/

lemma allocInner_used {heap : Heap} (h : heap.limit ≤ heap.cursor) (object : Object) :
    allocInner owned object heap =
      (refillSpan owned >>= fun _ => writeAuthorizedSlot object) heap := by
  have hin : ¬ (heap.cursor < heap.limit ∧ heap.cursor < heap.cells.length) := by omega
  show (if heap.cursor < heap.limit ∧ heap.cursor < heap.cells.length then
    writeAuthorizedSlot object else _ : HeapM Value) heap = _
  rw [if_neg hin]

lemma Heap.Exhausted.deferred {heap : Heap} (h : heap.Exhausted error) :
    heap.deferred.Exhausted error := by
  refine ⟨h.used, ?_⟩
  rw [retire_deferred]
  exact h.refuses

lemma allocPair_exhausted {heap : Heap} (ha : heap.vmActive = true) (h : heap.Exhausted error)
    (car cdr : Value) :
    allocPair owned car cdr heap = .error (error, heap.deferred) := by
  have hauthorize : authorize heap.deferred = .error (error, heap.deferred) :=
    authorize_refuses h.refuses
  show allocInner owned (.pair car cdr) heap = _
  rw [allocInner_used owned h.used]
  show (refillSpan owned heap >>= fun result =>
    writeAuthorizedSlot (.pair car cdr) result.2) = _
  rw [refillSpan_active owned ha, hauthorize]
  rfl

lemma exhausted_of_allocPair {heap after : Heap} (ha : heap.vmActive = true) (hr : heap.Ready)
    {car cdr : Value} (h : allocPair owned car cdr heap = .error (error, after)) :
    heap.Exhausted error := by
  replace h : allocInner owned (.pair car cdr) heap = _ := h
  by_cases hlt : heap.cursor < heap.limit
  · -- there is a slot
    have hin := (hr.vacant hlt).lt
    have hwrite := writeAuthorizedSlot_eq hr hlt (.pair car cdr)
    replace h : (if heap.cursor < heap.limit ∧ heap.cursor < heap.cells.length then
      writeAuthorizedSlot (.pair car cdr) else _ : HeapM Value) heap = _ := h
    rw [if_pos ⟨hlt, hin⟩, hwrite] at h
    cases h
  rw [allocInner_used owned (not_lt.mp hlt)] at h
  replace h : (refillSpan owned heap >>= fun result =>
    writeAuthorizedSlot (.pair car cdr) result.2) = _ := h
  have hspec := refillSpan_spec owned hr (.inl ha)
  unfold Ends at hspec
  cases hrefill : refillSpan owned heap with
  | ok result =>
    rw [hrefill] at h hspec
    obtain ⟨-, hready, hroom⟩ := hspec
    replace h : writeAuthorizedSlot (.pair car cdr) result.2 = _ := h
    rw [writeAuthorizedSlot_eq hready hroom] at h
    cases h
  | error failure =>
    rw [hrefill] at h
    cases h
    rw [refillSpan_active owned ha] at hrefill
    exact ⟨not_lt.mp hlt, (refuses_of_authorize hrefill).1⟩

/-- A refused pair is refused again, and a third request finds the same heap. -/
lemma allocPair_refused {heap after : Heap} (ha : heap.vmActive = true) (hr : heap.Ready)
    {car cdr : Value} (h : allocPair owned car cdr heap = .error (error, after)) :
    after.vmActive = true ∧ after.Exhausted error ∧
      allocPair owned car cdr after = .error (error, after) := by
  have hexhausted := exhausted_of_allocPair owned ha hr h
  rw [allocPair_exhausted owned ha hexhausted] at h
  cases h
  refine ⟨ha, hexhausted.deferred, ?_⟩
  have hactive : heap.deferred.vmActive = true := ha
  have hagain := allocPair_exhausted owned hactive hexhausted.deferred car cdr
  rwa [deferred_deferred] at hagain

end

end Neetan.Gc
