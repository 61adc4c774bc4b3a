import Neetan.HeapSessions

/-!
The limits over whole runs.

A run starts with a fresh heap. Between the operations the program may write the objects it
has, the engine may change the roots, and the virtual machine may be entered and left.
-/

namespace Neetan.Gc

open Neetan.Bytecode

/-! ### Runs -/

/-- The program has written objects: no slot is taken or freed, and no object has grown. -/
structure Rewrites (owned : Object → ℕ) (before after : Heap) : Prop where
  mutates : Mutates before after
  occupied : occupied (slotsOf after.cells) ≤ occupied (slotsOf before.cells)
  payloads : payloads owned (slotsOf after.cells) ≤ payloads owned (slotsOf before.cells)
  limit : after.limit = before.limit
  authStart : after.authStart = before.authStart
  liveBase : after.liveBase = before.liveBase
  dynamicBytes : after.dynamicBytes = before.dynamicBytes
  maxSlots : after.maxSlots = before.maxSlots
  maxBytes : after.maxBytes = before.maxBytes

/-- The heaps of a run. What is carried out must be admitted; what fails need not be. -/
inductive Session (boxed : Object → ℕ) (limits : Limits)
    (admits : Heap → Operation → Prop) : Heap → Prop
  | fresh : Session boxed limits admits (.new limits)
  | carry {heap after : Heap} {op : Operation} : Session boxed limits admits heap →
    op.Proper heap → admits heap op → op.perform (owns boxed) heap = .ok ((), after) →
    Session boxed limits admits after
  | fail {heap after : Heap} {op : Operation} {error : Error} :
    Session boxed limits admits heap → op.Proper heap →
    op.perform (owns boxed) heap = .error (error, after) → Session boxed limits admits after
  | write {heap after : Heap} : Session boxed limits admits heap →
    Rewrites (owns boxed) heap after → Session boxed limits admits after
  | roots {heap : Heap} (temporaryRoots hostRoots engineRoots : List Value) :
    Session boxed limits admits heap →
    Session boxed limits admits { heap with temporaryRoots, hostRoots, engineRoots }
  | enter {heap : Heap} (vmActive : Bool) : Session boxed limits admits heap →
    Session boxed limits admits { heap with vmActive }

/-- Operations, one after the other. -/
def performAll (owned : Object → ℕ) : List Operation → HeapM Unit
  | [] => pure ()
  | op :: ops => do
    op.perform owned
    performAll owned ops

lemma Session.performAll {boxed : Object → ℕ} {limits : Limits}
    {admits : Heap → Operation → Prop} {heap after : Heap} (h : Session boxed limits admits heap)
    {ops : List Operation} (hops : ∀ op ∈ ops, ∀ heap, op.Proper heap ∧ admits heap op)
    (hrun : performAll (owns boxed) ops heap = .ok ((), after)) :
    Session boxed limits admits after := by
  induction ops generalizing heap with
  | nil =>
    cases hrun
    exact h
  | cons op ops ih =>
    obtain ⟨hproper, hadmits⟩ := hops op List.mem_cons_self heap
    replace hrun : (op.perform (owns boxed) heap >>= fun result =>
      Gc.performAll (owns boxed) ops result.2) = _ := hrun
    cases hstep : op.perform (owns boxed) heap with
    | error failure =>
      rw [hstep] at hrun
      cases hrun
    | ok result =>
      rw [hstep] at hrun
      exact ih (h.carry hproper hadmits hstep) (fun op hop => hops op (List.mem_cons_of_mem _ hop))
        hrun

/-! ### The invariant -/

lemma new_held (owned : Object → ℕ) (limits : Limits) :
    (Heap.new limits).Held owned ∧ (Heap.new limits).Spare 0 := by
  refine ⟨⟨⟨⟨?_, ?_, List.Pairwise.nil, List.Pairwise.nil, ?_⟩,
    ⟨⟨le_rfl, ?_, ?_, ?_, List.Pairwise.nil⟩, ⟨by simp [Heap.new], by simp [Heap.new],
      by simp [Heap.new]⟩⟩, ?_⟩, le_rfl, le_rfl, Nat.zero_le _, Nat.zero_le _⟩, Nat.zero_le _⟩
  · intro cell hcell
    cases hcell
  · intro object hobject
    cases hobject
  · intro object hobject
    cases hobject
  · exact fun k _ hk => absurd hk (Nat.not_lt_zero k)
  · intro hole hhole
    cases hhole
  · intro hole hhole
    cases hhole
  · rintro k ⟨cell, hk, -⟩
    simp [Heap.new] at hk

lemma Heap.Held.rewrites {owned : Object → ℕ} {heap after : Heap} (h : heap.Held owned)
    (hw : Rewrites owned heap after) :
    after.Held owned ∧ (heap.Spare 0 → after.Spare 0) := by
  have hcursor := hw.mutates.cursor
  have hlive : after.liveSlots = heap.liveSlots := by
    rw [Heap.liveSlots, Heap.liveSlots, hw.liveBase, hcursor, hw.authStart]
  have htotal : after.totalBytes = heap.totalBytes := by
    rw [Heap.totalBytes, Heap.totalBytes, hlive, hw.dynamicBytes]
  refine ⟨⟨hw.mutates.sound h.sound, ?_, ?_, ?_, ?_⟩, ?_⟩
  · rw [hcursor, hw.authStart]
    exact h.began
  · rw [hlive]
    exact hw.occupied.trans h.slots
  · rw [hlive, htotal]
    exact (min_le_min_right _ (Nat.add_le_add_left hw.payloads _)).trans h.bytes
  · rw [hlive, hcursor, hw.limit, hw.maxSlots]
    exact h.room
  · unfold Heap.Spare
    rw [htotal, hcursor, hw.limit, hw.maxBytes]
    exact fun h => h

lemma Heap.Held.withRoots {owned : Object → ℕ} {heap : Heap} (h : heap.Held owned)
    (temporaryRoots hostRoots engineRoots : List Value) :
    ({ heap with temporaryRoots, hostRoots, engineRoots } : Heap).Held owned := by
  obtain ⟨⟨hv, ⟨⟨hl, hreg, hhole, hap, hha⟩, hr⟩, hf⟩, hbegan, hslots, hbytes, hroom⟩ := h
  exact ⟨⟨⟨hv.1, hv.2, hv.3, hv.4, hv.5⟩, ⟨⟨hl, hreg, hhole, hap, hha⟩, ⟨hr.1, hr.2, hr.3⟩⟩, hf⟩,
    hbegan, hslots, hbytes, hroom⟩

lemma Heap.Held.withActive {owned : Object → ℕ} {heap : Heap} (h : heap.Held owned)
    (vmActive : Bool) : ({ heap with vmActive } : Heap).Held owned := by
  obtain ⟨⟨hv, ⟨⟨hl, hreg, hhole, hap, hha⟩, hr⟩, hf⟩, hbegan, hslots, hbytes, hroom⟩ := h
  exact ⟨⟨⟨hv.1, hv.2, hv.3, hv.4, hv.5⟩, ⟨⟨hl, hreg, hhole, hap, hha⟩, ⟨hr.1, hr.2, hr.3⟩⟩, hf⟩,
    hbegan, hslots, hbytes, hroom⟩

lemma Session.held {boxed : Object → ℕ} {limits : Limits} {admits : Heap → Operation → Prop}
    {heap : Heap} (h : Session boxed limits admits heap) :
    heap.Held (owns boxed) ∧ heap.maxSlots = limits.maxHeapSlots ∧
      heap.maxBytes = limits.maxHeapBytes ∧
      ((∀ (heap : Heap) (op : Operation), admits heap op → op.LeavesRoom (owns boxed) heap) →
        heap.Spare 0) := by
  induction h with
  | fresh =>
    obtain ⟨hheld, hspare⟩ := new_held (owns boxed) limits
    exact ⟨hheld, rfl, rfl, fun _ => hspare⟩
  | @carry heap after op _ hproper hadmits hrun ih =>
    obtain ⟨hheld, hslots, hbytes, hspare⟩ := ih
    have hcarried := perform_held hheld hproper
    unfold Ends at hcarried
    rw [hrun] at hcarried
    obtain ⟨hafter, hslots', hbytes', hiff⟩ := hcarried
    exact ⟨hafter, hslots'.trans hslots, hbytes'.trans hbytes,
      fun hroom => (hiff (hspare hroom)).mpr (hroom heap op hadmits)⟩
  | fail _ hproper hrun ih =>
    obtain ⟨hheld, hslots, hbytes, hspare⟩ := ih
    have hfailed := perform_held hheld hproper
    unfold Ends at hfailed
    rw [hrun] at hfailed
    obtain ⟨hafter, hkeeps, hkept⟩ := hfailed
    exact ⟨hafter, hkeeps.maxSlots.trans hslots, hkeeps.maxBytes.trans hbytes,
      fun hroom => hkept (hspare hroom)⟩
  | write _ hwrites ih =>
    obtain ⟨hheld, hslots, hbytes, hspare⟩ := ih
    obtain ⟨hafter, hkept⟩ := hheld.rewrites hwrites
    exact ⟨hafter, hwrites.maxSlots.trans hslots, hwrites.maxBytes.trans hbytes,
      fun hroom => hkept (hspare hroom)⟩
  | roots temporaryRoots hostRoots engineRoots _ ih =>
    exact ⟨ih.1.withRoots temporaryRoots hostRoots engineRoots, ih.2⟩
  | enter vmActive _ ih => exact ⟨ih.1.withActive vmActive, ih.2⟩

/-! ### What follows an operation -/

/-- Pairs, one after the other. -/
def allocPairs (owned : Object → ℕ) : ℕ → HeapM Unit
  | 0 => pure ()
  | n + 1 => do
    let _ ← allocPair owned .nil .nil
    allocPairs owned n

section
variable {boxed : Object → ℕ} {heap : Heap}

lemma allocPairs_spare (h : heap.Held (owns boxed)) (hspare : heap.Spare 0) (n : ℕ) :
    Ends (allocPairs (owns boxed) n) heap
      (fun _ after => after.totalBytes ≤ after.maxBytes ∧ after.maxBytes = heap.maxBytes)
      (fun _ => True) := by
  induction n generalizing heap with
  | zero => exact ⟨hspare.total, rfl⟩
  | succ n ih =>
    refine ((allocPair_held h rfl).mono (fun _ _ h => h) fun _ _ => trivial).bind
      fun _ after ⟨hafter, _, hbytes, hiff⟩ => ?_
    refine (ih hafter ((hiff hspare).mpr fun hne => absurd rfl hne)).mono ?_ fun _ h => h
    rintro _ last ⟨hle, hsame⟩
    exact ⟨hle, hsame.trans hbytes⟩

lemma allocPairs_span (h : heap.Held (owns boxed)) {n : ℕ} (hn : n ≤ heap.limit - heap.cursor) :
    ∃ after, allocPairs (owns boxed) n heap = .ok ((), after) ∧
      after.totalBytes = saturatingAdd heap.totalBytes (objectSize * n) := by
  induction n generalizing heap with
  | zero =>
    refine ⟨heap, rfl, ?_⟩
    have htotal : heap.totalBytes ≤ usizeMax := min_le_right _ _
    unfold saturatingAdd
    omega
  | succ n ih =>
    have hlt : heap.cursor < heap.limit := by omega
    obtain ⟨hheld, -⟩ := @chargedFor_held (owns boxed) heap (.pair .nil .nil) 0 heap.dynamicBytes h
      hlt (fits_plain rfl rfl) le_rfl rfl
    have hcharged : heap.chargedFor (.pair .nil .nil) heap.dynamicBytes =
        heap.written (.pair .nil .nil) := rfl
    rw [hcharged] at hheld
    have hstep : allocPair (owns boxed) .nil .nil heap =
        .ok (.heap (UInt32.ofNat heap.cursor), heap.written (.pair .nil .nil)) := by
      show (if heap.cursor < heap.limit ∧ heap.cursor < heap.cells.length then
        writeAuthorizedSlot (.pair .nil .nil) else _ : HeapM Value) heap = _
      rw [if_pos ⟨hlt, (h.sound.ready.vacant hlt).lt⟩, writeAuthorizedSlot_eq h.sound.ready hlt]
    obtain ⟨after, hrun, htotal⟩ := @ih (heap.written (.pair .nil .nil)) hheld (by
      show n ≤ heap.limit - (heap.cursor + 1)
      omega)
    refine ⟨after, ?_, ?_⟩
    · show (allocPair (owns boxed) .nil .nil heap >>= fun result =>
        allocPairs (owns boxed) n result.2) = _
      rw [hstep]
      exact hrun
    · have hlive := written_liveSlots h.began (.pair .nil .nil)
      have hdynamic : (heap.written (.pair .nil .nil)).dynamicBytes = heap.dynamicBytes := rfl
      rw [htotal, Heap.totalBytes, hlive, hdynamic, Heap.totalBytes]
      unfold saturatingAdd saturatingMul
      generalize usizeMax = top
      unfold objectSize
      omega

/-- The byte limit covers the span exactly when no number of pairs overruns it. -/
lemma spare_iff_pairs (h : heap.Held (owns boxed)) :
    heap.Spare 0 ↔ ∀ n after, allocPairs (owns boxed) n heap = .ok ((), after) →
      after.totalBytes ≤ heap.maxBytes := by
  constructor
  · intro hspare n after hrun
    have hends := allocPairs_spare h hspare n
    unfold Ends at hends
    rw [hrun] at hends
    exact hends.1.trans hends.2.le
  · intro hall
    obtain ⟨after, hrun, htotal⟩ := allocPairs_span h le_rfl
    have hle := hall _ after hrun
    rw [htotal] at hle
    exact hle

end

/-! ### The limits -/

/-- **The limits of a heap**: the slot limit holds after every operation, and an operation
that fails does so at a limit and leaves every live object as it was. The byte limit holds
in every run that charges only what leaves room for the span ahead of the cursor, and an
operation that does not leave room is followed by pairs that overrun it. -/
theorem within_limits {boxed : Object → ℕ} {limits : Limits} {admits : Heap → Operation → Prop}
    {heap : Heap} (hrun : Session boxed limits admits heap) :
    heap.liveSlots ≤ limits.maxHeapSlots ∧
    (∀ (op : Operation) (error : Error) (after : Heap), op.Proper heap →
      op.perform (owns boxed) heap = .error (error, after) →
      error.kind = .heapLimitExceeded ∧
        ∀ i, heap.Secure i → after.contents i = heap.contents i) ∧
    ((∀ (heap : Heap) (op : Operation), admits heap op → op.LeavesRoom (owns boxed) heap) →
      heap.totalBytes ≤ limits.maxHeapBytes ∧
      ∀ (op : Operation) (after : Heap), op.Proper heap →
        op.perform (owns boxed) heap = .ok ((), after) → (op.LeavesRoom (owns boxed) heap ↔
          ∀ n last, allocPairs (owns boxed) n after = .ok ((), last) →
            last.totalBytes ≤ limits.maxHeapBytes)) := by
  obtain ⟨hheld, hslots, hbytes, hspare⟩ := hrun.held
  refine ⟨?_, fun op error after hproper hfail => ?_, fun hroom => ⟨?_, ?_⟩⟩
  · rw [← hslots]
    exact (Nat.le_add_right _ _).trans hheld.room
  · refine ⟨perform_failsAtLimit hheld hproper _ hfail, ?_⟩
    have hends := perform_held hheld hproper
    unfold Ends at hends
    rw [hfail] at hends
    exact hends.2.1.contents
  · rw [← hbytes]
    exact (hspare hroom).total
  · intro op after hproper hok
    have hends := perform_held hheld hproper
    unfold Ends at hends
    rw [hok] at hends
    obtain ⟨hafter, -, hbytes', hiff⟩ := hends
    rw [← hiff (hspare hroom), spare_iff_pairs hafter, hbytes', hbytes]

lemma exists_of_total {run : HeapM Unit} {heap : Heap} {total : ℕ}
    (h : ((run heap).toOption.map fun result => result.2.totalBytes) = some total) :
    ∃ after, run heap = .ok ((), after) ∧ after.totalBytes = total := by
  cases hrun : run heap with
  | error failure =>
    rw [hrun] at h
    cases h
  | ok result =>
    rw [hrun] at h
    exact ⟨result.2, rfl, Option.some.inj h⟩

/-- A payload that leaves room for the span ahead of the cursor, and any pairs behind it. -/
theorem within_limits_payload : ∃ heap : Heap,
    (Operation.allocBytevectorFilled 0 104).perform (owns fun _ => 0) (.new ⟨4, 4, 400⟩) =
      .ok ((), heap) ∧
    heap.liveSlots ≤ 4 ∧ heap.totalBytes ≤ 400 ∧
    ∀ n last, allocPairs (owns fun _ => 0) n heap = .ok ((), last) → last.totalBytes ≤ 400 := by
  obtain ⟨heap, hrun, -⟩ := @exists_of_total
    ((Operation.allocBytevectorFilled 0 104).perform (owns fun _ => 0)) (.new ⟨4, 4, 400⟩) 152
    (by decide +kernel)
  have hproper : (Operation.allocBytevectorFilled 0 104).Proper (.new ⟨4, 4, 400⟩) := trivial
  have hroom : (Operation.allocBytevectorFilled 0 104).LeavesRoom (owns fun _ => 0)
      (.new ⟨4, 4, 400⟩) := fun _ => .inr (by decide +kernel)
  have hfresh : Session (fun _ => 0) ⟨4, 4, 400⟩
      (fun heap op => op.LeavesRoom (owns fun _ => 0) heap) (.new ⟨4, 4, 400⟩) := .fresh
  have hafter := within_limits (hfresh.carry hproper hroom hrun)
  exact ⟨heap, hrun, hafter.1, (hafter.2.2 fun _ _ h => h).1,
    (((within_limits hfresh).2.2 fun _ _ h => h).2 _ _ hproper hrun).1 hroom⟩

/-- A bytevector whose span is refilled for it, and two pairs. -/
theorem not_within_limits : ¬ ∀ (boxed : Object → ℕ) (limits : Limits) (heap : Heap),
    Session boxed limits (fun _ _ => True) heap →
      heap.liveSlots ≤ limits.maxHeapSlots ∧ heap.totalBytes ≤ limits.maxHeapBytes := by
  intro h
  obtain ⟨heap, hrun, htotal⟩ := @exists_of_total (performAll (owns fun _ => 0)
    [.allocBytevectorFilled 0 104, .allocPair .nil .nil, .allocPair .nil .nil])
    (.new ⟨8, 8, 200⟩) 248 (by decide +kernel)
  have hfresh : Session (fun _ => 0) ⟨8, 8, 200⟩ (fun _ _ => True) (.new ⟨8, 8, 200⟩) := .fresh
  have hover := (h _ _ _ (hfresh.performAll (by
    intro op hop heap
    simp only [List.mem_cons, List.not_mem_nil, or_false] at hop
    rcases hop with rfl | rfl | rfl <;> exact ⟨trivial, trivial⟩) hrun)).2
  rw [htotal] at hover
  exact absurd hover (by decide)

end Neetan.Gc
