import Neetan.HeapSessions
import Neetan.VmCalls

/-!
Which clause of a case-lambda a call enters.

In every reachable machine a frame runs a clause of its procedure. The shortcut for calls of the
running procedure keeps that clause whenever it accepts the arguments, so it misses a clause in
front of it that accepts them too; all other calls enter the first clause that does.
-/

namespace Neetan.Calls

open Neetan.Bytecode Neetan.Gc

variable {A : Type} {owned : Object → ℕ}

/-! ### What an allocation leaves -/

/-- A request inside of the virtual machine left all objects there were. -/
structure Steady (before after : Heap) : Prop where
  object : ∀ value object, before.object value = some object → after.object value = some object
  ready : after.Ready
  vmActive : after.vmActive = true

/-- The heap inside of the virtual machine. -/
structure Active (heap : Heap) : Prop where
  ready : heap.Ready
  vmActive : heap.vmActive = true

lemma Active.steady {heap : Heap} (h : Active heap) : Steady heap heap :=
  ⟨fun _ _ ho => ho, h.ready, h.vmActive⟩

variable {clauses : List Value} {procedure value : Value} {closure : Closure} {site site₁ : Site A}
  {frame : Frame A} {before : Heap} {count : ℕ} {outcome : Except Error (Vm A)} {vm₁ : Vm A}

lemma Steady.active {after : Heap} (h : Steady before after) : Active after :=
  ⟨h.ready, h.vmActive⟩

lemma Steady.trans {first second third : Heap} (h : Steady first second)
    (h' : Steady second third) : Steady first third :=
  ⟨fun _ _ ho => h'.object _ _ (h.object _ _ ho), h'.ready, h'.vmActive⟩

lemma object_eq_some {heap : Heap} {object : Object} :
    heap.object value = some object ↔ ∃ reference cell, value.heapRef = some reference ∧
      heap.cells[reference.toNat]? = some cell ∧ cell.slot = some object := by
  unfold Heap.object
  simp only [bind, Option.bind_eq_some_iff]
  constructor
  · rintro ⟨reference, href, cell, hcell, hslot⟩
    exact ⟨reference, cell, href, hcell, hslot⟩
  · rintro ⟨reference, cell, href, hcell, hslot⟩
    exact ⟨reference, href, cell, hcell, hslot⟩

lemma grows_object {heap heap' : Heap} (h : Grows heap heap') {object : Object}
    (ho : heap.object value = some object) : heap'.object value = some object := by
  obtain ⟨reference, cell, href, hcell, hslot⟩ := object_eq_some.mp ho
  obtain ⟨n, hn⟩ := h.cells
  refine object_eq_some.mpr ⟨reference, cell, href, ?_, hslot⟩
  rw [hn, List.getElem?_append_left (List.getElem?_eq_some_iff.mp hcell).1, hcell]

lemma grows_steady {heap heap' : Heap} (h : Grows heap heap') (hr : heap'.Ready)
    (ha : heap.vmActive = true) : Steady heap heap' :=
  ⟨fun _ _ ho => grows_object h ho, hr, h.vmActive.trans ha⟩

lemma written_steady {heap : Heap} (hr : heap.Ready) (ha : heap.vmActive = true)
    (hlt : heap.cursor < heap.limit) (object : Object) : Steady heap (heap.written object) := by
  refine ⟨fun value other ho => ?_, hr.written hlt object, ha⟩
  obtain ⟨reference, cell, href, hcell, hslot⟩ := object_eq_some.mp ho
  refine object_eq_some.mpr ⟨reference, cell, href, ?_, hslot⟩
  have hne : heap.cursor ≠ reference.toNat := by
    intro heq
    obtain ⟨vacant, hvacant, hnone⟩ := hr.vacant hlt
    rw [heq, hcell] at hvacant
    obtain rfl := Option.some.inj hvacant
    rw [hslot] at hnone
    cases hnone
  rw [Heap.written, List.getElem?_set_ne hne, hcell]

lemma allocInner_steady {heap : Heap} (hb : Steady before heap) (object : Object) :
    Ends (allocInner owned object) heap (fun _ after => Steady before after)
      (fun after => Steady before after) := by
  refine (allocInner_spec owned (Grows.refl heap) hb.ready (.inr (.inl hb.vmActive)) object).mono
    ?_ ?_
  · rintro value after ⟨last, hg, hr, hlt, -, rfl⟩
    have hlast := grows_steady hg hr hb.vmActive
    exact (hb.trans hlast).trans (written_steady hr hlast.vmActive hlt object)
  · rintro after ⟨hg, hr⟩
    exact hb.trans (grows_steady hg hr hb.vmActive)

lemma alloc_steady {heap : Heap} (hb : Steady before heap) (object : Object) :
    Ends (alloc owned object) heap (fun _ after => Steady before after)
      (fun after => Steady before after) := by
  rw [alloc_bind]
  have hmid : ∀ mid, Accounts heap mid → Steady before mid := fun mid hm =>
    hb.trans (grows_steady hm.grows (hm.ready hb.ready) hb.vmActive)
  have hquiet : Quiet owned heap (object.bytes owned - objectSize) := .inl hb.vmActive
  have haccount : Ends (if object.bytes owned - objectSize ≠ 0 then
      preAccountDynamic owned (object.bytes owned - objectSize) else pure ()) heap
      (fun _ mid => Steady before mid) (fun mid => Steady before mid) :=
    (account_spec owned hquiet).mono (fun _ mid h => hmid mid h.1) fun mid h => hmid mid h
  refine haccount.bind fun _ mid hsteady => ?_
  refine (allocInner_steady hsteady object).bind fun value after hafter => ?_
  have hcharged := accounts_charge after (object.bytes owned - objectSize)
  exact hafter.trans (grows_steady hcharged.grows (hcharged.ready hafter.ready) hafter.vmActive)

lemma restList_steady {heap : Heap} (hb : Steady before heap) (values : List Value) :
    Ends (restList owned values) heap (fun _ after => Steady before after)
      (fun after => Steady before after) := by
  induction values with
  | nil => exact .pure hb
  | cons value values ih =>
    exact ih.bind fun rest _ hrest => allocInner_steady hrest (.pair value rest)

lemma boxFrameLocals_steady (base : ℕ) (indices : List UInt8) :
    ∀ {heap : Heap}, Steady before heap → ∀ stack : ℕ → Value,
      Ends (boxFrameLocals owned base indices stack) heap (fun _ after => Steady before after)
        (fun after => Steady before after) := by
  induction indices with
  | nil => exact fun hb stack => .pure hb
  | cons index indices ih =>
    intro heap hb stack
    exact (alloc_steady hb _).bind fun _ _ hcell => ih hcell _

lemma storeRest_steady {heap : Heap} (hb : Steady before heap) (arity : Arity) (base count : ℕ)
    (stack : ℕ → Value) :
    Ends (storeRest owned arity base count stack) heap (fun _ after => Steady before after)
      (fun after => Steady before after) := by
  unfold storeRest
  split_ifs
  · exact (restList_steady hb _).bind fun _ _ hrest => .pure hrest
  · exact .pure hb

variable (owned) in
lemma settle_steady {heap : Heap} (h : Active heap) (closure : Closure) (base count : ℕ)
    (stack : ℕ → Value) :
    Ends (settle owned closure base count stack) heap (fun _ after => Steady heap after)
      (fun after => Steady heap after) :=
  (storeRest_steady h.steady _ _ _ _).bind fun _ _ hrest =>
    boxFrameLocals_steady base closure.chunk.boxedLocals hrest _

/-! ### How an allocation fails -/

lemma allocInner_failsAtLimit (heap : Heap) (object : Object) :
    FailsAtLimit (allocInner owned object) heap := by
  unfold allocInner
  apply FailsAtLimit.get
  split_ifs
  · exact writeAuthorizedSlot_failsAtLimit heap object
  · exact (refillSpan_failsAtLimit owned heap).bind fun _ after _ =>
      writeAuthorizedSlot_failsAtLimit after object

lemma anyAlloc_failsAtLimit (heap : Heap) (object : Object) :
    FailsAtLimit (alloc owned object) heap := by
  rw [alloc_bind]
  refine FailsAtLimit.bind ?_ fun _ after _ => ?_
  · split_ifs
    · exact preAccountDynamic_failsAtLimit owned heap _
    · exact .of_ok rfl
  · exact (allocInner_failsAtLimit after object).bind fun _ _ _ => .of_ok rfl

lemma restList_failsAtLimit (values : List Value) :
    ∀ heap, FailsAtLimit (restList owned values) heap := by
  induction values with
  | nil => exact fun heap => .of_ok rfl
  | cons value values ih =>
    exact fun heap => (ih heap).bind fun _ after _ => allocInner_failsAtLimit after _

lemma boxFrameLocals_failsAtLimit (base : ℕ) (indices : List UInt8) :
    ∀ (stack : ℕ → Value) heap, FailsAtLimit (boxFrameLocals owned base indices stack) heap := by
  induction indices with
  | nil => exact fun stack heap => .of_ok rfl
  | cons index indices ih =>
    exact fun stack heap => (anyAlloc_failsAtLimit heap _).bind fun _ after _ => ih _ after

variable (owned) in
lemma settle_failsAtLimit (closure : Closure) (base count : ℕ) (stack : ℕ → Value) (heap : Heap) :
    FailsAtLimit (settle owned closure base count stack) heap := by
  refine FailsAtLimit.bind ?_ fun stack after _ => boxFrameLocals_failsAtLimit base _ stack after
  unfold storeRest
  split_ifs
  · exact (restList_failsAtLimit _ heap).bind fun _ _ _ => .of_ok rfl
  · exact .of_ok rfl

/-! ### Entering a closure -/

/-- The closure runs as the procedure, in a new frame or in the running one. -/
structure Entered (vm : Vm A) (procedure : Value) (closure : Closure) (vm' : Vm A) : Prop where
  frames : ∃ frame frames, vm'.frames = frame :: frames ∧ frame.closure = closure ∧
    frame.procedure = procedure ∧ frame.pc = 0 ∧
    (frames = vm.frames ∨ ∃ running, vm.frames = running :: frames)
  heap : Steady vm.heap vm'.heap

/-- The closure is entered, or the heap has no room for its rest list or its boxes. -/
def Enters (vm : Vm A) (procedure : Value) (closure : Closure) :
    Except Error (Vm A) → Prop
  | .ok vm' => Entered vm procedure closure vm'
  | .error error => error.kind = .heapLimitExceeded

lemma pushFrame_enters {vm : Vm A} (h : Active vm.heap) (site : Site A) (procedure : Value)
    (closure : Closure) :
    Enters vm procedure closure (pushFrame owned vm site procedure closure) := by
  have hsteady := settle_steady owned h closure (site.callBase + 1) site.count vm.stack
  have hfails := settle_failsAtLimit owned closure (site.callBase + 1) site.count
    vm.stack vm.heap
  unfold Ends at hsteady
  unfold pushFrame
  dsimp only
  cases hrun : settle owned closure (site.callBase + 1) site.count vm.stack vm.heap with
  | error failure => exact hfails failure hrun
  | ok result =>
    rw [hrun] at hsteady
    exact ⟨⟨_, _, rfl, rfl, rfl, rfl, .inl rfl⟩, hsteady⟩

lemma reenterFrame_enters {vm : Vm A} (h : Active vm.heap) {frames : List (Frame A)}
    (hf : vm.frames = frame :: frames) (site : Site A) (procedure : Value) (closure : Closure) :
    Enters vm procedure closure (reenterFrame owned vm frame frames site procedure closure) := by
  have hsteady := settle_steady owned h closure frame.base site.count
    (shiftArgumentsDown vm.stack (site.callBase + 1) frame.base site.count)
  have hfails := settle_failsAtLimit owned closure frame.base site.count
    (shiftArgumentsDown vm.stack (site.callBase + 1) frame.base site.count) vm.heap
  unfold Ends at hsteady
  unfold reenterFrame
  dsimp only
  cases hrun : settle owned closure frame.base site.count
      (shiftArgumentsDown vm.stack (site.callBase + 1) frame.base site.count) vm.heap with
  | error failure => exact hfails failure hrun
  | ok result =>
    rw [hrun] at hsteady
    exact ⟨⟨_, _, rfl, rfl, rfl, rfl, .inr ⟨frame, hf⟩⟩, hsteady⟩

lemma prepareClosureCall_enters {vm : Vm A} (h : Active vm.heap) (site : Site A)
    (procedure : Value) (closure : Closure) :
    Enters vm procedure closure (prepareClosureCall owned vm site procedure closure) := by
  unfold prepareClosureCall
  split
  · next hf => exact reenterFrame_enters h hf site procedure closure
  · exact pushFrame_enters h site procedure closure

lemma prepareSelfCall_enters {vm : Vm A} (h : Active vm.heap) {frames : List (Frame A)}
    (hf : vm.frames = frame :: frames) (site : Site A) :
    Enters vm frame.procedure frame.closure (prepareSelfCall owned vm frame frames site) := by
  unfold prepareSelfCall
  split_ifs
  · exact reenterFrame_enters h hf site _ _
  · exact pushFrame_enters h site _ _

lemma pushPlainFrame_entered {vm : Vm A} (h : Active vm.heap) (site : Site A) (procedure : Value)
    (closure : Closure) : Entered vm procedure closure (pushPlainFrame vm site procedure closure) :=
  ⟨⟨_, _, rfl, rfl, rfl, rfl, .inl rfl⟩, h.steady⟩

lemma reenterPlainFrame_entered {vm : Vm A} (h : Active vm.heap) {frames : List (Frame A)}
    (hf : vm.frames = frame :: frames) (site : Site A) (procedure : Value) (closure : Closure) :
    Entered vm procedure closure (reenterPlainFrame vm frame frames site procedure closure) :=
  ⟨⟨_, _, rfl, rfl, rfl, rfl, .inr ⟨frame, hf⟩⟩, h.steady⟩

/-! ### Clauses -/

/-- The clause does not accept the count. -/
def Rejects (heap : Heap) (clause : Value) (count : ℕ) : Prop :=
  ∀ closure, closureOf heap clause = some closure → closure.accepts count = false

/-- The closure is the first clause that accepts the count. -/
def FirstAccepting (heap : Heap) (clauses : List Value) (count : ℕ) (closure : Closure) : Prop :=
  ∃ (i : ℕ) (clause : Value), clauses[i]? = some clause ∧ closureOf heap clause = some closure ∧
    closure.accepts count = true ∧
    ∀ j < i, ∀ earlier, clauses[j]? = some earlier → Rejects heap earlier count

lemma FirstAccepting.cons {heap : Heap} (h : FirstAccepting heap clauses count closure)
    {clause : Value} (hr : Rejects heap clause count) :
    FirstAccepting heap (clause :: clauses) count closure := by
  obtain ⟨i, found, hi, hclosure, haccepts, hearlier⟩ := h
  refine ⟨i + 1, found, hi, hclosure, haccepts, fun j hj earlier hget => ?_⟩
  cases j with
  | zero => exact Option.some.inj hget ▸ hr
  | succ j => exact hearlier j (by omega) earlier hget

lemma selectClause_cons (heap : Heap) (clause : Value) (clauses : List Value) (count : ℕ) :
    (∃ closure, closureOf heap clause = some closure ∧ closure.accepts count = true ∧
      selectClause heap (clause :: clauses) count = some closure) ∨
    (Rejects heap clause count ∧
      selectClause heap (clause :: clauses) count = selectClause heap clauses count) := by
  unfold selectClause Rejects
  rw [List.findSome?_cons]
  cases hclosure : closureOf heap clause with
  | none => exact .inr ⟨nofun, rfl⟩
  | some closure =>
    cases haccepts : closure.accepts count with
    | true => exact .inl ⟨closure, rfl, haccepts, by simp [haccepts]⟩
    | false =>
      refine .inr ⟨fun other h => ?_, by simp [haccepts]⟩
      rw [← Option.some.inj h, haccepts]

lemma firstAccepting_of_selectClause {heap : Heap}
    (h : selectClause heap clauses count = some closure) :
    FirstAccepting heap clauses count closure := by
  induction clauses with
  | nil => cases h
  | cons clause clauses ih =>
    rcases selectClause_cons heap clause clauses count with
      ⟨found, hclosure, haccepts, hsome⟩ | ⟨hrejects, heq⟩
    · obtain rfl := Option.some.inj (hsome.symm.trans h)
      exact ⟨0, clause, rfl, hclosure, haccepts, fun j hj => absurd hj (Nat.not_lt_zero j)⟩
    · exact (ih (heq ▸ h)).cons hrejects

lemma selectClause_eq_none {heap : Heap} :
    selectClause heap clauses count = none ↔ ∀ clause ∈ clauses, Rejects heap clause count := by
  induction clauses with
  | nil => simp [selectClause]
  | cons clause clauses ih =>
    rcases selectClause_cons heap clause clauses count with
      ⟨found, hclosure, haccepts, hsome⟩ | ⟨hrejects, heq⟩
    · rw [hsome]
      refine iff_of_false (Option.some_ne_none found) fun hall => ?_
      have hfalse := hall clause List.mem_cons_self found hclosure
      rw [haccepts] at hfalse
      cases hfalse
    · rw [heq, ih, List.forall_mem_cons, and_iff_right hrejects]

/-! ### Frames -/

/-- The closure is what the procedure runs: the code of a program, a closure, or a clause. -/
def RunsAs (heap : Heap) (procedure : Value) (closure : Closure) : Prop :=
  procedure.heapRef = none ∨ closureOf heap procedure = some closure ∨
    ∃ clauses, heap.object procedure = some (.caseLambda clauses) ∧
      ∃ clause ∈ clauses, closureOf heap clause = some closure

lemma closureOf_eq_some {heap : Heap} :
    closureOf heap value = some closure ↔
      heap.object value = some (.closure closure.chunk closure.captures) := by
  unfold closureOf
  constructor
  · intro h
    split at h
    · next ho => rw [ho, ← Option.some.inj h]
    · cases h
  · intro h
    rw [h]

lemma Steady.closureOf {after : Heap} (h : Steady before after)
    (hc : closureOf before value = some closure) :
    closureOf after value = some closure :=
  closureOf_eq_some.mpr (h.object _ _ (closureOf_eq_some.mp hc))

lemma RunsAs.steady {after : Heap} (h : Steady before after)
    (hr : RunsAs before procedure closure) :
    RunsAs after procedure closure := by
  rcases hr with hr | hr | ⟨clauses, ho, clause, hmem, hc⟩
  · exact .inl hr
  · exact .inr (.inl (h.closureOf hr))
  · exact .inr (.inr ⟨clauses, h.object _ _ ho, clause, hmem, h.closureOf hc⟩)

lemma spreadApply_ok {vm : Vm A} (h : spreadApply vm site = .ok (vm₁, site₁)) :
    vm₁.heap = vm.heap ∧ vm₁.frames = vm.frames := by
  unfold spreadApply at h
  split_ifs at h
  dsimp only [bind, Except.bind] at h
  split at h
  · cases h
  · cases h
    exact ⟨rfl, rfl⟩

/-- The heap is the machine's, and every frame runs what its procedure is. -/
structure Sane (vm : Vm A) : Prop where
  heap : Active vm.heap
  frames : ∀ frame ∈ vm.frames, RunsAs vm.heap frame.procedure frame.closure

lemma Sane.of_eq {vm : Vm A} (h : Sane vm) (hheap : vm₁.heap = vm.heap)
    (hframes : vm₁.frames = vm.frames) : Sane vm₁ :=
  ⟨hheap ▸ h.heap, fun frame hmem => hheap ▸ h.frames frame (hframes ▸ hmem)⟩

lemma Entered.of_eq {vm vm' : Vm A} (h : Entered vm₁ procedure closure vm')
    (hheap : vm₁.heap = vm.heap) (hframes : vm₁.frames = vm.frames) :
    Entered vm procedure closure vm' :=
  ⟨hframes ▸ h.frames, hheap ▸ h.heap⟩

lemma Enters.entered {vm vm' : Vm A} (h : Enters vm procedure closure outcome)
    (hok : some outcome = some (.ok vm')) : Entered vm procedure closure vm' := by
  obtain rfl := Option.some.inj hok
  exact h

lemma runsAs_of_caseLambda {heap : Heap} (ho : heap.object procedure = some (.caseLambda clauses))
    (h : caseLambda heap procedure count = some closure) : RunsAs heap procedure closure := by
  rw [caseLambda, ho] at h
  obtain ⟨i, clause, hi, hclosure, -⟩ := firstAccepting_of_selectClause h
  exact .inr (.inr ⟨clauses, ho, clause, List.mem_of_getElem? hi, hclosure⟩)

lemma call_entered (fuel : ℕ) : ∀ {vm vm' : Vm A} {site : Site A}, Sane vm →
    call owned fuel vm site = some (.ok vm') →
    ∃ procedure closure, RunsAs vm.heap procedure closure ∧ Entered vm procedure closure vm' := by
  induction fuel with
  | zero => exact fun _ h => by cases h
  | succ fuel ih =>
    intro vm vm' site hs hcall
    have hclassified : classifiedCall owned vm site (call owned fuel) = some (.ok vm') →
        ∃ procedure closure, RunsAs vm.heap procedure closure ∧
          Entered vm procedure closure vm' := by
      intro h
      unfold classifiedCall at h
      dsimp only at h
      split at h
      · -- `apply` calls its target
        cases hspread : spreadApply vm site with
        | error error => rw [hspread] at h; cases h
        | ok result =>
          rw [hspread] at h
          obtain ⟨hheap, hframes⟩ := spreadApply_ok hspread
          obtain ⟨procedure, closure, hruns, hentered⟩ := ih (hs.of_eq hheap hframes) h
          exact ⟨procedure, closure, hheap ▸ hruns, hentered.of_eq hheap hframes⟩
      · next chunk captures ho =>
        split_ifs at h
        · exact ⟨_, _, .inr (.inl (closureOf_eq_some.mpr ho)),
            (prepareClosureCall_enters hs.heap site _ _).entered h⟩
        · cases h
      · next clauses ho =>
        split at h
        · next closure hselect =>
          exact ⟨_, _, runsAs_of_caseLambda ho hselect,
            (prepareClosureCall_enters hs.heap site _ _).entered h⟩
        · cases h
      · cases h
    unfold call at hcall
    split at hcall
    · next frame frames hf =>
      split_ifs at hcall with hself
      · exact ⟨_, _, hs.frames frame (hf ▸ List.mem_cons_self),
          (prepareSelfCall_enters hs.heap hf site).entered hcall⟩
      · exact hclassified hcall
    · exact hclassified hcall

lemma callArm_entered {fuel : ℕ} {vm vm' : Vm A} (hs : Sane vm)
    (hcall : callArm owned fuel vm site = some (.ok vm')) :
    ∃ procedure closure, RunsAs vm.heap procedure closure ∧ Entered vm procedure closure vm' := by
  unfold callArm at hcall
  split at hcall
  · cases hcall
  · next frame frames hf =>
    dsimp only at hcall
    by_cases hself : (same frame.procedure (vm.stack site.callBase) &&
        infallible frame.closure site.count) = true
    · have hruns := hs.frames frame (hf ▸ List.mem_cons_self)
      rw [if_pos hself] at hcall
      split_ifs at hcall
      · exact ⟨_, _, hruns, (prepareSelfCall_enters hs.heap hf site).entered hcall⟩
      · obtain rfl := Except.ok.inj (Option.some.inj hcall)
        exact ⟨_, _, hruns, pushPlainFrame_entered hs.heap site _ _⟩
    · rw [if_neg hself] at hcall
      split at hcall
      · next closure hclosure =>
        by_cases hplain : infallible closure site.count = true
        · rw [if_pos hplain] at hcall
          split_ifs at hcall
          · obtain rfl := Except.ok.inj (Option.some.inj hcall)
            exact ⟨_, _, .inr (.inl hclosure), reenterPlainFrame_entered hs.heap hf site _ _⟩
          · obtain rfl := Except.ok.inj (Option.some.inj hcall)
            exact ⟨_, _, .inr (.inl hclosure), pushPlainFrame_entered hs.heap site _ _⟩
        · rw [if_neg hplain] at hcall
          exact call_entered fuel hs hcall
      · exact call_entered fuel hs hcall

/-! ### Runs -/

/-- The machine with the frames of the continuations that it can still reach. -/
structure Run (A : Type) where
  vm : Vm A
  captured : List (Frame A)

/-- The objects that the frames and the captured frames run are still there. The procedures of the
frames are roots of the collector, those of a captured frame are traced with its continuation, and
closures and case-lambdas are never written to. -/
structure Run.Keeps (run : Run A) (heap : Heap) : Prop where
  object : ∀ frame ∈ run.vm.frames ++ run.captured, ∀ object,
    run.vm.heap.object frame.procedure = some object → heap.object frame.procedure = some object
  clause : ∀ frame ∈ run.vm.frames ++ run.captured, ∀ clauses,
    run.vm.heap.object frame.procedure = some (.caseLambda clauses) → ∀ clause ∈ clauses,
      ∀ closure, closureOf run.vm.heap clause = some closure →
        closureOf heap clause = some closure

/-- One step of the machine, as far as frames and procedures are concerned. -/
inductive Step (owned : Object → ℕ) : Run A → Run A → Prop
  /-- A call from inside of the machine. -/
  | call {run : Run A} {vm : Vm A} (fuel : ℕ) (site : Site A)
      (h : Neetan.Calls.call owned fuel run.vm site = some (.ok vm)) :
      Step owned run { run with vm := vm }
  /-- The instructions `Call` and `TailCall`. -/
  | arm {run : Run A} {vm : Vm A} (fuel : ℕ) (site : Site A)
      (h : callArm owned fuel run.vm site = some (.ok vm)) : Step owned run { run with vm := vm }
  /-- A frame is left. -/
  | leave {run : Run A} {frame : Frame A} {frames : List (Frame A)}
      (h : run.vm.frames = frame :: frames) :
      Step owned run { run with vm := { run.vm with frames } }
  /-- The code of a loaded file gets a frame, whose procedure is not an object. -/
  | load {run : Run A} (frame : Frame A) (h : frame.procedure.heapRef = none) :
      Step owned run { run with vm := { run.vm with frames := frame :: run.vm.frames } }
  /-- An execution starts, with the frame of its program. -/
  | execute {run : Run A} (frame : Frame A) (h : frame.procedure.heapRef = none) :
      Step owned run { run with vm := { run.vm with frames := [frame] } }
  | capture {run : Run A} : Step owned run { run with captured := run.vm.frames ++ run.captured }
  | restore {run : Run A} (frames : List (Frame A)) (h : ∀ frame ∈ frames, frame ∈ run.captured) :
      Step owned run { run with vm := { run.vm with frames } }
  /-- No root leads to a continuation any more, and its frames go with it. -/
  | drop {run : Run A} (captured : List (Frame A))
      (h : ∀ frame ∈ captured, frame ∈ run.captured) : Step owned run { run with captured }
  /-- Everything else: registers, program counters, the heap. -/
  | work {run : Run A} {vm : Vm A}
      (hframes : vm.frames.map (fun frame => (frame.procedure, frame.closure)) =
        run.vm.frames.map fun frame => (frame.procedure, frame.closure))
      (hheap : Active vm.heap) (hkeeps : run.Keeps vm.heap) :
      Step owned run { run with vm := vm }

/-- The machines that runs go through. -/
inductive Reachable (owned : Object → ℕ) : Run A → Prop
  | start {heap : Heap} (hheap : Active heap) (stack : ℕ → Value) (frame : Frame A)
      (h : frame.procedure.heapRef = none) : Reachable owned ⟨⟨heap, stack, [frame]⟩, []⟩
  | step {run run' : Run A} (hr : Reachable owned run) (h : Step owned run run') :
      Reachable owned run'

/-- Every frame, captured ones included, runs what its procedure is. -/
structure Run.Sound (run : Run A) : Prop where
  heap : Active run.vm.heap
  frames : ∀ frame ∈ run.vm.frames ++ run.captured,
    RunsAs run.vm.heap frame.procedure frame.closure

lemma Run.Sound.sane {run : Run A} (h : run.Sound) : Sane run.vm :=
  ⟨h.heap, fun frame hmem => h.frames frame (List.mem_append_left _ hmem)⟩

lemma Run.Keeps.runsAs {run : Run A} {heap : Heap} (h : run.Keeps heap)
    (hmem : frame ∈ run.vm.frames ++ run.captured)
    (hr : RunsAs run.vm.heap frame.procedure frame.closure) :
    RunsAs heap frame.procedure frame.closure := by
  rcases hr with hr | hr | ⟨clauses, ho, clause, hclause, hc⟩
  · exact .inl hr
  · exact .inr (.inl (closureOf_eq_some.mpr (h.object frame hmem _ (closureOf_eq_some.mp hr))))
  · exact .inr (.inr ⟨clauses, h.object frame hmem _ ho, clause, hclause,
      h.clause frame hmem clauses ho clause hclause _ hc⟩)

lemma Run.Sound.enter {run : Run A} (h : run.Sound) {vm : Vm A}
    (hruns : RunsAs run.vm.heap procedure closure)
    (hentered : Entered run.vm procedure closure vm) :
    Run.Sound { run with vm := vm } := by
  obtain ⟨⟨entered, frames, hf, rfl, rfl, -, hrest⟩, hsteady⟩ := hentered
  refine ⟨hsteady.active, fun frame hmem => ?_⟩
  have hold : ∀ frame ∈ frames ++ run.captured,
      RunsAs run.vm.heap frame.procedure frame.closure := by
    intro frame hmem
    refine h.frames frame ?_
    rcases List.mem_append.mp hmem with hmem | hmem
    · rcases hrest with rfl | ⟨running, hrunning⟩
      · exact List.mem_append_left _ hmem
      · rw [hrunning]
        exact List.mem_append_left _ (List.mem_cons_of_mem _ hmem)
    · exact List.mem_append_right _ hmem
  rw [hf, List.cons_append] at hmem
  rcases List.mem_cons.mp hmem with rfl | hmem
  · exact hruns.steady hsteady
  · exact (hold frame hmem).steady hsteady

lemma Step.sound {run run' : Run A} (h : run.Sound) (hstep : Step owned run run') :
    run'.Sound := by
  cases hstep with
  | call fuel site hcall =>
    obtain ⟨procedure, closure, hruns, hentered⟩ := call_entered fuel h.sane hcall
    exact h.enter hruns hentered
  | arm fuel site hcall =>
    obtain ⟨procedure, closure, hruns, hentered⟩ := callArm_entered h.sane hcall
    exact h.enter hruns hentered
  | leave hf =>
    refine ⟨h.heap, fun frame hmem => h.frames frame ?_⟩
    rw [hf, List.cons_append]
    exact List.mem_cons_of_mem _ hmem
  | load frame hnone =>
    refine ⟨h.heap, fun other hmem => ?_⟩
    rcases List.mem_cons.mp hmem with rfl | hmem
    · exact .inl hnone
    · exact h.frames other hmem
  | execute frame hnone =>
    refine ⟨h.heap, fun other hmem => ?_⟩
    rcases List.mem_cons.mp hmem with rfl | hmem
    · exact .inl hnone
    · exact h.frames other (List.mem_append_right _ hmem)
  | capture =>
    refine ⟨h.heap, fun frame hmem => h.frames frame ?_⟩
    rcases List.mem_append.mp hmem with hmem | hmem
    · exact List.mem_append_left _ hmem
    · exact hmem
  | restore frames hcaptured =>
    refine ⟨h.heap, fun frame hmem => h.frames frame (List.mem_append_right _ ?_)⟩
    exact (List.mem_append.mp hmem).elim (hcaptured frame) id
  | drop captured hcaptured =>
    refine ⟨h.heap, fun frame hmem => h.frames frame (List.mem_append.mpr ?_)⟩
    exact (List.mem_append.mp hmem).imp_right (hcaptured frame)
  | work hframes hheap hkeeps =>
    refine ⟨hheap, fun frame hmem => ?_⟩
    rcases List.mem_append.mp hmem with hmem | hmem
    · -- the same procedure and closure as a frame before the step
      have hpair := List.mem_map_of_mem (f := fun frame => (frame.procedure, frame.closure)) hmem
      rw [hframes] at hpair
      obtain ⟨old, hold, heq⟩ := List.mem_map.mp hpair
      obtain ⟨hprocedure, hclosure⟩ := Prod.mk.inj heq
      rw [← hprocedure, ← hclosure]
      exact hkeeps.runsAs (List.mem_append_left _ hold)
        (h.frames old (List.mem_append_left _ hold))
    · exact hkeeps.runsAs (List.mem_append_right _ hmem)
        (h.frames frame (List.mem_append_right _ hmem))

/-- **In every reachable machine each frame runs what its procedure is.** -/
theorem Reachable.sound {run : Run A} (h : Reachable owned run) : run.Sound := by
  induction h with
  | start hheap stack frame hnone =>
    refine ⟨hheap, fun other hmem => ?_⟩
    obtain rfl : other = frame := by simpa using hmem
    exact .inl hnone
  | step _ hstep ih => exact hstep.sound ih

/-! ### Calls of a case-lambda -/

/-- The call comes down to the other one, through any number of `apply`s. -/
inductive Reaches : Vm A → Site A → Vm A → Site A → Prop
  | here (vm : Vm A) (site : Site A) : Reaches vm site vm site
  | apply {vm vm₁ vm₂ : Vm A} {site site₁ site₂ : Site A}
      (ho : vm.heap.object (vm.stack site.callBase) = some .apply)
      (hspread : spreadApply vm site = .ok (vm₁, site₁)) (h : Reaches vm₁ site₁ vm₂ site₂) :
      Reaches vm site vm₂ site₂

/-- The running frame is one of the procedure and accepts the count, but so does a clause in
front of the one it runs. -/
def Overtakes (vm : Vm A) (procedure : Value) (clauses : List Value) (count : ℕ) : Prop :=
  ∃ frame frames, vm.frames = frame :: frames ∧ same frame.procedure procedure = true ∧
    frame.closure.accepts count = true ∧
    ∃ (i : ℕ) (clause : Value), clauses[i]? = some clause ∧
      closureOf vm.heap clause = some frame.closure ∧
      (∀ j < i, ∀ earlier, clauses[j]? = some earlier →
        closureOf vm.heap earlier ≠ some frame.closure) ∧
      ∃ j < i, ∃ earlier, clauses[j]? = some earlier ∧ ¬ Rejects vm.heap earlier count

/-- How a call of a case-lambda comes out: it enters a closure, which is the first clause that
accepts the count unless the running clause overtakes it; it raises an arity error exactly when
no clause accepts the count; and it fails otherwise only where the heap has no room. -/
structure Selects (vm : Vm A) (procedure : Value) (clauses : List Value) (count : ℕ)
    (outcome : Except Error (Vm A)) : Prop where
  enters : ∀ vm', outcome = .ok vm' → ∃ closure, Entered vm procedure closure vm' ∧
    (FirstAccepting vm.heap clauses count closure ↔ ¬ Overtakes vm procedure clauses count)
  arity : (∃ error, outcome = .error error ∧ error.kind = .arityError) ↔
    ∀ clause ∈ clauses, Rejects vm.heap clause count
  limit : ∀ error, outcome = .error error →
    error.kind = .arityError ∨ error.kind = .heapLimitExceeded

lemma eq_of_same_heap {reference : UInt32} (h : same value (.heap reference) = true) :
    value = .heap reference := by
  cases value with
  | heap other => rw [beq_iff_eq.mp (show (other == reference) = true from h)]
  | _ => cases h

lemma eq_of_same {heap : Heap} {object : Object} (ho : heap.object procedure = some object)
    (h : same value procedure = true) :
    value = procedure := by
  obtain ⟨reference, -, href, -⟩ := object_eq_some.mp ho
  cases procedure with
  | heap other => exact eq_of_same_heap h
  | _ => cases href

lemma clause_of_runsAs {heap : Heap} (ho : heap.object procedure = some (.caseLambda clauses))
    (hr : RunsAs heap procedure closure) :
    ∃ clause ∈ clauses, closureOf heap clause = some closure := by
  rcases hr with hr | hr | ⟨clauses', ho', h⟩
  · obtain ⟨reference, -, href, -⟩ := object_eq_some.mp ho
    rw [hr] at href
    cases href
  · rw [closureOf_eq_some, ho] at hr
    cases hr
  · rw [ho] at ho'
    cases ho'
    exact h

lemma exists_first {heap : Heap} (h : ∃ clause ∈ clauses, closureOf heap clause = some closure) :
    ∃ (i : ℕ) (clause : Value), clauses[i]? = some clause ∧ closureOf heap clause = some closure ∧
      ∀ j < i, ∀ earlier, clauses[j]? = some earlier → closureOf heap earlier ≠ some closure := by
  induction clauses with
  | nil => obtain ⟨clause, hmem, -⟩ := h; cases hmem
  | cons head clauses ih =>
    by_cases hhead : closureOf heap head = some closure
    · exact ⟨0, head, rfl, hhead, fun j hj => absurd hj (Nat.not_lt_zero j)⟩
    · obtain ⟨clause, hmem, hclosure⟩ := h
      have htail : clause ∈ clauses := by
        rcases List.mem_cons.mp hmem with rfl | hmem
        · exact absurd hclosure hhead
        · exact hmem
      obtain ⟨i, found, hi, hfound, hearlier⟩ := ih ⟨clause, htail, hclosure⟩
      refine ⟨i + 1, found, hi, hfound, fun j hj earlier hget => ?_⟩
      cases j with
      | zero => exact Option.some.inj hget ▸ hhead
      | succ j => exact hearlier j (by omega) earlier hget

/-- The running clause is the first that accepts the count unless it overtakes another. -/
lemma firstAccepting_iff {vm : Vm A} {frames : List (Frame A)} (hf : vm.frames = frame :: frames)
    (hsame : same frame.procedure procedure = true) (haccepts : frame.closure.accepts count = true)
    (hclause : ∃ clause ∈ clauses, closureOf vm.heap clause = some frame.closure) :
    FirstAccepting vm.heap clauses count frame.closure ↔
      ¬ Overtakes vm procedure clauses count := by
  constructor
  · rintro ⟨i, clause, hi, hclosure, -, hearlier⟩ ⟨frame', frames', hf', -, -, i', clause', hi',
      hclosure', hfirst, j, hj, earlier, hget, hnot⟩
    obtain ⟨rfl, rfl⟩ := List.cons.inj (hf.symm.trans hf')
    rcases lt_trichotomy i i' with hlt | rfl | hlt
    · exact hfirst i hlt clause hi hclosure
    · exact hnot (hearlier j hj earlier hget)
    · exact hnot (hearlier j (hj.trans hlt) earlier hget)
  · intro hnot
    obtain ⟨i, clause, hi, hclosure, hfirst⟩ := exists_first hclause
    refine ⟨i, clause, hi, hclosure, haccepts, fun j hj earlier hget => ?_⟩
    by_contra hrejects
    exact hnot ⟨frame, frames, hf, hsame, haccepts, i, clause, hi, hclosure, hfirst, j, hj,
      earlier, hget, hrejects⟩

lemma shortcut_selects {vm : Vm A} (hs : Sane vm) {frames : List (Frame A)}
    (hf : vm.frames = frame :: frames) (ho : vm.heap.object procedure = some (.caseLambda clauses))
    (hsame : same frame.procedure procedure = true) (haccepts : frame.closure.accepts count = true)
    (h : Enters vm frame.procedure frame.closure outcome) :
    Selects vm procedure clauses count outcome := by
  have hprocedure := eq_of_same ho hsame
  have hclause : ∃ clause ∈ clauses, closureOf vm.heap clause = some frame.closure :=
    clause_of_runsAs ho (hprocedure ▸ hs.frames frame (hf ▸ List.mem_cons_self))
  refine ⟨fun vm' hok => ⟨frame.closure, ?_, firstAccepting_iff hf hsame haccepts hclause⟩,
    iff_of_false ?_ ?_, ?_⟩
  · rw [← hprocedure]
    exact h.entered (congrArg some hok)
  · rintro ⟨error, rfl, hkind⟩
    rw [show error.kind = .heapLimitExceeded from h] at hkind
    cases hkind
  · intro hall
    obtain ⟨clause, hmem, hclosure⟩ := hclause
    rw [hall clause hmem _ hclosure] at haccepts
    cases haccepts
  · rintro error rfl
    exact .inr h

lemma search_selects {vm : Vm A} (hnot : ¬ Overtakes vm procedure clauses count)
    (hselect : selectClause vm.heap clauses count = some closure)
    (h : Enters vm procedure closure outcome) :
    Selects vm procedure clauses count outcome := by
  have hfirst := firstAccepting_of_selectClause hselect
  refine ⟨fun vm' hok => ⟨closure, h.entered (congrArg some hok), iff_of_true hfirst hnot⟩,
    iff_of_false ?_ ?_, ?_⟩
  · rintro ⟨error, rfl, hkind⟩
    rw [show error.kind = .heapLimitExceeded from h] at hkind
    cases hkind
  · intro hall
    rw [selectClause_eq_none.mpr hall] at hselect
    cases hselect
  · rintro error rfl
    exact .inr h

lemma classifiedCall_caseLambda {vm : Vm A}
    (ho : vm.heap.object (vm.stack site.callBase) = some (.caseLambda clauses))
    (recurse : Vm A → Site A → Option (Except Error (Vm A))) :
    classifiedCall owned vm site recurse =
      match selectClause vm.heap clauses site.count with
      | some found =>
        some (prepareClosureCall owned vm site (vm.stack site.callBase) found)
      | none => some (.error (arityError ("no case-lambda clause accepts " ++
          toString site.count ++ " arguments"))) := by
  unfold classifiedCall caseLambda
  cases hselect : selectClause vm.heap clauses site.count with
  | some found => simp only [ho, hselect]
  | none => simp only [ho, hselect]

lemma classified_selects {vm : Vm A} (hs : Sane vm)
    (ho : vm.heap.object (vm.stack site.callBase) = some (.caseLambda clauses))
    (hnot : ¬ Overtakes vm (vm.stack site.callBase) clauses site.count)
    {recurse : Vm A → Site A → Option (Except Error (Vm A))} :
    ∃ outcome, classifiedCall owned vm site recurse = some outcome ∧
      Selects vm (vm.stack site.callBase) clauses site.count outcome := by
  rw [classifiedCall_caseLambda ho]
  cases hselect : selectClause vm.heap clauses site.count with
  | some closure =>
    exact ⟨_, rfl, search_selects hnot hselect
      (prepareClosureCall_enters hs.heap site _ closure)⟩
  | none =>
    refine ⟨_, rfl, fun vm' hok => (by cases hok), iff_of_true ⟨_, rfl, rfl⟩ ?_, ?_⟩
    · exact selectClause_eq_none.mp hselect
    · rintro error herror
      obtain rfl := Except.error.inj herror
      exact .inl rfl

lemma call_succ (fuel : ℕ) (vm : Vm A) (site : Site A) : call owned (fuel + 1) vm site =
    match vm.frames with
    | frame :: frames =>
      if same frame.procedure (vm.stack site.callBase) && frame.closure.accepts site.count then
        some (prepareSelfCall owned vm frame frames site)
      else classifiedCall owned vm site (call owned fuel)
    | [] => classifiedCall owned vm site (call owned fuel) := rfl

variable (owned) in
lemma call_selects {vm : Vm A} (hs : Sane vm)
    (ho : vm.heap.object (vm.stack site.callBase) = some (.caseLambda clauses)) (fuel : ℕ) :
    ∃ outcome, call owned (fuel + 1) vm site = some outcome ∧
      Selects vm (vm.stack site.callBase) clauses site.count outcome := by
  rw [call_succ]
  cases hf : vm.frames with
  | nil =>
    refine classified_selects hs ho ?_
    rintro ⟨frame, frames, hcons, -⟩
    rw [hf] at hcons
    cases hcons
  | cons frame frames =>
    dsimp only
    split_ifs with hself
    · rw [Bool.and_eq_true] at hself
      exact ⟨_, rfl, shortcut_selects hs hf ho hself.1 hself.2
        (prepareSelfCall_enters hs.heap hf site)⟩
    · refine classified_selects hs ho ?_
      rintro ⟨frame', frames', hcons, hsame, haccepts, -⟩
      obtain ⟨rfl, rfl⟩ := List.cons.inj (hf.symm.trans hcons)
      exact hself (by rw [hsame, haccepts]; rfl)

lemma Sane.not_apply {vm : Vm A} (hs : Sane vm) (ho : vm.heap.object procedure = some .apply)
    {frames : List (Frame A)} (hf : vm.frames = frame :: frames) :
    ¬ same frame.procedure procedure = true := by
  intro hsame
  have hruns := hs.frames frame (hf ▸ List.mem_cons_self)
  rw [eq_of_same ho hsame] at hruns
  rcases hruns with hnone | hclosure | ⟨clauses, hlambda, -⟩
  · obtain ⟨reference, -, href, -⟩ := object_eq_some.mp ho
    rw [hnone] at href
    cases href
  · rw [closureOf_eq_some, ho] at hclosure
    cases hclosure
  · rw [ho] at hlambda
    cases hlambda

lemma call_apply {vm : Vm A} (hs : Sane vm)
    (ho : vm.heap.object (vm.stack site.callBase) = some .apply)
    (hspread : spreadApply vm site = .ok (vm₁, site₁)) (fuel : ℕ) :
    call owned (fuel + 1) vm site = call owned fuel vm₁ site₁ := by
  have hclassified : classifiedCall owned vm site (call owned fuel) = call owned fuel vm₁ site₁ := by
    unfold classifiedCall
    simp only [ho, hspread]
  rw [call_succ]
  cases hf : vm.frames with
  | nil => exact hclassified
  | cons frame frames =>
    dsimp only
    split_ifs with hself
    · rw [Bool.and_eq_true] at hself
      exact absurd hself.1 (hs.not_apply ho hf)
    · exact hclassified

lemma Selects.of_eq {vm : Vm A} (h : Selects vm₁ procedure clauses count outcome)
    (hheap : vm₁.heap = vm.heap) (hframes : vm₁.frames = vm.frames) :
    Selects vm procedure clauses count outcome := by
  obtain ⟨heap, stack, frames⟩ := vm
  obtain ⟨heap₁, stack₁, frames₁⟩ := vm₁
  obtain rfl : heap₁ = heap := hheap
  obtain rfl : frames₁ = frames := hframes
  refine ⟨fun vm' hok => ?_, h.arity, h.limit⟩
  obtain ⟨closure, hentered, hfirst⟩ := h.enters vm' hok
  exact ⟨closure, hentered.of_eq rfl rfl, hfirst⟩

variable (owned) in
lemma Reaches.selects {vm : Vm A} (h : Reaches vm site vm₁ site₁) :
    Sane vm → ∀ {clauses : List Value},
    vm.heap.object (vm₁.stack site₁.callBase) = some (.caseLambda clauses) →
    (∃ fuel outcome, call owned fuel vm site = some outcome) ∧
    ∀ fuel outcome, call owned fuel vm site = some outcome →
      Selects vm (vm₁.stack site₁.callBase) clauses site₁.count outcome := by
  induction h with
  | here vm site =>
    intro hs clauses ho
    refine ⟨⟨1, (call_selects owned hs ho 0).imp fun _ h => h.1⟩, fun fuel outcome hcall => ?_⟩
    cases fuel with
    | zero => cases hcall
    | succ fuel =>
      obtain ⟨outcome', hcall', hselects⟩ := call_selects owned hs ho fuel
      obtain rfl := Option.some.inj (hcall'.symm.trans hcall)
      exact hselects
  | apply ho hspread _ ih =>
    intro hs clauses hlambda
    obtain ⟨hheap, hframes⟩ := spreadApply_ok hspread
    obtain ⟨⟨fuel, outcome, hcall⟩, hall⟩ := ih (hs.of_eq hheap hframes) (hheap ▸ hlambda)
    refine ⟨⟨fuel + 1, outcome, (call_apply hs ho hspread fuel).trans hcall⟩, ?_⟩
    intro fuel outcome hcall
    cases fuel with
    | zero => cases hcall
    | succ fuel =>
      rw [call_apply hs ho hspread fuel] at hcall
      exact (hall fuel outcome hcall).of_eq hheap hframes

variable (owned) in
/-- The call instructions differ from a call only in the shortcut for their own procedure. -/
lemma callArm_caseLambda {vm : Vm A} (hs : Sane vm)
    (hclosure : closureOf vm.heap (vm.stack site.callBase) = none) {frames : List (Frame A)}
    (hf : vm.frames = frame :: frames) (fuel : ℕ) :
    callArm owned fuel vm site = call owned fuel vm site ∨
      same frame.procedure (vm.stack site.callBase) = true ∧
      frame.closure.accepts site.count = true ∧ ∃ outcome,
        callArm owned fuel vm site = some outcome ∧
        Enters vm frame.procedure frame.closure outcome := by
  unfold callArm
  rw [hf]
  dsimp only
  by_cases hself : (same frame.procedure (vm.stack site.callBase) &&
      infallible frame.closure site.count) = true
  · rw [if_pos hself]
    rw [Bool.and_eq_true, infallible, Bool.and_eq_true, Bool.and_eq_true] at hself
    refine .inr ⟨hself.1, hself.2.1.2, ?_⟩
    split_ifs
    · exact ⟨_, rfl, prepareSelfCall_enters hs.heap hf site⟩
    · exact ⟨_, rfl, pushPlainFrame_entered hs.heap site _ _⟩
  · rw [if_neg hself, hclosure]
    exact .inl rfl

/-- **A call of a case-lambda enters the first clause that accepts the arguments**, from any
frame, by an instruction or from inside of the machine, directly or through `apply`, unless the
clause that runs overtakes another one; and it raises an arity error exactly when no clause
accepts them. -/
theorem case_lambda_selects {run : Run A} (hr : Reachable owned run)
    (hreach : Reaches run.vm site vm₁ site₁)
    (ho : run.vm.heap.object (vm₁.stack site₁.callBase) = some (.caseLambda clauses)) :
    (∃ fuel outcome, call owned fuel run.vm site = some outcome) ∧
    (run.vm.frames ≠ [] → ∃ fuel outcome, callArm owned fuel run.vm site = some outcome) ∧
    ∀ fuel outcome,
      call owned fuel run.vm site = some outcome ∨ callArm owned fuel run.vm site = some outcome →
      Selects run.vm (vm₁.stack site₁.callBase) clauses site₁.count outcome := by
  have hs := hr.sound.sane
  obtain ⟨⟨fuel₀, outcome₀, hcall₀⟩, hselects⟩ := hreach.selects owned hs ho
  -- the instruction without its own shortcut is the call
  have harm : ∀ fuel, run.vm.frames ≠ [] →
      callArm owned fuel run.vm site = call owned fuel run.vm site ∨ ∃ outcome,
        callArm owned fuel run.vm site = some outcome ∧
        Selects run.vm (vm₁.stack site₁.callBase) clauses site₁.count outcome := by
    intro fuel hne
    obtain ⟨frame, frames, hf⟩ := List.exists_cons_of_ne_nil hne
    cases hreach with
    | here =>
      have hnone : closureOf run.vm.heap (run.vm.stack site.callBase) = none := by
        unfold closureOf
        rw [ho]
      rcases callArm_caseLambda owned hs hnone hf fuel with
        heq | ⟨hsame, haccepts, outcome, hcall, henters⟩
      · exact .inl heq
      · exact .inr ⟨outcome, hcall, shortcut_selects hs hf ho hsame haccepts henters⟩
    | apply happly hspread _ =>
      have hnone : closureOf run.vm.heap (run.vm.stack site.callBase) = none := by
        unfold closureOf
        rw [happly]
      rcases callArm_caseLambda owned hs hnone hf fuel with heq | ⟨hsame, -⟩
      · exact .inl heq
      · exact absurd hsame (hs.not_apply happly hf)
  refine ⟨⟨fuel₀, outcome₀, hcall₀⟩, fun hne => ?_, ?_⟩
  · rcases harm fuel₀ hne with heq | ⟨outcome, hcall, -⟩
    · exact ⟨fuel₀, outcome₀, heq.trans hcall₀⟩
    · exact ⟨fuel₀, outcome, hcall⟩
  · rintro fuel outcome (hcall | hcall)
    · exact hselects fuel outcome hcall
    · have hne : run.vm.frames ≠ [] := by
        intro hnil
        unfold callArm at hcall
        rw [hnil] at hcall
        cases hcall
      rcases harm fuel hne with heq | ⟨outcome', hcall', hsel⟩
      · exact hselects fuel outcome (heq ▸ hcall)
      · obtain rfl := Option.some.inj (hcall'.symm.trans hcall)
        exact hsel

/-! ### A case-lambda with a rest list -/

def clauseOf (arity : Arity) : Closure := ⟨⟨[], [], [], [], [], arity, 4, [], []⟩, []⟩

/-- A procedure with a clause for one argument and a clause for any arguments behind it, and one
free slot. -/
def lambdaHeap : Heap :=
  { Heap.new ⟨16, 16, 1024⟩ with
    cells := [⟨some (.closure (clauseOf (.exact 1)).chunk []), metaYoung⟩,
      ⟨some (.closure (clauseOf (.atLeast 0)).chunk []), metaYoung⟩,
      ⟨some (.caseLambda [.heap 0, .heap 1]), metaYoung⟩, ⟨none, metaFree⟩]
    cursor := 3
    limit := 4
    regionEnd := 4
    vmActive := true }

def lambdaFrame (procedure : Value) (arity : Arity) (base : ℕ) : Frame Unit :=
  ⟨clauseOf arity, procedure, 0, base, base, base - 1, .one, ()⟩

/-- The program, which holds the procedure in every register. -/
def lambdaRun : Run Unit :=
  ⟨⟨lambdaHeap, fun _ => .heap 2, [lambdaFrame .undefined (.exact 0) 0]⟩, []⟩

/-- The procedure runs its second clause, called without arguments. -/
def lambdaCalled : Run Unit :=
  ⟨⟨lambdaHeap, Function.update (fun _ => .heap 2) 1 .nil,
    [{ lambdaFrame (.heap 2) (.atLeast 0) 1 with top := 2 },
      lambdaFrame .undefined (.exact 0) 0]⟩, []⟩

lemma lambdaHeap_active : Active lambdaHeap := by
  refine ⟨⟨⟨by decide, ?_, ?_, ?_, .nil⟩, ⟨by decide, by decide, by decide⟩⟩, rfl⟩
  · intro k hk hk'
    obtain rfl : k = 3 := by
      have h3 : 3 ≤ k := hk
      have h4 : k < 4 := hk'
      omega
    exact ⟨_, rfl, rfl⟩
  · intro hole hhole
    cases hhole
  · intro hole hhole
    cases hhole

lemma lambda_called : call (fun _ => 0) 1 lambdaRun.vm ⟨0, 0, .one, false, ()⟩ =
    some (.ok lambdaCalled.vm) := by
  rfl

lemma lambdaCalled_reachable : Reachable (fun _ => 0) lambdaCalled :=
  .step (.start lambdaHeap_active (fun _ => .heap 2) (lambdaFrame .undefined (.exact 0) 0) rfl)
    (.call 1 ⟨0, 0, .one, false, ()⟩ lambda_called)

/-- **An accepting clause is passed over.** In its second clause the procedure calls itself with one
argument, which the first clause accepts, and enters the second clause again. -/
theorem running_clause_overtakes :
    Reachable (fun _ => 0) lambdaCalled ∧
    lambdaCalled.vm.heap.object (lambdaCalled.vm.stack 2) =
      some (.caseLambda [.heap 0, .heap 1]) ∧
    ∃ vm', call (fun _ => 0) 1 lambdaCalled.vm ⟨2, 1, .one, false, ()⟩ = some (.ok vm') ∧
      ¬ ∃ closure, FirstAccepting lambdaCalled.vm.heap [.heap 0, .heap 1] 1 closure ∧
        Entered lambdaCalled.vm (.heap 2) closure vm' := by
  refine ⟨lambdaCalled_reachable, rfl, _, rfl, ?_⟩
  rintro ⟨closure, ⟨i, clause, hi, hclosure, -, hearlier⟩, ⟨⟨frame, frames, hf, hrun, -⟩, -⟩⟩
  obtain rfl : clauseOf (.atLeast 0) = closure := by
    obtain rfl := (List.cons.inj hf).1
    exact hrun
  match i with
  | 0 =>
    obtain rfl : Value.heap 0 = clause := Option.some.inj hi
    have harity := congrArg (fun closure : Closure => closure.chunk.arity)
      (Option.some.inj hclosure)
    cases harity
  | i + 1 =>
    have hreject := hearlier 0 (Nat.succ_pos i) (.heap 0) rfl (clauseOf (.exact 1)) rfl
    cases hreject

/-- The program calls the procedure with one argument and enters the first clause; the second
clause, called without arguments, comes out as the theorem says, by either path. -/
theorem case_lambda_selects_example :
    (∃ vm' closure, call (fun _ => 0) 1 lambdaRun.vm ⟨0, 1, .one, false, ()⟩ = some (.ok vm') ∧
      FirstAccepting lambdaHeap [.heap 0, .heap 1] 1 closure ∧
      Entered lambdaRun.vm (.heap 2) closure vm') ∧
    (∃ fuel outcome,
      callArm (fun _ => 0) fuel lambdaCalled.vm ⟨2, 1, .one, false, ()⟩ = some outcome) ∧
    ∀ fuel outcome,
      call (fun _ => 0) fuel lambdaCalled.vm ⟨2, 1, .one, false, ()⟩ = some outcome ∨
        callArm (fun _ => 0) fuel lambdaCalled.vm ⟨2, 1, .one, false, ()⟩ = some outcome →
      Selects lambdaCalled.vm (.heap 2) [.heap 0, .heap 1] 1 outcome := by
  refine ⟨?_, ?_⟩
  · have hstart : Reachable (fun _ => 0) lambdaRun :=
      .start lambdaHeap_active (fun _ => .heap 2) (lambdaFrame .undefined (.exact 0) 0) rfl
    obtain ⟨-, -, hselects⟩ := case_lambda_selects hstart
      (.here lambdaRun.vm ⟨0, 1, .one, false, ()⟩) rfl
    obtain ⟨closure, hentered, hfirst⟩ := (hselects 1 _ (.inl rfl)).enters _ rfl
    refine ⟨_, closure, rfl, hfirst.2 ?_, hentered⟩
    rintro ⟨frame, frames, hframes, hsame, -⟩
    obtain rfl := (List.cons.inj hframes).1
    cases hsame
  · obtain ⟨-, harm, hselects⟩ := case_lambda_selects lambdaCalled_reachable
      (.here lambdaCalled.vm ⟨2, 1, .one, false, ()⟩) rfl
    exact ⟨harm (List.cons_ne_nil _ _), hselects⟩

end Neetan.Calls
