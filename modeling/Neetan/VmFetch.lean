import Neetan.VmControl
import Mathlib.Data.List.Chain

/-!
The dispatch loop never fetches outside of the running chunk.

A frame below another one goes on at its saved program counter only if the action of the
frame above resumes it. The frame of a tail call has saved a position behind its last
instruction, but what runs above it never does.
-/

namespace Neetan.Vm

open Neetan.Bytecode

/-- The frame's saved program counter can be dispatched. -/
def Frame.Ready {κ : Type} (frame : Frame κ) : Prop := Dispatchable frame.chunk frame.pc

def TopReady {κ : Type} (frames : List (Frame κ)) : Prop := ∀ frame ∈ frames.head?, frame.Ready

/-- A frame, and the one below it. -/
def Links {κ : Type} (above below : Frame κ) : Prop :=
  above.returnAction.resumes = true → below.Ready

/-- Continuations whose frames can go on, down to those that their actions hold. -/
inductive Sound : Continuation → Prop
  | mk {k : Continuation} (accepted : ∀ frame ∈ k.frames, Accepted frame.chunk)
      (links : k.frames.IsChain Links) (ready : TopReady k.frames)
      (inner : ∀ frame ∈ k.frames, ∀ k', frame.returnAction.continuation? = some k' → Sound k') :
      Sound k

structure Inv (s : State) : Prop where
  accepted : ∀ frame ∈ s.frames, Accepted frame.chunk
  links : s.frames.IsChain Links
  inner : ∀ frame ∈ s.frames, ∀ k, frame.returnAction.continuation? = some k → Sound k
  procedures : ∀ chunk ∈ s.procedures, Accepted chunk
  continuations : ∀ k ∈ s.continuations, Sound k

/-- The action can be left with a frame that is put on these frames. -/
def ReturnAction.Fits (action : ReturnAction Continuation) (s : State) : Prop :=
  (action.resumes = true → TopReady s.frames) ∧
    ∀ k, action.continuation? = some k → Sound k

/-- What a task relies on. -/
def Task.Ready (s : State) : Task → Prop
  | .call false action => action.Fits s
  | .call true _ => True
  | .complete action => action.Fits s
  | .force | .bind _ => TopReady s.frames
  | .exit _ => True

/-- What a task leaves behind. -/
def Result.Good : Result → Prop
  | .running s => Inv s ∧ (s.exited = false → TopReady s.frames)
  | .finished s | .failed s => Inv s

lemma fits_of_top {action : ReturnAction Continuation} {s : State} (h : TopReady s.frames)
    (hk : action.continuation? = none) : action.Fits s :=
  ⟨fun _ => h, fun k hk' => (by rw [hk] at hk'; cases hk')⟩

lemma fits_transfer {transfer : ℕ} {thunks : List WindThunk} {k : Continuation} {s : State}
    (h : Sound k) : (ReturnAction.continueTransfer transfer thunks k).Fits s :=
  ⟨fun hr => (by cases hr), fun _ hk => (by cases hk; exact h)⟩

lemma topReady_cons {κ : Type} {frame : Frame κ} {frames : List (Frame κ)} :
    TopReady (frame :: frames) ↔ frame.Ready := by
  simp [TopReady]

namespace Inv

variable {s : State}

lemma congr {s' : State} (h : Inv s) (hf : s'.frames = s.frames)
    (hp : s'.procedures = s.procedures) (hc : s'.continuations = s.continuations) : Inv s' :=
  ⟨hf ▸ h.accepted, hf ▸ h.links, hf ▸ h.inner, hp ▸ h.procedures, hc ▸ h.continuations⟩

lemma push (h : Inv s) {chunk : Chunk} {action : ReturnAction Continuation}
    (ha : Accepted chunk) (hf : action.Fits s) : Inv (s.push chunk action) where
  accepted := by
    intro frame hm
    rcases List.mem_cons.mp hm with rfl | hm
    · exact ha
    · exact h.accepted frame hm
  links := by
    refine List.isChain_cons.mpr ⟨fun below hb hr => ?_, h.links⟩
    exact hf.1 hr below hb
  inner := by
    intro frame hm
    rcases List.mem_cons.mp hm with rfl | hm
    · exact hf.2
    · exact h.inner frame hm
  procedures := h.procedures
  continuations := h.continuations

variable {rest : List (Frame Continuation)} {frame : Frame Continuation}

lemma replace (h : Inv s) (hf : s.frames = frame :: rest) {chunk : Chunk} {pc : ℕ}
    (ha : Accepted chunk) :
    Inv { s with frames := ⟨chunk, pc, frame.returnAction⟩ :: rest } := by
  obtain ⟨hacc, hlinks, hinner, hproc, hcont⟩ := h
  rw [hf] at hacc hlinks hinner
  rw [List.isChain_cons] at hlinks
  refine ⟨?_, List.isChain_cons.mpr ⟨hlinks.1, hlinks.2⟩, ?_, hproc, hcont⟩
  · intro frame' hm
    rcases List.mem_cons.mp hm with rfl | hm
    · exact ha
    · exact hacc frame' (List.mem_cons_of_mem _ hm)
  · intro frame' hm
    rcases List.mem_cons.mp hm with rfl | hm
    · exact hinner frame List.mem_cons_self
    · exact hinner frame' (List.mem_cons_of_mem _ hm)

lemma pop (h : Inv s) (hf : s.frames = frame :: rest) :
    Inv { s with frames := rest } ∧ frame.returnAction.Fits { s with frames := rest } := by
  obtain ⟨hacc, hlinks, hinner, hproc, hcont⟩ := h
  rw [hf] at hacc hlinks hinner
  rw [List.isChain_cons] at hlinks
  exact ⟨⟨fun f hm => hacc f (List.mem_cons_of_mem _ hm), hlinks.2,
      fun f hm => hinner f (List.mem_cons_of_mem _ hm), hproc, hcont⟩,
    fun hr below hb => hlinks.1 below hb hr, hinner frame List.mem_cons_self⟩

lemma resumeAt (h : Inv s) {k : Continuation} (hk : Sound k) (event : Move → Event) :
    Inv (s.resumeAt k event) := by
  obtain ⟨hacc, hlinks, -, hinner⟩ := hk
  exact ⟨hacc, hlinks, hinner, h.procedures, h.continuations⟩

lemma capture (h : Inv s) (ht : TopReady s.frames) : Sound s.capture :=
  ⟨h.accepted, h.links, ht, h.inner⟩

end Inv

lemma Sound.ready {k : Continuation} (h : Sound k) : TopReady k.frames := by
  cases h with
  | mk _ _ ready _ => exact ready

/-- **Whatever task the machine does, it leaves frames that can go on.** -/
theorem Runs.good {s : State} {task : Task} {r : Result} (h : Runs s task r) (hi : Inv s)
    (ht : task.Ready s) : r.Good := by
  induction h with
  | callFails | completeFails | forceFails | bindFails | exitFails => exact hi
  | callClosure hc =>
    exact ⟨hi.push (hi.procedures _ hc) ht,
      fun _ => topReady_cons.mpr (hi.procedures _ hc).dispatchable_zero⟩
  | tailCallClosure hc hf =>
    exact ⟨hi.replace hf (hi.procedures _ hc),
      fun _ => topReady_cons.mpr (hi.procedures _ hc).dispatchable_zero⟩
  | callImmediate _ ih => exact ih hi ht
  | tailCallImmediate hf _ ih => exact ih (hi.pop hf).1 (hi.pop hf).2
  | tailCallLast hf => exact (hi.pop hf).1
  | callExit _ _ ih => exact ih (hi.congr rfl rfl rfl) trivial
  | callResume hk =>
    exact ⟨hi.resumeAt (hi.continuations _ hk) _, fun _ => (hi.continuations _ hk).ready⟩
  | callResumeFails hk => exact hi.resumeAt (hi.continuations _ hk) _
  | callTransfer hk _ _ ih =>
    exact ih (hi.congr rfl rfl rfl) (fits_transfer (hi.continuations _ hk))
  | deliver => exact ⟨hi, fun _ => ht.1 rfl⟩
  | deliverLast => exact hi
  | pass ha _ ih =>
    refine ih hi (fits_of_top (ht.1 ?_) rfl)
    revert ha
    rename_i action _ _
    cases action <;> simp [ReturnAction.passes, ReturnAction.resumes]
  | consume _ ih => exact ih hi (fits_of_top (ht.1 rfl) rfl)
  | chainPromise _ ih => exact ih hi (ht.1 rfl)
  | reinstall _ ih => exact ih (hi.congr rfl rfl rfl) (fits_of_top (ht.1 rfl) rfl)
  | startWind _ ih => exact ih (hi.congr rfl rfl rfl) (fits_of_top (ht.1 rfl) rfl)
  | finishWind _ _ _ ih => exact ih (hi.congr rfl rfl rfl) (fits_of_top (ht.1 rfl) rfl)
  | finishWindFails => exact hi.congr rfl rfl rfl
  | converted _ ih => exact ih hi (ht.1 rfl)
  | transferEnds =>
    exact ⟨hi.resumeAt (ht.2 _ rfl) _, fun _ => (ht.2 _ rfl).ready⟩
  | transferEndFails => exact hi.resumeAt (ht.2 _ rfl) _
  | transferNext _ ih => exact ih (hi.congr rfl rfl rfl) (fits_transfer (ht.2 _ rfl))
  | exitNext _ ih => exact ih hi trivial
  | forced _ ih => exact ih hi (fits_of_top ht rfl)
  | forcePending _ ih => exact ih hi (fits_of_top ht rfl)
  | exitThunk _ ih => exact ih hi ⟨fun hr => (by cases hr), fun _ hk => (by cases hk)⟩
  | exitDone => exact ⟨hi.congr rfl rfl rfl, fun he => by cases he⟩
  | bound => exact ⟨hi, fun _ => ht⟩
  | convert _ _ ih => exact ih hi (fits_of_top ht rfl)

lemma Handled.good {r r' : Result} (h : Handled r r') (hr : r.Good) : r'.Good := by
  cases h with
  | running | finished | unhandled => exact hr
  | handler _ h =>
    exact h.good (hr.congr rfl rfl rfl) ⟨fun hr => (by cases hr), fun _ hk => (by cases hk)⟩

lemma Cold.good {i : ColdInstruction} {s : State} {r : Result} (h : Cold i s r) (hi : Inv s)
    (ht : TopReady s.frames) : r.Good := by
  have still : ∀ {s' : State}, s'.frames = s.frames → s'.procedures = s.procedures →
      s'.continuations = s.continuations → (Result.running s').Good :=
    fun hf hp hc => ⟨hi.congr hf hp hc, fun _ => hf ▸ ht⟩
  cases h with
  | fails => exact hi
  | callWithValues h | callWithPort h | callWithFile h | withFile h | convertParameter h =>
    exact h.good hi (fits_of_top ht rfl)
  | makePromise | popParameters | makeParameter | makeError | loadNumber
  | pushHandler | popHandler => exact still rfl rfl rfl
  | force h | pushParameters h => exact h.good hi ht
  | raise _ h =>
    refine h.good (hi.congr rfl rfl rfl) ?_
    split_ifs
    · exact fits_of_top ht rfl
    · exact fits_of_top ht rfl
  | captureContinuation h =>
    refine h.good ⟨hi.accepted, hi.links, hi.inner, hi.procedures, ?_⟩ (fits_of_top ht rfl)
    intro k hk
    rcases List.mem_cons.mp hk with rfl | hk
    · exact hi.capture ht
    · exact hi.continuations k hk
  | dynamicWind _ _ h => exact h.good (hi.congr rfl rfl rfl) (fits_of_top ht rfl)
  | callWithFileHandled h | withFileHandled h => exact h.good hi
  | load h =>
    exact ⟨hi.push h (fits_of_top ht rfl), fun _ => topReady_cons.mpr h.dispatchable_zero⟩

/-! ### Runs -/

/-- The loop is about to dispatch an instruction of the running chunk. -/
structure Machine.Inv (m : Machine) : Prop where
  vm : Vm.Inv m.vm
  ready : ∀ frame ∈ m.vm.frames.head?, Dispatchable frame.chunk m.pc

lemma inv_execute {entry : Chunk} {heap : State} (h : Accepted entry)
    (hp : ∀ chunk ∈ heap.procedures, Accepted chunk)
    (hc : ∀ k ∈ heap.continuations, Sound k) : (execute entry heap).Inv := by
  refine ⟨⟨?_, List.isChain_singleton _, ?_, hp, hc⟩, ?_⟩
  · intro frame hm
    obtain rfl := List.mem_singleton.mp hm
    exact h
  · intro frame hm k hk
    obtain rfl := List.mem_singleton.mp hm
    cases hk
  · rintro frame ⟨⟩
    exact h.dispatchable_zero

/-- Saving the program counter behind an instruction that the frame goes on from. -/
lemma inv_savePc {s : State} (pc : ℕ) (hi : Inv s) (hf : s.frames = frame :: rest) :
    Inv (s.savePc pc) ∧
      (Dispatchable frame.chunk pc → TopReady (s.savePc pc).frames) := by
  have hs : s.savePc pc = { s with frames := ⟨frame.chunk, pc, frame.returnAction⟩ :: rest } := by
    rw [State.savePc, hf]
  rw [hs]
  refine ⟨hi.replace hf (hi.accepted frame (by simp [hf])), fun hd => topReady_cons.mpr hd⟩

lemma inv_of_good {s : State} (h : (Result.running s).Good) (he : s.exited = false)
    (hf : s.frames = frame :: rest) :
    Machine.Inv ⟨s, frame.pc⟩ := by
  refine ⟨h.1, fun frame' hm => ?_⟩
  have ht := h.2 he
  rw [hf, topReady_cons] at ht
  rw [hf] at hm
  cases hm
  exact ht

lemma Step.inv {m m' : Machine} (h : Step m m') (hi : m.Inv) : m'.Inv := by
  obtain ⟨hvm, hready⟩ := hi
  cases h with
  | @pass s pc frame rest word op taken hf hw ho hx ht =>
    obtain ⟨word', op', hw', ho', -⟩ := hready frame (by simp [hf])
    obtain rfl : word' = word := (fetchWord_eq hw').symm.trans hw
    have ha := hvm.accepted frame (by simp [hf])
    have hl : leaves op = false := by cases op <;> simp_all [transfers, leaves]
    have hsafe := (ha.arm_safe hw' ho hx taken).2 hl
    have hframes : (s.alloc frame.chunk word' op).frames = s.frames := by
      unfold State.alloc
      split <;> rfl
    have hcont : (s.alloc frame.chunk word' op).continuations = s.continuations := by
      unfold State.alloc
      split <;> rfl
    refine ⟨⟨hframes ▸ hvm.accepted, hframes ▸ hvm.links, hframes ▸ hvm.inner, ?_,
      hcont ▸ hvm.continuations⟩, ?_⟩
    · intro chunk hc
      unfold State.alloc at hc
      split at hc
      · rename_i prototype hproto
        rcases List.mem_cons.mp hc with rfl | hc
        · exact (ha.prototype (List.mem_of_getElem? hproto)).1
        · exact hvm.procedures chunk hc
      · exact hvm.procedures chunk hc
    · intro frame' hm
      rw [hframes, hf] at hm
      cases hm
      exact hsafe
  | @call s pc frame rest word r s' frame' rest' tail hf hw ho h hh he hf' =>
    obtain ⟨word', op', hw', ho', -⟩ := hready frame (by simp [hf])
    obtain rfl : word' = word := (fetchWord_eq hw').symm.trans hw
    have ha := hvm.accepted frame (by simp [hf])
    obtain ⟨hsave, htop⟩ := inv_savePc (pc + 1) hvm hf
    refine inv_of_good (hh.good (h.good hsave ?_)) he hf'
    cases tail with
    | true => trivial
    | false =>
      exact fits_of_top (htop ((ha.arm_safe hw' ho (by simp) true).2 rfl)) rfl
  | @ret s pc frame next rest word s' frame' rest' hf hw ho h he hf' =>
    exact inv_of_good (h.good (hvm.pop hf).1 (hvm.pop hf).2) he hf'
  | @cold s pc frame rest word instruction s' frame' rest' hf hw ho hi h he hf' =>
    obtain ⟨word', op', hw', ho', -⟩ := hready frame (by simp [hf])
    obtain rfl : word' = word := (fetchWord_eq hw').symm.trans hw
    have ha := hvm.accepted frame (by simp [hf])
    obtain ⟨hsave, htop⟩ := inv_savePc (pc + 1) hvm hf
    exact inv_of_good
      (h.good hsave (htop ((ha.arm_safe hw' ho (by simp) true).2 rfl))) he hf'

lemma Reachable.inv {m : Machine} (h : Reachable m) : m.Inv := by
  induction h with
  | start h => exact inv_execute h (by simp [emptyHeap]) (by simp [emptyHeap])
  | step _ h ih => exact h.inv ih
  | again _ h ih => exact inv_execute h ih.vm.procedures ih.vm.continuations
  | install _ h ih =>
    refine ⟨⟨ih.vm.accepted, ih.vm.links, ih.vm.inner, ?_, ih.vm.continuations⟩, ih.ready⟩
    intro chunk hc
    rcases List.mem_cons.mp hc with rfl | hc
    · exact h
    · exact ih.vm.procedures chunk hc

/-- **The unchecked fetches never leave the chunk.** In every run over accepted code, the
word at the program counter is in the running chunk and is no `extraArg`, and so are the
words that its instruction consumes, the constants and the global operands it reads,
whichever way a test comes out. -/
theorem fetch_in_bounds {m : Machine} (hr : Reachable m) (hf : m.vm.frames = frame :: rest) :
    ∃ op, (fetchWord frame.chunk.code m.pc).opcode? = some op ∧ op ≠ .extraArg ∧
      ∀ taken, (arm frame.chunk m.pc (fetchWord frame.chunk.code m.pc) taken op).InBounds
        frame.chunk := by
  obtain ⟨hvm, hready⟩ := hr.inv
  obtain ⟨word, op, hw, ho, hx⟩ := hready frame (by simp [hf])
  rw [fetchWord_eq hw]
  have ha := hvm.accepted frame (by simp [hf])
  exact ⟨op, ho, hx, fun taken => (ha.arm_safe hw ho hx taken).1⟩

/-- Tests its first register for the empty list until it holds something else. -/
def waitLoop : Chunk where
  code := [.abc .testNull 1 0 0 false, .sj .jump (-2), .abc .return 0 2 0 false]
  constants := []
  globalOperands := []
  closures := []
  cold := []
  arity := .exact 1
  maxRegisters := 1
  captureKinds := []
  boxedLocals := []

/-- The loop left by its test. -/
theorem fetch_in_bounds_waitLoop :
    ∃ op, (fetchWord waitLoop.code 2).opcode? = some op ∧ op ≠ .extraArg ∧
      ∀ taken, (arm waitLoop 2 (fetchWord waitLoop.code 2) taken op).InBounds waitLoop := by
  have hw : fetchWord waitLoop.code 0 = .abc .testNull 1 0 0 false := rfl
  have ho : (Word.abc .testNull 1 0 0 false).opcode? = some .testNull := by decide
  have hs : Step (execute waitLoop emptyHeap) ⟨emptyHeap.push waitLoop .normal, 2⟩ :=
    Step.pass false rfl hw ho (by decide) rfl
  have ha : Accepted waitLoop := rfl
  exact fetch_in_bounds ((Reachable.start ha).step hs) rfl

end Neetan.Vm
