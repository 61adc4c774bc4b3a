import Neetan.VmControl
import Mathlib.Data.List.Induction

/-!
Wind lists across transfers of control.

A transfer is regular when the active extents are the outermost ones of the captured list
and at most one thunk runs. The wind list stays as it is while the thunks of a transfer
run, so only then does every thunk find the extents that enclose its `dynamic-wind` call.
-/

namespace Neetan.Vm

open Neetan.Bytecode

/-! ### Right and regular transfers -/

/-- The thunks on the way from one wind list to another: out of the extents that do not
enclose the target, innermost first, and into those that are not active, outermost first. -/
def windPath (active captured : List Wind) : List WindThunk :=
  ((active.filter fun wind => wind.extent ∉ captured.map Wind.extent).reverse.map
      fun wind => ⟨.after, wind⟩) ++
    (captured.filter fun wind => wind.extent ∉ active.map Wind.extent).map
      fun wind => ⟨.before, wind⟩

/-- The next thunk runs inside the extents that enclose its call; with no thunk left,
control resumes with the captured wind list. -/
def Move.Follows (captured : List Wind) (thunks : List WindThunk) : Move → Prop
  | .runs thunk active =>
    thunks.head? = some thunk ∧ active.map Wind.extent = thunk.wind.enclosing
  | .resumes active => thunks = [] ∧ active = captured

/-- The transfer has started the first thunks one after another, each but the first when the one
before it returned, and is left with the others. -/
inductive Progress (log : List Event) (transfer : ℕ) : List WindThunk → List WindThunk → Prop
  | first {active captured winds : List Wind} {thunk : WindThunk} {thunks : List WindThunk}
      (h : log[transfer]? = some (.invoked active captured (thunk :: thunks) (.runs thunk winds))) :
      Progress log transfer [thunk] thunks
  | next {winds : List Wind} {ran thunks : List WindThunk} {thunk : WindThunk}
      (before : Progress log transfer ran (thunk :: thunks))
      (h : .returned transfer (thunk :: thunks) (.runs thunk winds) ∈ log) :
      Progress log transfer (ran ++ [thunk]) thunks

/-- What a step of a transfer has to do behind the events of the log. A thunk returns to a
transfer that has run all the thunks of its invocation but the remaining ones. -/
def Event.Right (log : List Event) : Event → Prop
  | .invoked active captured thunks move =>
    thunks = windPath active captured ∧ move.Follows captured thunks
  | .returned transfer remaining move => ∃ active captured ran start,
    log[transfer]? = some (.invoked active captured (ran ++ remaining) start) ∧
      Progress log transfer ran remaining ∧ move.Follows captured remaining

/-- Every step of every transfer is right behind the steps before it. -/
def Right (log : List Event) : Prop :=
  ∀ earlier event later, log = earlier ++ event :: later → event.Right earlier

/-- The active extents enclose the captured point; a thunk that returns is the last. -/
def Event.Regular : Event → Prop
  | .invoked active captured _ _ => active <+: captured
  | .returned _ remaining _ => remaining = []

lemma right_nil : Right [] := fun _ _ _ h => absurd h.symm (by simp)

variable {log : List Event} {n n' : ℕ} {r : Result} {k : Continuation} {m : Machine}

lemma Right.snoc {event : Event} (h : Right log) (he : event.Right log) :
    Right (log ++ [event]) := by
  intro earlier last later heq
  induction later using List.reverseRecOn with
  | nil =>
    obtain ⟨rfl, hlast⟩ := List.append_inj' heq rfl
    cases hlast
    exact he
  | append_singleton later final _ =>
    rw [← List.cons_append, ← List.append_assoc] at heq
    exact h earlier last later (List.append_inj' heq rfl).1

/-! ### Well-formed wind lists -/

/-- A list of nested extents, all of them among the first `n` of the run. -/
inductive Wound (n : ℕ) : List Wind → Prop
  | nil : Wound n []
  | snoc {winds : List Wind} {wind : Wind} (h : Wound n winds)
      (enclosing : wind.enclosing = winds.map Wind.extent)
      (fresh : ∀ outer ∈ winds, outer.extent < wind.extent) (lt : wind.extent < n) :
      Wound n (winds ++ [wind])

lemma Wound.mono {winds : List Wind} (h : Wound n winds) (hn : n ≤ n') :
    Wound n' winds := by
  induction h with
  | nil => exact .nil
  | snoc _ he hf hl ih => exact .snoc ih he hf (by omega)

lemma Wound.lt {winds : List Wind} (h : Wound n winds) :
    ∀ wind ∈ winds, wind.extent < n := by
  induction h with
  | nil => simp
  | snoc _ _ _ hl ih =>
    intro wind hm
    rcases List.mem_append.mp hm with hm | hm
    · exact ih wind hm
    · rw [List.mem_singleton.mp hm]
      exact hl

lemma wound_snoc {winds : List Wind} {wind : Wind} :
    Wound n (winds ++ [wind]) ↔ Wound n winds ∧ wind.enclosing = winds.map Wind.extent ∧
      (∀ outer ∈ winds, outer.extent < wind.extent) ∧ wind.extent < n := by
  constructor
  · intro h
    generalize hl : winds ++ [wind] = l at h
    cases h with
    | nil => simp at hl
    | snoc h he hf hlt =>
      obtain ⟨rfl, hw⟩ := List.append_inj' hl rfl
      cases hw
      exact ⟨h, he, hf, hlt⟩
  · rintro ⟨h, he, hf, hl⟩
    exact .snoc h he hf hl

lemma Wound.split {winds post : List Wind} {wind : Wind} (h : Wound n (winds ++ wind :: post)) :
    wind.enclosing = winds.map Wind.extent ∧
      ∀ inner ∈ wind :: post, inner.extent ∉ winds.map Wind.extent := by
  induction post using List.reverseRecOn with
  | nil =>
    obtain ⟨-, he, hf, -⟩ := wound_snoc.mp h
    refine ⟨he, fun inner hm hc => ?_⟩
    obtain rfl := List.mem_singleton.mp hm
    obtain ⟨outer, ho, heq⟩ := List.mem_map.mp hc
    exact absurd (hf outer ho) (by omega)
  | append_singleton post last ih =>
    rw [← List.cons_append, ← List.append_assoc, wound_snoc] at h
    obtain ⟨h, -, hf, -⟩ := h
    obtain ⟨he, hout⟩ := ih h
    refine ⟨he, fun inner hm hc => ?_⟩
    rw [← List.cons_append, List.mem_append, List.mem_singleton] at hm
    rcases hm with hm | rfl
    · exact hout inner hm hc
    · obtain ⟨outer, ho, heq⟩ := List.mem_map.mp hc
      exact absurd (hf outer (List.mem_append_left _ ho)) (by omega)

lemma common_prefix (winds post : List Wind) : common winds (winds ++ post) = winds.length := by
  unfold common
  induction winds with
  | nil => rfl
  | cons wind winds ih => simpa using ih

lemma filter_entered {winds others : List Wind} (h : winds ⊆ others) :
    winds.filter (fun wind => wind.extent ∉ others.map Wind.extent) = [] := by
  refine List.filter_eq_nil_iff.mpr fun wind hw => ?_
  simp only [decide_not, Bool.not_eq_true', decide_eq_false_iff_not, not_not]
  exact List.mem_map_of_mem (h hw)

/-- Where the active extents enclose the captured point, the thunks are the right ones. -/
lemma transferThunks_prefix {winds post : List Wind} (h : Wound n (winds ++ post)) :
    transferThunks winds (winds ++ post) = post.map (fun wind => ⟨.before, wind⟩) ∧
      windPath winds (winds ++ post) = post.map fun wind => ⟨.before, wind⟩ := by
  constructor
  · simp [transferThunks, common_prefix]
  · have h1 := filter_entered (List.subset_append_left winds post)
    have h2 : (winds ++ post).filter (fun wind => wind.extent ∉ winds.map Wind.extent) = post := by
      rw [List.filter_append, filter_entered (List.Subset.refl winds), List.nil_append]
      refine List.filter_eq_self.mpr fun wind hw => ?_
      cases post with
      | nil => cases hw
      | cons first post => simpa using h.split.2 wind hw
    simp only [windPath, h1, h2, List.reverse_nil, List.map_nil, List.nil_append]

/-! ### Frames and the wind lists they return with -/

/-- With this action a frame that returns under `winds` hands `below` to the one below. -/
def ReturnAction.Hands {κ : Type} (n : ℕ) (winds below : List Wind) : ReturnAction κ → Prop
  | .startWind wind => below = winds ∧ Wound n (winds ++ [wind])
  | .finishWind wind => winds = below ++ [wind]
  | _ => winds = below

/-- Every frame that goes on does so under the wind list it was left with. -/
def Balanced {κ : Type} (n : ℕ) : List Wind → List (Frame κ) → Prop
  | _, [] => True
  | winds, frame :: rest => frame.returnAction.resumes = true →
      ∃ below, frame.returnAction.Hands n winds below ∧ Balanced n below rest

lemma ReturnAction.Hands.mono {κ : Type} {winds below : List Wind} {action : ReturnAction κ}
    (h : action.Hands n winds below) (hn : n ≤ n') :
    action.Hands n' winds below := by
  cases action <;> first | exact h | exact ⟨h.1, h.2.mono hn⟩

lemma Balanced.mono {κ : Type} (hn : n ≤ n') {frames : List (Frame κ)} {winds : List Wind}
    (h : Balanced n winds frames) : Balanced n' winds frames := by
  induction frames generalizing winds with
  | nil => trivial
  | cons frame rest ih =>
    intro hr
    obtain ⟨below, hh, hb⟩ := h hr
    exact ⟨below, hh.mono hn, ih hb⟩

/-- An action that goes on with a transfer has run the first thunk of its invocation. -/
def ReturnAction.Begun (log : List Event) : ReturnAction Continuation → Prop
  | .continueTransfer transfer thunks k => ∃ active thunk winds,
    log[transfer]? = some (.invoked active k.winds (thunk :: thunks) (.runs thunk winds))
  | _ => True

lemma ReturnAction.Begun.mono {log' : List Event} {action : ReturnAction Continuation}
    (h : action.Begun log) (hl : log <+: log') : action.Begun log' := by
  cases action with
  | continueTransfer transfer thunks k =>
    obtain ⟨active, thunk, winds, h⟩ := h
    obtain ⟨hlt, heq⟩ := List.getElem?_eq_some_iff.mp h
    exact ⟨active, thunk, winds, (List.prefix_iff_getElem?.mp hl transfer hlt).trans (heq ▸ rfl)⟩
  | _ => trivial

lemma ReturnAction.begun_of_none {action : ReturnAction Continuation}
    (h : action.continuation? = none) : action.Begun log := by
  cases action with
  | continueTransfer transfer thunks k => cases h
  | _ => trivial

/-- Continuations with well-formed wind lists, down to those that their actions hold. -/
inductive Sane (log : List Event) (n : ℕ) : Continuation → Prop
  | mk {k : Continuation} (wound : Wound n k.winds) (balanced : Balanced n k.winds k.frames)
      (begun : ∀ frame ∈ k.frames, frame.returnAction.Begun log)
      (inner : ∀ frame ∈ k.frames, ∀ k', frame.returnAction.continuation? = some k' →
        Sane log n k') : Sane log n k

lemma Sane.mono {log' : List Event} (h : Sane log n k) (hl : log <+: log') (hn : n ≤ n') :
    Sane log' n' k := by
  induction h with
  | mk hw hb hg _ ih =>
    exact .mk (hw.mono hn) (hb.mono hn) (fun f hf => (hg f hf).mono hl)
      fun f hf k' hk => ih f hf k' hk

/-- What holds of the winds in every state, even where an error was just raised. -/
structure WindInv (s : State) : Prop where
  wound : Wound s.extents s.winds
  begun : ∀ frame ∈ s.frames, frame.returnAction.Begun s.events
  inner : ∀ frame ∈ s.frames, ∀ k, frame.returnAction.continuation? = some k →
    Sane s.events s.extents k
  continuations : ∀ k ∈ s.continuations, Sane s.events s.extents k
  right : Right s.events

/-- The running frame goes on under the active winds. -/
def State.Balanced (s : State) : Prop := Vm.Balanced s.extents s.winds s.frames

/-- The action can be left with a frame that is put on these frames. -/
def ReturnAction.Winds (action : ReturnAction Continuation) (s : State) : Prop :=
  (action.resumes = true →
    ∃ below, action.Hands s.extents s.winds below ∧ Vm.Balanced s.extents below s.frames) ∧
    action.Begun s.events ∧ ∀ k, action.continuation? = some k → Sane s.events s.extents k

def Task.Winds (s : State) : Task → Prop
  | .call false action => action.Winds s
  | .call true _ => s.Balanced
  | .complete action => action.Winds s
  | .force | .bind _ => s.Balanced
  | .exit _ => True

def Result.state : Result → State
  | .running s | .finished s | .failed s => s

def Result.Winds : Result → Prop
  | .running s => WindInv s ∧ (s.exited = false → s.Balanced)
  | .finished s | .failed s => WindInv s

lemma winds_of_balanced {action : ReturnAction Continuation} {s : State} (h : s.Balanced)
    (ha : ∀ n winds, action.Hands n winds winds) (hk : action.continuation? = none) :
    action.Winds s :=
  ⟨fun _ => ⟨s.winds, ha _ _, h⟩, action.begun_of_none hk,
    fun k hk' => (by rw [hk] at hk'; cases hk')⟩

lemma winds_of_stops {action : ReturnAction Continuation} {s : State}
    (hr : action.resumes = false) (hg : action.Begun s.events)
    (hk : ∀ k, action.continuation? = some k → Sane s.events s.extents k) : action.Winds s :=
  ⟨fun h => (by rw [hr] at h; cases h), hg, hk⟩

namespace WindInv

variable {s : State}

lemma congr {s' : State} (h : WindInv s) (hw : s'.winds = s.winds) (hf : s'.frames = s.frames)
    (hc : s'.continuations = s.continuations) (hn : s'.extents = s.extents)
    (he : s'.events = s.events) : WindInv s' :=
  ⟨hn ▸ hw ▸ h.wound, he ▸ hf ▸ h.begun, he ▸ hn ▸ hf ▸ h.inner, he ▸ hn ▸ hc ▸ h.continuations,
    he ▸ h.right⟩

lemma push (h : WindInv s) (chunk : Chunk) {action : ReturnAction Continuation}
    (ha : action.Winds s) : WindInv (s.push chunk action) ∧ (s.push chunk action).Balanced :=
  ⟨⟨h.wound, List.forall_mem_cons.mpr ⟨ha.2.1, h.begun⟩, List.forall_mem_cons.mpr ⟨ha.2.2, h.inner⟩,
    h.continuations, h.right⟩, ha.1⟩

lemma replace (h : WindInv s) (hb : s.Balanced) {frame : Frame Continuation}
    {rest : List (Frame Continuation)} (hf : s.frames = frame :: rest) (chunk : Chunk) (pc : ℕ) :
    WindInv { s with frames := ⟨chunk, pc, frame.returnAction⟩ :: rest } ∧
      State.Balanced { s with frames := ⟨chunk, pc, frame.returnAction⟩ :: rest } := by
  obtain ⟨hw, hg, hi, hc, hr⟩ := h
  rw [State.Balanced, hf] at hb
  rw [hf, List.forall_mem_cons] at hg hi
  exact ⟨⟨hw, List.forall_mem_cons.mpr hg, List.forall_mem_cons.mpr hi, hc, hr⟩, hb⟩

lemma pop (h : WindInv s) (hb : s.Balanced) {frame : Frame Continuation}
    {rest : List (Frame Continuation)} (hf : s.frames = frame :: rest) :
    WindInv { s with frames := rest } ∧ frame.returnAction.Winds { s with frames := rest } := by
  obtain ⟨hw, hg, hi, hc, hr⟩ := h
  rw [State.Balanced, hf] at hb
  rw [hf, List.forall_mem_cons] at hg hi
  exact ⟨⟨hw, hg.2, hi.2, hc, hr⟩, hb, hg.1, hi.1⟩

lemma startThunk (h : WindInv s) {thunk : WindThunk} {event : Move → Event}
    (he : (event (.runs thunk s.winds)).Right s.events) : WindInv (s.startThunk thunk event) := by
  have hl : s.events <+: (s.startThunk thunk event).events := List.prefix_append _ _
  exact ⟨h.wound, fun f hf => (h.begun f hf).mono hl,
    fun f hf k hk => (h.inner f hf k hk).mono hl (Nat.le_refl _),
    fun k hk => (h.continuations k hk).mono hl (Nat.le_refl _), h.right.snoc he⟩

lemma resumeAt (h : WindInv s) (hk : Sane s.events s.extents k) (event : Move → Event)
    (he : (event (.resumes k.winds)).Right s.events) :
    WindInv (s.resumeAt k event) ∧ (s.resumeAt k event).Balanced := by
  have hl : s.events <+: (s.resumeAt k event).events := List.prefix_append _ _
  obtain ⟨hw, hb, hg, hi⟩ := hk.mono hl (Nat.le_refl _)
  exact ⟨⟨hw, hg, hi, fun k hk => (h.continuations k hk).mono hl (Nat.le_refl _),
    h.right.snoc he⟩, hb⟩

end WindInv

/-! ### Runs -/

lemma Runs.events_prefix {s : State} {task : Task} (h : Runs s task r) :
    s.events <+: r.state.events := by
  induction h with
  | callResume | callResumeFails | transferEnds | transferEndFails =>
    exact List.prefix_append _ _
  | callTransfer _ _ _ ih | transferNext _ ih => exact (List.prefix_append _ _).trans ih
  | callImmediate _ ih | pass _ _ ih | consume _ ih | chainPromise _ ih | converted _ ih
  | exitNext _ ih | forced _ ih | forcePending _ ih | exitThunk _ ih | convert _ _ ih
  | tailCallImmediate _ _ ih | callExit _ _ ih | reinstall _ ih | startWind _ ih
  | finishWind _ _ _ ih => exact ih
  | _ => exact List.prefix_refl _

/-- With a regular invocation the thunks are right, and each starts in the right place. -/
lemma invoked_right {s : State} (hk : Sane s.events s.extents k) (hp : s.winds <+: k.winds) :
    transferThunks s.winds k.winds = windPath s.winds k.winds ∧
      (transferThunks s.winds k.winds = [] → s.winds = k.winds) ∧
      ∀ thunk thunks, transferThunks s.winds k.winds = thunk :: thunks →
        s.winds.map Wind.extent = thunk.wind.enclosing := by
  obtain ⟨post, hpost⟩ := hp
  cases hk with
  | mk hw _ _ _ =>
    rw [← hpost] at hw ⊢
    obtain ⟨ht, hpath⟩ := transferThunks_prefix hw
    refine ⟨ht.trans hpath.symm, fun hnil => ?_, fun thunk thunks hc => ?_⟩
    · rw [ht, List.map_eq_nil_iff] at hnil
      rw [hnil, List.append_nil]
    · rw [ht] at hc
      cases post with
      | nil => cases hc
      | cons wind post =>
        rw [List.map_cons, List.cons.injEq] at hc
        rw [← hc.1]
        exact hw.split.1.symm

/-- With no thunk left behind the first one, control resumes with the captured wind list. -/
lemma returned_right {transfer : ℕ} (hg : (ReturnAction.continueTransfer transfer [] k).Begun log) :
    (Event.returned transfer [] (.resumes k.winds)).Right log := by
  obtain ⟨active, thunk, winds, h⟩ := hg
  exact ⟨active, k.winds, [thunk], _, h, .first h, rfl, rfl⟩

/-- **Regular transfers keep the wind lists right**, whatever task the machine does. -/
theorem Runs.winds {s : State} {task : Task} (h : Runs s task r) (hi : WindInv s)
    (ht : task.Winds s) (hreg : ∀ event ∈ r.state.events, event.Regular) : r.Winds := by
  induction h with
  | callFails | completeFails | forceFails | bindFails | exitFails => exact hi
  | callClosure => exact ⟨(hi.push _ ht).1, fun _ => (hi.push _ ht).2⟩
  | tailCallClosure _ hf => exact ⟨(hi.replace ht hf _ _).1, fun _ => (hi.replace ht hf _ _).2⟩
  | callImmediate _ ih => exact ih hi ht hreg
  | tailCallImmediate hf _ ih => exact ih (hi.pop ht hf).1 (hi.pop ht hf).2 hreg
  | tailCallLast hf => exact (hi.pop ht hf).1
  | callExit _ _ ih => exact ih ⟨.nil, hi.begun, hi.inner, hi.continuations, hi.right⟩ trivial hreg
  | callResume hk hn =>
    have hk := hi.continuations _ hk
    have hp := hreg _ (List.mem_append_right _ List.mem_cons_self)
    obtain ⟨hpath, heq, -⟩ := invoked_right hk hp
    have hres := hi.resumeAt hk (.invoked _ _ []) ⟨hn.symm.trans hpath, rfl, rfl⟩
    exact ⟨hres.1, fun _ => hres.2⟩
  | callResumeFails hk hn =>
    have hk := hi.continuations _ hk
    have hp := hreg _ (List.mem_append_right _ List.mem_cons_self)
    obtain ⟨hpath, heq, -⟩ := invoked_right hk hp
    exact (hi.resumeAt hk (.invoked _ _ []) ⟨hn.symm.trans hpath, rfl, rfl⟩).1
  | callTransfer hk hc hrun ih =>
    have hk := hi.continuations _ hk
    have hp := hreg _ (hrun.events_prefix.subset (List.mem_append_right _ List.mem_cons_self))
    obtain ⟨hpath, -, hstart⟩ := invoked_right hk hp
    refine ih (hi.startThunk ⟨hc.symm.trans hpath, rfl, hstart _ _ hc⟩)
      (winds_of_stops rfl ⟨_, _, _, List.getElem?_concat_length⟩ fun k' hk' => ?_) hreg
    cases hk'
    exact hk.mono (List.prefix_append _ _) (Nat.le_refl _)
  | deliver =>
    obtain ⟨below, hh, hb⟩ := ht.1 rfl
    cases hh
    exact ⟨hi, fun _ => hb⟩
  | deliverLast => exact hi
  | @pass s action r ha hrun ih =>
    have hrs : action.resumes = true := by
      revert ha
      cases action <;> simp [ReturnAction.passes, ReturnAction.resumes]
    obtain ⟨below, hh, hb⟩ := ht.1 hrs
    refine ih hi (winds_of_balanced ?_ (fun _ _ => rfl) rfl) hreg
    have heq : s.winds = below := by
      revert ha hh
      cases action <;> simp [ReturnAction.passes, ReturnAction.Hands]
    rw [State.Balanced, heq]
    exact hb
  | consume _ ih | chainPromise _ ih | converted _ ih =>
    obtain ⟨below, hh, hb⟩ := ht.1 rfl
    cases hh
    first
      | exact ih hi (winds_of_balanced hb (fun _ _ => rfl) rfl) hreg
      | exact ih hi hb hreg
  | reinstall _ ih =>
    obtain ⟨below, hh, hb⟩ := ht.1 rfl
    cases hh
    exact ih (hi.congr rfl rfl rfl rfl rfl) (winds_of_balanced hb (fun _ _ => rfl) rfl) hreg
  | startWind _ ih =>
    obtain ⟨below, ⟨rfl, hw⟩, hb⟩ := ht.1 rfl
    exact ih ⟨hw, hi.begun, hi.inner, hi.continuations, hi.right⟩
      ⟨fun _ => ⟨_, rfl, hb⟩, trivial, fun _ hk => (by cases hk)⟩ hreg
  | finishWind hw _ _ ih =>
    obtain ⟨below, hh, hb⟩ := ht.1 rfl
    obtain ⟨rfl, -⟩ := List.append_inj' (hw.symm.trans hh) rfl
    have hwound := hi.wound
    rw [hw, wound_snoc] at hwound
    exact ih ⟨hwound.1, hi.begun, hi.inner, hi.continuations, hi.right⟩
      (winds_of_balanced hb (fun _ _ => rfl) rfl) hreg
  | finishWindFails hw =>
    have hwound := hi.wound
    rw [hw, wound_snoc] at hwound
    exact ⟨hwound.1, hi.begun, hi.inner, hi.continuations, hi.right⟩
  | transferEnds =>
    have hres := hi.resumeAt (ht.2.2 _ rfl) (.returned _ []) (returned_right ht.2.1)
    exact ⟨hres.1, fun _ => hres.2⟩
  | transferEndFails =>
    exact (hi.resumeAt (ht.2.2 _ rfl) (.returned _ []) (returned_right ht.2.1)).1
  | transferNext hrun ih =>
    have hp := hreg _ (hrun.events_prefix.subset (List.mem_append_right _ List.mem_cons_self))
    cases hp
  | exitNext _ ih => exact ih hi trivial hreg
  | forced _ ih | forcePending _ ih =>
    exact ih hi (winds_of_balanced ht (fun _ _ => rfl) rfl) hreg
  | exitThunk _ ih => exact ih hi (winds_of_stops rfl trivial fun _ hk => (by cases hk)) hreg
  | exitDone => exact ⟨hi.congr rfl rfl rfl rfl rfl, fun he => by cases he⟩
  | bound => exact ⟨hi, fun _ => ht⟩
  | convert _ _ ih => exact ih hi (winds_of_balanced ht (fun _ _ => rfl) rfl) hreg

lemma Handled.events_prefix {r' : Result} (h : Handled r r') :
    r.state.events <+: r'.state.events := by
  cases h with
  | running | finished | unhandled => exact List.prefix_refl _
  | handler _ h => exact h.events_prefix

lemma Handled.winds {r' : Result} (h : Handled r r') (hr : r.Winds)
    (hreg : ∀ event ∈ r'.state.events, event.Regular) : r'.Winds := by
  cases h with
  | running | finished | unhandled => exact hr
  | handler _ h =>
    exact h.winds (hr.congr rfl rfl rfl rfl rfl)
      (winds_of_stops rfl trivial fun _ hk => (by cases hk)) hreg

lemma Cold.events_prefix {i : ColdInstruction} {s : State} (h : Cold i s r) :
    s.events <+: r.state.events := by
  cases h with
  | callWithValues h | force h | raise _ h | captureContinuation h | dynamicWind _ _ h
  | callWithPort h | callWithFile h | withFile h | pushParameters h | convertParameter h =>
    exact h.events_prefix
  | callWithFileHandled h | withFileHandled h => exact h.events_prefix
  | _ => exact List.prefix_refl _

lemma WindInv.newExtent {s : State} (h : WindInv s) (before after : Value) (nextWind : ℕ) :
    WindInv { s with nextWind := nextWind, extents := s.extents + 1 } ∧
      Wound (s.extents + 1)
        (s.winds ++ [⟨s.nextWind, before, after, s.extents, s.winds.map Wind.extent⟩]) := by
  have hn : s.extents ≤ s.extents + 1 := Nat.le_succ _
  have hl : s.events <+: s.events := List.prefix_refl _
  refine ⟨⟨h.wound.mono hn, h.begun, fun f hf k hk => (h.inner f hf k hk).mono hl hn,
    fun k hk => (h.continuations k hk).mono hl hn, h.right⟩, ?_⟩
  exact .snoc (h.wound.mono hn) rfl h.wound.lt (Nat.lt_succ_self _)

lemma Cold.winds {i : ColdInstruction} {s : State} (h : Cold i s r) (hi : WindInv s)
    (hb : s.Balanced) (hreg : ∀ event ∈ r.state.events, event.Regular) :
    r.Winds := by
  have plain : ∀ {action : ReturnAction Continuation}, (∀ n winds, action.Hands n winds winds) →
      action.continuation? = none → action.Winds s := fun ha hk => winds_of_balanced hb ha hk
  cases h with
  | fails => exact hi
  | callWithValues h | callWithPort h | callWithFile h | withFile h | convertParameter h =>
    exact h.winds hi (plain (fun _ _ => rfl) rfl) hreg
  | makePromise | popParameters | makeParameter | makeError | loadNumber =>
    exact ⟨hi, fun _ => hb⟩
  | pushHandler | popHandler => exact ⟨hi.congr rfl rfl rfl rfl rfl, fun _ => hb⟩
  | force h | pushParameters h => exact h.winds hi hb hreg
  | raise _ h =>
    refine h.winds (hi.congr rfl rfl rfl rfl rfl) ?_ hreg
    split_ifs
    · exact winds_of_balanced hb (fun _ _ => rfl) rfl
    · exact winds_of_stops rfl trivial fun _ hk => (by cases hk)
  | captureContinuation h =>
    refine h.winds ⟨hi.wound, hi.begun, hi.inner, ?_, hi.right⟩
      (winds_of_balanced hb (fun _ _ => rfl) rfl)
      hreg
    intro k hk
    rcases List.mem_cons.mp hk with rfl | hk
    · exact .mk hi.wound hb hi.begun hi.inner
    · exact hi.continuations k hk
  | dynamicWind before after h =>
    obtain ⟨hinv, hw⟩ := hi.newExtent before after ((s.nextWind + 1) % 2 ^ 64)
    exact h.winds hinv
      ⟨fun _ => ⟨_, ⟨rfl, hw⟩, hb.mono (Nat.le_succ _)⟩, trivial, fun _ hk => (by cases hk)⟩ hreg
  | callWithFileHandled h | withFileHandled h => exact h.winds hi hreg
  | @load _ _ _ _ _ entry =>
    have ha : (ReturnAction.loadComplete : ReturnAction Continuation).Winds s :=
      plain (fun _ _ => rfl) rfl
    exact ⟨(hi.push entry ha).1, fun _ => (hi.push entry ha).2⟩

/-- What holds between two instructions. -/
def Machine.Winds (m : Machine) : Prop := WindInv m.vm ∧ m.vm.Balanced

lemma winds_savePc {s : State} {frame : Frame Continuation} {rest : List (Frame Continuation)}
    (hi : WindInv s) (hb : s.Balanced) (hf : s.frames = frame :: rest) (pc : ℕ) :
    WindInv (s.savePc pc) ∧ (s.savePc pc).Balanced ∧ (s.savePc pc).events = s.events := by
  have hs : s.savePc pc = { s with frames := ⟨frame.chunk, pc, frame.returnAction⟩ :: rest } := by
    rw [State.savePc, hf]
  rw [hs]
  exact ⟨(hi.replace hb hf frame.chunk pc).1, (hi.replace hb hf frame.chunk pc).2, rfl⟩

lemma State.alloc_events (s : State) (chunk : Chunk) (word : Word) (op : Opcode) :
    (s.alloc chunk word op).events = s.events := by
  unfold State.alloc
  split <;> rfl

lemma winds_alloc {s : State} (hi : WindInv s) (hb : s.Balanced) (chunk : Chunk) (word : Word)
    (op : Opcode) : WindInv (s.alloc chunk word op) ∧ (s.alloc chunk word op).Balanced := by
  unfold State.alloc
  split
  · exact ⟨hi.congr rfl rfl rfl rfl rfl, hb⟩
  · exact ⟨hi, hb⟩

lemma Step.events_prefix {m' : Machine} (h : Step m m') : m.vm.events <+: m'.vm.events := by
  have saved : ∀ (s : State) (pc : ℕ), (s.savePc pc).events = s.events := by
    intro s pc
    unfold State.savePc
    split <;> rfl
  cases h with
  | pass => exact (State.alloc_events _ _ _ _).symm ▸ List.prefix_refl _
  | call _ _ _ _ h hh =>
    exact List.IsPrefix.trans (saved _ _ ▸ h.events_prefix) hh.events_prefix
  | ret _ _ _ h => exact h.events_prefix
  | cold _ _ _ _ h => exact saved _ _ ▸ h.events_prefix

lemma Step.winds {m' : Machine} (h : Step m m') (hm : m.Winds)
    (hreg : ∀ event ∈ m'.vm.events, event.Regular) : m'.Winds := by
  obtain ⟨hi, hb⟩ := hm
  cases h with
  | pass => exact winds_alloc hi hb _ _ _
  | @call s pc frame rest word r s' frame' rest' tail hf hw ho h hh he hf' =>
    obtain ⟨hsi, hsb, -⟩ := winds_savePc hi hb hf (pc + 1)
    have hr := h.winds hsi (by
      cases tail
      · exact winds_of_balanced hsb (fun _ _ => rfl) rfl
      · exact hsb) fun event hm => hreg event (hh.events_prefix.subset hm)
    have hr' := hh.winds hr hreg
    exact ⟨hr'.1, hr'.2 he⟩
  | ret hf _ _ h he =>
    have hr := h.winds (hi.pop hb hf).1 (hi.pop hb hf).2 hreg
    exact ⟨hr.1, hr.2 he⟩
  | cold hf _ _ _ h he =>
    obtain ⟨hsi, hsb, -⟩ := winds_savePc hi hb hf _
    have hr := h.winds hsi hsb hreg
    exact ⟨hr.1, hr.2 he⟩

lemma Reachable.winds (h : Reachable m) (hreg : ∀ event ∈ m.vm.events, event.Regular) :
    m.Winds := by
  have start : ∀ {entry : Chunk} {heap : State},
      (∀ k ∈ heap.continuations, Sane heap.events heap.extents k) → Right heap.events →
      (execute entry heap).Winds := by
    intro entry heap hc hr
    refine ⟨⟨.nil, fun f hf => ?_, fun f hf k hk => ?_, hc, hr⟩, fun _ => ⟨[], rfl, trivial⟩⟩
    · rw [List.mem_singleton.mp hf]
      trivial
    · rw [List.mem_singleton.mp hf] at hk
      cases hk
  induction h with
  | start => exact start (by simp [emptyHeap]) right_nil
  | step _ h ih => exact h.winds (ih fun event hm => hreg event (h.events_prefix.subset hm)) hreg
  | again _ _ ih => exact start (ih hreg).1.continuations (ih hreg).1.right
  | install _ _ ih =>
    exact ⟨(ih hreg).1.congr rfl rfl rfl rfl rfl, (ih hreg).2⟩

/-- One cold instruction, and a return. -/
def coldChunk (instruction : ColdInstruction) : Chunk where
  code := [.abx .cold 0 0, .abc .return 0 2 0 false]
  constants := []
  globalOperands := []
  closures := []
  cold := [instruction]
  arity := .exact 0
  maxRegisters := 4
  captureKinds := []
  boxedLocals := []

/-- `(call/cc body)`. -/
def captureChunk : Chunk := coldChunk (.captureContinuation 0 2 .one)

/-- `(dynamic-wind before escape after)`. -/
def windChunk : Chunk := coldChunk (.dynamicWind 0 1 2 3 .one)

/-- `(k 1)`. -/
def escapeChunk : Chunk :=
  { coldChunk .popHandler with code := [.abc .call 0 2 2 false, .abc .return 0 2 0 false] }

/-- The program with its continuation captured, running the body of the `call/cc`. -/
def capturedState (body : Chunk) : State where
  frames := [⟨body, 0, .normal⟩, ⟨captureChunk, 1, .normal⟩]
  handlers := []
  winds := []
  nextWind := 0
  procedures := [escapeChunk, windChunk]
  continuations := [⟨[⟨captureChunk, 1, .normal⟩], [], [], 0⟩]
  exited := false
  extents := 0
  events := []

lemma reachable_captured {body : Chunk} (h : body ∈ [escapeChunk, windChunk]) :
    Reachable ⟨capturedState body, 0⟩ := by
  have hc : Accepted captureChunk := rfl
  have hw : Accepted windChunk := rfl
  have he : Accepted escapeChunk := rfl
  have hword : fetchWord captureChunk.code 0 = .abx .cold 0 0 := rfl
  have hop : (Word.abx .cold 0 0).opcode? = some .cold := by decide
  have hrun : Runs { (capturedState body) with frames := [⟨captureChunk, 1, .normal⟩] }
      (.call false .normal) (.running (capturedState body)) := Runs.callClosure h
  let s : State := { (execute captureChunk emptyHeap).vm with
    procedures := [escapeChunk, windChunk] }
  have hcold : Cold (.captureContinuation 0 2 .one) (s.savePc 1) (.running (capturedState body)) :=
    Cold.captureContinuation hrun
  have hstep : Step ⟨s, 0⟩ ⟨capturedState body, 0⟩ :=
    Step.cold rfl hword hop rfl hcold rfl rfl
  exact (((Reachable.start hc).install hw).install he).step hstep

/-- The extent of the program's `dynamic-wind`. -/
def programWind : Wind := ⟨0, .unspecified, .unspecified, 0, []⟩

/-- The program inside its extent, about to escape. -/
def woundState : State :=
  { capturedState windChunk with
    frames := [⟨escapeChunk, 0, .finishWind programWind⟩, ⟨windChunk, 1, .normal⟩,
      ⟨captureChunk, 1, .normal⟩]
    winds := [programWind]
    nextWind := 1
    extents := 1 }

lemma reachable_wound : Reachable ⟨woundState, 0⟩ := by
  have hword : fetchWord windChunk.code 0 = .abx .cold 0 0 := rfl
  have hop : (Word.abx .cold 0 0).opcode? = some .cold := by decide
  have hcap : Reachable ⟨capturedState windChunk, 0⟩ := reachable_captured (by simp)
  -- the before thunk returns at once, and the thunk starts inside the extent
  have hrun : Runs { (capturedState windChunk).savePc 1 with nextWind := 1, extents := 1 }
      (.call false (.startWind programWind)) (.running woundState) :=
    Runs.callImmediate (Runs.startWind (Runs.callClosure List.mem_cons_self))
  have hcold : Cold (.dynamicWind 0 1 2 3 .one) ((capturedState windChunk).savePc 1)
      (.running woundState) := Cold.dynamicWind .unspecified .unspecified hrun
  have hstep : Step ⟨capturedState windChunk, 0⟩ ⟨woundState, 0⟩ :=
    Step.cold rfl hword hop rfl hcold rfl rfl
  exact hcap.step hstep

/-- `(begin (dynamic-wind before capture after) (k 1))`. -/
def reentryChunk : Chunk :=
  { windChunk with
    code := [.abx .cold 0 0, .abc .call 0 2 2 false, .abc .return 0 2 0 false] }

/-- The continuation of that program, captured inside its extent. -/
def insideContinuation : Continuation :=
  ⟨[⟨captureChunk, 1, .finishWind programWind⟩, ⟨reentryChunk, 1, .normal⟩], [], [programWind], 1⟩

/-- The program behind its extent, about to enter it again. -/
def leftState : State :=
  { capturedState reentryChunk with
    frames := [⟨reentryChunk, 1, .normal⟩]
    nextWind := 1
    procedures := [captureChunk]
    continuations := [insideContinuation]
    extents := 1 }

lemma reachable_left : Reachable ⟨leftState, 1⟩ := by
  have hword : fetchWord reentryChunk.code 0 = .abx .cold 0 0 := rfl
  have hword' : fetchWord captureChunk.code 0 = .abx .cold 0 0 := rfl
  have hwordRet : fetchWord captureChunk.code 1 = .abc .return 0 2 0 false := rfl
  have hop : (Word.abx .cold 0 0).opcode? = some .cold := by decide
  have hret : (Word.abc .return 0 2 0 false).opcode? = some .return := by decide
  have hr : Accepted reentryChunk := rfl
  have hc : Accepted captureChunk := rfl
  let entered : State := { leftState with
    frames := [⟨captureChunk, 0, .finishWind programWind⟩, ⟨reentryChunk, 1, .normal⟩]
    winds := [programWind]
    continuations := [] }
  let captured : State := { leftState with
    frames := insideContinuation.frames
    winds := [programWind] }
  let s : State := { (execute reentryChunk emptyHeap).vm with procedures := [captureChunk] }
  -- the before thunk returns at once, and the thunk captures inside the extent
  have henter : Runs { s.savePc 1 with nextWind := 1, extents := 1 }
      (.call false (.startWind programWind)) (.running entered) :=
    Runs.callImmediate (Runs.startWind (Runs.callClosure List.mem_cons_self))
  have hwind : Cold (.dynamicWind 0 1 2 3 .one) (s.savePc 1) (.running entered) :=
    Cold.dynamicWind .unspecified .unspecified henter
  have hcapture : Cold (.captureContinuation 0 2 .one) (entered.savePc 1) (.running captured) :=
    Cold.captureContinuation (Runs.callImmediate (Runs.deliver rfl))
  -- the thunk returns, and so does the after thunk
  have hleave : Runs { captured with frames := [⟨reentryChunk, 1, .normal⟩] }
      (.complete (.finishWind programWind)) (.running leftState) :=
    Runs.finishWind (rfl : captured.winds = [] ++ [programWind]) rfl
      (Runs.callImmediate (Runs.pass rfl (Runs.deliver rfl)))
  have h1 : Step ⟨s, 0⟩ ⟨entered, 0⟩ := Step.cold rfl hword hop rfl hwind rfl rfl
  have h2 : Step ⟨entered, 0⟩ ⟨captured, 1⟩ := Step.cold rfl hword' hop rfl hcapture rfl rfl
  have hframes : captured.frames =
      [⟨captureChunk, 1, .finishWind programWind⟩, ⟨reentryChunk, 1, .normal⟩] := rfl
  have h3 : Step ⟨captured, 1⟩ ⟨leftState, 1⟩ := Step.ret hframes hwordRet hret hleave rfl rfl
  exact ((((Reachable.start hr).install hc).step h1).step h2).step h3

end Neetan.Vm
