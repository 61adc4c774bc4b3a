import Mathlib.Data.Finset.Card
import Mathlib.Logic.Relation
import Neetan.Promises

/-!
Runs of a machine with promises: what stays stored, and when forcing comes to an end.

A promise that has its values can be stored to again, and the links from promise to promise can
close to a circle, which forcing follows without end. A run without such steps keeps the values
of every promise, and its forcings come to an end.
-/

namespace Neetan.Promise

open Neetan.Bytecode Neetan.Gc

variable {promises promises' : Promises}

/-! ### Promises in slots -/

lemma slotState_set (promises : Promises) (slot other : ℕ) (state : PromiseState)
    (h : slot < promises.length) :
    slotState (promises.set slot (some state)) other =
      if slot = other then some state else slotState promises other := by
  unfold slotState
  rw [List.getElem?_set]
  by_cases heq : slot = other
  · subst heq
    simp [h]
  · simp [heq]

variable {value : Value} {m m' : Machine} {flatten : Bool} {after : PromiseState} {slot : ℕ}

lemma lt_of_slotState (h : (slotState promises slot).isSome) :
    slot < promises.length := by
  unfold slotState at h
  by_contra hge
  rw [List.getElem?_eq_none (Nat.not_lt.mp hge)] at h
  cases h

lemma setPromiseState_eq_some {state : PromiseState}
    (h : setPromiseState promises value state = some promises') :
    (promiseState promises value).isSome ∧ promiseState promises' value = some state ∧
      ∀ other, other ≠ value → promiseState promises' other = promiseState promises other := by
  cases value with
  | heap reference =>
    simp only [setPromiseState] at h
    split_ifs at h with hsome
    obtain rfl := Option.some.inj h
    have hset := slotState_set promises reference.toNat
    refine ⟨hsome, ?_, fun other hne => ?_⟩
    · exact (hset _ state (lt_of_slotState hsome)).trans (if_pos rfl)
    · cases other with
      | heap other =>
        refine (hset _ state (lt_of_slotState hsome)).trans (if_neg fun heq => hne ?_)
        rw [UInt32.toNat_inj.mp heq]
      | _ => rfl
  | _ => cases h

lemma setPromiseState_of_isSome (state : PromiseState) (h : (promiseState promises value).isSome) :
    ∃ promises', setPromiseState promises value state = some promises' := by
  cases value with
  | heap reference => exact ⟨_, if_pos h⟩
  | _ => cases h

/-! ### Links -/

/-- The first promise is forwarded to the second. -/
def Links (promises : Promises) (value next : Value) : Prop :=
  promiseState promises value = some (.forward next)

/-- Links lead from the first promise to the second. -/
def Leads (promises : Promises) : Value → Value → Prop := Relation.ReflTransGen (Links promises)

/-- The links from the promise come to an end. -/
inductive Grounded (promises : Promises) : Value → Prop
  | stop {value : Value} (h : ∀ next, ¬ Links promises value next) : Grounded promises value
  | link {value next : Value} (h : Links promises value next) (hnext : Grounded promises next) :
      Grounded promises value

lemma Links.unique {next next' : Value} (h : Links promises value next)
    (h' : Links promises value next') : next = next' :=
  PromiseState.forward.inj (Option.some.inj (h.symm.trans h'))

lemma Grounded.not_circle (h : Grounded promises value) :
    ¬ Relation.TransGen (Links promises) value value := by
  induction h with
  | stop h =>
    intro hcircle
    obtain ⟨next, hlink, -⟩ := Relation.TransGen.head'_iff.mp hcircle
    exact h next hlink
  | link h _ ih =>
    intro hcircle
    obtain ⟨next, hlink, hback⟩ := Relation.TransGen.head'_iff.mp hcircle
    obtain rfl := h.unique hlink
    exact ih (Relation.TransGen.tail' hback h)

lemma Grounded.of_links (h : ∀ value next, Links promises' value next → Links promises value next)
    (hg : Grounded promises value) : Grounded promises' value := by
  induction hg with
  | @stop value hstop => exact .stop fun next hlink => hstop next (h value next hlink)
  | @link value next hlink _ ih =>
    by_cases hlink' : Links promises' value next
    · exact .link hlink' ih
    · refine .stop fun other hother => hlink' ?_
      rwa [hlink.unique (h value other hother)]

lemma Grounded.of_new_link {target : Value} (h : ∀ other next, Links promises' other next →
      Links promises other next ∨ other = value ∧ next = target)
    (hother : ∀ other next, other ≠ value → Links promises other next → Links promises' other next)
    (hback : ¬ Leads promises target value) (hall : ∀ other, Grounded promises other)
    (other : Value) : Grounded promises' other := by
  -- from where the new link is not reached, the old links are followed
  have hapart : ∀ other, Grounded promises other → ¬ Leads promises other value →
      Grounded promises' other := by
    intro other hg
    induction hg with
    | @stop other hstop =>
      intro hlead
      refine .stop fun next hlink => ?_
      rcases h other next hlink with hold | ⟨rfl, -⟩
      · exact hstop next hold
      · exact hlead .refl
    | @link other next hlink _ ih =>
      intro hlead
      refine .link (hother other next ?_ hlink) (ih fun hnext => hlead (.head hlink hnext))
      rintro rfl
      exact hlead .refl
  have htarget := hapart target (hall target) hback
  have hvalue : Grounded promises' value := by
    by_cases hlink : ∃ next, Links promises' value next
    · obtain ⟨next, hlink⟩ := hlink
      by_cases hnext : next = target
      · exact .link hlink (hnext ▸ htarget)
      · refine .link hlink (hapart next (hall next) fun hlead => ?_)
        rcases h value next hlink with hold | ⟨-, heq⟩
        · exact (hall value).not_circle (.head' hold hlead)
        · exact hnext heq
    · exact .stop fun next hnext => hlink ⟨next, hnext⟩
  have hstep : ∀ other, Grounded promises other → Grounded promises' other := by
    intro other hg
    induction hg with
    | @stop other hstop =>
      by_cases heq : other = value
      · exact heq ▸ hvalue
      · refine .stop fun next hlink => ?_
        rcases h other next hlink with hold | ⟨heq', -⟩
        · exact hstop next hold
        · exact heq heq'
    | @link other next hlink _ ih =>
      by_cases heq : other = value
      · exact heq ▸ hvalue
      · exact .link (hother other next heq hlink) ih
  exact hstep other (hall other)

/-! ### The two functions -/

/-- The promise waits for its thunk. -/
def Waits (state : Option PromiseState) (thunk : Value) (flatten : Bool) : Prop :=
  state = some (.pending thunk flatten) ∨ state = some (.forcing thunk flatten)

lemma forcePass_cases (promises : Promises) (value : Value) :
    (∃ held, promiseState promises value = some (.done held) ∧
      forcePass promises value = (promises, .returns held)) ∨
    (∃ next, Links promises value next ∧
      forcePass promises value = (promises, .again (.force next))) ∨
    (∃ thunk flatten promises', Waits (promiseState promises value) thunk flatten ∧
      setPromiseState promises value (.forcing thunk flatten) = some promises' ∧
      forcePass promises value = (promises', .calls thunk value flatten)) ∨
    ∃ error, forcePass promises value = (promises, .fails error) := by
  unfold forcePass
  rcases hstate : promiseState promises value with _ | state
  · exact .inr (.inr (.inr ⟨_, rfl⟩))
  · have hset : ∀ state', ∃ promises', setPromiseState promises value state' = some promises' :=
      fun state' => setPromiseState_of_isSome state' (by rw [hstate]; rfl)
    cases state with
    | done held => exact .inl ⟨held, rfl, rfl⟩
    | forward next => exact .inr (.inl ⟨next, hstate, rfl⟩)
    | pending thunk flatten =>
      obtain ⟨promises', hset⟩ := hset (.forcing thunk flatten)
      exact .inr (.inr (.inl ⟨thunk, flatten, promises', .inl rfl, hset, by simp only [hset]⟩))
    | forcing thunk flatten =>
      obtain ⟨promises', hset⟩ := hset (.forcing thunk flatten)
      exact .inr (.inr (.inl ⟨thunk, flatten, promises', .inr rfl, hset, by simp only [hset]⟩))

lemma stored_cases {values : List Value} (h : stored promises flatten values = some after) :
    after = .done values ∨ ∃ next, after = .forward next ∧
      (promiseState promises next).isSome := by
  unfold stored at h
  split_ifs at h with hflatten
  · split at h
    · split_ifs at h with hsome
      · exact .inr ⟨_, (Option.some.inj h).symm, hsome⟩
      · exact .inl (Option.some.inj h).symm
    · cases h
  · exact .inl (Option.some.inj h).symm

lemma storePass_cases (promises : Promises) (value : Value) (flatten : Bool)
    (values : List Value) :
    (∃ error, storePass promises value flatten values = (promises, .fails error)) ∨
    ∃ before after promises', promiseState promises value = some before ∧
      stored promises flatten values = some after ∧
      setPromiseState promises value after = some promises' ∧
      (after = .done values ∧ storePass promises value flatten values =
          (promises', .returns values) ∨
        ∃ next, after = .forward next ∧ storePass promises value flatten values =
          (promises', .again (.force next))) := by
  unfold storePass
  cases hstored : stored promises flatten values with
  | none => exact .inl ⟨_, rfl⟩
  | some after =>
    cases hset : setPromiseState promises value after with
    | none => exact .inl ⟨badPromise, by simp only [hset]⟩
    | some promises' =>
      obtain ⟨before, hbefore⟩ :=
        Option.isSome_iff_exists.mp (setPromiseState_eq_some hset).1
      refine .inr ⟨before, after, promises', hbefore, rfl, hset, ?_⟩
      rcases stored_cases hstored with rfl | ⟨next, rfl, -⟩
      · exact .inl ⟨rfl, by simp only [hset]⟩
      · exact .inr ⟨next, rfl, by simp only [hset]⟩

/-! ### Steps that store as they should -/

/-- If results are about to be stored, then not over the values of a promise, and not as a link
that closes a circle. -/
def Meets (m : Machine) : Prop :=
  ∀ value flatten values, m.task = some (.store value flatten values) →
    ∀ before after, promiseState m.promises value = some before →
      stored m.promises flatten values = some after →
      (∀ held, before = .done held → after = .done held) ∧
      ∀ next, after = .forward next → ¬ Leads m.promises next value

/-- Values that are stored stay, and links that come to an end still do. -/
structure Keeps (before after : Promises) : Prop where
  done : ∀ value held, promiseState before value = some (.done held) →
    promiseState after value = some (.done held)
  grounded : (∀ value, Grounded before value) → ∀ value, Grounded after value

lemma Keeps.refl (promises : Promises) : Keeps promises promises :=
  ⟨fun _ _ h => h, fun h => h⟩

lemma Keeps.trans {promises'' : Promises} (h : Keeps promises promises')
    (h' : Keeps promises' promises'') : Keeps promises promises'' :=
  ⟨fun value held hdone => h'.done value held (h.done value held hdone),
    fun hall => h'.grounded (h.grounded hall)⟩

lemma keeps_of_unlinked
    (hdone : ∀ value held, promiseState promises value = some (.done held) →
      promiseState promises' value = some (.done held))
    (hlinks : ∀ value next, Links promises' value next → Links promises value next) :
    Keeps promises promises' :=
  ⟨hdone, fun h value => (h value).of_links hlinks⟩

lemma collects_value (h : Collects promises promises') (value : Value) :
    promiseState promises' value = promiseState promises value ∨
      promiseState promises' value = none := by
  cases value with
  | heap reference => exact h reference.toNat
  | _ => exact .inl rfl

lemma Collects.grounded (h : Collects promises promises')
    (hall : ∀ value, Grounded promises value) (value : Value) : Grounded promises' value := by
  refine (hall value).of_links fun value next hlink => ?_
  rcases collects_value h value with heq | hnone
  · exact heq.symm.trans hlink
  · cases hnone.symm.trans hlink

lemma makes_value (h : Makes promises promises') (value : Value) :
    promiseState promises' value = promiseState promises value ∨
      promiseState promises value = none ∧
        ∃ held, promiseState promises' value = some (.done held) := by
  cases value with
  | heap reference => exact h reference.toNat
  | _ => exact .inl rfl

lemma Makes.keeps (h : Makes promises promises') : Keeps promises promises' := by
  refine keeps_of_unlinked (fun value held hdone => ?_) fun value next hlink => ?_
  · rcases makes_value h value with heq | ⟨hnone, -⟩
    · exact heq.trans hdone
    · cases hnone.symm.trans hdone
  · rcases makes_value h value with heq | ⟨-, held, hdone⟩
    · exact heq.symm.trans hlink
    · cases hdone.symm.trans hlink

lemma makePromise_keeps (hfree : promises[slot]? = some none) (thunk : Value) (flatten : Bool) :
    Keeps promises (promises.set slot (some (.pending thunk flatten))) := by
  have hslot : slot < promises.length := by
    by_contra hge
    rw [List.getElem?_eq_none (Nat.not_lt.mp hge)] at hfree
    cases hfree
  have hnone : slotState promises slot = none := by
    unfold slotState
    rw [hfree]
    rfl
  have hvalue : ∀ value,
      promiseState (promises.set slot (some (.pending thunk flatten))) value =
        promiseState promises value ∨ promiseState promises value = none ∧
        promiseState (promises.set slot (some (.pending thunk flatten))) value =
          some (.pending thunk flatten) := by
    intro value
    cases value with
    | heap reference =>
      simp only [promiseState, slotState_set _ _ _ _ hslot]
      by_cases heq : slot = reference.toNat
      · exact .inr ⟨heq ▸ hnone, if_pos heq⟩
      · exact .inl (if_neg heq)
    | _ => exact .inl rfl
  refine keeps_of_unlinked (fun value held hdone => ?_) fun value next hlink => ?_
  · rcases hvalue value with heq | ⟨hnone, -⟩
    · exact heq.trans hdone
    · cases hnone.symm.trans hdone
  · rcases hvalue value with heq | ⟨-, hpending⟩
    · exact heq.symm.trans hlink
    · cases hpending.symm.trans hlink

lemma forcing_keeps {thunk : Value} (hwaits : Waits (promiseState promises value) thunk flatten)
    (hset : setPromiseState promises value (.forcing thunk flatten) = some promises') :
    Keeps promises promises' := by
  obtain ⟨-, hself, hother⟩ := setPromiseState_eq_some hset
  refine keeps_of_unlinked (fun other held hdone => ?_) fun other next hlink => ?_
  · by_cases heq : other = value
    · subst heq
      rcases hwaits with hstate | hstate <;> cases hstate.symm.trans hdone
    · exact (hother other heq).trans hdone
  · by_cases heq : other = value
    · subst heq
      cases hself.symm.trans hlink
    · exact (hother other heq).symm.trans hlink

lemma store_keeps {before : PromiseState} (hbefore : promiseState promises value = some before)
    (hset : setPromiseState promises value after = some promises')
    (hdone : ∀ held, before = .done held → after = .done held)
    (hcircle : ∀ next, after = .forward next → ¬ Leads promises next value) :
    Keeps promises promises' := by
  obtain ⟨-, hself, hother⟩ := setPromiseState_eq_some hset
  refine ⟨fun other held hheld => ?_, fun hall => ?_⟩
  · by_cases heq : other = value
    · subst heq
      rw [hself, hdone held (Option.some.inj (hbefore.symm.trans hheld))]
    · exact (hother other heq).trans hheld
  · by_cases hforward : ∃ next, after = .forward next
    · obtain ⟨next, rfl⟩ := hforward
      have hlinks : ∀ other next', other ≠ value → Links promises other next' →
          Links promises' other next' :=
        fun other next' hne hlink => (hother other hne).trans hlink
      refine Grounded.of_new_link (fun other next' hlink => ?_) hlinks (hcircle next rfl) hall
      by_cases heq : other = value
      · subst heq
        exact .inr ⟨rfl, (PromiseState.forward.inj (Option.some.inj (hself.symm.trans hlink))).symm⟩
      · exact .inl ((hother other heq).symm.trans hlink)
    · refine fun other => (hall other).of_links fun other next hlink => ?_
      by_cases heq : other = value
      · subst heq
        exact absurd ⟨next, Option.some.inj (hself.symm.trans hlink)⟩ hforward
      · exact (hother other heq).symm.trans hlink

lemma pass_keeps (hm : Meets m) {task : Task} (ht : m.task = some task) {promises : Promises}
    {outcome : Outcome} (h : pass m.promises task = (promises, outcome)) :
    Keeps m.promises promises := by
  obtain rfl : (pass m.promises task).1 = promises := congrArg Prod.fst h
  cases task with
  | force value =>
    rcases forcePass_cases m.promises value with
      ⟨_, -, hpass⟩ | ⟨_, -, hpass⟩ | ⟨_, _, promises', hwaits, hset, hpass⟩ | ⟨_, hpass⟩
    all_goals rw [pass, hpass]
    · exact .refl _
    · exact .refl _
    · exact forcing_keeps hwaits hset
    · exact .refl _
  | store value flatten values =>
    rcases storePass_cases m.promises value flatten values with
      ⟨_, hpass⟩ | ⟨before, after, promises', hbefore, hstored, hset, hpass⟩
    · rw [pass, hpass]
      exact .refl _
    · obtain ⟨hdone, hcircle⟩ := hm value flatten values ht before after hbefore hstored
      have hkeeps := store_keeps hbefore hset hdone hcircle
      rcases hpass with ⟨-, hpass⟩ | ⟨_, -, hpass⟩ <;> rwa [pass, hpass]

lemma Step.keeps (hm : Meets m) (h : Step m m') :
    Keeps m.promises m'.promises ∨ Collects m.promises m'.promises := by
  cases h with
  | collect _ h => exact .inr h
  | makePromise _ hfree thunk flatten => exact .inl (makePromise_keeps hfree thunk flatten)
  | makeDone _ h => exact .inl h.keeps
  | force _ _ => exact .inl (.refl _)
  | frameReturns _ _ _ => exact .inl (.refl _)
  | again ht h => exact .inl (pass_keeps hm ht h)
  | returns ht h => exact .inl (pass_keeps hm ht h)
  | fails ht h => exact .inl (pass_keeps hm ht h)
  | enters ht h => exact .inl (pass_keeps hm ht h)
  | answers ht h hmakes _ => exact .inl ((pass_keeps hm ht h).trans hmakes.keeps)
  | leaves ht h => exact .inl (pass_keeps hm ht h)

/-! ### Runs -/

/-- The machines of the runs whose steps store as they should. -/
inductive Reachable : Machine → Prop
  | start : Reachable start
  | step {m m' : Machine} (hr : Reachable m) (hm : Meets m) (h : Step m m') : Reachable m'

/-- Such a run, during which the promise is not collected. -/
inductive Run (value : Value) : Machine → Machine → Prop
  | nil (m : Machine) : Run value m m
  | cons {m m' m'' : Machine} (hm : Meets m) (h : Step m m')
      (hlive : promiseState m'.promises value ≠ none) (hrun : Run value m' m'') : Run value m m''

lemma Run.done (hrun : Run value m m') {held : List Value}
    (hdone : promiseState m.promises value = some (.done held)) :
    promiseState m'.promises value = some (.done held) := by
  induction hrun with
  | nil => exact hdone
  | cons hm h hlive _ ih =>
    refine ih ?_
    rcases h.keeps hm with hkeeps | hcollects
    · exact hkeeps.done value held hdone
    · rcases collects_value hcollects value with heq | hnone
      · exact heq.trans hdone
      · exact absurd hnone hlive

lemma Reachable.grounded (h : Reachable m) (value : Value) :
    Grounded m.promises value := by
  induction h generalizing value with
  | start =>
    refine .stop fun next hlink => ?_
    cases value with
    | heap reference => cases hlink
    | _ => cases hlink
  | step _ hm h ih =>
    rcases h.keeps hm with hkeeps | hcollects
    · exact hkeeps.grounded ih value
    · exact hcollects.grounded ih value

/-! ### Forcing comes to an end -/

/-- A step of the two functions. -/
def Works (m' m : Machine) : Prop := m.task.isSome ∧ Step m m'

/-- A step of the two functions that stores as it should. -/
def Internal (m' m : Machine) : Prop := m.task.isSome ∧ Meets m ∧ Step m m'

def isWaiting : Option PromiseState → Bool
  | some (.pending _ _) | some (.forcing _ _) => true
  | _ => false

/-- The slots of the promises that wait for their thunks. -/
def waiting (promises : Promises) : Finset ℕ :=
  (Finset.range promises.length).filter fun slot => isWaiting (slotState promises slot)

lemma mem_waiting : slot ∈ waiting promises ↔ isWaiting (slotState promises slot) := by
  rw [waiting, Finset.mem_filter, Finset.mem_range]
  refine ⟨fun h => h.2, fun h => ⟨lt_of_slotState ?_, h⟩⟩
  cases hstate : slotState promises slot with
  | none =>
    rw [hstate] at h
    cases h
  | some _ => rfl

lemma Waits.isWaiting {state : Option PromiseState} {thunk : Value}
    (h : Waits state thunk flatten) :
    isWaiting state = true := by
  rcases h with rfl | rfl <;> rfl

lemma waiting_makes (h : Makes promises promises') : waiting promises' = waiting promises := by
  ext slot
  rw [mem_waiting, mem_waiting]
  rcases h slot with heq | ⟨hnone, held, hdone⟩
  · rw [heq]
  · rw [hnone, hdone]
    rfl

lemma exists_slot (h : isWaiting (promiseState promises value) = true) :
    ∃ reference, value = .heap reference := by
  cases value with
  | heap reference => exact ⟨reference, rfl⟩
  | _ => cases h

lemma slotState_of_set {reference : UInt32} {state : PromiseState}
    (hset : setPromiseState promises (.heap reference) state = some promises')
    (hne : slot ≠ reference.toNat) : slotState promises' slot = slotState promises slot := by
  have hsome := (setPromiseState_eq_some hset).1
  simp only [setPromiseState] at hset
  split_ifs at hset with hslot
  obtain rfl := Option.some.inj hset
  exact (slotState_set _ _ _ _ (lt_of_slotState hsome)).trans (if_neg hne.symm)

lemma waiting_forcing {thunk : Value} (hwaits : Waits (promiseState promises value) thunk flatten)
    (hset : setPromiseState promises value (.forcing thunk flatten) = some promises') :
    waiting promises' = waiting promises := by
  obtain ⟨reference, rfl⟩ := exists_slot hwaits.isWaiting
  ext slot
  rw [mem_waiting, mem_waiting]
  by_cases heq : slot = reference.toNat
  · subst heq
    have hself : slotState promises' reference.toNat = _ := (setPromiseState_eq_some hset).2.1
    rw [hself]
    exact iff_of_true rfl hwaits.isWaiting
  · rw [slotState_of_set hset heq]

lemma waiting_store (hwaits : isWaiting (promiseState promises value) = true)
    (hafter : isWaiting (some after) = false)
    (hset : setPromiseState promises value after = some promises') :
    (waiting promises').card < (waiting promises).card := by
  obtain ⟨reference, rfl⟩ := exists_slot hwaits
  refine Finset.card_lt_card ⟨fun slot hslot => ?_, fun hsubset => ?_⟩
  · rw [mem_waiting] at hslot ⊢
    by_cases heq : slot = reference.toNat
    · exact heq ▸ hwaits
    · rwa [slotState_of_set hset heq] at hslot
  · have hself : slotState promises' reference.toNat = some after :=
      (setPromiseState_eq_some hset).2.1
    have hmem := mem_waiting.mp (hsubset (mem_waiting.mpr hwaits))
    rw [hself, hafter] at hmem
    cases hmem

lemma Step.internal {task : Task} (ht : m.task = some task) (h : Step m m') :
    m'.task = none ∨
    (∃ promises task', pass m.promises task = (promises, .again task') ∧
      m' = { m with promises, task := some task' }) ∨
    ∃ promises promises' thunk value flatten values,
      pass m.promises task = (promises, .calls thunk value flatten) ∧
      Makes promises promises' ∧ m' = ⟨promises', m.frames, some (.store value flatten values)⟩ := by
  cases h with
  | collect ht' _ => cases ht'.symm.trans ht
  | makePromise ht' _ _ _ => cases ht'.symm.trans ht
  | makeDone ht' _ => cases ht'.symm.trans ht
  | force ht' _ => cases ht'.symm.trans ht
  | frameReturns ht' _ _ => cases ht'.symm.trans ht
  | again ht' hp =>
    obtain rfl := Option.some.inj (ht'.symm.trans ht)
    exact .inr (.inl ⟨_, _, hp, rfl⟩)
  | returns _ _ => exact .inl rfl
  | fails _ _ => exact .inl rfl
  | enters _ _ => exact .inl rfl
  | answers ht' hp hmakes values =>
    obtain rfl := Option.some.inj (ht'.symm.trans ht)
    exact .inr (.inr ⟨_, _, _, _, _, values, hp, hmakes, rfl⟩)
  | leaves _ _ => exact .inl rfl

/-- A step of the two functions leaves what one pass leaves, unless a thunk is called. -/
lemma Step.worked (h : Step m m') (hsome : m.task.isSome) :
    ∃ task promises outcome, m.task = some task ∧ pass m.promises task = (promises, outcome) ∧
      (m'.promises = promises ∨ ∃ thunk value flatten, outcome = .calls thunk value flatten) := by
  cases h with
  | collect ht _ => rw [ht] at hsome; cases hsome
  | makePromise ht _ _ _ => rw [ht] at hsome; cases hsome
  | makeDone ht _ => rw [ht] at hsome; cases hsome
  | force ht _ => rw [ht] at hsome; cases hsome
  | frameReturns ht _ _ => rw [ht] at hsome; cases hsome
  | again ht hp => exact ⟨_, _, _, ht, hp, .inl rfl⟩
  | returns ht hp => exact ⟨_, _, _, ht, hp, .inl rfl⟩
  | fails ht hp => exact ⟨_, _, _, ht, hp, .inl rfl⟩
  | enters ht hp => exact ⟨_, _, _, ht, hp, .inl rfl⟩
  | answers ht hp _ _ => exact ⟨_, _, _, ht, hp, .inr ⟨_, _, _, rfl⟩⟩
  | leaves ht hp => exact ⟨_, _, _, ht, hp, .inl rfl⟩

lemma acc_of_idle (ht : m.task = none) : Acc Internal m := by
  refine ⟨m, fun m' h => ?_⟩
  have htask := h.1
  rw [ht] at htask
  cases htask

lemma acc_store {frames : List (Value × Bool)} {values : List Value}
    (hall : ∀ value, Grounded promises value)
    (hforce : ∀ after promises' next, (∀ value, Grounded promises' value) →
      isWaiting (some after) = false → setPromiseState promises value after = some promises' →
      Acc Internal ⟨promises', frames, some (.force next)⟩) :
    Acc Internal ⟨promises, frames, some (.store value flatten values)⟩ := by
  refine ⟨_, fun m' ⟨_, hm, hstep⟩ => ?_⟩
  have hkeeps := hstep.keeps hm
  rcases hstep.internal rfl with ht | ⟨promises', task', hp, rfl⟩ | ⟨_, _, _, _, _, _, hp, -⟩
  · exact acc_of_idle ht
  · rcases storePass_cases promises value flatten values with
      ⟨_, hpass⟩ | ⟨before, after, promises'', hbefore, hstored, hset, hpass⟩
    · cases (Prod.ext_iff.mp (hpass.symm.trans hp)).2
    · obtain ⟨hdone, hcircle⟩ := hm value flatten values rfl before after hbefore hstored
      rcases hpass with ⟨-, hpass⟩ | ⟨next, rfl, hpass⟩
      · cases (Prod.ext_iff.mp (hpass.symm.trans hp)).2
      · obtain ⟨rfl, houtcome⟩ := Prod.ext_iff.mp (hpass.symm.trans hp)
        obtain rfl := Outcome.again.inj houtcome
        exact hforce _ _ next ((store_keeps hbefore hset hdone hcircle).grounded hall) rfl hset
  · rcases storePass_cases promises value flatten values with
      ⟨_, hpass⟩ | ⟨_, _, _, -, -, -, ⟨-, hpass⟩ | ⟨_, -, hpass⟩⟩
    all_goals cases (Prod.ext_iff.mp (hpass.symm.trans hp)).2

/-- Forcing comes to an end: links are followed to their end, and a thunk that has its results
at once leaves fewer promises that wait. -/
lemma acc_force (count : ℕ) : ∀ (promises : Promises) (frames : List (Value × Bool)),
    (waiting promises).card = count → (∀ value, Grounded promises value) → ∀ value,
    Acc Internal ⟨promises, frames, some (.force value)⟩ := by
  induction count using Nat.strong_induction_on with
  | _ count ih =>
    intro promises frames hcount hall value
    have hlink : ∀ value, (∀ next, Links promises value next →
        Acc Internal ⟨promises, frames, some (.force next)⟩) →
        Acc Internal ⟨promises, frames, some (.force value)⟩ := by
      intro value hnext
      refine ⟨_, fun m' ⟨_, hm, hstep⟩ => ?_⟩
      rcases hstep.internal rfl with
        ht | ⟨promises', task', hp, rfl⟩ | ⟨promises', promises'', _, _, _, values, hp, hmakes, rfl⟩
      · exact acc_of_idle ht
      · rcases forcePass_cases promises value with
          ⟨_, -, hpass⟩ | ⟨next, hlinks, hpass⟩ | ⟨_, _, _, -, -, hpass⟩ | ⟨_, hpass⟩
        · cases (Prod.ext_iff.mp (hpass.symm.trans hp)).2
        · obtain ⟨rfl, houtcome⟩ := Prod.ext_iff.mp (hpass.symm.trans hp)
          obtain rfl := Outcome.again.inj houtcome
          exact hnext next hlinks
        · cases (Prod.ext_iff.mp (hpass.symm.trans hp)).2
        · cases (Prod.ext_iff.mp (hpass.symm.trans hp)).2
      · rcases forcePass_cases promises value with
          ⟨_, -, hpass⟩ | ⟨_, -, hpass⟩ | ⟨_, _, promises₁, hwaits, hset, hpass⟩ | ⟨_, hpass⟩
        · cases (Prod.ext_iff.mp (hpass.symm.trans hp)).2
        · cases (Prod.ext_iff.mp (hpass.symm.trans hp)).2
        · obtain ⟨rfl, houtcome⟩ := Prod.ext_iff.mp (hpass.symm.trans hp)
          obtain ⟨rfl, rfl, rfl⟩ := Outcome.calls.inj houtcome
          have hkeeps := (forcing_keeps hwaits hset).trans hmakes.keeps
          have hsame := (waiting_makes hmakes).trans (waiting_forcing hwaits hset)
          have hself : isWaiting (promiseState promises'' value) = true := by
            rcases makes_value hmakes value with heq | ⟨hnone, -⟩
            · rw [heq, (setPromiseState_eq_some hset).2.1]
              rfl
            · cases hnone.symm.trans (setPromiseState_eq_some hset).2.1
          refine acc_store (hkeeps.grounded hall) fun after promises₂ next hall₂ hafter hset₂ => ?_
          have hless := waiting_store hself hafter hset₂
          exact ih _ (by rw [← hcount, ← hsame]; exact hless) promises₂ frames rfl hall₂ next
        · cases (Prod.ext_iff.mp (hpass.symm.trans hp)).2
    have hground := hall value
    induction hground with
    | stop hstop => exact hlink _ fun next hnext => absurd hnext (hstop next)
    | link hnext _ ih' =>
      exact hlink _ fun other hother => hnext.unique hother ▸ ih'

lemma acc_task (hall : ∀ value, Grounded m.promises value) : Acc Internal m := by
  obtain ⟨promises, frames, task⟩ := m
  match task with
  | none => exact acc_of_idle rfl
  | some (.force value) => exact acc_force _ promises frames rfl hall value
  | some (.store value flatten values) =>
    exact acc_store hall fun _ promises' next hall' _ _ =>
      acc_force _ promises' frames rfl hall' next

/-! ### Steps that do not -/

lemma grounded_of_acc (h : Acc Works m) : ∀ value,
    m.task = some (.force value) → Grounded m.promises value := by
  induction h with
  | intro m _ ih =>
    intro value ht
    by_cases hlink : ∃ next, Links m.promises value next
    · obtain ⟨next, hlink⟩ := hlink
      have hp : pass m.promises (.force value) = (m.promises, .again (.force next)) := by
        unfold Links at hlink
        rw [pass, forcePass, hlink]
      have hworks : Works { m with task := some (.force next) } m :=
        ⟨by rw [ht]; rfl, .again ht hp⟩
      exact .link hlink (ih _ hworks next rfl)
    · exact .stop fun next hnext => hlink ⟨next, hnext⟩

lemma leads_set (hset : setPromiseState promises value after = some promises') {other : Value}
    (h : Leads promises other value) : Leads promises' other value := by
  induction h using Relation.ReflTransGen.head_induction_on with
  | refl => exact .refl
  | @head other next hlink _ ih =>
    by_cases heq : other = value
    · exact heq ▸ .refl
    · exact .head (((setPromiseState_eq_some hset).2.2 other heq).trans hlink) ih

/-- A step that does not store as it should takes a promise its values, or does not end. -/
lemma not_meets {values : List Value} (ht : m.task = some (.store value flatten values))
    (hm : ¬ Meets m) :
    (∃ held, promiseState m.promises value = some (.done held) ∧
      ∀ m', Step m m' → promiseState m'.promises value ≠ some (.done held)) ∨
    ¬ Acc Works m := by
  unfold Meets at hm
  push Not at hm
  obtain ⟨value', flatten', values', ht', before, after, hbefore, hstored, hmiss⟩ := hm
  obtain ⟨rfl, rfl, rfl⟩ := Task.store.inj (Option.some.inj (ht.symm.trans ht'))
  obtain ⟨promises', hset⟩ := setPromiseState_of_isSome after (by rw [hbefore]; rfl)
  obtain ⟨-, hself, -⟩ := setPromiseState_eq_some hset
  have hpass : ∃ outcome, storePass m.promises value flatten values = (promises', outcome) ∧
      (∀ thunk promise flatten, outcome ≠ .calls thunk promise flatten) ∧
      ∀ next, after = .forward next → outcome = .again (.force next) := by
    unfold storePass
    rw [hstored]
    simp only [hset]
    rcases stored_cases hstored with rfl | ⟨next, rfl, -⟩
    · exact ⟨_, rfl, (fun _ _ _ h => nomatch h), (fun _ h => nomatch h)⟩
    · refine ⟨_, rfl, (fun _ _ _ h => nomatch h), fun next' hnext => ?_⟩
      rw [PromiseState.forward.inj hnext]
  obtain ⟨outcome, hpass, hcalls, hagain⟩ := hpass
  by_cases hdone : ∀ held, before = .done held → after = .done held
  · right
    obtain ⟨next, rfl, hleads⟩ := hmiss hdone
    intro hacc
    have hworks : Works ⟨promises', m.frames, some (.force next)⟩ m :=
      ⟨by rw [ht]; rfl, .again ht (hpass.trans (by rw [hagain next rfl]))⟩
    have hground := grounded_of_acc (hacc.inv hworks) next rfl
    exact hground.not_circle (Relation.TransGen.tail' (leads_set hset hleads) hself)
  · left
    push Not at hdone
    obtain ⟨held, rfl, hafter⟩ := hdone
    refine ⟨held, hbefore, fun m' hstep hheld => ?_⟩
    have hpromises : m'.promises = promises' := by
      obtain ⟨task, promises, outcome', ht', hp, heq⟩ := hstep.worked (by rw [ht]; rfl)
      obtain rfl := Option.some.inj (ht'.symm.trans ht)
      obtain ⟨rfl, rfl⟩ := Prod.ext_iff.mp (hp.symm.trans hpass)
      rcases heq with heq | ⟨thunk, promise, flatten, rfl⟩
      · exact heq
      · exact absurd rfl (hcalls thunk promise flatten)
    rw [hpromises, hself] at hheld
    exact hafter (Option.some.inj hheld)

/-- **Promises keep their values, and forcing comes to an end.** So it is in every run in which
results are stored neither over the values of a promise nor as a link that closes a circle. A
step that does store so takes a promise its values or does not end. -/
theorem promises_keep (hr : Reachable m) :
    (∀ value held, promiseState m.promises value = some (.done held) → ∀ m', Run value m m' →
      promiseState m'.promises value = some (.done held) ∧
      pass m'.promises (.force value) = (m'.promises, .returns held)) ∧
    (∀ value, Acc Internal { m with task := some (.force value) }) ∧ Acc Internal m ∧
    ∀ value flatten values, m.task = some (.store value flatten values) → ¬ Meets m →
      (∃ held, promiseState m.promises value = some (.done held) ∧
        ∀ m', Step m m' → promiseState m'.promises value ≠ some (.done held)) ∨
      ¬ Acc Works m := by
  refine ⟨fun value held hdone m' hrun => ?_, fun value => ?_, acc_task hr.grounded,
    fun _ _ _ => not_meets⟩
  · have hdone' := hrun.done hdone
    refine ⟨hdone', ?_⟩
    rw [pass, forcePass, hdone']
  · have hall : ∀ other, Grounded { m with task := some (Task.force value) }.promises other :=
      hr.grounded
    exact acc_task hall

/-! ### A promise that is stored to twice, and one that is forwarded to itself -/

/-- One promise, whose thunk has not been called. -/
def onePromise (flatten : Bool) : Machine := ⟨[some (.pending .nil flatten)], [], none⟩

lemma start_onePromise (flatten : Bool) :
    Relation.ReflTransGen Step start (onePromise flatten) := by
  have hgrow : Collects [] [none] := by
    rintro (_ | slot)
    · exact .inr rfl
    · exact .inr rfl
  have hmake : Step ⟨[none], [], none⟩ ⟨[none].set 0 (some (.pending .nil flatten)), [], none⟩ :=
    .makePromise rfl rfl .nil flatten
  exact .tail (.single (.collect rfl hgrow)) hmake

lemma force_onePromise (flatten : Bool) (frames : List (Value × Bool)) {state : PromiseState}
    (h : Waits (some state) .nil flatten) :
    Relation.ReflTransGen Step ⟨[some state], frames, none⟩
      ⟨[some (.forcing .nil flatten)], (.heap 0, flatten) :: frames, none⟩ := by
  have hp : pass [some state] (.force (.heap 0)) =
      ([some (.forcing .nil flatten)], .calls .nil (.heap 0) flatten) := by
    rcases h with h | h <;> obtain rfl := Option.some.inj h <;> rfl
  have hforce : Step ⟨[some state], frames, none⟩ ⟨[some state], frames, some (.force (.heap 0))⟩ :=
    .force rfl (.heap 0)
  have henters : Step ⟨[some state], frames, some (.force (.heap 0))⟩
      ⟨[some (.forcing .nil flatten)], (.heap 0, flatten) :: frames, none⟩ := .enters rfl hp
  exact .tail (.single hforce) henters

/-- **Values do not stay.** The thunk of a promise forces the promise itself: the inner results
are stored, and then the outer ones over them. A promise that is forwarded to itself is forced
without end. -/
theorem promises_do_not_keep :
    (∃ m m', Relation.ReflTransGen Step start m ∧ Relation.ReflTransGen Step m m' ∧
      promiseState m.promises (.heap 0) = some (.done [.fixnum 1]) ∧
      promiseState m'.promises (.heap 0) = some (.done [.fixnum 2])) ∧
    ∃ m, Relation.ReflTransGen Step start m ∧ ¬ Acc Works m := by
  constructor
  · let frames : List (Value × Bool) := [(.heap 0, false), (.heap 0, false)]
    have hforced : Relation.ReflTransGen Step start
        ⟨[some (.forcing .nil false)], frames, none⟩ :=
      ((start_onePromise false).trans (force_onePromise false [] (.inl rfl))).trans
        (force_onePromise false _ (.inr rfl))
    have hstore : ∀ state value, Relation.ReflTransGen Step ⟨[some state], frames, none⟩
        ⟨[some (.done [value])], frames, none⟩ := by
      intro state value
      have hreturns : Step ⟨[some state], frames, none⟩
          ⟨[some state], frames, some (.store (.heap 0) false [value])⟩ :=
        .frameReturns rfl (List.mem_cons_self ..) [value]
      exact .tail (.single hreturns) (.returns rfl rfl)
    exact ⟨_, _, hforced.trans (hstore _ (.fixnum 1)), hstore _ (.fixnum 2), rfl, rfl⟩
  · have hforced : Relation.ReflTransGen Step start
        ⟨[some (.forcing .nil true)], [(.heap 0, true)], none⟩ :=
      (start_onePromise true).trans (force_onePromise true [] (.inl rfl))
    have hreturns : Step ⟨[some (.forcing .nil true)], [(.heap 0, true)], none⟩
        ⟨[some (.forcing .nil true)], [(.heap 0, true)],
          some (.store (.heap 0) true [.heap 0])⟩ :=
      .frameReturns rfl (List.mem_cons_self ..) [.heap 0]
    have hmiss : ¬ Meets ⟨[some (.forcing .nil true)], [(.heap 0, true)],
        some (.store (.heap 0) true [.heap 0])⟩ := fun hm =>
      (hm (.heap 0) true [.heap 0] rfl _ _ rfl rfl).2 (.heap 0) rfl .refl
    refine ⟨_, hforced.tail hreturns, ?_⟩
    rcases not_meets rfl hmiss with ⟨held, hdone, -⟩ | hnot
    · cases hdone
    · exact hnot

/-- Two promises; the thunk of the first runs, and has forced the second. -/
def nestedForce : Machine :=
  ⟨[some (.forcing .nil true), some (.done [.fixnum 1])],
    [(.heap 1, false), (.heap 0, true)], none⟩

lemma nestedForce_reachable : Reachable nestedForce := by
  have hgrow : Collects [] [none, none] := by
    rintro (_ | _ | slot)
    · exact .inr rfl
    · exact .inr rfl
    · exact .inr rfl
  have hfirst : Step ⟨[none, none], [], none⟩
      ⟨[none, none].set 0 (some (.pending .nil true)), [], none⟩ := .makePromise rfl rfl .nil true
  have hsecond : Step ⟨[some (.pending .nil true), none], [], none⟩
      ⟨[some (.pending .nil true), none].set 1 (some (.pending .nil false)), [], none⟩ :=
    .makePromise rfl rfl .nil false
  have hmade : Reachable ⟨[some (.pending .nil true), some (.pending .nil false)], [], none⟩ :=
    .step (.step (.step .start (fun _ _ _ ht => by cases ht) (.collect rfl hgrow))
      (fun _ _ _ ht => by cases ht) hfirst) (fun _ _ _ ht => by cases ht) hsecond
  have houter : Reachable ⟨[some (.forcing .nil true), some (.pending .nil false)],
      [(.heap 0, true)], none⟩ :=
    .step (.step hmade (fun _ _ _ ht => by cases ht) (.force rfl (.heap 0)))
      (fun _ _ _ ht => by cases ht) (.enters rfl rfl)
  have hinner : Reachable ⟨[some (.forcing .nil true), some (.forcing .nil false)],
      [(.heap 1, false), (.heap 0, true)], none⟩ :=
    .step (.step houter (fun _ _ _ ht => by cases ht) (.force rfl (.heap 1)))
      (fun _ _ _ ht => by cases ht) (.enters rfl rfl)
  refine .step (.step hinner (fun _ _ _ ht => by cases ht)
    (.frameReturns rfl (List.mem_cons_self ..) [.fixnum 1])) ?_ (.returns rfl rfl)
  intro value flatten values ht before after hbefore hstored
  obtain ⟨rfl, rfl, rfl⟩ := Task.store.inj (Option.some.inj ht)
  cases hbefore
  cases hstored
  exact ⟨fun _ h => (by cases h), fun _ h => (by cases h)⟩

/-- The thunk of the first promise returns the second one. The second keeps its value, and forcing
the first comes to an end. -/
theorem promises_keep_nested :
    ∃ m', Run (.heap 1) nestedForce m' ∧
      m'.promises = [some (.forward (.heap 1)), some (.done [.fixnum 1])] ∧
      pass m'.promises (.force (.heap 1)) = (m'.promises, .returns [.fixnum 1]) ∧
      Acc Internal { nestedForce with task := some (.force (.heap 0)) } := by
  have hmeets : Meets { nestedForce with task := some (.store (.heap 0) true [.heap 1]) } := by
    intro value flatten values ht before after hbefore hstored
    obtain ⟨rfl, rfl, rfl⟩ := Task.store.inj (Option.some.inj ht)
    cases hbefore
    cases hstored
    refine ⟨fun _ h => (by cases h), fun next hnext hleads => ?_⟩
    obtain rfl := PromiseState.forward.inj hnext
    -- the second promise has no link
    rcases Relation.ReflTransGen.cases_head hleads with heq | ⟨other, hlink, -⟩
    · cases heq
    · cases hlink
  have hrun : Run (.heap 1) nestedForce
      ⟨[some (.forward (.heap 1)), some (.done [.fixnum 1])], nestedForce.frames, none⟩ :=
    .cons (fun _ _ _ ht => by cases ht) (.frameReturns rfl (List.mem_cons_of_mem _
      (List.mem_cons_self ..)) [.heap 1]) (fun h => by cases h)
      (.cons hmeets (.again rfl rfl) (fun h => by cases h)
        (.cons (fun _ _ _ ht => by cases ht) (.returns rfl rfl) (fun h => by cases h) (.nil _)))
  obtain ⟨hkeep, hends, -⟩ := promises_keep nestedForce_reachable
  exact ⟨_, hrun, rfl, (hkeep (.heap 1) [.fixnum 1] rfl _ hrun).2, hends (.heap 0)⟩

end Neetan.Promise
