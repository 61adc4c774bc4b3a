import Neetan.Parameters

/-!
Parameters follow the extents of their bindings.

The stack of outer values lists what the open bindings hide, and the store holds what the
innermost of them gives. Every way to take bindings back keeps this: a return takes the last
group, a jump takes all and puts those of the continuation in place, an exit takes all. Only
a failure takes none.
-/

namespace Neetan.Parameters

variable {V : Type} [DecidableEq V]

/-! ### Values -/

lemma value_set (store : Store V) (parameter value other : V) :
    (store.set parameter value).value other =
      if other = parameter then (store other).map fun _ => value else store.value other := by
  unfold Store.value Store.set
  split
  · rw [Option.map_map]
    rfl
  · rfl

lemma isSome_set (store : Store V) (parameter value other : V) :
    ((store.set parameter value) other).isSome = (store other).isSome := by
  unfold Store.set
  split
  · rw [Option.isSome_map]
  · rfl

omit [DecidableEq V] in
lemma isSome_of_value {store : Store V} {parameter value : V}
    (h : store.value parameter = some value) : (store parameter).isSome := by
  rw [Store.value, Option.map_eq_some_iff] at h
  obtain ⟨p, hp, _⟩ := h
  rw [hp]
  rfl

lemma value_setAll {values : List (V × V)} {store : Store V}
    (h : ∀ b ∈ values, (store b.1).isSome) (parameter : V) :
    (store.setAll values).value parameter =
      (values.reverse.lookup parameter).or (store.value parameter) := by
  induction values generalizing store with
  | nil => rfl
  | cons b rest ih =>
    have hrest : ∀ c ∈ rest, ((store.set b.1 b.2) c.1).isSome := fun c hc => by
      rw [isSome_set]
      exact h c (List.mem_cons_of_mem _ hc)
    change ((store.set b.1 b.2).setAll rest).value parameter = _
    rw [ih hrest, List.reverse_cons, List.lookup_append, Option.or_assoc, value_set]
    congr 1
    split
    case isTrue heq =>
      subst heq
      obtain ⟨p, hp⟩ := Option.isSome_iff_exists.1 (h b (List.mem_cons_self ..))
      obtain ⟨key, value⟩ := b
      simp [hp]
    case isFalse hne =>
      obtain ⟨key, value⟩ := b
      simp [List.lookup_cons, beq_false_of_ne hne]

variable {base base' : V → Option V} {groups : List (Group V)} {bindings : List (V × V)}
  {r : Result V} {group : Group V} {p : V}

lemma mem_of_lookup {parameter value : V} (h : bindings.lookup parameter = some value) :
    (parameter, value) ∈ bindings := by
  obtain ⟨front, back, rfl, _⟩ := List.lookup_eq_some_iff.1 h
  simp

lemma lookup_isSome_iff {parameter : V} :
    (bindings.lookup parameter).isSome ↔ parameter ∈ bindings.map Prod.fst := by
  rw [List.lookup_isSome_iff, List.mem_map]
  exact exists_congr fun b => and_congr_right fun _ => by rw [beq_iff_eq, eq_comm]

/-- Values that agree with a target settle the parameters they are stored in. -/
lemma setAll_settles {target : V → Option V} {values : List (V × V)} {store : Store V}
    (hvalues : ∀ b ∈ values, target b.1 = some b.2)
    (hsome : ∀ b ∈ values, (store b.1).isSome)
    (hstore : ∀ p, p ∉ values.map Prod.fst → store.value p = target p) (p : V) :
    (store.setAll values).value p = target p := by
  rw [value_setAll hsome]
  cases hlookup : values.reverse.lookup p with
  | some v =>
    have hmem := List.mem_reverse.1 (mem_of_lookup hlookup)
    exact (hvalues _ hmem).symm
  | none =>
    refine hstore p fun hmem => ?_
    rw [← List.mem_reverse, ← List.map_reverse, ← lookup_isSome_iff, hlookup] at hmem
    cases hmem

lemma innermost_cons (base : V → Option V) (group : Group V) (groups : List (Group V)) (p : V) :
    innermost base (group :: groups) p = (group.lookup p).or (innermost base groups p) := by
  rw [innermost, List.flatten_cons, List.lookup_append, Option.or_assoc, innermost]

lemma innermost_carry {v : V} (hbase : ∀ v, base p = some v → base' p = some v)
    (h : innermost base groups p = some v) :
    innermost base' groups p = some v := by
  unfold innermost at h ⊢
  rw [Option.or_eq_some_iff] at h ⊢
  exact h.imp_right fun hout => ⟨hout.1, hbase v hout.2⟩

/-! ### The stack of outer values -/

/-- The bindings list, group by group, what the groups hide. -/
def Saved (base : V → Option V) : List (Group V) → List (V × V) → Prop
  | [], bindings => bindings = []
  | group :: groups, bindings => ∃ outer rest, bindings = outer ++ rest ∧
      outer.map Prod.fst = group.map Prod.fst ∧
      (∀ b ∈ outer, innermost base groups b.1 = some b.2) ∧ Saved base groups rest

lemma Saved.carry (h : Saved base groups bindings)
    (hbase : ∀ p ∈ bindings.map Prod.fst, ∀ v, base p = some v → base' p = some v) :
    Saved base' groups bindings := by
  induction groups generalizing bindings with
  | nil => exact h
  | cons group groups ih =>
    obtain ⟨outer, rest, rfl, hnames, houter, hrest⟩ := h
    rw [List.map_append] at hbase
    refine ⟨outer, rest, rfl, hnames, fun b hb => ?_,
      ih hrest fun p hp => hbase p (List.mem_append_right _ hp)⟩
    exact innermost_carry (hbase b.1 (List.mem_append_left _ (List.mem_map_of_mem hb)))
      (houter b hb)

lemma Saved.names (h : Saved base groups bindings) :
    bindings.map Prod.fst = groups.flatten.map Prod.fst := by
  induction groups generalizing bindings with
  | nil => rw [show bindings = [] from h]; rfl
  | cons group groups ih =>
    obtain ⟨outer, rest, rfl, hnames, _, hrest⟩ := h
    rw [List.map_append, List.flatten_cons, List.map_append, hnames, ih hrest]

lemma Saved.base_isSome (h : Saved base groups bindings) (hp : p ∈ bindings.map Prod.fst) :
    (base p).isSome := by
  induction groups generalizing bindings with
  | nil =>
    rw [show bindings = [] from h] at hp
    cases hp
  | cons group groups ih =>
    obtain ⟨outer, rest, rfl, _, houter, hrest⟩ := h
    by_cases hin : p ∈ rest.map Prod.fst
    · exact ih hrest hin
    · rw [List.map_append, List.mem_append] at hp
      obtain ⟨b, hb, rfl⟩ := List.mem_map.1 (hp.resolve_right hin)
      have hvalue := houter b hb
      rw [hrest.names, ← lookup_isSome_iff, Bool.not_eq_true, Option.isSome_eq_false_iff,
        Option.isNone_iff_eq_none] at hin
      rw [innermost, hin, Option.none_or] at hvalue
      rw [hvalue]
      rfl

lemma innermost_isSome (h : p ∈ groups.flatten.map Prod.fst) :
    (innermost base groups p).isSome := by
  rw [innermost, Option.isSome_or, lookup_isSome_iff.2 h, Bool.true_or]

lemma setAll_group {outer : List (V × V)} {store : Store V}
    (hstore : ∀ p, store.value p = innermost base (group :: groups) p)
    (hnames : outer.map Prod.fst = group.map Prod.fst)
    (houter : ∀ b ∈ outer, innermost base groups b.1 = some b.2) (p : V) :
    (store.setAll outer).value p = innermost base groups p := by
  refine setAll_settles houter (fun b hb => ?_) (fun q hq => ?_) p
  · have hmem : b.1 ∈ (group :: groups).flatten.map Prod.fst := by
      rw [List.flatten_cons, List.map_append, ← hnames]
      exact List.mem_append_left _ (List.mem_map_of_mem hb)
    obtain ⟨v, hv⟩ := Option.isSome_iff_exists.1 (@innermost_isSome V _ base _ _ hmem)
    exact isSome_of_value ((hstore b.1).trans hv)
  · rw [hnames, ← lookup_isSome_iff, Bool.not_eq_true, Option.isSome_eq_false_iff,
      Option.isNone_iff_eq_none] at hq
    rw [hstore, innermost_cons, hq, Option.none_or]

lemma setAll_saved {store : Store V} (h : Saved base groups bindings)
    (hstore : ∀ p, store.value p = innermost base groups p) (p : V) :
    (store.setAll bindings).value p = base p := by
  induction groups generalizing bindings store with
  | nil =>
    rw [show bindings = [] from h]
    exact hstore p
  | cons group groups ih =>
    obtain ⟨outer, rest, rfl, hnames, houter, hrest⟩ := h
    rw [Store.setAll, List.foldl_append]
    exact ih hrest (setAll_group hstore hnames houter)

/-! ### What actions and continuations remember -/

/-- The outer values that an action holds are those under the frames below it. -/
def ActionFits (base : V → Option V) (below : List (Frame V (Continuation V))) :
    ReturnAction V (Continuation V) → Prop
  | .restorePort parameter old _ => innermost base (activeGroups below) parameter = some old
  | .convertedParameter parameter old remaining converted => below ≠ [] ∧
      innermost base (activeGroups below) parameter = some old ∧
      ∀ c ∈ remaining ++ converted, innermost base (activeGroups below) c.1 = some c.2.1
  | .exitCleanup _ => below = []
  | _ => True

def FramesFit (base : V → Option V) : List (Frame V (Continuation V)) → Prop
  | [] => True
  | frame :: below => ActionFits base below frame.returnAction ∧ FramesFit base below

lemma ActionFits.carry {below : List (Frame V (Continuation V))}
    {action : ReturnAction V (Continuation V)} (h : ActionFits base below action)
    (hbase : ∀ p ∈ action.pending, ∀ v, base p = some v → base' p = some v) :
    ActionFits base' below action := by
  cases action with
  | restorePort parameter old port =>
    exact innermost_carry (hbase _ (List.mem_singleton_self _)) h
  | convertedParameter parameter old remaining converted =>
    obtain ⟨hbelow, hold, hothers⟩ := h
    refine ⟨hbelow, innermost_carry (hbase _ (List.mem_cons_self ..)) hold, fun c hc => ?_⟩
    exact innermost_carry (hbase _ (List.mem_cons_of_mem _ (List.mem_map_of_mem hc)))
      (hothers c hc)
  | exitCleanup => exact h
  | _ => trivial

lemma FramesFit.carry {frames : List (Frame V (Continuation V))} (h : FramesFit base frames)
    (hbase : ∀ p ∈ frames.flatMap fun frame => frame.returnAction.pending,
      ∀ v, base p = some v → base' p = some v) : FramesFit base' frames := by
  induction frames with
  | nil => trivial
  | cons frame below ih =>
    rw [List.flatMap_cons] at hbase
    exact ⟨h.1.carry fun p hp => hbase p (List.mem_append_left _ hp),
      ih h.2 fun p hp => hbase p (List.mem_append_right _ hp)⟩

/-- The frames that an exit has left are under a frame that never goes on below. -/
def Rooted (frames abandoned : List (Frame V (Continuation V))) : Prop :=
  abandoned ≠ [] → ∀ frame ∈ frames.getLast?, frame.returnAction.resumes = false

/-- A continuation whose parts belong together. -/
inductive Good : Continuation V → Prop
  | mk {k : Continuation V} (saved : Saved k.base (activeGroups k.frames) k.parameters)
      (names : ∀ p, p ∈ k.parameterValues.map Prod.fst ↔ p ∈ k.parameters.map Prod.fst)
      (values : ∀ b ∈ k.parameterValues,
        innermost k.base (activeGroups k.frames) b.1 = some b.2)
      (fits : FramesFit k.base k.frames) (rooted : Rooted k.frames k.abandoned)
      (nonempty : k.frames ≠ [])
      (held : ∀ frame ∈ k.frames, ∀ k', frame.returnAction.continuation? = some k' → Good k') :
      Good k

/-- What holds of a state beside bindings that no frame has yet. -/
structure Inv (s : State V) (extra : List (Group V)) : Prop where
  saved : Saved s.base (extra ++ s.groups) s.parameters
  store : ∀ p, s.store.value p = innermost s.base (extra ++ s.groups) p
  fits : FramesFit s.base s.frames
  rooted : Rooted s.frames s.abandoned
  held : ∀ frame ∈ s.frames, ∀ k, frame.returnAction.continuation? = some k → Good k
  good : ∀ k ∈ s.continuations, Good k
  since : ∀ p v, s.start p = some v → s.base p = some v

/-- The parameters that a continuation has bound or is about to bind have, outside all
bindings, the values they had when it was captured. -/
def Unchanged (s : State V) (k : Continuation V) : Prop := ∀ p ∈ k.touched, k.base p = s.base p

/-! ### The operations keep the invariant -/

variable {s : State V} {extra : List (Group V)}

lemma Inv.alloc (h : Inv s extra) {handle : V} (hnew : s.store handle = none)
    (parameter : Parameter V) : Inv (s.alloc handle parameter) extra := by
  have hnone : innermost s.base (extra ++ s.groups) handle = none := by
    rw [← h.store, Store.value, hnew]
    rfl
  have hlookup : (extra ++ s.groups).flatten.lookup handle = none ∧ s.base handle = none := by
    rwa [innermost, Option.or_eq_none_iff] at hnone
  have hcarry : ∀ p v, s.base p = some v → (s.alloc handle parameter).base p = some v := by
    intro p v hv
    have hne : p ≠ handle := fun heq => by rw [heq, hlookup.2] at hv; cases hv
    exact (if_neg hne).trans hv
  refine ⟨h.saved.carry fun p _ => hcarry p, fun p => ?_, h.fits.carry fun p _ => hcarry p,
    h.rooted, h.held, h.good, fun p v hv => hcarry p v (h.since p v hv)⟩
  change Option.map Parameter.value (if p = handle then some parameter else s.store p) =
    ((extra ++ s.groups).flatten.lookup p).or
      (if p = handle then some parameter.value else s.base p)
  split
  case isTrue heq =>
    subst heq
    rw [hlookup.1]
    rfl
  case isFalse => exact h.store p

lemma Inv.beginExit (h : Inv s extra) : Inv s.beginExit [] where
  saved := rfl
  store := setAll_saved h.saved h.store
  fits := trivial
  rooted := fun _ _ hlast => by cases hlast
  held := fun _ hframe => by cases hframe
  good := h.good
  since := h.since

lemma Inv.restore (h : Inv s extra) {k : Continuation V} (hk : Good k) (hu : Unchanged s k) :
    Inv (s.restore k) [] ∧ (s.restore k).frames ≠ [] := by
  obtain ⟨saved, names, values, fits, rooted, nonempty, held⟩ := hk
  have hbound : ∀ p ∈ k.parameters.map Prod.fst, ∀ v, k.base p = some v → s.base p = some v :=
    fun p hp v hv => hu p (List.mem_append_left _ hp) ▸ hv
  have hvalues : ∀ b ∈ k.parameterValues,
      innermost s.base (activeGroups k.frames) b.1 = some b.2 := fun b hb =>
    innermost_carry (hbound _ ((names _).1 (List.mem_map_of_mem hb))) (values b hb)
  refine ⟨⟨saved.carry hbound, fun p => ?_, fits.carry fun p hp v hv => ?_, rooted, held,
    h.good, h.since⟩, nonempty⟩
  · refine setAll_settles hvalues (fun b hb => ?_) (fun q hq => ?_) p
    · obtain ⟨v, hv⟩ := Option.isSome_iff_exists.1
        ((saved.carry hbound).base_isSome ((names _).1 (List.mem_map_of_mem hb)))
      exact isSome_of_value ((setAll_saved h.saved h.store b.1).trans hv)
    · rw [setAll_saved h.saved h.store q]
      rw [names, saved.names, ← lookup_isSome_iff, Bool.not_eq_true, Option.isSome_eq_false_iff,
        Option.isNone_iff_eq_none] at hq
      change s.base q = (((activeGroups k.frames).flatten.lookup q).or (s.base q))
      rw [hq, Option.none_or]
  · exact hu p (List.mem_append_right _ hp) ▸ hv

lemma Inv.popParameters (h : Inv s (group :: extra)) :
    Inv (s.popParameters group.length) extra := by
  obtain ⟨outer, rest, hparameters, hnames, houter, hrest⟩ := h.saved
  have hlen : group.length = outer.length := by
    simpa using (congrArg List.length hnames).symm
  have htake : s.parameters.take group.length = outer := by
    rw [hparameters, hlen, List.take_left]
  have hdrop : s.parameters.drop group.length = rest := by
    rw [hparameters, hlen, List.drop_left]
  refine ⟨?_, fun p => ?_, h.fits, h.rooted, h.held, h.good, h.since⟩
  · change Saved s.base (extra ++ s.groups) (s.parameters.drop group.length)
    rwa [hdrop]
  · change (s.store.setAll (s.parameters.take group.length)).value p = _
    rw [htake]
    exact setAll_group h.store hnames houter p

lemma Inv.bindAll (h : Inv s []) {converted : List (V × V × V)}
    (hold : ∀ c ∈ converted, innermost s.base s.groups c.1 = some c.2.1) :
    Inv (s.bindAll converted) [groupOf converted] := by
  refine ⟨⟨_, _, rfl, ?_, fun b hb => ?_, h.saved⟩, fun p => ?_, h.fits, h.rooted, h.held,
    h.good, h.since⟩
  · simp [groupOf, Function.comp_def]
  · obtain ⟨c, hc, rfl⟩ := List.mem_map.1 (List.mem_reverse.1 hb)
    exact hold c hc
  · have hsome : ∀ b ∈ converted.map fun c => (c.1, c.2.2), (s.store b.1).isSome := by
      intro b hb
      obtain ⟨c, hc, rfl⟩ := List.mem_map.1 hb
      exact isSome_of_value ((h.store c.1).trans (hold c hc))
    change (s.store.setAll _).value p = innermost s.base (groupOf converted :: s.groups) p
    rw [value_setAll hsome, innermost_cons, h.store]
    rfl

/-- The groups of the running frame change, and with them the bindings that no frame has. -/
lemma Inv.regroup (h : Inv s extra) {frame frame' : Frame V (Continuation V)}
    {rest : List (Frame V (Continuation V))} {extra' : List (Group V)}
    (hf : s.frames = frame :: rest) (ha : frame'.returnAction = frame.returnAction)
    (hgroups : extra' ++ frame'.groups = extra ++ frame.groups) :
    Inv { s with frames := frame' :: rest } extra' := by
  have hactive : extra' ++ activeGroups (frame' :: rest) = extra ++ s.groups := by
    rw [State.groups, hf]
    simp only [activeGroups, List.flatMap_cons, ha, ← List.append_assoc, hgroups]
  refine ⟨hactive ▸ h.saved, fun p => ?_, ?_, fun hne last hlast => ?_, ?_, h.good, h.since⟩
  · change s.store.value p = innermost s.base (extra' ++ activeGroups (frame' :: rest)) p
    rw [hactive]
    exact h.store p
  · have hfits := h.fits
    rw [hf] at hfits
    exact ⟨ha ▸ hfits.1, hfits.2⟩
  · have hrooted := h.rooted hne
    rw [hf] at hrooted
    cases rest with
    | nil =>
      obtain rfl : frame' = last := Option.some.inj hlast
      rw [ha]
      exact hrooted frame rfl
    | cons next rest => exact hrooted last hlast
  · have hheld := h.held
    rw [hf, List.forall_mem_cons] at hheld
    exact List.forall_mem_cons.2 ⟨ha ▸ hheld.1, hheld.2⟩

lemma Inv.openGroup (h : Inv s [group]) (hframes : s.frames ≠ []) :
    Inv (s.openGroup group) [] ∧ (s.openGroup group).frames ≠ [] := by
  obtain ⟨frame, rest, hf⟩ := List.exists_cons_of_ne_nil hframes
  rw [State.openGroup, hf]
  exact ⟨h.regroup hf rfl rfl, List.cons_ne_nil _ _⟩

lemma Inv.closeGroup (h : Inv s []) {frame : Frame V (Continuation V)}
    {rest : List (Frame V (Continuation V))} (hf : s.frames = frame :: rest)
    (hg : frame.groups = group :: groups) :
    Inv s.closeGroup [group] ∧ s.closeGroup.frames ≠ [] := by
  rw [State.closeGroup, hf]
  refine ⟨h.regroup hf rfl ?_, List.cons_ne_nil _ _⟩
  rw [hg]
  rfl

lemma Inv.capture (h : Inv s []) (hframes : s.frames ≠ []) : Good s.capture := by
  refine .mk h.saved (fun p => ?_) (fun b hb => ?_) h.fits h.rooted hframes h.held
  · refine ⟨fun hp => ?_, fun hp => ?_⟩
    · obtain ⟨b, hb, rfl⟩ := List.mem_map.1 hp
      obtain ⟨c, hc, hvalue⟩ := List.mem_filterMap.1 hb
      obtain ⟨v, _, rfl⟩ := Option.map_eq_some_iff.1 hvalue
      exact List.mem_map.2 ⟨c, hc, rfl⟩
    · obtain ⟨b, hb, rfl⟩ := List.mem_map.1 hp
      have hin : b.1 ∈ ([] ++ s.groups).flatten.map Prod.fst := h.saved.names ▸ hp
      obtain ⟨v, hv⟩ := Option.isSome_iff_exists.1 (@innermost_isSome V _ s.base _ _ hin)
      refine List.mem_map.2 ⟨(b.1, v), List.mem_filterMap.2 ⟨b, hb, ?_⟩, rfl⟩
      rw [h.store, hv]
      rfl
  · obtain ⟨c, _, hvalue⟩ := List.mem_filterMap.1 hb
    obtain ⟨v, hv, rfl⟩ := Option.map_eq_some_iff.1 hvalue
    exact (h.store c.1).symm.trans hv

/-! ### Tasks -/

/-- What a task relies on. -/
def Task.Pre (s : State V) : Task V → Prop
  | .call true _ => Inv s [] ∧ ∃ frame rest, s.frames = frame :: rest ∧ frame.groups = []
  | .call false action | .complete action => Inv s action.groups ∧
      ActionFits s.base s.frames action ∧ (∀ k, action.continuation? = some k → Good k) ∧
      (s.frames = [] → s.abandoned ≠ [] → action.resumes = false)
  | .exit _ => Inv s [] ∧ s.frames = []
  | .bind remaining converted => Inv s [] ∧ s.frames ≠ [] ∧
      ∀ c ∈ remaining ++ converted, innermost s.base s.groups c.1 = some c.2.1

/-- What a step leaves. -/
def Result.Post : Result V → Prop
  | .running s => Inv s [] ∧ s.frames ≠ []
  | .finished s | .exited s => Inv s [] ∧ s.frames = []
  | .failed s dropped => Inv s dropped

lemma Task.Pre.inv {task : Task V} (h : task.Pre s) : Inv s task.groups := by
  cases task with
  | call tail action => cases tail <;> exact h.1
  | complete | exit | bind => exact h.1

lemma Inv.push {action : ReturnAction V (Continuation V)}
    (h : Task.Pre s (.call false action)) : Inv (s.push action) [] := by
  obtain ⟨hinv, hfits, hgood, hresumes⟩ := h
  refine ⟨hinv.saved, hinv.store, ⟨hfits, hinv.fits⟩, fun hne last hlast => ?_,
    List.forall_mem_cons.2 ⟨hgood, hinv.held⟩, hinv.good, hinv.since⟩
  cases hf : s.frames with
  | nil =>
    have hlast' : (⟨action, []⟩ : Frame V (Continuation V)) = last := by
      rw [State.push, hf] at hlast
      exact Option.some.inj hlast
    rw [← hlast']
    exact hresumes hf hne
  | cons frame rest =>
    refine hinv.rooted hne last ?_
    rw [State.push, hf] at hlast
    rw [hf]
    exact hlast

lemma Inv.pop {frame : Frame V (Continuation V)} {rest : List (Frame V (Continuation V))}
    (h : Inv s []) (hf : s.frames = frame :: rest) (hg : frame.groups = []) :
    Task.Pre { s with frames := rest } (.complete frame.returnAction) := by
  have hactive : s.groups = frame.returnAction.groups ++ activeGroups rest := by
    rw [State.groups, hf, activeGroups, List.flatMap_cons, hg, List.nil_append]
    rfl
  have hfits := h.fits
  have hheld := h.held
  have hsaved := h.saved
  have hstore := h.store
  rw [hf] at hfits hheld
  rw [List.nil_append, hactive] at hsaved hstore
  rw [List.forall_mem_cons] at hheld
  refine ⟨⟨hsaved, hstore, hfits.2, fun hne last hlast => ?_, hheld.2, h.good, h.since⟩,
    hfits.1, hheld.1, fun hrest hne => ?_⟩
  · have hrooted := h.rooted hne
    rw [hf] at hrooted
    cases rest with
    | nil => cases hlast
    | cons next rest => exact hrooted last hlast
  · obtain rfl : rest = [] := hrest
    have hrooted := h.rooted hne
    rw [hf] at hrooted
    exact hrooted frame rfl

/-- **One task keeps the invariant**, if continuations are entered with unchanged values. -/
theorem Runs.post {task : Task V} (h : Runs Unchanged s task r) (hpre : task.Pre s) : r.Post := by
  induction h with
  | fails => exact hpre.inv
  | callClosure => exact ⟨Inv.push hpre, List.cons_ne_nil _ _⟩
  | tailCallClosure hf =>
    obtain ⟨hinv, frame, rest, hf', hg⟩ := hpre
    rw [hf] at hf'
    cases hf'
    exact ⟨hinv.regroup hf rfl (by rw [hg]), List.cons_ne_nil _ _⟩
  | callImmediate _ ih => exact ih hpre
  | tailCallImmediate hf _ ih =>
    obtain ⟨hinv, frame, rest, hf', hg⟩ := hpre
    rw [hf] at hf'
    cases hf'
    exact ih (hinv.pop hf hg)
  | callExit _ ih => exact ih ⟨hpre.inv.beginExit, rfl⟩
  | callResume hk ha => exact hpre.inv.restore (hpre.inv.good _ hk) ha
  | callResumeFails hk ha => exact (hpre.inv.restore (hpre.inv.good _ hk) ha).1
  | callTransfer hk _ ih =>
    refine ih ⟨hpre.inv, trivial, fun k hheld => ?_, fun _ _ => rfl⟩
    obtain rfl := Option.some.inj hheld
    exact hpre.inv.good _ hk
  | deliver hf =>
    refine ⟨hpre.inv, fun hnil => ?_⟩
    rw [hnil, List.nil_append] at hf
    cases hpre.2.2.2 hnil hf
  | deliverLast hf => exact ⟨hpre.inv, (List.append_eq_nil_iff.1 hf).1⟩
  | callAgain _ ih => exact ih hpre
  | create hnew _ ih => exact ih ⟨hpre.1.alloc hnew _, trivial, fun _ h => (by cases h), hpre.2.2.2⟩
  | restorePort hp _ ih =>
    exact ih ⟨hpre.1.popParameters, trivial, fun _ h => (by cases h), hpre.2.2.2⟩
  | @restorePortMismatch s parameter old port active rest hp hne =>
    -- the outer value on the stack is the one that the action holds
    obtain ⟨outer, others, hparameters, hnames, houter, _⟩ := hpre.1.saved
    obtain ⟨b, rfl⟩ : ∃ b, outer = [b] :=
      List.length_eq_one_iff.1 (by simpa using congrArg List.length hnames)
    rw [hp] at hparameters
    have hname : b.1 = parameter := (List.cons.inj hnames).1
    have hvalue := houter b (List.mem_singleton_self b)
    rw [hname] at hvalue
    have hb : b = (parameter, old) :=
      Prod.ext hname (Option.some.inj (hvalue.symm.trans hpre.2.1))
    exact absurd ((List.cons.inj hparameters).1.trans hb) hne
  | converted _ ih =>
    obtain ⟨hinv, ⟨hbelow, hold, hothers⟩, _⟩ := hpre
    refine ih ⟨hinv, hbelow, fun c hc => ?_⟩
    rw [← List.append_assoc, List.mem_append, List.mem_singleton] at hc
    rcases hc with hc | rfl
    · exact hothers c hc
    · exact hold
  | transferEnds ha => exact hpre.inv.restore (hpre.2.2.1 _ rfl) ha
  | transferEndFails ha => exact (hpre.inv.restore (hpre.2.2.1 _ rfl) ha).1
  | transferNext _ ih => exact ih ⟨hpre.1, trivial, hpre.2.2.1, fun _ _ => rfl⟩
  | exitNext _ ih => exact ih ⟨hpre.1, hpre.2.1⟩
  | exitThunk _ ih => exact ih ⟨hpre.1, hpre.2, fun _ h => (by cases h), fun _ _ => rfl⟩
  | exitDone => exact hpre
  | keep hp _ ih =>
    obtain ⟨hinv, hbelow, hold⟩ := hpre
    refine ih ⟨hinv, hbelow, fun c hc => hold c ?_⟩
    rw [← List.append_assoc, List.mem_append, List.mem_singleton] at hc
    rcases hc with hc | rfl
    · exact List.mem_cons_of_mem _ hc
    · exact List.mem_cons_self ..
  | convert hp _ ih =>
    obtain ⟨hinv, hbelow, hold⟩ := hpre
    rw [List.cons_append, List.forall_mem_cons] at hold
    exact ih ⟨hinv, ⟨hbelow, hold⟩, fun _ h => (by cases h), fun hnil => absurd hnil hbelow⟩
  | bound _ =>
    obtain ⟨hinv, hbelow, hold⟩ := hpre
    exact (hinv.bindAll hold).openGroup hbelow
  | @bindFails s front c back hp =>
    -- a parameter with an outer value is in the heap
    obtain ⟨hinv, _, hold⟩ := hpre
    have hvalue := (hinv.store c.1).trans (hold c (by simp))
    rw [Store.value, hp] at hvalue
    cases hvalue

/-! ### Instructions and evaluations -/

lemma Handled.post {r' : Result V} (h : Handled Unchanged r r') (hpre : r.Post) : r'.Post := by
  cases h with
  | passes => exact hpre
  | handler hruns =>
    exact hruns.post ⟨hpre, trivial, fun _ h => (by cases h), fun _ _ => rfl⟩

lemma pre_plain (h : Inv s []) (hframes : s.frames ≠ [])
    {action : ReturnAction V (Continuation V)} (hgroups : action.groups = [])
    (hfits : ActionFits s.base s.frames action) (hnone : action.continuation? = none) :
    Task.Pre s (.call false action) :=
  ⟨hgroups ▸ h, hfits, fun k hk => (by rw [hnone] at hk; cases hk),
    fun hnil => absurd hnil hframes⟩

/-- **One instruction keeps the invariant.** -/
theorem Exec.post (h : Exec Unchanged s r) (hinv : Inv s []) (hframes : s.frames ≠ []) :
    r.Post := by
  cases h with
  | fails => exact hinv
  | other => exact ⟨hinv, hframes⟩
  | raise hruns => exact hruns.post (pre_plain hinv hframes rfl trivial rfl)
  | coldCall hruns => exact hruns.post (pre_plain hinv hframes rfl trivial rfl)
  | call hf hg hruns hhandled =>
    rename_i frame rest tail r'
    refine hhandled.post (hruns.post ?_)
    cases tail with
    | false => exact pre_plain hinv hframes rfl trivial rfl
    | true => exact ⟨hinv, frame, rest, hf, hg rfl⟩
  | ret hf hg hruns => exact hruns.post (hinv.pop hf hg)
  | capture hruns =>
    have hcaptured : Inv { s with continuations := s.capture :: s.continuations } [] :=
      ⟨hinv.saved, hinv.store, hinv.fits, hinv.rooted, hinv.held,
        List.forall_mem_cons.2 ⟨hinv.capture hframes, hinv.good⟩, hinv.since⟩
    exact hruns.post (pre_plain hcaptured hframes rfl trivial rfl)
  | makeParameter hnew => exact ⟨hinv.alloc hnew _, hframes⟩
  | convertParameter hruns => exact hruns.post (pre_plain hinv hframes rfl trivial rfl)
  | pushParameters hold hruns =>
    refine hruns.post ⟨hinv, hframes, fun c hc => ?_⟩
    rw [List.append_nil] at hc
    exact (hinv.store c.1).symm.trans (hold c hc)
  | popParameters hf hg =>
    obtain ⟨hclosed, hne⟩ := hinv.closeGroup hf hg
    have hswap : ∀ count, (s.popParameters count).closeGroup =
        s.closeGroup.popParameters count := fun count => by
      simp only [State.closeGroup, State.popParameters, hf]
    rw [hswap]
    exact ⟨hclosed.popParameters, hne⟩
  | @withFile parameter old port _ hold hruns =>
    have hvalue : innermost s.base s.groups parameter = some old :=
      (hinv.store parameter).symm.trans hold
    have hbound : Inv (s.bindAll [(parameter, old, port)]) [groupOf [(parameter, old, port)]] :=
      hinv.bindAll (List.forall_mem_singleton.2 hvalue)
    exact hruns.post ⟨hbound, hvalue, fun _ h => (by cases h),
      fun hnil => absurd hnil hframes⟩
  | withFileHandled hhandled => exact hhandled.post hinv

lemma Inv.eval {s : State V} (h : ∀ k ∈ s.continuations, Good k) :
    Inv s.eval [] ∧ s.eval.frames ≠ [] :=
  ⟨⟨rfl, fun _ => rfl, ⟨trivial, trivial⟩, fun hne => absurd rfl hne,
    fun _ hframe _ hk => (by rw [List.mem_singleton.1 hframe] at hk; cases hk), h,
    fun _ _ hv => hv⟩, List.cons_ne_nil _ _⟩

/-- What holds between and within evaluations. -/
def Phase.Holds (s : State V) : Phase → Prop
  | .idle => ∀ k ∈ s.continuations, Good k
  | .running => Inv s [] ∧ s.frames ≠ []

lemma Ended.good {s : State V} (he : Ended r s) (hr : r.Post) :
    ∀ k ∈ s.continuations, Good k := by
  cases he with
  | finished => exact hr.1.good
  | exited => exact hr.1.good
  | failed => exact Inv.good hr

/-- **Every state that an engine comes to keeps the invariant.** -/
theorem Reachable.holds {phase : Phase} (h : Reachable Unchanged phase s) : phase.Holds s := by
  induction h with
  | fresh => exact fun _ hk => by cases hk
  | install _ ih => exact ih
  | eval _ ih => exact Inv.eval ih
  | step _ hx ih => exact hx.post ih.1 ih.2
  | ends _ hx he ih => exact he.good (hx.post ih.1 ih.2)

/-- The bindings a state has on its stack are none, so every value is the outer one. -/
lemma Inv.settled (h : Inv s extra) (hnone : s.parameters = []) {v : V} (hv : s.start p = some v) :
    s.store.value p = some v := by
  have hnames := h.saved.names
  rw [hnone, List.map_nil, eq_comm, List.map_eq_nil_iff] at hnames
  rw [h.store, innermost, hnames]
  exact h.since p v hv

/-- An evaluation does not end with a failure under open bindings. -/
def Result.Unwound : Result V → Prop
  | .failed s _ => s.parameters = []
  | _ => True

lemma Ended.settled {s : State V} (he : Ended r s) (hr : r.Post) (hu : r.Unwound) {v : V}
    (hv : s.start p = some v) : s.store.value p = some v := by
  have hdone : ∀ s : State V, Inv s [] → s.frames = [] → s.parameters = [] := by
    intro s hinv hnil
    have hsaved := hinv.saved
    rw [List.nil_append, State.groups, hnil] at hsaved
    exact hsaved
  cases he with
  | finished => exact hr.1.settled (hdone _ hr.1 hr.2) hv
  | exited => exact hr.1.settled (hdone _ hr.1 hr.2) hv
  | failed => exact Inv.settled hr hu hv

/-- **Parameters.** In every run in which continuations are entered with unchanged outer
values, a parameter has in each state the value of its innermost open binding, or outside all
of them the value it had at the start of the evaluation; and it has this value when the
evaluation ends, unless that is a failure under open bindings. -/
theorem parameters_follow_their_extents (h : Reachable Unchanged .running s) :
    (∀ p, s.store.value p = innermost s.base s.groups p) ∧
      (∀ p v, s.start p = some v → s.base p = some v) ∧
      ∀ r s', Exec Unchanged s r → Ended r s' → r.Unwound →
        ∀ p v, s'.start p = some v → s'.store.value p = some v := by
  obtain ⟨hinv, hframes⟩ := h.holds
  exact ⟨hinv.store, hinv.since, fun r s' hx he hu p v hv =>
    he.settled (hx.post hinv hframes) hu hv⟩

/-- An engine with one parameter, `0`, of value `1`. -/
def oneParameter : State ℕ := .initial fun p => if p = 0 then some ⟨1, none⟩ else none

/-- Its evaluation after `parameterize` has bound the parameter to `2`. -/
def bound : State ℕ :=
  (oneParameter.eval.bindAll [(0, 1, 2)]).openGroup (groupOf [(0, 1, 2)])

lemma bound_reachable (allowed : State ℕ → Continuation ℕ → Prop) :
    Reachable allowed .running bound := by
  refine .step (.eval .fresh) (@Exec.pushParameters ℕ _ _ _ [(0, 1, 2)] _ ?_
    (.keep rfl (.bound ?_)))
  · simp [State.eval, State.initial, Store.value]
  · simp [State.eval, State.initial]

theorem bound_follows_its_extent :
    (∀ p, bound.store.value p = innermost bound.base bound.groups p) ∧
      (∀ p v, bound.start p = some v → bound.base p = some v) ∧
      ∀ r s', Exec Unchanged bound r → Ended r s' → r.Unwound →
        ∀ p v, s'.start p = some v → s'.store.value p = some v :=
  parameters_follow_their_extents (bound_reachable Unchanged)

/-- An evaluation that fails in the body of `parameterize` leaves the bound value behind. -/
theorem failure_keeps_the_bound_value :
    ¬ ∀ (s s' : State ℕ) (r : Result ℕ), Reachable (fun _ _ => True) .running s →
      Exec (fun _ _ => True) s r → Ended r s' →
      ∀ p v, s'.start p = some v → s'.store.value p = some v := by
  intro h
  have hvalue := h bound bound (.failed bound []) (bound_reachable _) .fails .failed 0 1 rfl
  exact absurd hvalue (by decide)

end Neetan.Parameters
