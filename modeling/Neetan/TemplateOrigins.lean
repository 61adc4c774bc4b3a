import Neetan.Templates

/-!
Where the symbols of an expansion come from.

The walk follows the expansion of a template and puts at each symbol its origin: a form of
the use site, or the template, and there whether the symbol was tagged. The expansion is this
walk with every origin spelled out, and an origin keeps its name as a datum exactly if it is
not one that the template tagged and its own name is bare.
-/

namespace Neetan.Expand

variable {N : Type}

/-- How a symbol came into an expansion. -/
inductive OriginKind
  | useSite
  | introduced
  | kept
  | quoteKeyword
  deriving DecidableEq

/-- Where a symbol of an expansion comes from, and whether a quotation encloses it. -/
structure Origin where
  kind : OriginKind
  name : String
  quoted : Bool

/-- The name before a quotation protects it. -/
def Origin.spelled (x : Expansion N) (origin : Origin) : String :=
  match origin.kind with
  | .useSite | .kept => origin.name
  | .introduced => introducedName x origin.name
  | .quoteKeyword => "#syntax#quote"

def Origin.output (x : Expansion N) (origin : Origin) : String :=
  if origin.quoted then protectName (origin.spelled x) else origin.spelled x

/-- The name that the template or the use site gave the symbol. -/
def Origin.own (origin : Origin) : String := bareName origin.name

/-- The symbol was not tagged, and what is left of its name in a literal has no tag. -/
def Origin.Kept (origin : Origin) : Prop :=
  (origin.kind = .useSite ∨ origin.kind = .kept) ∧ Bare (literalName origin.name)

def Origin.quote (origin : Origin) : Origin := { origin with quoted := true }

mutual

def originsMode (x : Expansion N) (ellipsisActive resolveFree : Bool) (path : List ℕ) :
    Form N → Except String (FormOf N Origin)
  | .nil => .ok .nil
  | .bool value => .ok (.bool value)
  | .char value => .ok (.char value)
  | .string value => .ok (.string value)
  | .number value => .ok (.number value)
  | .bytevector bytes => .ok (.bytevector bytes)
  | .symbol name =>
    match x.captured path (canonicalIdentifier (symbolName name)) with
    | some (.one form) => .ok (form.map fun own => ⟨.useSite, own, false⟩)
    | some (.many _) => .error depthMessage
    | none => .ok (.symbol ⟨if resolveFree then .introduced else .kept, name, false⟩)
  | .list [head, body] none =>
    if head.symbol? = some "quote" then do
      let quoted ← originsMode x ellipsisActive false path body
      pure (.list [.symbol ⟨.quoteKeyword, "quote", false⟩, quoted.map Origin.quote] none)
    else if head.symbol? = some x.ellipsis ∧ ellipsisActive then
      originsMode x false false path body
    else do
      let out ← originsSequence x ellipsisActive resolveFree path [head, body]
      pure (listForm out none)
  | .list items tail => do
    let out ← originsSequence x ellipsisActive resolveFree path items
    let rest ← originsTail x ellipsisActive resolveFree path tail
    pure (listForm out rest)
  | .vector items => do
    let out ← originsSequence x ellipsisActive resolveFree path items
    pure (.vector out)

def originsSequence (x : Expansion N) (ellipsisActive resolveFree : Bool)
    (path : List ℕ) : List (Form N) → Except String (List (FormOf N Origin))
  | [] => .ok []
  | [template] => do
    let expanded ← originsMode x ellipsisActive resolveFree path template
    pure [expanded]
  | template :: next :: templates =>
    if ellipsisActive ∧ next.symbol? = some x.ellipsis then do
      let count ← repetitions x path template
      let expanded ← (List.range count).mapM fun repetition =>
        originsMode x ellipsisActive resolveFree (path ++ [repetition]) template
      let output ← originsSequence x ellipsisActive resolveFree path templates
      pure (expanded ++ output)
    else do
      let expanded ← originsMode x ellipsisActive resolveFree path template
      let output ← originsSequence x ellipsisActive resolveFree path (next :: templates)
      pure (expanded :: output)

def originsTail (x : Expansion N) (ellipsisActive resolveFree : Bool) (path : List ℕ) :
    Option (Form N) → Except String (Option (FormOf N Origin))
  | none => .ok none
  | some tail => do
    let expanded ← originsMode x ellipsisActive resolveFree path tail
    pure (some expanded)

end

def templateOrigins (x : Expansion N) (ellipsisActive : Bool) (template : Form N) :
    Except String (FormOf N Origin) :=
  originsMode x ellipsisActive true [] template

/-! ### The expansion spells its origins out -/

lemma mapM_fmap {α β γ : Type} (f : α → Except String β) (g : β → γ) (items : List α) :
    (items.mapM fun item => g <$> f item) = List.map g <$> items.mapM f := by
  induction items with
  | nil => rfl
  | cons item items ih =>
    rw [List.mapM_cons, List.mapM_cons, ih]
    simp only [map_bind, bind_map_left, map_pure, List.map_cons]

lemma listForm_map {S T : Type} (f : S → T) (items : List (FormOf N S))
    (tail : Option (FormOf N S)) :
    (listForm items tail).map f =
      listForm (items.map (FormOf.map f)) (tail.map (FormOf.map f)) := by
  cases items <;> cases tail <;> simp [listForm, FormOf.map]

lemma protect_map_output (x : Expansion N) (form : FormOf N Origin) :
    protectLiteralIdentifiers (form.map (Origin.output x)) =
      (form.map Origin.quote).map (Origin.output x) := by
  rw [protectLiteralIdentifiers, FormOf.map_map, FormOf.map_map]
  congr 1
  funext origin
  cases hquoted : origin.quoted with
  | false => simp [Origin.output, Origin.quote, hquoted, Origin.spelled]
  | true => simp [Origin.output, Origin.quote, hquoted, Origin.spelled, protectName_idem]

mutual

theorem expandTemplateMode_eq (x : Expansion N) (ellipsisActive resolveFree : Bool)
    (path : List ℕ) : ∀ template : Form N,
    expandTemplateMode x ellipsisActive resolveFree path template =
      FormOf.map (Origin.output x) <$> originsMode x ellipsisActive resolveFree path template
  | .nil | .bool _ | .char _ | .string _ | .number _ | .bytevector _ => rfl
  | .symbol name => by
    unfold expandTemplateMode originsMode
    rcases x.captured path (canonicalIdentifier (symbolName name)) with _ | form | values
    · cases resolveFree <;> rfl
    · have hsame : Origin.output x ∘ (fun own => ⟨.useSite, own, false⟩) = id := rfl
      change Except.ok form = Except.ok _
      rw [FormOf.map_map, hsame, FormOf.map_id]
    · rfl
  | .list [head, body] none => by
    unfold expandTemplateMode originsMode
    split
    case isTrue =>
      rw [expandTemplateMode_eq x ellipsisActive false path body]
      simp only [bind_map_left, map_bind, map_pure, protect_map_output]
      rfl
    case isFalse =>
      split
      case isTrue => exact expandTemplateMode_eq x false false path body
      case isFalse =>
        rw [expandTemplateSequence_eq x ellipsisActive resolveFree path [head, body]]
        simp only [bind_map_left, map_bind, map_pure, listForm_map, Option.map_none]
  | .list [] tail | .list [_] tail | .list (_ :: _ :: _ :: _) tail
  | .list [_, _] (some tail) => by
    unfold expandTemplateMode originsMode
    rw [expandTemplateSequence_eq x ellipsisActive resolveFree path _,
      expandTemplateTail_eq x ellipsisActive resolveFree path _]
    simp only [bind_map_left, map_bind, map_pure, listForm_map]
  | .vector items => by
    unfold expandTemplateMode originsMode
    rw [expandTemplateSequence_eq x ellipsisActive resolveFree path items]
    simp only [bind_map_left, map_bind, map_pure, FormOf.map, FormOf.mapItems_eq]

theorem expandTemplateSequence_eq (x : Expansion N) (ellipsisActive resolveFree : Bool)
    (path : List ℕ) : ∀ templates : List (Form N),
    expandTemplateSequence x ellipsisActive resolveFree path templates =
      List.map (FormOf.map (Origin.output x)) <$>
        originsSequence x ellipsisActive resolveFree path templates
  | [] => rfl
  | [template] => by
    unfold expandTemplateSequence originsSequence
    rw [expandTemplateMode_eq x ellipsisActive resolveFree path template]
    simp only [bind_map_left, map_bind, map_pure, List.map_cons, List.map_nil]
  | template :: next :: templates => by
    unfold expandTemplateSequence originsSequence
    split
    case isTrue =>
      simp only [fun repetition => expandTemplateMode_eq x ellipsisActive resolveFree
        (path ++ [repetition]) template, mapM_fmap,
        expandTemplateSequence_eq x ellipsisActive resolveFree path templates,
        bind_map_left, map_bind, map_pure, List.map_append]
    case isFalse =>
      rw [expandTemplateMode_eq x ellipsisActive resolveFree path template,
        expandTemplateSequence_eq x ellipsisActive resolveFree path (next :: templates)]
      simp only [bind_map_left, map_bind, map_pure, List.map_cons]

theorem expandTemplateTail_eq (x : Expansion N) (ellipsisActive resolveFree : Bool)
    (path : List ℕ) : ∀ tail : Option (Form N),
    expandTemplateTail x ellipsisActive resolveFree path tail =
      Option.map (FormOf.map (Origin.output x)) <$>
        originsTail x ellipsisActive resolveFree path tail
  | none => rfl
  | some tail => by
    unfold expandTemplateTail originsTail
    rw [expandTemplateMode_eq x ellipsisActive resolveFree path tail]
    simp only [bind_map_left, map_bind, map_pure, Option.map_some]

end

variable {x : Expansion N}

/-- **An expansion is its origins spelled out.** -/
theorem expandTemplate_origins {ellipsisActive : Bool} {template program : Form N}
    (h : expandTemplate x ellipsisActive template = .ok program) :
    ∃ origins, templateOrigins x ellipsisActive template = .ok origins ∧
      origins.map (Origin.output x) = program := by
  rw [expandTemplate, expandTemplateMode_eq] at h
  unfold templateOrigins
  cases horigins : originsMode x ellipsisActive true [] template with
  | error e => rw [horigins] at h; cases h
  | ok origins =>
    rw [horigins] at h
    exact ⟨origins, rfl, Except.ok.inj h⟩

/-! ### The names of origins are written by the template or the use site -/

/-- The name of the origin stands in the templates or in a captured form. -/
def Origin.Written (x : Expansion N) (names : List String) (origin : Origin) : Prop :=
  match origin.kind with
  | .useSite => ∃ path own form,
      x.captured path own = some (.one form) ∧ origin.name ∈ form.symbols
  | .introduced | .kept => origin.name ∈ names
  | .quoteKeyword => origin.name = "quote"

lemma Origin.Written.mono {names names' : List String} {origin : Origin}
    (h : origin.Written x names) (hsub : names ⊆ names') : origin.Written x names' := by
  revert h
  unfold Origin.Written
  cases origin.kind with
  | useSite | quoteKeyword => exact fun h => h
  | introduced | kept => exact fun h => hsub h

lemma Origin.Written.quote {names : List String} {origin : Origin} (h : origin.Written x names) :
    origin.quote.Written x names := by
  unfold Origin.Written at h ⊢
  exact h

lemma symbols_listForm {S : Type} (items : List (FormOf N S)) (tail : Option (FormOf N S)) :
    (listForm items tail).symbols =
      FormOf.itemSymbols items ++ FormOf.tailSymbols tail := by
  cases items <;> cases tail <;> rfl

lemma except_bind {α β : Type} {m : Except String α} {f : α → Except String β} {b : β}
    (h : (m >>= f) = .ok b) : ∃ a, m = .ok a ∧ f a = .ok b := by
  cases m with
  | error e => cases h
  | ok a => exact ⟨a, rfl, h⟩

lemma mapM_mem {α β : Type} {f : α → Except String β} {items : List α} {results : List β}
    (h : items.mapM f = .ok results) {result : β} (hmem : result ∈ results) :
    ∃ item ∈ items, f item = .ok result := by
  induction items generalizing results with
  | nil =>
    cases h
    simp at hmem
  | cons item items ih =>
    rw [List.mapM_cons] at h
    obtain ⟨first, hfirst, hrest⟩ := except_bind h
    obtain ⟨others, hothers, hpure⟩ := except_bind hrest
    cases hpure
    rcases List.mem_cons.1 hmem with rfl | hmem
    · exact ⟨item, List.mem_cons_self .., hfirst⟩
    · obtain ⟨other, hin, hother⟩ := ih hothers hmem
      exact ⟨other, List.mem_cons_of_mem _ hin, hother⟩

mutual

theorem originsMode_written {ellipsisActive resolveFree : Bool} {path : List ℕ} :
    ∀ {template : Form N} {origins : FormOf N Origin},
    originsMode x ellipsisActive resolveFree path template = .ok origins →
      ∀ origin ∈ origins.symbols, origin.Written x template.symbols
  | .nil, _, h | .bool _, _, h | .char _, _, h | .string _, _, h | .number _, _, h
  | .bytevector _, _, h => by
    cases h
    simp [FormOf.symbols]
  | .symbol name, _, h => by
    intro origin hmem
    unfold originsMode at h
    split at h
    case h_1 form hform =>
      cases h
      rw [FormOf.symbols_map, List.mem_map] at hmem
      obtain ⟨own, hown, rfl⟩ := hmem
      exact ⟨path, _, form, hform, hown⟩
    case h_2 => cases h
    case h_3 =>
      cases h
      obtain rfl := List.mem_singleton.1 hmem
      unfold Origin.Written
      cases resolveFree <;> exact List.mem_singleton.2 rfl
  | .list [head, body] none, _, h => by
    have hsub : body.symbols ⊆ (FormOf.list [head, body] none : Form N).symbols := by
      intro name hname
      simp [FormOf.symbols, FormOf.itemSymbols, hname]
    unfold originsMode at h
    split at h
    case isTrue =>
      obtain ⟨quoted, hquoted, hpure⟩ := except_bind h
      cases hpure
      intro origin hmem
      simp only [FormOf.symbols, FormOf.itemSymbols, FormOf.tailSymbols, FormOf.symbols_map,
        List.append_nil, List.cons_append, List.nil_append, List.mem_cons, List.mem_map] at hmem
      rcases hmem with rfl | ⟨inner, hinner, rfl⟩
      · rfl
      · exact ((originsMode_written hquoted inner hinner).mono hsub).quote
    case isFalse =>
      split at h
      case isTrue => exact fun origin hmem => (originsMode_written h origin hmem).mono hsub
      case isFalse =>
        obtain ⟨out, hout, hpure⟩ := except_bind h
        cases hpure
        intro origin hmem
        rw [symbols_listForm, FormOf.tailSymbols, List.append_nil] at hmem
        rw [FormOf.symbols, FormOf.tailSymbols, List.append_nil]
        exact originsSequence_written hout origin hmem
  | .list [] tail, _, h | .list [_] tail, _, h | .list (_ :: _ :: _ :: _) tail, _, h
  | .list [_, _] (some tail), _, h => by
    unfold originsMode at h
    obtain ⟨out, hout, hrest⟩ := except_bind h
    obtain ⟨rest, htail, hpure⟩ := except_bind hrest
    cases hpure
    intro origin hmem
    rw [symbols_listForm, List.mem_append] at hmem
    rw [FormOf.symbols]
    rcases hmem with hmem | hmem
    · exact (originsSequence_written hout origin hmem).mono (List.subset_append_left ..)
    · exact (originsTail_written htail origin hmem).mono (List.subset_append_right ..)
  | .vector items, _, h => by
    unfold originsMode at h
    obtain ⟨out, hout, hpure⟩ := except_bind h
    cases hpure
    exact originsSequence_written hout

theorem originsSequence_written {ellipsisActive resolveFree : Bool} {path : List ℕ} :
    ∀ {templates : List (Form N)} {origins : List (FormOf N Origin)},
    originsSequence x ellipsisActive resolveFree path templates = .ok origins →
      ∀ origin ∈ FormOf.itemSymbols origins, origin.Written x (FormOf.itemSymbols templates)
  | [], _, h => by
    cases h
    simp [FormOf.itemSymbols]
  | [template], _, h => by
    unfold originsSequence at h
    obtain ⟨expanded, hexpanded, hpure⟩ := except_bind h
    cases hpure
    simp only [FormOf.itemSymbols, List.append_nil]
    exact originsMode_written hexpanded
  | template :: next :: templates, _, h => by
    intro origin hmem
    unfold originsSequence at h
    split at h
    case isTrue =>
      obtain ⟨count, _, hcount⟩ := except_bind h
      obtain ⟨expanded, hexpanded, hrest⟩ := except_bind hcount
      obtain ⟨output, houtput, hpure⟩ := except_bind hrest
      cases hpure
      obtain ⟨item, hitem, hname⟩ := FormOf.mem_itemSymbols.1 hmem
      rcases List.mem_append.1 hitem with hitem | hitem
      · obtain ⟨repetition, _, hrepetition⟩ := mapM_mem hexpanded hitem
        exact (originsMode_written hrepetition origin hname).mono (List.subset_append_left ..)
      · have hrestmem := FormOf.mem_itemSymbols.2 ⟨item, hitem, hname⟩
        refine (originsSequence_written houtput origin hrestmem).mono fun name hin => ?_
        simp [FormOf.itemSymbols, hin]
    case isFalse =>
      obtain ⟨expanded, hexpanded, hrest⟩ := except_bind h
      obtain ⟨output, houtput, hpure⟩ := except_bind hrest
      cases hpure
      rcases List.mem_append.1 hmem with hmem | hmem
      · exact (originsMode_written hexpanded origin hmem).mono (List.subset_append_left ..)
      · exact (originsSequence_written houtput origin hmem).mono (List.subset_append_right ..)

theorem originsTail_written {ellipsisActive resolveFree : Bool} {path : List ℕ} :
    ∀ {tail : Option (Form N)} {origins : Option (FormOf N Origin)},
    originsTail x ellipsisActive resolveFree path tail = .ok origins →
      ∀ origin ∈ FormOf.tailSymbols origins, origin.Written x (FormOf.tailSymbols tail)
  | none, _, h => by
    cases h
    simp [FormOf.tailSymbols]
  | some tail, _, h => by
    unfold originsTail at h
    obtain ⟨expanded, hexpanded, hpure⟩ := except_bind h
    cases hpure
    exact originsMode_written hexpanded

end

/-- **Every symbol of an expansion is written by its template or by the use site.** -/
theorem templateOrigins_written {ellipsisActive : Bool} {template : Form N}
    {origins : FormOf N Origin} (h : templateOrigins x ellipsisActive template = .ok origins) :
    ∀ origin ∈ origins.symbols, origin.Written x template.symbols := originsMode_written h

/-! ### Names -/

lemma introducedName_tagged (x : Expansion N) (name : String) :
    literalName (introducedName x name) = introducedName x name ∧
      ¬ Bare (introducedName x name) := by
  obtain ⟨lead, rest, hlead, hname⟩ : ∃ lead rest, (lead = "#syntax#" ∨ lead = "#resolved#") ∧
      introducedName x name = lead ++ rest := by
    simp only [introducedName]
    split
    · exact ⟨_, _, .inl rfl, rfl⟩
    · exact ⟨_, _, .inr rfl, by rw [String.append_assoc, String.append_assoc]⟩
  rw [hname]
  exact tagged_of_lead hlead

lemma literalName_output (x : Expansion N) (origin : Origin) :
    literalName (origin.output x) = literalName (origin.spelled x) := by
  unfold Origin.output
  split
  · exact literalName_protectName _
  · rfl

lemma tagged_ne_bareName {name : String} (h : literalName name = name ∧ ¬ Bare name)
    (other : String) : literalName name ≠ bareName other := fun heq =>
  h.2 (h.1 ▸ heq ▸ bare_bareName other)

/-- **An origin keeps its name as a datum exactly if it is `Kept`.** -/
theorem Origin.literalName_output_iff (x : Expansion N) (origin : Origin) :
    literalName (origin.output x) = origin.own ↔ origin.Kept := by
  rw [literalName_output, Origin.own, Origin.Kept, Origin.spelled]
  cases origin.kind with
  | useSite | kept => simp [literalName_eq_bareName_iff]
  | introduced =>
    simp only [reduceCtorEq, or_self, false_and, iff_false]
    exact tagged_ne_bareName (introducedName_tagged x _) _
  | quoteKeyword =>
    simp only [reduceCtorEq, or_self, false_and, iff_false]
    exact tagged_ne_bareName (@tagged_of_lead "#syntax#" "quote" (.inl rfl)) _

end Neetan.Expand
