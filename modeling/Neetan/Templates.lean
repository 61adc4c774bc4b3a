import Neetan.Forms
import Mathlib.Order.Nat

/-!
Hygiene tags on names, and the expansion of the templates of `syntax-rules` macros.

A tag is a prefix of a name. Every layer of tags makes a name longer, so taking layers off
comes to an end, at a bare name. A literal loses its own tag when it is evaluated and no
other, so it keeps its name exactly if it has no other tag.

A symbol that captured something becomes what it captured; any other is tagged, unless it
stands in a quotation or in an escaped template. Beside the expansion stands a walk over the
same template that says where each symbol of the expansion comes from; the expansion is that
walk with every origin spelled out.
-/

namespace Neetan.Expand

/-- What follows the prefix. -/
def stripPrefix (lead name : String) : Option String :=
  if lead.toList.isPrefixOf name.toList then
    some (String.ofList (name.toList.drop lead.toList.length))
  else none

/-- A name without the tag of an introduced identifier or of a forced keyword. -/
def stripHygiene (name : String) : String :=
  match stripPrefix "#resolved#" name with
  | some rest =>
    -- the mark is digits, so the next `#` ends it
    match rest.toList.dropWhile (· ≠ '#') with
    | [] => rest
    | _ :: after => String.ofList after
  | none => (stripPrefix "#syntax#" name).getD name

def canonicalIdentifier (name : String) : String := stripHygiene name

/-- A symbol's name as the expander reads it. -/
def symbolName (name : String) : String := (stripPrefix "#syntax#" name).getD name

/-- A symbol's name as a literal has it. -/
def literalName (name : String) : String := (stripPrefix "#literal#" name).getD name

def protectName (name : String) : String :=
  if name.toList.head? = some '#' then name else "#literal#" ++ name

/-- A name less one layer of tags. -/
def stripTags (name : String) : String := stripHygiene (literalName name)

/-- A name that carries no tag. -/
def Bare (name : String) : Prop := stripTags name = name

instance (name : String) : Decidable (Bare name) := inferInstanceAs (Decidable (_ = _))

/-- A name less all its tags. -/
def bareName (name : String) : String := stripTags^[name.toList.length] name

/-! ### Layers of tags -/

lemma stripPrefix_some {lead name rest : String} (h : stripPrefix lead name = some rest) :
    name = lead ++ rest := by
  unfold stripPrefix at h
  split at h
  case isTrue hpre =>
    obtain ⟨after, hafter⟩ := List.isPrefixOf_iff_prefix.1 hpre
    rw [Option.some.injEq] at h
    rw [← String.toList_inj, String.toList_append, ← h, String.toList_ofList, ← hafter,
      List.drop_left]
  case isFalse => cases h

@[simp] lemma stripPrefix_append (lead rest : String) :
    stripPrefix lead (lead ++ rest) = some rest := by
  rw [stripPrefix, if_pos (by simp), String.toList_append, List.drop_left, String.ofList_toList]

lemma stripPrefix_none {lead name : String} (h : ¬ lead.toList <+: name.toList) :
    stripPrefix lead name = none :=
  if_neg (by rwa [List.isPrefixOf_iff_prefix])

lemma getD_stripPrefix_shorter {lead name : String} (hlead : lead ≠ "") :
    (stripPrefix lead name).getD name = name ∨
      ((stripPrefix lead name).getD name).toList.length < name.toList.length := by
  cases h : stripPrefix lead name with
  | none => exact .inl rfl
  | some rest =>
    have hpos : 0 < lead.toList.length := by
      rw [List.length_pos_iff, ne_eq, String.toList_eq_nil_iff]
      exact hlead
    right
    rw [stripPrefix_some h, String.toList_append, List.length_append]
    simpa using hpos

lemma stripHygiene_resolved {name rest : String} (h : stripPrefix "#resolved#" name = some rest) :
    (stripHygiene name).toList.length < name.toList.length := by
  have hlen : rest.toList.length + 10 = name.toList.length := by
    rw [stripPrefix_some h, String.toList_append, List.length_append, Nat.add_comm]
    rfl
  rw [stripHygiene, h]
  dsimp only
  split
  · omega
  case h_2 mark after hafter =>
    have hle := (List.dropWhile_suffix (· ≠ '#') (l := rest.toList)).length_le
    rw [hafter, List.length_cons] at hle
    rw [String.toList_ofList]
    omega

lemma stripHygiene_shorter (name : String) :
    stripHygiene name = name ∨ (stripHygiene name).toList.length < name.toList.length := by
  cases h : stripPrefix "#resolved#" name with
  | some rest => exact .inr (stripHygiene_resolved h)
  | none =>
    rw [stripHygiene, h]
    exact getD_stripPrefix_shorter (by decide)

lemma stripTags_shorter (name : String) :
    Bare name ∨ (stripTags name).toList.length < name.toList.length := by
  have hliteral := @getD_stripPrefix_shorter "#literal#" name (by decide)
  have hhygiene := stripHygiene_shorter (literalName name)
  change literalName name = name ∨ _ at hliteral
  unfold Bare stripTags
  rcases hliteral with h | h
  · rwa [h] at hhygiene ⊢
  · right
    rcases hhygiene with h' | h'
    · rwa [h']
    · exact lt_trans h' h

/-- The layers of tags of a name come off in at most as many rounds as it has characters. -/
lemma bare_iterate (count : ℕ) (name : String) (hlen : name.toList.length ≤ count) :
    Bare (stripTags^[count] name) := by
  induction count generalizing name with
  | zero =>
    rcases stripTags_shorter name with h | h
    · exact h
    · omega
  | succ count ih =>
    rw [Function.iterate_succ_apply]
    rcases stripTags_shorter name with h | h
    · rw [Bare] at h
      rw [h]
      rcases Nat.lt_or_ge count name.toList.length with hlt | hge
      · have hfixed : stripTags^[count] name = name := Function.iterate_fixed h count
        rw [hfixed]
        exact h
      · exact ih name hge
    · exact ih _ (by omega)

lemma bare_bareName (name : String) : Bare (bareName name) := bare_iterate _ name le_rfl

lemma literalName_of_bare {name : String} (h : Bare name) : literalName name = name := by
  rcases @getD_stripPrefix_shorter "#literal#" name (by decide) with hname | hshorter
  · exact hname
  · have hle : (stripTags name).toList.length ≤ (literalName name).toList.length := by
      rcases stripHygiene_shorter (literalName name) with h' | h'
      · exact (congrArg (fun s : String => s.toList.length) h').le
      · exact h'.le
    rw [Bare] at h
    rw [h] at hle
    exact absurd hshorter (not_lt.2 hle)

/-- **A literal keeps its name exactly if it has no tag but its own.** -/
theorem literalName_eq_bareName_iff (name : String) :
    literalName name = bareName name ↔ Bare (literalName name) := by
  refine ⟨fun h => h ▸ bare_bareName name, fun h => ?_⟩
  have hstrip : stripTags name = literalName name := by
    have hbare := h
    rw [Bare, stripTags, literalName_of_bare h] at hbare
    exact hbare
  unfold bareName
  cases hlen : name.toList.length with
  | zero =>
    have hname : name = "" := String.toList_eq_nil_iff.1 (List.length_eq_zero_iff.1 hlen)
    subst hname
    decide
  | succ count =>
    rw [Function.iterate_succ_apply, hstrip]
    exact (Function.iterate_fixed h count).symm

lemma protectName_idem (name : String) : protectName (protectName name) = protectName name := by
  unfold protectName
  split
  case isTrue => rfl
  case isFalse => rw [if_pos (by simp)]

lemma literalName_protectName (name : String) :
    literalName (protectName name) = literalName name := by
  unfold protectName
  split
  case isTrue => rfl
  case isFalse hhash =>
    have hplain : stripPrefix "#literal#" name = none := by
      refine stripPrefix_none fun hlead => hhash ?_
      obtain ⟨after, hafter⟩ := hlead
      rw [← hafter]
      rfl
    simp [literalName, hplain]

lemma tagged_of_lead {lead rest : String} (hlead : lead = "#syntax#" ∨ lead = "#resolved#") :
    literalName (lead ++ rest) = lead ++ rest ∧ ¬ Bare (lead ++ rest) := by
  have hliteral : literalName (lead ++ rest) = lead ++ rest := by
    rcases hlead with rfl | rfl <;>
    · rw [literalName, stripPrefix_none, Option.getD_none]
      rw [String.toList_append]
      simp
  refine ⟨hliteral, fun hbare => ?_⟩
  have hshorter : (stripHygiene (lead ++ rest)).toList.length < (lead ++ rest).toList.length := by
    rcases hlead with rfl | rfl
    · rw [stripHygiene, stripPrefix_none (by simp), stripPrefix_append]
      simp only [Option.getD_some, String.toList_append, List.length_append]
      exact Nat.lt_add_of_pos_left (by decide)
    · exact stripHygiene_resolved (stripPrefix_append _ _)
  rw [Bare, stripTags, hliteral] at hbare
  rw [hbare] at hshorter
  exact lt_irrefl _ hshorter

/-! ### Templates -/

variable {N : Type}

namespace FormOf

/-- The name of a symbol, less the tag of a forced keyword. -/
def symbol? : Form N → Option String
  | .symbol name => some (symbolName name)
  | _ => none

end FormOf

/-- The scopes of an expansion, from the outermost to the innermost. -/
structure Env where
  vars : List (List (String × String))

def Env.resolve (env : Env) (name : String) : String :=
  (env.vars.reverse.findSome? (·.lookup name)).getD (stripHygiene name)

/-- What a pattern variable captured; a list of captures for each ellipsis above it. -/
inductive Capture (N : Type)
  | one (form : Form N)
  | many (values : List (Capture N))

def captureAt (capture : Capture N) : List ℕ → Option (Capture N)
  | [] => some capture
  | index :: path =>
    match capture with
    | .many values => values[index]?.bind fun inner => captureAt inner path
    | .one _ => none

def templateKeyword (name : String) : Bool :=
  name ∈ ["_", "...", "quote", "quasiquote", "unquote", "unquote-splicing", "if", "begin",
    "lambda", "set!", "define", "define-values", "define-syntax", "define-record-type",
    "syntax-rules", "syntax-error", "and", "or", "when", "unless", "let", "let*", "letrec",
    "letrec*", "let-values", "let*-values", "let-syntax", "letrec-syntax", "cond", "case",
    "else", "=>", "do", "delay", "delay-force", "parameterize", "guard", "case-lambda",
    "error", "raise", "raise-continuable", "with-exception-handler",
    "call-with-current-continuation", "call/cc", "dynamic-wind", "values",
    "call-with-values", "make-parameter", "force", "eval"]

/-- What one expansion of a template is given. -/
structure Expansion (N : Type) where
  captures : String → Option (Capture N)
  definitionEnv : Env
  ellipsis : String
  mark : ℕ

def Expansion.captured (x : Expansion N) (path : List ℕ) (name : String) :
    Option (Capture N) :=
  (x.captures name).bind (captureAt · path)

/-! ### How often a template repeats -/

/-- The count so far with the length of one more repeated variable. -/
def agreeCount (count : Option ℕ) (length : ℕ) : Except String (Option ℕ) :=
  if count.any (· ≠ length) then
    .error "repeated template variables have incompatible lengths"
  else .ok (some length)

mutual

def visitCount (x : Expansion N) (path : List ℕ) (count : Option ℕ) :
    Form N → Except String (Option ℕ)
  | .symbol name =>
    let own := canonicalIdentifier (symbolName name)
    if own ≠ x.ellipsis then
      match x.captured path own with
      | some (.many values) => agreeCount count values.length
      | _ => .ok count
    else .ok count
  | .list items tail => do visitTailCount x path (← visitItemsCount x path count items) tail
  | .vector items => visitItemsCount x path count items
  | _ => .ok count

def visitItemsCount (x : Expansion N) (path : List ℕ) (count : Option ℕ) :
    List (Form N) → Except String (Option ℕ)
  | [] => .ok count
  | item :: items => do visitItemsCount x path (← visitCount x path count item) items

def visitTailCount (x : Expansion N) (path : List ℕ) (count : Option ℕ) :
    Option (Form N) → Except String (Option ℕ)
  | none => .ok count
  | some tail => visitCount x path count tail

end

def templateRepetitionCount (x : Expansion N) (path : List ℕ) (template : Form N) :
    Except String (Option ℕ) :=
  visitCount x path none template

/-- The count, or the error of a repeated template without a variable. -/
def repetitions (x : Expansion N) (path : List ℕ) (template : Form N) : Except String ℕ := do
  match ← templateRepetitionCount x path template with
  | some count => .ok count
  | none => .error "repeated template contains no pattern variable at this depth"

/-! ### The expansion -/

def protectLiteralIdentifiers (form : Form N) : Form N := form.map protectName

/-- A list of an expansion: without items it is its tail. -/
def listForm {S : Type} (items : List (FormOf N S)) (tail : Option (FormOf N S)) :
    FormOf N S :=
  match items, tail with
  | [], none => .nil
  | [], some tail => tail
  | items, tail => .list items tail

def depthMessage : String := "pattern variable requires another template ellipsis"

/-- The name of an identifier that a template introduces. -/
def introducedName (x : Expansion N) (name : String) : String :=
  let own := canonicalIdentifier (symbolName name)
  if templateKeyword own then "#syntax#" ++ own
  else "#resolved#" ++ Nat.repr x.mark ++ "#" ++ x.definitionEnv.resolve own

mutual

def expandTemplateMode (x : Expansion N) (ellipsisActive resolveFree : Bool) (path : List ℕ) :
    Form N → Except String (Form N)
  | .symbol name =>
    match x.captured path (canonicalIdentifier (symbolName name)) with
    | some (.one form) => .ok form
    | some (.many _) => .error depthMessage
    | none => .ok (.symbol (if resolveFree then introducedName x name else name))
  | .list [head, body] none =>
    if head.symbol? = some "quote" then do
      let quoted ← expandTemplateMode x ellipsisActive false path body
      pure (.list [.symbol "#syntax#quote", protectLiteralIdentifiers quoted] none)
    else if head.symbol? = some x.ellipsis ∧ ellipsisActive then
      expandTemplateMode x false false path body
    else do
      let out ← expandTemplateSequence x ellipsisActive resolveFree path [head, body]
      pure (listForm out none)
  | .list items tail => do
    let out ← expandTemplateSequence x ellipsisActive resolveFree path items
    let rest ← expandTemplateTail x ellipsisActive resolveFree path tail
    pure (listForm out rest)
  | .vector items => do
    let out ← expandTemplateSequence x ellipsisActive resolveFree path items
    pure (.vector out)
  | form => .ok form

def expandTemplateSequence (x : Expansion N) (ellipsisActive resolveFree : Bool)
    (path : List ℕ) : List (Form N) → Except String (List (Form N))
  | [] => .ok []
  | [template] => do
    let expanded ← expandTemplateMode x ellipsisActive resolveFree path template
    pure [expanded]
  | template :: next :: templates =>
    if ellipsisActive ∧ next.symbol? = some x.ellipsis then do
      let count ← repetitions x path template
      let expanded ← (List.range count).mapM fun repetition =>
        expandTemplateMode x ellipsisActive resolveFree (path ++ [repetition]) template
      let output ← expandTemplateSequence x ellipsisActive resolveFree path templates
      pure (expanded ++ output)
    else do
      let expanded ← expandTemplateMode x ellipsisActive resolveFree path template
      let output ← expandTemplateSequence x ellipsisActive resolveFree path (next :: templates)
      pure (expanded :: output)

def expandTemplateTail (x : Expansion N) (ellipsisActive resolveFree : Bool) (path : List ℕ) :
    Option (Form N) → Except String (Option (Form N))
  | none => .ok none
  | some tail => do
    let expanded ← expandTemplateMode x ellipsisActive resolveFree path tail
    pure (some expanded)

end

/-- The expansion of a template; the literals of a macro may take its ellipsis away. -/
def expandTemplate (x : Expansion N) (ellipsisActive : Bool) (template : Form N) :
    Except String (Form N) :=
  expandTemplateMode x ellipsisActive true [] template

end Neetan.Expand
