import Neetan.QuoteForms
import Neetan.TemplateOrigins

/-!
The data positions of an expanded program, and the names of the symbols in them.

A quotation, a vector, a quasiquotation outside its unquoted parts and the data of a `case`
clause are lowered as data: the literals of these positions occur in the lowered code. A
symbol of a macro expansion that ends up there has the name its template or its use site gave
it exactly if the template did not tag it and its name carries no tag of another expansion.
-/

namespace Neetan.Expand

open CoreExpr

variable {N : Type}

/-! ### The literals of lowered code -/

/-- One core expression is a part of another. -/
inductive Occurs (inner : CoreExpr N) : CoreExpr N → Prop
  | refl : Occurs inner inner
  | argument {procedure argument : CoreExpr N} {arguments : List (CoreExpr N)} :
      argument ∈ arguments → Occurs inner argument → Occurs inner (.call procedure arguments)
  | test {test yes no : CoreExpr N} : Occurs inner test → Occurs inner (.ifThenElse test yes no)
  | alternate {test yes no : CoreExpr N} : Occurs inner no → Occurs inner (.ifThenElse test yes no)

lemma Occurs.trans {first second third : CoreExpr N} (h : Occurs first second)
    (h' : Occurs second third) : Occurs first third := by
  induction h' with
  | refl => exact h
  | argument hmem _ ih => exact .argument hmem ih
  | test _ ih => exact .test ih
  | alternate _ ih => exact .alternate ih

lemma occurs_tagged (tag value : CoreExpr N) :
    Occurs value (call "cons" [tag, call "cons" [value, .literal .nil]]) :=
  .argument (List.mem_cons_of_mem _ (List.mem_singleton.2 rfl))
    (.argument (List.mem_cons_self ..) .refl)

variable {s s' : Hoisted N} {core : CoreExpr N} {depth : ℕ} {form : Form N}

lemma lower_bind {α β : Type} {m : Lower N α} {f : α → Lower N β} {out : β × Hoisted N}
    (h : (m >>= f) s = .ok out) :
    ∃ a t, m s = .ok (a, t) ∧ f a t = .ok out := by
  change (m s >>= fun r => f r.1 r.2) = _ at h
  cases hm : m s with
  | error e => rw [hm] at h; cases h
  | ok r =>
    rw [hm] at h
    exact ⟨r.1, r.2, rfl, h⟩

lemma lower_pure {α : Type} {a : α} {out : α × Hoisted N} (h : (pure a : Lower N α) s = .ok out) :
    out = (a, s) := (Except.ok.inj h).symm

/-- A step of a quasiquotation from a proper list into one of its items. -/
inductive QuasiListStep (depth : ℕ) (items : List (Form N)) : ℕ → ℕ → Form N → Prop
  | item {index : ℕ} {item : Form N} (untagged : items.head?.bind quasiTag = none)
      (hitem : items[index]? = some item) (unspliced : depth = 1 → spliceOf item = none) :
      QuasiListStep depth items index depth item
  | nested {head body : Form N} (tag : quasiTag head = some "quasiquote")
      (hitems : items = [head, body]) : QuasiListStep depth items 1 (depth + 1) body
  | unquoted {head body : Form N} {name : String} (tag : quasiTag head = some name)
      (hname : name ≠ "quasiquote") (hdepth : depth ≠ 1) (hitems : items = [head, body]) :
      QuasiListStep depth items 1 (depth - 1) body

/-- A step of a quasiquotation from a form into a part that it quotes in turn. -/
inductive QuasiStep (depth : ℕ) : Form N → Branch → ℕ → Form N → Prop
  | tail {items : List (Form N)} {rest : Form N} :
      QuasiStep depth (.list items (some rest)) .tail depth rest
  | dotted {items : List (Form N)} {rest item : Form N} {index : ℕ}
      (hitem : items[index]? = some item) (unspliced : depth = 1 → spliceOf item = none) :
      QuasiStep depth (.list items (some rest)) (.item index) depth item
  | list {items : List (Form N)} {item : Form N} {index depth' : ℕ}
      (h : QuasiListStep depth items index depth' item) :
      QuasiStep depth (.list items none) (.item index) depth' item
  | vector {items : List (Form N)} {item : Form N} {index depth' : ℕ}
      (h : QuasiListStep depth items index depth' item) :
      QuasiStep depth (.vector items) (.item index) depth' item

/-- The form is quoted as it stands. -/
def FormOf.Leaf : Form N → Prop
  | .list _ _ | .vector _ => False
  | _ => True

/-- The path leads a quasiquotation to the form `leaf`, which it quotes as it stands. -/
def QuasiLeaf (depth : ℕ) (form : Form N) (leaf : Form N) : List Branch → Prop
  | [] => form = leaf ∧ leaf.Leaf
  | branch :: path => ∃ depth' inner, QuasiStep depth form branch depth' inner ∧
      QuasiLeaf depth' inner leaf path

section Quasiquotation

variable {debug : N → String} {expr : Form N → Lower N (CoreExpr N)}

lemma quasiquoteItems_occurs {result : CoreExpr N} {items : List (Form N)}
    (h : quasiquoteItems debug expr depth result items s = .ok (core, s')) :
    Occurs result core ∧ ∀ (index : ℕ) (item : Form N), items[index]? = some item →
      (depth = 1 → spliceOf item = none) →
      ∃ t value t', quasiquote debug expr depth item t = .ok (value, t') ∧ Occurs value core := by
  induction items generalizing core s s' with
  | nil =>
    rw [quasiquoteItems] at h
    cases lower_pure h
    exact ⟨.refl, fun _ _ hitem => by simp at hitem⟩
  | cons first items ih =>
    rw [quasiquoteItems] at h
    obtain ⟨rest, t, hrest, hfirst⟩ := lower_bind h
    obtain ⟨hresult, hitems⟩ := ih hrest
    -- whatever the first item gives, the rest is an argument of the whole
    have hwhole : Occurs rest core ∧ ((depth = 1 → spliceOf first = none) →
        ∃ t value t', quasiquote debug expr depth first t = .ok (value, t') ∧
          Occurs value core) := by
      generalize hsplice : (if depth = 1 then spliceOf first else none) = splice at hfirst
      rcases splice with _ | _ | ⟨spliced, _ | _⟩
      · obtain ⟨value, t', hvalue, hpure⟩ := lower_bind hfirst
        cases lower_pure hpure
        exact ⟨.argument (by simp) .refl,
          fun _ => ⟨t, value, _, hvalue, .argument (by simp) .refl⟩⟩
      · cases hfirst
      · obtain ⟨values, t', _, hpure⟩ := lower_bind hfirst
        cases lower_pure hpure
        refine ⟨.argument (by simp) .refl, fun hunspliced => ?_⟩
        split at hsplice
        case isTrue hdepth => rw [hunspliced hdepth] at hsplice; cases hsplice
        case isFalse => cases hsplice
      · cases hfirst
    refine ⟨hresult.trans hwhole.1, fun index item hitem hunspliced => ?_⟩
    cases index with
    | zero =>
      obtain rfl : first = item := Option.some.inj hitem
      exact hwhole.2 hunspliced
    | succ index =>
      obtain ⟨t, value, t', hvalue, hoccurs⟩ := hitems index item hitem hunspliced
      exact ⟨t, value, t', hvalue, hoccurs.trans hwhole.1⟩

lemma quasiquoteList_occurs {depth' index : ℕ} {items : List (Form N)} {item : Form N}
    (h : quasiquoteList debug expr depth items s = .ok (core, s'))
    (hstep : QuasiListStep depth items index depth' item) :
    ∃ t value t', quasiquote debug expr depth' item t = .ok (value, t') ∧ Occurs value core := by
  cases hstep with
  | item untagged hitem unspliced =>
    -- an untagged list is lowered item by item
    have hitems : quasiquoteItems debug expr depth (.literal .nil) items s = .ok (core, s') := by
      rcases items with _ | ⟨head, items⟩
      · exact absurd hitem (by simp)
      · rw [List.head?_cons, Option.bind_some] at untagged
        -- the definition looks at the number of items first
        rcases items with _ | ⟨body, _ | ⟨third, items⟩⟩
        all_goals simpa only [quasiquoteList, untagged] using h
    exact (quasiquoteItems_occurs hitems).2 index item hitem unspliced
  | nested tag hitems =>
    subst hitems
    simp only [quasiquoteList, tag] at h
    obtain ⟨_, t, _, hrest⟩ := lower_bind h
    obtain ⟨value, t', hvalue, hpure⟩ := lower_bind hrest
    cases lower_pure hpure
    exact ⟨t, value, _, hvalue, occurs_tagged _ _⟩
  | @unquoted head _ name tag hname hdepth hitems =>
    subst hitems
    have hrun : (do
        let tag ← quote debug (.symbol name)
        let value ← quasiquote debug expr (depth - 1) item
        pure (call "cons" [tag, call "cons" [value, .literal .nil]])) s = .ok (core, s') := by
      simpa only [quasiquoteList, tag, if_neg hdepth] using h
    obtain ⟨_, t, _, hrest⟩ := lower_bind hrun
    obtain ⟨value, t', hvalue, hpure⟩ := lower_bind hrest
    cases lower_pure hpure
    exact ⟨t, value, _, hvalue, occurs_tagged _ _⟩

lemma quasiquote_occurs {depth' : ℕ} {inner : Form N} {branch : Branch}
    (h : quasiquote debug expr depth form s = .ok (core, s'))
    (hstep : QuasiStep depth form branch depth' inner) :
    ∃ t value t', quasiquote debug expr depth' inner t = .ok (value, t') ∧ Occurs value core := by
  cases hstep with
  | tail =>
    rw [quasiquote] at h
    obtain ⟨result, t, hresult, hitems⟩ := lower_bind h
    exact ⟨s, result, t, hresult, (quasiquoteItems_occurs hitems).1⟩
  | dotted hitem unspliced =>
    rw [quasiquote] at h
    obtain ⟨result, t, _, hitems⟩ := lower_bind h
    exact (quasiquoteItems_occurs hitems).2 _ _ hitem unspliced
  | list hlist =>
    rw [quasiquote] at h
    exact quasiquoteList_occurs h hlist
  | vector hlist =>
    rw [quasiquote] at h
    obtain ⟨list, t, hrun, hpure⟩ := lower_bind h
    cases lower_pure hpure
    obtain ⟨u, value, u', hvalue, hoccurs⟩ := quasiquoteList_occurs hrun hlist
    exact ⟨u, value, u', hvalue, .argument (by simp) hoccurs⟩

lemma quote_eq (h : quote debug form s = .ok (core, s')) : core = quoted debug form := by
  obtain ⟨_, t, _, hpure⟩ := lower_bind h
  cases lower_pure hpure
  rfl

/-- **A quasiquotation quotes its leaves.** -/
theorem quasiquote_leaf {leaf : Form N} {path : List Branch}
    (h : quasiquote debug expr depth form s = .ok (core, s'))
    (hleaf : QuasiLeaf depth form leaf path) : Occurs (quoted debug leaf) core := by
  induction path generalizing depth form core s s' with
  | nil =>
    obtain ⟨rfl, hshape⟩ := hleaf
    have hquote : quote debug form s = .ok (core, s') := by
      cases form with
      | list | vector => exact hshape.elim
      | _ => simpa only [quasiquote] using h
    rw [quote_eq hquote]
    exact .refl
  | cons branch path ih =>
    obtain ⟨depth', inner, hstep, hinner⟩ := hleaf
    obtain ⟨t, value, t', hvalue, hoccurs⟩ := quasiquote_occurs h hstep
    exact (ih hvalue hinner).trans hoccurs

end Quasiquotation

/-- A quotation that is hoisted is defined once, as the literal of its form. -/
theorem quote_defines {debug : N → String} (h : quote debug form s = .ok (core, s')) :
    (core = literal form ∧ s' = s) ∨ ∃ name, core = .variable name ∧ name ∈ s'.map Prod.fst ∧
      (name ∉ s.map Prod.fst → s' = s ++ [(name, call "%literal" [literal form])]) := by
  obtain ⟨_, t, hhoist, hpure⟩ := lower_bind h
  cases lower_pure hpure
  cases form with
  | nil | bool | char | number =>
    cases lower_pure hhoist
    exact .inl ⟨rfl, rfl⟩
  | string | symbol | list | vector | bytevector =>
    obtain rfl := (congrArg Prod.snd (Except.ok.inj hhoist)).symm
    refine .inr ⟨_, rfl, ?_, fun hnew => if_neg hnew⟩
    dsimp only
    split
    · assumption
    · simp

/-! ### The clauses of `case` -/

lemma orCore_occurs {test : CoreExpr N} {tests : List (CoreExpr N)} (h : test ∈ tests) :
    Occurs test (orCore tests) := by
  induction tests with
  | nil => simp at h
  | cons first rest ih =>
    cases rest with
    | nil =>
      obtain rfl : test = first := by simpa using h
      exact .refl
    | cons second rest =>
      rcases List.mem_cons.1 h with rfl | hmem
      · exact .test .refl
      · exact .alternate (ih hmem)

lemma caseClauses_next {shadowed : String → Bool} {expr : Form N → Lower N (CoreExpr N)}
    {body : List (Form N) → Lower N (CoreExpr N)} {key : String} {clause : Form N}
    {clauses : List (Form N)}
    (h : caseClauses shadowed expr body key (clause :: clauses) s = .ok (core, s'))
    (hne : clauses ≠ []) :
    ∃ no t t', caseClauses shadowed expr body key clauses t = .ok (no, t') ∧ Occurs no core := by
  unfold caseClauses at h
  split at h
  case h_1 first forms =>
    split at h
    case isTrue =>
      cases clauses with
      | nil => exact absurd rfl hne
      | cons => cases h
    case isFalse =>
      split at h
      · obtain ⟨yes, t, _, hrest⟩ := lower_bind h
        obtain ⟨no, t', hno, hpure⟩ := lower_bind hrest
        cases lower_pure hpure
        exact ⟨no, t, _, hno, .alternate .refl⟩
      · cases h
  · cases h
  · cases h

/-- **The clauses of a `case` compare the key to the literal of each of their data.** -/
theorem caseClauses_literal {shadowed : String → Bool} {expr : Form N → Lower N (CoreExpr N)}
    {body : List (Form N) → Lower N (CoreExpr N)} {key : String} {clauses : List (Form N)}
    (h : caseClauses shadowed expr body key clauses s = .ok (core, s'))
    {datums forms : List (Form N)} {datum : Form N}
    (hclause : .list (.list datums none :: forms) none ∈ clauses) (hdatum : datum ∈ datums) :
    Occurs (literal datum) core := by
  induction clauses generalizing core s s' with
  | nil => simp at hclause
  | cons clause clauses ih =>
    rcases List.mem_cons.1 hclause with rfl | hmem
    · have helse : ¬ ((FormOf.list datums none : Form N).symbol? = some "else" ∧
          ¬ shadowed "else") := fun h => by cases h.1
      simp only [caseClauses, if_neg helse] at h
      obtain ⟨yes, t, _, hrest⟩ := lower_bind h
      obtain ⟨no, t', _, hpure⟩ := lower_bind hrest
      cases lower_pure hpure
      refine .test (.trans ?_ (orCore_occurs (List.mem_map_of_mem hdatum)))
      exact .argument (List.mem_cons_of_mem _ (List.mem_singleton.2 rfl)) .refl
    · obtain ⟨no, t, t', hno, hoccurs⟩ : ∃ no t t',
          caseClauses shadowed expr body key clauses t = .ok (no, t') ∧ Occurs no core :=
        caseClauses_next h (List.ne_nil_of_mem hmem)
      exact (ih hno hmem).trans hoccurs

/-! ### Data positions -/

/-- Which names are macros and which are variables where a program is lowered. -/
structure Scope where
  macros : String → Bool
  shadowed : String → Bool

/-- The special form that a list with this head is lowered as. -/
def Scope.special (scope : Scope) : Form N → Option String
  | .symbol name =>
    let own := canonicalIdentifier (symbolName name)
    let forced := (stripPrefix "#syntax#" name).isSome
    if (forced ∨ ¬ scope.shadowed own) ∧ ¬ scope.macros own then some own else none
  | _ => none

/-- The path leads to a part of the program that is lowered as data. -/
inductive DataPosition (scope : Scope) (program : Form N) : List Branch → Prop
  | vector {path : List Branch} {items : List (Form N)}
      (hat : program.at? path = some (.vector items)) : DataPosition scope program path
  | quote {path : List Branch} {head body : Form N}
      (hat : program.at? path = some (.list [head, body] none))
      (hhead : scope.special head = some "quote") :
      DataPosition scope program (path ++ [.item 1])
  | quasiquote {path rest : List Branch} {head body leaf : Form N}
      (hat : program.at? path = some (.list [head, body] none))
      (hhead : scope.special head = some "quasiquote") (hleaf : QuasiLeaf 1 body leaf rest) :
      DataPosition scope program (path ++ .item 1 :: rest)
  | caseDatum {path : List Branch} {head key datum : Form N}
      {clauses datums forms : List (Form N)} {index place : ℕ}
      (hat : program.at? path = some (.list (head :: key :: clauses) none))
      (hhead : scope.special head = some "case")
      (hclause : clauses[index]? = some (.list (.list datums none :: forms) none))
      (hdatum : datums[place]? = some datum) :
      DataPosition scope program (path ++ [.item (index + 2), .item 0, .item place])
  | inside {path : List Branch} {branch : Branch} {datum part : Form N}
      (hposition : DataPosition scope program path) (hat : program.at? path = some datum)
      (hpart : datum.part branch = some part) :
      DataPosition scope program (path ++ [branch])

lemma QuasiListStep.part_eq {depth' index : ℕ} {items : List (Form N)} {item : Form N}
    (h : QuasiListStep depth items index depth' item) : items[index]? = some item := by
  cases h with
  | item _ hitem _ => exact hitem
  | nested _ hitems => rw [hitems]; rfl
  | unquoted _ _ _ hitems => rw [hitems]; rfl

lemma QuasiLeaf.at?_eq {leaf : Form N} {path : List Branch} (h : QuasiLeaf depth form leaf path) :
    form.at? path = some leaf := by
  induction path generalizing depth form with
  | nil => exact congrArg some h.1
  | cons branch path ih =>
    obtain ⟨depth', inner, hstep, hinner⟩ := h
    have hpart : form.part branch = some inner := by
      cases hstep with
      | tail => rfl
      | dotted hitem => exact hitem
      | list hlist | vector hlist => exact hlist.part_eq
    rw [FormOf.at?, hpart]
    exact ih hinner

lemma DataPosition.at?_some {scope : Scope} {program : Form N} {path : List Branch}
    (h : DataPosition scope program path) : ∃ datum, program.at? path = some datum := by
  cases h with
  | vector hat => exact ⟨_, hat⟩
  | quote hat => exact ⟨_, by rw [FormOf.at?_append, hat]; rfl⟩
  | @quasiquote path rest head body leaf hat _ hleaf =>
    exact ⟨leaf, by rw [FormOf.at?_append, hat]; exact hleaf.at?_eq⟩
  | @caseDatum path head key datum clauses datums forms index place hat _ hclause hdatum =>
    refine ⟨datum, ?_⟩
    simp only [FormOf.at?_append, hat, Option.bind_some, FormOf.at?, FormOf.part,
      List.getElem?_cons_succ, List.getElem?_cons_zero, hclause, hdatum]
  | @inside path branch datum part _ hat hpart =>
    refine ⟨part, ?_⟩
    rw [FormOf.at?_append, hat, Option.bind_some, FormOf.at?, hpart]
    rfl

/-- What the special form around a data position of a program is lowered to. -/
inductive LoweredAround (debug : N → String) (program : Form N) :
    List Branch → CoreExpr N → Prop
  | quote {path : List Branch} {head body : Form N} {s s' : Hoisted N} {core : CoreExpr N}
      (hat : program.at? path = some (.list [head, body] none))
      (hcore : Expand.quote debug body s = .ok (core, s')) :
      LoweredAround debug program (path ++ [.item 1]) core
  | quasiquote {expr : Form N → Lower N (CoreExpr N)} {path rest : List Branch}
      {head body leaf : Form N} {s s' : Hoisted N} {core : CoreExpr N}
      (hat : program.at? path = some (.list [head, body] none)) (hleaf : QuasiLeaf 1 body leaf rest)
      (hcore : Expand.quasiquote debug expr 1 body s = .ok (core, s')) :
      LoweredAround debug program (path ++ .item 1 :: rest) core
  | caseDatum {shadowed : String → Bool} {expr : Form N → Lower N (CoreExpr N)}
      {body : List (Form N) → Lower N (CoreExpr N)} {name : String} {path : List Branch}
      {head key datum : Form N} {clauses datums forms : List (Form N)} {index place : ℕ}
      {s s' : Hoisted N} {core : CoreExpr N}
      (hat : program.at? path = some (.list (head :: key :: clauses) none))
      (hclause : clauses[index]? = some (.list (.list datums none :: forms) none))
      (hdatum : datums[place]? = some datum)
      (hcore : caseClauses shadowed expr body name clauses s = .ok (core, s')) :
      LoweredAround debug program (path ++ [.item (index + 2), .item 0, .item place]) core

/-- The code has the literal of the form, or the global that is defined as it where it is new. -/
def Delivers (debug : N → String) (form : Form N) (code : CoreExpr N) : Prop :=
  Occurs (literal form) code ∨ ∃ name, Occurs (.variable name) code ∧
    ∀ s core s', quote debug form s = .ok (core, s') → name ∈ s'.map Prod.fst ∧
      (name ∉ s.map Prod.fst → s' = s ++ [(name, call "%literal" [literal form])])

lemma delivers_quoted {debug : N → String} (h : Occurs (quoted debug form) core) :
    Delivers debug form core := by
  by_cases himmediate : quoted debug form = literal form
  · exact .inl (himmediate ▸ h)
  · cases form with
    | nil | bool | char | number => exact absurd rfl himmediate
    | string | symbol | list | vector | bytevector =>
      refine .inr ⟨_, h, fun s core s' hquote => ?_⟩
      rcases quote_defines hquote with ⟨hcore, -⟩ | ⟨name, hcore, hdefines⟩
      · exact absurd ((quote_eq hquote).symm.trans hcore) himmediate
      · cases (quote_eq hquote).symm.trans hcore
        exact hdefines

/-- **A form at a data position is lowered to its literal.** -/
theorem LoweredAround.delivers {debug : N → String} {program : Form N} {path : List Branch}
    (h : LoweredAround debug program path core) :
    ∃ datum, program.at? path = some datum ∧ Delivers debug datum core := by
  cases h with
  | quote hat hcore =>
    refine ⟨_, by rw [FormOf.at?_append, hat]; rfl, delivers_quoted ?_⟩
    rw [quote_eq hcore]
    exact .refl
  | quasiquote hat hleaf hcore =>
    exact ⟨_, by rw [FormOf.at?_append, hat]; exact hleaf.at?_eq,
      delivers_quoted (quasiquote_leaf hcore hleaf)⟩
  | caseDatum hat hclause hdatum hcore =>
    refine ⟨_, ?_, .inl (caseClauses_literal hcore (List.mem_of_getElem? hclause)
      (List.mem_of_getElem? hdatum))⟩
    simp only [FormOf.at?_append, hat, Option.bind_some, FormOf.at?, FormOf.part,
      List.getElem?_cons_succ, List.getElem?_cons_zero, hclause, hdatum]

/-- The value of the literal at a position of a program. -/
def literalAt (program : Form N) (path : List Branch) : Option (Datum N) :=
  (program.at? path).bind fun form => evaluate (literal form)

/-- **Names of data.** The symbols at a data position of an expansion are written by the
template or the use site, and the literal there is the datum they wrote exactly if every symbol
of it is one that the template did not tag and has no tag of its own. That literal is what the
special form around the position is lowered to. -/
theorem data_keeps_its_names_iff {x : Expansion N} {ellipsisActive : Bool}
    {template program : Form N} (h : expandTemplate x ellipsisActive template = .ok program)
    {scope : Scope} {path : List Branch} (hpath : DataPosition scope program path) :
    ∃ origins place, templateOrigins x ellipsisActive template = .ok origins ∧
      origins.at? path = some place ∧
      (∀ origin ∈ place.symbols, origin.Written x template.symbols) ∧
      (literalAt program path = some (place.datum Origin.own) ↔
        ∀ origin ∈ place.symbols, origin.Kept) ∧
      ∀ debug core, LoweredAround debug program path core →
        Delivers debug (place.map (Origin.output x)) core := by
  obtain ⟨origins, horigins, hprogram⟩ := expandTemplate_origins h
  obtain ⟨datum, hdatum⟩ := hpath.at?_some
  rw [← hprogram, FormOf.at?_map, Option.map_eq_some_iff] at hdatum
  obtain ⟨place, hplace, rfl⟩ := hdatum
  refine ⟨origins, place, horigins, hplace, fun origin hmem => templateOrigins_written horigins
    origin (FormOf.at?_symbols hplace hmem), ?_, fun debug core hcore => ?_⟩
  · rw [literalAt, ← hprogram, FormOf.at?_map, hplace, Option.map_some, Option.bind_some,
      evaluate_literal, FormOf.datum_map, Option.some.injEq, FormOf.datum_eq_iff]
    simp only [Function.comp_apply, Origin.literalName_output_iff]
  · obtain ⟨datum, hdatum, hdelivers⟩ := hcore.delivers
    rw [← hprogram, FormOf.at?_map, hplace] at hdatum
    exact Option.some.inj hdatum ▸ hdelivers

/-- An expansion that captured nothing, of a macro of the top level. -/
def plainExpansion : Expansion ℕ where
  captures _ := none
  definitionEnv := ⟨[]⟩
  ellipsis := "..."
  mark := 1

def standardScope : Scope := ⟨fun _ => false, fun _ => false⟩

/-- The template `(keyword x)`. -/
def tagging (keyword : String) : Form ℕ := .list [.symbol keyword, .symbol "x"] none

theorem quote_keeps_its_name :
    ∃ origins place, templateOrigins plainExpansion true (tagging "quote") = .ok origins ∧
      origins.at? [.item 1] = some place ∧
      (∀ origin ∈ place.symbols, origin.Written plainExpansion ["quote", "x"]) ∧
      (literalAt (.list [.symbol "#syntax#quote", .symbol "#literal#x"] none) [.item 1] =
          some (place.datum Origin.own) ↔
        ∀ origin ∈ place.symbols, origin.Kept) ∧
      ∀ debug core, LoweredAround debug
          (.list [.symbol "#syntax#quote", .symbol "#literal#x"] none) [.item 1] core →
        Delivers debug (place.map (Origin.output plainExpansion)) core :=
  @data_keeps_its_names_iff ℕ plainExpansion true (tagging "quote") _ rfl standardScope _
    (@DataPosition.quote ℕ standardScope _ [] _ _ rfl (by decide))

/-- A quasiquoted symbol of a template is a datum with the tag of its expansion. -/
theorem quasiquoted_name_is_tagged :
    ¬ ∀ (x : Expansion ℕ) (ellipsisActive : Bool) (template program : Form ℕ) (scope : Scope)
      (path : List Branch) (origins place : FormOf ℕ Origin),
      expandTemplate x ellipsisActive template = .ok program → DataPosition scope program path →
      templateOrigins x ellipsisActive template = .ok origins → origins.at? path = some place →
      literalAt program path = some (place.datum Origin.own) := by
  intro h
  have hsymbol := h plainExpansion true (tagging "quasiquote")
    (.list [.symbol "#syntax#quasiquote", .symbol "#resolved#1#x"] none) standardScope [.item 1]
    (.list [.symbol ⟨.introduced, "quasiquote", false⟩, .symbol ⟨.introduced, "x", false⟩] none)
    (.symbol ⟨.introduced, "x", false⟩) rfl
    (@DataPosition.quasiquote ℕ standardScope _ [] [] _ _ _ rfl (by decide) ⟨rfl, trivial⟩)
    rfl rfl
  have hname : literalName "#resolved#1#x" = bareName "x" := by
    simpa [literalAt, FormOf.at?, FormOf.part, evaluate_literal, FormOf.datum, Origin.own]
      using hsymbol
  exact absurd hname (by decide)

end Neetan.Expand
