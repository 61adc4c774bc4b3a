import Neetan.Templates

/-!
How the expander lowers data: literals, quotations, quasiquotations and the clauses of `case`.

A literal becomes the calls that build it, and these calls give back the datum of the form,
with the names its symbols have as literals. A quotation that allocates is hoisted to a
global of the unit, named after its content.
-/

namespace Neetan.Expand

/-- A value that a core expression holds itself. -/
inductive Immediate
  | nil
  | unspecified
  | boolean (value : Bool)
  | character (value : Char)
  | integer (value : ℤ)

/-- The core expressions that the lowering of data builds. -/
inductive CoreExpr (N : Type)
  | literal (value : Immediate)
  | numberLiteral (value : N)
  | variable (name : String)
  | ifThenElse (test yes no : CoreExpr N)
  | call (procedure : CoreExpr N) (arguments : List (CoreExpr N))

variable {N : Type}

def call (name : String) (arguments : List (CoreExpr N)) : CoreExpr N :=
  .call (.variable name) arguments

/-! ### Literals -/

def stringLiteral (text : String) : CoreExpr N :=
  call "string" (text.toList.map fun c => .literal (.character c))

mutual

def literal : Form N → CoreExpr N
  | .nil => .literal .nil
  | .bool value => .literal (.boolean value)
  | .char value => .literal (.character value)
  -- a number that fits a value is held as one; either way it is the number
  | .number value => .numberLiteral value
  | .string text => stringLiteral text
  | .symbol name => call "string->symbol" [stringLiteral (literalName name)]
  | .bytevector bytes => call "bytevector" (bytes.map fun b => .literal (.integer b.toNat))
  | .vector items => call "vector" (literals items)
  | .list items tail =>
    (literals items).foldr (fun item out => call "cons" [item, out]) (literalTail tail)

def literals : List (Form N) → List (CoreExpr N)
  | [] => []
  | item :: items => literal item :: literals items

def literalTail : Option (Form N) → CoreExpr N
  | none => .literal .nil
  | some tail => literal tail

end

/-! ### What a literal evaluates to -/

def Datum.char? : Datum N → Option Char
  | .char c => some c
  | _ => none

def Datum.byte? : Datum N → Option UInt8
  | .integer k => if 0 ≤ k ∧ k < 256 then some (UInt8.ofNat k.toNat) else none
  | _ => none

/-- The natives that literals call. -/
def native (name : String) (arguments : List (Datum N)) : Option (Datum N) :=
  if name = "string" then
    (arguments.mapM Datum.char?).map fun text => .string (String.ofList text)
  else if name = "string->symbol" then
    match arguments with | [.string text] => some (.symbol text) | _ => none
  else if name = "bytevector" then
    (arguments.mapM Datum.byte?).map .bytevector
  else if name = "vector" then some (.vector arguments)
  else if name = "cons" then
    match arguments with | [car, cdr] => some (.pair car cdr) | _ => none
  else none

mutual

def evaluate : CoreExpr N → Option (Datum N)
  | .literal .nil => some .nil
  | .literal .unspecified => none
  | .literal (.boolean value) => some (.bool value)
  | .literal (.character value) => some (.char value)
  | .literal (.integer value) => some (.integer value)
  | .numberLiteral value => some (.number value)
  | .call (.variable name) arguments => (evaluateAll arguments).bind (native name)
  | .call _ _ | .variable _ | .ifThenElse _ _ _ => none

def evaluateAll : List (CoreExpr N) → Option (List (Datum N))
  | [] => some []
  | argument :: arguments =>
    (evaluate argument).bind fun first => (evaluateAll arguments).map (first :: ·)

end

lemma evaluate_call (name : String) (arguments : List (CoreExpr N)) :
    evaluate (call name arguments) = (evaluateAll arguments).bind (native name) := rfl

lemma evaluateAll_map {α : Type} (expression : α → CoreExpr N) (value : α → Datum N)
    (items : List α) (h : ∀ item ∈ items, evaluate (expression item) = some (value item)) :
    evaluateAll (items.map expression) = some (items.map value) := by
  induction items with
  | nil => rfl
  | cons item items ih =>
    rw [List.map_cons, evaluateAll, h item (List.mem_cons_self ..),
      ih fun other hmem => h other (List.mem_cons_of_mem _ hmem)]
    rfl

lemma mapM_map_some {α β : Type} (make : α → β) (get : β → Option α)
    (h : ∀ a, get (make a) = some a) (items : List α) :
    (items.map make).mapM get = some items := by
  induction items with
  | nil => rfl
  | cons item items ih => simp [List.mapM_cons, h, ih]

lemma evaluate_stringLiteral (text : String) :
    evaluate (stringLiteral text : CoreExpr N) = some (.string text) := by
  rw [stringLiteral, evaluate_call, evaluateAll_map _ .char _ fun _ _ => rfl]
  have hchars : (text.toList.map (Datum.char (N := N))).mapM Datum.char? = some text.toList :=
    mapM_map_some Datum.char Datum.char? (fun _ => rfl) _
  simp [native, hchars]

lemma evaluate_bytevectorLiteral (bytes : List UInt8) :
    evaluate (literal (.bytevector bytes) : CoreExpr N) = some (.bytevector bytes) := by
  rw [literal, evaluate_call, evaluateAll_map _ (fun b => .integer b.toNat) _ fun _ _ => rfl]
  have hbytes : (bytes.map fun b => (Datum.integer b.toNat : Datum N)).mapM Datum.byte? =
      some bytes := by
    refine mapM_map_some _ Datum.byte? (fun b => ?_) _
    have hlt := b.toNat_lt
    rw [Datum.byte?, if_pos (by omega), Int.toNat_natCast, UInt8.ofNat_toNat]
  simp [native, hbytes]

lemma evaluate_conses (items : List (CoreExpr N)) (data : List (Datum N)) (tail : CoreExpr N)
    (last : Datum N) (hitems : evaluateAll items = some data) (htail : evaluate tail = some last) :
    evaluate (items.foldr (fun item out => call "cons" [item, out]) tail) =
      some (Datum.chain data last) := by
  induction items generalizing data with
  | nil =>
    obtain rfl : [] = data := Option.some.inj hitems
    exact htail
  | cons item items ih =>
    rw [evaluateAll, Option.bind_eq_some_iff] at hitems
    obtain ⟨first, hfirst, hrest⟩ := hitems
    obtain ⟨others, hothers, rfl⟩ := Option.map_eq_some_iff.1 hrest
    rw [List.foldr_cons, evaluate_call, evaluateAll, hfirst, evaluateAll, ih others hothers]
    rfl

@[simp] lemma literals_eq (items : List (Form N)) : literals items = items.map literal := by
  induction items with
  | nil => rfl
  | cons item items ih => simp only [literals, ih, List.map_cons]

/-- **A literal evaluates to the datum of its form.** -/
theorem evaluate_literal (form : Form N) :
    evaluate (literal form) = some (form.datum literalName) := by
  induction form using FormOf.parts_induction with
  | string text => exact evaluate_stringLiteral text
  | symbol name =>
    rw [literal, evaluate_call, evaluateAll, evaluate_stringLiteral]
    rfl
  | bytevector bytes => exact evaluate_bytevectorLiteral bytes
  | vector items hitems =>
    rw [literal, evaluate_call, literals_eq, evaluateAll_map literal _ items hitems,
      FormOf.datum, FormOf.data_eq]
    rfl
  | list items tail hitems htail =>
    rw [literal, literals_eq, FormOf.datum, FormOf.data_eq]
    refine evaluate_conses _ _ _ _ (evaluateAll_map literal _ items hitems) ?_
    cases tail with
    | none => rfl
    | some rest => exact htail rest rfl
  | _ => rfl

/-! ### Quotations -/

def hexByte (byte : UInt8) : String :=
  String.ofList (((if byte.toNat < 16 then ['0'] else []) ++ Nat.toDigits 16 byte.toNat))

mutual

/-- The serialization that names a hoisted literal; `debug` is the text of a number. -/
def literalKey (debug : N → String) : Form N → String
  | .nil => "e"
  | .bool value => if value then "t" else "f"
  | .char c => "c" ++ String.ofList (Nat.toDigits 16 c.toNat) ++ ";"
  | .number value => "n" ++ debug value ++ ";"
  | .string text => "s" ++ Nat.repr text.utf8ByteSize ++ ":" ++ text
  | .symbol name => "y" ++ Nat.repr name.utf8ByteSize ++ ":" ++ name
  | .bytevector bytes => "u" ++ Nat.repr bytes.length ++ ":" ++ String.join (bytes.map hexByte)
  | .vector items => "v" ++ Nat.repr items.length ++ "(" ++ literalKeys debug items ++ ")"
  | .list items tail =>
    "l" ++ Nat.repr items.length ++ "(" ++ literalKeys debug items ++
      literalKeyTail debug tail ++ ")"

def literalKeys (debug : N → String) : List (Form N) → String
  | [] => ""
  | item :: items => literalKey debug item ++ literalKeys debug items

def literalKeyTail (debug : N → String) : Option (Form N) → String
  | none => ""
  | some tail => "." ++ literalKey debug tail

end

/-- The literals that a unit defines before its body, in the order of their appearance. -/
abbrev Hoisted (N : Type) := List (String × CoreExpr N)

abbrev Lower (N : Type) := StateT (Hoisted N) (Except String)

/-- The literal as an immediate, or the name of its hoisted definition. -/
def quoted (debug : N → String) : Form N → CoreExpr N
  | .nil => literal .nil
  | .bool value => literal (.bool value)
  | .char c => literal (.char c)
  | .number value => literal (.number value)
  | form => .variable ("#quote#" ++ literalKey debug form)

/-- A literal that is hoisted is defined once in its unit. -/
def hoist (debug : N → String) (form : Form N) : Lower N Unit :=
  match quoted debug form with
  | .variable name => modify fun hoisted =>
    if name ∈ hoisted.map Prod.fst then hoisted
    else hoisted ++ [(name, call "%literal" [literal form])]
  | _ => pure ()

def quote (debug : N → String) (form : Form N) : Lower N (CoreExpr N) := do
  hoist debug form
  pure (quoted debug form)

/-! ### Quasiquotations -/

/-- The keyword of a list that a quasiquotation reads itself. -/
def quasiTag (head : Form N) : Option String :=
  match head.symbol? with
  | some name => if name ∈ ["unquote", "unquote-splicing", "quasiquote"] then some name else none
  | none => none

/-- The argument list of a splice. -/
def spliceOf : Form N → Option (List (Form N))
  | .list (head :: arguments) none =>
    if head.symbol? = some "unquote-splicing" then some arguments else none
  | _ => none

mutual

def quasiquote (debug : N → String) (expr : Form N → Lower N (CoreExpr N)) (depth : ℕ) :
    Form N → Lower N (CoreExpr N)
  | .list items none => quasiquoteList debug expr depth items
  | .list items (some tail) => do
    let result ← quasiquote debug expr depth tail
    quasiquoteItems debug expr depth result items
  | .vector items => do
    let list ← quasiquoteList debug expr depth items
    pure (call "list->vector" [list])
  | form => quote debug form

/-- A proper list, which may be tagged. -/
def quasiquoteList (debug : N → String) (expr : Form N → Lower N (CoreExpr N)) (depth : ℕ) :
    List (Form N) → Lower N (CoreExpr N)
  | [] => pure (.literal .nil)
  | [head, body] =>
    match quasiTag head with
    | some "quasiquote" => do
      let tag ← quote debug (.symbol "quasiquote")
      let value ← quasiquote debug expr (depth + 1) body
      pure (call "cons" [tag, call "cons" [value, .literal .nil]])
    | some tagged =>
      if depth = 1 then
        if tagged = "unquote" then expr body
        else throw "unquote-splicing is valid only in a list or vector template"
      else do
        let tag ← quote debug (.symbol tagged)
        let value ← quasiquote debug expr (depth - 1) body
        pure (call "cons" [tag, call "cons" [value, .literal .nil]])
    | none => quasiquoteItems debug expr depth (.literal .nil) [head, body]
  | head :: items =>
    match quasiTag head with
    | some tagged => throw (tagged ++ " requires one expression")
    | none => quasiquoteItems debug expr depth (.literal .nil) (head :: items)

/-- The items of a list, from the last to the first. -/
def quasiquoteItems (debug : N → String) (expr : Form N → Lower N (CoreExpr N)) (depth : ℕ)
    (result : CoreExpr N) : List (Form N) → Lower N (CoreExpr N)
  | [] => pure result
  | item :: items => do
    let rest ← quasiquoteItems debug expr depth result items
    match if depth = 1 then spliceOf item else none with
    | some [spliced] => do
      let values ← expr spliced
      pure (call "append" [values, rest])
    | some _ => throw "unquote-splicing requires one expression"
    | none => do
      let value ← quasiquote debug expr depth item
      pure (call "cons" [value, rest])

end

/-! ### The clauses of `case` -/

def orCore : List (CoreExpr N) → CoreExpr N
  | [] => .literal (.boolean false)
  | [last] => last
  | first :: rest => .ifThenElse first (.literal (.boolean true)) (orCore rest)

/-- The body of a clause, or the call of the receiver after `=>`. -/
def caseBody (shadowed : String → Bool) (expr : Form N → Lower N (CoreExpr N))
    (body : List (Form N) → Lower N (CoreExpr N)) (key : String) (forms : List (Form N)) :
    Lower N (CoreExpr N) :=
  match forms with
  | [arrow, receiver] =>
    if arrow.symbol? = some "=>" ∧ ¬ shadowed "=>" then do
      let procedure ← expr receiver
      pure (.call procedure [.variable key])
    else body forms
  | _ => body forms

def caseClauses (shadowed : String → Bool) (expr : Form N → Lower N (CoreExpr N))
    (body : List (Form N) → Lower N (CoreExpr N)) (key : String) :
    List (Form N) → Lower N (CoreExpr N)
  | [] => pure (.literal .unspecified)
  | clause :: clauses =>
    match clause with
    | .list (first :: forms) none =>
      if first.symbol? = some "else" ∧ ¬ shadowed "else" then
        match clauses with
        | [] => caseBody shadowed expr body key forms
        | _ => throw "else must be the final case clause"
      else
        match first with
        | .list datums none => do
          let tests := datums.map fun d => call "eqv?" [.variable key, literal d]
          let yes ← caseBody shadowed expr body key forms
          let no ← caseClauses shadowed expr body key clauses
          pure (.ifThenElse (orCore tests) yes no)
        | _ => throw "case datum list must be proper"
    | .list [] none => throw "case clause cannot be empty"
    | _ => throw "case clause must be a proper list"

end Neetan.Expand
