import Neetan.Lexer
import Mathlib.Data.Int.Notation
import Mathlib.Logic.Function.Basic

/-!
The datum reader, and what its nesting limit changes.

One token is in hand whenever a datum is parsed; the forms that contain data ask for further
tokens and parse again. The nodes of a datum are kept in a list and refer to each other by
position. Fuel bounds the recursion, and the parser also keeps how many activations of
`parseDatumFrom` there have been at once, and how often it entered a form that does not count
itself, which the program does not keep. Under a smaller limit
every step of the lexer and of the parser does the same as under a larger one, unless it fails
because the limit is exceeded.
-/

namespace Neetan.Reader

section

open Neetan.Fallible

/-- What a node of a datum graph is; `N` is the type of numbers. -/
inductive NodeKind (N : Type)
  | nil
  | boolean (value : Bool)
  | character (value : Char)
  | string (value : String)
  | symbol (name : String)
  | number (value : N)
  | pair (car cdr : ℕ)
  | vector (items : List ℕ)
  | bytevector (bytes : List UInt8)
  | alias (target : Option ℕ)

structure Node (N : Type) where
  kind : NodeKind N
  span : Span

/-- The numbers of the program: which texts are numbers, and which numbers are exact integers. -/
structure Numbers (N : Type) where
  parse : String → Option (Except String N)
  exactInteger : N → Option ℤ

structure Parser (N : Type) where
  lexer : Lexer
  nodes : List (Node N)
  labels : ℕ → Option ℕ
  depth : ℕ
  /-- The most activations there have been at once. -/
  deepest : ℕ
  /-- How many forms without a call of `descend` have been entered. -/
  uncounted : ℕ

abbrev ParseM (N : Type) := Fallible (Parser N) ReadError

variable {N : Type} (limits : Limits) (unicode : Unicode) (numbers : Numbers N)

/-! ### Steps of the parser -/

def next : ParseM N (Option Token) := fun parser =>
  (nextToken limits unicode parser.lexer).map fun result =>
    (result.1, { parser with lexer := result.2 })

def add (kind : NodeKind N) (span : Span) : ParseM N ℕ := fun parser =>
  some (.ok parser.nodes.length, { parser with nodes := parser.nodes ++ [⟨kind, span⟩] })

def failWith {α : Type} (kind : ErrorKind) (message : String) (span : Span) : ParseM N α :=
  fail ⟨kind, message, span⟩

def required (message : String) (span : Span) : ParseM N Token := do
  let token ← next limits unicode
  okOr ⟨.unexpectedEof, message, span⟩ token

def descend (span : Span) : ParseM N Unit := do
  modify fun parser => { parser with depth := parser.depth + 1 }
  let depth ← reads Parser.depth
  if depth > limits.maxNesting then
    failWith .readerLimitExceeded "reader nesting limit exceeded" span
  else pure ()

def ascend : ParseM N Unit := modify fun parser => { parser with depth := parser.depth - 1 }

/-! ### Atoms -/

def isIdentifierMark (c : Char) : Bool :=
  ['!', '$', '%', '&', '*', '/', ':', '<', '=', '>', '?', '@', '^', '_', '~'].contains c

/-- The character lies outside of ASCII and is neither a space nor a control character. -/
def isForeign (c : Char) : Bool :=
  !(c.toNat < 128) && !unicode.isWhitespace c && !unicode.isControl c

def validIdentifier (text : String) : Bool :=
  if text = "+" || text = "-" || text = "..." then true
  else
    match text.toList with
    | [] => false
    | first :: rest =>
      (unicode.isAlphabetic first || isIdentifierMark first || isForeign unicode first) &&
        rest.all fun c => unicode.isAlphanumeric c || isIdentifierMark c ||
          ['+', '-', '.'].contains c || isForeign unicode c

def namedCharacters : List (String × Char) :=
  [("alarm", '\x07'), ("backspace", '\x08'), ("delete", '\x7f'), ("escape", '\x1b'),
    ("newline", '\n'), ("null", '\x00'), ("return", '\r'), ("space", ' '), ("tab", '\t')]

def characterOf (text : List Char) : Except String Char :=
  match namedCharacters.lookup (String.ofList text) with
  | some c => .ok c
  | none =>
    match text with
    | [c] => .ok c
    | 'x' :: digits => scalar digits
    | _ => .error "invalid character literal"

def character (text : List Char) (span : Span) : ParseM N ℕ :=
  match characterOf text with
  | .ok c => add (.character c) span
  | .error message => failWith .invalidToken message span

def numberPrefixes : List (List Char) :=
  [['#', 'b'], ['#', 'o'], ['#', 'd'], ['#', 'x'], ['#', 'e'], ['#', 'i']]

def number (text : String) (span : Span) : ParseM N ℕ :=
  match numbers.parse text with
  | some (.ok value) => add (.number value) span
  | some (.error message) => failWith .invalidNumber message span
  | none =>
    if validIdentifier unicode text then add (.symbol text) span
    else failWith .invalidToken "invalid identifier or number" span

def atom (text : String) (span : Span) : ParseM N ℕ :=
  if text = "." then failWith .invalidDatum "a dot is valid only inside a list" span
  else if text = "#t" || text = "#true" then add (.boolean true) span
  else if text = "#f" || text = "#false" then add (.boolean false) span
  else
    match text.toList with
    | '#' :: '\x5c' :: rest => character rest span
    | '#' :: rest =>
      if numberPrefixes.any fun start => start.isPrefixOf (('#' :: rest).map Char.toLower) then
        number unicode numbers text span
      else failWith .invalidToken "invalid # dispatch form" span
    | _ => number unicode numbers text span

/-! ### Forms -/

section
variable (parse : Token → ParseM N ℕ)

/-- `parse_ignored_datum`: the labels of an ignored datum are forgotten. -/
def parseIgnoredDatum (token : Token) : ParseM N Unit := fun parser =>
  (parse token parser).map fun result =>
    (result.1.map fun _ => (), { result.2 with labels := parser.labels })

def requiredSkippingComments (expected : String) (after : Span) : ℕ → ParseM N Token
  | 0 => diverge
  | fuel + 1 => do
    let token ← required limits unicode expected after
    if token.kind = .datumComment then do
      let ignored ← required limits unicode "a datum after #;" token.span
      parseIgnoredDatum parse ignored
      requiredSkippingComments expected after fuel
    else pure token

def abbreviation (name : String) (span : Span) : ParseM N ℕ := do
  descend limits span
  let token ← required limits unicode "a datum after abbreviation" span
  let datum ← parse token
  ascend
  let symbol ← add (.symbol name) span
  let nil ← add .nil span
  let tail ← add (.pair datum nil) span
  add (.pair symbol tail) span

/-- A list of the values with the tail, built from its end. -/
def chain (tail : ℕ) (span : Span) : List ℕ → ParseM N ℕ
  | [] => pure tail
  | value :: values => do
    let rest ← chain tail span values
    add (.pair value rest) span

/-- What follows a dot: one datum, and the end of the list. -/
def dottedTail (opening dot : Span) (fuel : ℕ) (values : List ℕ) :
    ParseM N (Except ReadError ℕ) := do
  let tailToken ← requiredSkippingComments limits unicode parse "a datum after list dot" dot fuel
  let tail ← parse tailToken
  let closing ← requiredSkippingComments limits unicode parse
    "closing parenthesis after dotted tail" dot fuel
  if closing.kind = .close then do
    let list ← chain tail opening values
    return .ok list
  else
    return .error ⟨.invalidDatum, "dotted list must end after one tail datum", closing.span⟩

def listLoop (opening : Span) : ℕ → List ℕ → ParseM N (Except ReadError ℕ)
  | 0, _ => diverge
  | fuel + 1, values => do
    let token ← requiredSkippingComments limits unicode parse "closing parenthesis for list"
      opening (fuel + 1)
    if token.kind = .close then do
      let nil ← add .nil token.span
      let list ← chain nil opening values
      return .ok list
    else if token.kind = .atom "." then
      if values = [] then
        return .error ⟨.invalidDatum, "dot requires a preceding list element", token.span⟩
      else dottedTail limits unicode parse opening token.span (fuel + 1) values
    else do
      let value ← parse token
      listLoop opening fuel (values ++ [value])

def vectorLoop (opening : Span) : ℕ → List ℕ → ParseM N (Except ReadError ℕ)
  | 0, _ => diverge
  | fuel + 1, values => do
    let token ← requiredSkippingComments limits unicode parse "closing parenthesis for vector"
      opening (fuel + 1)
    if token.kind = .close then do
      let vector ← add (.vector values) opening
      return .ok vector
    else do
      let value ← parse token
      vectorLoop opening fuel (values ++ [value])

/-- The byte that a node stands for. -/
def byteOf (node : Option (Node N)) : Option UInt8 :=
  match node with
  | some ⟨.number value, _⟩ =>
    match numbers.exactInteger value with
    | some value => if 0 ≤ value ∧ value ≤ 255 then some (UInt8.ofNat value.toNat) else none
    | none => none
  | _ => none

def bytevectorLoop (opening : Span) : ℕ → List UInt8 → ParseM N (Except ReadError ℕ)
  | 0, _ => diverge
  | fuel + 1, values => do
    let token ← requiredSkippingComments limits unicode parse
      "closing parenthesis for bytevector" opening (fuel + 1)
    if token.kind = .close then do
      let bytevector ← add (.bytevector values) opening
      return .ok bytevector
    else do
      let reference ← parse token
      let node ← reads fun parser => parser.nodes[reference]?
      match byteOf numbers node with
      | some value => bytevectorLoop opening fuel (values ++ [value])
      | none =>
        return .error ⟨.invalidDatum,
          "bytevector elements must be exact integers from 0 through 255", token.span⟩

/-- A form between parentheses. -/
def enclosed (opening : Span) (loop : ParseM N (Except ReadError ℕ)) : ParseM N ℕ := do
  descend limits opening
  let result ← loop
  ascend
  ofExcept result

def label (name : ℕ) (span : Span) : ParseM N ℕ := do
  let labels ← reads Parser.labels
  if (labels name).isSome then
    failWith .invalidDatumLabel ("datum label #" ++ toString name ++ "= is duplicated") span
  else do
    let placeholder ← add (.alias none) span
    modify fun parser =>
      { parser with labels := Function.update parser.labels name (some placeholder) }
    let token ← required limits unicode "a datum after label definition" span
    let target ← parse token
    if target = placeholder then
      failWith .invalidDatumLabel "a datum label cannot directly refer to itself" span
    else do
      modify fun parser =>
        let nodes := parser.nodes.modify placeholder fun node =>
          { node with kind := .alias (some target) }
        { parser with nodes }
      return target

/-- A datum that begins with a datum comment. -/
def commented (span : Span) : ParseM N ℕ := do
  let ignored ← required limits unicode "a datum after #;" span
  parseIgnoredDatum parse ignored
  let token ← required limits unicode "a datum after datum comment" span
  parse token

/-- A form that parses what it contains without a call of `descend`. -/
def uncounted (m : ParseM N ℕ) : ParseM N ℕ := do
  modify fun parser => { parser with uncounted := parser.uncounted + 1 }
  m

def labelRef (name : ℕ) (span : Span) : ParseM N ℕ := do
  let labels ← reads Parser.labels
  okOr ⟨.invalidDatumLabel, "datum label #" ++ toString name ++ "# has not been defined", span⟩
    (labels name)

/-- The body of `parse_datum_from`. -/
def form (fuel : ℕ) (token : Token) : ParseM N ℕ :=
  match token.kind with
  | .atom text => atom unicode numbers text token.span
  | .identifier name => add (.symbol name) token.span
  | .string value => add (.string value) token.span
  | .quote => abbreviation limits unicode parse "quote" token.span
  | .quasiquote => abbreviation limits unicode parse "quasiquote" token.span
  | .unquote => abbreviation limits unicode parse "unquote" token.span
  | .unquoteSplicing => abbreviation limits unicode parse "unquote-splicing" token.span
  | .openList => enclosed limits token.span (listLoop limits unicode parse token.span fuel [])
  | .vectorOpen => enclosed limits token.span (vectorLoop limits unicode parse token.span fuel [])
  | .bytevectorOpen =>
    enclosed limits token.span (bytevectorLoop limits unicode numbers parse token.span fuel [])
  | .datumComment => uncounted (commented limits unicode parse token.span)
  | .labelDef name => uncounted (label limits unicode parse name token.span)
  | .labelRef name => labelRef name token.span
  | .close => failWith .invalidDatum "unexpected closing parenthesis" token.span

end

/-- `parse_datum_from`; `level` is the number of its activations, this one included. -/
def parseDatumFrom : ℕ → ℕ → Token → ParseM N ℕ
  | 0, _, _ => diverge
  | fuel + 1, level, token => do
    modify fun parser => { parser with deepest := max parser.deepest level }
    form limits unicode numbers (parseDatumFrom fuel (level + 1)) (fuel + 1) token

/-- `read_next` on what the lexer has left. -/
def readNext : ParseM N (Option ℕ) := do
  let first ← next limits unicode
  match first with
  | none => return none
  | some token => do
    let rest ← reads fun parser => parser.lexer.rest
    let root ← parseDatumFrom limits unicode numbers (rest.length + 1) 1 token
    return some root

def Parser.start (lexer : Lexer) : Parser N := ⟨lexer, [], fun _ => none, 0, 0, 0⟩

end

/-! ### Nesting limits -/

section

open Neetan.Fallible

variable {σ α β N : Type}

/-- The first computation is the second one, unless it exceeds a limit. -/
def Tighter (m m' : Fallible σ ReadError α) : Prop :=
  ∀ s, m s = m' s ∨ ∃ e s', m s = some (.error e, s') ∧ e.kind = .readerLimitExceeded

lemma Tighter.refl (m : Fallible σ ReadError α) : Tighter m m := fun _ => .inl rfl

lemma Tighter.bind {m m' : Fallible σ ReadError α} {f f' : α → Fallible σ ReadError β}
    (h : Tighter m m') (hf : ∀ a, Tighter (f a) (f' a)) : Tighter (m >>= f) (m' >>= f') := by
  intro s
  rcases h s with heq | ⟨e, s', hm, hkind⟩
  · rcases hrun : m' s with _ | ⟨result, s'⟩
    · exact .inl ((bind_of_none (heq.trans hrun)).trans (bind_of_none hrun).symm)
    · cases result with
      | ok a =>
        rw [bind_of_ok hrun, bind_of_ok (heq.trans hrun)]
        exact hf a s'
      | error e => exact .inl ((bind_of_error (heq.trans hrun)).trans (bind_of_error hrun).symm)
  · exact .inr ⟨e, s', bind_of_error hm, hkind⟩

lemma Tighter.ite {c : Prop} [Decidable c] {m₁ m₁' m₂ m₂' : Fallible σ ReadError α}
    (h₁ : Tighter m₁ m₁') (h₂ : Tighter m₂ m₂') :
    Tighter (if c then m₁ else m₂) (if c then m₁' else m₂') := by
  by_cases hc : c
  · rw [if_pos hc, if_pos hc]
    exact h₁
  · rw [if_neg hc, if_neg hc]
    exact h₂

lemma Tighter.refuse {n n' depth : ℕ} (hle : n ≤ n') {e : ReadError}
    (hkind : e.kind = .readerLimitExceeded) {m m' : Fallible σ ReadError α} (h : Tighter m m') :
    Tighter (if depth > n then fail e else m) (if depth > n' then fail e else m') := by
  by_cases hdepth : depth > n
  · rw [if_pos hdepth]
    exact fun s => .inr ⟨e, s, rfl, hkind⟩
  · rw [if_neg hdepth, if_neg (by omega)]
    exact h

variable {limits limits' : Limits} (unicode : Unicode)

/-- The limits differ in the nesting only, and the first is smaller. -/
structure Limits.Below (limits limits' : Limits) : Prop where
  maxToken : limits.maxToken = limits'.maxToken
  maxNesting : limits.maxNesting ≤ limits'.maxNesting

variable (hl : limits.Below limits')
include hl

/-! ### The lexer -/

lemma blockCommentLoop_tighter (start fuel depth : ℕ) :
    Tighter (blockCommentLoop limits start fuel depth)
      (blockCommentLoop limits' start fuel depth) := by
  induction fuel generalizing depth with
  | zero => exact .refl _
  | succ fuel ih =>
    unfold blockCommentLoop
    refine .bind (.refl _) fun rest => .bind (.refl _) fun here => ?_
    split
    · exact .refuse hl.maxNesting rfl (.bind (.refl _) fun _ => ih _)
    · exact .bind (.refl _) fun _ => .ite (.refl _) (ih _)
    · exact .bind (.refl _) fun _ => ih _
    · exact .refl _

lemma spaceLoop_tighter (fuel : ℕ) :
    Tighter (spaceLoop limits unicode fuel) (spaceLoop limits' unicode fuel) := by
  induction fuel with
  | zero => exact .refl _
  | succ fuel ih =>
    unfold spaceLoop
    refine .bind (.refl _) fun _ => .bind (.refl _) fun rest => ?_
    refine .ite (.bind (.refl _) fun _ => ih) (.ite ?_ (.ite ?_ (.ite ?_ (.refl _))))
    · refine .bind ?_ fun _ => ih
      exact .bind (.refl _) fun start => .bind (.refl _) fun rest => .bind (.refl _) fun _ =>
        blockCommentLoop_tighter hl _ _ _
    · exact .bind (.refl _) fun _ => ih
    · exact .bind (.refl _) fun _ => ih

lemma checkToken_eq (start : ℕ) : checkToken limits start = checkToken limits' start := by
  unfold checkToken
  rw [hl.maxToken]

lemma tokenKind_eq (start : ℕ) (rest : List Char) :
    tokenKind limits unicode start rest = tokenKind limits' unicode start rest := by
  unfold tokenKind stringToken escapedIdentifier characterToken atomToken
  simp only [checkToken_eq hl]

lemma nextToken_tighter : Tighter (nextToken limits unicode) (nextToken limits' unicode) := by
  unfold nextToken space
  refine .bind (.bind (.refl _) fun rest => spaceLoop_tighter unicode hl _) fun _ => ?_
  simp only [tokenKind_eq unicode hl]
  exact .refl _

/-! ### The parser -/

lemma next_tighter :
    Tighter (next limits unicode : ParseM N (Option Token)) (next limits' unicode) := by
  intro parser
  rcases nextToken_tighter unicode hl parser.lexer with heq | ⟨e, lexer, hnext, hkind⟩
  · exact .inl (congrArg (Option.map _) heq)
  · exact .inr ⟨e, { parser with lexer }, by rw [next, hnext]; rfl, hkind⟩

lemma required_tighter (message : String) (span : Span) :
    Tighter (required limits unicode message span : ParseM N Token)
      (required limits' unicode message span) :=
  .bind (next_tighter unicode hl) fun _ => .refl _

lemma descend_tighter (span : Span) :
    Tighter (descend limits span : ParseM N Unit) (descend limits' span) :=
  .bind (.refl _) fun _ => .bind (.refl _) fun _ => .refuse hl.maxNesting rfl (.refl _)

omit hl in
lemma parseIgnoredDatum_tighter {parse parse' : Token → ParseM N ℕ} {token : Token}
    (h : Tighter (parse token) (parse' token)) :
    Tighter (parseIgnoredDatum parse token) (parseIgnoredDatum parse' token) := by
  intro parser
  rcases h parser with heq | ⟨e, parser', hrun, hkind⟩
  · exact .inl (congrArg (Option.map _) heq)
  · exact .inr ⟨e, { parser' with labels := parser.labels },
      by rw [parseIgnoredDatum, hrun]; rfl, hkind⟩

section
variable {parse parse' : Token → ParseM N ℕ} (h : ∀ token, Tighter (parse token) (parse' token))
  (numbers : Numbers N)
include h

lemma requiredSkippingComments_tighter (expected : String) (after : Span) (fuel : ℕ) :
    Tighter (requiredSkippingComments limits unicode parse expected after fuel)
      (requiredSkippingComments limits' unicode parse' expected after fuel) := by
  induction fuel with
  | zero => exact .refl _
  | succ fuel ih =>
    refine .bind (required_tighter unicode hl _ _) fun token => .ite ?_ (.refl _)
    exact .bind (required_tighter unicode hl _ _) fun ignored =>
      .bind (parseIgnoredDatum_tighter (h ignored)) fun _ => ih

lemma abbreviation_tighter (name : String) (span : Span) :
    Tighter (abbreviation limits unicode parse name span)
      (abbreviation limits' unicode parse' name span) :=
  .bind (descend_tighter hl span) fun _ => .bind (required_tighter unicode hl _ _) fun token =>
    .bind (h token) fun _ => .refl _

lemma dottedTail_tighter (opening dot : Span) (fuel : ℕ) (values : List ℕ) :
    Tighter (dottedTail limits unicode parse opening dot fuel values)
      (dottedTail limits' unicode parse' opening dot fuel values) :=
  .bind (requiredSkippingComments_tighter unicode hl h _ _ _) fun token =>
    .bind (h token) fun _ =>
      .bind (requiredSkippingComments_tighter unicode hl h _ _ _) fun _ => .refl _

lemma listLoop_tighter (opening : Span) (fuel : ℕ) (values : List ℕ) :
    Tighter (listLoop limits unicode parse opening fuel values)
      (listLoop limits' unicode parse' opening fuel values) := by
  induction fuel generalizing values with
  | zero => exact .refl _
  | succ fuel ih =>
    refine .bind (requiredSkippingComments_tighter unicode hl h _ _ _) fun token => ?_
    refine .ite (.refl _) (.ite (.ite (.refl _) ?_) ?_)
    · exact dottedTail_tighter unicode hl h _ _ _ _
    · exact .bind (h token) fun _ => ih _

lemma vectorLoop_tighter (opening : Span) (fuel : ℕ) (values : List ℕ) :
    Tighter (vectorLoop limits unicode parse opening fuel values)
      (vectorLoop limits' unicode parse' opening fuel values) := by
  induction fuel generalizing values with
  | zero => exact .refl _
  | succ fuel ih =>
    refine .bind (requiredSkippingComments_tighter unicode hl h _ _ _) fun token => ?_
    exact .ite (.refl _) (.bind (h token) fun _ => ih _)

lemma bytevectorLoop_tighter (opening : Span) (fuel : ℕ) (values : List UInt8) :
    Tighter (bytevectorLoop limits unicode numbers parse opening fuel values)
      (bytevectorLoop limits' unicode numbers parse' opening fuel values) := by
  induction fuel generalizing values with
  | zero => exact .refl _
  | succ fuel ih =>
    refine .bind (requiredSkippingComments_tighter unicode hl h _ _ _) fun token => ?_
    refine .ite (.refl _) (.bind (h token) fun reference => .bind (.refl _) fun node => ?_)
    split
    · exact ih _
    · exact .refl _

omit h in
lemma enclosed_tighter (opening : Span) {loop loop' : ParseM N (Except ReadError ℕ)}
    (hloop : Tighter loop loop') :
    Tighter (enclosed limits opening loop) (enclosed limits' opening loop') :=
  .bind (descend_tighter hl opening) fun _ => .bind hloop fun _ => .refl _

lemma label_tighter (name : ℕ) (span : Span) :
    Tighter (label limits unicode parse name span) (label limits' unicode parse' name span) :=
  .bind (.refl _) fun _ => .ite (.refl _) <| .bind (.refl _) fun _ => .bind (.refl _) fun _ =>
    .bind (required_tighter unicode hl _ _) fun token => .bind (h token) fun _ => .refl _

lemma commented_tighter (span : Span) :
    Tighter (commented limits unicode parse span) (commented limits' unicode parse' span) :=
  .bind (required_tighter unicode hl _ _) fun ignored =>
    .bind (parseIgnoredDatum_tighter (h ignored)) fun _ =>
      .bind (required_tighter unicode hl _ _) fun token => h token

lemma form_tighter (fuel : ℕ) (token : Token) :
    Tighter (form limits unicode numbers parse fuel token)
      (form limits' unicode numbers parse' fuel token) := by
  unfold form
  split
  · exact .refl _
  · exact .refl _
  · exact .refl _
  · exact abbreviation_tighter unicode hl h _ _
  · exact abbreviation_tighter unicode hl h _ _
  · exact abbreviation_tighter unicode hl h _ _
  · exact abbreviation_tighter unicode hl h _ _
  · exact enclosed_tighter hl _ (listLoop_tighter unicode hl h _ _ _)
  · exact enclosed_tighter hl _ (vectorLoop_tighter unicode hl h _ _ _)
  · exact enclosed_tighter hl _ (bytevectorLoop_tighter unicode hl h numbers _ _ _)
  · exact .bind (.refl _) fun _ => commented_tighter unicode hl h _
  · exact .bind (.refl _) fun _ => label_tighter unicode hl h _ _
  · exact .refl _
  · exact .refl _

end

lemma parseDatumFrom_tighter (numbers : Numbers N) (fuel : ℕ) : ∀ level token,
    Tighter (parseDatumFrom limits unicode numbers fuel level token)
      (parseDatumFrom limits' unicode numbers fuel level token) := by
  induction fuel with
  | zero => exact fun _ _ => .refl _
  | succ fuel ih =>
    exact fun level token => .bind (.refl _) fun _ =>
      form_tighter unicode hl (ih (level + 1)) numbers _ _

/-- **A smaller limit.** The reader does under it what it does under a larger one, or it fails
because the limit is exceeded. -/
theorem readNext_tighter (numbers : Numbers N) :
    Tighter (readNext limits unicode numbers) (readNext limits' unicode numbers) := by
  refine .bind (next_tighter unicode hl) fun first => ?_
  cases first with
  | none => exact .refl _
  | some token =>
    refine .bind (.refl _) fun _ => ?_
    exact .bind (parseDatumFrom_tighter unicode hl numbers _ _ _) fun _ => .refl _

end

end Neetan.Reader
