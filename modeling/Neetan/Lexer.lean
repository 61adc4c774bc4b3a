import Neetan.Fallible
import Mathlib.Algebra.Ring.Nat

/-!
The tokens of a source text.

A lexer holds what is left of its text and the offset of that in bytes. It skips white space
and comments, and reads one token at a time; after an error it stands where it stopped. The
offsets of a text fit 32 bits, so that every span from a token's start to its end exists. The
parts of the standard library that are tables of characters are a parameter.
-/

namespace Neetan.Reader

open Neetan.Fallible

inductive ErrorKind
  | unexpectedEof | invalidToken | invalidDatum | invalidDatumLabel | invalidNumber
  | readerLimitExceeded
  deriving DecidableEq

structure Span where
  start : ℕ
  stop : ℕ
  deriving DecidableEq

structure ReadError where
  kind : ErrorKind
  message : String
  span : Span
  deriving DecidableEq

inductive TokenKind
  | atom (text : String)
  | identifier (text : String)
  | string (text : String)
  | quote | quasiquote | unquote | unquoteSplicing
  | openList | close | vectorOpen | bytevectorOpen | datumComment
  | labelDef (label : ℕ)
  | labelRef (label : ℕ)
  deriving DecidableEq

structure Token where
  kind : TokenKind
  span : Span
  deriving DecidableEq

/-- The limits that the reader keeps. -/
structure Limits where
  maxToken : ℕ
  maxNesting : ℕ

/-- The character tables of the standard library. -/
structure Unicode where
  isWhitespace : Char → Bool
  isAlphabetic : Char → Bool
  isAlphanumeric : Char → Bool
  isControl : Char → Bool
  toLowercase : Char → List Char

structure Lexer where
  rest : List Char
  offset : ℕ
  foldCase : Bool

abbrev LexM := Fallible Lexer ReadError

/-- `Lexer::new`. -/
def Lexer.new (input : String) : Lexer := ⟨input.toList, 0, false⟩

/-! ### Characters -/

def byteLength (text : List Char) : ℕ := (text.map Char.utf8Size).sum

/-- Takes characters off the text. -/
def Lexer.advance (lexer : Lexer) (count : ℕ) : Lexer :=
  { lexer with
    rest := lexer.rest.drop count
    offset := lexer.offset + byteLength (lexer.rest.take count) }

def bump : LexM Unit := modify fun lexer => lexer.advance 1

def bumpWhile (p : Char → Bool) : LexM Unit :=
  modify fun lexer => lexer.advance (lexer.rest.takeWhile p).length

def failAt {α : Type} (kind : ErrorKind) (message : String) (start stop : ℕ) : LexM α :=
  fail ⟨kind, message, ⟨start, stop⟩⟩

def offset : LexM ℕ := reads Lexer.offset

def remaining : LexM (List Char) := reads Lexer.rest

def hexDigit (c : Char) : Option ℕ :=
  if '0' ≤ c ∧ c ≤ '9' then some (c.toNat - 48)
  else if 'a' ≤ c ∧ c ≤ 'f' then some (c.toNat - 87)
  else if 'A' ≤ c ∧ c ≤ 'F' then some (c.toNat - 55)
  else none

def isHexDigit (c : Char) : Bool := (hexDigit c).isSome

/-- `u32::from_str_radix`, for a radix up to 16: a plus sign may stand in front of the digits. -/
def parseU32 (radix : ℕ) (text : List Char) : Option ℕ :=
  let digits := match text with
    | '+' :: digits => digits
    | digits => digits
  if digits = [] then none
  else do
    let value ← digits.foldlM (fun value c =>
      match hexDigit c with
      | some digit => if digit < radix then some (value * radix + digit) else none
      | none => none) 0
    if value < 2 ^ 32 then some value else none

/-- The scalar value that the hexadecimal digits name. -/
def scalar (text : List Char) : Except String Char :=
  match parseU32 16 text with
  | none => .error "invalid hex scalar value"
  | some value =>
    if value.isValidChar then .ok (Char.ofNat value)
    else .error "hex escape is not a Unicode scalar value"

section
variable (unicode : Unicode)

def isDelimiter (c : Char) : Bool :=
  unicode.isWhitespace c ||
    ['(', ')', '\x22', ';', '|', '[', ']', '\x7b', '\x7d', '\x27', '\x60', ','].contains c

/-- `fold_case`, character by character. -/
def foldCase (text : List Char) : List Char :=
  text.flatMap fun c =>
    if c = 'ß' ∨ c = 'ẞ' then ['s', 's']
    else if c = 'ς' then ['σ']
    else if c = 'ſ' then ['s']
    else unicode.toLowercase c

def foldIf (fold : Bool) (text : List Char) : List Char :=
  if fold then foldCase unicode text else text

/-- The text is at its end, or a delimiter is next. -/
def delimited (rest : List Char) : Bool :=
  match rest with
  | [] => true
  | c :: _ => isDelimiter unicode c

end

/-! ### Space -/

variable (limits : Limits) (unicode : Unicode)

/-- `block_comment`, behind its opening: the depth of comments is limited as well. -/
def blockCommentLoop (start : ℕ) : ℕ → ℕ → LexM Unit
  | 0, _ => diverge
  | fuel + 1, depth => do
    let rest ← remaining
    let here ← offset
    match rest with
    | '#' :: '|' :: _ =>
      if depth + 1 > limits.maxNesting then
        failAt .readerLimitExceeded "nested comment exceeds configured nesting limit" start
          (here + 2)
      else do
        modify fun lexer => lexer.advance 2
        blockCommentLoop start fuel (depth + 1)
    | '|' :: '#' :: _ => do
      modify fun lexer => lexer.advance 2
      if depth - 1 = 0 then pure () else blockCommentLoop start fuel (depth - 1)
    | _ :: _ => do
      bump
      blockCommentLoop start fuel depth
    | [] => failAt .unexpectedEof "unterminated block comment" start here

def blockComment : LexM Unit := do
  let start ← offset
  let rest ← remaining
  modify fun lexer => lexer.advance 2
  blockCommentLoop limits start rest.length 1

def foldCaseMark : List Char := ['#', '!', 'f', 'o', 'l', 'd', '-', 'c', 'a', 's', 'e']

def noFoldCaseMark : List Char :=
  ['#', '!', 'n', 'o', '-', 'f', 'o', 'l', 'd', '-', 'c', 'a', 's', 'e']

def spaceLoop : ℕ → LexM Unit
  | 0 => diverge
  | fuel + 1 => do
    bumpWhile unicode.isWhitespace
    let rest ← remaining
    if [';'].isPrefixOf rest then do
      bumpWhile fun c => c != '\n' && c != '\r'
      spaceLoop fuel
    else if ['#', '|'].isPrefixOf rest then do
      blockComment limits
      spaceLoop fuel
    else if foldCaseMark.isPrefixOf rest && delimited unicode (rest.drop 11) then do
      modify fun lexer => { lexer.advance 11 with foldCase := true }
      spaceLoop fuel
    else if noFoldCaseMark.isPrefixOf rest && delimited unicode (rest.drop 14) then do
      modify fun lexer => { lexer.advance 14 with foldCase := false }
      spaceLoop fuel
    else pure ()

def space : LexM Unit := do
  let rest ← remaining
  spaceLoop limits unicode (rest.length + 1)

/-! ### Tokens -/

def checkToken (start : ℕ) : LexM Unit := do
  let here ← offset
  if here - start > limits.maxToken then
    failAt .readerLimitExceeded "token exceeds configured limit" start here
  else pure ()

/-- The character behind the backslash always belongs to the literal, and a name goes on. -/
def characterName : LexM Unit := do
  let rest ← remaining
  match rest with
  | first :: _ => do
    bump
    if unicode.isAlphabetic first then bumpWhile fun c => !isDelimiter unicode c else pure ()
  | [] => pure ()

def characterToken (start : ℕ) : LexM TokenKind := do
  let whole ← remaining
  bump
  bump
  characterName unicode
  checkToken limits start
  let after ← remaining
  let fold ← reads Lexer.foldCase
  return .atom (String.ofList (foldIf unicode fold (whole.take (whole.length - after.length))))

/-- A text between a number sign and the closing character. -/
def labelText (text : List Char) (closing : Char) : Option (List Char) :=
  match text with
  | '#' :: label => if label.getLast? = some closing then some label.dropLast else none
  | _ => none

def labelToken (start : ℕ) (label : List Char) (kind : ℕ → TokenKind) : LexM TokenKind := do
  let here ← offset
  match parseU32 10 label with
  | some value => pure (kind value)
  | none => failAt .invalidDatumLabel "invalid datum label" start here

def atomToken (start : ℕ) : LexM TokenKind := do
  let rest ← remaining
  let text := rest.takeWhile fun c => !isDelimiter unicode c
  modify fun lexer => lexer.advance text.length
  if text = [] then do
    bump
    let here ← offset
    failAt .invalidToken "reserved delimiter" start here
  else do
    checkToken limits start
    let fold ← reads Lexer.foldCase
    let value := foldIf unicode fold text
    match labelText value '=' with
    | some label => labelToken start label .labelDef
    | none =>
      match labelText value '#' with
      | some label => labelToken start label .labelRef
      | none => return .atom (String.ofList value)

def hexEscape : LexM Char := do
  let start ← offset
  let rest ← remaining
  let digits := rest.takeWhile isHexDigit
  modify fun lexer => lexer.advance digits.length
  let here ← offset
  let rest ← remaining
  if [';'].isPrefixOf rest then
    match scalar digits with
    | .error message => failAt .invalidToken message start here
    | .ok value => do
      bump
      return value
  else failAt .invalidToken "hex escape must end in ';'" start here

def escape (start : ℕ) : LexM Char := do
  let rest ← remaining
  match rest with
  | [] => do
    let here ← offset
    failAt .unexpectedEof "unterminated escape" start here
  | character :: _ => do
    bump
    match character with
    | 'a' => return '\x07'
    | 'b' => return '\x08'
    | 't' => return '\t'
    | 'n' => return '\n'
    | 'r' => return '\r'
    | '\x22' => return '\x22'
    | '\x5c' => return '\x5c'
    | '|' => return '|'
    | 'x' => hexEscape
    | _ => do
      let here ← offset
      failAt .invalidToken "unknown escape" start here

/-- The characters of a continuation line, if the text has one here. -/
def continuationLength (rest : List Char) : Option ℕ :=
  let blank (c : Char) : Bool := c = ' ' || c = '\t'
  let before := (rest.takeWhile blank).length
  let newline : Option ℕ := match rest.drop before with
    | '\n' :: _ => some 1
    | '\r' :: '\n' :: _ => some 2
    | '\r' :: _ => some 1
    | _ => none
  newline.map fun count =>
    before + count + ((rest.drop (before + count)).takeWhile blank).length

/-- The loop of `string` and `escaped_identifier`, up to the closing character. -/
def quotedLoop (start : ℕ) (closing : Char) (continues : Bool) (unterminated : String) :
    ℕ → List Char → LexM (List Char)
  | 0, _ => diverge
  | fuel + 1, output => do
    let rest ← remaining
    match rest with
    | [] => do
      let here ← offset
      failAt .unexpectedEof unterminated start here
    | character :: after => do
      bump
      if character = closing then return output
      else if character = '\x5c' then
        match if continues then continuationLength after else none with
        | some count => do
          modify fun lexer => lexer.advance count
          quotedLoop start closing continues unterminated fuel output
        | none => do
          let c ← escape start
          quotedLoop start closing continues unterminated fuel (output ++ [c])
      else quotedLoop start closing continues unterminated fuel (output ++ [character])

def escapedIdentifier (start : ℕ) : LexM String := do
  bump
  let rest ← remaining
  let output ← quotedLoop start '|' false "unterminated escaped identifier" (rest.length + 1) []
  checkToken limits start
  let fold ← reads Lexer.foldCase
  return String.ofList (foldIf unicode fold output)

def stringToken (start : ℕ) : LexM String := do
  bump
  let rest ← remaining
  let output ← quotedLoop start '\x22' true "unterminated string" (rest.length + 1) []
  checkToken limits start
  return String.ofList output

/-- A token that is one mark. -/
def mark (count : ℕ) (kind : TokenKind) : LexM TokenKind := do
  modify fun lexer => lexer.advance count
  return kind

def tokenKind (start : ℕ) (rest : List Char) : LexM TokenKind :=
  match rest with
  | '#' :: ';' :: _ => mark 2 .datumComment
  | '#' :: '(' :: _ => mark 2 .vectorOpen
  | '#' :: 'u' :: '8' :: '(' :: _ | '#' :: 'U' :: '8' :: '(' :: _ => mark 4 .bytevectorOpen
  | '\x27' :: _ => mark 1 .quote
  | '\x60' :: _ => mark 1 .quasiquote
  | ',' :: '@' :: _ => mark 2 .unquoteSplicing
  | ',' :: _ => mark 1 .unquote
  | '(' :: _ => mark 1 .openList
  | ')' :: _ => mark 1 .close
  | '\x22' :: _ => do return .string (← stringToken limits start)
  | '|' :: _ => do return .identifier (← escapedIdentifier limits unicode start)
  | '#' :: '\x5c' :: _ => characterToken limits unicode start
  | _ => atomToken limits unicode start

/-- `Lexer::next`. -/
def nextToken : LexM (Option Token) := do
  space limits unicode
  let start ← offset
  let rest ← remaining
  if rest = [] then return none
  else do
    let kind ← tokenKind limits unicode start rest
    let stop ← offset
    return some ⟨kind, ⟨start, stop⟩⟩

end Neetan.Reader
