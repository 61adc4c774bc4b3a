import Neetan.NumberText
import Neetan.QuoteForms

/-!
What the name of a hoisted literal says.

A key begins with the tag of its kind, and each of its fields has a size or a stop. So a key
says its form whatever follows it, up to the spans and to the text of the numbers, and one
name of a hidden global stands for one literal in all units.
-/

namespace Neetan.Expand

open Neetan.PrefixCode
open Neetan.NumberText (Number numberText Unstopped numberText_unstopped)

variable {N : Type}

mutual

/-- A form with the `Debug` text of each number in the place of the number. -/
def shown (debug : N → String) : Form N → Form String
  | .nil => .nil
  | .bool value => .bool value
  | .char value => .char value
  | .string value => .string value
  | .number value => .number (debug value)
  | .symbol name => .symbol name
  | .list items tail => .list (shownItems debug items) (shownTail debug tail)
  | .vector items => .vector (shownItems debug items)
  | .bytevector bytes => .bytevector bytes

def shownItems (debug : N → String) : List (Form N) → List (Form String)
  | [] => []
  | item :: items => shown debug item :: shownItems debug items

def shownTail (debug : N → String) : Option (Form N) → Option (Form String)
  | none => none
  | some tail => some (shown debug tail)

end

variable {debug : N → String}

lemma shownItems_eq (items : List (Form N)) :
    shownItems debug items = items.map (shown debug) := by
  induction items with
  | nil => rfl
  | cons item items ih => rw [shownItems, ih, List.map_cons]

/-! ### The characters of a key -/

def key (debug : N → String) (form : Form N) : List Char := (literalKey debug form).toList

def tailKey (debug : N → String) (tail : Option (Form N)) : List Char :=
  (literalKeyTail debug tail).toList

/-- The letter that a key begins with. -/
def tag : Form N → Char
  | .nil => 'e'
  | .bool value => if value then 't' else 'f'
  | .char _ => 'c'
  | .number _ => 'n'
  | .string _ => 's'
  | .symbol _ => 'y'
  | .bytevector _ => 'u'
  | .vector _ => 'v'
  | .list _ _ => 'l'

lemma literalKeys_toList (items : List (Form N)) :
    (literalKeys debug items).toList = items.flatMap (key debug) := by
  induction items with
  | nil => rfl
  | cons item items ih =>
    rw [literalKeys, String.toList_append, ih, List.flatMap_cons]
    rfl

section Fields

attribute [local simp] key tailKey literalKey literalKeyTail Nat.repr

variable (s : List Char)

lemma key_nil : key debug (.nil : Form N) ++ s = 'e' :: s := by
  simp

lemma key_bool (value : Bool) :
    key debug (.bool value : Form N) ++ s = (if value then 't' else 'f') :: s := by
  cases value <;> simp

lemma key_char (c : Char) :
    key debug (.char c : Form N) ++ s = 'c' :: (Nat.toDigits 16 c.toNat ++ ';' :: s) := by
  simp

lemma key_number (value : N) :
    key debug (.number value) ++ s = 'n' :: ((debug value).toList ++ ';' :: s) := by
  simp

lemma key_string (text : String) :
    key debug (.string text : Form N) ++ s =
      's' :: (Nat.toDigits 10 text.utf8ByteSize ++ ':' :: (text.toList ++ s)) := by
  simp

lemma key_symbol (name : String) :
    key debug (.symbol name : Form N) ++ s =
      'y' :: (Nat.toDigits 10 name.utf8ByteSize ++ ':' :: (name.toList ++ s)) := by
  simp

lemma key_bytevector (bytes : List UInt8) :
    key debug (.bytevector bytes : Form N) ++ s =
      'u' :: (Nat.toDigits 10 bytes.length ++ ':' ::
        (bytes.flatMap (fun byte => (hexByte byte).toList) ++ s)) := by
  simp [List.flatMap_map]

lemma key_vector (items : List (Form N)) :
    key debug (.vector items) ++ s =
      'v' :: (Nat.toDigits 10 items.length ++ '(' :: (items.flatMap (key debug) ++ ')' :: s)) := by
  simp [literalKeys_toList]

lemma key_list (items : List (Form N)) (tail : Option (Form N)) :
    key debug (.list items tail) ++ s =
      'l' :: (Nat.toDigits 10 items.length ++ '(' ::
        (items.flatMap (key debug) ++ (tailKey debug tail ++ ')' :: s))) := by
  simp [literalKeys_toList]

lemma tailKey_some (rest : Form N) :
    tailKey debug (some rest) ++ s = '.' :: (key debug rest ++ s) := by
  simp

lemma key_tag (form : Form N) : ∃ body, key debug form ++ s = tag form :: body := by
  cases form with
  | nil => exact ⟨_, key_nil s⟩
  | bool value => exact ⟨_, key_bool s value⟩
  | char c => exact ⟨_, key_char s c⟩
  | number value => exact ⟨_, key_number s value⟩
  | string text => exact ⟨_, key_string s text⟩
  | symbol name => exact ⟨_, key_symbol s name⟩
  | bytevector bytes => exact ⟨_, key_bytevector s bytes⟩
  | vector items => exact ⟨_, key_vector s items⟩
  | list items tail => exact ⟨_, key_list s items tail⟩

end Fields

/-! ### A key says its form -/

/-- The kind that a tag stands for. -/
def kindOf (c : Char) : ℕ :=
  if c = 'f' then "etcsnylvu".toList.idxOf 't' else "etcsnylvu".toList.idxOf c

lemma kindOf_tag (form : Form N) : kindOf (tag form) = form.ctorIdx := by
  cases form with
  | bool value => cases value <;> rfl
  | _ => rfl

lemma kind_eq {f g : Form N} {s t : List Char} (same : key debug f ++ s = key debug g ++ t) :
    f.ctorIdx = g.ctorIdx := by
  obtain ⟨body, hf⟩ := @key_tag N debug s f
  obtain ⟨body', hg⟩ := @key_tag N debug t g
  rw [hf, hg] at same
  rw [← kindOf_tag, ← kindOf_tag, (List.cons.inj same).1]

lemma letter_inj : ∀ value other : Bool,
    (if value then 't' else 'f') = (if other then 't' else 'f') → value = other := by
  decide

lemma hexByte_toList (byte : UInt8) :
    (hexByte byte).toList =
      [Nat.digitChar (byte.toNat / 16), Nat.digitChar (byte.toNat % 16)] := by
  have less := byte.toNat_lt
  rw [hexByte, String.toList_ofList]
  by_cases small : byte.toNat < 16
  · rw [if_pos small, Nat.toDigits_of_lt_base small, Nat.div_eq_of_lt small,
      Nat.mod_eq_of_lt small]
    rfl
  · have large : 16 ≤ byte.toNat := Nat.le_of_not_lt small
    have front : byte.toNat / 16 < 16 := by omega
    rw [if_neg small, Nat.toDigits_of_base_le (by decide) large, Nat.toDigits_of_lt_base front]
    rfl

lemma hexByte_determines (byte : UInt8) :
    Determines (fun byte => (hexByte byte).toList) id byte := by
  intro other s t same
  have less := byte.toNat_lt
  have less' := other.toNat_lt
  simp only [hexByte_toList, List.cons_append, List.nil_append] at same
  obtain ⟨high, behind⟩ := List.cons.inj same
  obtain ⟨low, rest⟩ := List.cons.inj behind
  have high_eq := digitChar_inj _ (by omega) _ (by omega) high
  have low_eq := digitChar_inj _ (by omega) _ (by omega) low
  have number_eq : byte.toNat = other.toNat := by omega
  exact ⟨UInt8.toNat_inj.1 number_eq, rest⟩

lemma size_inj {m n : ℕ} {stop : Char} {s t : List Char}
    (free : ∀ d < 16, Nat.digitChar d ≠ stop)
    (same : Nat.toDigits 10 m ++ stop :: s = Nat.toDigits 10 n ++ stop :: t) : m = n ∧ s = t :=
  numeral_inj (by decide) (by decide) free same

lemma sizedText_inj {text other : String} {s t : List Char}
    (same : Nat.toDigits 10 text.utf8ByteSize ++ ':' :: (text.toList ++ s) =
      Nat.toDigits 10 other.utf8ByteSize ++ ':' :: (other.toList ++ t)) :
    text = other ∧ s = t := by
  obtain ⟨size, behind⟩ := size_inj (by decide) same
  exact text_inj size behind

lemma sizedItems_inj {items others : List (Form N)} {s t : List Char}
    (each : ∀ item ∈ items, Determines (key debug) (shown debug) item)
    (same : Nat.toDigits 10 items.length ++ '(' :: (items.flatMap (key debug) ++ s) =
      Nat.toDigits 10 others.length ++ '(' :: (others.flatMap (key debug) ++ t)) :
    shownItems debug items = shownItems debug others ∧ s = t := by
  obtain ⟨length, behind⟩ := size_inj (by decide) same
  rw [shownItems_eq, shownItems_eq]
  exact Determines.flatMap each length behind

lemma tailKey_inj {tail other : Option (Form N)} {s t : List Char}
    (rest : ∀ form ∈ tail, Determines (key debug) (shown debug) form)
    (same : tailKey debug tail ++ ')' :: s = tailKey debug other ++ ')' :: t) :
    shownTail debug tail = shownTail debug other ∧ s = t := by
  cases tail with
  | none =>
    cases other with
    | none => exact ⟨rfl, (List.cons.inj same).2⟩
    | some form =>
      rw [tailKey_some] at same
      exact absurd (List.cons.inj same).1 (by decide)
  | some form =>
    cases other with
    | none =>
      rw [tailKey_some] at same
      exact absurd (List.cons.inj same).1 (by decide)
    | some form' =>
      rw [tailKey_some, tailKey_some] at same
      obtain ⟨shown_eq, behind⟩ := rest form rfl form' _ _ (List.cons.inj same).2
      exact ⟨congrArg some shown_eq, (List.cons.inj behind).2⟩

/-- **A key says its form, whatever follows it**, if no text of a number has a stop in it. -/
theorem key_determines (free : ∀ value, Unstopped (debug value)) (form : Form N) :
    Determines (key debug) (shown debug) form := by
  induction form using FormOf.parts_induction with
  | nil =>
    intro other s t same
    have kind := kind_eq same
    cases other with
    | nil =>
      rw [key_nil, key_nil] at same
      exact ⟨rfl, (List.cons.inj same).2⟩
    | _ => cases kind
  | bool value =>
    intro other s t same
    have kind := kind_eq same
    cases other with
    | bool value' =>
      rw [key_bool, key_bool] at same
      obtain ⟨letter, behind⟩ := List.cons.inj same
      exact ⟨congrArg FormOf.bool (letter_inj value value' letter), behind⟩
    | _ => cases kind
  | char c =>
    intro other s t same
    have kind := kind_eq same
    cases other with
    | char c' =>
      rw [key_char, key_char] at same
      obtain ⟨code, behind⟩ :=
        numeral_inj (by decide) (by decide) (by decide) (List.cons.inj same).2
      exact ⟨congrArg FormOf.char (Char.toNat_inj.1 code), behind⟩
    | _ => cases kind
  | string text =>
    intro other s t same
    have kind := kind_eq same
    cases other with
    | string text' =>
      rw [key_string, key_string] at same
      obtain ⟨text_eq, behind⟩ := sizedText_inj (List.cons.inj same).2
      exact ⟨congrArg FormOf.string text_eq, behind⟩
    | _ => cases kind
  | number value =>
    intro other s t same
    have kind := kind_eq same
    cases other with
    | number value' =>
      rw [key_number, key_number] at same
      obtain ⟨text_eq, behind⟩ := stop_inj (free value) (free value') (List.cons.inj same).2
      exact ⟨congrArg FormOf.number (String.toList_inj.1 text_eq), behind⟩
    | _ => cases kind
  | symbol name =>
    intro other s t same
    have kind := kind_eq same
    cases other with
    | symbol name' =>
      rw [key_symbol, key_symbol] at same
      obtain ⟨name_eq, behind⟩ := sizedText_inj (List.cons.inj same).2
      exact ⟨congrArg FormOf.symbol name_eq, behind⟩
    | _ => cases kind
  | list items tail items_ih tail_ih =>
    intro other s t same
    have kind := kind_eq same
    cases other with
    | list items' tail' =>
      rw [key_list, key_list] at same
      obtain ⟨items_eq, behind⟩ := sizedItems_inj items_ih (List.cons.inj same).2
      obtain ⟨tail_eq, rest⟩ := tailKey_inj tail_ih behind
      exact ⟨congrArg₂ FormOf.list items_eq tail_eq, rest⟩
    | _ => cases kind
  | vector items items_ih =>
    intro other s t same
    have kind := kind_eq same
    cases other with
    | vector items' =>
      rw [key_vector, key_vector] at same
      obtain ⟨items_eq, behind⟩ := sizedItems_inj items_ih (List.cons.inj same).2
      exact ⟨congrArg FormOf.vector items_eq, (List.cons.inj behind).2⟩
    | _ => cases kind
  | bytevector bytes =>
    intro other s t same
    have kind := kind_eq same
    cases other with
    | bytevector bytes' =>
      rw [key_bytevector, key_bytevector] at same
      obtain ⟨length, behind⟩ := size_inj (by decide) (List.cons.inj same).2
      obtain ⟨bytes_eq, rest⟩ :=
        Determines.flatMap (fun byte _ => hexByte_determines byte) length behind
      rw [List.map_id, List.map_id] at bytes_eq
      exact ⟨congrArg FormOf.bytevector bytes_eq, rest⟩
    | _ => cases kind

example : literalKey Nat.repr (.list [.string ");", .number 5] (some (.symbol "a"))) =
    "l2(s2:);n5;.y1:a)" := by
  decide

/-! ### The hidden globals of a unit -/

/-- What a unit has hoisted, after any quotations one behind the other. -/
inductive Hoists (debug : N → String) : Hoisted N → Prop
  | start : Hoists debug []
  | quote {hoisted hoisted' : Hoisted N} {form : Form N} {core : CoreExpr N} :
    Hoists debug hoisted → quote debug form hoisted = .ok (core, hoisted') →
      Hoists debug hoisted'

/-- A hidden global is the literal of a form that has the name of the global. -/
def Named (debug : N → String) (entry : String × CoreExpr N) : Prop :=
  ∃ form, quoted debug form = .variable entry.1 ∧ entry.2 = call "%literal" [literal form]

lemma quote_hoists {hoisted hoisted' : Hoisted N} {form : Form N} {core : CoreExpr N}
    (run : quote debug form hoisted = .ok (core, hoisted')) :
    hoisted' = hoisted ∨ ∃ name, quoted debug form = .variable name ∧
      hoisted' = hoisted ++ [(name, call "%literal" [literal form])] := by
  cases form with
  | nil | bool | char | number => exact .inl (congrArg Prod.snd (Except.ok.inj run)).symm
  | string | symbol | list | vector | bytevector =>
    obtain rfl := (congrArg Prod.snd (Except.ok.inj run)).symm
    dsimp only
    split
    · exact .inl rfl
    · exact .inr ⟨_, rfl, rfl⟩

lemma quote_named {hoisted hoisted' : Hoisted N} {form : Form N} {core : CoreExpr N}
    (run : quote debug form hoisted = .ok (core, hoisted'))
    (named : ∀ entry ∈ hoisted, Named debug entry) : ∀ entry ∈ hoisted', Named debug entry := by
  obtain rfl | ⟨name, is, rfl⟩ := quote_hoists run
  · exact named
  · intro entry mem
    obtain old | new := List.mem_append.1 mem
    · exact named entry old
    · obtain rfl := List.mem_singleton.1 new
      exact ⟨form, is, rfl⟩

lemma hoists_named {hoisted : Hoisted N} (run : Hoists debug hoisted) :
    ∀ entry ∈ hoisted, Named debug entry := by
  induction run with
  | start => exact fun entry mem => absurd mem List.not_mem_nil
  | quote _ step ih => exact quote_named step ih

lemma quoted_name {form : Form N} {name : String} (is : quoted debug form = .variable name) :
    name = "#quote#" ++ literalKey debug form := by
  cases form with
  | nil | bool | char | number => cases is
  | string | symbol | list | vector | bytevector => exact (CoreExpr.variable.inj is).symm

lemma quoted_determines (free : ∀ value, Unstopped (debug value)) {f g : Form N} {name : String}
    (hf : quoted debug f = .variable name) (hg : quoted debug g = .variable name) :
    shown debug f = shown debug g := by
  have names := (quoted_name hf).symm.trans (quoted_name hg)
  rw [← String.toList_inj, String.toList_append, String.toList_append] at names
  have keys : key debug f ++ [] = key debug g ++ [] :=
    congrArg (· ++ []) (List.append_cancel_left names)
  exact (key_determines free f g [] [] keys).1

/-- **A key says its datum, and a hidden global stands for one literal.** Whatever text
follows the keys of two forms, they differ unless the forms are one datum; and two units that
define a global of one name, or refer to it, do so for one datum. -/
theorem literalKey_determines (shortest : Float → List (Fin 10) × ℤ) :
    (∀ (f g : Form Number) (s t : String),
      literalKey (numberText shortest) f ++ s = literalKey (numberText shortest) g ++ t →
        shown (numberText shortest) f = shown (numberText shortest) g ∧ s = t) ∧
    (∀ (f g : Form Number) (name : String),
      quoted (numberText shortest) f = .variable name →
        quoted (numberText shortest) g = .variable name →
          shown (numberText shortest) f = shown (numberText shortest) g) ∧
    ∀ unit other : Hoisted Number, Hoists (numberText shortest) unit →
      Hoists (numberText shortest) other → ∀ name value value', (name, value) ∈ unit →
        (name, value') ∈ other → ∃ f g : Form Number,
          value = call "%literal" [literal f] ∧ value' = call "%literal" [literal g] ∧
            shown (numberText shortest) f = shown (numberText shortest) g := by
  have free := numberText_unstopped shortest
  refine ⟨fun f g s t same => ?_, fun f g name hf hg => quoted_determines free hf hg, ?_⟩
  · rw [← String.toList_inj, String.toList_append, String.toList_append] at same
    obtain ⟨form_eq, behind⟩ := key_determines free f g _ _ same
    exact ⟨form_eq, String.toList_inj.1 behind⟩
  · intro unit other run run' name value value' mem mem'
    obtain ⟨f, hf, rfl⟩ := hoists_named run _ mem
    obtain ⟨g, hg, rfl⟩ := hoists_named run' _ mem'
    exact ⟨f, g, rfl, rfl, quoted_determines free hf hg⟩

end Neetan.Expand
