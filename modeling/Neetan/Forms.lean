import Mathlib.Data.Int.Notation
import Mathlib.Data.List.Basic
import Mathlib.Logic.Function.Iterate
import Mathlib.Tactic.Common

/-!
Forms of the macro expander, the hygiene tags of their symbols, and the data they denote.

A form is a tree over its symbols, so that a tree of names and a tree that says where each
name comes from are of one type. The tags are prefixes of names: one layer of them can be
taken off, and a name without any is bare.
-/

namespace Neetan.Expand

/-- A form with spans left out; `N` is the type of numbers, `S` that of symbols. -/
inductive FormOf (N S : Type)
  | nil
  | bool (value : Bool)
  | char (value : Char)
  | string (value : String)
  | number (value : N)
  | symbol (name : S)
  | list (items : List (FormOf N S)) (tail : Option (FormOf N S))
  | vector (items : List (FormOf N S))
  | bytevector (bytes : List UInt8)

abbrev Form (N : Type) := FormOf N String

/-- A way from a form to one of its parts. -/
inductive Branch
  | item (index : ℕ)
  | tail
  deriving DecidableEq

variable {N S T : Type}

namespace FormOf

/-- A property of forms that passes from the parts of a list or a vector to the whole. -/
@[elab_as_elim]
theorem parts_induction {motive : FormOf N S → Prop} (nil : motive .nil)
    (bool : ∀ value, motive (.bool value)) (char : ∀ value, motive (.char value))
    (string : ∀ value, motive (.string value)) (number : ∀ value, motive (.number value))
    (symbol : ∀ name, motive (.symbol name))
    (list : ∀ items tail, (∀ item ∈ items, motive item) → (∀ rest ∈ tail, motive rest) →
      motive (.list items tail))
    (vector : ∀ items, (∀ item ∈ items, motive item) → motive (.vector items))
    (bytevector : ∀ bytes, motive (.bytevector bytes)) (form : FormOf N S) : motive form := by
  refine @FormOf.rec N S motive (fun items => ∀ item ∈ items, motive item)
    (fun tail => ∀ rest ∈ tail, motive rest) nil bool char string number symbol list vector
    bytevector ?_ ?_ ?_ ?_ form
  · simp
  · intro head rest hhead hrest item hitem
    rcases List.mem_cons.1 hitem with rfl | hmem
    · exact hhead
    · exact hrest item hmem
  · simp
  · rintro rest hrest _ ⟨⟩
    exact hrest

mutual

/-- The form with every symbol replaced. -/
def map (f : S → T) : FormOf N S → FormOf N T
  | .nil => .nil
  | .bool value => .bool value
  | .char value => .char value
  | .string value => .string value
  | .number value => .number value
  | .symbol name => .symbol (f name)
  | .list items tail => .list (mapItems f items) (mapTail f tail)
  | .vector items => .vector (mapItems f items)
  | .bytevector bytes => .bytevector bytes

def mapItems (f : S → T) : List (FormOf N S) → List (FormOf N T)
  | [] => []
  | item :: items => map f item :: mapItems f items

def mapTail (f : S → T) : Option (FormOf N S) → Option (FormOf N T)
  | none => none
  | some tail => some (map f tail)

end

@[simp] lemma mapItems_eq (f : S → T) (items : List (FormOf N S)) :
    mapItems f items = items.map (map f) := by
  induction items with
  | nil => rfl
  | cons item items ih => simp only [mapItems, ih, List.map_cons]

@[simp] lemma mapTail_eq (f : S → T) (tail : Option (FormOf N S)) :
    mapTail f tail = tail.map (map f) := by
  cases tail <;> rfl

lemma map_map {U : Type} (f : S → T) (g : T → U) (form : FormOf N S) :
    (form.map f).map g = form.map (g ∘ f) := by
  induction form using parts_induction with
  | list items tail hitems htail =>
    have hmapped : (items.map (map f)).map (map g) = items.map (map (g ∘ f)) := by
      rw [List.map_map, List.map_inj_left]
      exact hitems
    have hrest : (tail.map (map f)).map (map g) = tail.map (map (g ∘ f)) := by
      cases tail with
      | none => rfl
      | some rest => exact congrArg some (htail rest rfl)
    simp only [map, mapItems_eq, mapTail_eq, hmapped, hrest]
  | vector items hitems =>
    simp only [map, mapItems_eq, List.map_map, FormOf.vector.injEq, List.map_inj_left]
    exact hitems
  | _ => rfl

@[simp] lemma map_id (form : FormOf N S) : form.map id = form := by
  induction form using parts_induction with
  | list items tail hitems htail =>
    have hmapped : items.map (map id) = items := by
      rw [List.map_congr_left (g := id) hitems, List.map_id]
    have hrest : tail.map (map id) = tail := by
      cases tail with
      | none => rfl
      | some rest => exact congrArg some (htail rest rfl)
    simp only [map, mapItems_eq, mapTail_eq, hmapped, hrest]
  | vector items hitems =>
    have hmapped : items.map (map id) = items := by
      rw [List.map_congr_left (g := id) hitems, List.map_id]
    simp only [map, mapItems_eq, hmapped]
  | _ => rfl

mutual

/-- The symbols of a form, from left to right. -/
def symbols : FormOf N S → List S
  | .symbol name => [name]
  | .list items tail => itemSymbols items ++ tailSymbols tail
  | .vector items => itemSymbols items
  | .nil | .bool _ | .char _ | .string _ | .number _ | .bytevector _ => []

def itemSymbols : List (FormOf N S) → List S
  | [] => []
  | item :: items => symbols item ++ itemSymbols items

def tailSymbols : Option (FormOf N S) → List S
  | none => []
  | some tail => symbols tail

end

lemma mem_itemSymbols {items : List (FormOf N S)} {name : S} :
    name ∈ itemSymbols items ↔ ∃ item ∈ items, name ∈ symbols item := by
  induction items with
  | nil => simp [itemSymbols]
  | cons item items ih => simp [itemSymbols, ih]

lemma mem_tailSymbols {tail : Option (FormOf N S)} {name : S} :
    name ∈ tailSymbols tail ↔ ∃ rest ∈ tail, name ∈ symbols rest := by
  cases tail <;> simp [tailSymbols]

def part : FormOf N S → Branch → Option (FormOf N S)
  | .list items _, .item index => items[index]?
  | .list _ tail, .tail => tail
  | .vector items, .item index => items[index]?
  | _, _ => none

lemma symbols_map (f : S → T) (form : FormOf N S) :
    (form.map f).symbols = form.symbols.map f := by
  have hitemSymbols : ∀ items : List (FormOf N S),
      (∀ item ∈ items, (item.map f).symbols = item.symbols.map f) →
        itemSymbols (items.map (map f)) = (itemSymbols items).map f := by
    intro items hitems
    induction items with
    | nil => rfl
    | cons item items ih =>
      rw [List.forall_mem_cons] at hitems
      simp only [List.map_cons, itemSymbols, List.map_append, hitems.1, ih hitems.2]
  induction form using parts_induction with
  | list items tail hitems htail =>
    have hrest : tailSymbols (tail.map (map f)) = (tailSymbols tail).map f := by
      cases tail with
      | none => rfl
      | some rest => exact htail rest rfl
    simp only [map, symbols, mapItems_eq, mapTail_eq, hitemSymbols items hitems, hrest,
      List.map_append]
  | vector items hitems => simp only [map, symbols, mapItems_eq, hitemSymbols items hitems]
  | _ => rfl

/-- The part of a form at the end of a path. -/
def at? (form : FormOf N S) : List Branch → Option (FormOf N S)
  | [] => some form
  | branch :: path => (form.part branch).bind fun inner => at? inner path

lemma part_map (f : S → T) (form : FormOf N S) (branch : Branch) :
    (form.map f).part branch = (form.part branch).map (map f) := by
  cases form <;> cases branch <;> simp [map, part]

lemma at?_map (f : S → T) (path : List Branch) (form : FormOf N S) :
    (form.map f).at? path = (form.at? path).map (map f) := by
  induction path generalizing form with
  | nil => rfl
  | cons branch path ih =>
    simp only [at?, part_map, Option.bind_map, Option.map_bind]
    congr 1
    funext inner
    exact ih inner

lemma part_symbols {form inner : FormOf N S} {branch : Branch}
    (h : form.part branch = some inner) : inner.symbols ⊆ form.symbols := by
  intro name hname
  cases form with
  | list items tail =>
    rw [symbols, List.mem_append]
    cases branch with
    | item index => exact .inl (mem_itemSymbols.2 ⟨inner, List.mem_of_getElem? h, hname⟩)
    | tail => exact .inr (mem_tailSymbols.2 ⟨inner, h, hname⟩)
  | vector items =>
    cases branch with
    | item index => exact mem_itemSymbols.2 ⟨inner, List.mem_of_getElem? h, hname⟩
    | tail => cases h
  | _ => cases branch <;> cases h

lemma at?_symbols {form inner : FormOf N S} {path : List Branch}
    (h : form.at? path = some inner) : inner.symbols ⊆ form.symbols := by
  induction path generalizing form with
  | nil =>
    obtain rfl : form = inner := Option.some.inj h
    exact fun _ hname => hname
  | cons branch path ih =>
    obtain ⟨next, hpart, hrest⟩ := Option.bind_eq_some_iff.1 h
    exact fun name hname => part_symbols hpart (ih hrest hname)

lemma at?_append (form : FormOf N S) (front back : List Branch) :
    form.at? (front ++ back) = (form.at? front).bind fun inner => inner.at? back := by
  induction front generalizing form with
  | nil => rfl
  | cons branch front ih =>
    simp only [List.cons_append, at?, Option.bind_assoc]
    congr 1
    funext inner
    exact ih inner

end FormOf

/-! ### Data -/

/-- A datum, the value of a form that is quoted; `integer` is a number of the machine. -/
inductive Datum (N : Type)
  | nil
  | bool (value : Bool)
  | char (value : Char)
  | string (value : String)
  | number (value : N)
  | integer (value : ℤ)
  | symbol (name : String)
  | pair (car cdr : Datum N)
  | vector (items : List (Datum N))
  | bytevector (bytes : List UInt8)

/-- A list of data that ends in `last`. -/
def Datum.chain (items : List (Datum N)) (last : Datum N) : Datum N := items.foldr .pair last

lemma Datum.chain_inj {items items' : List (Datum N)} {last last' : Datum N}
    (hlen : items.length = items'.length) :
    Datum.chain items last = Datum.chain items' last' ↔ items = items' ∧ last = last' := by
  induction items generalizing items' with
  | nil =>
    cases items' with
    | nil => simp [chain]
    | cons => simp at hlen
  | cons item items ih =>
    cases items' with
    | nil => simp at hlen
    | cons item' items' =>
      have hrest := @ih items' (by simpa using hlen)
      simp only [chain, List.foldr_cons, Datum.pair.injEq, List.cons.injEq] at hrest ⊢
      rw [hrest, and_assoc]

namespace FormOf

mutual

/-- The datum of a form whose symbols have the given names. -/
def datum (name : S → String) : FormOf N S → Datum N
  | .nil => .nil
  | .bool value => .bool value
  | .char value => .char value
  | .string value => .string value
  | .number value => .number value
  | .symbol own => .symbol (name own)
  | .list items tail => .chain (data name items) (lastDatum name tail)
  | .vector items => .vector (data name items)
  | .bytevector bytes => .bytevector bytes

def data (name : S → String) : List (FormOf N S) → List (Datum N)
  | [] => []
  | item :: items => datum name item :: data name items

def lastDatum (name : S → String) : Option (FormOf N S) → Datum N
  | none => .nil
  | some tail => datum name tail

end

@[simp] lemma data_eq (name : S → String) (items : List (FormOf N S)) :
    data name items = items.map (datum name) := by
  induction items with
  | nil => rfl
  | cons item items ih => simp only [data, ih, List.map_cons]

lemma datum_map (f : S → T) (name : T → String) (form : FormOf N S) :
    (form.map f).datum name = form.datum (name ∘ f) := by
  induction form using parts_induction with
  | list items tail hitems htail =>
    have hdata : (items.map (map f)).map (datum name) = items.map (datum (name ∘ f)) := by
      simp only [List.map_map, List.map_inj_left]
      exact hitems
    have hlast : lastDatum name (tail.map (map f)) = lastDatum (name ∘ f) tail := by
      cases tail with
      | none => rfl
      | some rest => exact htail rest rfl
    simp only [map, datum, mapItems_eq, mapTail_eq, data_eq, hdata, hlast]
  | vector items hitems =>
    simp only [map, datum, mapItems_eq, data_eq, List.map_map, Datum.vector.injEq,
      List.map_inj_left]
    exact hitems
  | _ => rfl

lemma data_eq_iff {f g : S → String} {items : List (FormOf N S)}
    (h : ∀ item ∈ items,
      (item.datum f = item.datum g ↔ ∀ name ∈ item.symbols, f name = g name)) :
    data f items = data g items ↔ ∀ name ∈ itemSymbols items, f name = g name := by
  simp only [data_eq, List.map_inj_left, mem_itemSymbols]
  constructor
  · rintro heq name ⟨item, hin, hmem⟩
    exact (h item hin).1 (heq item hin) name hmem
  · intro heq item hin
    exact (h item hin).2 fun name hmem => heq name ⟨item, hin, hmem⟩

/-- Two namings give one datum exactly if they agree on the symbols of the form. -/
theorem datum_eq_iff (f g : S → String) (form : FormOf N S) :
    form.datum f = form.datum g ↔ ∀ name ∈ form.symbols, f name = g name := by
  induction form using parts_induction with
  | symbol => simp [datum, symbols]
  | list items tail hitems htail =>
    have hlast : lastDatum f tail = lastDatum g tail ↔
        ∀ name ∈ tailSymbols tail, f name = g name := by
      cases tail with
      | none => simp [lastDatum, tailSymbols]
      | some rest => exact htail rest rfl
    rw [datum, datum, Datum.chain_inj (by simp), data_eq_iff hitems, hlast, symbols]
    simp only [List.mem_append, or_imp, forall_and]
  | vector items hitems =>
    rw [datum, datum, Datum.vector.injEq, data_eq_iff hitems, symbols]
  | _ => simp [datum, symbols]

end FormOf

end Neetan.Expand
