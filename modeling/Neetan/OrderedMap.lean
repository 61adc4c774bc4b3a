import Mathlib.Order.Lattice
import Mathlib.Data.List.Basic
import Mathlib.Data.List.Pairwise

/-!
Finite maps with ordered keys, as association lists with strictly increasing keys.
-/

namespace Neetan.OrderedMap

variable {κ β : Type} [LinearOrder κ]

/-- A finite map with ordered keys. -/
structure BTreeMap (κ β : Type) [LinearOrder κ] where
  entries : List (κ × β)
  sorted : entries.Pairwise (fun a b => a.1 < b.1)

/-- A finite set of ordered values. -/
abbrev BTreeSet (κ : Type) [LinearOrder κ] := BTreeMap κ Unit

/-- The entries with one more entry, which replaces an entry of the same key. -/
def insertEntry (k : κ) (v : β) : List (κ × β) → List (κ × β)
  | [] => [(k, v)]
  | e :: es =>
    if k < e.1 then (k, v) :: e :: es
    else if k = e.1 then (k, v) :: es
    else e :: insertEntry k v es

variable {m : BTreeMap κ β} {k : κ} {es : List (κ × β)} {e : κ × β} {v : β}

lemma mem_insertEntry (h : e ∈ insertEntry k v es) : e = (k, v) ∨ e ∈ es := by
  induction es with
  | nil => simpa [insertEntry] using h
  | cons a es ih =>
    unfold insertEntry at h
    split_ifs at h <;> simp at h ⊢ <;> tauto

lemma sorted_insertEntry (k : κ) (v : β) (h : es.Pairwise (fun a b => a.1 < b.1)) :
    (insertEntry k v es).Pairwise (fun a b => a.1 < b.1) := by
  induction es with
  | nil => simp [insertEntry]
  | cons a es ih =>
    obtain ⟨ha, hes⟩ := List.pairwise_cons.mp h
    unfold insertEntry
    split_ifs with hlt heq
    · refine List.pairwise_cons.mpr ⟨fun e he => ?_, h⟩
      rcases List.mem_cons.mp he with rfl | he
      · exact hlt
      · exact hlt.trans (ha e he)
    · exact List.pairwise_cons.mpr ⟨fun e he => heq ▸ ha e he, hes⟩
    · refine List.pairwise_cons.mpr ⟨fun e he => ?_, ih hes⟩
      rcases mem_insertEntry he with rfl | he
      · exact lt_of_le_of_ne (not_lt.mp hlt) (Ne.symm heq)
      · exact ha e he

lemma length_insertEntry_le (k : κ) (v : β) (es : List (κ × β)) :
    (insertEntry k v es).length ≤ es.length + 1 := by
  induction es with
  | nil => simp [insertEntry]
  | cons a es ih =>
    unfold insertEntry
    split_ifs <;> simp [ih]

lemma insertEntry_of_lt (h : ∀ e ∈ es, e.1 < k) :
    insertEntry k v es = es ++ [(k, v)] := by
  induction es with
  | nil => rfl
  | cons a es ih =>
    have ha := h a List.mem_cons_self
    rw [insertEntry, if_neg ha.asymm, if_neg ha.ne', ih fun e he => h e (List.mem_cons_of_mem _ he)]
    rfl

lemma insertEntry_perm (h : ∀ e ∈ es, e.1 ≠ k) :
    (insertEntry k v es).Perm ((k, v) :: es) := by
  induction es with
  | nil => exact List.Perm.refl _
  | cons a es ih =>
    have ha := h a List.mem_cons_self
    unfold insertEntry
    split_ifs with hlt heq
    · exact List.Perm.refl _
    · exact absurd heq.symm ha
    · exact ((ih fun e he => h e (List.mem_cons_of_mem _ he)).cons a).trans (List.Perm.swap _ _ _)

def BTreeMap.empty : BTreeMap κ β := ⟨[], List.Pairwise.nil⟩

def BTreeMap.size (m : BTreeMap κ β) : ℕ := m.entries.length

/-- The value at a key. -/
def BTreeMap.get (m : BTreeMap κ β) (k : κ) : Option β :=
  (m.entries.find? fun e => e.1 = k).map Prod.snd

/-- The value that was at a key, and the map with the key set. -/
def BTreeMap.insert (m : BTreeMap κ β) (k : κ) (v : β) : Option β × BTreeMap κ β :=
  (m.get k, ⟨insertEntry k v m.entries, sorted_insertEntry k v m.sorted⟩)

/-- The value that was at a key, and the map without the key. -/
def BTreeMap.remove (m : BTreeMap κ β) (k : κ) : Option β × BTreeMap κ β :=
  (m.get k, ⟨m.entries.filter fun e => e.1 ≠ k, m.sorted.sublist List.filter_sublist⟩)

/-- The last entry with a key below a bound. -/
def BTreeMap.lastBelow (m : BTreeMap κ β) (k : κ) : Option (κ × β) :=
  (m.entries.filter fun e => e.1 < k).getLast?

/-- The first entry with a key from a bound on. -/
def BTreeMap.firstFrom (m : BTreeMap κ β) (k : κ) : Option (κ × β) :=
  m.entries.find? fun e => k ≤ e.1

lemma BTreeMap.get_eq_none :
    m.get k = none ↔ ∀ e ∈ m.entries, e.1 ≠ k := by
  simp [BTreeMap.get]

lemma BTreeMap.size_insert_le (m : BTreeMap κ β) (k : κ) (v : β) :
    (m.insert k v).2.size ≤ m.size + 1 := length_insertEntry_le k v m.entries

lemma BTreeMap.key_unique (m : BTreeMap κ β) {e' : κ × β} (he : e ∈ m.entries)
    (he' : e' ∈ m.entries) (h : e.1 = e'.1) : e = e' := by
  by_contra hne
  have hp : m.entries.Pairwise fun a b => a.1 ≠ b.1 := m.sorted.imp fun hlt => hlt.ne
  have : Std.Symm fun a b : κ × β => a.1 ≠ b.1 := ⟨fun _ _ h => h.symm⟩
  exact hp.forall he he' hne h

lemma BTreeMap.get_eq_some :
    m.get k = some v ↔ (k, v) ∈ m.entries := by
  constructor
  · intro h
    obtain ⟨e, he, rfl⟩ := Option.map_eq_some_iff.mp h
    obtain rfl : e.1 = k := by simpa using List.find?_some he
    exact List.mem_of_find?_eq_some he
  · intro h
    cases hg : m.get k with
    | none => exact absurd rfl (get_eq_none.mp hg _ h)
    | some w =>
      obtain ⟨e, he, rfl⟩ := Option.map_eq_some_iff.mp hg
      have hk : e.1 = k := by simpa using List.find?_some he
      rw [m.key_unique (List.mem_of_find?_eq_some he) h hk]

lemma BTreeMap.insert_perm (v : β) (h : ∀ e ∈ m.entries, e.1 ≠ k) :
    (m.insert k v).2.entries.Perm ((k, v) :: m.entries) := insertEntry_perm h

lemma BTreeMap.remove_perm (h : (k, v) ∈ m.entries) :
    m.entries.Perm ((k, v) :: (m.remove k).2.entries) := by
  have key : ∀ es : List (κ × β), es.Pairwise (fun a b => a.1 < b.1) → (k, v) ∈ es →
      es.Perm ((k, v) :: es.filter fun e => e.1 ≠ k) := by
    intro es
    induction es with
    | nil => simp
    | cons a es ih =>
      intro hs hm
      obtain ⟨ha, hes⟩ := List.pairwise_cons.mp hs
      rcases List.mem_cons.mp hm with rfl | hm
      · have hrest : es.filter (fun e => e.1 ≠ k) = es :=
          List.filter_eq_self.mpr fun e he => by simpa using (ha e he).ne'
        rw [List.filter_cons_of_neg (by simp), hrest]
      · have hak : a.1 ≠ k := (ha _ hm).ne
        rw [List.filter_cons_of_pos (by simpa using hak)]
        exact ((ih hes hm).cons a).trans (List.Perm.swap _ _ _)
  exact key m.entries m.sorted h

lemma BTreeMap.lastBelow_mem (h : m.lastBelow k = some e) :
    e ∈ m.entries ∧ e.1 < k := by
  have hm := List.mem_of_getLast? h
  simpa using hm

lemma BTreeMap.le_lastBelow {e' : κ × β} (he' : e' ∈ m.entries) (hk : e'.1 < k) :
    ∃ e, m.lastBelow k = some e ∧ e'.1 ≤ e.1 := by
  have hm : e' ∈ m.entries.filter fun e => e.1 < k := by simpa using ⟨he', hk⟩
  obtain ⟨e, he⟩ := Option.isSome_iff_exists.mp
    (List.getLast?_isSome.mpr (List.ne_nil_of_mem hm))
  refine ⟨e, he, ?_⟩
  obtain ⟨l, hl⟩ := List.getLast?_eq_some_iff.mp he
  rw [hl] at hm
  have hs : (l ++ [e]).Pairwise fun a b => a.1 < b.1 := hl ▸ m.sorted.sublist List.filter_sublist
  rcases List.mem_append.mp hm with h | h
  · exact ((List.pairwise_append.mp hs).2.2 e' h e (List.mem_singleton_self e)).le
  · rw [List.mem_singleton.mp h]

lemma BTreeMap.firstFrom_mem (h : m.firstFrom k = some e) :
    e ∈ m.entries ∧ k ≤ e.1 :=
  ⟨List.mem_of_find?_eq_some h, by simpa using List.find?_some h⟩

lemma BTreeMap.firstFrom_le {e' : κ × β} (he' : e' ∈ m.entries) (hk : k ≤ e'.1) :
    ∃ e, m.firstFrom k = some e ∧ e.1 ≤ e'.1 := by
  cases h : m.firstFrom k with
  | none => exact absurd hk (by simpa using List.find?_eq_none.mp h e' he')
  | some e =>
    obtain ⟨-, l, l', hl, hn⟩ := List.find?_eq_some_iff_append.mp h
    refine ⟨e, rfl, ?_⟩
    have hs := m.sorted
    rw [hl] at he' hs
    rcases List.mem_append.mp he' with h | h
    · exact absurd hk (by simpa using hn e' h)
    · rcases List.mem_cons.mp h with rfl | h
      · exact le_rfl
      · exact ((List.pairwise_cons.mp (List.pairwise_append.mp hs).2.1).1 e' h).le

end Neetan.OrderedMap
