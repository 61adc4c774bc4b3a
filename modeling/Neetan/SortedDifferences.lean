import Mathlib.Data.List.Pairwise
import Mathlib.Order.Lattice
import Mathlib.Tactic.Common

/-!
Lists sorted by a key, seen as finite maps from the key, and where two of them differ.

The differences come from one pass over both lists; each key is looked at once, the smallest
first.
-/

namespace Neetan.SortedDifferences

variable {α κ : Type} [LinearOrder κ] (key : α → κ)

/-- The elements have strictly ascending keys. -/
def Ascending (l : List α) : Prop := l.Pairwise fun a b => key a < key b

/-- The element with the key. -/
def lookup (l : List α) (k : κ) : Option α := l.find? fun a => key a = k

/-- The elements of both lists by key, where they differ. -/
def differences [DecidableEq α] : List α → List α → List (Option α × Option α)
  | [], [] => []
  | s :: ss, [] => (some s, none) :: differences ss []
  | [], a :: as => (none, some a) :: differences [] as
  | s :: ss, a :: as =>
    if key s = key a then
      if s ≠ a then (some s, some a) :: differences ss as else differences ss as
    else if key s < key a then (some s, none) :: differences ss (a :: as)
    else (none, some a) :: differences (s :: ss) as
termination_by ss as => ss.length + as.length

variable {key}

lemma lookup_nil (k : κ) : lookup key ([] : List α) k = none := rfl

lemma lookup_cons_self (a : α) (l : List α) : lookup key (a :: l) (key a) = some a := by
  simp [lookup]

variable {ss as : List α} {k : κ}

lemma lookup_cons_of_ne {a : α} {l : List α} (h : key a ≠ k) :
    lookup key (a :: l) k = lookup key l k := by
  simp [lookup, h]

lemma lookup_eq_none {l : List α} (h : ∀ a ∈ l, k < key a) : lookup key l k = none := by
  refine List.find?_eq_none.mpr fun a ha => ?_
  simpa using (h a ha).ne'

lemma lt_of_lookup_ne_none {l : List α} {k' : κ} (h : ∀ a ∈ l, k < key a)
    (hl : lookup key l k' ≠ none) : k < k' := by
  obtain ⟨a, ha⟩ := Option.ne_none_iff_exists'.mp hl
  have hmem := List.mem_of_find?_eq_some ha
  have hkey : key a = k' := by simpa using List.find?_some ha
  exact hkey ▸ h a hmem

variable (key) in
/-- The keys where two maps differ, in ascending order, and what they hold there. -/
def DifferAt (ss as : List α) (keys : List κ) (entries : List (Option α × Option α)) : Prop :=
  keys.Pairwise (· < ·) ∧ (∀ k, k ∈ keys ↔ lookup key ss k ≠ lookup key as k) ∧
    entries = keys.map fun k => (lookup key ss k, lookup key as k)

lemma DifferAt.lt {keys : List κ} {entries : List (Option α × Option α)}
    (h : DifferAt key ss as keys entries) (hs : ∀ a ∈ ss, k < key a) (ha : ∀ a ∈ as, k < key a) :
    ∀ k' ∈ keys, k < k' := by
  intro k' hk'
  have hne := (h.2.1 k').mp hk'
  by_cases hnone : lookup key ss k' = none
  · exact lt_of_lookup_ne_none ha fun has => hne (hnone.trans has.symm)
  · exact lt_of_lookup_ne_none hs hnone

/-- Maps that agree but for one smaller key differ where the rest does, and there. -/
lemma DifferAt.cons {keys : List κ} {entries : List (Option α × Option α)} (ss' as' : List α)
    (k : κ) (h : DifferAt key ss as keys entries) (hlt : ∀ k' ∈ keys, k < k')
    (hs : ∀ k', k' ≠ k → lookup key ss' k' = lookup key ss k')
    (ha : ∀ k', k' ≠ k → lookup key as' k' = lookup key as k')
    (hne : lookup key ss' k ≠ lookup key as' k) :
    DifferAt key ss' as' (k :: keys)
      ((lookup key ss' k, lookup key as' k) :: entries) := by
  obtain ⟨hsorted, hmem, rfl⟩ := h
  refine ⟨List.pairwise_cons.mpr ⟨hlt, hsorted⟩, fun k' => ?_, ?_⟩
  · by_cases hk : k' = k
    · rw [hk]
      exact ⟨fun _ => hne, fun _ => List.mem_cons_self⟩
    · rw [hs k' hk, ha k' hk, List.mem_cons, ← hmem k', or_iff_right hk]
  · rw [List.map_cons]
    refine congrArg _ (List.map_congr_left fun k' hk' => ?_)
    rw [hs k' (hlt k' hk').ne', ha k' (hlt k' hk').ne']

/-- Maps that agree but for one smaller key, where they hold the same, differ where the rest
does. -/
lemma DifferAt.same {ss' as' : List α} {keys : List κ} {entries : List (Option α × Option α)}
    (h : DifferAt key ss as keys entries) (hlt : ∀ k' ∈ keys, k < k')
    (hs : ∀ k', k' ≠ k → lookup key ss' k' = lookup key ss k')
    (ha : ∀ k', k' ≠ k → lookup key as' k' = lookup key as k')
    (heq : lookup key ss' k = lookup key as' k) : DifferAt key ss' as' keys entries := by
  obtain ⟨hsorted, hmem, rfl⟩ := h
  refine ⟨hsorted, fun k' => ?_, List.map_congr_left fun k' hk' => ?_⟩
  · by_cases hk : k' = k
    · rw [hk]
      exact ⟨fun hin => absurd (hlt k hin) (lt_irrefl k), fun hne => absurd heq hne⟩
    · rw [hs k' hk, ha k' hk, ← hmem k']
  · rw [hs k' (hlt k' hk').ne', ha k' (hlt k' hk').ne']

/-- **One pass finds the differences**, each key once and in ascending order. -/
theorem differences_differAt [DecidableEq α] (hs : Ascending key ss) (ha : Ascending key as) :
    ∃ keys, DifferAt key ss as keys (differences key ss as) := by
  induction ss, as using differences.induct key with
  | case1 => exact ⟨[], List.Pairwise.nil, fun k => by simp, by rw [differences]; rfl⟩
  | case2 s ss ih =>
    obtain ⟨hbelow, hss⟩ := List.pairwise_cons.mp hs
    obtain ⟨keys, h⟩ := ih hss ha
    have hcons := h.cons (s :: ss) [] (key s)
      (h.lt hbelow fun _ hin => absurd hin List.not_mem_nil)
      (fun k' hk' => lookup_cons_of_ne hk'.symm) (fun _ _ => rfl)
      (by rw [lookup_cons_self, lookup_nil]; exact Option.some_ne_none s)
    rw [lookup_cons_self, lookup_nil] at hcons
    rw [differences]
    exact ⟨_, hcons⟩
  | case3 a as ih =>
    obtain ⟨hbelow, has⟩ := List.pairwise_cons.mp ha
    obtain ⟨keys, h⟩ := ih hs has
    have hcons := h.cons [] (a :: as) (key a)
      (h.lt (fun _ hin => absurd hin List.not_mem_nil) hbelow) (fun _ _ => rfl)
      (fun k' hk' => lookup_cons_of_ne hk'.symm)
      (by rw [lookup_cons_self, lookup_nil]; exact (Option.some_ne_none a).symm)
    rw [lookup_cons_self, lookup_nil] at hcons
    rw [differences]
    exact ⟨_, hcons⟩
  | case4 s ss a as hkey hne ih =>
    obtain ⟨hbelow, hss⟩ := List.pairwise_cons.mp hs
    obtain ⟨hbelow', has⟩ := List.pairwise_cons.mp ha
    obtain ⟨keys, h⟩ := ih hss has
    have ha0 : lookup key (a :: as) (key s) = some a := by rw [hkey, lookup_cons_self]
    have hcons := h.cons (s :: ss) (a :: as) (key s)
      (h.lt hbelow (hkey ▸ hbelow')) (fun k' hk' => lookup_cons_of_ne hk'.symm)
      (fun k' hk' => lookup_cons_of_ne fun h => hk' (h.symm.trans hkey.symm))
      (by rw [lookup_cons_self, ha0]; exact fun h => hne (Option.some.inj h))
    rw [lookup_cons_self, ha0] at hcons
    rw [differences, if_pos hkey, if_pos hne]
    exact ⟨_, hcons⟩
  | case5 s ss a as hkey hne ih =>
    obtain ⟨hbelow, hss⟩ := List.pairwise_cons.mp hs
    obtain ⟨hbelow', has⟩ := List.pairwise_cons.mp ha
    obtain ⟨keys, h⟩ := ih hss has
    obtain rfl : s = a := not_not.mp hne
    rw [differences, if_pos rfl, if_neg hne]
    exact ⟨_, h.same (h.lt hbelow hbelow') (fun k' hk' => lookup_cons_of_ne hk'.symm)
      (fun k' hk' => lookup_cons_of_ne hk'.symm) (by rw [lookup_cons_self, lookup_cons_self])⟩
  | case6 s ss a as hkey hlt ih =>
    obtain ⟨hbelow, hss⟩ := List.pairwise_cons.mp hs
    obtain ⟨hbelow', has⟩ := List.pairwise_cons.mp ha
    obtain ⟨keys, h⟩ := ih hss ha
    have hall : ∀ b ∈ a :: as, key s < key b := by
      intro b hb
      rcases List.mem_cons.mp hb with rfl | hb
      · exact hlt
      · exact hlt.trans (hbelow' b hb)
    have hcons := h.cons (s :: ss) (a :: as) (key s) (h.lt hbelow hall)
      (fun k' hk' => lookup_cons_of_ne hk'.symm) (fun _ _ => rfl)
      (by rw [lookup_cons_self, lookup_eq_none hall]; exact Option.some_ne_none s)
    rw [lookup_cons_self, lookup_eq_none hall] at hcons
    rw [differences, if_neg hkey, if_pos hlt]
    exact ⟨_, hcons⟩
  | case7 s ss a as hkey hlt ih =>
    obtain ⟨hbelow, hss⟩ := List.pairwise_cons.mp hs
    obtain ⟨hbelow', has⟩ := List.pairwise_cons.mp ha
    obtain ⟨keys, h⟩ := ih hs has
    have hgt : key a < key s := lt_of_le_of_ne (not_lt.mp hlt) (Ne.symm hkey)
    have hall : ∀ b ∈ s :: ss, key a < key b := by
      intro b hb
      rcases List.mem_cons.mp hb with rfl | hb
      · exact hgt
      · exact hgt.trans (hbelow b hb)
    have hcons := h.cons (s :: ss) (a :: as) (key a) (h.lt hall hbelow')
      (fun _ _ => rfl) (fun k' hk' => lookup_cons_of_ne hk'.symm)
      (by rw [lookup_cons_self, lookup_eq_none hall]; exact (Option.some_ne_none a).symm)
    rw [lookup_cons_self, lookup_eq_none hall] at hcons
    rw [differences, if_neg hkey, if_neg hlt]
    exact ⟨_, hcons⟩

/-- Maps without a difference are one list. -/
theorem differences_eq_nil [DecidableEq α] :
    differences key ss as = [] ↔ ss = as := by
  induction ss, as using differences.induct key with
  | case1 => simp [differences]
  | case2 s ss => simp [differences]
  | case3 a as => simp [differences]
  | case4 s ss a as hkey hne => simp [differences, hkey, hne]
  | case5 s ss a as hkey hne ih =>
    obtain rfl : s = a := not_not.mp hne
    rw [differences, if_pos rfl, if_neg hne, ih]
    simp
  | case6 s ss a as hkey hlt =>
    rw [differences, if_neg hkey, if_pos hlt]
    simp only [List.cons_ne_nil, false_iff]
    exact fun h => hkey (congrArg key (List.cons.inj h).1)
  | case7 s ss a as hkey hlt =>
    rw [differences, if_neg hkey, if_neg hlt]
    simp only [List.cons_ne_nil, false_iff]
    exact fun h => hkey (congrArg key (List.cons.inj h).1)

end Neetan.SortedDifferences
