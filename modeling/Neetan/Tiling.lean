import Mathlib.Algebra.BigOperators.Group.Finset.Basic
import Mathlib.Algebra.BigOperators.Intervals
import Mathlib.Algebra.Order.BigOperators.Group.List
import Mathlib.Algebra.Group.Action.Defs

/-!
Regions of an address range, and lists of regions that tile it.

A list of regions tiles the first `n` addresses when each of these lies in exactly one of
them and no other address lies in any. Counting the regions over an address turns every
split, merge and move of regions into an addition.
-/

namespace Neetan.Tiling

/-- A half-open range of addresses. -/
structure Region where
  offset : ℕ
  size : ℕ
  deriving DecidableEq, Repr

def Region.Contains (r : Region) (x : ℕ) : Prop := r.offset ≤ x ∧ x < r.offset + r.size

instance (r : Region) (x : ℕ) : Decidable (r.Contains x) := inferInstanceAs (Decidable (_ ∧ _))

/-- One over the addresses of a region, zero elsewhere. -/
def Region.hits (r : Region) (x : ℕ) : ℕ :=
  if r.offset ≤ x ∧ x < r.offset + r.size then 1 else 0

/-- The number of regions over an address. -/
def cover (rs : List Region) (x : ℕ) : ℕ := (rs.map fun r => r.hits x).sum

/-- The first `n` addresses lie in one region each, the others in none. -/
def Tiles (rs : List Region) (n : ℕ) : Prop := ∀ x, cover rs x = if x < n then 1 else 0

variable {rs : List Region} {r r' : Region} {n x : ℕ}

lemma hits_of_contains (h : r.Contains x) : r.hits x = 1 := if_pos h

@[simp] lemma cover_nil (x : ℕ) : cover [] x = 0 := rfl

@[simp] lemma cover_cons (r : Region) (rs : List Region) (x : ℕ) :
    cover (r :: rs) x = r.hits x + cover rs x := by simp [cover]

@[simp] lemma cover_append (rs rs' : List Region) (x : ℕ) :
    cover (rs ++ rs') x = cover rs x + cover rs' x := by simp [cover]

lemma cover_perm {rs' : List Region} (h : rs.Perm rs') (x : ℕ) : cover rs x = cover rs' x :=
  (h.map _).sum_eq

lemma Tiles.perm {rs' : List Region} (h : Tiles rs n) (hp : rs.Perm rs') : Tiles rs' n :=
  fun x => (cover_perm hp x).symm.trans (h x)

lemma hits_split (o a b x : ℕ) :
    (Region.mk o (a + b)).hits x = (Region.mk o a).hits x + (Region.mk (o + a) b).hits x := by
  simp only [Region.hits]
  split_ifs <;> omega

/-! ### Regions of a tiling -/

lemma Tiles.lt_of_contains (h : Tiles rs n) (hr : r ∈ rs) (hx : r.Contains x) : x < n := by
  have hp := List.perm_cons_erase hr
  have hc := h.perm hp x
  rw [cover_cons, hits_of_contains hx] at hc
  by_contra hn
  rw [if_neg hn] at hc
  omega

lemma Tiles.end_le (h : Tiles rs n) (hr : r ∈ rs) (hs : 0 < r.size) : r.offset + r.size ≤ n := by
  have := h.lt_of_contains hr (x := r.offset + r.size - 1) ⟨by omega, by omega⟩
  omega

lemma Tiles.exists_contains (h : Tiles rs n) (hx : x < n) : ∃ r ∈ rs, r.Contains x := by
  by_contra hn
  push Not at hn
  have h0 : cover rs x = 0 := by
    refine List.sum_eq_zero fun c hc => ?_
    obtain ⟨r, hr, rfl⟩ := List.mem_map.mp hc
    exact if_neg (hn r hr)
  rw [h x, if_pos hx] at h0
  omega

/-- A region besides those of a tiling list has no address in common with them. -/
lemma Tiles.not_contains (h : Tiles (r :: rs) n) (hr' : r' ∈ rs) (hx : r.Contains x) :
    ¬ r'.Contains x := by
  intro hx'
  have hp := List.perm_cons_erase hr'
  have hc := h.perm (hp.cons r) x
  rw [cover_cons, cover_cons, hits_of_contains hx, hits_of_contains hx'] at hc
  split_ifs at hc <;> omega

/-- Two regions of a tiling, one of them besides the others, lie one after the other. -/
lemma Tiles.ordered (h : Tiles (r :: rs) n) (hr' : r' ∈ rs) (hs : 0 < r.size) (hs' : 0 < r'.size) :
    r.offset + r.size ≤ r'.offset ∨ r'.offset + r'.size ≤ r.offset := by
  by_contra hn
  push Not at hn
  refine h.not_contains hr' (x := max r.offset r'.offset) ?_ ?_
  · constructor <;> omega
  · constructor <;> omega

lemma Tiles.pairwise (h : Tiles rs n) :
    rs.Pairwise fun r r' => ∀ x, ¬ (r.Contains x ∧ r'.Contains x) := by
  have key : ∀ l : List Region, (∀ x, cover l x ≤ 1) →
      l.Pairwise fun r r' => ∀ x, ¬ (r.Contains x ∧ r'.Contains x) := by
    intro l
    induction l with
    | nil => simp
    | cons a l ih =>
      intro hl
      refine List.pairwise_cons.mpr ⟨fun b hb x hx => ?_, ih fun x => ?_⟩
      · have hp := List.perm_cons_erase hb
        have hc := hl x
        rw [cover_perm (hp.cons a), cover_cons, cover_cons, hits_of_contains hx.1,
          hits_of_contains hx.2] at hc
        omega
      · have hc := hl x
        rw [cover_cons] at hc
        omega
  refine key rs fun x => ?_
  rw [h x]
  split_ifs <;> omega

lemma sum_hits (r : Region) (n : ℕ) :
    ∑ x ∈ Finset.range n, r.hits x = min n (r.offset + r.size) - min n r.offset := by
  induction n with
  | zero => simp
  | succ n ih =>
    rw [Finset.sum_range_succ, ih, Region.hits]
    split_ifs <;> omega

lemma Tiles.sum_size (h : Tiles rs n) : (rs.map Region.size).sum = n := by
  have hends : ∀ r ∈ rs, r.size = 0 ∨ r.offset + r.size ≤ n := fun r hr =>
    (Nat.eq_zero_or_pos r.size).imp_right (h.end_le hr)
  have key : ∀ l : List Region, (∀ r ∈ l, r.size = 0 ∨ r.offset + r.size ≤ n) →
      ∑ x ∈ Finset.range n, cover l x = (l.map Region.size).sum := by
    intro l
    induction l with
    | nil => simp
    | cons a l ih =>
      intro hl
      have ha := hl a List.mem_cons_self
      simp only [cover_cons, Finset.sum_add_distrib, List.map_cons, List.sum_cons, sum_hits]
      rw [ih fun r hr => hl r (List.mem_cons_of_mem _ hr)]
      omega
  rw [← key rs hends, Finset.sum_congr rfl fun x hx => (h x).trans (if_pos (Finset.mem_range.mp hx))]
  rw [Finset.sum_const, Finset.card_range, smul_eq_mul, mul_one]

lemma Tiles.eq_single (h : Tiles rs n) (hpos : ∀ r ∈ rs, 0 < r.size)
    (hsep : ∀ r ∈ rs, ∀ r' ∈ rs, r.offset + r.size ≠ r'.offset) :
    rs = if n = 0 then [] else [⟨0, n⟩] := by
  rcases Nat.eq_zero_or_pos n with rfl | hn
  · rw [if_pos rfl]
    refine List.eq_nil_iff_forall_not_mem.mpr fun r hr => ?_
    have := h.end_le hr (hpos r hr)
    have := hpos r hr
    omega
  · obtain ⟨r, hr, h0⟩ := h.exists_contains hn
    obtain ⟨o, s⟩ := r
    obtain rfl : o = 0 := Nat.le_zero.mp h0.1
    have hp := List.perm_cons_erase hr
    have ht := h.perm hp
    have hs := hpos _ hr
    have hmem : ∀ r' ∈ rs.erase ⟨0, s⟩, r' ∈ rs := fun r' hr' => List.mem_of_mem_erase hr'
    have hend : s = n := by
      have hle := h.end_le hr hs
      by_contra hne
      obtain ⟨r', hr', hx⟩ := ht.exists_contains (x := s) (by simp at hle; omega)
      rcases List.mem_cons.mp hr' with rfl | hr'
      · exact absurd hx.2 (by simp)
      · have ho := ht.ordered hr' hs (hpos _ (hmem r' hr'))
        have ha := hsep _ hr _ (hmem r' hr')
        have := hx.1
        have := hpos _ (hmem r' hr')
        simp only at ho ha hs
        omega
    have hnil : rs.erase ⟨0, s⟩ = [] := by
      refine List.eq_nil_iff_forall_not_mem.mpr fun r' hr' => ?_
      have ho := ht.ordered hr' hs (hpos _ (hmem r' hr'))
      have hle := h.end_le (hmem r' hr') (hpos _ (hmem r' hr'))
      have := hpos _ (hmem r' hr')
      simp only at ho
      omega
    rw [if_neg hn.ne', ← hend]
    rw [hnil] at hp
    exact List.perm_singleton.mp hp

end Neetan.Tiling
