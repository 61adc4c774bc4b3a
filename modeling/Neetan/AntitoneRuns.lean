import Mathlib.Order.Interval.Finset.Basic
import Mathlib.Data.Finset.Card
import Mathlib.Order.Monotone.Basic

/-!
The loop that applies an antitone function to its own result until that changes nothing.

Two rounds shrink the interval between a value and its image. The loop settles unless two values
lead to each other, and it settles at the only fixed point.
-/

namespace Neetan.AntitoneRuns

variable {α : Type} {f : α → α} {x y : α}

/-- Applies `f` until it changes nothing; every round takes fuel. -/
def settle [DecidableEq α] (f : α → α) : ℕ → α → Option α
  | 0, _ => none
  | fuel + 1, x => if f x = x then some x else settle f fuel (f x)

/-- The loop comes to an end. -/
def Settles [DecidableEq α] (f : α → α) (x : α) : Prop := ∃ fuel y, settle f fuel x = some y

/-- Two different values lead to each other. -/
def Alternate (f : α → α) (a b : α) : Prop := a ≠ b ∧ f a = b ∧ f b = a

section

variable [DecidableEq α]

lemma fixed_of_settle {fuel : ℕ} (h : settle f fuel x = some y) : f y = y := by
  induction fuel generalizing x with
  | zero => cases h
  | succ fuel ih =>
    rw [settle] at h
    split_ifs at h with hfix
    · obtain rfl := Option.some.inj h
      exact hfix
    · exact ih h

lemma settle_mono {fuel fuel' : ℕ} (h : settle f fuel x = some y) (hle : fuel ≤ fuel') :
    settle f fuel' x = some y := by
  induction fuel generalizing x fuel' with
  | zero => cases h
  | succ fuel ih =>
    obtain ⟨fuel', rfl⟩ := Nat.exists_eq_add_of_le' (Nat.le_of_lt_succ (Nat.lt_succ_of_le hle))
    rw [settle] at h
    change settle f (fuel' + fuel + 1) x = _
    rw [settle]
    split_ifs at h ⊢ with hfix
    · exact h
    · exact ih h (by omega)

lemma settles_of_fixed (h : f x = x) : Settles f x := ⟨1, x, if_pos h⟩

lemma Settles.of_next (h : Settles f (f x)) : Settles f x := by
  by_cases hfix : f x = x
  · exact settles_of_fixed hfix
  · obtain ⟨fuel, y, hy⟩ := h
    exact ⟨fuel + 1, y, (if_neg hfix).trans hy⟩

end

lemma fixed_unique [LinearOrder α] (hf : Antitone f) (hx : f x = x) (hy : f y = y) : x = y := by
  obtain h | h := le_total x y
  · have := hf h
    rw [hx, hy] at this
    exact le_antisymm h this
  · have := hf h
    rw [hx, hy] at this
    exact le_antisymm this h

section

variable [PartialOrder α] (hf : Antitone f)

include hf

lemma interval_shrinks (hx : x ≤ f x) (hxx : x ≤ f (f x)) :
    f (f x) ≤ f (f (f x)) ∧ f (f x) ≤ f (f (f (f x))) ∧ f (f (f x)) ≤ f x :=
  ⟨hf (hf hx), hf (hf hxx), hf hxx⟩

/-- From below two alternating values the loop ends nowhere else than where they meet. -/
lemma eq_of_settle [DecidableEq α] {a b : α} (ha : f a = b) (hb : f b = a) {fuel : ℕ} (hxa : x ≤ a)
    (hxb : x ≤ b) (h : settle f fuel x = some y) : a = y ∧ b = y := by
  -- two rounds at a time: from below both values, above both, and below both again
  induction fuel using Nat.strong_induction_on generalizing x with
  | _ fuel ih =>
    have hbelow : b ≤ f x := ha ▸ hf hxa
    have habove : a ≤ f x := hb ▸ hf hxb
    match fuel, h with
    | fuel + 1, h =>
      rw [settle] at h
      split_ifs at h with hfix
      · obtain rfl := Option.some.inj h
        rw [hfix] at hbelow habove
        exact ⟨le_antisymm habove hxa, le_antisymm hbelow hxb⟩
      match fuel, h with
      | fuel + 1, h =>
        rw [settle] at h
        split_ifs at h with hfix'
        · obtain rfl := Option.some.inj h
          have hle : f x ≤ a := hfix' ▸ hb ▸ hf hbelow
          have hle' : f x ≤ b := hfix' ▸ ha ▸ hf habove
          exact ⟨le_antisymm habove hle, le_antisymm hbelow hle'⟩
        · exact ih fuel (by omega) (hb ▸ hf hbelow) (ha ▸ hf habove) h

variable [LocallyFiniteOrder α] [DecidableEq α]

lemma settles_of_not_alternate (hall : ∀ a b, ¬ Alternate f a b) (hx : x ≤ f x)
    (hxx : x ≤ f (f x)) : Settles f x := by
  -- the induction is on the interval, which loses its lower end
  induction hcard : (Finset.Icc x (f x)).card using Nat.strong_induction_on generalizing x with
  | _ card ih =>
    by_cases hback : f (f x) = x
    · have hfix : f x = x := by
        by_contra hne
        exact hall x (f x) ⟨Ne.symm hne, rfl, hback⟩
      exact settles_of_fixed hfix
    · obtain ⟨hnext, hnext', hend⟩ := interval_shrinks hf hx hxx
      have hlt : x < f (f x) := lt_of_le_of_ne hxx (Ne.symm hback)
      have hshrink : Finset.Icc (f (f x)) (f (f (f x))) ⊂ Finset.Icc x (f x) := by
        refine Finset.ssubset_iff_subset_ne.mpr ⟨Finset.Icc_subset_Icc hxx hend, fun heq => ?_⟩
        have hmem : x ∈ Finset.Icc (f (f x)) (f (f (f x))) := heq ▸ Finset.left_mem_Icc.mpr hx
        exact absurd (Finset.mem_Icc.mp hmem).1 hlt.not_ge
      exact (ih _ (hcard ▸ Finset.card_lt_card hshrink) hnext hnext' rfl).of_next.of_next

/-- From below everything that `f` delivers, the loop comes to an end exactly if no two values
alternate. -/
theorem settles_iff (hx : ∀ y, x ≤ f y) : Settles f x ↔ ∀ a b, ¬ Alternate f a b := by
  refine ⟨?_, fun hall => settles_of_not_alternate hf hall (hx x) (hx (f x))⟩
  rintro ⟨fuel, y, hy⟩ a b ⟨hne, ha, hb⟩
  obtain ⟨rfl, rfl⟩ := eq_of_settle hf ha hb (hb ▸ hx b) (ha ▸ hx a) hy
  exact hne rfl

end

end Neetan.AntitoneRuns
