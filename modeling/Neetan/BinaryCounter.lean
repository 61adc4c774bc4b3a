import Mathlib.Data.Nat.Log
import Mathlib.Tactic.Common
import Mathlib.Tactic.Ring

/-!
Binary trees over a growing list of leaves, built with a stack.

The left subtree of a node is as large a power of two as leaves a leaf on the right. The stack
holds a complete subtree for each binary digit one of the number of leaves; the next leaf is
merged with as many of them as the new number has zero digits at its end.
-/

namespace Neetan.BinaryCounter

variable {α : Type*} (node : α → α → α)

/-- The number of leaves in the left subtree of a node over `count` leaves. -/
def leftCount (count : ℕ) : ℕ := 2 ^ Nat.log 2 (count - 1)

variable {count : ℕ}

lemma leftCount_lt (h : 2 ≤ count) : leftCount count < count := by
  have hle := Nat.pow_log_le_self 2 (x := count - 1) (by omega)
  unfold leftCount
  omega

lemma leftCount_pos (count : ℕ) : 0 < leftCount count := Nat.two_pow_pos _

/-- The tree over `count` leaves from a first one on. -/
def subtree (leaf : ℕ → α) (first count : ℕ) : α :=
  if _h : 2 ≤ count then
    node (subtree leaf first (leftCount count))
      (subtree leaf (first + leftCount count) (count - leftCount count))
  else leaf first
termination_by count
decreasing_by
  · exact leftCount_lt _h
  · exact Nat.sub_lt (by omega) (leftCount_pos count)

/-- Leaves taken two at a time. -/
def pairs (leaf : ℕ → α) (i : ℕ) : α := node (leaf (2 * i)) (leaf (2 * i + 1))

/-- The complete subtrees that wait for more leaves, the smallest first. -/
def pending (leaf : ℕ → α) (count : ℕ) : List α :=
  if h : count = 0 then []
  else if count % 2 = 1 then leaf (count - 1) :: pending (pairs node leaf) (count / 2)
  else pending (pairs node leaf) (count / 2)
termination_by count
decreasing_by all_goals omega

/-- The number of binary digits one. -/
def ones (count : ℕ) : ℕ := if _h : count = 0 then 0 else count % 2 + ones (count / 2)
termination_by count
decreasing_by omega

/-- A new leaf takes from the stack a subtree for every zero digit at the end of the new number
of leaves. -/
def merge : α → ℕ → List α → Option (List α)
  | new, total, [] => if total % 2 = 1 then some [new] else none
  | new, total, top :: rest =>
    if total % 2 = 1 then some (new :: top :: rest)
    else merge (node top new) (total / 2) rest

lemma merge_odd {total : ℕ} (h : total % 2 = 1) (new : α) (stack : List α) :
    merge node new total stack = some (new :: stack) := by
  cases stack <;> exact if_pos h

lemma merge_even {total : ℕ} (h : total % 2 ≠ 1) (new top : α) (rest : List α) :
    merge node new total (top :: rest) = merge node (node top new) (total / 2) rest := if_neg h

/-! ### The Stack -/

lemma pending_zero (leaf : ℕ → α) : pending node leaf 0 = [] := by
  rw [pending, dif_pos rfl]

lemma pending_even (leaf : ℕ → α) (half : ℕ) :
    pending node leaf (2 * half) = pending node (pairs node leaf) half := by
  by_cases h : half = 0
  · subst h
    rw [Nat.mul_zero, pending_zero, pending_zero]
  · rw [pending, dif_neg (by omega), if_neg (by omega), Nat.mul_div_cancel_left _ two_pos]

lemma pending_odd (leaf : ℕ → α) (half : ℕ) :
    pending node leaf (2 * half + 1) =
      leaf (2 * half) :: pending node (pairs node leaf) half := by
  rw [pending, dif_neg (by omega), if_pos (by omega), Nat.add_sub_cancel,
    show (2 * half + 1) / 2 = half by omega]

lemma ones_zero : ones 0 = 0 := by
  rw [ones, dif_pos rfl]

lemma ones_even (half : ℕ) : ones (2 * half) = ones half := by
  by_cases h : half = 0
  · rw [h]
  · rw [ones, dif_neg (by omega), Nat.mul_mod_right, Nat.zero_add,
      Nat.mul_div_cancel_left _ two_pos]

lemma ones_odd (half : ℕ) : ones (2 * half + 1) = ones half + 1 := by
  rw [ones, dif_neg (by omega), show (2 * half + 1) / 2 = half by omega]
  omega

lemma ones_le {bits : ℕ} (h : count < 2 ^ bits) : ones count ≤ bits := by
  induction bits generalizing count with
  | zero => rw [show count = 0 by omega, ones_zero]
  | succ bits ih =>
    rw [pow_succ] at h
    obtain ⟨half, rfl | rfl⟩ := Nat.even_or_odd' count
    · rw [ones_even]
      exact (ih (by omega)).trans (Nat.le_succ bits)
    · rw [ones_odd]
      exact Nat.succ_le_succ (ih (by omega))

/-- The stack after one more leaf. -/
theorem merge_pending (leaf : ℕ → α) (count : ℕ) :
    merge node (leaf count) (count + 1) (pending node leaf count) =
      some (pending node leaf (count + 1)) := by
  induction count using Nat.strong_induction_on generalizing leaf with
  | _ count ih =>
    obtain ⟨half, rfl | rfl⟩ := Nat.even_or_odd' count
    · rw [merge_odd node (by omega), pending_even, pending_odd]
    · rw [pending_odd, merge_even node (by omega), show 2 * half + 1 + 1 = 2 * (half + 1) by ring,
        pending_even, Nat.mul_div_cancel_left _ two_pos]
      exact ih half (by omega) (pairs node leaf)

lemma merge_ones (new : α) {stack : List α} (h : stack.length = ones count) :
    ∃ stack', merge node new (count + 1) stack = some stack' ∧
      stack'.length = ones (count + 1) := by
  induction count using Nat.strong_induction_on generalizing new stack with
  | _ count ih =>
    obtain ⟨half, rfl | rfl⟩ := Nat.even_or_odd' count
    · exact ⟨_, merge_odd node (by omega) new stack, by
        rw [List.length_cons, h, ones_even, ones_odd]⟩
    · rw [ones_odd] at h
      obtain ⟨top, rest, rfl⟩ := List.exists_cons_of_length_eq_add_one h
      rw [merge_even node (by omega), show 2 * half + 1 + 1 = 2 * (half + 1) by ring,
        Nat.mul_div_cancel_left _ two_pos, ones_even]
      exact ih half (by omega) (node top new) (Nat.succ.inj h)

lemma pending_congr {leaf leaf' : ℕ → α} (h : ∀ i < count, leaf i = leaf' i) :
    pending node leaf count = pending node leaf' count := by
  induction count using Nat.strong_induction_on generalizing leaf leaf' with
  | _ count ih =>
    have hpairs : ∀ half, 2 * half ≤ count → ∀ i < half,
        pairs node leaf i = pairs node leaf' i := fun half hhalf i hi => by
      rw [pairs, pairs, h _ (by omega), h _ (by omega)]
    obtain ⟨half, rfl | rfl⟩ := Nat.even_or_odd' count
    · by_cases hzero : half = 0
      · rw [hzero, Nat.mul_zero, pending_zero, pending_zero]
      · rw [pending_even, pending_even, ih half (by omega) (hpairs half le_rfl)]
    · rw [pending_odd, pending_odd, h _ (by omega), ih half (by omega) (hpairs half (by omega))]

lemma pending_map {β : Type*} {node : α → α → α} {node' : β → β → β} {f : α → β}
    (hnode : ∀ a b, f (node a b) = node' (f a) (f b)) (leaf : ℕ → α) (count : ℕ) :
    pending node' (fun i => f (leaf i)) count = (pending node leaf count).map f := by
  induction count using Nat.strong_induction_on generalizing leaf with
  | _ count ih =>
    have hpairs : pairs node' (fun i => f (leaf i)) = fun i => f (pairs node leaf i) :=
      funext fun i => (hnode _ _).symm
    obtain ⟨half, rfl | rfl⟩ := Nat.even_or_odd' count
    · by_cases hzero : half = 0
      · rw [hzero, Nat.mul_zero, pending_zero, pending_zero, List.map_nil]
      · rw [pending_even, pending_even, hpairs, ih half (by omega)]
    · rw [pending_odd, pending_odd, hpairs, ih half (by omega), List.map_cons]

/-! ### The Tree -/

lemma subtree_one (leaf : ℕ → α) (first : ℕ) : subtree node leaf first 1 = leaf first := by
  rw [subtree, dif_neg (by omega)]

lemma subtree_node (h : 2 ≤ count) (leaf : ℕ → α) (first : ℕ) :
    subtree node leaf first count = node (subtree node leaf first (leftCount count))
      (subtree node leaf (first + leftCount count) (count - leftCount count)) := by
  rw [subtree, dif_pos h]

lemma subtree_congr {leaf leaf' : ℕ → α} {first first' : ℕ} (hpos : 0 < count)
    (h : ∀ i < count, leaf (first + i) = leaf' (first' + i)) :
    subtree node leaf first count = subtree node leaf' first' count := by
  induction count using Nat.strong_induction_on generalizing first first' with
  | _ count ih =>
    by_cases hcount : 2 ≤ count
    · have hlt := leftCount_lt hcount
      have hleft := leftCount_pos count
      rw [subtree_node node hcount, subtree_node node hcount]
      congr 1
      · exact ih _ hlt hleft fun i hi => h i (by omega)
      · refine ih _ (by omega) (by omega) fun i hi => ?_
        rw [Nat.add_assoc, Nat.add_assoc]
        exact h _ (by omega)
    · obtain rfl : count = 1 := by omega
      rw [subtree_one, subtree_one]
      exact h 0 hpos

lemma leftCount_double {half : ℕ} (hhalf : 2 ≤ half) (h : count = 2 * half ∨ count + 1 = 2 * half) :
    leftCount count = 2 * leftCount half := by
  have hlog : Nat.log 2 (count - 1) = Nat.log 2 (half - 1) + 1 := by
    rw [Nat.log_of_one_lt_of_le one_lt_two (by omega), show (count - 1) / 2 = half - 1 by omega]
  rw [leftCount, leftCount, hlog, pow_succ, Nat.mul_comm]

lemma subtree_pairs (leaf : ℕ → α) (first half : ℕ) (hpos : 0 < half) :
    subtree node leaf (2 * first) (2 * half) = subtree node (pairs node leaf) first half := by
  induction half using Nat.strong_induction_on generalizing first with
  | _ half ih =>
    by_cases h : 2 ≤ half
    · have hlt := leftCount_lt h
      have hleft := leftCount_pos half
      rw [subtree_node node (by omega), leftCount_double h (.inl rfl), ih _ hlt _ hleft,
        ← Nat.mul_add, ← Nat.mul_sub, ih _ (by omega) _ (by omega), subtree_node node h]
    · obtain rfl : half = 1 := by omega
      rw [subtree_one, subtree_node node (by omega), show leftCount (2 * 1) = 1 by decide,
        subtree_one, subtree_one, pairs]

lemma subtree_pairs_last (leaf leaf' : ℕ → α) (first half : ℕ)
    (hpairs : ∀ i < half, leaf' (first + i) = pairs node leaf (first + i))
    (hlast : leaf' (first + half) = leaf (2 * (first + half))) :
    subtree node leaf (2 * first) (2 * half + 1) = subtree node leaf' first (half + 1) := by
  induction half using Nat.strong_induction_on generalizing first with
  | _ half ih =>
    by_cases h : half = 0
    · subst h
      rw [subtree_one, subtree_one]
      exact hlast.symm
    · have hlt := leftCount_lt (show 2 ≤ half + 1 by omega)
      have hleft := leftCount_pos (half + 1)
      rw [subtree_node node (by omega), subtree_node node (show 2 ≤ half + 1 by omega),
        @leftCount_double (2 * half + 1) (half + 1) (by omega) (.inr rfl)]
      congr 1
      · rw [subtree_pairs _ _ _ _ hleft]
        exact subtree_congr node hleft fun i hi => (hpairs i (by omega)).symm
      · rw [show 2 * half + 1 - 2 * leftCount (half + 1) = 2 * (half - leftCount (half + 1)) + 1
            by omega, ← Nat.mul_add,
          show half + 1 - leftCount (half + 1) = half - leftCount (half + 1) + 1 by omega]
        refine ih _ (by omega) _ (fun i hi => ?_) ?_
        · rw [Nat.add_assoc]
          exact hpairs _ (by omega)
        · rw [Nat.add_assoc, Nat.add_sub_cancel' (by omega)]
          exact hlast

/-- The stack folded onto the last leaf is the tree over all leaves. -/
theorem foldl_pending (leaf : ℕ → α) (count : ℕ) :
    (pending node leaf count).foldl (fun new top => node top new) (leaf count) =
      subtree node leaf 0 (count + 1) := by
  suffices h : ∀ (last : α) (leaf' : ℕ → α), (∀ i < count, leaf' i = leaf i) →
      leaf' count = last → (pending node leaf count).foldl (fun new top => node top new) last =
        subtree node leaf' 0 (count + 1) from h _ _ (fun _ _ => rfl) rfl
  induction count using Nat.strong_induction_on generalizing leaf with
  | _ count ih =>
    intro last leaf' hleaf hlast
    have hpairs : ∀ half, 2 * half ≤ count → ∀ i < half,
        pairs node leaf' i = pairs node leaf i := fun half hhalf i hi => by
      rw [pairs, pairs, hleaf _ (by omega), hleaf _ (by omega)]
    obtain ⟨half, rfl | rfl⟩ := Nat.even_or_odd' count
    · by_cases h : half = 0
      · subst h
        rw [pending_zero, subtree_one, List.foldl_nil]
        exact hlast.symm
      · rw [pending_even, ih half (by omega) _ last
          (fun i => if i = half then last else pairs node leaf i)
          (fun i hi => if_neg hi.ne) (if_pos rfl)]
        refine (subtree_pairs_last node leaf' _ 0 half (fun i hi => ?_) ?_).symm
        · rw [Nat.zero_add, if_neg hi.ne, hpairs half le_rfl i hi]
        · rw [Nat.zero_add, if_pos rfl, hlast]
    · rw [pending_odd, List.foldl_cons, ih half (by omega) _ (node (leaf (2 * half)) last)
        (pairs node leaf') (hpairs half (by omega)) (by rw [pairs, hlast, hleaf _ (by omega)]),
        show 2 * half + 1 + 1 = 2 * (half + 1) by ring]
      exact (subtree_pairs node leaf' 0 (half + 1) (by omega)).symm

end Neetan.BinaryCounter
