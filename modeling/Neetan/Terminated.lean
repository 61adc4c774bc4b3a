import Mathlib.Data.List.Basic
import Mathlib.Algebra.Ring.Nat

/-!
Strings behind each other, each one followed by a terminator.

Reading them one by one gives the strings back, as long as no string holds the terminator.
-/

namespace Neetan.Terminated

variable {α : Type*} (nul : α)

/-- The strings behind each other, each with its terminator. -/
def joined (strings : List (List α)) : List α := strings.flatMap (· ++ [nul])

@[simp] lemma joined_nil : joined nul [] = [] := rfl

@[simp] lemma joined_cons (s : List α) (strings : List (List α)) :
    joined nul (s :: strings) = s ++ nul :: joined nul strings := by
  simp [joined]

lemma length_joined (strings : List (List α)) :
    (joined nul strings).length = (strings.map fun s => s.length + 1).sum := by
  induction strings with
  | nil => rfl
  | cons s strings ih =>
    rw [joined_cons, List.length_append, List.length_cons, ih, List.map_cons, List.sum_cons]
    omega

variable [DecidableEq α]

/-- The first string of a stream, with its terminator, and what follows. -/
def line : List α → List α × List α
  | [] => ([], [])
  | a :: rest => if a = nul then ([a], rest) else (a :: (line rest).1, (line rest).2)

/-- The first `count` strings of a stream, with their terminators. -/
def lines : ℕ → List α → List α
  | 0, _ => []
  | count + 1, stream => (line nul stream).1 ++ lines count (line nul stream).2

variable {nul}

lemma line_append {s : List α} (free : nul ∉ s) (rest : List α) :
    line nul (s ++ nul :: rest) = (s ++ [nul], rest) := by
  induction s with
  | nil => simp [line]
  | cons a s ih =>
    rw [List.mem_cons, not_or] at free
    rw [List.cons_append, line, if_neg (Ne.symm free.1), ih free.2]
    rfl

lemma lines_joined {strings : List (List α)} (free : ∀ s ∈ strings, nul ∉ s) (rest : List α) :
    lines nul strings.length (joined nul strings ++ rest) = joined nul strings := by
  induction strings with
  | nil => rfl
  | cons s strings ih =>
    rw [List.forall_mem_cons] at free
    rw [joined_cons, List.length_cons, lines, List.append_assoc, List.cons_append,
      line_append free.1, ih free.2, List.append_assoc, List.singleton_append]

end Neetan.Terminated
