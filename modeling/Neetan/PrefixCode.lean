import Mathlib.Data.List.Basic
import Mathlib.Tactic.Common

/-!
Words that say what they stand for, whatever follows them.

A field is read up to a stop, up to its size, or up to its number of parts. Each of these says
where the field ends, so that what is behind it is the same as well.
-/

namespace Neetan.PrefixCode

variable {α γ χ : Type*}

/-- The word of `a` is the beginning of no word of something that looks different, and what
follows it is the same. -/
def Determines (code : α → List χ) (view : α → γ) (a : α) : Prop :=
  ∀ b s t, code a ++ s = code b ++ t → view a = view b ∧ s = t

lemma stop_inj {stop : χ} {u v s t : List χ} (free : stop ∉ u) (free' : stop ∉ v)
    (same : u ++ stop :: s = v ++ stop :: t) : u = v ∧ s = t := by
  induction u generalizing v with
  | nil =>
    cases v with
    | nil => exact ⟨rfl, (List.cons.inj same).2⟩
    | cons y v =>
      rw [List.cons_append] at same
      exact absurd (List.mem_cons.2 (.inl (List.cons.inj same).1)) free'
  | cons x u ih =>
    cases v with
    | nil =>
      rw [List.cons_append] at same
      exact absurd (List.mem_cons.2 (.inl (List.cons.inj same).1.symm)) free
    | cons y v =>
      rw [List.mem_cons, not_or] at free free'
      obtain ⟨rfl, behind⟩ := List.cons.inj same
      obtain ⟨rfl, rest⟩ := ih free.2 free'.2 behind
      exact ⟨rfl, rest⟩

lemma Determines.flatMap {code : α → List χ} {view : α → γ} {parts others : List α}
    {s t : List χ} (each : ∀ part ∈ parts, Determines code view part)
    (length : parts.length = others.length)
    (same : parts.flatMap code ++ s = others.flatMap code ++ t) :
    parts.map view = others.map view ∧ s = t := by
  induction parts generalizing others with
  | nil =>
    obtain rfl := List.length_eq_zero_iff.1 length.symm
    exact ⟨rfl, same⟩
  | cons part parts ih =>
    cases others with
    | nil => cases length
    | cons other others =>
      rw [List.forall_mem_cons] at each
      rw [List.flatMap_cons, List.flatMap_cons, List.append_assoc, List.append_assoc] at same
      obtain ⟨first, behind⟩ := each.1 other _ _ same
      obtain ⟨rest, rfl⟩ := ih each.2 (Nat.succ.inj length) behind
      exact ⟨congrArg₂ List.cons first rest, rfl⟩

/-! ### Numerals -/

section Numerals

variable {base : ℕ}

lemma digitChar_inj :
    ∀ m < 16, ∀ n < 16, Nat.digitChar m = Nat.digitChar n → m = n := by
  decide

lemma mem_digits {c : Char} {n : ℕ} (low : 1 < base) (mem : c ∈ Nat.toDigits base n) :
    ∃ d < base, Nat.digitChar d = c := by
  induction n using Nat.strongRecOn with
  | ind n ih =>
    rw [Nat.toDigits_eq_if low] at mem
    split at mem
    case isTrue less => exact ⟨n, less, (List.mem_singleton.1 mem).symm⟩
    case isFalse le =>
      obtain front | last := List.mem_append.1 mem
      · exact ih (n / base) (Nat.div_lt_self (by omega) low) front
      · have less := Nat.mod_lt n (Nat.lt_trans Nat.zero_lt_one low)
        exact ⟨n % base, less, (List.mem_singleton.1 last).symm⟩

lemma digits_ne_nil (n : ℕ) (low : 1 < base) : Nat.toDigits base n ≠ [] := by
  rw [Nat.toDigits_eq_if low]
  split
  · exact List.cons_ne_nil _ _
  · exact List.append_ne_nil_of_right_ne_nil _ (List.cons_ne_nil _ _)

lemma digits_head (n : ℕ) (low : 1 < base) :
    ∃ d < base, ∃ rest, Nat.toDigits base n = Nat.digitChar d :: rest := by
  cases h : Nat.toDigits base n with
  | nil => exact absurd h (digits_ne_nil n low)
  | cons c rest =>
    have mem : c ∈ Nat.toDigits base n := h ▸ List.mem_cons_self
    obtain ⟨d, less, rfl⟩ := mem_digits low mem
    exact ⟨d, less, rest, rfl⟩

lemma digits_inj {m n : ℕ} (low : 1 < base) (high : base ≤ 16)
    (same : Nat.toDigits base m = Nat.toDigits base n) : m = n := by
  induction m using Nat.strongRecOn generalizing n with
  | ind m ih =>
    have pos : 0 < base := Nat.lt_trans Nat.zero_lt_one low
    have less_m := Nat.mod_lt m pos
    have less_n := Nat.mod_lt n pos
    by_cases small : m < base <;> by_cases small' : n < base
    · rw [Nat.toDigits_of_lt_base small, Nat.toDigits_of_lt_base small'] at same
      exact digitChar_inj m (by omega) n (by omega) (List.cons.inj same).1
    · rw [Nat.toDigits_of_lt_base small, Nat.toDigits_of_base_le low (by omega)] at same
      obtain ⟨front, -⟩ := @List.append_inj' _ [] _ _ _ same rfl
      exact absurd front.symm (digits_ne_nil _ low)
    · rw [Nat.toDigits_of_base_le low (by omega), Nat.toDigits_of_lt_base small'] at same
      obtain ⟨front, -⟩ := @List.append_inj' _ _ _ [] _ same rfl
      exact absurd front (digits_ne_nil _ low)
    · have large : base ≤ m := Nat.le_of_not_lt small
      have large' : base ≤ n := Nat.le_of_not_lt small'
      rw [Nat.toDigits_of_base_le low large, Nat.toDigits_of_base_le low large'] at same
      obtain ⟨front, last⟩ := List.append_inj' same rfl
      have high_part := ih (m / base) (Nat.div_lt_self (by omega) low) front
      have low_part := digitChar_inj _ (by omega) _ (by omega) (List.cons.inj last).1
      rw [← Nat.div_add_mod m base, ← Nat.div_add_mod n base, high_part, low_part]

lemma numeral_inj {m n : ℕ} {stop : Char} {s t : List Char} (low : 1 < base) (high : base ≤ 16)
    (free : ∀ d < 16, Nat.digitChar d ≠ stop)
    (same : Nat.toDigits base m ++ stop :: s = Nat.toDigits base n ++ stop :: t) :
    m = n ∧ s = t := by
  have no (k : ℕ) : stop ∉ Nat.toDigits base k := fun mem => by
    obtain ⟨d, less, is⟩ := mem_digits low mem
    exact free d (Nat.lt_of_lt_of_le less high) is
  obtain ⟨digits, behind⟩ := stop_inj (no m) (no n) same
  exact ⟨digits_inj low high digits, behind⟩

end Numerals

lemma text_inj {u v : String} {s t : List Char} (size : u.utf8ByteSize = v.utf8ByteSize)
    (same : u.toList ++ s = v.toList ++ t) : u = v ∧ s = t := by
  have whole (u v : String) (more : List Char) (is : v.toList = u.toList ++ more)
      (size : u.utf8ByteSize = v.utf8ByteSize) : more = [] := by
    have text : v = u ++ String.ofList more := by
      rw [← String.toList_inj, is, String.toList_append, String.toList_ofList]
    rw [text, String.utf8ByteSize_append] at size
    have empty : String.ofList more = "" := String.utf8ByteSize_eq_zero_iff.1 (by omega)
    rw [← String.toList_ofList (l := more), empty]
    rfl
  obtain ⟨more, is, rfl⟩ | ⟨more, is, rfl⟩ := List.append_eq_append_iff.1 same
  · obtain rfl := whole u v more is size
    rw [List.append_nil, String.toList_inj] at is
    exact ⟨is.symm, rfl⟩
  · obtain rfl := whole v u more is size.symm
    rw [List.append_nil, String.toList_inj] at is
    exact ⟨is, rfl⟩

end Neetan.PrefixCode
