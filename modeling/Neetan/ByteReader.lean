import Neetan.LittleEndian
import Neetan.MachineInt

/-!
Reading a byte string at offsets.

A reading stops where an index leaves the bytes or a result leaves the machine word, and
otherwise ends with an error or a value. Two readings agree when they stop together, fail
together, or give values in a relation.
-/

namespace Neetan.ByteReader

open LittleEndian MachineInt

/-- A reading: no result where the program stops, an error or a value else. -/
abbrev Reading (ε α : Type) := ExceptT ε Option α

variable {ε ε' α β γ δ : Type}

/-- The program stops. -/
def stop : Reading ε α := (none : Option (Except ε α))

def decided (result : Except ε α) : Reading ε α := (some result : Option (Except ε α))

/-- The value, or the error when there is none. -/
def okOr (e : ε) : Option α → Reading ε α
  | some a => pure a
  | none => throw e

/-- A checked operation of the program. -/
def orStop (result : Option α) : Reading ε α := result.elim stop pure

def byte (data : List UInt8) (offset : ℕ) : Reading ε UInt8 := orStop data[offset]?

/-- The bytes from `first` up to `last`. -/
def slice (data : List UInt8) (first last : ℕ) : Reading ε (List UInt8) :=
  if first ≤ last ∧ last ≤ data.length then pure ((data.drop first).take (last - first))
  else stop

def array (data : List UInt8) (first n : ℕ) : Reading ε (Vector UInt8 n) :=
  if first + n ≤ data.length then pure (Vector.ofFn fun i => data.getD (first + i) 0) else stop

/-- The unsigned integer in `width` bytes. -/
def word (width : ℕ) (data : List UInt8) (offset : ℕ) : Reading ε ℕ := do
  let bytes ← slice data offset (offset + width)
  return fromLe bytes

/-- The words of a table. -/
def words (width : ℕ) (data : List UInt8) : ℕ → ℕ → Reading ε (List ℕ)
  | _, 0 => pure []
  | offset, count + 1 => do
    let value ← word width data offset
    let values ← words width data (offset + width) count
    return value :: values

/-- A sum of 64-bit words. -/
def plus (a b : ℕ) : Reading ε ℕ := orStop (checkedAdd 64 a b)

/-- A product of 64-bit words. -/
def times (a b : ℕ) : Reading ε ℕ := orStop (checkedMul 64 a b)

lemma decided_ok {a : α} : (decided (.ok a) : Reading ε α) = pure a := rfl

/-! ### Readings that do not stop -/

/-- The integer at an offset, for an offset inside the bytes. -/
def wordAt (width : ℕ) (data : List UInt8) (offset : ℕ) : ℕ :=
  fromLe ((data.drop offset).take width)

lemma wordAt_lt (width : ℕ) (data : List UInt8) (offset : ℕ) :
    wordAt width data offset < 256 ^ width := by
  have hlen : ((data.drop offset).take width).length ≤ width := List.length_take_le _ _
  exact lt_of_lt_of_le (fromLe_lt _) (Nat.pow_le_pow_right (by norm_num) hlen)

section Inside

variable {data : List UInt8} {first last offset width n a b : ℕ}

lemma byte_of_lt (h : offset < data.length) :
    (byte data offset : Reading ε UInt8) = pure (data.getD offset 0) := by
  rw [byte, List.getD_eq_getElem?_getD, List.getElem?_eq_getElem h]
  rfl

lemma slice_of_le (h : first ≤ last) (h' : last ≤ data.length) :
    (slice data first last : Reading ε (List UInt8)) =
      pure ((data.drop first).take (last - first)) :=
  if_pos ⟨h, h'⟩

lemma array_of_le (h : first + n ≤ data.length) :
    (array data first n : Reading ε (Vector UInt8 n)) =
      pure (Vector.ofFn fun i => data.getD (first + i) 0) :=
  if_pos h

lemma word_of_le (h : offset + width ≤ data.length) :
    (word width data offset : Reading ε ℕ) = pure (wordAt width data offset) := by
  rw [word, slice_of_le (by omega) h, pure_bind, Nat.add_sub_cancel_left]
  rfl

lemma words_of_le {count : ℕ} (h : offset + width * count ≤ data.length) :
    (words width data offset count : Reading ε (List ℕ)) =
      pure ((List.range count).map fun i => wordAt width data (offset + width * i)) := by
  induction count generalizing offset with
  | zero => rfl
  | succ count ih =>
    rw [Nat.mul_succ] at h
    rw [words, word_of_le (by omega), pure_bind, ih (by omega), pure_bind,
      List.range_succ_eq_map, List.map_cons, List.map_map, Nat.mul_zero, Nat.add_zero]
    simp only [Function.comp_def, Nat.mul_succ, Nat.add_assoc, Nat.add_comm width]

lemma plus_of_lt (h : a + b < 2 ^ 64) : (plus a b : Reading ε ℕ) = pure (a + b) := by
  rw [plus, checkedAdd, if_pos h]
  rfl

lemma plus_of_le (h : 2 ^ 64 ≤ a + b) : (plus a b : Reading ε ℕ) = stop := by
  rw [plus, checkedAdd, if_neg (by omega)]
  rfl

lemma times_of_lt (h : a * b < 2 ^ 64) : (times a b : Reading ε ℕ) = pure (a * b) := by
  rw [times, checkedMul, if_pos h]
  rfl

lemma times_of_le (h : 2 ^ 64 ≤ a * b) : (times a b : Reading ε ℕ) = stop := by
  rw [times, checkedMul, if_neg (by omega)]
  rfl

end Inside

/-! ### What a reading that ends gives -/

/-- The reading does not stop, and a value it gives is such a value. -/
def Ends (x : Reading ε α) (Q : α → Prop) : Prop :=
  ∃ result : Except ε α, x = decided result ∧ ∀ a, result = .ok a → Q a

variable {x : Reading ε α} {y : Reading ε' β} {f : α → Reading ε γ} {g : β → Reading ε' δ}

variable {Q : α → Prop}

lemma ends_pure {a : α} (h : Q a) : Ends (pure a : Reading ε α) Q :=
  ⟨.ok a, rfl, fun _ hb => Except.ok.inj hb ▸ h⟩

lemma ends_throw {e : ε} : Ends (throw e : Reading ε α) Q :=
  ⟨.error e, rfl, fun _ hb => nomatch hb⟩

lemma Ends.mono {P : α → Prop} (h : Ends x P) (hQ : ∀ a, P a → Q a) : Ends x Q := by
  obtain ⟨result, hx, hP⟩ := h
  exact ⟨result, hx, fun a ha => hQ a (hP a ha)⟩

lemma Ends.bind {P : α → Prop} {Q : γ → Prop} (h : Ends x P) (hf : ∀ a, P a → Ends (f a) Q) :
    Ends (x >>= f) Q := by
  obtain ⟨result, rfl, hP⟩ := h
  cases result with
  | error e => exact ends_throw
  | ok a => exact hf a (hP a rfl)

lemma ends_decided {result : Except ε α} (h : ∀ a, result = .ok a → Q a) :
    Ends (decided result) Q :=
  ⟨result, rfl, h⟩

lemma ends_okOr {result : Option α} {e : ε} : Ends (okOr e result) fun a => result = some a := by
  cases result with
  | some a => exact ends_pure rfl
  | none => exact ends_throw

lemma not_ends_stop : ¬ Ends (stop : Reading ε α) Q := by
  rintro ⟨result, hx, -⟩
  cases hx

lemma ends_pure_iff {a : α} : Ends (pure a : Reading ε α) Q ↔ Q a := by
  refine ⟨fun ⟨result, hx, hQ⟩ => hQ a ?_, ends_pure⟩
  exact (Option.some.inj hx).symm

/-! ### Readings that agree -/

/-- Both stop, both fail, or both give values in the relation. -/
inductive Agree (R : α → β → Prop) : Reading ε α → Reading ε' β → Prop
  | stops : Agree R stop stop
  | fails (e : ε) (e' : ε') : Agree R (throw e) (throw e')
  | gives {a : α} {b : β} (h : R a b) : Agree R (pure a) (pure b)

lemma Agree.bind {R : α → β → Prop} {S : γ → δ → Prop} (h : Agree R x y)
    (hf : ∀ a b, R a b → Agree S (f a) (g b)) : Agree S (x >>= f) (y >>= g) := by
  cases h with
  | stops => exact .stops
  | fails e e' => exact .fails e e'
  | gives h => exact hf _ _ h

lemma Agree.bind_end {R : α → β → Prop} {S : γ → β → Prop} (h : Agree R x y)
    (hf : ∀ a b, R a b → Agree S (f a) (pure b : Reading ε' β)) : Agree S (x >>= f) y := by
  rw [← bind_pure y]
  exact h.bind hf

lemma Agree.ends_iff {R : α → β → Prop} {P : α → Prop} {Q : β → Prop} (h : Agree R x y)
    (hR : ∀ a b, R a b → (P a ↔ Q b)) : Ends x P ↔ Ends y Q := by
  cases h with
  | stops => exact iff_of_false not_ends_stop not_ends_stop
  | fails e e' => exact iff_of_true ends_throw ends_throw
  | gives h => exact ends_pure_iff.trans ((hR _ _ h).trans ends_pure_iff.symm)

end Neetan.ByteReader
