import Mathlib.Algebra.Order.Ring.Int
import Mathlib.Data.Nat.Size
import Mathlib.Tactic.Linarith
import Mathlib.Tactic.Ring

/-!
Machine integers of a fixed width: signed ones as integers with a range, unsigned ones as
natural numbers.

A checked operation returns nothing when the exact result leaves the range. A wrapping
operation and a cast keep the low bits.
-/

namespace Neetan.MachineInt

/-- The range of a signed integer of `w` bits. -/
def Fits (w : ℕ) (v : ℤ) : Prop := -2 ^ (w - 1) ≤ v ∧ v < 2 ^ (w - 1)

instance (w : ℕ) (v : ℤ) : Decidable (Fits w v) := inferInstanceAs (Decidable (_ ∧ _))

/-- The least value of a signed integer of `w` bits. -/
def minValue (w : ℕ) : ℤ := -2 ^ (w - 1)

/-- An exact result, if it is in range. -/
def checked (w : ℕ) (v : ℤ) : Option ℤ := if Fits w v then some v else none

/-- The low `w` bits of a natural number, read as a signed integer. -/
def castSigned (w : ℕ) (n : ℕ) : ℤ :=
  if n % 2 ^ w < 2 ^ (w - 1) then ((n % 2 ^ w : ℕ) : ℤ) else ((n % 2 ^ w : ℕ) : ℤ) - 2 ^ w

variable {w a : ℕ} {v : ℤ}

lemma checked_of_fits (h : Fits w v) : checked w v = some v := if_pos h

lemma checked_of_not_fits (h : ¬ Fits w v) : checked w v = none := if_neg h

lemma checked_eq_some {u : ℤ} : checked w v = some u ↔ Fits w v ∧ v = u := by
  unfold checked
  split_ifs with h <;> simp [h]

lemma fits_mono {w' : ℕ} (hw : w ≤ w') (h : Fits w v) : Fits w' v := by
  have hp : (2 : ℤ) ^ (w - 1) ≤ 2 ^ (w' - 1) := pow_le_pow_right₀ (by norm_num) (by omega)
  exact ⟨by linarith [h.1], by linarith [h.2]⟩

lemma fits_of_natAbs_le {u : ℤ} (h : Fits w v) (hs : 0 ≤ u ↔ 0 ≤ v) (hle : u.natAbs ≤ v.natAbs) :
    Fits w u := by
  obtain ⟨h1, h2⟩ := h
  constructor <;> omega

lemma castSigned_of_lt {n : ℕ} (h : n < 2 ^ (w - 1)) : castSigned w n = n := by
  have hw : 2 ^ (w - 1) ≤ 2 ^ w := Nat.pow_le_pow_right (by norm_num) (by omega)
  rw [castSigned, Nat.mod_eq_of_lt (by omega), if_pos h]

lemma castSigned_min (hw : 0 < w) : castSigned w (2 ^ (w - 1)) = minValue w := by
  have h1 : 2 ^ (w - 1) < 2 ^ w := Nat.pow_lt_pow_right (by norm_num) (by omega)
  have h2 : (2 : ℤ) ^ w = 2 * 2 ^ (w - 1) := by
    rw [← pow_succ']; congr 1; omega
  rw [castSigned, Nat.mod_eq_of_lt h1, if_neg (lt_irrefl _), minValue, h2]
  push_cast
  ring

/-! ### Unsigned integers -/

def checkedAdd (w a b : ℕ) : Option ℕ := if a + b < 2 ^ w then some (a + b) else none

def checkedMul (w a b : ℕ) : Option ℕ := if a * b < 2 ^ w then some (a * b) else none

def checkedDiv (a b : ℕ) : Option ℕ := if b = 0 then none else some (a / b)

/-- A shift to the left that loses no bit. -/
def checkedShl (w a n : ℕ) : Option ℕ :=
  if n < w ∧ a * 2 ^ n < 2 ^ w then some (a * 2 ^ n) else none

/-- The number of zero bits in front of a number of `w` bits. -/
def leadingZeros (w a : ℕ) : ℕ := w - a.size

def checkedSub (a b : ℕ) : Option ℕ := if b ≤ a then some (a - b) else none

def wrappingAdd (w a b : ℕ) : ℕ := (a + b) % 2 ^ w

def wrappingSub (w a b : ℕ) : ℕ := (a + (2 ^ w - b)) % 2 ^ w

/-- An unsigned integer and a signed offset. -/
def checkedAddSigned (w a : ℕ) (d : ℤ) : Option ℕ :=
  if 0 ≤ a + d ∧ a + d < 2 ^ w then some (a + d).toNat else none

def wrappingAddSigned (w a : ℕ) (d : ℤ) : ℕ := ((a + d) % 2 ^ w).toNat

/-- The bitwise complement. -/
def complement (w v : ℕ) : ℕ := 2 ^ w - 1 - v

lemma wrappingAdd_lt (w a b : ℕ) : wrappingAdd w a b < 2 ^ w := Nat.mod_lt _ (Nat.two_pow_pos w)

lemma wrappingAdd_of_lt {b : ℕ} (h : a + b < 2 ^ w) : wrappingAdd w a b = a + b :=
  Nat.mod_eq_of_lt h

lemma wrappingSub_of_le {b : ℕ} (h : b ≤ a) (ha : a < 2 ^ w) : wrappingSub w a b = a - b := by
  have e : a + (2 ^ w - b) = a - b + 2 ^ w := by omega
  rw [wrappingSub, e, Nat.add_mod_right, Nat.mod_eq_of_lt (by omega)]

lemma wrappingAddSigned_of_checked {c : ℕ} {d : ℤ} (h : checkedAddSigned w a d = some c) :
    wrappingAddSigned w a d = c := by
  unfold checkedAddSigned at h
  split_ifs at h with hd
  obtain rfl := Option.some.inj h
  rw [wrappingAddSigned, Int.emod_eq_of_lt hd.1 hd.2]

lemma checkedAdd_eq_some {b c : ℕ} : checkedAdd w a b = some c ↔ a + b = c ∧ c < 2 ^ w := by
  unfold checkedAdd
  split_ifs with h
  · rw [Option.some.injEq]
    omega
  · simp only [false_iff]
    omega

lemma checkedSub_eq_some {b c : ℕ} : checkedSub a b = some c ↔ b ≤ a ∧ a - b = c := by
  unfold checkedSub
  split_ifs with h <;> simp [h]

lemma checkedShl_of_lt {n : ℕ} (hn : n < w) (h : a * 2 ^ n < 2 ^ w) :
    checkedShl w a n = some (a * 2 ^ n) := if_pos ⟨hn, h⟩

lemma leadingZeros_lt (ha : 0 < a) (hw : a < 2 ^ w) : leadingZeros w a < w := by
  have hsize := Nat.size_pos.mpr ha
  have hle := Nat.size_le.mpr hw
  unfold leadingZeros
  omega

lemma shl_leadingZeros (ha : 0 < a) (hw : a < 2 ^ w) :
    2 ^ (w - 1) ≤ a * 2 ^ leadingZeros w a ∧ a * 2 ^ leadingZeros w a < 2 ^ w := by
  have hsize := Nat.size_pos.mpr ha
  have hle := Nat.size_le.mpr hw
  have hlow : 2 ^ (a.size - 1) ≤ a := Nat.lt_size.mp (by omega)
  have hhigh : a < 2 ^ a.size := Nat.lt_size_self a
  have e : w - 1 = a.size - 1 + leadingZeros w a := by
    unfold leadingZeros
    omega
  have e' : w = a.size + leadingZeros w a := by
    unfold leadingZeros
    omega
  constructor
  · rw [e, pow_add]
    exact Nat.mul_le_mul_right _ hlow
  · calc a * 2 ^ leadingZeros w a < 2 ^ a.size * 2 ^ leadingZeros w a :=
          Nat.mul_lt_mul_of_pos_right hhigh (Nat.two_pow_pos _)
      _ = 2 ^ w := by rw [← pow_add, ← e']

/-- Masking with the complement of `2 ^ k - 1` rounds down to a multiple of `2 ^ k`. -/
lemma land_complement {k v : ℕ} (hk : k ≤ w) (hv : v < 2 ^ w) :
    v &&& complement w (2 ^ k - 1) = v / 2 ^ k * 2 ^ k := by
  have hpow : 2 ^ k ≤ 2 ^ w := Nat.pow_le_pow_right (by norm_num) hk
  have e : complement w (2 ^ k - 1) = 2 ^ w - (2 ^ k - 1 + 1) := by
    unfold complement
    omega
  apply Nat.eq_of_testBit_eq
  intro i
  rw [Nat.testBit_and, e, Nat.testBit_two_pow_sub_succ (by omega), Nat.testBit_two_pow_sub_one,
    Nat.testBit_mul_two_pow, Nat.testBit_div_two_pow]
  by_cases hi : k ≤ i
  · rw [Nat.sub_add_cancel hi]
    by_cases hw : i < w
    · simp [hi, hw]
    · have : v.testBit i = false := Nat.testBit_lt_two_pow
        (hv.trans_le (Nat.pow_le_pow_right (by norm_num) (not_lt.mp hw)))
      simp [this]
  · have hk' : i < k := by omega
    simp [hi, hk']

end Neetan.MachineInt
