import Mathlib.Tactic.Ring

/-!
Little-endian byte strings of natural numbers.
-/

namespace Neetan.LittleEndian

/-- The `n` low bytes of a number, the lowest first. -/
def toLe : ℕ → ℕ → List UInt8
  | 0, _ => []
  | n + 1, v => UInt8.ofNat v :: toLe n (v / 256)

/-- The number a byte string stands for. -/
def fromLe : List UInt8 → ℕ
  | [] => 0
  | b :: bs => b.toNat + 256 * fromLe bs

lemma toLe_succ (n v : ℕ) : toLe (n + 1) v = UInt8.ofNat v :: toLe n (v / 256) := rfl

lemma fromLe_nil : fromLe [] = 0 := rfl

lemma fromLe_cons (byte : UInt8) (bytes : List UInt8) :
    fromLe (byte :: bytes) = byte.toNat + 256 * fromLe bytes := rfl

@[simp] lemma length_toLe (n v : ℕ) : (toLe n v).length = n := by
  induction n generalizing v with
  | zero => rfl
  | succ n ih => simp [toLe_succ, ih]

lemma fromLe_toLe (n v : ℕ) : fromLe (toLe n v) = v % 256 ^ n := by
  induction n generalizing v with
  | zero => exact (Nat.mod_one v).symm
  | succ n ih =>
    rw [toLe_succ, fromLe_cons, ih, pow_succ', Nat.mod_mul]
    rfl

lemma fromLe_toLe_of_lt {n v : ℕ} (h : v < 256 ^ n) : fromLe (toLe n v) = v := by
  rw [fromLe_toLe, Nat.mod_eq_of_lt h]

lemma fromLe_lt (bytes : List UInt8) : fromLe bytes < 256 ^ bytes.length := by
  induction bytes with
  | nil => simp [fromLe_nil]
  | cons byte bytes ih =>
    have hbyte := byte.toNat_lt
    rw [fromLe_cons, List.length_cons, pow_succ']
    omega

lemma fromLe_eq_zero (bytes : List UInt8) : fromLe bytes = 0 ↔ ∀ byte ∈ bytes, byte = 0 := by
  induction bytes with
  | nil => simp [fromLe_nil]
  | cons byte bytes ih =>
    have hb : byte.toNat = 0 ↔ byte = 0 := by
      rw [← UInt8.toNat_inj]
      rfl
    simp [fromLe_cons, ih, hb]

lemma fromLe_mod (byte : UInt8) (bytes : List UInt8) :
    fromLe (byte :: bytes) % 256 = byte.toNat := by
  have := byte.toNat_lt
  rw [fromLe_cons]
  omega

lemma fromLe_div (byte : UInt8) (bytes : List UInt8) :
    fromLe (byte :: bytes) / 256 = fromLe bytes := by
  have := byte.toNat_lt
  rw [fromLe_cons]
  omega

lemma fromLe_inj {first second : List UInt8} (hlen : first.length = second.length)
    (h : fromLe first = fromLe second) : first = second := by
  induction first generalizing second with
  | nil => exact (List.length_eq_zero_iff.mp hlen.symm).symm
  | cons byte bytes ih =>
    cases second with
    | nil => simp at hlen
    | cons byte' bytes' =>
      have hmod : byte.toNat = byte'.toNat := by
        rw [← fromLe_mod byte bytes, h, fromLe_mod]
      have hdiv : fromLe bytes = fromLe bytes' := by
        rw [← fromLe_div byte bytes, h, fromLe_div]
      rw [UInt8.toNat_inj.mp hmod, ih (by simpa using hlen) hdiv]

lemma fromLe_land (bytes : List UInt8) (mask : UInt8) :
    fromLe bytes &&& fromLe (List.replicate bytes.length mask) =
      fromLe (bytes.map (· &&& mask)) := by
  induction bytes with
  | nil => simp [fromLe_nil]
  | cons byte bytes ih =>
    rw [← Nat.div_add_mod (fromLe (byte :: bytes) &&& _) (2 ^ 8), Nat.and_div_two_pow,
      Nat.and_mod_two_pow]
    simp only [List.length_cons, List.replicate_succ, Nat.reducePow, fromLe_div, fromLe_mod, ih]
    simp [fromLe_cons, Nat.add_comm]

end Neetan.LittleEndian
