import Neetan.AluShift

/-!
Rotations by a masked count against rotations by one bit, and the arithmetic unit against the
architecture: every operation of every width, for all operands, carries and counts.

A rotation turns a ring of bits: the bits of the value, and with the carry flag one more for
rotations through carry. A count counts by its low five bits, and an increment and a decrement
keep the carry flag.
-/

namespace Neetan.Alu

namespace Rotate

variable {w : ℕ}

def rol (p : BitVec w × Denoted) : BitVec w × Denoted :=
  let v := p.1.rotateLeft 1
  (v, { p.2 with cf := v.getLsbD 0, of := v.msb ^^ v.getLsbD 0 })

def ror (p : BitVec w × Denoted) : BitVec w × Denoted :=
  let v := p.1.rotateRight 1
  (v, { p.2 with cf := v.msb, of := v.msb ^^ v.getLsbD (w - 2) })

def rcl (p : BitVec w × Denoted) : BitVec w × Denoted :=
  let v := p.1 <<< 1 ||| (BitVec.ofBool p.2.cf).setWidth w
  (v, { p.2 with cf := p.1.msb, of := v.msb ^^ p.1.msb })

def rcr (p : BitVec w × Denoted) : BitVec w × Denoted :=
  let v := p.1 >>> 1 ||| (BitVec.ofBool p.2.cf).setWidth w <<< (w - 1)
  (v, { p.2 with cf := p.1.getLsbD 0, of := v.msb ^^ v.getLsbD (w - 2) })

/-! ### Rings -/

lemma exists_turn {m : ℕ} (n : ℕ) {j : ℕ} (j_lt : j < m) : ∃ i < m, (i + n) % m = j := by
  refine ⟨(j + (m - n % m)) % m, Nat.mod_lt _ (by omega), ?_⟩
  have lt := Nat.mod_lt n (show 0 < m by omega)
  rw [Nat.mod_add_mod, ← Nat.add_mod_mod, show j + (m - n % m) + n % m = j + m by omega,
    Nat.add_mod_right, Nat.mod_eq_of_lt j_lt]

variable {i : ℕ} {c : Bool}

lemma add_mod_cases {m r : ℕ} (i_lt : i < m) (r_le : r ≤ m) :
    i + r < m ∧ (i + r) % m = i + r ∨ m ≤ i + r ∧ (i + r) % m = i + r - m := by
  by_cases less : i + r < m
  · exact .inl ⟨less, Nat.mod_eq_of_lt less⟩
  · refine .inr ⟨by omega, ?_⟩
    rw [Nat.mod_eq_sub_mod (by omega), Nat.mod_eq_of_lt (by omega)]

lemma rotateLeft_turn (x : BitVec w) (n : ℕ) (i_lt : i < w) :
    (x.rotateLeft n).getLsbD ((i + n) % w) = x.getLsbD i := by
  have lt := Nat.mod_lt n (show 0 < w by omega)
  rw [← Nat.add_mod_mod, BitVec.getLsbD_rotateLeft]
  obtain ⟨less, eq⟩ | ⟨more, eq⟩ := add_mod_cases i_lt (Nat.le_of_lt lt)
  · rw [eq]
    simp [less, show ¬ i + n % w < n % w by omega]
  · rw [eq]
    simp [show i + n % w - w < n % w by omega, show w - n % w + (i + n % w - w) = i by omega]

lemma rotateRight_turn (x : BitVec w) (n : ℕ) (i_lt : i < w) :
    (x.rotateRight n).getLsbD i = x.getLsbD ((i + n) % w) := by
  have lt := Nat.mod_lt n (show 0 < w by omega)
  rw [← Nat.add_mod_mod, BitVec.getLsbD_rotateRight]
  obtain ⟨less, eq⟩ | ⟨more, eq⟩ := add_mod_cases i_lt (Nat.le_of_lt lt)
  · rw [eq]
    simp [show i < w - n % w by omega, Nat.add_comm]
  · rw [eq]
    simp [i_lt, show ¬ i < w - n % w by omega, show i - (w - n % w) = i + n % w - w by omega]

lemma rotateLeft_succ (x : BitVec w) (n : ℕ) :
    (x.rotateLeft n).rotateLeft 1 = x.rotateLeft (n + 1) := by
  apply BitVec.eq_of_getLsbD_eq
  intro j j_lt
  obtain ⟨i, i_lt, rfl⟩ := exists_turn (n + 1) j_lt
  rw [rotateLeft_turn x (n + 1) i_lt, ← Nat.add_assoc, ← Nat.mod_add_mod,
    rotateLeft_turn _ 1 (Nat.mod_lt _ (by omega)), rotateLeft_turn x n i_lt]

lemma rotateRight_succ (x : BitVec w) (n : ℕ) :
    (x.rotateRight n).rotateRight 1 = x.rotateRight (n + 1) := by
  apply BitVec.eq_of_getLsbD_eq
  intro i i_lt
  rw [rotateRight_turn _ 1 i_lt, rotateRight_turn x n (Nat.mod_lt _ (by omega)),
    rotateRight_turn x (n + 1) i_lt, Nat.mod_add_mod, Nat.add_assoc, Nat.add_comm 1 n]

/-! ### Rotations -/

lemma rol_iterate (p : BitVec w × Denoted) (n : ℕ) : rol^[n + 1] p =
    (p.1.rotateLeft (n + 1), { p.2 with
      cf := (p.1.rotateLeft (n + 1)).getLsbD 0
      of := (p.1.rotateLeft (n + 1)).msb ^^ (p.1.rotateLeft (n + 1)).getLsbD 0 }) := by
  induction n with
  | zero => rfl
  | succ n ih =>
    rw [Function.iterate_succ_apply', ih, rol]
    dsimp only
    rw [rotateLeft_succ]

lemma ror_iterate (p : BitVec w × Denoted) (n : ℕ) : ror^[n + 1] p =
    (p.1.rotateRight (n + 1), { p.2 with
      cf := (p.1.rotateRight (n + 1)).msb
      of := (p.1.rotateRight (n + 1)).msb ^^ (p.1.rotateRight (n + 1)).getLsbD (w - 2) }) := by
  induction n with
  | zero => rfl
  | succ n ih =>
    rw [Function.iterate_succ_apply', ih, ror]
    dsimp only
    rw [rotateRight_succ]

/-! ### Rotations through carry -/

/-- The ring of the value and the carry flag behind it. -/
def ring (p : BitVec w × Denoted) (i : ℕ) : Bool := if i = w then p.2.cf else p.1.getLsbD i

lemma ring_rcl (p : BitVec w × Denoted) (pos : 0 < w) (i_lt : i < w + 1) :
    ring (rcl p) ((i + 1) % (w + 1)) = ring p i := by
  unfold ring rcl
  dsimp only
  obtain ⟨less, eq⟩ | ⟨more, eq⟩ := add_mod_cases i_lt (show 1 ≤ w + 1 by omega)
  · rw [eq]
    by_cases last : i + 1 = w
    · rw [if_pos last, if_neg (by omega), BitVec.msb_eq_getLsbD_last, show w - 1 = i by omega]
    · rw [if_neg last, if_neg (by omega), BitVec.getLsbD_or, BitVec.getLsbD_shiftLeft,
        BitVec.getLsbD_setWidth, BitVec.getLsbD_ofBool]
      simp [show i + 1 < w by omega]
  · obtain rfl : i = w := by omega
    rw [eq, if_pos rfl, Nat.sub_self, if_neg (by omega), BitVec.getLsbD_or,
      BitVec.getLsbD_shiftLeft, BitVec.getLsbD_setWidth, BitVec.getLsbD_ofBool]
    simp [pos]

lemma ring_rcl_iterate (p : BitVec w × Denoted) (pos : 0 < w) (n : ℕ) (i_lt : i < w + 1) :
    ring (rcl^[n] p) ((i + n) % (w + 1)) = ring p i := by
  induction n with
  | zero => rw [Nat.add_zero, Nat.mod_eq_of_lt i_lt]; rfl
  | succ n ih =>
    rw [Function.iterate_succ_apply', ← Nat.add_assoc, ← Nat.mod_add_mod,
      ring_rcl _ pos (Nat.mod_lt _ (Nat.succ_pos w)), ih]

lemma ring_rcr (p : BitVec w × Denoted) (pos : 0 < w) (i_lt : i < w + 1) :
    ring (rcr p) i = ring p ((i + 1) % (w + 1)) := by
  unfold ring rcr
  dsimp only
  obtain ⟨less, eq⟩ | ⟨more, eq⟩ := add_mod_cases i_lt (show 1 ≤ w + 1 by omega)
  · rw [eq, if_neg (by omega), BitVec.getLsbD_or, BitVec.getLsbD_ushiftRight,
      BitVec.getLsbD_shiftLeft, BitVec.getLsbD_setWidth, BitVec.getLsbD_ofBool]
    by_cases last : i + 1 = w
    · have beyond : p.1.getLsbD (1 + i) = false := BitVec.getLsbD_of_ge _ _ (by omega)
      rw [if_pos last, beyond]
      simp [show i < w by omega, show ¬ i < w - 1 by omega, show i - (w - 1) = 0 by omega, pos]
    · rw [if_neg last]
      simp [show i < w - 1 by omega, Nat.add_comm]
  · obtain rfl : i = w := by omega
    rw [eq, if_pos rfl, Nat.sub_self, if_neg (by omega)]

lemma ring_rcr_iterate (p : BitVec w × Denoted) (pos : 0 < w) (n : ℕ) (i_lt : i < w + 1) :
    ring (rcr^[n] p) i = ring p ((i + n) % (w + 1)) := by
  induction n generalizing i with
  | zero => rw [Nat.add_zero, Nat.mod_eq_of_lt i_lt]; rfl
  | succ n ih =>
    rw [Function.iterate_succ_apply', ring_rcr _ pos i_lt, ih (Nat.mod_lt _ (Nat.succ_pos w)),
      Nat.mod_add_mod, Nat.add_assoc, Nat.add_comm 1 n]

lemma eq_of_ring_eq {p q : BitVec w × Denoted} (same : ∀ i < w + 1, ring p i = ring q i) :
    p.1 = q.1 ∧ p.2.cf = q.2.cf := by
  constructor
  · apply BitVec.eq_of_getLsbD_eq
    intro i i_lt
    have here := same i (by omega)
    rwa [ring, ring, if_neg (by omega), if_neg (by omega)] at here
  · have here := same w (by omega)
    rwa [ring, ring, if_pos rfl, if_pos rfl] at here

lemma rcl_flags (p : BitVec w × Denoted) (n : ℕ) : (rcl^[n + 1] p).2 = { p.2 with
    cf := (rcl^[n + 1] p).2.cf
    of := (rcl^[n + 1] p).1.msb ^^ (rcl^[n + 1] p).2.cf } := by
  induction n with
  | zero => rfl
  | succ n ih =>
    rw [Function.iterate_succ_apply']
    generalize rcl^[n + 1] p = q at ih
    rw [rcl]
    dsimp only
    rw [ih]

lemma rcr_flags (p : BitVec w × Denoted) (n : ℕ) : (rcr^[n + 1] p).2 = { p.2 with
    cf := (rcr^[n + 1] p).2.cf
    of := (rcr^[n + 1] p).1.msb ^^ (rcr^[n + 1] p).1.getLsbD (w - 2) } := by
  induction n with
  | zero => rfl
  | succ n ih =>
    rw [Function.iterate_succ_apply']
    generalize rcr^[n + 1] p = q at ih
    rw [rcr]
    dsimp only
    rw [ih]

end Rotate

/-! ### Bytes and words -/

section Narrow

variable {w : ℕ} (narrow : w = 8 ∨ w = 16) (f : I386Flags) (val : BitVec w) (count : Byte)

/-- What a rotation leaves: the carry and the overflow flag, and the others as they were. -/
lemma denoted_rotation (f : I386Flags) {carryVal overflowVal : Dword} {o : Bool}
    (carry : (carryVal != 0) = c) (overflow : (overflowVal != 0) = o) :
    { f with carryVal, overflowVal }.denoted = { f.denoted with cf := c, of := o } := by
  rw [← carry, ← overflow]
  rfl

lemma and_mask_eq {n : ℕ} (w_eq : w = 8 ∨ w = 16) : n &&& (w - 1) = n % w := by
  obtain rfl | rfl := w_eq
  · exact Nat.and_two_pow_sub_one_eq_mod n 3
  · exact Nat.and_two_pow_sub_one_eq_mod n 4

include narrow

lemma turn_eq (n : ℕ) :
    (if n &&& (w - 1) = 0 then w else n &&& (w - 1)) % w = n % w := by
  rw [and_mask_eq narrow]
  split
  · rename_i none
    rw [none, Nat.mod_self]
  · exact Nat.mod_mod n w

lemma ends_eq (result : BitVec w) :
    (result >>> (w - 1) ^^^ (result &&& 1)).setWidth 32 =
      u32From (result.msb ^^ result.getLsbD 0) := by
  apply BitVec.eq_of_getLsbD_eq
  intro i i_lt
  rw [BitVec.getLsbD_setWidth, BitVec.getLsbD_xor, BitVec.getLsbD_ushiftRight,
    BitVec.getLsbD_and, BitVec.msb_eq_getLsbD_last]
  cases i with
  | zero =>
    cases result.getLsbD (w - 1) <;> cases result.getLsbD 0 <;>
      simp [u32From, show 0 < w by omega]
  | succ i =>
    have beyond : result.getLsbD (w - 1 + (i + 1)) = false := BitVec.getLsbD_of_ge _ _ (by omega)
    rw [beyond]
    cases result.getLsbD (w - 1) <;> cases result.getLsbD 0 <;> simp [u32From]

theorem rol_denoted :
    (rol f val count).denoted = Rotate.rol^[masked count] (val, f.denoted) := by
  unfold masked rol
  dsimp only
  generalize (count &&& 0x1F).toNat = n
  cases n with
  | zero => rfl
  | succ n =>
    rw [if_neg (Nat.succ_ne_zero n), Rotate.rol_iterate]
    have turn : val.rotateLeft (if n + 1 &&& (w - 1) = 0 then w else n + 1 &&& (w - 1)) =
        val.rotateLeft (n + 1) := by
      rw [← BitVec.rotateLeft_mod_eq_rotateLeft, turn_eq narrow,
        BitVec.rotateLeft_mod_eq_rotateLeft]
    rw [turn]
    refine Prod.ext rfl (denoted_rotation f ?_ ?_)
    · rw [setWidth_ne _ (by omega), and_one_ne _ (by omega)]
    · rw [ends_eq narrow, u32From_mul _ (by omega)]

theorem ror_denoted :
    (ror f val count).denoted = Rotate.ror^[masked count] (val, f.denoted) := by
  unfold masked ror
  dsimp only
  generalize (count &&& 0x1F).toNat = n
  cases n with
  | zero => rfl
  | succ n =>
    rw [if_neg (Nat.succ_ne_zero n), Rotate.ror_iterate]
    have turn : val.rotateRight (if n + 1 &&& (w - 1) = 0 then w else n + 1 &&& (w - 1)) =
        val.rotateRight (n + 1) := by
      rw [← BitVec.rotateRight_mod_eq_rotateRight, turn_eq narrow,
        BitVec.rotateRight_mod_eq_rotateRight]
    rw [turn]
    refine Prod.ext rfl (denoted_rotation f ?_ ?_)
    · rw [setWidth_ne _ (by omega), and_one_ne _ (by omega), BitVec.getLsbD_ushiftRight,
        BitVec.msb_eq_getLsbD_last]
      rfl
    · rw [setWidth_ne _ (by omega), masked_ne _ (by omega), BitVec.getLsbD_xor,
        BitVec.getLsbD_shiftLeft, BitVec.msb_eq_getLsbD_last,
        decide_eq_true (show w - 1 < w by omega), decide_eq_false (show ¬ w - 1 < 1 by omega)]
      rfl

end Narrow

/-! ### Rotations through carry -/

section Carry

variable {w k : ℕ} (w_lt : w + 1 ≤ k) (p : BitVec w × Denoted) {wide : BitVec k}
  (wide_eq : ∀ i, wide.getLsbD i = (decide (i < w + 1) && Rotate.ring p i))

/-- A whole turn for none. -/
def turns (w n : ℕ) : ℕ := if n % (w + 1) = 0 then w + 1 else n % (w + 1)

lemma turns_le (w n : ℕ) : turns w n ≤ w + 1 := by
  have lt : n % (w + 1) < w + 1 := Nat.mod_lt n (Nat.succ_pos w)
  unfold turns
  split <;> omega

lemma turns_pos (w n : ℕ) : 0 < turns w n := by
  unfold turns
  split <;> omega

lemma turns_mod (w n : ℕ) : turns w n % (w + 1) = n % (w + 1) := by
  unfold turns
  split
  · rename_i none
    rw [none, Nat.mod_self]
  · exact Nat.mod_mod n _

include w_lt wide_eq

lemma turned_left {r : ℕ} (r_le : r ≤ w + 1) (i_lt : i < w + 1) :
    (wide <<< r ||| wide >>> (w + 1 - r)).getLsbD ((i + r) % (w + 1)) = Rotate.ring p i := by
  rw [BitVec.getLsbD_or, BitVec.getLsbD_shiftLeft, BitVec.getLsbD_ushiftRight, wide_eq, wide_eq]
  obtain ⟨less, eq⟩ | ⟨more, eq⟩ := Rotate.add_mod_cases i_lt r_le
  · rw [eq]
    simp [show i + r < k by omega, i_lt, show ¬ w + 1 - r + (i + r) < w + 1 by omega]
  · rw [eq]
    simp [show i + r - (w + 1) < r by omega, show w + 1 - r + (i + r - (w + 1)) = i by omega, i_lt]

lemma turned_right {r : ℕ} (r_le : r ≤ w + 1) (i_lt : i < w + 1) :
    (wide >>> r ||| wide <<< (w + 1 - r)).getLsbD i = Rotate.ring p ((i + r) % (w + 1)) := by
  rw [BitVec.getLsbD_or, BitVec.getLsbD_shiftLeft, BitVec.getLsbD_ushiftRight, wide_eq, wide_eq]
  obtain ⟨less, eq⟩ | ⟨more, eq⟩ := Rotate.add_mod_cases i_lt r_le
  · rw [eq, Nat.add_comm r i]
    simp [show i < w + 1 - r by omega, less]
  · rw [eq]
    simp [show i < k by omega, show i + r - (w + 1) < w + 1 by omega,
      show ¬ i < w + 1 - r by omega, show ¬ r + i < w + 1 by omega,
      show i - (w + 1 - r) = i + r - (w + 1) by omega]

omit w_lt wide_eq in
lemma ring_wide (i_lt : i < w + 1) {v : BitVec w} {x : BitVec k} {d : Denoted}
    (value : ∀ j < w, v.getLsbD j = x.getLsbD j) (carry : d.cf = x.getLsbD w) :
    Rotate.ring (v, d) i = x.getLsbD i := by
  unfold Rotate.ring
  split
  · rename_i last
    rw [last]
    exact carry
  · exact value i (by omega)

/-- A value turned to the left in more bits is the one that as many steps leave. -/
theorem rcl_eq (pos : 0 < w) (n : ℕ) {v : BitVec w}
    (value : ∀ j < w, v.getLsbD j = (wide <<< turns w n ||| wide >>> (w + 1 - turns w n)).getLsbD j)
    (carry : c = (wide <<< turns w n ||| wide >>> (w + 1 - turns w n)).getLsbD w) :
    v = (Rotate.rcl^[n] p).1 ∧ c = (Rotate.rcl^[n] p).2.cf := by
  refine Rotate.eq_of_ring_eq (p := (v, { p.2 with cf := c })) fun j j_lt => ?_
  rw [ring_wide j_lt value carry]
  obtain ⟨i, i_lt, rfl⟩ := Rotate.exists_turn n j_lt
  have same : (i + n) % (w + 1) = (i + turns w n) % (w + 1) := by
    rw [← Nat.add_mod_mod, ← turns_mod w n, Nat.add_mod_mod]
  rw [Rotate.ring_rcl_iterate p pos n i_lt, same,
    turned_left w_lt p wide_eq (turns_le w n) i_lt]

/-- A value turned to the right in more bits is the one that as many steps leave. -/
theorem rcr_eq (pos : 0 < w) (n : ℕ) {v : BitVec w}
    (value : ∀ j < w, v.getLsbD j = (wide >>> turns w n ||| wide <<< (w + 1 - turns w n)).getLsbD j)
    (carry : c = wide.getLsbD (turns w n - 1)) :
    v = (Rotate.rcr^[n] p).1 ∧ c = (Rotate.rcr^[n] p).2.cf := by
  have last : c = (wide >>> turns w n ||| wide <<< (w + 1 - turns w n)).getLsbD w := by
    have some := turns_pos w n
    have le := turns_le w n
    obtain ⟨less, -⟩ | ⟨more, eq⟩ := Rotate.add_mod_cases (Nat.lt_succ_self w) le
    · omega
    rw [carry, turned_right w_lt p wide_eq le (Nat.lt_succ_self w), eq, wide_eq,
      decide_eq_true (by omega), Bool.true_and,
      show turns w n - 1 = w + turns w n - (w + 1) by omega]
  refine Rotate.eq_of_ring_eq (p := (v, { p.2 with cf := c })) fun i i_lt => ?_
  rw [ring_wide i_lt value last, Rotate.ring_rcr_iterate p pos n i_lt,
    turned_right w_lt p wide_eq (turns_le w n) i_lt, ← Nat.add_mod_mod, turns_mod w n,
    Nat.add_mod_mod]

end Carry

lemma wide_bits {w k : ℕ} (w_lt : w + 1 ≤ k) (val : BitVec w) (f : I386Flags) {c : BitVec k}
    (c_eq : ∀ j, c.getLsbD j = (decide (j = 0) && f.cf)) (i : ℕ) :
    (val.setWidth k ||| c <<< w).getLsbD i =
      (decide (i < w + 1) && Rotate.ring (val, f.denoted) i) := by
  rw [BitVec.getLsbD_or, BitVec.getLsbD_shiftLeft, BitVec.getLsbD_setWidth, c_eq]
  unfold Rotate.ring
  obtain less | rfl | more := Nat.lt_trichotomy i w
  · simp [less, show i < k by omega, show i < w + 1 by omega, show i ≠ w by omega]
  · simp [show i < k by omega]
    rfl
  · have beyond : val.getLsbD i = false := BitVec.getLsbD_of_ge _ _ (by omega)
    simp [beyond, show ¬ i < w + 1 by omega, show i - w ≠ 0 by omega]

lemma cfVal_getLsbD (f : I386Flags) (j : ℕ) : f.cfVal.getLsbD j = (decide (j = 0) && f.cf) := by
  change (u32From f.cf).getLsbD j = _
  cases f.cf <;> cases j <;> simp [u32From]

lemma cfVal_wide_getLsbD (f : I386Flags) (j : ℕ) :
    (f.cfVal.setWidth 64 : Qword).getLsbD j = (decide (j = 0) && f.cf) := by
  rw [BitVec.getLsbD_setWidth, cfVal_getLsbD]
  cases j <;> simp

lemma denoted_of_rotated {w : ℕ} (f : I386Flags) {q : BitVec w × Denoted} {v : BitVec w} {o : Bool}
    {carryVal overflowVal : Dword} (flags : q.2 = { f.denoted with cf := q.2.cf, of := o })
    (same : v = q.1 ∧ c = q.2.cf) (carry : (carryVal != 0) = c)
    (overflow : (overflowVal != 0) = o) :
    Out.denoted (v, { f with carryVal, overflowVal }) = q := by
  refine Prod.ext same.1 ?_
  rw [flags, ← same.2]
  exact denoted_rotation f carry overflow

lemma top_bit {w : ℕ} (x : BitVec w) (pos : 0 < w) (w_le : w ≤ 32) :
    x.setWidth 32 >>> (w - 1) = u32From x.msb := by
  apply BitVec.eq_of_getLsbD_eq
  intro i i_lt
  rw [BitVec.getLsbD_ushiftRight, BitVec.getLsbD_setWidth, BitVec.msb_eq_getLsbD_last]
  cases i with
  | zero =>
    rw [decide_eq_true (by omega), Bool.true_and, Nat.add_zero]
    cases x.getLsbD (w - 1) <;> simp [u32From]
  | succ i =>
    have beyond : x.getLsbD (w - 1 + (i + 1)) = false := BitVec.getLsbD_of_ge _ _ (by omega)
    rw [beyond, Bool.and_false]
    cases x.getLsbD (w - 1) <;> simp [u32From]

section Narrow

variable {w : ℕ} (narrow : w = 8 ∨ w = 16) (f : I386Flags) (val : BitVec w) (count : Byte)

include narrow

theorem rcl_denoted :
    (rcl f val count).denoted = Rotate.rcl^[masked count] (val, f.denoted) := by
  unfold masked rcl
  dsimp only
  generalize (count &&& 0x1F).toNat = n
  cases n with
  | zero => rfl
  | succ n =>
    have turned := rcl_eq (show w + 1 ≤ 32 by omega) (val, f.denoted)
      (wide_bits (by omega) val f (cfVal_getLsbD f)) (by omega) (n + 1)
      (v := BitVec.setWidth w _) (c := _)
      (fun j j_lt => by rw [BitVec.getLsbD_setWidth, decide_eq_true j_lt, Bool.true_and]) rfl
    rw [if_neg (Nat.succ_ne_zero n)]
    refine denoted_of_rotated f (Rotate.rcl_flags _ n) turned ?_ ?_
    · rw [shiftRight_and_one, u32From_ne]
      rfl
    · rw [top_bit _ (by omega) (by omega), shiftRight_and_one, u32From_xor,
        u32From_mul _ (by omega), ← turned.1, ← turned.2]
      rfl

end Narrow

lemma right_overflow {w : ℕ} (v : BitVec w) (w_ge : 2 ≤ w) :
    ((v ^^^ v <<< 1) &&& BitVec.twoPow w (w - 1) != 0) = (v.msb ^^ v.getLsbD (w - 2)) := by
  rw [masked_ne _ (by omega), BitVec.getLsbD_xor, BitVec.getLsbD_shiftLeft,
    BitVec.msb_eq_getLsbD_last, decide_eq_true (show w - 1 < w by omega),
    decide_eq_false (show ¬ w - 1 < 1 by omega)]
  rfl

lemma right_overflow_word (v : Word) :
    ((v.setWidth 32 ^^^ v.setWidth 32 <<< 1) &&& 0x8000 != 0) = (v.msb ^^ v.getLsbD (16 - 2)) := by
  refine (masked_ne (i := 15) (_ : Dword) (by decide)).trans ?_
  rw [BitVec.getLsbD_xor, BitVec.getLsbD_shiftLeft, BitVec.getLsbD_setWidth,
    BitVec.getLsbD_setWidth, BitVec.msb_eq_getLsbD_last]
  rfl

theorem aluRcrByte_denoted (f : I386Flags) (val count : Byte) :
    (aluRcrByte f val count).denoted = Rotate.rcr^[masked count] (val, f.denoted) := by
  unfold masked aluRcrByte
  dsimp only
  generalize (count &&& 0x1F).toNat = n
  cases n with
  | zero => rfl
  | succ n =>
    have turned := rcr_eq (show 8 + 1 ≤ 32 by decide) (val, f.denoted)
      (wide_bits (by decide) val f (cfVal_getLsbD f)) (by decide) (n + 1)
      (v := BitVec.setWidth 8 _) (c := _)
      (fun j j_lt => by rw [BitVec.getLsbD_setWidth, decide_eq_true j_lt, Bool.true_and]) rfl
    rw [if_neg (Nat.succ_ne_zero n)]
    refine denoted_of_rotated f (Rotate.rcr_flags _ n) turned ?_ ?_
    · rw [shiftRight_and_one, u32From_ne]
      rfl
    · rw [setWidth_ne _ (by decide), ← turned.1]
      exact right_overflow _ (by decide)

theorem aluRcrWord_denoted (f : I386Flags) (val : Word) (count : Byte) :
    (aluRcrWord f val count).denoted = Rotate.rcr^[masked count] (val, f.denoted) := by
  unfold masked aluRcrWord
  dsimp only
  generalize (count &&& 0x1F).toNat = n
  cases n with
  | zero => rfl
  | succ n =>
    have turned := rcr_eq (show 16 + 1 ≤ 32 by decide) (val, f.denoted)
      (wide_bits (by decide) val f (cfVal_getLsbD f)) (by decide) (n + 1)
      (v := BitVec.setWidth 16 _) (c := _)
      (fun j j_lt => by rw [BitVec.getLsbD_setWidth, decide_eq_true j_lt, Bool.true_and]) rfl
    rw [if_neg (Nat.succ_ne_zero n)]
    refine denoted_of_rotated f (Rotate.rcr_flags _ n) turned ?_ ?_
    · rw [shiftRight_and_one, u32From_ne]
      rfl
    · rw [← turned.1]
      exact right_overflow_word _

/-! ### Double words -/

section Wide

variable (f : I386Flags) (val : Dword) (count : Byte)

lemma left_overflow_dword (v : Dword) (c : Bool) :
    ((v >>> 31 ^^^ u32From c) &&& 1 != 0) = (v.msb ^^ c) := by
  rw [and_one_ne _ (by decide), BitVec.getLsbD_xor, BitVec.getLsbD_ushiftRight,
    BitVec.msb_eq_getLsbD_last]
  cases c <;> rfl

lemma right_overflow_dword (v : Dword) :
    ((v >>> 31 ^^^ (v >>> 30 &&& 1)) &&& 1 != 0) = (v.msb ^^ v.getLsbD (32 - 2)) := by
  rw [shiftRight_and_one, left_overflow_dword]

theorem aluRolDword_denoted :
    (aluRolDword f val count).denoted = Rotate.rol^[masked count] (val, f.denoted) := by
  unfold masked aluRolDword
  dsimp only
  generalize (count &&& 0x1F).toNat = n
  cases n with
  | zero => rfl
  | succ n =>
    rw [if_neg (Nat.succ_ne_zero n), Rotate.rol_iterate]
    refine Prod.ext rfl (denoted_rotation f (and_one_ne _ (by decide)) ?_)
    rw [and_one_eq (val.rotateLeft (n + 1)), left_overflow_dword]

theorem aluRorDword_denoted :
    (aluRorDword f val count).denoted = Rotate.ror^[masked count] (val, f.denoted) := by
  unfold masked aluRorDword
  dsimp only
  generalize (count &&& 0x1F).toNat = n
  cases n with
  | zero => rfl
  | succ n =>
    rw [if_neg (Nat.succ_ne_zero n), Rotate.ror_iterate]
    refine Prod.ext rfl (denoted_rotation f ?_ (right_overflow_dword _))
    rw [shiftRight_and_one, u32From_ne, BitVec.msb_eq_getLsbD_last]

lemma mask_bit (x : Qword) (i_lt : i < 33) :
    (x &&& ((1 <<< 33) - 1)).getLsbD i = x.getLsbD i := by
  rw [BitVec.getLsbD_and,
    show ((1 <<< 33) - 1 : Qword) = (BitVec.allOnes 33).setWidth 64 from rfl,
    BitVec.getLsbD_setWidth, BitVec.getLsbD_allOnes, decide_eq_true i_lt,
    decide_eq_true (show i < 64 by omega), Bool.true_and, Bool.and_true]

theorem aluRclDword_denoted :
    (aluRclDword f val count).denoted = Rotate.rcl^[masked count] (val, f.denoted) := by
  have small := masked_lt count
  unfold masked at *
  unfold aluRclDword
  dsimp only
  generalize (count &&& 0x1F).toNat = n at *
  cases n with
  | zero => rfl
  | succ n =>
    have turns_eq : turns 32 (n + 1) = n + 1 := by
      rw [turns, Nat.mod_eq_of_lt (by omega), if_neg (Nat.succ_ne_zero n)]
    have turned := rcl_eq (show 32 + 1 ≤ 64 by decide) (val, f.denoted)
      (wide_bits (by decide) val f (cfVal_wide_getLsbD f)) (by decide) (n + 1)
      (v := BitVec.setWidth 32 (_ &&& ((1 <<< 33) - 1))) (c := _)
      (fun j j_lt => by
        rw [BitVec.getLsbD_setWidth, decide_eq_true j_lt, Bool.true_and, mask_bit _ (by omega)]) rfl
    rw [turns_eq] at turned
    rw [if_neg (Nat.succ_ne_zero n)]
    refine denoted_of_rotated f (Rotate.rcl_flags _ n) turned ?_ ?_
    · rw [I386Flags.qword_bit, u32From_ne, mask_bit _ (by decide)]
    · rw [I386Flags.qword_bit, mask_bit _ (by decide), ← turned.1, ← turned.2]
      exact left_overflow_dword _ _

theorem aluRcrDword_denoted :
    (aluRcrDword f val count).denoted = Rotate.rcr^[masked count] (val, f.denoted) := by
  have small := masked_lt count
  unfold masked at *
  unfold aluRcrDword
  dsimp only
  generalize (count &&& 0x1F).toNat = n at *
  cases n with
  | zero => rfl
  | succ n =>
    have turns_eq : turns 32 (n + 1) = n + 1 := by
      rw [turns, Nat.mod_eq_of_lt (by omega), if_neg (Nat.succ_ne_zero n)]
    have turned := rcr_eq (show 32 + 1 ≤ 64 by decide) (val, f.denoted)
      (wide_bits (by decide) val f (cfVal_wide_getLsbD f)) (by decide) (n + 1)
      (v := BitVec.setWidth 32 (_ &&& ((1 <<< 33) - 1))) (c := _)
      (fun j j_lt => by
        rw [BitVec.getLsbD_setWidth, decide_eq_true j_lt, Bool.true_and, mask_bit _ (by omega)]) rfl
    rw [turns_eq] at turned
    rw [if_neg (Nat.succ_ne_zero n)]
    refine denoted_of_rotated f (Rotate.rcr_flags _ n) turned ?_ ?_
    · rw [I386Flags.qword_bit, u32From_ne]
    · rw [← turned.1]
      exact right_overflow_dword _

end Wide

/-! ### The operations by width -/

section Widths

variable (f : I386Flags)

def aluRol : (w : Width) → BitVec w.bits → Byte → Out w.bits
  | .byte => aluRolByte f
  | .word => aluRolWord f
  | .dword => aluRolDword f

def aluRor : (w : Width) → BitVec w.bits → Byte → Out w.bits
  | .byte => aluRorByte f
  | .word => aluRorWord f
  | .dword => aluRorDword f

def aluRcl : (w : Width) → BitVec w.bits → Byte → Out w.bits
  | .byte => aluRclByte f
  | .word => aluRclWord f
  | .dword => aluRclDword f

def aluRcr : (w : Width) → BitVec w.bits → Byte → Out w.bits
  | .byte => aluRcrByte f
  | .word => aluRcrWord f
  | .dword => aluRcrDword f

variable (w : Width) (val : BitVec w.bits) (count : Byte)

/-- **A rotation by a masked count is as many rotations by one bit.** -/
theorem aluRol_denoted :
    (aluRol f w val count).denoted = Rotate.rol^[masked count] (val, f.denoted) := by
  cases w with
  | byte => exact rol_denoted (.inl rfl) f val count
  | word => exact rol_denoted (.inr rfl) f val count
  | dword => exact aluRolDword_denoted f val count

theorem aluRor_denoted :
    (aluRor f w val count).denoted = Rotate.ror^[masked count] (val, f.denoted) := by
  cases w with
  | byte => exact ror_denoted (.inl rfl) f val count
  | word => exact ror_denoted (.inr rfl) f val count
  | dword => exact aluRorDword_denoted f val count

theorem aluRcl_denoted :
    (aluRcl f w val count).denoted = Rotate.rcl^[masked count] (val, f.denoted) := by
  cases w with
  | byte => exact rcl_denoted (.inl rfl) f val count
  | word => exact rcl_denoted (.inr rfl) f val count
  | dword => exact aluRclDword_denoted f val count

theorem aluRcr_denoted :
    (aluRcr f w val count).denoted = Rotate.rcr^[masked count] (val, f.denoted) := by
  cases w with
  | byte => exact aluRcrByte_denoted f val count
  | word => exact aluRcrWord_denoted f val count
  | dword => exact aluRcrDword_denoted f val count

end Widths

/-! ### The architecture -/

/-- What the arithmetic unit makes of any operands on top of some flags. -/
structure Architectural (f : I386Flags) : Prop where
  add : ∀ (w : Width) (dst src : BitVec w.bits),
    (aluAdd f w dst src).denoted = sum w.bits f.denoted dst src false
  adc : ∀ (w : Width) (dst src : BitVec w.bits) (carry : Bool),
    (aluAdc f w dst src (u32From carry)).denoted = sum w.bits f.denoted dst src carry
  sub : ∀ (w : Width) (dst src : BitVec w.bits),
    (aluSub f w dst src).denoted = difference w.bits f.denoted dst src false
  sbb : ∀ (w : Width) (dst src : BitVec w.bits) (borrow : Bool),
    (aluSbb f w dst src (u32From borrow)).denoted = difference w.bits f.denoted dst src borrow
  inc : ∀ (w : Width) (val : BitVec w.bits),
    (aluInc f w val).denoted = increment f.denoted w.bits val
  dec : ∀ (w : Width) (val : BitVec w.bits),
    (aluDec f w val).denoted = decrement f.denoted w.bits val
  neg : ∀ (w : Width) (val : BitVec w.bits),
    (aluNeg f w val).denoted = difference w.bits f.denoted 0 val false
  rol : ∀ (w : Width) (val : BitVec w.bits) (count : Byte),
    (aluRol f w val count).denoted = Rotate.rol^[masked count] (val, f.denoted)
  ror : ∀ (w : Width) (val : BitVec w.bits) (count : Byte),
    (aluRor f w val count).denoted = Rotate.ror^[masked count] (val, f.denoted)
  rcl : ∀ (w : Width) (val : BitVec w.bits) (count : Byte),
    (aluRcl f w val count).denoted = Rotate.rcl^[masked count] (val, f.denoted)
  rcr : ∀ (w : Width) (val : BitVec w.bits) (count : Byte),
    (aluRcr f w val count).denoted = Rotate.rcr^[masked count] (val, f.denoted)
  shl : ∀ (w : Width) (val : BitVec w.bits) (count : Byte), masked count ≤ w.bits →
    (aluShl f w val count).shift = Shift.shl^[masked count] (Out.shift (val, f))
  shr : ∀ (w : Width) (val : BitVec w.bits) (count : Byte), masked count ≤ w.bits →
    (aluShr f w val count).shift = Shift.shr^[masked count] (Out.shift (val, f))
  sar : ∀ (w : Width) (val : BitVec w.bits) (count : Byte), masked count ≤ w.bits →
    (aluSar f w val count).shift = Shift.sar^[masked count] (Out.shift (val, f))
  shld : ∀ (w : Wide) (dst src : BitVec w.bits) (count : Byte), masked count ≤ w.bits →
    (shld f w dst src count).double =
      (Double.shld^[masked count] (Double.start dst src f)).seen
  shrd : ∀ (w : Wide) (dst src : BitVec w.bits) (count : Byte), masked count ≤ w.bits →
    (shrd f w dst src count).double =
      (Double.shrd^[masked count] (Double.start dst src f)).seen
  expand : (I386Flags.expand f.compress).denoted = f.denoted

/-- **The arithmetic unit gives the results and flags of the architecture.** -/
theorem architectural (f : I386Flags) : Architectural f where
  add := aluAdd_denoted f
  adc := aluAdc_denoted f
  sub := aluSub_denoted f
  sbb := aluSbb_denoted f
  inc := aluInc_denoted f
  dec := aluDec_denoted f
  neg := aluNeg_denoted f
  rol := aluRol_denoted f
  ror := aluRor_denoted f
  rcl := aluRcl_denoted f
  rcr := aluRcr_denoted f
  shl := aluShl_shift f
  shr := aluShr_shift f
  sar := aluSar_shift f
  shld := shld_double f
  shrd := shrd_double f
  expand := f.expand_compress_denoted

/-- The flags of a reset: all clear. -/
def clearFlags : I386Flags := ⟨0, 1, 0, 0, 0, 1, false, false, false, 0, false⟩

/-- An increment that leaves the unsigned range keeps the carry flag clear, and a count of 32 moves
no bit of a double word. -/
theorem inc_keeps_carry :
    (sum 8 clearFlags.denoted (0xFF : Byte) 1 false).2.cf = true ∧
      (aluInc clearFlags .byte (0xFF : Byte)).denoted.2.cf = false ∧
      (Shift.shl^[32] (Out.shift ((1 : Dword), clearFlags))).value = 0 ∧
      (aluShl clearFlags .dword (1 : Dword) 32).1 = 1 := by
  refine ⟨by decide, by decide, ?_, by decide⟩
  rw [Shift.shl_iterate]
  decide

end Neetan.Alu
