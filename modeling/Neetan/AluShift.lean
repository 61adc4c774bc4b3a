import Neetan.AluArithmetic
import Mathlib.Logic.Function.Iterate

/-!
Shifts by a masked count against shifts by one bit, and double shifts against double shifts by
one bit.

The two operands of a double shift are one value of twice the width, which every step shifts by
one.
-/

namespace Neetan.Alu

/-- What a shift is compared by: the value, the bit that fell out last, and the flags that the
value tells. -/
structure Shift (w : ℕ) where
  value : BitVec w
  cf : Bool
  zf : Bool
  sf : Bool
  pf : Bool
  deriving DecidableEq

namespace Shift

variable {w : ℕ}

def result (value : BitVec w) (cf : Bool) : Shift w :=
  ⟨value, cf, value == 0, value.msb, evenOnes (value.setWidth 8)⟩

def shl (s : Shift w) : Shift w := result (s.value <<< 1) s.value.msb

def shr (s : Shift w) : Shift w := result (s.value >>> 1) (s.value.getLsbD 0)

def sar (s : Shift w) : Shift w := result (s.value.sshiftRight 1) (s.value.getLsbD 0)

variable (s : Shift w) (n : ℕ)

lemma shl_iterate : shl^[n + 1] s = result (s.value <<< (n + 1)) (s.value <<< n).msb := by
  induction n with
  | zero =>
    change result (s.value <<< 1) s.value.msb = _
    rw [BitVec.shiftLeft_zero]
  | succ n ih =>
    rw [Function.iterate_succ_apply', ih, shl]
    change result (s.value <<< (n + 1) <<< 1) (s.value <<< (n + 1)).msb = _
    rw [← BitVec.shiftLeft_add]

lemma shr_iterate : shr^[n + 1] s = result (s.value >>> (n + 1)) (s.value.getLsbD n) := by
  induction n with
  | zero => rfl
  | succ n ih =>
    rw [Function.iterate_succ_apply', ih, shr]
    change result (s.value >>> (n + 1) >>> 1) ((s.value >>> (n + 1)).getLsbD 0) = _
    rw [← BitVec.shiftRight_add, BitVec.getLsbD_ushiftRight, Nat.add_zero]

lemma sar_iterate :
    sar^[n + 1] s = result (s.value.sshiftRight (n + 1)) ((s.value.sshiftRight n).getLsbD 0) := by
  induction n with
  | zero =>
    change result (s.value.sshiftRight 1) (s.value.getLsbD 0) = _
    rw [BitVec.sshiftRight_zero]
  | succ n ih =>
    rw [Function.iterate_succ_apply', ih, sar]
    change result ((s.value.sshiftRight (n + 1)).sshiftRight 1)
      ((s.value.sshiftRight (n + 1)).getLsbD 0) = _
    rw [← BitVec.sshiftRight_add]

end Shift

def Out.shift {w : ℕ} (out : Out w) : Shift w := ⟨out.1, out.2.cf, out.2.zf, out.2.sf, out.2.pf⟩

/-- The count that is shifted by. -/
def masked (count : Byte) : ℕ := (count &&& 0x1F).toNat

/-! ### Single shifts -/

section Setters

variable {w : ℕ} (w_ge : 8 ≤ w) (w_le : w ≤ 32) (f : I386Flags)

include w_ge w_le

lemma shift_setSzpf (r : Dword) :
    Out.shift (r.setWidth w, f.setSzpf w r) = .result (r.setWidth w) f.cf := by
  have flags := f.denoted_setSzpf r w_ge w_le
  rw [I386Flags.denoted, Denoted.result, Denoted.mk.injEq] at flags
  obtain ⟨-, parity, -, zero, sign, -⟩ := flags
  unfold Out.shift Shift.result
  dsimp only
  rw [zero, sign, parity]
  rfl

lemma shift_setSzpf_self (r : BitVec w) :
    Out.shift (r, f.setSzpf w (r.setWidth 32)) = .result r f.cf := by
  have flags := shift_setSzpf w_ge w_le f (r.setWidth 32)
  rwa [BitVec.setWidth_setWidth_of_le r w_le, BitVec.setWidth_eq] at flags

end Setters

lemma shift_setSzpfDword (f : I386Flags) (r : Dword) :
    Out.shift (r, f.setSzpfDword r) = .result r f.cf := by
  have flags := f.denoted_setSzpfDword r
  rw [I386Flags.denoted, Denoted.result, Denoted.mk.injEq] at flags
  obtain ⟨-, parity, -, zero, sign, -⟩ := flags
  unfold Out.shift Shift.result
  dsimp only
  rw [zero, sign, parity]
  rfl

/-! ### Bits -/

section Bits

variable {w : ℕ} (w_le : w ≤ 32) (val : BitVec w) (n : ℕ)

include w_le

lemma zeroExtend_shiftLeft : (val.setWidth 32 <<< n).setWidth w = val <<< n := by
  apply BitVec.eq_of_getLsbD_eq
  intro i i_lt
  rw [BitVec.getLsbD_setWidth, BitVec.getLsbD_shiftLeft, BitVec.getLsbD_shiftLeft,
    BitVec.getLsbD_setWidth, decide_eq_true i_lt, decide_eq_true (show i < 32 by omega),
    decide_eq_true (show i - n < 32 by omega), Bool.true_and, Bool.true_and, Bool.true_and]

lemma zeroExtend_shiftLeft_last (pos : 0 < w) :
    (val.setWidth 32 <<< n).getLsbD (w - 1) = (val <<< n).msb := by
  rw [BitVec.msb_eq_getLsbD_last, ← zeroExtend_shiftLeft w_le, BitVec.getLsbD_setWidth,
    decide_eq_true (by omega), Bool.true_and]

end Bits

lemma ushiftRight_last_ne {n : ℕ} (val : BitVec (n + 1)) : (val >>> n != 0) = val.getLsbD n := by
  have last : val >>> n &&& 1 = val >>> n := by
    apply BitVec.eq_of_getLsbD_eq
    intro i i_lt
    rw [BitVec.getLsbD_and, BitVec.getLsbD_ushiftRight]
    cases i with
    | zero => simp
    | succ i => simp
  rw [← last, and_one_ne _ (Nat.succ_pos n), BitVec.getLsbD_ushiftRight, Nat.add_zero]

lemma sshiftRight_last {w : ℕ} (val : BitVec w) :
    val.sshiftRight w = val.sshiftRight (w - 1) := by
  apply BitVec.eq_of_getLsbD_eq
  intro i i_lt
  rw [BitVec.getLsbD_sshiftRight, BitVec.getLsbD_sshiftRight, if_neg (by omega)]
  split
  · rw [show w - 1 + i = w - 1 by omega, BitVec.msb_eq_getLsbD_last]
  · rfl

lemma and_one_msb {w : ℕ} (x : BitVec w) (w_gt : 1 < w) : (x &&& 1).msb = false := by
  rw [BitVec.msb_and]
  have one : (1 : BitVec w).msb = false := by
    simp [BitVec.msb_eq_getLsbD_last]
    omega
  rw [one, Bool.and_false]

lemma u32From_mul (b : Bool) {k : ℕ} (k_lt : k < 32) :
    (u32From b * BitVec.twoPow 32 k != 0) = b := by
  cases b with
  | false => simp [u32From]
  | true =>
    have ones := masked_ne (BitVec.allOnes 32) k_lt
    rw [BitVec.allOnes_and, BitVec.getLsbD_allOnes, decide_eq_true k_lt] at ones
    rw [u32From, if_pos rfl]
    exact (congrArg (· != 0) (BitVec.one_mul _)).trans ones

lemma and_one_eq (x : Dword) : x &&& 1 = u32From (x.getLsbD 0) := by
  apply BitVec.eq_of_getLsbD_eq
  intro i i_lt
  rw [BitVec.getLsbD_and]
  cases i with
  | zero => cases x.getLsbD 0 <;> simp [u32From]
  | succ i => cases x.getLsbD 0 <;> simp [u32From]

lemma shiftRight_and_one (x : Dword) (k : ℕ) : x >>> k &&& 1 = u32From (x.getLsbD k) := by
  rw [and_one_eq, BitVec.getLsbD_ushiftRight, Nat.add_zero]

lemma u32From_xor (b c : Bool) : u32From b ^^^ u32From c = u32From (b ^^ c) := by
  cases b <;> cases c <;> rfl

section Narrow

variable {w : ℕ} (narrow : w = 8 ∨ w = 16) (f : I386Flags) (val : BitVec w) (count : Byte)
  (count_le : masked count ≤ w)

include narrow count_le

lemma shl_shift :
    (shl f val count).shift = Shift.shl^[masked count] (Out.shift (val, f)) := by
  unfold masked at *
  unfold shl
  dsimp only
  generalize (count &&& 0x1F).toNat = n at *
  cases n with
  | zero => rfl
  | succ n =>
    rw [if_neg (Nat.succ_ne_zero n), Shift.shl_iterate]
    refine (shift_setSzpf (by omega) (by omega) _ _).trans ?_
    congr 1
    · split
      · exact zeroExtend_shiftLeft (by omega) val _
      · exact (BitVec.setWidth_zero w 32).trans
          (BitVec.shiftLeft_eq_zero (show w ≤ n + 1 by omega)).symm
    · change (ite _ _ _ != (0 : Dword)) = _
      rw [if_pos count_le, masked_ne _ (show w - 1 < 32 by omega), Nat.add_sub_cancel,
        zeroExtend_shiftLeft_last (w := w) (by omega) val n (by omega)]
      rfl

lemma shr_shift :
    (shr f val count).shift = Shift.shr^[masked count] (Out.shift (val, f)) := by
  unfold masked at *
  unfold shr
  dsimp only
  generalize (count &&& 0x1F).toNat = n at *
  cases n with
  | zero => rfl
  | succ n =>
    rw [if_neg (Nat.succ_ne_zero n), Shift.shr_iterate]
    refine (shift_setSzpf_self (by omega) (by omega) _ _).trans ?_
    congr 1
    · split
      · rfl
      · exact (BitVec.ushiftRight_eq_zero (by omega)).symm
    · change (ite _ _ _ != (0 : Dword)) = _
      split
      · rw [setWidth_ne _ (by omega), and_one_ne _ (by omega), Nat.add_sub_cancel,
          BitVec.getLsbD_ushiftRight, Nat.add_zero]
        rfl
      · obtain rfl : w = n + 1 := by omega
        rw [if_pos (.inl rfl), setWidth_ne _ (by omega), Nat.add_sub_cancel]
        change (val >>> n != 0) = val.getLsbD n
        rw [← ushiftRight_last_ne]

lemma sar_shift :
    (sar f val count).shift = Shift.sar^[masked count] (Out.shift (val, f)) := by
  unfold masked at *
  unfold sar
  dsimp only
  generalize (count &&& 0x1F).toNat = n at *
  cases n with
  | zero => rfl
  | succ n =>
    rw [if_neg (Nat.succ_ne_zero n), Shift.sar_iterate]
    refine (shift_setSzpf_self (by omega) (by omega) _ _).trans ?_
    congr 1
    · split
      · rfl
      · rw [show n + 1 = w by omega]
        exact (sshiftRight_last val).symm
    · change (ite _ _ _ != (0 : Dword)) = (val.sshiftRight n).getLsbD 0
      split
      · rw [BitVec.signExtend_eq_setWidth_of_msb_false (and_one_msb _ (by omega)),
          setWidth_ne _ (by omega), and_one_ne _ (by omega), Nat.add_sub_cancel]
      · rw [show n = w - 1 by omega, BitVec.getLsbD_sshiftRight, I386Flags.slt_zero]
        rw [decide_eq_false (by omega), Bool.not_false, Bool.true_and,
          if_pos (show w - 1 + 0 < w by omega), Nat.add_zero, ← BitVec.msb_eq_getLsbD_last]
        cases val.msb <;> rfl

end Narrow

section Wide

variable (f : I386Flags) (val : Dword) (count : Byte)

lemma masked_lt : masked count < 32 := by
  rw [masked, BitVec.toNat_and]
  exact Nat.lt_of_le_of_lt Nat.and_le_right (by decide)

lemma aluShlDword_shift :
    (aluShlDword f val count).shift = Shift.shl^[masked count] (Out.shift (val, f)) := by
  have small := masked_lt count
  unfold masked at *
  unfold aluShlDword
  dsimp only
  generalize (count &&& 0x1F).toNat = n at *
  cases n with
  | zero => rfl
  | succ n =>
    rw [if_neg (Nat.succ_ne_zero n), Shift.shl_iterate]
    refine (shift_setSzpfDword _ _).trans ?_
    congr 1
    change (val >>> (32 - (n + 1)) &&& 1 != 0) = (val <<< n).msb
    rw [shiftRight_and_one, u32From_ne, BitVec.msb_eq_getLsbD_last, BitVec.getLsbD_shiftLeft,
      decide_eq_false (show ¬ 32 - 1 < n by omega), show 32 - 1 - n = 32 - (n + 1) by omega]
    rfl

lemma aluShrDword_shift :
    (aluShrDword f val count).shift = Shift.shr^[masked count] (Out.shift (val, f)) := by
  unfold masked at *
  unfold aluShrDword
  dsimp only
  generalize (count &&& 0x1F).toNat = n at *
  cases n with
  | zero => rfl
  | succ n =>
    rw [if_neg (Nat.succ_ne_zero n), Shift.shr_iterate]
    refine (shift_setSzpfDword _ _).trans ?_
    congr 1
    change (val >>> n &&& 1 != 0) = val.getLsbD n
    rw [shiftRight_and_one, u32From_ne]

lemma aluSarDword_shift :
    (aluSarDword f val count).shift = Shift.sar^[masked count] (Out.shift (val, f)) := by
  unfold masked at *
  unfold aluSarDword
  dsimp only
  generalize (count &&& 0x1F).toNat = n at *
  cases n with
  | zero => rfl
  | succ n =>
    rw [if_neg (Nat.succ_ne_zero n), Shift.sar_iterate]
    refine (shift_setSzpfDword _ _).trans ?_
    congr 1
    exact and_one_ne _ (by decide)

end Wide

/-! ### The operations by width -/

section Widths

variable (f : I386Flags)

def aluShl : (w : Width) → BitVec w.bits → Byte → Out w.bits
  | .byte => aluShlByte f
  | .word => aluShlWord f
  | .dword => aluShlDword f

def aluShr : (w : Width) → BitVec w.bits → Byte → Out w.bits
  | .byte => aluShrByte f
  | .word => aluShrWord f
  | .dword => aluShrDword f

def aluSar : (w : Width) → BitVec w.bits → Byte → Out w.bits
  | .byte => aluSarByte f
  | .word => aluSarWord f
  | .dword => aluSarDword f

variable (w : Width) (val : BitVec w.bits) (count : Byte) (count_le : masked count ≤ w.bits)

include count_le

/-- **A shift by a masked count is as many shifts by one bit.** -/
theorem aluShl_shift :
    (aluShl f w val count).shift = Shift.shl^[masked count] (Out.shift (val, f)) := by
  cases w with
  | byte => exact shl_shift (.inl rfl) f val count count_le
  | word => exact shl_shift (.inr rfl) f val count count_le
  | dword => exact aluShlDword_shift f val count

theorem aluShr_shift :
    (aluShr f w val count).shift = Shift.shr^[masked count] (Out.shift (val, f)) := by
  cases w with
  | byte => exact shr_shift (.inl rfl) f val count count_le
  | word => exact shr_shift (.inr rfl) f val count count_le
  | dword => exact aluShrDword_shift f val count

theorem aluSar_shift :
    (aluSar f w val count).shift = Shift.sar^[masked count] (Out.shift (val, f)) := by
  cases w with
  | byte => exact sar_shift (.inl rfl) f val count count_le
  | word => exact sar_shift (.inr rfl) f val count count_le
  | dword => exact aluSarDword_shift f val count

end Widths

/-! ### Double shifts -/

/-- A double shift in progress: the destination with its flags, and what is left of the source. -/
structure Double (w : ℕ) where
  shift : Shift w
  of : Bool
  src : BitVec w

namespace Double

variable {w : ℕ}

def shld (d : Double w) : Double w :=
  let value := d.shift.value <<< 1 ||| (BitVec.ofBool d.src.msb).setWidth w
  ⟨.result value d.shift.value.msb, value.msb ^^ d.shift.value.msb, d.src <<< 1⟩

def shrd (d : Double w) : Double w :=
  let value := d.shift.value >>> 1 ||| (BitVec.ofBool (d.src.getLsbD 0)).setWidth w <<< (w - 1)
  ⟨.result value (d.shift.value.getLsbD 0), value.msb ^^ d.shift.value.msb, d.src >>> 1⟩

lemma shld_value (d : Double w) : d.shld.shift.value =
    d.shift.value <<< 1 ||| (BitVec.ofBool d.src.msb).setWidth w :=
  rfl

lemma shrd_value (d : Double w) : d.shrd.shift.value =
    d.shift.value >>> 1 ||| (BitVec.ofBool (d.src.getLsbD 0)).setWidth w <<< (w - 1) :=
  rfl

/-- What a program sees of it. -/
def seen (d : Double w) : Shift w × Bool := (d.shift, d.of)

def start (dst src : BitVec w) (f : I386Flags) : Double w := ⟨Out.shift (dst, f), f.of, src⟩

/-- The bits of the destination after a number of steps to the left. -/
def leftBit (dst src : BitVec w) (n i : ℕ) : Bool :=
  if i < n then src.getLsbD (w + i - n) else dst.getLsbD (i - n)

/-- The bits of the destination after a number of steps to the right. -/
def rightBit (dst src : BitVec w) (n i : ℕ) : Bool :=
  if i + n < w then dst.getLsbD (i + n) else src.getLsbD (i + n - w)

variable {i : ℕ}

lemma ofBool_getLsbD (b : Bool) (i_lt : i < w) :
    ((BitVec.ofBool b).setWidth w).getLsbD i = (decide (i = 0) && b) := by
  rw [BitVec.getLsbD_setWidth, BitVec.getLsbD_ofBool, decide_eq_true i_lt, Bool.true_and]

variable (dst src : BitVec w) (f : I386Flags) {n : ℕ}

lemma shld_src (n : ℕ) : (shld^[n] (start dst src f)).src = src <<< n := by
  induction n with
  | zero => exact (BitVec.shiftLeft_zero src).symm
  | succ n ih =>
    rw [Function.iterate_succ_apply', BitVec.shiftLeft_add, ← ih]
    rfl

lemma shld_bit (n_le : n ≤ w) (i_lt : i < w) :
    (shld^[n] (start dst src f)).shift.value.getLsbD i = leftBit dst src n i := by
  induction n generalizing i with
  | zero => rfl
  | succ n ih =>
    rw [Function.iterate_succ_apply', shld_value, BitVec.getLsbD_or, BitVec.getLsbD_shiftLeft,
      ofBool_getLsbD _ i_lt, shld_src,
      decide_eq_true i_lt, Bool.true_and, BitVec.msb_eq_getLsbD_last, BitVec.getLsbD_shiftLeft]
    unfold leftBit
    cases i with
    | zero =>
      simp [show w - 1 < w by omega, show ¬ w - 1 < n by omega,
        show w - 1 - n = w - (n + 1) by omega]
    | succ i =>
      rw [ih (by omega) (by omega), leftBit]
      simp [show w + (i + 1) - (n + 1) = w + i - n by omega]

lemma shld_last (n_lt : n < w) : (shld^[n + 1] (start dst src f)).seen =
    (.result (shld^[n + 1] (start dst src f)).shift.value (leftBit dst src n (w - 1)),
      (shld^[n + 1] (start dst src f)).shift.value.msb ^^ leftBit dst src n (w - 1)) := by
  rw [← shld_bit dst src f (by omega) (by omega), ← BitVec.msb_eq_getLsbD_last,
    Function.iterate_succ_apply']
  rfl

lemma shrd_src (n : ℕ) : (shrd^[n] (start dst src f)).src = src >>> n := by
  induction n with
  | zero => exact (BitVec.ushiftRight_zero src).symm
  | succ n ih =>
    rw [Function.iterate_succ_apply', BitVec.shiftRight_add, ← ih]
    rfl

lemma shrd_bit (n_le : n ≤ w) (i_lt : i < w) :
    (shrd^[n] (start dst src f)).shift.value.getLsbD i = rightBit dst src n i := by
  induction n generalizing i with
  | zero =>
    rw [rightBit, if_pos (by omega)]
    rfl
  | succ n ih =>
    rw [Function.iterate_succ_apply', shrd_value, BitVec.getLsbD_or, BitVec.getLsbD_ushiftRight,
      BitVec.getLsbD_shiftLeft, shrd_src, decide_eq_true i_lt, Bool.true_and,
      BitVec.getLsbD_ushiftRight, Nat.add_zero]
    by_cases last : i = w - 1
    · have beyond : (shrd^[n] (start dst src f)).shift.value.getLsbD (1 + i) = false :=
        BitVec.getLsbD_of_ge _ _ (by omega)
      rw [beyond, ofBool_getLsbD _ (by omega), rightBit, if_neg (by omega)]
      simp [last, show w - 1 + (n + 1) - w = n by omega]
    · rw [ih (by omega) (by omega), decide_eq_true (show i < w - 1 by omega)]
      unfold rightBit
      simp [show 1 + i + n = i + (n + 1) by omega]

lemma shrd_last (n_lt : n < w) : (shrd^[n + 1] (start dst src f)).seen =
    (.result (shrd^[n + 1] (start dst src f)).shift.value (dst.getLsbD n),
      (shrd^[n + 1] (start dst src f)).shift.value.msb ^^ rightBit dst src n (w - 1)) := by
  have low : dst.getLsbD n = rightBit dst src n 0 := by
    rw [rightBit, if_pos (by omega), Nat.zero_add]
  rw [low, ← shrd_bit dst src f (by omega) (by omega), ← shrd_bit dst src f (by omega) (by omega),
    ← BitVec.msb_eq_getLsbD_last, Function.iterate_succ_apply']
  rfl

end Double

def Out.double {w : ℕ} (out : Out w) : Shift w × Bool := (out.shift, out.2.of)

/-! ### Double words -/

section Wide

variable (f : I386Flags) (dst src : Dword) (count : Byte)

/-- The flags of a double shift, by the result and the bits that make carry and overflow. -/
lemma double_setSzpfDword (g : I386Flags) (r : Dword) {c o : Bool}
    (carry : g.carryVal = u32From c) (overflow : (g.overflowVal != 0) = o) :
    Out.double (r, g.setSzpfDword r) = (.result r c, o) := by
  unfold Out.double
  rw [shift_setSzpfDword]
  have cf : g.cf = c := (congrArg (· != 0) carry).trans (u32From_ne c)
  rw [cf, ← overflow]
  rfl

lemma shldDword_bit {n : ℕ} (n_lt : n < 32) (i_lt : i < 32) :
    (dst <<< n ||| src >>> (32 - n)).getLsbD i = Double.leftBit dst src n i := by
  rw [BitVec.getLsbD_or, BitVec.getLsbD_shiftLeft, BitVec.getLsbD_ushiftRight,
    decide_eq_true i_lt, Bool.true_and, Double.leftBit]
  by_cases low : i < n
  · simp [low, show 32 - n + i = 32 + i - n by omega]
  · have beyond : src.getLsbD (32 - n + i) = false := BitVec.getLsbD_of_ge _ _ (by omega)
    rw [beyond]
    simp [low]

theorem shldDword_double : (shldDword f dst src count).double =
    (Double.shld^[masked count] (Double.start dst src f)).seen := by
  have small := masked_lt count
  unfold masked at *
  unfold shldDword
  dsimp only
  generalize (count &&& 0x1F).toNat = n at *
  cases n with
  | zero => rfl
  | succ n =>
    have value : (Double.shld^[n + 1] (Double.start dst src f)).shift.value =
        dst <<< (n + 1) ||| src >>> (32 - (n + 1)) := by
      apply BitVec.eq_of_getLsbD_eq
      intro i i_lt
      rw [Double.shld_bit dst src f (by omega) i_lt, shldDword_bit dst src small i_lt]
    have last : dst.getLsbD (32 - (n + 1)) = Double.leftBit dst src n (32 - 1) := by
      rw [Double.leftBit, if_neg (by omega), show 32 - 1 - n = 32 - (n + 1) by omega]
    rw [if_neg (Nat.succ_ne_zero n), Double.shld_last dst src f (by omega), value, ← last]
    refine double_setSzpfDword _ _ (shiftRight_and_one _ _) ?_
    dsimp only
    rw [shiftRight_and_one, shiftRight_and_one, u32From_xor, u32From_ne,
      BitVec.msb_eq_getLsbD_last]

lemma shrdDword_bit {n : ℕ} (n_lt : n < 32) (i_lt : i < 32) :
    (dst >>> n ||| src <<< (32 - n)).getLsbD i = Double.rightBit dst src n i := by
  rw [BitVec.getLsbD_or, BitVec.getLsbD_shiftLeft, BitVec.getLsbD_ushiftRight,
    decide_eq_true i_lt, Bool.true_and, Double.rightBit]
  by_cases low : i + n < 32
  · simp [low, show n + i = i + n by omega, show i < 32 - n by omega]
  · have beyond : dst.getLsbD (n + i) = false := BitVec.getLsbD_of_ge _ _ (by omega)
    rw [beyond]
    simp [low, show ¬ i < 32 - n by omega, show i - (32 - n) = i + n - 32 by omega]

theorem shrdDword_double : (shrdDword f dst src count).double =
    (Double.shrd^[masked count] (Double.start dst src f)).seen := by
  have small := masked_lt count
  unfold masked at *
  unfold shrdDword
  dsimp only
  generalize (count &&& 0x1F).toNat = n at *
  cases n with
  | zero => rfl
  | succ n =>
    have value : (Double.shrd^[n + 1] (Double.start dst src f)).shift.value =
        dst >>> (n + 1) ||| src <<< (32 - (n + 1)) := by
      apply BitVec.eq_of_getLsbD_eq
      intro i i_lt
      rw [Double.shrd_bit dst src f (by omega) i_lt, shrdDword_bit dst src small i_lt]
    have next : (dst >>> (n + 1) ||| src <<< (32 - (n + 1))).getLsbD 30 =
        Double.rightBit dst src n (32 - 1) := by
      rw [shrdDword_bit dst src small (by decide)]
      unfold Double.rightBit
      rw [show 30 + (n + 1) = 32 - 1 + n by omega]
    rw [if_neg (Nat.succ_ne_zero n), Double.shrd_last dst src f (by omega), value, ← next]
    refine double_setSzpfDword _ _ (shiftRight_and_one _ _) ?_
    dsimp only
    rw [and_one_ne _ (by decide), BitVec.getLsbD_xor, BitVec.getLsbD_ushiftRight,
      BitVec.getLsbD_ushiftRight, BitVec.msb_eq_getLsbD_last]

end Wide

/-! ### Words -/

section Narrow

variable (f : I386Flags) (dst src : Word) (count : Byte)

lemma double_setSzpfWord (g : I386Flags) (r : Dword) {c o : Bool}
    (carry : g.carryVal = u32From c) (overflow : (g.overflowVal != 0) = o) :
    Out.double (r.setWidth 16, g.setSzpfWord r) = (.result (r.setWidth 16) c, o) := by
  unfold Out.double I386Flags.setSzpfWord
  rw [shift_setSzpf (by decide) (by decide)]
  have cf : g.cf = c := (congrArg (· != 0) carry).trans (u32From_ne c)
  rw [cf, ← overflow]
  rfl

lemma low_word (x : Dword) (i_lt : i < 16) : (x &&& 0xFFFF).getLsbD i = x.getLsbD i := by
  rw [BitVec.getLsbD_and, show (0xFFFF : Dword) = (BitVec.allOnes 16).setWidth 32 from rfl,
    BitVec.getLsbD_setWidth, BitVec.getLsbD_allOnes, decide_eq_true i_lt,
    decide_eq_true (show i < 32 by omega), Bool.true_and, Bool.and_true]

/-- The 32 bits of a shift to the left. -/
def leftWord (dst src : Word) (n : ℕ) : Dword :=
  (if n < 16 then (dst.setWidth 32 <<< 16 ||| src.setWidth 32) <<< n >>> 16
    else src.setWidth 32 <<< (n - 16) ||| src.setWidth 32 >>> (32 - n)) &&& 0xFFFF

lemma leftWord_bit {n : ℕ} (n_le : n ≤ 16) (i_lt : i < 16) :
    (leftWord dst src n).getLsbD i = Double.leftBit dst src n i := by
  rw [leftWord, low_word _ i_lt]
  unfold Double.leftBit
  by_cases full : n < 16
  · rw [if_pos full, BitVec.getLsbD_ushiftRight, BitVec.getLsbD_shiftLeft, BitVec.getLsbD_or,
      BitVec.getLsbD_shiftLeft, BitVec.getLsbD_setWidth, BitVec.getLsbD_setWidth]
    by_cases low : i < n
    · have beyond : 16 + i - n < 16 := by omega
      simp [low, beyond, show 16 + i < 32 by omega, show ¬ 16 + i < n by omega,
        show 16 + i - n < 32 by omega]
    · have beyond : src.getLsbD (16 + i - n) = false := BitVec.getLsbD_of_ge _ _ (by omega)
      rw [beyond]
      simp [low, show 16 + i < 32 by omega, show ¬ 16 + i < n by omega,
        show 16 + i - n < 32 by omega, show ¬ 16 + i - n < 16 by omega,
        show 16 + i - n - 16 = i - n by omega, show i - n < 32 by omega]
  · obtain rfl : n = 16 := by omega
    simp [i_lt, show i < 32 by omega]

lemma leftWord_carry {n : ℕ} (n_lt : n < 16) :
    (if n + 1 < 16 then dst.setWidth 32 >>> (16 - (n + 1)) &&& 1
      else if n + 1 = 16 then dst.setWidth 32 &&& 1
      else src.setWidth 32 >>> (32 - (n + 1)) &&& 1) =
    u32From (Double.leftBit dst src n (16 - 1)) := by
  have last : Double.leftBit dst src n (16 - 1) = dst.getLsbD (16 - (n + 1)) := by
    rw [Double.leftBit, if_neg (by omega), show 16 - 1 - n = 16 - (n + 1) by omega]
  rw [last]
  split
  · rw [shiftRight_and_one, BitVec.getLsbD_setWidth, decide_eq_true (by omega), Bool.true_and]
  · rw [if_pos (by omega), and_one_eq, BitVec.getLsbD_setWidth, decide_eq_true (by omega),
      Bool.true_and, show 16 - (n + 1) = 0 by omega]

theorem shldWord_double (count_le : masked count ≤ 16) : (shldWord f dst src count).double =
    (Double.shld^[masked count] (Double.start dst src f)).seen := by
  unfold masked at *
  unfold shldWord
  dsimp only
  generalize (count &&& 0x1F).toNat = n at *
  cases n with
  | zero => rfl
  | succ n =>
    have bit (i : ℕ) (i_lt : i < 16) := leftWord_bit dst src count_le i_lt
    have value : (Double.shld^[n + 1] (Double.start dst src f)).shift.value =
        (leftWord dst src (n + 1)).setWidth 16 := by
      apply BitVec.eq_of_getLsbD_eq
      intro i i_lt
      rw [Double.shld_bit dst src f count_le i_lt, BitVec.getLsbD_setWidth, bit i i_lt,
        decide_eq_true i_lt, Bool.true_and]
    have top : (leftWord dst src (n + 1)).getLsbD 15 =
        ((leftWord dst src (n + 1)).setWidth 16).msb := by
      rw [BitVec.msb_eq_getLsbD_last, BitVec.getLsbD_setWidth]
      rfl
    rw [if_neg (Nat.succ_ne_zero n), leftWord_carry dst src (by omega),
      Double.shld_last dst src f (by omega), value]
    refine double_setSzpfWord _ _ rfl ?_
    change ((leftWord dst src (n + 1) >>> 15 &&& 1) ^^^ u32From _ != 0) = _
    rw [shiftRight_and_one, u32From_xor, u32From_ne, top]

/-- The 32 bits of a shift to the right. -/
def rightWord (dst src : Word) (n : ℕ) : Dword :=
  (if n < 16 then dst.setWidth 32 >>> n ||| src.setWidth 32 <<< (16 - n)
    else src.setWidth 32 >>> (n - 16) ||| src.setWidth 32 <<< (32 - n)) &&& 0xFFFF

lemma rightWord_bit {n : ℕ} (n_le : n ≤ 16) (i_lt : i < 16) :
    (rightWord dst src n).getLsbD i = Double.rightBit dst src n i := by
  rw [rightWord, low_word _ i_lt]
  unfold Double.rightBit
  by_cases full : n < 16
  · rw [if_pos full, BitVec.getLsbD_or, BitVec.getLsbD_ushiftRight, BitVec.getLsbD_shiftLeft,
      BitVec.getLsbD_setWidth, BitVec.getLsbD_setWidth]
    by_cases low : i + n < 16
    · simp [low, show n + i = i + n by omega, show i + n < 32 by omega, show i < 16 - n by omega]
    · have beyond : dst.getLsbD (n + i) = false := BitVec.getLsbD_of_ge _ _ (by omega)
      rw [beyond]
      simp [low, show i < 32 by omega, show ¬ i < 16 - n by omega,
        show i - (16 - n) = i + n - 16 by omega, show i + n - 16 < 32 by omega]
  · obtain rfl : n = 16 := by omega
    simp [i_lt, show i < 32 by omega]

lemma rightWord_carry {n : ℕ} (n_lt : n < 16) :
    (if n + 1 ≤ 16 then
        if n + 1 = 16 then dst.setWidth 32 >>> 15 &&& 1 else dst.setWidth 32 >>> n &&& 1
      else src.setWidth 32 >>> (n + 1 - 17) &&& 1) = u32From (dst.getLsbD n) := by
  have here (k : ℕ) (k_lt : k < 16) : dst.setWidth 32 >>> k &&& 1 = u32From (dst.getLsbD k) := by
    rw [shiftRight_and_one, BitVec.getLsbD_setWidth, decide_eq_true (by omega), Bool.true_and]
  rw [if_pos (by omega)]
  split
  · rw [here 15 (by decide), show n = 15 by omega]
  · exact here n n_lt

theorem shrdWord_double (count_le : masked count ≤ 16) : (shrdWord f dst src count).double =
    (Double.shrd^[masked count] (Double.start dst src f)).seen := by
  unfold masked at *
  unfold shrdWord
  dsimp only
  generalize (count &&& 0x1F).toNat = n at *
  cases n with
  | zero => rfl
  | succ n =>
    have bit (i : ℕ) (i_lt : i < 16) := rightWord_bit dst src count_le i_lt
    have value : (Double.shrd^[n + 1] (Double.start dst src f)).shift.value =
        (rightWord dst src (n + 1)).setWidth 16 := by
      apply BitVec.eq_of_getLsbD_eq
      intro i i_lt
      rw [Double.shrd_bit dst src f count_le i_lt, BitVec.getLsbD_setWidth, bit i i_lt,
        decide_eq_true i_lt, Bool.true_and]
    have top : (rightWord dst src (n + 1)).getLsbD 15 =
        ((rightWord dst src (n + 1)).setWidth 16).msb := by
      rw [BitVec.msb_eq_getLsbD_last, BitVec.getLsbD_setWidth]
      rfl
    have next : (rightWord dst src (n + 1)).getLsbD 14 = Double.rightBit dst src n (16 - 1) := by
      rw [bit 14 (by decide)]
      unfold Double.rightBit
      rw [show 14 + (n + 1) = 16 - 1 + n by omega]
    rw [if_neg (Nat.succ_ne_zero n), Nat.add_sub_cancel, rightWord_carry dst src (by omega),
      Double.shrd_last dst src f (by omega), value, ← next]
    refine double_setSzpfWord _ _ rfl ?_
    change ((rightWord dst src (n + 1) >>> 15 ^^^ rightWord dst src (n + 1) >>> 14) &&& 1 != 0) = _
    rw [and_one_ne _ (by decide), BitVec.getLsbD_xor, BitVec.getLsbD_ushiftRight,
      BitVec.getLsbD_ushiftRight, ← top]

end Narrow

/-! ### Both widths -/

section Widths

/-- The widths of double shifts. -/
inductive Wide
  | word
  | dword
  deriving DecidableEq, Repr

def Wide.bits : Wide → ℕ
  | word => 16
  | dword => 32

variable (f : I386Flags)

def shld : (w : Wide) → BitVec w.bits → BitVec w.bits → Byte → Out w.bits
  | .word => shldWord f
  | .dword => shldDword f

def shrd : (w : Wide) → BitVec w.bits → BitVec w.bits → Byte → Out w.bits
  | .word => shrdWord f
  | .dword => shrdDword f

variable (w : Wide) (dst src : BitVec w.bits) (count : Byte) (count_le : masked count ≤ w.bits)

include count_le

theorem shld_double : (shld f w dst src count).double =
    (Double.shld^[masked count] (Double.start dst src f)).seen := by
  cases w with
  | word => exact shldWord_double f dst src count count_le
  | dword => exact shldDword_double f dst src count

theorem shrd_double : (shrd f w dst src count).double =
    (Double.shrd^[masked count] (Double.start dst src f)).seen := by
  cases w with
  | word => exact shrdWord_double f dst src count count_le
  | dword => exact shrdDword_double f dst src count

end Widths

end Neetan.Alu
