import Neetan.Alu
import Mathlib.Algebra.Ring.Int.Defs

/-!
Sums and differences of every width against the integers.

The result is the exact one modulo `2 ^ w`, carry and overflow say whether it left the unsigned
and the signed range, and the auxiliary flag whether the low digit did.
-/

namespace Neetan.Alu

/-- The widths of an operand. -/
inductive Width
  | byte
  | word
  | dword
  deriving DecidableEq, Repr

namespace Width

def bits : Width → ℕ
  | byte => 8
  | word => 16
  | dword => 32

end Width

/-- What the architecture makes of an exact result: its unsigned and signed value and the one of
the low digits. -/
def exact (w : ℕ) (d : Denoted) (unsigned signed digit : ℤ) : BitVec w × Denoted :=
  let r := BitVec.ofInt w unsigned
  (r, { d.result r with
    cf := unsigned < 0 ∨ 2 ^ w ≤ unsigned
    of := signed < -2 ^ (w - 1) ∨ 2 ^ (w - 1) ≤ signed
    af := digit < 0 ∨ 16 ≤ digit })

def sum (w : ℕ) (d : Denoted) (dst src : BitVec w) (carry : Bool) : BitVec w × Denoted :=
  exact w d (dst.toNat + src.toNat + carry.toNat) (dst.toInt + src.toInt + carry.toNat)
    (dst.toNat % 16 + src.toNat % 16 + carry.toNat)

def difference (w : ℕ) (d : Denoted) (dst src : BitVec w) (borrow : Bool) : BitVec w × Denoted :=
  exact w d (dst.toNat - src.toNat - borrow.toNat) (dst.toInt - src.toInt - borrow.toNat)
    (dst.toNat % 16 - src.toNat % 16 - borrow.toNat)

/-! ### The operations by width -/

section Operations

variable (f : I386Flags)

def aluAdd : (w : Width) → BitVec w.bits → BitVec w.bits → Out w.bits
  | .byte => aluAddByte f
  | .word => aluAddWord f
  | .dword => aluAddDword f

def aluAdc : (w : Width) → BitVec w.bits → BitVec w.bits → Dword → Out w.bits
  | .byte => aluAdcByte f
  | .word => aluAdcWord f
  | .dword => aluAdcDword f

def aluSbb : (w : Width) → BitVec w.bits → BitVec w.bits → Dword → Out w.bits
  | .byte => aluSbbByte f
  | .word => aluSbbWord f
  | .dword => aluSbbDword f

def aluSub : (w : Width) → BitVec w.bits → BitVec w.bits → Out w.bits
  | .byte => aluSubByte f
  | .word => aluSubWord f
  | .dword => aluSubDword f

def aluInc : (w : Width) → BitVec w.bits → Out w.bits
  | .byte => aluIncByte f
  | .word => aluIncWord f
  | .dword => aluIncDword f

def aluDec : (w : Width) → BitVec w.bits → Out w.bits
  | .byte => aluDecByte f
  | .word => aluDecWord f
  | .dword => aluDecDword f

def aluNeg : (w : Width) → BitVec w.bits → Out w.bits
  | .byte => aluNegByte f
  | .word => aluNegWord f
  | .dword => aluNegDword f

end Operations

/-! ### Bits of a sum -/

section Bits

lemma getLsbD_eq {n : ℕ} (x : BitVec n) (i : ℕ) :
    x.getLsbD i = decide (x.toNat / 2 ^ i % 2 = 1) :=
  Nat.testBit_eq_decide_div_mod_eq

lemma xor_decide (P Q : Prop) [Decidable P] [Decidable Q] :
    (decide P ^^ decide Q) = decide (¬ (P ↔ Q)) := by
  by_cases p : P <;> by_cases q : Q <;> simp [p, q]

variable {w : ℕ} (width : w = 8 ∨ w = 16 ∨ w = 32)

include width

lemma toNat_zeroExtend (x : BitVec w) : (x.setWidth 32).toNat = x.toNat :=
  BitVec.toNat_setWidth_of_le (by omega)

lemma toInt_cases (x : BitVec w) :
    x.toNat < 2 ^ (w - 1) ∧ x.toInt = x.toNat ∨
      2 ^ (w - 1) ≤ x.toNat ∧ x.toNat < 2 ^ w ∧ x.toInt = (x.toNat : ℤ) - 2 ^ w := by
  have lt := x.isLt
  rw [BitVec.toInt_eq_toNat_cond]
  obtain rfl | rfl | rfl := width <;> split <;> omega

variable (dst src : BitVec w) {c : ℕ} (c_le : c ≤ 1) {r : Dword}

lemma sum_result (r_eq : r.toNat = (dst.toNat + src.toNat + c) % 2 ^ 32) :
    r.setWidth w = BitVec.ofInt w (dst.toNat + src.toNat + c) := by
  apply BitVec.eq_of_toNat_eq
  rw [BitVec.toNat_setWidth, BitVec.toNat_ofInt, r_eq]
  obtain rfl | rfl | rfl := width <;> omega

lemma difference_result (r_eq : (r.toNat + src.toNat + c) % 2 ^ 32 = dst.toNat) :
    r.setWidth w = BitVec.ofInt w (dst.toNat - src.toNat - c) := by
  apply BitVec.eq_of_toNat_eq
  rw [BitVec.toNat_setWidth, BitVec.toNat_ofInt]
  obtain rfl | rfl | rfl := width <;> omega

include c_le

lemma sum_overflow (r_eq : r.toNat = (dst.toNat + src.toNat + c) % 2 ^ 32) :
    ((r.getLsbD (w - 1) ^^ (src.setWidth 32).getLsbD (w - 1)) &&
        (r.getLsbD (w - 1) ^^ (dst.setWidth 32).getLsbD (w - 1))) =
      decide (dst.toInt + src.toInt + c < -2 ^ (w - 1) ∨
        2 ^ (w - 1) ≤ dst.toInt + src.toInt + c) := by
  have dst_cases := toInt_cases width dst
  have src_cases := toInt_cases width src
  rw [getLsbD_eq, getLsbD_eq, getLsbD_eq, toNat_zeroExtend width, toNat_zeroExtend width, r_eq,
    xor_decide, xor_decide, ← Bool.decide_and, decide_eq_decide]
  obtain rfl | rfl | rfl := width <;>
    simp only [Nat.reduceSub, Nat.reducePow, Int.reducePow, Int.reduceNeg] at * <;> omega

lemma difference_overflow (r_eq : (r.toNat + src.toNat + c) % 2 ^ 32 = dst.toNat) :
    (((dst.setWidth 32).getLsbD (w - 1) ^^ (src.setWidth 32).getLsbD (w - 1)) &&
        ((dst.setWidth 32).getLsbD (w - 1) ^^ r.getLsbD (w - 1))) =
      decide (dst.toInt - src.toInt - c < -2 ^ (w - 1) ∨
        2 ^ (w - 1) ≤ dst.toInt - src.toInt - c) := by
  have r_lt := r.isLt
  have dst_cases := toInt_cases width dst
  have src_cases := toInt_cases width src
  rw [getLsbD_eq, getLsbD_eq, getLsbD_eq, toNat_zeroExtend width, toNat_zeroExtend width,
    xor_decide, xor_decide, ← Bool.decide_and, decide_eq_decide]
  obtain rfl | rfl | rfl := width <;>
    simp only [Nat.reduceSub, Nat.reducePow, Int.reducePow, Int.reduceNeg] at * <;> omega

lemma sum_digit (r_eq : r.toNat = (dst.toNat + src.toNat + c) % 2 ^ 32) :
    (r.getLsbD 4 ^^ ((src.setWidth 32).getLsbD 4 ^^ (dst.setWidth 32).getLsbD 4)) =
      decide ((dst.toNat % 16 + src.toNat % 16 + c : ℤ) < 0 ∨
        (16 : ℤ) ≤ dst.toNat % 16 + src.toNat % 16 + c) := by
  rw [getLsbD_eq, getLsbD_eq, getLsbD_eq, toNat_zeroExtend width, toNat_zeroExtend width, r_eq,
    xor_decide, xor_decide, decide_eq_decide]
  omega

lemma difference_digit (r_eq : (r.toNat + src.toNat + c) % 2 ^ 32 = dst.toNat) :
    (r.getLsbD 4 ^^ ((src.setWidth 32).getLsbD 4 ^^ (dst.setWidth 32).getLsbD 4)) =
      decide ((dst.toNat % 16 - src.toNat % 16 - c : ℤ) < 0 ∨
        (16 : ℤ) ≤ dst.toNat % 16 - src.toNat % 16 - c) := by
  rw [getLsbD_eq, getLsbD_eq, getLsbD_eq, toNat_zeroExtend width, toNat_zeroExtend width,
    xor_decide, xor_decide, decide_eq_decide]
  omega

end Bits

/-! ### Sums -/

lemma u32From_toNat (b : Bool) : (u32From b).toNat = b.toNat := by
  cases b <;> rfl

section Sums

variable {w : ℕ} (f : I386Flags) (d : Denoted) (dst src : BitVec w) (carry : Bool)

/-- The flags that the setters of a sum leave. -/
def sumFlags (w : ℕ) (d : Denoted) (r src dst : Dword) (cf : Bool) : Denoted :=
  { d.result (r.setWidth w) with
    cf
    of := (r.getLsbD (w - 1) ^^ src.getLsbD (w - 1)) && (r.getLsbD (w - 1) ^^ dst.getLsbD (w - 1))
    af := r.getLsbD 4 ^^ (src.getLsbD 4 ^^ dst.getLsbD 4) }

/-- The flags that the setters of a difference leave. -/
def differenceFlags (w : ℕ) (d : Denoted) (r src dst : Dword) (cf : Bool) : Denoted :=
  { d.result (r.setWidth w) with
    cf
    of := (dst.getLsbD (w - 1) ^^ src.getLsbD (w - 1)) && (dst.getLsbD (w - 1) ^^ r.getLsbD (w - 1))
    af := r.getLsbD 4 ^^ (src.getLsbD 4 ^^ dst.getLsbD 4) }

variable (width : w = 8 ∨ w = 16 ∨ w = 32) {r : Dword} {cf : Bool}

include width

/-- **A sum of 32 bits, with its own carry, is the exact sum.** -/
theorem sumFlags_eq (r_eq : r.toNat = (dst.toNat + src.toNat + carry.toNat) % 2 ^ 32)
    (cf_eq : cf = decide (2 ^ w ≤ dst.toNat + src.toNat + carry.toNat)) :
    (r.setWidth w, sumFlags w d r (src.setWidth 32) (dst.setWidth 32) cf) =
      sum w d dst src carry := by
  have c_le : carry.toNat ≤ 1 := Bool.toNat_le carry
  have cf_eq' : cf = decide ((dst.toNat + src.toNat + carry.toNat : ℤ) < 0 ∨
      (2 : ℤ) ^ w ≤ dst.toNat + src.toNat + carry.toNat) := by
    rw [cf_eq, decide_eq_decide]
    obtain rfl | rfl | rfl := width <;> omega
  unfold sum exact sumFlags
  rw [sum_overflow width dst src c_le r_eq, sum_digit width dst src c_le r_eq,
    sum_result width dst src r_eq, cf_eq']

/-- **A difference of 32 bits, with its own borrow, is the exact one.** -/
theorem differenceFlags_eq (r_eq : (r.toNat + src.toNat + carry.toNat) % 2 ^ 32 = dst.toNat)
    (cf_eq : cf = decide (dst.toNat < src.toNat + carry.toNat)) :
    (r.setWidth w, differenceFlags w d r (src.setWidth 32) (dst.setWidth 32) cf) =
      difference w d dst src carry := by
  have c_le : carry.toNat ≤ 1 := Bool.toNat_le carry
  have dst_lt := dst.isLt
  have cf_eq' : cf = decide ((dst.toNat - src.toNat - carry.toNat : ℤ) < 0 ∨
      (2 : ℤ) ^ w ≤ dst.toNat - src.toNat - carry.toNat) := by
    rw [cf_eq, decide_eq_decide]
    obtain rfl | rfl | rfl := width <;> omega
  unfold difference exact differenceFlags
  rw [difference_overflow width dst src c_le r_eq, difference_digit width dst src c_le r_eq,
    difference_result width dst src r_eq, cf_eq']

end Sums

/-! ### Setters -/

section Setters

variable {w : ℕ} (w_ge : 8 ≤ w) (w_le : w ≤ 32) (f : I386Flags) (r src dst : Dword)

include w_ge w_le in
lemma sum_setters :
    (((f.setOfAdd w r src dst).setAf r src dst).setSzpf w r).denoted =
      sumFlags w f.denoted r src dst f.cf := by
  rw [I386Flags.denoted_setSzpf _ _ w_ge w_le, I386Flags.denoted_setAf,
    I386Flags.denoted_setOfAdd _ _ _ _ (by omega) w_le]
  rfl

include w_ge w_le in
lemma difference_setters :
    (((f.setOfSub w r src dst).setAf r src dst).setSzpf w r).denoted =
      differenceFlags w f.denoted r src dst f.cf := by
  rw [I386Flags.denoted_setSzpf _ _ w_ge w_le, I386Flags.denoted_setAf,
    I386Flags.denoted_setOfSub _ _ _ _ (by omega) w_le]
  rfl

lemma setWidth_self (x : Dword) : x.setWidth 32 = x := BitVec.setWidth_eq x

lemma sum_setters_dword :
    (((f.setOfAddDword r src dst).setAf r src dst).setSzpfDword r).denoted =
      sumFlags 32 f.denoted r src dst f.cf := by
  rw [← sum_setters (by decide) (by decide), I386Flags.denoted_setSzpfDword,
    I386Flags.denoted_setSzpf _ _ (by decide) (by decide), setWidth_self]
  rfl

lemma difference_setters_dword :
    (((f.setOfSubDword r src dst).setAf r src dst).setSzpfDword r).denoted =
      differenceFlags 32 f.denoted r src dst f.cf := by
  rw [← difference_setters (by decide) (by decide), I386Flags.denoted_setSzpfDword,
    I386Flags.denoted_setSzpf _ _ (by decide) (by decide), setWidth_self]
  rfl

end Setters

/-! ### Bytes and words -/

section Narrow

variable {w : ℕ} (narrow : w = 8 ∨ w = 16) (f : I386Flags)

include narrow

lemma addFlags_denoted (r src dst : Dword) :
    (addFlags f w r src dst).denoted = sumFlags w f.denoted r src dst (r.getLsbD w) := by
  rw [addFlags, sum_setters (by omega) (by omega), I386Flags.denoted_setCf _ _ (by omega)]
  exact congrArg (sumFlags w _ r src dst) (masked_ne r (by omega))

lemma subFlags_denoted (r src dst : Dword) :
    (subFlags f w r src dst).denoted = differenceFlags w f.denoted r src dst (r.getLsbD w) := by
  rw [subFlags, difference_setters (by omega) (by omega), I386Flags.denoted_setCf _ _ (by omega)]
  exact congrArg (differenceFlags w _ r src dst) (masked_ne r (by omega))

variable (dst src : BitVec w) (carry : Bool) {r : Dword}

lemma sum_carry (r_eq : r.toNat = (dst.toNat + src.toNat + carry.toNat) % 2 ^ 32) :
    r.getLsbD w = decide (2 ^ w ≤ dst.toNat + src.toNat + carry.toNat) := by
  have dst_lt := dst.isLt
  have src_lt := src.isLt
  have c_le : carry.toNat ≤ 1 := Bool.toNat_le carry
  rw [getLsbD_eq, r_eq, decide_eq_decide]
  obtain rfl | rfl := narrow <;> omega

lemma difference_carry (r_eq : (r.toNat + src.toNat + carry.toNat) % 2 ^ 32 = dst.toNat) :
    r.getLsbD w = decide (dst.toNat < src.toNat + carry.toNat) := by
  have r_lt := r.isLt
  have src_lt := src.isLt
  have c_le : carry.toNat ≤ 1 := Bool.toNat_le carry
  rw [getLsbD_eq, decide_eq_decide]
  obtain rfl | rfl := narrow <;> omega

lemma adc_denoted :
    Out.denoted (adc f dst src (u32From carry)) = sum w f.denoted dst src carry := by
  have width : w = 8 ∨ w = 16 ∨ w = 32 := narrow.imp_right .inl
  have r_eq : (dst.setWidth 32 + src.setWidth 32 + u32From carry).toNat =
      (dst.toNat + src.toNat + carry.toNat) % 2 ^ 32 := by
    rw [BitVec.toNat_add, BitVec.toNat_add, toNat_zeroExtend width, toNat_zeroExtend width,
      u32From_toNat]
    omega
  rw [← sumFlags_eq f.denoted dst src carry width r_eq (sum_carry narrow dst src carry r_eq)]
  exact Prod.ext rfl (addFlags_denoted narrow f _ _ _)

lemma add_denoted : Out.denoted (add f dst src) = sum w f.denoted dst src false := by
  have same : add f dst src = adc f dst src (u32From false) := by
    unfold add adc
    rw [show u32From false = 0#32 from rfl, BitVec.add_zero]
  rw [same, adc_denoted narrow]

lemma sbb_denoted :
    Out.denoted (sbb f dst src (u32From carry)) = difference w f.denoted dst src carry := by
  have width : w = 8 ∨ w = 16 ∨ w = 32 := narrow.imp_right .inl
  have dst_lt := dst.isLt
  have c_le : carry.toNat ≤ 1 := Bool.toNat_le carry
  have r_eq : ((dst.setWidth 32 - src.setWidth 32 - u32From carry).toNat + src.toNat +
      carry.toNat) % 2 ^ 32 = dst.toNat := by
    rw [BitVec.toNat_sub, BitVec.toNat_sub, toNat_zeroExtend width, toNat_zeroExtend width,
      u32From_toNat]
    obtain rfl | rfl := narrow <;> omega
  rw [← differenceFlags_eq f.denoted dst src carry width r_eq
    (difference_carry narrow dst src carry r_eq)]
  exact Prod.ext rfl (subFlags_denoted narrow f _ _ _)

lemma sub_denoted : Out.denoted (sub f dst src) = difference w f.denoted dst src false := by
  have same : sub f dst src = sbb f dst src (u32From false) := by
    unfold sub sbb
    rw [show u32From false = 0#32 from rfl, BitVec.sub_zero]
  rw [same, sbb_denoted narrow]

omit narrow in
lemma neg_carry (val : BitVec w) :
    decide (val ≠ 0) = decide ((0 : BitVec w).toNat < val.toNat + false.toNat) := by
  have zero : val = 0 ↔ val.toNat = 0 := BitVec.toNat_inj.symm.trans Iff.rfl
  rw [decide_eq_decide, Ne, zero]
  change val.toNat ≠ 0 ↔ 0 < val.toNat + 0
  omega

lemma one_zeroExtend : (1 : BitVec w).setWidth 32 = 1 := by
  obtain rfl | rfl := narrow <;> decide

variable (val : BitVec w)

lemma inc_denoted : Out.denoted (inc f val) =
    ((sum w f.denoted val 1 false).1, { (sum w f.denoted val 1 false).2 with cf := f.cf }) := by
  have width : w = 8 ∨ w = 16 ∨ w = 32 := narrow.imp_right .inl
  have r_eq : (val.setWidth 32 + 1).toNat =
      (val.toNat + (1 : BitVec w).toNat + false.toNat) % 2 ^ 32 := by
    rw [← toNat_zeroExtend width 1, one_zeroExtend narrow, BitVec.toNat_add,
      toNat_zeroExtend width]
    rfl
  rw [← sumFlags_eq f.denoted val 1 false width r_eq rfl, one_zeroExtend narrow]
  exact Prod.ext rfl (sum_setters (by omega) (by omega) _ _ _ _)

lemma dec_denoted : Out.denoted (dec f val) = ((difference w f.denoted val 1 false).1,
    { (difference w f.denoted val 1 false).2 with cf := f.cf }) := by
  have width : w = 8 ∨ w = 16 ∨ w = 32 := narrow.imp_right .inl
  have val_lt := val.isLt
  have r_eq : ((val.setWidth 32 - 1).toNat + (1 : BitVec w).toNat + false.toNat) % 2 ^ 32 =
      val.toNat := by
    rw [← toNat_zeroExtend width 1, one_zeroExtend narrow, BitVec.toNat_sub,
      toNat_zeroExtend width, show (1 : Dword).toNat = 1 from rfl, Bool.toNat_false]
    obtain rfl | rfl := narrow <;> omega
  rw [← differenceFlags_eq f.denoted val 1 false width r_eq rfl, one_zeroExtend narrow]
  exact Prod.ext rfl (difference_setters (by omega) (by omega) _ _ _ _)

lemma neg_denoted : Out.denoted (neg f val) = difference w f.denoted 0 val false := by
  have width : w = 8 ∨ w = 16 ∨ w = 32 := narrow.imp_right .inl
  have val_lt := val.isLt
  have zero : (0 : BitVec w).setWidth 32 = 0 := by
    obtain rfl | rfl := narrow <;> rfl
  have r_eq : ((0 - val.setWidth 32 : Dword).toNat + val.toNat + false.toNat) % 2 ^ 32 =
      (0 : BitVec w).toNat := by
    rw [BitVec.toNat_sub, toNat_zeroExtend width, show (0 : Dword).toNat = 0 from rfl,
      show (0 : BitVec w).toNat = 0 from rfl, Bool.toNat_false]
    obtain rfl | rfl := narrow <;> omega
  rw [← differenceFlags_eq f.denoted 0 val false width r_eq (neg_carry val), zero]
  refine Prod.ext rfl ((difference_setters (by omega) (by omega) _ _ _ _).trans ?_)
  refine congrArg (differenceFlags w f.denoted _ _ _) ?_
  by_cases none : val = 0
  · rw [none]
    rfl
  · change ((if val ≠ 0 then (1 : Dword) else 0) != 0) = decide (val ≠ 0)
    rw [if_pos none, decide_eq_true none]
    rfl

end Narrow

/-! ### Double words -/

section Wide

variable (f : I386Flags) (dst src : Dword) (carry : Bool)

lemma aluAdcDword_denoted :
    Out.denoted (aluAdcDword f dst src (u32From carry)) = sum 32 f.denoted dst src carry := by
  have dst_lt := dst.isLt
  have src_lt := src.isLt
  have c_le : carry.toNat ≤ 1 := Bool.toNat_le carry
  have wide : (dst.setWidth 64 + src.setWidth 64 + (u32From carry).setWidth 64 : Qword).toNat =
      dst.toNat + src.toNat + carry.toNat := by
    rw [BitVec.toNat_add, BitVec.toNat_add, BitVec.toNat_setWidth_of_le (by decide),
      BitVec.toNat_setWidth_of_le (by decide), BitVec.toNat_setWidth_of_le (by decide),
      u32From_toNat]
    omega
  have flags := @sumFlags_eq 32 f.denoted dst src carry (.inr (.inr rfl))
    ((dst.setWidth 64 + src.setWidth 64 + (u32From carry).setWidth 64 : Qword).setWidth 32)
    ((dst.setWidth 64 + src.setWidth 64 + (u32From carry).setWidth 64 : Qword).getLsbD 32)
    (by rw [BitVec.toNat_setWidth, wide])
    (by
      rw [getLsbD_eq, wide, decide_eq_decide]
      omega)
  rw [setWidth_self, setWidth_self, setWidth_self] at flags
  rw [← flags]
  refine Prod.ext rfl ((sum_setters_dword _ _ _ _).trans ?_)
  exact congrArg (sumFlags 32 f.denoted _ _ _) (I386Flags.setCfDword_cf _ _)

lemma aluAddDword_denoted :
    Out.denoted (aluAddDword f dst src) = sum 32 f.denoted dst src false := by
  have same : aluAddDword f dst src = aluAdcDword f dst src (u32From false) := by
    unfold aluAddDword aluAdcDword
    rw [show (u32From false).setWidth 64 = (0#64) from rfl, BitVec.add_zero]
  rw [same, aluAdcDword_denoted]

lemma aluSbbDword_denoted :
    Out.denoted (aluSbbDword f dst src (u32From carry)) =
      difference 32 f.denoted dst src carry := by
  have dst_lt := dst.isLt
  have src_lt := src.isLt
  have c_le : carry.toNat ≤ 1 := Bool.toNat_le carry
  have r_eq : ((dst - src - u32From carry).toNat + src.toNat + carry.toNat) % 2 ^ 32 =
      dst.toNat := by
    rw [BitVec.toNat_sub, BitVec.toNat_sub, u32From_toNat]
    omega
  have cf_eq : (dst.setWidth 64).ult (src.setWidth 64 + (u32From carry).setWidth 64) =
      decide (dst.toNat < src.toNat + carry.toNat) := by
    rw [BitVec.ult, BitVec.toNat_add, BitVec.toNat_setWidth_of_le (by decide),
      BitVec.toNat_setWidth_of_le (by decide), BitVec.toNat_setWidth_of_le (by decide),
      u32From_toNat, decide_eq_decide]
    omega
  have flags := differenceFlags_eq f.denoted dst src carry (.inr (.inr rfl)) r_eq cf_eq
  rw [setWidth_self, setWidth_self, setWidth_self] at flags
  rw [← flags]
  refine Prod.ext rfl ((difference_setters_dword _ _ _ _).trans ?_)
  exact congrArg (differenceFlags 32 f.denoted _ _ _) (u32From_ne _)

lemma aluSubDword_denoted :
    Out.denoted (aluSubDword f dst src) = difference 32 f.denoted dst src false := by
  have r_eq : ((dst - src).toNat + src.toNat + false.toNat) % 2 ^ 32 = dst.toNat := by
    have dst_lt := dst.isLt
    have src_lt := src.isLt
    rw [BitVec.toNat_sub, Bool.toNat_false]
    omega
  have cf_eq : dst.ult src = decide (dst.toNat < src.toNat + false.toNat) := rfl
  have flags := differenceFlags_eq f.denoted dst src false (.inr (.inr rfl)) r_eq cf_eq
  rw [setWidth_self, setWidth_self, setWidth_self] at flags
  rw [← flags]
  refine Prod.ext rfl ((difference_setters_dword _ _ _ _).trans ?_)
  exact congrArg (differenceFlags 32 f.denoted _ _ _) (u32From_ne _)

variable (val : Dword)

lemma aluIncDword_denoted : Out.denoted (aluIncDword f val) =
    ((sum 32 f.denoted val 1 false).1, { (sum 32 f.denoted val 1 false).2 with cf := f.cf }) := by
  have r_eq : (val + 1).toNat = (val.toNat + (1 : Dword).toNat + false.toNat) % 2 ^ 32 :=
    BitVec.toNat_add val 1
  have flags := sumFlags_eq f.denoted val 1 false (.inr (.inr rfl)) r_eq rfl
  rw [setWidth_self, setWidth_self, setWidth_self] at flags
  rw [← flags]
  exact Prod.ext rfl (sum_setters_dword _ _ _ _)

lemma aluDecDword_denoted : Out.denoted (aluDecDword f val) =
    ((difference 32 f.denoted val 1 false).1,
      { (difference 32 f.denoted val 1 false).2 with cf := f.cf }) := by
  have r_eq : ((val - 1).toNat + (1 : Dword).toNat + false.toNat) % 2 ^ 32 = val.toNat := by
    have val_lt := val.isLt
    rw [BitVec.toNat_sub, show (1 : Dword).toNat = 1 from rfl, Bool.toNat_false]
    omega
  have flags := differenceFlags_eq f.denoted val 1 false (.inr (.inr rfl)) r_eq rfl
  rw [setWidth_self, setWidth_self, setWidth_self] at flags
  rw [← flags]
  exact Prod.ext rfl (difference_setters_dword _ _ _ _)

lemma aluNegDword_denoted :
    Out.denoted (aluNegDword f val) = difference 32 f.denoted 0 val false := by
  have r_eq : ((0 - val).toNat + val.toNat + false.toNat) % 2 ^ 32 = (0 : Dword).toNat := by
    have val_lt := val.isLt
    rw [BitVec.toNat_sub, show (0 : Dword).toNat = 0 from rfl, Bool.toNat_false]
    omega
  have flags := differenceFlags_eq f.denoted 0 val false (.inr (.inr rfl)) r_eq (neg_carry val)
  rw [setWidth_self, setWidth_self, setWidth_self] at flags
  rw [← flags]
  refine Prod.ext rfl ((difference_setters_dword _ _ _ _).trans ?_)
  refine congrArg (differenceFlags 32 f.denoted _ _ _) ((u32From_ne _).trans ?_)
  by_cases none : val = 0
  · rw [none]
    rfl
  · rw [bne_iff_ne.2 none, decide_eq_true none]

end Wide

/-! ### Every width -/

section Widths

variable (f : I386Flags) (w : Width)

theorem aluAdd_denoted (dst src : BitVec w.bits) :
    (aluAdd f w dst src).denoted = sum w.bits f.denoted dst src false := by
  cases w with
  | byte => exact add_denoted (.inl rfl) f dst src
  | word => exact add_denoted (.inr rfl) f dst src
  | dword => exact aluAddDword_denoted f dst src

theorem aluAdc_denoted (dst src : BitVec w.bits) (carry : Bool) :
    (aluAdc f w dst src (u32From carry)).denoted = sum w.bits f.denoted dst src carry := by
  cases w with
  | byte => exact adc_denoted (.inl rfl) f dst src carry
  | word => exact adc_denoted (.inr rfl) f dst src carry
  | dword => exact aluAdcDword_denoted f dst src carry

theorem aluSub_denoted (dst src : BitVec w.bits) :
    (aluSub f w dst src).denoted = difference w.bits f.denoted dst src false := by
  cases w with
  | byte => exact sub_denoted (.inl rfl) f dst src
  | word => exact sub_denoted (.inr rfl) f dst src
  | dword => exact aluSubDword_denoted f dst src

theorem aluSbb_denoted (dst src : BitVec w.bits) (borrow : Bool) :
    (aluSbb f w dst src (u32From borrow)).denoted = difference w.bits f.denoted dst src borrow := by
  cases w with
  | byte => exact sbb_denoted (.inl rfl) f dst src borrow
  | word => exact sbb_denoted (.inr rfl) f dst src borrow
  | dword => exact aluSbbDword_denoted f dst src borrow

/-- An increment is the sum with one, with the carry flag as it was. -/
def increment (d : Denoted) (w : ℕ) (val : BitVec w) : BitVec w × Denoted :=
  let s := sum w d val 1 false
  (s.1, { s.2 with cf := d.cf })

/-- A decrement is the difference with one, with the carry flag as it was. -/
def decrement (d : Denoted) (w : ℕ) (val : BitVec w) : BitVec w × Denoted :=
  let s := difference w d val 1 false
  (s.1, { s.2 with cf := d.cf })

theorem aluInc_denoted (val : BitVec w.bits) :
    (aluInc f w val).denoted = increment f.denoted w.bits val := by
  cases w with
  | byte => exact inc_denoted (.inl rfl) f val
  | word => exact inc_denoted (.inr rfl) f val
  | dword => exact aluIncDword_denoted f val

theorem aluDec_denoted (val : BitVec w.bits) :
    (aluDec f w val).denoted = decrement f.denoted w.bits val := by
  cases w with
  | byte => exact dec_denoted (.inl rfl) f val
  | word => exact dec_denoted (.inr rfl) f val
  | dword => exact aluDecDword_denoted f val

theorem aluNeg_denoted (val : BitVec w.bits) :
    (aluNeg f w val).denoted = difference w.bits f.denoted 0 val false := by
  cases w with
  | byte => exact neg_denoted (.inl rfl) f val
  | word => exact neg_denoted (.inr rfl) f val
  | dword => exact aluNegDword_denoted f val

end Widths

end Neetan.Alu
