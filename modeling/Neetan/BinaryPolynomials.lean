import Mathlib.RingTheory.AdjoinRoot
import Mathlib.Algebra.CharP.Two
import Mathlib.Algebra.Field.ZMod
import Mathlib.Data.ZMod.Basic

/-!
Bit strings as polynomials over the field of two elements.

Exclusive or is addition, and a shift with the top bit folded back is multiplication by the root
of the polynomial that is folded back.
-/

namespace Neetan.BinaryPolynomials

open Polynomial

variable {w : ℕ}

/-- The polynomial that has the bits as its coefficients. -/
noncomputable def bitPolynomial (a : BitVec w) : (ZMod 2)[X] :=
  ∑ i ∈ Finset.range w, if a.getLsbD i then X ^ i else 0

lemma coeff_bitPolynomial (a : BitVec w) (i : ℕ) :
    (bitPolynomial a).coeff i = if a.getLsbD i then 1 else 0 := by
  have hterm : ∀ j, (if a.getLsbD j then (X : (ZMod 2)[X]) ^ j else 0).coeff i =
      if j = i then (if a.getLsbD i then 1 else 0) else 0 := by
    intro j
    by_cases hj : j = i
    · subst hj
      rw [if_pos rfl]
      split_ifs
      · exact coeff_X_pow_self j
      · exact coeff_zero j
    · rw [if_neg hj]
      split_ifs
      · rw [coeff_X_pow, if_neg (Ne.symm hj)]
      · exact coeff_zero i
  rw [bitPolynomial, finsetSum_coeff, Finset.sum_congr rfl (fun j _ => hterm j),
    Finset.sum_ite_eq']
  split_ifs with hlt hbit
  · rfl
  · rfl
  · exact absurd (BitVec.lt_of_getLsbD ‹_›) (fun h => hlt (Finset.mem_range.mpr h))
  · rfl

@[simp] lemma bitPolynomial_zero : bitPolynomial (0 : BitVec w) = 0 := by
  ext i
  simp [coeff_bitPolynomial]

lemma bitPolynomial_xor (a b : BitVec w) :
    bitPolynomial (a ^^^ b) = bitPolynomial a + bitPolynomial b := by
  ext i
  rw [coeff_add, coeff_bitPolynomial, coeff_bitPolynomial, coeff_bitPolynomial,
    BitVec.getLsbD_xor]
  cases a.getLsbD i <;> cases b.getLsbD i <;> decide

lemma bitPolynomial_twoPow {i : ℕ} (h : i < w) : bitPolynomial (BitVec.twoPow w i) = X ^ i := by
  ext j
  rw [coeff_bitPolynomial, coeff_X_pow, BitVec.getLsbD_twoPow]
  simp [h, eq_comm]

lemma bitPolynomial_injective : Function.Injective (bitPolynomial : BitVec w → (ZMod 2)[X]) := by
  intro a b h
  refine BitVec.eq_of_getLsbD_eq fun i _ => ?_
  have hcoeff := congrArg (coeff · i) h
  simp only [coeff_bitPolynomial] at hcoeff
  cases ha : a.getLsbD i <;> cases hb : b.getLsbD i <;> simp_all

lemma degree_bitPolynomial_lt (a : BitVec w) : (bitPolynomial a).degree < w := by
  refine (degree_lt_iff_coeff_zero _ _).mpr fun i hi => ?_
  rw [coeff_bitPolynomial, BitVec.getLsbD_of_ge a i hi]
  rfl

lemma X_mul_bitPolynomial (a : BitVec w) :
    X * bitPolynomial a = bitPolynomial (a <<< 1) + if a.msb then X ^ w else 0 := by
  ext i
  rw [coeff_add, coeff_bitPolynomial, BitVec.getLsbD_shiftLeft]
  cases i with
  | zero =>
    rw [coeff_X_mul_zero]
    by_cases hw : w = 0
    · subst hw
      simp [BitVec.msb, BitVec.getMsbD]
    · cases a.msb <;> simp [coeff_X_pow, Ne.symm hw]
  | succ i =>
    rw [coeff_X_mul, coeff_bitPolynomial]
    rcases lt_trichotomy (i + 1) w with hlt | heq | hgt
    · have hne : ¬ i + 1 = w := by omega
      cases a.msb <;> simp [hlt, coeff_X_pow, hne]
    · have hmsb : a.msb = a.getLsbD i := by
        rw [BitVec.msb_eq_getLsbD_last, show w - 1 = i by omega]
      cases hbit : a.getLsbD i <;> simp [hmsb, hbit, coeff_X_pow, heq]
    · have hbit : a.getLsbD i = false := BitVec.getLsbD_of_ge a i (by omega)
      have hne : ¬ i + 1 = w := by omega
      cases a.msb <;> simp [hbit, coeff_X_pow, hne, show ¬ i + 1 < w by omega]

/-! ### Residues -/

variable {g : (ZMod 2)[X]}

/-- The residue of a bit string. -/
noncomputable def residue (g : (ZMod 2)[X]) (a : BitVec w) : AdjoinRoot g :=
  AdjoinRoot.mk g (bitPolynomial a)

@[simp] lemma residue_zero : residue g (0 : BitVec w) = 0 := by
  rw [residue, bitPolynomial_zero, map_zero]

lemma residue_xor (a b : BitVec w) : residue g (a ^^^ b) = residue g a + residue g b := by
  rw [residue, bitPolynomial_xor, map_add]
  rfl

lemma two_eq_zero : (2 : AdjoinRoot g) = 0 := by
  rw [← map_ofNat (AdjoinRoot.of g) 2, show (OfNat.ofNat 2 : ZMod 2) = 0 by rfl, map_zero]

/-- The shift with the top bit folded back. -/
def timesRoot (r a : BitVec w) : BitVec w := if a.msb then a <<< 1 ^^^ r else a <<< 1

section

variable {r : BitVec w} (hg : g = X ^ w + bitPolynomial r)
include hg

lemma monic_of_eq : g.Monic := by
  rw [hg]
  exact monic_X_pow_add (degree_bitPolynomial_lt r)

lemma degree_of_eq : g.degree = w := by
  rw [hg, degree_add_eq_left_of_degree_lt, degree_X_pow]
  rw [degree_X_pow]
  exact degree_bitPolynomial_lt r

/-- A polynomial of lower degree is the remainder of all that has its residue. -/
lemma bitPolynomial_eq_modByMonic {a : BitVec w} {p : (ZMod 2)[X]}
    (h : residue g a = AdjoinRoot.mk g p) : bitPolynomial a = p %ₘ g := by
  have hdvd : g ∣ p - bitPolynomial a := AdjoinRoot.mk_eq_mk.mp h.symm
  rw [modByMonic_eq_of_dvd_sub (monic_of_eq hg) hdvd]
  refine ((modByMonic_eq_self_iff (monic_of_eq hg)).mpr ?_).symm
  rw [degree_of_eq hg]
  exact degree_bitPolynomial_lt a

lemma residue_injective : Function.Injective (residue g : BitVec w → AdjoinRoot g) := by
  intro a b h
  refine bitPolynomial_injective ?_
  rw [bitPolynomial_eq_modByMonic hg h]
  exact (bitPolynomial_eq_modByMonic hg (a := b) rfl).symm

lemma mk_X_pow : AdjoinRoot.mk g (X ^ w) = residue g r := by
  refine AdjoinRoot.mk_eq_mk.mpr ⟨1, ?_⟩
  have htwo : (2 : (ZMod 2)[X]) = 0 := by
    rw [← map_ofNat C 2, show (OfNat.ofNat 2 : ZMod 2) = 0 by rfl, map_zero]
  rw [hg]
  linear_combination -bitPolynomial r * htwo

lemma residue_timesRoot (a : BitVec w) :
    residue g (timesRoot r a) = AdjoinRoot.root g * residue g a := by
  have hroot : AdjoinRoot.root g * residue g a = AdjoinRoot.mk g (X * bitPolynomial a) := by
    rw [map_mul, AdjoinRoot.mk_X]
    rfl
  rw [hroot, X_mul_bitPolynomial, map_add, timesRoot]
  cases a.msb
  · simp [residue]
  · rw [if_pos rfl, if_pos rfl, mk_X_pow hg, residue_xor]
    rfl

lemma residue_iterate_timesRoot (a : BitVec w) (n : ℕ) :
    residue g ((timesRoot r)^[n] a) = AdjoinRoot.root g ^ n * residue g a := by
  induction n with
  | zero => simp
  | succ n ih =>
    rw [Function.iterate_succ_apply', residue_timesRoot hg, ih, pow_succ']
    ring

end

end Neetan.BinaryPolynomials
