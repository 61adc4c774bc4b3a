import Mathlib

/-!
Sums of floats and integers, over the logical model of Lean's `Float`.

An integer below `2 ^ 64` is a normal float, so it is never the negative zero. From this adding
it commutes, adding it to zero first changes nothing, and subtracting it is adding its opposite,
but for zero subtracted from the negative zero.
-/

namespace Neetan.FloatSums

open Float.Model Float.Model.UnpackedFloat

abbrev spec : Format := Format.binary64

lemma mantissaBits_eq : spec.mantissaBits = 53 := rfl
lemma exponentBias_eq : (spec.exponentBias : ℤ) = 1023 := rfl

/-! ### Packing -/

lemma toNat_implicit (v : BitVec 52) : (1#1 ++ v).toNat = 2 ^ 52 + v.toNat := by
  have hv := v.isLt
  rw [BitVec.toNat_append, ← Nat.shiftLeft_add_eq_or_of_lt hv]
  rfl

lemma log2_implicit {m : ℕ} (hl : 2 ^ 52 ≤ m) (hu : m < 2 ^ 53) : m.log2 = 52 :=
  (Nat.log2_eq_iff (by omega)).mpr ⟨hl, hu⟩

lemma pack_normal (s : Sign) (m : ℕ) (e : ℤ) (hm : 0 < m) (hl : 2 ^ 52 ≤ m) (hu : m < 2 ^ 53)
    (hlt : e + 1075 < 2047) :
    UnpackedFloat.pack spec (.finite s m e hm) =
      packComponents spec s (BitVec.ofNat 11 (e + 1075).toNat) (BitVec.ofNat 52 m) := by
  have hlog := log2_implicit hl hu
  have hbits := mantissaBits_eq
  have hbias : e + spec.exponentBias + (52 : ℕ) = e + 1075 := by
    rw [exponentBias_eq]
    omega
  simp only [UnpackedFloat.pack, hbias]
  rw [if_neg (by omega), if_pos (by omega)]

/-- A float is the packing of what it unpacks to. -/
lemma ofModel_pack_unpack (x : Float) : .ofModel (.pack x.toModel.unpack) = x := by
  obtain ⟨bits, hvalid⟩ := x
  simp only [Float.Model.pack, Float.Model.unpack, pack_unpack_of_valid hvalid]

/-- A normal float unpacks to what was packed. -/
lemma unpack_pack_normal (s : Sign) (m : ℕ) (e : ℤ) (hm : 0 < m) (hl : 2 ^ 52 ≤ m)
    (hu : m < 2 ^ 53) (hpos : 0 < e + 1075) (hlt : e + 1075 < 2047) :
    (Float.Model.pack (.finite s m e hm)).unpack = .finite s m e hm := by
  have hw : (BitVec.ofNat 11 (e + 1075).toNat).toNat = (e + 1075).toNat := by
    rw [BitVec.toNat_ofNat]
    omega
  have hv : (1#1 ++ BitVec.ofNat 52 m).toNat = m := by
    rw [toNat_implicit, BitVec.toNat_ofNat]
    omega
  have hne : BitVec.ofNat 11 (e + 1075).toNat ≠ -1#11 := fun h => by
    have := congrArg BitVec.toNat h
    rw [hw] at this
    simp at this
    omega
  have hne0 : BitVec.ofNat 11 (e + 1075).toNat ≠ 0#11 := fun h => by
    have := congrArg BitVec.toNat h
    rw [hw] at this
    simp at this
    omega
  have hbias := exponentBias_eq
  change UnpackedFloat.unpack spec (UnpackedFloat.pack spec (.finite s m e hm)) = _
  rw [pack_normal s m e hm hl hu hlt, UnpackedFloat.unpack]
  simp only [unpackExponent_packComponents, unpackMantissa_packComponents,
    unpackSign_packComponents, Sign.ofBitVec_toBitVec]
  rw [if_neg hne, if_neg hne0]
  simp only [hw, hv]
  congr 1
  omega

/-! ### Integers -/

lemma mantissa_shift (em : ExtendedMantissa) (n : ℕ) :
    (em >>> n).mantissa = em.mantissa / 2 ^ n := by
  change (n.repeat ExtendedMantissa.shiftRightOne em).mantissa = _
  induction n with
  | zero => simp [Nat.repeat]
  | succ n ih =>
    rw [Nat.repeat, ExtendedMantissa.shiftRightOne, ih, Nat.div_div_eq_div_mul, ← Nat.pow_succ]

lemma roundedMantissa_bounds (em : ExtendedMantissa) :
    em.mantissa ≤ em.roundedMantissa ∧ em.roundedMantissa ≤ em.mantissa + 1 := by
  obtain ⟨m, r, t⟩ := em
  have hmod := Nat.mod_lt m (by decide : 0 < 2)
  cases r <;> cases t <;>
    simp only [ExtendedMantissa.roundedMantissa, ExtendedMantissa.accuracy,
      Accuracy.roundToNearestEven] <;> omega

lemma shiftToTargetExponent_eq {m : ℕ} {e : ℤ} (hm : 2 ^ 52 ≤ m) (he : -1000 ≤ e)
    (accuracy : Accuracy) :
    shiftToTargetExponent spec m e accuracy =
      (ExtendedMantissa.ofMantissaAndAccuracy m accuracy >>> (m.log2 - 52),
        e + (m.log2 - 52 : ℕ)) := by
  have hlog : 52 ≤ m.log2 := (Nat.le_log2 (by omega)).mpr hm
  have htarget : spec.targetExponent (totalExponent m e) = m.log2 + e - 52 := by
    have hmin : spec.minExponent = -1074 := rfl
    rw [Format.targetExponent, totalExponent, mantissaBits_eq, hmin]
    omega
  have hshift : ((m.log2 : ℤ) + e - 52 - e).toNat = m.log2 - 52 := by omega
  simp only [shiftToTargetExponent, shiftToExponent, htarget, hshift]

lemma shifted_bounds {m : ℕ} (hm : 2 ^ 52 ≤ m) :
    2 ^ 52 ≤ m / 2 ^ (m.log2 - 52) ∧ m / 2 ^ (m.log2 - 52) < 2 ^ 53 := by
  have hlog : 52 ≤ m.log2 := (Nat.le_log2 (by omega)).mpr hm
  obtain ⟨hl, hu⟩ := (Nat.log2_eq_iff (by omega : m ≠ 0)).mp rfl
  have hpos : 0 < 2 ^ (m.log2 - 52) := Nat.two_pow_pos _
  refine ⟨(Nat.le_div_iff_mul_le hpos).mpr ?_, (Nat.div_lt_iff_lt_mul hpos).mpr ?_⟩
  · rw [← Nat.pow_add]
    exact (congrArg (2 ^ ·) (by omega)).trans_le hl
  · rw [← Nat.pow_add]
    exact hu.trans_le (congrArg (2 ^ ·) (by omega)).le

lemma roundWithAccuracy_normal {m : ℕ} {e : ℤ} (hm : 2 ^ 52 ≤ m) (he : -1000 ≤ e) :
    ∃ m' e', ∃ h : 0 < m', 2 ^ 52 ≤ m' ∧ m' < 2 ^ 53 ∧ e ≤ e' ∧ e' ≤ e + m.log2 - 51 ∧
      ∀ s, roundWithAccuracy spec s m e .exact = .finite s m' e' h := by
  have hlog : 52 ≤ m.log2 := (Nat.le_log2 (by omega)).mpr hm
  obtain ⟨hl, hu⟩ := shifted_bounds hm
  have hfirst := shiftToTargetExponent_eq hm he .exact
  generalize hem : ExtendedMantissa.ofMantissaAndAccuracy m .exact >>> (m.log2 - 52) = em at hfirst
  have hmantissa : em.mantissa = m / 2 ^ (m.log2 - 52) := by rw [← hem, mantissa_shift]; rfl
  have hround := roundedMantissa_bounds em
  generalize hr : em.roundedMantissa = r at hround
  have hrl : 2 ^ 52 ≤ r := by omega
  have hsecond := shiftToTargetExponent_eq hrl (he.trans (by omega : e ≤ e + (m.log2 - 52 : ℕ)))
    .exact
  have hrlog : r.log2 ≤ 53 := Nat.le_of_lt_succ ((Nat.log2_lt (by omega)).mpr (by omega))
  have hfinal : (ExtendedMantissa.ofMantissaAndAccuracy r .exact >>> (r.log2 - 52)).mantissa =
      r / 2 ^ (r.log2 - 52) := by rw [mantissa_shift]; rfl
  obtain ⟨hfl, hfu⟩ := shifted_bounds hrl
  refine ⟨r / 2 ^ (r.log2 - 52), e + (m.log2 - 52 : ℕ) + (r.log2 - 52 : ℕ), by omega, hfl, hfu,
    by omega, by omega, fun s => ?_⟩
  simp only [roundWithAccuracy, hfirst, hr, hsecond, hfinal]
  rw [dif_neg (by omega)]

/-- Rounding an integer below `2 ^ 64` gives a normal float, up to its sign. -/
lemma round_integer {n : ℕ} (hn : 0 < n) (hlt : n < 2 ^ 64) :
    ∃ m e, ∃ h : 0 < m, 2 ^ 52 ≤ m ∧ m < 2 ^ 53 ∧ 0 < e + 1075 ∧ e + 1075 < 2047 ∧
      ∀ s, UnpackedFloat.round spec s n 0 = .finite s m e h := by
  have hlog : n.log2 < 64 := (Nat.log2_lt hn.ne').mpr hlt
  have htarget : spec.targetExponent (totalExponent n 0) = n.log2 - 52 := by
    have hmin : spec.minExponent = -1074 := rfl
    rw [Format.targetExponent, totalExponent, mantissaBits_eq, hmin]
    omega
  have hshift : (0 - ((n.log2 : ℤ) - 52)).toNat = 52 - n.log2 := by omega
  have hdecrease : decreaseExponent n 0 (spec.targetExponent (totalExponent n 0)) =
      (n * 2 ^ (52 - n.log2), -((52 - n.log2 : ℕ) : ℤ)) := by
    simp only [decreaseExponent, htarget, hshift, Nat.shiftLeft_eq]
    congr 1
    omega
  obtain ⟨hl, hu⟩ := (Nat.log2_eq_iff hn.ne').mp rfl
  have hpos : 0 < 2 ^ (52 - n.log2) := Nat.two_pow_pos _
  have hm : 2 ^ 52 ≤ n * 2 ^ (52 - n.log2) :=
    calc 2 ^ 52 ≤ 2 ^ (n.log2 + (52 - n.log2)) := Nat.pow_le_pow_right (by decide) (by omega)
      _ = 2 ^ n.log2 * 2 ^ (52 - n.log2) := Nat.pow_add ..
      _ ≤ n * 2 ^ (52 - n.log2) := Nat.mul_le_mul_right _ hl
  have hmlt : (n * 2 ^ (52 - n.log2)).log2 < 117 := by
    refine (Nat.log2_lt (by omega)).mpr ?_
    calc n * 2 ^ (52 - n.log2) ≤ n * 2 ^ 52 :=
          Nat.mul_le_mul_left _ (Nat.pow_le_pow_right (by decide) (by omega))
      _ < 2 ^ 117 := by omega
  obtain ⟨m, e, h, h1, h2, h3, h4, hs⟩ :=
    roundWithAccuracy_normal (e := -((52 - n.log2 : ℕ) : ℤ)) hm (by omega)
  refine ⟨m, e, h, h1, h2, by omega, by omega, fun s => ?_⟩
  simp only [UnpackedFloat.round, hdecrease, hs]

/-- The sign of an integer that is not zero. -/
def signOf (n : ℤ) : Sign := if n < 0 then .negative else .positive

variable {x : Float} {n : ℤ}

lemma ofInt_eq_round (hn : n ≠ 0) :
    UnpackedFloat.ofInt spec n = UnpackedFloat.round spec (signOf n) n.natAbs 0 := by
  rcases lt_or_gt_of_ne hn with h | h
  · have habs : (-n).toNat = n.natAbs := by omega
    simp only [UnpackedFloat.ofInt, UnpackedFloat.normalize, Int.compare_eq_lt.mpr h, signOf,
      if_pos h, habs]
  · have habs : n.toNat = n.natAbs := by omega
    simp only [UnpackedFloat.ofInt, UnpackedFloat.normalize, Int.compare_eq_gt.mpr h, signOf,
      if_neg (not_lt_of_gt h), habs]

/-- An integer and its opposite as floats. -/
lemma unpack_ofInt (hn : n ≠ 0) (hlt : n.natAbs < 2 ^ 64) :
    ∃ m e, ∃ h : 0 < m, (Float.Model.ofInt n).unpack = .finite (signOf n) m e h ∧
      (Float.Model.ofInt (-n)).unpack = .finite (-signOf n) m e h := by
  obtain ⟨m, e, h, hl, hu, hpos, hbound, hround⟩ := round_integer (Int.natAbs_pos.mpr hn) hlt
  have hsign : signOf (-n) = -signOf n := by
    rcases lt_or_gt_of_ne hn with hlt | hlt
    · rw [signOf, signOf, if_pos hlt, if_neg (by omega)]
      rfl
    · rw [signOf, signOf, if_pos (by omega), if_neg (by omega)]
      rfl
  refine ⟨m, e, h, ?_, ?_⟩
  · rw [Float.Model.ofInt, ofInt_eq_round hn, hround]
    exact unpack_pack_normal _ m e h hl hu hpos hbound
  · rw [Float.Model.ofInt, ofInt_eq_round (neg_ne_zero.mpr hn), Int.natAbs_neg, hround, hsign]
    exact unpack_pack_normal _ m e h hl hu hpos hbound

lemma unpack_ofInt_zero : (Float.Model.ofInt 0).unpack = .zero .positive := rfl

/-! ### Sums -/

lemma unpacked_add_comm (l r : UnpackedFloat) :
    UnpackedFloat.add spec l r = UnpackedFloat.add spec r l := by
  cases l with
  | notANumber => cases r <;> rfl
  | infinity s =>
    cases r with
    | infinity t => cases s <;> cases t <;> rfl
    | _ => rfl
  | zero s =>
    cases r with
    | zero t => cases s <;> cases t <;> rfl
    | _ => rfl
  | finite s m e h =>
    cases r with
    | finite t n f h' =>
      simp only [UnpackedFloat.add, min_comm e f, add_comm (Sign.apply s _)]
    | _ => rfl

lemma add_comm (l r : Float) : l + r = r + l :=
  congrArg (fun u => Float.ofModel (Float.Model.pack u)) (unpacked_add_comm _ _)

lemma eq_of_unpack {y : Float} (h : x.toModel.unpack = y.toModel.unpack) : x = y := by
  rw [← ofModel_pack_unpack x, h, ofModel_pack_unpack]

lemma unpack_negativeZero : (-0.0 : Float).toModel.unpack = .zero .negative := by
  have h : (-0.0 : Float) = .ofModel (.pack (.zero .negative)) := by decide +kernel
  rw [h]
  rfl

lemma unpack_eq_negativeZero (h : x.toModel.unpack = .zero .negative) : x = -0.0 :=
  eq_of_unpack (h.trans unpack_negativeZero.symm)

/-- An integer as a float. -/
def ofInteger (n : ℤ) : Float := .ofModel (.ofInt n)

lemma add_eq (x y : Float) :
    x + y = .ofModel (.pack (UnpackedFloat.add spec x.toModel.unpack y.toModel.unpack)) := rfl

lemma sub_eq (x y : Float) :
    x - y = .ofModel (.pack (UnpackedFloat.sub spec x.toModel.unpack y.toModel.unpack)) := rfl

/-- What a zero leaves as it is. -/
lemma unpacked_zero {u : UnpackedFloat} (hneg : u ≠ .zero .negative) :
    UnpackedFloat.add spec (.zero .positive) u = u ∧
      UnpackedFloat.add spec (.zero .negative) u = u ∧
      UnpackedFloat.sub spec u (.zero .positive) = u := by
  cases u with
  | zero s =>
    cases s with
    | negative => exact absurd rfl hneg
    | positive => exact ⟨rfl, rfl, rfl⟩
  | _ => exact ⟨rfl, rfl, rfl⟩

lemma unpack_ne (hx : x ≠ -0.0) : x.toModel.unpack ≠ .zero .negative := fun h =>
  hx (unpack_eq_negativeZero h)

lemma unpack_zero : (ofInteger 0).toModel.unpack = .zero .positive := unpack_ofInt_zero

lemma zero_add (hx : x ≠ -0.0) : ofInteger 0 + x = x := by
  rw [add_eq, unpack_zero, (unpacked_zero (unpack_ne hx)).1, ofModel_pack_unpack]

lemma ofInteger_ne (hlt : n.natAbs < 2 ^ 64) : ofInteger n ≠ -0.0 := by
  intro heq
  have h : (ofInteger n).toModel.unpack = .zero .negative := heq ▸ unpack_negativeZero
  by_cases hn : n = 0
  · subst hn
    cases unpack_ofInt_zero.symm.trans h
  · obtain ⟨m, e, _, hunpack, -⟩ := unpack_ofInt hn hlt
    cases hunpack.symm.trans h

lemma negativeZero_add (hx : x ≠ -0.0) : -0.0 + x = ofInteger 0 + x := by
  rw [zero_add hx, add_eq, unpack_negativeZero, (unpacked_zero (unpack_ne hx)).2.1,
    ofModel_pack_unpack]

/-- Adding to zero first makes no difference, since no integer is the negative zero. -/
lemma zero_add_add (x : Float) (hlt : n.natAbs < 2 ^ 64) :
    ofInteger 0 + x + ofInteger n = x + ofInteger n := by
  by_cases hx : x = -0.0
  · have hzero : ofInteger 0 + -0.0 = ofInteger 0 := by decide +kernel
    rw [hx, hzero, negativeZero_add (ofInteger_ne hlt)]
  · rw [zero_add hx]

lemma sub_ofInteger_zero (hx : x ≠ -0.0) : x - ofInteger 0 = x + ofInteger 0 := by
  rw [add_comm, zero_add hx, sub_eq, unpack_zero, (unpacked_zero (unpack_ne hx)).2.2,
    ofModel_pack_unpack]

/-- Subtracting an integer is adding its opposite, but for zero from the negative zero. -/
lemma sub_ofInteger (x : Float) (hlt : n.natAbs < 2 ^ 64) (h : n ≠ 0 ∨ x ≠ -0.0) :
    x - ofInteger n = x + ofInteger (-n) := by
  by_cases hn : n = 0
  · subst hn
    exact sub_ofInteger_zero (h.resolve_left fun hne => hne rfl)
  obtain ⟨m, e, hm, hpos, hneg⟩ := unpack_ofInt hn hlt
  rw [sub_eq, add_eq]
  change Float.ofModel (.pack (UnpackedFloat.sub spec _ (Float.Model.ofInt n).unpack)) =
    .ofModel (.pack (UnpackedFloat.add spec _ (Float.Model.ofInt (-n)).unpack))
  rw [hpos, hneg]
  cases x.toModel.unpack with
  | finite s m' e' h' =>
    have happly : ∀ k : ℤ, (-signOf n).apply k = -(signOf n).apply k := by
      intro k
      cases signOf n
      · exact (neg_neg k).symm
      · rfl
    simp only [UnpackedFloat.sub, UnpackedFloat.add, happly, sub_eq_add_neg]
  | _ => rfl

end Neetan.FloatSums
