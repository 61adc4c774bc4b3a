import Neetan.Fp80RoundToInt
import Mathlib.Data.Nat.Digits.Defs

/-!
Packed decimal images: eighteen decimal digits, two in a byte, and a sign in the last byte.

An image is read two digits at a time, and written so; a number in range is stored as the image of
its value rounded to an integer, which is unique.
-/

namespace Neetan.SoftFloat

open MachineInt RealRounding

/-! ### Loading and Storing -/

namespace Fp80

/-- The digits of the bytes below an index, behind those of the bytes above it. -/
def bcdDigits (bytes : Vector (BitVec 8) 10) (value : ℕ) : ℕ → Option ℕ
  | 0 => some value
  | index + 1 => do
    let byte := bytes.toList.getD index 0
    let highDigit := (byte >>> 4).toNat
    let lowDigit := (byte &&& 0x0F).toNat
    let value ← checkedMul 64 value 100
    let value ← checkedAdd 64 value (highDigit * 10)
    let value ← checkedAdd 64 value lowDigit
    bcdDigits bytes value index

def fromBcd (bytes : Vector (BitVec 8) 10) (ef : ExceptionFlags) :
    Option (Fp80 × ExceptionFlags) := do
  let sign : Bool := bytes[9] &&& 0x80 ≠ 0
  let value ← bcdDigits bytes 0 9
  if value = 0 then return (zero, ef)
  else
    let result := fromI64 (castSigned 64 value)
    return (if sign then result.negate else result, ef)

def indefiniteBcd : Vector (BitVec 8) 10 :=
  #v[0x00, 0x00, 0x00, 0x00, 0x00, 0x00, 0x00, 0xC0, 0xFF, 0xFF]

def maxBcd : ℕ := 999999999999999999

/-- Two digits of what remains in each byte. -/
def bcdBytes (remaining byteIndex : ℕ) (result : Vector (BitVec 8) 10) : Vector (BitVec 8) 10 :=
  if _h : 0 < remaining ∧ byteIndex < 9 then
    let low := remaining % 10
    let high := remaining / 10 % 10
    bcdBytes (remaining / 10 / 10) (byteIndex + 1)
      (result.set byteIndex (BitVec.ofNat 8 high <<< 4 ||| BitVec.ofNat 8 low))
  else result
termination_by 9 - byteIndex

def toBcd (a : Fp80) (rc : RoundingMode) (ef : ExceptionFlags) :
    Option (Vector (BitVec 8) 10 × ExceptionFlags) := do
  let (unsupported, ef) := flagUnsupportedOperands [a] ef
  if unsupported then return (indefiniteBcd, ef)
  else if a.isNan || a.isInfinity then return (indefiniteBcd, { ef with invalid := true })
  else if a.isZero then return (Vector.replicate 10 0, ef)
  else if 63 < a.trueExponent then return (indefiniteBcd, { ef with invalid := true })
  else
    let (magnitude, hasFraction, roundedUp) ← a.bcdMagnitude rc
    if maxBcd < magnitude then return (indefiniteBcd, { ef with invalid := true })
    else
      let ef := ef.rounding hasFraction roundedUp
      if magnitude = 0 then return (Vector.replicate 10 0, ef)
      else
        let result := bcdBytes magnitude 0 (Vector.replicate 10 0)
        return (if a.sign then result.set 9 0x80 else result, ef)

end Fp80

/-! ### Images -/

/-- The number of two digits in a byte. -/
def bytePair (byte : BitVec 8) : ℕ := (byte >>> 4).toNat * 10 + (byte &&& 0x0F).toNat

/-- The byte of two digits. -/
def pairByte (n : ℕ) : BitVec 8 := BitVec.ofNat 8 (n / 10) <<< 4 ||| BitVec.ofNat 8 (n % 10)

/-- A byte holds two decimal digits. -/
def IsPacked (byte : BitVec 8) : Prop := (byte >>> 4).toNat < 10 ∧ (byte &&& 0x0F).toNat < 10

def bcdPairs (bytes : Vector (BitVec 8) 10) : List ℕ := (bytes.toList.take 9).map bytePair

/-- Eighteen decimal digits and a sign. -/
structure BcdImage (bytes : Vector (BitVec 8) 10) : Prop where
  digits : ∀ byte ∈ bytes.toList.take 9, IsPacked byte
  sign : bytes[9] = 0x00 ∨ bytes[9] = 0x80

/-- The size of the integer of an image. -/
def bcdSize (bytes : Vector (BitVec 8) 10) : ℕ := Nat.ofDigits 100 (bcdPairs bytes)

/-- The integer of an image. -/
def bcdInteger (bytes : Vector (BitVec 8) 10) : ℤ :=
  signed (bytes[9] = 0x80 : Bool) (bcdSize bytes : ℤ)

/-- The image with a sign and no digit other than zero. -/
def negativeZeroImage : Vector (BitVec 8) 10 := (Vector.replicate 10 0).set 9 0x80

/-- An image stands for its integer; that of zero has no sign. -/
structure StandsFor (bytes : Vector (BitVec 8) 10) (n : ℤ) : Prop where
  image : BcdImage bytes
  value : bcdInteger bytes = n
  sign : bytes[9] = 0x80 → n ≠ 0

lemma bytePair_pairByte : ∀ n < 100, bytePair (pairByte n) = n ∧ IsPacked (pairByte n) := by
  unfold IsPacked
  decide

lemma pairByte_bytePair : ∀ byte, IsPacked byte → bytePair byte < 100 ∧
    pairByte (bytePair byte) = byte := by
  unfold IsPacked
  decide

lemma length_bcdPairs (bytes : Vector (BitVec 8) 10) : (bcdPairs bytes).length = 9 := by
  simp [bcdPairs]

lemma bytes_split (bytes : Vector (BitVec 8) 10) :
    bytes.toList = bytes.toList.take 9 ++ [bytes[9]] := by
  have hlast : bytes.toList.drop 9 = [bytes[9]] := by
    rw [List.drop_eq_getElem_cons (by simp), List.drop_of_length_le (by simp)]
    simp
  rw [← hlast, List.take_append_drop]

namespace BcdImage

variable {bytes other : Vector (BitVec 8) 10}

lemma pair_lt (h : BcdImage bytes) : ∀ pair ∈ bcdPairs bytes, pair < 100 := by
  intro pair hpair
  obtain ⟨byte, hbyte, rfl⟩ := List.mem_map.1 hpair
  exact (pairByte_bytePair byte (h.digits byte hbyte)).1

lemma size_lt (h : BcdImage bytes) : bcdSize bytes < 10 ^ 18 := by
  have hlt := Nat.ofDigits_lt_base_pow_length (by norm_num) h.pair_lt
  rw [length_bcdPairs] at hlt
  exact hlt.trans_eq (by norm_num)

lemma ext (h : BcdImage bytes) (h' : BcdImage other) (hsize : bcdSize bytes = bcdSize other)
    (hsign : bytes[9] = other[9]) : bytes = other := by
  have hpairs := Nat.ofDigits_inj_of_len_eq (by norm_num)
    ((length_bcdPairs bytes).trans (length_bcdPairs other).symm) h.pair_lt h'.pair_lt hsize
  have hback : ∀ {b : Vector (BitVec 8) 10}, BcdImage b →
      (bcdPairs b).map pairByte = b.toList.take 9 := by
    intro b hb
    unfold bcdPairs
    rw [List.map_map]
    refine (List.map_congr_left fun byte hbyte => ?_).trans (List.map_id _)
    exact (pairByte_bytePair byte (hb.digits byte hbyte)).2
  apply Vector.toList_inj.1
  rw [bytes_split bytes, bytes_split other, ← hback h, ← hback h', hpairs, hsign]

end BcdImage

lemma StandsFor.eq {bytes other : Vector (BitVec 8) 10} {n : ℤ} (h : StandsFor bytes n)
    (h' : StandsFor other n) : bytes = other := by
  have hone : ∀ {b : Vector (BitVec 8) 10}, StandsFor b n →
      bcdSize b = n.natAbs ∧ (b[9] = 0x80 ↔ n < 0) := by
    intro b hb
    have hvalue := hb.value
    unfold bcdInteger at hvalue
    by_cases hminus : b[9] = 0x80
    · have hne := hb.sign hminus
      rw [decide_eq_true hminus] at hvalue
      change -(bcdSize b : ℤ) = n at hvalue
      exact ⟨by omega, iff_of_true hminus (by omega)⟩
    · rw [decide_eq_false hminus] at hvalue
      change (bcdSize b : ℤ) = n at hvalue
      exact ⟨by omega, iff_of_false hminus (by omega)⟩
  obtain ⟨hsize, hsign⟩ := hone h
  obtain ⟨hsize', hsign'⟩ := hone h'
  refine h.image.ext h'.image (hsize.trans hsize'.symm) ?_
  rcases h.image.sign with hb | hb <;> rcases h'.image.sign with hb' | hb'
  · rw [hb, hb']
  · exact absurd (hsign.2 (hsign'.1 hb')) (by rw [hb]; decide)
  · exact absurd (hsign'.2 (hsign.1 hb)) (by rw [hb']; decide)
  · rw [hb, hb']

/-! ### Writing -/

namespace Fp80

lemma bcdBytes_get (remaining k : ℕ) (result : Vector (BitVec 8) 10) (i : ℕ) (hi : i < 10)
    (hzero : ∀ j (hj : j < 10), k ≤ j → j < 9 → result[j] = 0) :
    (bcdBytes remaining k result)[i] =
      if k ≤ i ∧ i < 9 then pairByte (remaining / 100 ^ (i - k) % 100) else result[i] := by
  induction remaining, k, result using bcdBytes.induct with
  | case1 remaining k result h low high ih =>
    have hunfold : bcdBytes remaining k result = bcdBytes (remaining / 10 / 10) (k + 1)
        (result.set k (BitVec.ofNat 8 high <<< 4 ||| BitVec.ofNat 8 low)) := by
      rw [bcdBytes, dif_pos h]
    have hstep := ih fun j hj hlow hhigh => by
      rw [Vector.getElem_set_ne _ _ (by omega)]
      exact hzero j hj (by omega) hhigh
    refine (getElem_congr_coll hunfold).trans (hstep.trans ?_)
    have hdiv : remaining / 10 / 10 = remaining / 100 := Nat.div_div_eq_div_mul _ _ _
    have hbyte : BitVec.ofNat 8 (remaining / 10 % 10) <<< 4 ||| BitVec.ofNat 8 (remaining % 10) =
        pairByte (remaining % 100) := by
      have hhigh : remaining % 100 / 10 = remaining / 10 % 10 := by omega
      have hlow : remaining % 100 % 10 = remaining % 10 := by omega
      rw [pairByte, hhigh, hlow]
    by_cases hk : k + 1 ≤ i ∧ i < 9
    · have hexp : i - (k + 1) + 1 = i - k := by omega
      rw [if_pos hk, if_pos ⟨by omega, hk.2⟩, hdiv, Nat.div_div_eq_div_mul, ← pow_succ', hexp]
    · rw [if_neg hk]
      by_cases heq : i = k
      · subst heq
        rw [if_pos ⟨le_rfl, h.2⟩, Vector.getElem_set_self, Nat.sub_self, pow_zero, Nat.div_one]
        exact hbyte
      · rw [if_neg (by omega), Vector.getElem_set_ne _ _ (Ne.symm heq)]
  | case2 remaining k result h =>
    have hunfold : bcdBytes remaining k result = result := by
      rw [bcdBytes, dif_neg h]
    refine (getElem_congr_coll hunfold).trans ?_
    by_cases hk : k ≤ i ∧ i < 9
    · have hnone : remaining = 0 := by omega
      rw [if_pos hk, hzero i hi hk.1 hk.2, hnone, Nat.zero_div]
      rfl
    · rw [if_neg hk]

end Fp80

lemma ofDigits_pairs (k n : ℕ) :
    Nat.ofDigits 100 ((List.range k).map fun i => n / 100 ^ i % 100) = n % 100 ^ k := by
  induction k generalizing n with
  | zero => rw [pow_zero, Nat.mod_one]; rfl
  | succ k ih =>
    have htail : (List.range k).map ((fun i => n / 100 ^ i % 100) ∘ Nat.succ) =
        (List.range k).map fun i => n / 100 / 100 ^ i % 100 := by
      refine List.map_congr_left fun i _ => ?_
      change n / 100 ^ (i + 1) % 100 = _
      rw [pow_succ', Nat.div_div_eq_div_mul]
    rw [List.range_succ_eq_map, List.map_cons, List.map_map, htail, Nat.ofDigits_cons, ih, pow_zero,
      Nat.div_one, pow_succ', Nat.mod_mul]

lemma bcdBytes_image {n : ℕ} (hn : n < 10 ^ 18) (sign : Bool) :
    BcdImage (if sign then (Fp80.bcdBytes n 0 (Vector.replicate 10 0)).set 9 0x80
      else Fp80.bcdBytes n 0 (Vector.replicate 10 0)) ∧
    bcdInteger (if sign then (Fp80.bcdBytes n 0 (Vector.replicate 10 0)).set 9 0x80
      else Fp80.bcdBytes n 0 (Vector.replicate 10 0)) = signed sign (n : ℤ) := by
  have hget := fun i hi => Fp80.bcdBytes_get n 0 (Vector.replicate 10 0) i hi
    fun j hj _ _ => Vector.getElem_replicate hj
  generalize hbytes : Fp80.bcdBytes n 0 (Vector.replicate 10 0) = bytes at hget
  have htake : bytes.toList.take 9 = (List.range 9).map fun i => pairByte (n / 100 ^ i % 100) := by
    refine List.ext_getElem (by simp) fun i hi _ => ?_
    have hi' : i < 9 := by simpa using hi
    rw [List.getElem_take, List.getElem_map, List.getElem_range, Vector.getElem_toList,
      hget i (by omega), if_pos ⟨Nat.zero_le i, hi'⟩, Nat.sub_zero]
  have hlast : bytes[9] = 0 := by
    rw [hget 9 (by norm_num), if_neg (by norm_num), Vector.getElem_replicate]
  have hset : (bytes.set 9 0x80).toList.take 9 = bytes.toList.take 9 := by
    rw [Vector.toList_set, List.take_set_of_le (le_refl 9)]
  have hpairs : (bytes.toList.take 9).map bytePair =
      (List.range 9).map fun i => n / 100 ^ i % 100 := by
    rw [htake, List.map_map]
    exact List.map_congr_left fun i _ => (bytePair_pairByte _ (Nat.mod_lt _ (by norm_num))).1
  have hsize : Nat.ofDigits 100 ((bytes.toList.take 9).map bytePair) = n := by
    rw [hpairs, ofDigits_pairs]
    exact Nat.mod_eq_of_lt (hn.trans_eq (by norm_num))
  have hpacked : ∀ byte ∈ bytes.toList.take 9, IsPacked byte := by
    rw [htake]
    intro byte hbyte
    obtain ⟨i, -, rfl⟩ := List.mem_map.1 hbyte
    exact (bytePair_pairByte _ (Nat.mod_lt _ (by norm_num))).2
  cases sign with
  | false =>
    rw [if_neg Bool.false_ne_true]
    refine ⟨⟨hpacked, .inl hlast⟩, ?_⟩
    unfold bcdInteger bcdSize bcdPairs
    rw [hsize, hlast]
    rfl
  | true =>
    rw [if_pos rfl]
    have hsign : (bytes.set 9 0x80)[9] = 0x80 := Vector.getElem_set_self _
    refine ⟨⟨hset ▸ hpacked, .inr hsign⟩, ?_⟩
    unfold bcdInteger bcdSize bcdPairs
    rw [hset, hsize, hsign]
    rfl

lemma standsFor_bytes {n : ℕ} (hn : n < 10 ^ 18) (hne : n ≠ 0) (sign : Bool) :
    StandsFor (if sign then (Fp80.bcdBytes n 0 (Vector.replicate 10 0)).set 9 0x80
      else Fp80.bcdBytes n 0 (Vector.replicate 10 0)) (signed sign (n : ℤ)) := by
  obtain ⟨himage, hvalue⟩ := bcdBytes_image hn sign
  refine ⟨himage, hvalue, fun _ hzero => hne ?_⟩
  cases sign
  · exact Int.natCast_eq_zero.1 hzero
  · exact Int.natCast_eq_zero.1 (neg_eq_zero.1 hzero)

/-- The image with a sign and no digit is the only one with the integer zero and a sign. -/
lemma bcdInteger_ne_zero {bytes : Vector (BitVec 8) 10} (h : BcdImage bytes)
    (hsign : bytes[9] = 0x80) (hne : bytes ≠ negativeZeroImage) : bcdInteger bytes ≠ 0 := by
  intro hzero
  have hsize : bcdSize bytes = 0 := by
    unfold bcdInteger at hzero
    rw [decide_eq_true hsign] at hzero
    exact Int.natCast_eq_zero.1 (neg_eq_zero.1 hzero)
  obtain ⟨himage, hvalue⟩ := @bcdBytes_image 0 (by norm_num) true
  have hbytes : Fp80.bcdBytes 0 0 (Vector.replicate 10 0) = Vector.replicate 10 0 := by
    rw [Fp80.bcdBytes, dif_neg (by simp)]
  rw [if_pos rfl, hbytes] at himage
  have hlast : negativeZeroImage[9] = 0x80 := rfl
  have hnone : bcdSize negativeZeroImage = 0 := by decide
  exact hne (h.ext himage (hsize.trans hnone.symm) (hsign.trans hlast.symm))

end Neetan.SoftFloat
