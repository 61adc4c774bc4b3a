import Neetan.Fp80Theorems

/-!
What the arithmetic returns when an operand is no number.

A quiet operand wins over a signalling one, and among two of a kind the larger significand; a
difference sees its second operand with the other sign.
-/

namespace Neetan.SoftFloat

inductive Operation where
  | add
  | sub
  | mul
  | div
  deriving DecidableEq, Repr

def Operation.run : Operation → Fp80 → Fp80 → RoundingMode → Precision → ExceptionFlags →
    Option (Fp80 × ExceptionFlags)
  | .add => Fp80.add
  | .sub => Fp80.sub
  | .mul => Fp80.mul
  | .div => Fp80.div

namespace Fp80

variable {a b : Fp80}

/-! ### Kinds of Operands -/

lemma quiet_bit (x : BitVec 64) : x &&& 0x4000000000000000 = 0 ↔ x.getLsbD 62 = false := by
  rw [show (0x4000000000000000 : BitVec 64) = BitVec.twoPow 64 62 by decide, BitVec.and_twoPow]
  split
  case isTrue h =>
    rw [h]
    exact iff_of_false (by decide) fun h => Bool.false_ne_true h.symm
  case isFalse h => exact iff_of_true rfl (Bool.eq_false_iff.2 h)

lemma getLsbD_quieten (a : Fp80) (i : ℕ) :
    a.quieten.significand.getLsbD i = (a.significand.getLsbD i || decide (i = 62)) := by
  unfold quieten
  rw [show (0x4000000000000000 : BitVec 64) = BitVec.twoPow 64 62 by decide, BitVec.getLsbD_or,
    BitVec.getLsbD_twoPow, decide_eq_true (show 62 < 64 by omega), Bool.true_and]
  exact congrArg _ (decide_eq_decide.2 eq_comm)

lemma isNan_iff : a.isNan = true ↔
    a.exponent = 0x7FFF ∧ a.significand &&& 0x7FFFFFFFFFFFFFFF ≠ 0 := by
  rw [isNan, Bool.and_eq_true, decide_eq_true_iff, decide_eq_true_iff]

lemma isSignalingNan_iff : a.isSignalingNan = true ↔
    a.isNan = true ∧ a.jBit = true ∧ a.significand.getLsbD 62 = false := by
  rw [isNan_iff, isSignalingNan, Bool.and_eq_true, Bool.and_eq_true, Bool.and_eq_true,
    decide_eq_true_iff, decide_eq_true_iff, decide_eq_true_iff, quiet_bit, fraction]
  exact ⟨fun ⟨⟨⟨he, hj⟩, hq⟩, hf⟩ => ⟨⟨he, hf⟩, hj, hq⟩,
    fun ⟨⟨he, hf⟩, hj, hq⟩ => ⟨⟨⟨he, hj⟩, hq⟩, hf⟩⟩

lemma isQuietNan_iff : a.isQuietNan = true ↔
    a.exponent = 0x7FFF ∧ a.jBit = true ∧ a.significand.getLsbD 62 = true := by
  rw [isQuietNan, Bool.and_eq_true, Bool.and_eq_true, decide_eq_true_iff, decide_eq_true_iff, ne_eq,
    quiet_bit, Bool.not_eq_false]
  exact and_assoc

lemma isNan_of_isQuietNan (h : a.isQuietNan = true) : a.isNan = true := by
  obtain ⟨hexp, _, hbit⟩ := isQuietNan_iff.1 h
  refine isNan_iff.2 ⟨hexp, fun hzero => ?_⟩
  have hmask := congrArg (fun x => BitVec.getLsbD x 62) hzero
  rw [BitVec.getLsbD_and, hbit] at hmask
  exact absurd hmask (by decide)

lemma nan_kinds (ha : a.isUnsupported = false) (h : a.isNan = true) :
    a.isSignalingNan = true ∨ a.isQuietNan = true := by
  obtain ⟨hexp, hfraction⟩ := isNan_iff.1 h
  have hj : a.jBit = true := by
    by_contra hj
    rw [Bool.not_eq_true] at hj
    unfold isUnsupported fraction at ha
    rw [hexp, hj, decide_eq_true hfraction, decide_eq_false hfraction] at ha
    simp at ha
  cases hbit : a.significand.getLsbD 62 with
  | false => exact .inl (isSignalingNan_iff.2 ⟨h, hj, hbit⟩)
  | true => exact .inr (isQuietNan_iff.2 ⟨hexp, hj, hbit⟩)

lemma not_quiet_of_signaling (h : a.isSignalingNan = true) : a.isQuietNan = false :=
  Bool.eq_false_iff.2 fun hq => by
    have := (isSignalingNan_iff.1 h).2.2
    rw [(isQuietNan_iff.1 hq).2.2] at this
    cases this

lemma not_signaling_of_quiet (h : a.isQuietNan = true) : a.isSignalingNan = false :=
  Bool.eq_false_iff.2 fun hs => by rw [not_quiet_of_signaling hs] at h; cases h

lemma kinds_of_not_nan (h : a.isNan = false) :
    a.isSignalingNan = false ∧ a.isQuietNan = false := by
  refine ⟨Bool.eq_false_iff.2 fun hs => ?_, Bool.eq_false_iff.2 fun hq => ?_⟩
  · rw [(isSignalingNan_iff.1 hs).1] at h
    cases h
  · rw [isNan_of_isQuietNan hq] at h
    cases h

lemma quieten_of_quiet (h : a.isQuietNan = true) : a.quieten = a := by
  have hsig : a.quieten.significand = a.significand := by
    refine BitVec.eq_of_getLsbD_eq fun i _ => ?_
    rw [getLsbD_quieten]
    by_cases hi : i = 62
    · rw [hi, (isQuietNan_iff.1 h).2.2, Bool.true_or]
    · rw [decide_eq_false hi, Bool.or_false]
  exact congrArg (fun s => Fp80.mk s a.signExponent) hsig

lemma quieten_significand_inj (ha : a.isSignalingNan = true) (hb : b.isSignalingNan = true) :
    a.quieten.significand = b.quieten.significand ↔ a.significand = b.significand := by
  refine ⟨fun h => BitVec.eq_of_getLsbD_eq fun i _ => ?_, fun h => ?_⟩
  · by_cases hi : i = 62
    · rw [hi, (isSignalingNan_iff.1 ha).2.2, (isSignalingNan_iff.1 hb).2.2]
    · have hbit := congrArg (fun x => BitVec.getLsbD x i) h
      simpa only [getLsbD_quieten, decide_eq_false hi, Bool.or_false] using hbit
  · unfold quieten
    rw [h]

@[simp] lemma isUnsupported_negate (a : Fp80) : a.negate.isUnsupported = a.isUnsupported := by
  unfold isUnsupported isUnnormal
  rw [exponent_negate]
  rfl

@[simp] lemma isNan_negate (a : Fp80) : a.negate.isNan = a.isNan := by
  unfold isNan
  rw [exponent_negate]
  rfl

@[simp] lemma isSignalingNan_negate (a : Fp80) : a.negate.isSignalingNan = a.isSignalingNan := by
  unfold isSignalingNan
  rw [exponent_negate]
  rfl

@[simp] lemma isQuietNan_negate (a : Fp80) : a.negate.isQuietNan = a.isQuietNan := by
  unfold isQuietNan
  rw [exponent_negate]
  rfl

lemma negate_ne (a : Fp80) : a.negate ≠ a := fun h => by
  have hsign := congrArg sign h
  rw [sign_negate] at hsign
  exact absurd hsign (Bool.not_ne_self _)

lemma quieten_negate (a : Fp80) : a.negate.quieten = a.quieten.negate := rfl

/-- The encoding of an operand that is no number, by its sign and significand. -/
lemma eq_of_nan (ha : a.isNan = true) (hb : b.isNan = true) (hsign : a.sign = b.sign)
    (hsig : a.significand = b.significand) : a = b := by
  unfold isNan at ha hb
  simp only [Bool.and_eq_true, decide_eq_true_eq] at ha hb
  have hexp : a.signExponent = b.signExponent := by
    refine BitVec.eq_of_toNat_eq ?_
    have hea := ha.1
    have heb := hb.1
    rw [exponent_eq] at hea heb
    rw [sign_eq, sign_eq, decide_eq_decide] at hsign
    have := a.signExponent.isLt
    have := b.signExponent.isLt
    omega
  cases a
  cases b
  exact congr (congrArg _ hsig) hexp

/-! ### The Operand That Is Returned -/

/-- The result of `propagate_nan`. -/
def propagated (a b : Fp80) : Fp80 := (propagateNan a b .default).1

lemma propagateNan_eq (a b : Fp80) (ef : ExceptionFlags) : propagateNan a b ef =
    (propagated a b, if a.isSignalingNan || b.isSignalingNan then { ef with invalid := true }
      else ef) := rfl

lemma propagated_signaling (ha : a.isSignalingNan = true) (hb : b.isSignalingNan = true) :
    propagated a b = if b.quieten.significand ≤ a.quieten.significand then a.quieten
      else b.quieten := by
  unfold propagated propagateNan
  rw [ha, hb]
  rfl

lemma propagated_signaling_quiet (ha : a.isSignalingNan = true) (hb : b.isQuietNan = true) :
    propagated a b = b ∧ propagated b a = b := by
  unfold propagated propagateNan
  rw [ha, hb, not_quiet_of_signaling ha, not_signaling_of_quiet hb]
  exact ⟨rfl, rfl⟩

lemma propagated_quiet (ha : a.isQuietNan = true) (hb : b.isQuietNan = true) :
    propagated a b = if b.significand < a.significand then a
      else if a.significand < b.significand then b else if !a.sign && b.sign then a else b := by
  unfold propagated propagateNan
  rw [ha, hb, not_signaling_of_quiet ha, not_signaling_of_quiet hb]
  rfl

lemma propagated_one (ha : a.isUnsupported = false) (hnan : a.isNan = true)
    (hb : b.isNan = false) : propagated a b = a.quieten ∧ propagated b a = a.quieten := by
  obtain ⟨hs, hq⟩ := kinds_of_not_nan hb
  rcases nan_kinds ha hnan with hk | hk
  · unfold propagated propagateNan
    rw [hk, hs, hq, not_quiet_of_signaling hk]
    exact ⟨rfl, rfl⟩
  · rw [quieten_of_quiet hk]
    unfold propagated propagateNan
    rw [hk, hs, hq, not_signaling_of_quiet hk]
    exact ⟨rfl, rfl⟩

/-- A result that is the same quieted operand for both orders of the operands. -/
def Chosen (a b r r' : Fp80) : Prop :=
  (a.isNan = true ∧ r = a.quieten ∨ b.isNan = true ∧ r = b.quieten) ∧ r' = r

/-- Two signalling operands with one significand are told apart by their order alone. -/
lemma propagated_chosen_iff (ha : a.isUnsupported = false) (hb : b.isUnsupported = false)
    (hnan : a.isNan = true ∨ b.isNan = true) :
    Chosen a b (propagated a b) (propagated b a) ↔ ¬ (a.isSignalingNan = true ∧
      b.isSignalingNan = true ∧ a.significand = b.significand ∧ a.sign ≠ b.sign) := by
  cases hna : a.isNan with
  | false =>
    have hnb := hnan.resolve_left (by rw [hna]; exact Bool.false_ne_true)
    obtain ⟨h, h'⟩ := propagated_one hb hnb hna
    refine iff_of_true ⟨.inr ⟨hnb, h'⟩, h.trans h'.symm⟩ fun hs => ?_
    rw [(kinds_of_not_nan hna).1] at hs
    cases hs.1
  | true =>
    cases hnb : b.isNan with
    | false =>
      obtain ⟨h, h'⟩ := propagated_one ha hna hnb
      refine iff_of_true ⟨.inl ⟨hna, h⟩, h'.trans h.symm⟩ fun hs => ?_
      rw [(kinds_of_not_nan hnb).1] at hs
      cases hs.2.1
    | true =>
      rcases nan_kinds ha hna with hka | hka <;> rcases nan_kinds hb hnb with hkb | hkb
      · -- two signalling operands
        have hinj := quieten_significand_inj hka hkb
        rw [propagated_signaling hka hkb, propagated_signaling hkb hka]
        by_cases hle : b.quieten.significand ≤ a.quieten.significand
        · rw [if_pos hle]
          by_cases hle' : a.quieten.significand ≤ b.quieten.significand
          · have hsig := hinj.1 (BitVec.le_antisymm hle' hle)
            rw [if_pos hle']
            refine ⟨fun h hs => hs.2.2.2 (congrArg sign h.2).symm, fun h => ⟨.inl ⟨hna, rfl⟩, ?_⟩⟩
            have hsign : a.sign = b.sign := by
              by_contra hne
              exact h ⟨hka, hkb, hsig, hne⟩
            rw [eq_of_nan hna hnb hsign hsig]
          · rw [if_neg hle']
            exact iff_of_true ⟨.inl ⟨hna, rfl⟩, rfl⟩ fun hs =>
              hle' (hinj.2 hs.2.2.1 ▸ BitVec.le_refl _)
        · have hle' : a.quieten.significand ≤ b.quieten.significand :=
            BitVec.le_of_lt (BitVec.not_le.1 hle)
          rw [if_neg hle, if_pos hle']
          exact iff_of_true ⟨.inr ⟨hnb, rfl⟩, rfl⟩ fun hs =>
            hle (hinj.2 hs.2.2.1 ▸ BitVec.le_refl _)
      · obtain ⟨h, h'⟩ := propagated_signaling_quiet hka hkb
        refine iff_of_true ⟨.inr ⟨hnb, h.trans (quieten_of_quiet hkb).symm⟩, h'.trans h.symm⟩
          fun hs => ?_
        rw [not_signaling_of_quiet hkb] at hs
        cases hs.2.1
      · obtain ⟨h, h'⟩ := propagated_signaling_quiet hkb hka
        refine iff_of_true ⟨.inl ⟨hna, h'.trans (quieten_of_quiet hka).symm⟩, h.trans h'.symm⟩
          fun hs => ?_
        rw [not_signaling_of_quiet hka] at hs
        cases hs.1
      · -- two quiet operands: the tie goes to the positive one
        refine iff_of_true ⟨?_, ?_⟩ fun hs => ?_
        · rw [propagated_quiet hka hkb, quieten_of_quiet hka, quieten_of_quiet hkb]
          split_ifs
          · exact .inl ⟨hna, rfl⟩
          · exact .inr ⟨hnb, rfl⟩
          · exact .inl ⟨hna, rfl⟩
          · exact .inr ⟨hnb, rfl⟩
        · rw [propagated_quiet hka hkb, propagated_quiet hkb hka]
          rcases BitVec.lt_trichotomy a.significand b.significand with hlt | heq | hlt
          · rw [if_pos hlt, if_neg (BitVec.not_lt.2 (BitVec.le_of_lt hlt)), if_pos hlt]
          · have hirrefl : ¬ b.significand < b.significand := BitVec.lt_irrefl _
            rw [heq, if_neg hirrefl, if_neg hirrefl, if_neg hirrefl, if_neg hirrefl]
            cases hsa : a.sign <;> cases hsb : b.sign
            · exact eq_of_nan hna hnb (hsa.trans hsb.symm) heq
            · rfl
            · rfl
            · exact eq_of_nan hna hnb (hsa.trans hsb.symm) heq
          · rw [if_neg (BitVec.not_lt.2 (BitVec.le_of_lt hlt)), if_pos hlt, if_pos hlt]
        · rw [not_signaling_of_quiet hka] at hs
          cases hs.1

/-- A difference returns its second operand with the other sign, so that only two like operands
give one result. -/
lemma propagated_negate_chosen_iff (ha : a.isUnsupported = false) (hb : b.isUnsupported = false)
    (hnan : a.isNan = true ∨ b.isNan = true) :
    Chosen a b (propagated a b.negate) (propagated b a.negate) ↔
      a = b ∧ ¬ (a.isQuietNan = true ∧ a.sign = true) := by
  have ha' : a.negate.isUnsupported = false := (isUnsupported_negate a).trans ha
  have hb' : b.negate.isUnsupported = false := (isUnsupported_negate b).trans hb
  cases hna : a.isNan with
  | false =>
    have hnb := hnan.resolve_left (by rw [hna]; exact Bool.false_ne_true)
    obtain ⟨_, h⟩ := propagated_one hb' ((isNan_negate b).trans hnb) hna
    refine iff_of_false (fun hc => ?_) fun heq => ?_
    · rcases hc.1 with ⟨hn, _⟩ | ⟨_, hr⟩
      · rw [hna] at hn
        cases hn
      · exact negate_ne b.quieten ((quieten_negate b).symm.trans (h.symm.trans hr))
    · rw [heq.1, hnb] at hna
      cases hna
  | true =>
    cases hnb : b.isNan with
    | false =>
      obtain ⟨h, _⟩ := propagated_one ha hna ((isNan_negate b).trans hnb)
      obtain ⟨_, h'⟩ := propagated_one ha' ((isNan_negate a).trans hna) hnb
      refine iff_of_false (fun hc => ?_) fun heq => ?_
      · rw [Chosen, h, h'] at hc
        exact negate_ne a.quieten hc.2
      · rw [← heq.1, hna] at hnb
        cases hnb
    | true =>
      have hna' := (isNan_negate a).trans hna
      have hnb' := (isNan_negate b).trans hnb
      rcases nan_kinds ha hna with hka | hka <;> rcases nan_kinds hb hnb with hkb | hkb
      · have hka' := (isSignalingNan_negate a).trans hka
        have hkb' := (isSignalingNan_negate b).trans hkb
        rw [propagated_signaling hka hkb', propagated_signaling hkb hka', quieten_negate,
          quieten_negate]
        change Chosen a b (if b.quieten.significand ≤ a.quieten.significand then _ else _)
          (if a.quieten.significand ≤ b.quieten.significand then _ else _) ↔ _
        have hquiet : ¬ (a.isQuietNan = true ∧ a.sign = true) := fun hq => by
          rw [not_quiet_of_signaling hka] at hq
          cases hq.1
        by_cases hle : b.quieten.significand ≤ a.quieten.significand
        · rw [if_pos hle]
          by_cases hle' : a.quieten.significand ≤ b.quieten.significand
          · have hsig := (quieten_significand_inj hka hkb).1 (BitVec.le_antisymm hle' hle)
            rw [if_pos hle']
            refine ⟨fun hc => ⟨?_, hquiet⟩, fun h => ⟨.inl ⟨hna, rfl⟩, by rw [h.1]⟩⟩
            exact eq_of_nan hna hnb (congrArg sign hc.2).symm hsig
          · rw [if_neg hle']
            exact iff_of_false (fun hc => negate_ne a.quieten hc.2) fun h =>
              hle' (h.1 ▸ BitVec.le_refl _)
        · have hle' : a.quieten.significand ≤ b.quieten.significand :=
            BitVec.le_of_lt (BitVec.not_le.1 hle)
          rw [if_neg hle, if_pos hle']
          exact iff_of_false (fun hc => negate_ne b.quieten hc.2.symm) fun h =>
            hle (h.1 ▸ BitVec.le_refl _)
      · obtain ⟨h, _⟩ := propagated_signaling_quiet hka ((isQuietNan_negate b).trans hkb)
        obtain ⟨_, h'⟩ := propagated_signaling_quiet ((isSignalingNan_negate a).trans hka) hkb
        refine iff_of_false (fun hc => ?_) fun heq => ?_
        · rw [Chosen, h, h'] at hc
          exact negate_ne b hc.2.symm
        · rw [heq.1, not_signaling_of_quiet hkb] at hka
          cases hka
      · obtain ⟨_, h⟩ := propagated_signaling_quiet ((isSignalingNan_negate b).trans hkb) hka
        obtain ⟨h', _⟩ := propagated_signaling_quiet hkb ((isQuietNan_negate a).trans hka)
        refine iff_of_false (fun hc => ?_) fun heq => ?_
        · rw [Chosen, h, h'] at hc
          exact negate_ne a hc.2
        · rw [← heq.1, not_signaling_of_quiet hka] at hkb
          cases hkb
      · rw [propagated_quiet hka ((isQuietNan_negate b).trans hkb),
          propagated_quiet hkb ((isQuietNan_negate a).trans hka), sign_negate, sign_negate]
        change Chosen a b (if b.significand < a.significand then _ else
          if a.significand < b.significand then _ else _) (if a.significand < b.significand then _
            else if b.significand < a.significand then _ else _) ↔ _
        rcases BitVec.lt_trichotomy a.significand b.significand with hlt | heq | hlt
        · rw [if_neg (BitVec.not_lt.2 (BitVec.le_of_lt hlt)), if_pos hlt, if_pos hlt]
          exact iff_of_false (fun hc => negate_ne b hc.2.symm) fun h =>
            BitVec.lt_irrefl _ (h.1 ▸ hlt)
        · have hirrefl : ¬ b.significand < b.significand := BitVec.lt_irrefl _
          rw [heq, if_neg hirrefl, if_neg hirrefl, if_neg hirrefl, if_neg hirrefl]
          -- the tie goes to the first operand if both are positive
          cases hsa : a.sign <;> cases hsb : b.sign
          · have hab := eq_of_nan hna hnb (hsa.trans hsb.symm) heq
            exact iff_of_true ⟨.inl ⟨hna, (quieten_of_quiet hka).symm⟩, hab.symm⟩
              ⟨hab, fun h => Bool.false_ne_true h.2⟩
          · refine iff_of_false (fun hc => ?_) fun h => ?_
            · have hsign : a.negate.sign = b.negate.sign := congrArg sign hc.2
              rw [sign_negate, sign_negate, hsa, hsb] at hsign
              cases hsign
            · rw [h.1, hsb] at hsa
              cases hsa
          · refine iff_of_false (fun hc => ?_) fun h => ?_
            · have hsign : a.negate.sign = b.negate.sign := congrArg sign hc.2
              rw [sign_negate, sign_negate, hsa, hsb] at hsign
              cases hsign
            · rw [h.1, hsb] at hsa
              cases hsa
          · refine iff_of_false (fun hc => ?_) fun h => h.2 ⟨hka, rfl⟩
            have hsign : b.negate.sign = true := by
              rcases hc.1 with ⟨_, hr⟩ | ⟨_, hr⟩
              · exact (congrArg sign hr).trans hsa
              · exact (congrArg sign hr).trans hsb
            rw [sign_negate, hsb] at hsign
            cases hsign
        · rw [if_pos hlt, if_neg (BitVec.not_lt.2 (BitVec.le_of_lt hlt)), if_pos hlt]
          exact iff_of_false (fun hc => negate_ne a hc.2) fun h =>
            BitVec.lt_irrefl _ (h.1 ▸ hlt)

end Fp80

/-! ### Operations -/

/-- The second operand as an operation sees it. -/
def Operation.second : Operation → Fp80 → Fp80
  | .sub, b => b.negate
  | _, b => b

lemma flagUnsupportedOperands_none {a b : Fp80} (ha : a.isUnsupported = false)
    (hb : b.isUnsupported = false) (ef : ExceptionFlags) :
    flagUnsupportedOperands [a, b] ef = (false, ef) := by
  unfold flagUnsupportedOperands
  rw [List.any_cons, List.any_cons, List.any_nil, ha, hb]
  exact congrArg (Prod.mk false) (congrArg (fun i => { ef with invalid := i }) (Bool.or_false _))

lemma Operation.run_nan (op : Operation) {a b : Fp80} (ha : a.isUnsupported = false)
    (hb : b.isUnsupported = false) (hnan : a.isNan = true ∨ b.isNan = true) (rc : RoundingMode)
    (pc : Precision) (ef : ExceptionFlags) :
    op.run a b rc pc ef = some (Fp80.propagateNan a (op.second b) ef) := by
  have hor : (a.isNan || b.isNan) = true := by rwa [Bool.or_eq_true]
  have hflags := flagUnsupportedOperands_none ha hb ef
  cases op with
  | add =>
    change Fp80.add a b rc pc ef = _
    rw [Fp80.add, hflags, hor]
    rfl
  | sub =>
    have hflags' := flagUnsupportedOperands_none ha ((Fp80.isUnsupported_negate b).trans hb) ef
    change Fp80.add a b.negate rc pc ef = _
    rw [Fp80.add, hflags', Fp80.isNan_negate, hor]
    rfl
  | mul =>
    change Fp80.mul a b rc pc ef = _
    rw [Fp80.mul, hflags, hor]
    rfl
  | div =>
    change Fp80.div a b rc pc ef = _
    rw [Fp80.div, hflags, hor]
    rfl

/-- The result is one of the operands that are no numbers, quieted and with its own sign, IE is
set exactly for a signalling operand, and the operands in the other order give the same. -/
def Operation.PropagatesNan (op : Operation) (a b : Fp80) (rc : RoundingMode) (pc : Precision)
    (ef : ExceptionFlags) : Prop :=
  ∃ r ef', op.run a b rc pc ef = some (r, ef') ∧
    (a.isNan = true ∧ r = a.quieten ∨ b.isNan = true ∧ r = b.quieten) ∧
    (ef'.invalid = true ↔
      ef.invalid = true ∨ a.isSignalingNan = true ∨ b.isSignalingNan = true) ∧
    ∃ ef'', op.run b a rc pc ef = some (r, ef'')

/-- A difference is of the same number twice, which is no negative quiet one; the other
operations have no two signalling operands that differ in their signs alone. -/
def Operation.TellsApart (op : Operation) (a b : Fp80) : Prop :=
  match op with
  | .sub => a = b ∧ ¬ (a.isQuietNan = true ∧ a.sign = true)
  | _ => ¬ (a.isSignalingNan = true ∧ b.isSignalingNan = true ∧ a.significand = b.significand ∧
      a.sign ≠ b.sign)

/-- **Propagation.** -/
theorem propagatesNan_iff (op : Operation) (a b : Fp80) (rc : RoundingMode) (pc : Precision)
    (ef : ExceptionFlags) (ha : a.isUnsupported = false) (hb : b.isUnsupported = false)
    (hnan : a.isNan = true ∨ b.isNan = true) :
    op.PropagatesNan a b rc pc ef ↔ op.TellsApart a b := by
  have hrun := op.run_nan ha hb hnan rc pc ef
  have hrun' := op.run_nan hb ha hnan.symm rc pc ef
  have hchosen : op.PropagatesNan a b rc pc ef ↔ Fp80.Chosen a b
      (Fp80.propagated a (op.second b)) (Fp80.propagated b (op.second a)) := by
    have hsignaling : (op.second b).isSignalingNan = b.isSignalingNan := by
      cases op with
      | sub => exact Fp80.isSignalingNan_negate b
      | add | mul | div => rfl
    rw [Fp80.propagateNan_eq] at hrun hrun'
    constructor
    · rintro ⟨r, ef', h, hr, _, ef'', h'⟩
      obtain ⟨rfl, _⟩ := Prod.ext_iff.1 (Option.some.inj (h.symm.trans hrun))
      obtain ⟨hsame, _⟩ := Prod.ext_iff.1 (Option.some.inj (h'.symm.trans hrun'))
      exact ⟨hr, hsame.symm⟩
    · intro h
      refine ⟨_, _, hrun, h.1, ?_, _, by rw [hrun', h.2]⟩
      rw [hsignaling]
      cases a.isSignalingNan <;> cases b.isSignalingNan <;> simp
  rw [hchosen]
  cases op with
  | sub => exact Fp80.propagated_negate_chosen_iff ha hb hnan
  | add | mul | div => exact Fp80.propagated_chosen_iff ha hb hnan

/-- A signalling operand. -/
def signaling : Fp80 := .fromBits 0x7FFF 0x8000000000000001

/-- It is returned quieted for its sum with one. -/
theorem propagatesNan_one :
    Operation.add.PropagatesNan signaling .one .nearestEven .extended .default :=
  (propagatesNan_iff .add signaling .one .nearestEven .extended .default (by decide) (by decide)
    (.inl (by decide))).2 fun h => absurd h.2.1 (by decide)

/-- One less the indefinite is the indefinite with the other sign, and the sum of two signalling
operands that differ in their signs depends on their order. -/
theorem not_propagatesNan :
    ¬ Operation.sub.PropagatesNan .one .indefinite .nearestEven .extended .default ∧
      ¬ Operation.add.PropagatesNan signaling signaling.negate .nearestEven .extended
        .default := by
  have hsub : Operation.sub.run .one .indefinite .nearestEven .extended .default =
      some (Fp80.indefinite.negate, .default) := by decide
  have hadd : Operation.add.run signaling signaling.negate .nearestEven .extended .default =
      some (signaling.quieten, { ExceptionFlags.default with invalid := true }) := by decide
  have hadd' : Operation.add.run signaling.negate signaling .nearestEven .extended .default =
      some (signaling.negate.quieten, { ExceptionFlags.default with invalid := true }) := by decide
  constructor
  · rintro ⟨r, ef', h, hr, _⟩
    obtain ⟨rfl, _⟩ := Prod.ext_iff.1 (Option.some.inj (h.symm.trans hsub))
    exact absurd hr (by decide)
  · rintro ⟨r, ef', h, _, _, ef'', h'⟩
    obtain ⟨rfl, _⟩ := Prod.ext_iff.1 (Option.some.inj (h.symm.trans hadd))
    obtain ⟨hsame, _⟩ := Prod.ext_iff.1 (Option.some.inj (h'.symm.trans hadd'))
    have hne : signaling.negate.quieten ≠ signaling.quieten := by decide
    exact hne hsame.symm

end Neetan.SoftFloat
