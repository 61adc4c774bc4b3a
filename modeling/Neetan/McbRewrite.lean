import Neetan.McbAllocate
import Neetan.McbOps

/-!
What the memory calls do to a sealed chain.

Each call rewrites the list of blocks: the blocks it keeps stay where they are, the range
stays covered, and the memory of kept blocks is left alone.
-/

namespace Neetan.Mcb

open Neetan.ByteMemory Neetan.MachineInt

/-- A sealed chain becomes another one over the same range. Kept blocks stay, with their
memory; of the rest, the paragraphs of a given set are left alone too. -/
structure Rewrites (s : ℕ) (kept : ℕ × Header → Prop) (extra : Set ℕ) (mem mem' : Memory)
    (bs bs' : List Header) : Prop where
  chain : Chain mem' s bs'
  isSealed : Sealed bs'
  extent_eq : extent bs' = extent bs
  kept_mem : ∀ x ∈ located s bs, kept x → x ∈ located s bs'
  frame : ChangesOnly mem mem' {p | s ≤ p ∧ p < s + extent bs ∧ p ∉ extra ∧
    ∀ x ∈ located s bs, kept x → p < x.1 ∨ x.1 + x.2.size < p}

variable {mem mem' mem'' : Memory} {s n t : ℕ} {b c : Header} {bs cs ds pre post : List Header}
  {kept : ℕ × Header → Prop} {extra : Set ℕ}

lemma Rewrites.refl (hch : Chain mem s bs) (hs : Sealed bs) : Rewrites s kept extra mem mem bs bs :=
  ⟨hch, hs, rfl, fun _ hx _ => hx, ChangesOnly.refl _ _⟩

lemma Rewrites.trans (h : Rewrites s kept extra mem mem' bs cs)
    (h' : Rewrites s kept extra mem' mem'' cs ds) : Rewrites s kept extra mem mem'' bs ds := by
  refine ⟨h'.chain, h'.isSealed, h'.extent_eq.trans h.extent_eq,
    fun x hx hk => h'.kept_mem x (h.kept_mem x hx hk) hk, h.frame.trans (h'.frame.mono ?_)⟩
  rintro p ⟨h1, h2, h3, h4⟩
  exact ⟨h1, h.extent_eq ▸ h2, h3, fun x hx hk => h4 x (h.kept_mem x hx hk) hk⟩

lemma Rewrites.replace (old new : List Header) {P : Set ℕ} (hch : Chain mem s (pre ++ (old ++ post)))
    (hs : Sealed (pre ++ (new ++ post))) (hext : extent new = extent old)
    (hnew : Chain mem' (s + extent pre) new) (hkept : ∀ x ∈ located (s + extent pre) old, ¬ kept x)
    (hco : ChangesOnly mem mem' P)
    (hP : ∀ p ∈ P, s + extent pre ≤ p ∧ p < s + extent pre + extent old ∧ p ∉ extra) :
    Rewrites s kept extra mem mem' (pre ++ (old ++ post)) (pre ++ (new ++ post)) := by
  rw [chain_append, chain_append] at hch
  obtain ⟨hpre, -, hpost⟩ := hch
  refine ⟨?_, hs, by simp [hext], fun x hx hk => ?_, hco.mono fun p hp => ?_⟩
  · rw [chain_append, chain_append, hext]
    refine ⟨hpre.of_changesOnly hco fun p hp => ?_, hnew, hpost.of_changesOnly hco fun p hp => ?_⟩
    · exact Or.inr (hP p hp).1
    · exact Or.inl (hP p hp).2.1
  · rw [located_append, located_append, List.mem_append, List.mem_append] at hx ⊢
    rw [hext]
    exact hx.imp_right fun h => h.imp_left fun h => absurd hk (hkept x h)
  · obtain ⟨h1, h2, h3⟩ := hP p hp
    refine ⟨by omega, by simp only [extent_append]; omega, h3, fun x hx hk => ?_⟩
    rw [located_append, located_append, List.mem_append, List.mem_append] at hx
    rcases hx with hx | hx | hx
    · have := located_range hx
      omega
    · exact absurd hk (hkept x hx)
    · have := located_range hx
      omega

lemma Rewrites.merge {P : Set ℕ} (h : Merges bs ds) (hch : Chain mem' s ds) (hs : Sealed ds)
    (hco : ChangesOnly mem mem' P) (hP : ∀ p ∈ P, p ∈ freeRange s bs ∧ p ∉ extra)
    (hkept : ∀ x, kept x → x.2.owner ≠ ownerFree) : Rewrites s kept extra mem mem' bs ds := by
  refine ⟨hch, hs, h.extent_eq, fun x hx hk => (h.located_owned (hkept x hk)).mpr hx,
    hco.mono fun p hp => ?_⟩
  obtain ⟨hfree, hextra⟩ := hP p hp
  obtain ⟨h1, h2⟩ := freeRange_range hfree
  refine ⟨h1, h2, hextra, fun x hx hk => ?_⟩
  by_contra hin
  push Not at hin
  exact not_mem_freeRange hx (hkept x hk) hin.1 hin.2 hfree

lemma Rewrites.weaken {kept' : ℕ × Header → Prop} {extra' : Set ℕ}
    (h : Rewrites s kept extra mem mem' bs ds) (hkept : ∀ x ∈ located s bs, kept' x → kept x)
    (hextra : ∀ p ∈ extra', p < s + extent bs → s ≤ p → p ∈ extra) :
    Rewrites s kept' extra' mem mem' bs ds := by
  refine ⟨h.chain, h.isSealed, h.extent_eq, fun x hx hk => h.kept_mem x hx (hkept x hx hk),
    h.frame.mono ?_⟩
  rintro p ⟨h1, h2, h3, h4⟩
  exact ⟨h1, h2, fun hp => h3 (hextra p hp h2 h1), fun x hx hk => h4 x hx (hkept x hx hk)⟩

/-! ### Types along a chain -/

lemma sealed_append (hne : cs ≠ []) :
    Sealed (bs ++ cs) ↔ (∀ b ∈ bs, b.blockType = typeM) ∧ Sealed cs := by
  refine ⟨fun h => ?_, fun h => h.2.append h.1⟩
  induction bs with
  | nil => exact ⟨nofun, h⟩
  | cons b bs ih =>
    obtain ⟨d, ds, hd⟩ := List.exists_cons_of_ne_nil (List.append_ne_nil_of_right_ne_nil bs hne)
    rw [List.cons_append, hd] at h
    obtain ⟨hm, hsealed⟩ := h
    rw [← hd] at hsealed
    obtain ⟨h1, h2⟩ := ih hsealed
    refine ⟨?_, h2⟩
    rintro e (_ | ⟨_, he⟩)
    · exact hm
    · exact h1 e he

lemma Sealed.replace_head (h : Sealed (b :: bs)) (ht : c.blockType = b.blockType) :
    Sealed (c :: bs) := by
  cases bs with
  | nil => exact ht.trans h
  | cons d ds => exact ⟨ht.trans h.1, h.2⟩

lemma Sealed.split_head (h : Sealed (b :: bs)) (hd : c.blockType = typeM) {d : Header}
    (ht : d.blockType = b.blockType) : Sealed (c :: d :: bs) :=
  ⟨hd, h.replace_head ht⟩

lemma Sealed.merges {rest : List Header} (h : Merges bs ds) (hs : Sealed (bs ++ rest))
    (hrest : ∀ c ∈ rest.head?, c.owner ≠ ownerFree) : Sealed (ds ++ rest) := by
  induction h with
  | refl => exact hs
  | @keep b bs ds hm ih =>
    rw [List.cons_append] at hs ⊢
    by_cases hne : bs ++ rest = []
    · obtain ⟨rfl, rfl⟩ := List.append_eq_nil_iff.mp hne
      cases hm
      exact hs
    · have hd := ih (hs.tail hne)
      obtain ⟨c, cs, hc⟩ := List.exists_cons_of_ne_nil hne
      obtain ⟨d, es, he⟩ := List.exists_cons_of_ne_nil hd.ne_nil
      rw [hc] at hs
      rw [he] at hd ⊢
      exact ⟨hs.1, hd⟩
  | @merge b bs ds hb hm ih =>
    rw [List.cons_append] at hs ⊢
    have hs' := sealed_absorb hs
    rw [absorb_append b bs hrest] at hs'
    by_cases hne : (absorb b bs).2 ++ rest = []
    · obtain ⟨h1, rfl⟩ := List.append_eq_nil_iff.mp hne
      rw [h1] at hm hs'
      cases hm
      exact hs'
    · have hd := ih (hs'.tail hne)
      obtain ⟨c, cs, hc⟩ := List.exists_cons_of_ne_nil hne
      obtain ⟨d, es, he⟩ := List.exists_cons_of_ne_nil hd.ne_nil
      dsimp only at hs'
      rw [hc] at hs'
      rw [he] at hd ⊢
      exact ⟨hs'.1, hd⟩

/-! ### Writing headers -/

lemma freshHeader_spec (mem : Memory) (r : ℕ) (v : UInt8) {size : ℕ} (hsize : size < 2 ^ 16) :
    let mem' := clearMcbReserved (clearMcbName (writeMcbSize (writeMcbOwner (writeMcbType mem r v) r
      ownerFree) r size) r) r
    header mem' r = ⟨v, ownerFree, size⟩ ∧ ChangesOnly mem mem' {r} := by
  refine ⟨?_, ?_⟩
  · rw [header_clearMcbReserved_same, header_clearMcbName_same, header_writeMcbSize_same _ _ hsize,
      header_writeMcbOwner_same _ _ (by decide), header_writeMcbType_same]
  · exact (changesOnly_writeMcbType _ _ _).trans ((changesOnly_writeMcbOwner _ _ _).trans
      ((changesOnly_writeMcbSize _ _ _).trans ((changesOnly_clearMcbName _ _).trans
        (changesOnly_clearMcbReserved _ _))))

lemma writeMcb_spec (mem : Memory) (r : ℕ) (v : UInt8) {owner size : ℕ} {name : List UInt8}
    (ho : owner < 2 ^ 16) (hsize : size < 2 ^ 16) (hname : name.length = 8) :
    header (writeMcb mem r v owner size name) r = ⟨v, owner, size⟩ ∧
      ChangesOnly mem (writeMcb mem r v owner size name) {r} := by
  obtain ⟨hh, hco⟩ := header_writeBlock (s := r) (clearMcbReserved (writeMcbSize (writeMcbOwner
    (writeMcbType mem r v) r owner) r size) r) name
    (show r * 16 + 5 ≤ mcbAddr r + offName by unfold mcbAddr offName; omega)
    (by unfold mcbAddr offName; omega)
  unfold writeMcb
  refine ⟨?_, ?_⟩
  · rw [hh, header_clearMcbReserved_same, header_writeMcbSize_same _ _ hsize,
      header_writeMcbOwner_same _ _ ho, header_writeMcbType_same]
  · exact (changesOnly_writeMcbType _ _ _).trans ((changesOnly_writeMcbOwner _ _ _).trans
      ((changesOnly_writeMcbSize _ _ _).trans ((changesOnly_clearMcbReserved _ _).trans hco)))

lemma splitBlock_spec (mem : Memory) (v : UInt8) {size : ℕ} (hlt : t + 1 + n < 2 ^ 16)
    (hsize : size < 2 ^ 16) :
    header (splitBlock mem t n v size) t = ⟨typeM, (header mem t).owner, n⟩ ∧
      header (splitBlock mem t n v size) (t + n + 1) = ⟨v, ownerFree, size⟩ ∧
      ChangesOnly mem (splitBlock mem t n v size) {p | p = t ∨ p = t + n + 1} := by
  have hr : wrappingAdd 16 (wrappingAdd 16 t 1) n = t + n + 1 := by
    rw [wrappingAdd_of_lt (show t + 1 < 2 ^ 16 by omega), wrappingAdd_of_lt hlt]
    omega
  obtain ⟨h1, h2⟩ := freshHeader_spec mem (t + n + 1) v hsize
  set mem₁ := clearMcbReserved (clearMcbName (writeMcbSize (writeMcbOwner (writeMcbType mem
    (t + n + 1) v) (t + n + 1) ownerFree) (t + n + 1) size) (t + n + 1)) (t + n + 1) with hmem₁
  have he : splitBlock mem t n v size = writeMcbSize (writeMcbType mem₁ t typeM) t n := by
    unfold splitBlock
    rw [hr]
  have hco : ChangesOnly mem₁ (splitBlock mem t n v size) {t} := by
    rw [he]
    exact (changesOnly_writeMcbType _ _ _).trans (changesOnly_writeMcbSize _ _ _)
  have hne : t + n + 1 ≠ t := by omega
  refine ⟨?_, ?_, ?_⟩
  · rw [he, header_writeMcbSize_same _ _ (by omega), header_writeMcbType_same,
      header_of_changesOnly h2 (fun h => hne (Set.mem_singleton_iff.mp h).symm)]
  · rw [header_of_changesOnly hco (fun h => hne (Set.mem_singleton_iff.mp h)), h1]
  · exact (h2.mono fun p hp => Or.inr hp).trans (hco.mono fun p hp => Or.inl hp)

lemma setOwner_spec (mem : Memory) (t : ℕ) {owner : ℕ} (ho : owner < 2 ^ 16) :
    header (clearMcbName (writeMcbOwner mem t owner) t) t = { header mem t with owner } ∧
      ChangesOnly mem (clearMcbName (writeMcbOwner mem t owner) t) {t} := by
  refine ⟨?_, (changesOnly_writeMcbOwner _ _ _).trans (changesOnly_clearMcbName _ _)⟩
  rw [header_clearMcbName_same, header_writeMcbOwner_same _ _ ho]

section Commit

variable {size paragraphs owner : ℕ}

lemma commitAllocation_high (hsplit : paragraphs + 1 < size) (hlt : t + size + 1 < 2 ^ 16) :
    (commitAllocation mem t size paragraphs owner true).2 =
      let r := t + (size - paragraphs - 1) + 1
      let mem₁ := clearMcbName (writeMcbSize (writeMcbOwner (writeMcbType mem t typeM) t ownerFree) t
        (size - paragraphs - 1)) t
      let mem₂ := writeMcbSize (writeMcbType mem₁ r (readMcbType mem t)) r paragraphs
      clearMcbName (writeMcbOwner mem₂ r owner) r := by
  have hrem := remainderSize_eq hsplit.le (show size < 2 ^ 16 by omega)
  simp only [commitAllocation, wrappingAdd_of_lt (show paragraphs + 1 < 2 ^ 16 by omega), hrem,
    nextSegment_of_lt (show t + (size - paragraphs - 1) + 1 < 2 ^ 16 by omega), gt_iff_lt, hsplit,
    and_self, if_true]

lemma commitAllocation_split (hsplit : paragraphs + 1 < size) (hlt : t + size + 1 < 2 ^ 16) :
    (commitAllocation mem t size paragraphs owner false).2 =
      let mem₁ := splitBlock mem t paragraphs (readMcbType mem t) (size - paragraphs - 1)
      clearMcbName (writeMcbOwner mem₁ t owner) t := by
  have hrem := remainderSize_eq hsplit.le (show size < 2 ^ 16 by omega)
  simp only [commitAllocation, wrappingAdd_of_lt (show paragraphs + 1 < 2 ^ 16 by omega), hrem,
    gt_iff_lt, hsplit, Bool.false_eq_true, false_and, if_false, if_true, splitBlock]

lemma commitAllocation_whole (hsplit : ¬ paragraphs + 1 < size) (hlt : paragraphs + 1 < 2 ^ 16)
    (fromHigh : Bool) :
    (commitAllocation mem t size paragraphs owner fromHigh).2 =
      clearMcbName (writeMcbOwner mem t owner) t := by
  simp only [commitAllocation, wrappingAdd_of_lt hlt, gt_iff_lt, hsplit, and_false, if_false]

end Commit

/-- The blocks that stand for an allocated one: the block itself, or the block and what is left. -/
lemma commitAllocation_spec {owner paragraphs : ℕ} (hb : header mem t = b)
    (hfit : paragraphs ≤ b.size) (hlt : t + b.size + 1 < 2 ^ 16) (ho : owner < 2 ^ 16)
    (fromHigh : Bool) :
    ∃ new, Chain (commitAllocation mem t b.size paragraphs owner fromHigh).2 t new ∧
      extent new = b.size + 1 ∧ (∀ rest, Sealed (b :: rest) → Sealed (new ++ rest)) ∧
      ChangesOnly mem (commitAllocation mem t b.size paragraphs owner fromHigh).2
        {p | t ≤ p ∧ p < t + b.size + 1} := by
  by_cases hsplit : paragraphs + 1 < b.size
  · cases fromHigh with
    | true =>
      rw [commitAllocation_high hsplit hlt]
      dsimp only
      set r := t + (b.size - paragraphs - 1) + 1 with hr
      set mem₁ := clearMcbName (writeMcbSize (writeMcbOwner (writeMcbType mem t typeM) t ownerFree) t
        (b.size - paragraphs - 1)) t with hmem₁
      set mem₂ := writeMcbSize (writeMcbType mem₁ r (readMcbType mem t)) r paragraphs with hmem₂
      have hh₁ : header mem₁ t = ⟨typeM, ownerFree, b.size - paragraphs - 1⟩ := by
        rw [hmem₁, header_clearMcbName_same, header_writeMcbSize_same _ _ (by omega),
          header_writeMcbOwner_same _ _ (by decide), header_writeMcbType_same]
      have hco₁ : ChangesOnly mem mem₁ {t} :=
        (changesOnly_writeMcbType _ _ _).trans ((changesOnly_writeMcbOwner _ _ _).trans
          ((changesOnly_writeMcbSize _ _ _).trans (changesOnly_clearMcbName _ _)))
      have hh₂ : header mem₂ r = ⟨b.blockType, (header mem₁ r).owner, paragraphs⟩ := by
        rw [hmem₂, header_writeMcbSize_same _ _ (by omega), header_writeMcbType_same,
          readMcbType_eq, hb]
      have hco₂ : ChangesOnly mem₁ mem₂ {r} :=
        (changesOnly_writeMcbType _ _ _).trans (changesOnly_writeMcbSize _ _ _)
      obtain ⟨hh₃, hco₃⟩ := setOwner_spec mem₂ r ho
      have hco := hco₂.trans hco₃
      refine ⟨[⟨typeM, ownerFree, b.size - paragraphs - 1⟩, ⟨b.blockType, owner, paragraphs⟩],
        ⟨?_, ?_, trivial⟩, ?_, fun rest hs => hs.split_head rfl rfl, ?_⟩
      · rw [header_of_changesOnly hco fun h => ?_, hh₁]
        rw [Set.mem_singleton_iff] at h
        omega
      · rw [hh₃, hh₂]
      · simp only [extent]
        omega
      · refine (hco₁.mono ?_).trans (hco.mono ?_)
        · rintro _ rfl
          exact ⟨le_rfl, by omega⟩
        · rintro _ rfl
          exact ⟨by omega, by omega⟩
    | false =>
      rw [commitAllocation_split hsplit hlt]
      obtain ⟨hh₁, hh₂, hco₁⟩ := splitBlock_spec (t := t) (n := paragraphs) mem (readMcbType mem t)
        (by omega) (show b.size - paragraphs - 1 < 2 ^ 16 by omega)
      obtain ⟨hh₃, hco₃⟩ := setOwner_spec
        (splitBlock mem t paragraphs (readMcbType mem t) (b.size - paragraphs - 1)) t ho
      refine ⟨[⟨typeM, owner, paragraphs⟩, ⟨b.blockType, ownerFree, b.size - paragraphs - 1⟩],
        ⟨?_, ?_, trivial⟩, ?_, fun rest hs => hs.split_head rfl rfl, ?_⟩
      · exact hh₃.trans (by rw [hh₁])
      · refine (header_of_changesOnly hco₃ fun h => ?_).trans (by rw [hh₂, readMcbType_eq, hb])
        have := Set.mem_singleton_iff.mp h
        omega
      · simp only [extent]
        omega
      · refine (hco₁.mono ?_).trans (hco₃.mono ?_)
        · rintro p (rfl | rfl)
          · exact ⟨le_rfl, by omega⟩
          · exact ⟨by omega, by omega⟩
        · rintro _ rfl
          exact ⟨le_rfl, by omega⟩
  · rw [commitAllocation_whole hsplit (by omega)]
    obtain ⟨hh, hco⟩ := setOwner_spec mem t ho
    refine ⟨[{ b with owner }], ⟨?_, trivial⟩, rfl, fun rest hs => hs.replace_head rfl,
      hco.mono ?_⟩
    · rw [← hb]
      exact hh
    · rintro _ rfl
      exact ⟨le_rfl, by omega⟩

end Neetan.Mcb
