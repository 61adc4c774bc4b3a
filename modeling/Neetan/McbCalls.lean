import Neetan.McbContract
import Neetan.McbRewrite

/-!
Each memory call on a sealed chain is a rewriting of it.
-/

namespace Neetan.Mcb

open Neetan.ByteMemory Neetan.MachineInt

variable {mem mem' : Memory} {s t paragraphs owner strategy : ℕ} {b : Header}
  {bs rest pre post : List Header} {stopBefore : Option ℕ}

/-- Owned by somebody. -/
def Owned (x : ℕ × Header) : Prop := x.2.owner ≠ ownerFree

/-! ### Allocate -/

/-- The walk leaves a chain without a limit, and finds a block type there. -/
def Overruns (mem : Memory) (s : ℕ) (bs : List Header) (paragraphs strategy : ℕ) : Prop :=
  endsInFreePair bs ∧ (merged bs).length < maxChainWalk ∧
    isValidMcbType (readMcbType mem (s + extent bs)) ∧
    ¬ (strategy = 0 ∧ ∃ run ∈ freeBlocks s (merged bs), paragraphs ≤ run.2)

lemma commit_rewrites {ds : List Header} {r : ℕ × ℕ} (hch : Chain mem s (ds ++ rest))
    (hs : Sealed (ds ++ rest)) (hlt : s + extent (ds ++ rest) < 2 ^ 16) (hr : r ∈ freeBlocks s ds)
    (hfit : paragraphs ≤ r.2) (ho : owner < 2 ^ 16) (fromHigh : Bool) :
    ∃ bs', Rewrites s Owned ∅ mem (commitAllocation mem r.1 r.2 paragraphs owner fromHigh).2
      (ds ++ rest) bs' := by
  obtain ⟨⟨t, b⟩, hx, hfree, rfl⟩ := mem_freeBlocks.mp hr
  obtain ⟨pre, post, rfl, rfl⟩ := mem_located_split hx
  rw [List.append_assoc, List.cons_append] at hch hs hlt ⊢
  have hb := ((chain_append _ _ _ _).mp hch).2.1
  have hbs := ((sealed_append (List.cons_ne_nil _ _)).mp hs).2
  have hpre := ((sealed_append (List.cons_ne_nil _ _)).mp hs).1
  have hlt' : s + extent pre + b.size + 1 < 2 ^ 16 := by
    simp only [extent_append, extent] at hlt
    omega
  obtain ⟨new, hnew, hext, hsealed, hco⟩ := commitAllocation_spec hb hfit hlt' ho fromHigh
  refine ⟨pre ++ (new ++ (post ++ rest)), Rewrites.replace [b] new hch ?_ hext hnew ?_ hco ?_⟩
  · exact (hsealed _ hbs).append hpre
  · intro x hx ho
    obtain rfl := List.mem_singleton.mp hx
    exact ho hfree
  · rintro p ⟨h1, h2⟩
    exact ⟨h1, h2, fun h => h.elim⟩

lemma allocateWithLimit_rewrites (paragraphs strategy : ℕ) (hch : Chain mem s (bs ++ rest))
    (hs : Sealed (bs ++ rest))
    (hlt : s + extent (bs ++ rest) < 2 ^ 16) (hne : bs ≠ []) (hlim : Limits stopBefore s bs rest)
    (ho : owner < 2 ^ 16) (hstays : rest = [] → ¬ Overruns mem s bs paragraphs strategy) :
    ∃ result mem' bs', allocateWithLimit mem s stopBefore paragraphs owner strategy =
      some (result, mem') ∧ Rewrites s Owned ∅ mem mem' (bs ++ rest) bs' := by
  obtain ⟨mem', ds, last, hscan, hds, hch', hco, hlast, hwalk⟩ :=
    allocateWithLimit_spec paragraphs owner strategy hch hs hlt hne hlim rfl
  have hrest : ∀ c ∈ rest.head?, c.owner ≠ ownerFree := by
    rcases hlim with ⟨rfl, -⟩ | ⟨-, -, h⟩
    · nofun
    · exact h
  have hs' : Sealed (ds ++ rest) := hs.merges hds hrest
  have hmerge : Rewrites s Owned ∅ mem mem' (bs ++ rest) (ds ++ rest) := by
    refine Rewrites.merge (hds.append_right hrest) hch' hs' hco (fun p hp => ⟨?_, fun h => h.elim⟩)
      fun x hx => hx
    exact mem_freeRange_append.mpr (Or.inl hp)
  have hlt' : s + extent (ds ++ rest) < 2 ^ 16 := by
    rw [hmerge.extent_eq]
    exact hlt
  have hcommit : ∀ r, last = some r → ∀ fromHigh, ∃ bs',
      Rewrites s Owned ∅ mem (commitAllocation mem' r.1 r.2 paragraphs owner fromHigh).2
        (bs ++ rest) bs' := fun r hr fromHigh => by
    have hfit := ((scan_mem (hscan.trans hr)).resolve_left nofun).2
    obtain ⟨bs', hbs'⟩ := commit_rewrites hch' hs' hlt' (hlast r hr) hfit ho fromHigh
    exact ⟨bs', hmerge.trans hbs'⟩
  rw [hwalk]
  by_cases hfirst : strategy = 0 ∧ last.isSome
  · obtain ⟨rfl, hsome⟩ := hfirst
    obtain ⟨r, rfl⟩ := Option.isSome_iff_exists.mp hsome
    obtain ⟨bs', hbs'⟩ := hcommit r rfl false
    exact ⟨_, _, bs', rfl, hbs'⟩
  have hgo : ∀ k, takeFirst paragraphs owner strategy mem' last k = k := fun k => by
    cases last with
    | none => rfl
    | some r => exact if_neg fun h0 => hfirst ⟨h0, rfl⟩
  rw [hgo]
  split_ifs with hover
  · obtain ⟨rfl, hpair, hlen⟩ := hover
    have hbehind : isValidMcbType (readMcbType mem (s + extent bs)) = false := by
      by_contra hvalid
      refine hstays rfl ⟨hpair, hlen, Bool.not_eq_false _ ▸ hvalid, ?_⟩
      rintro ⟨rfl, run, hrun, hfit⟩
      refine hfirst ⟨rfl, ?_⟩
      rw [List.take_of_length_le hlen.le] at hscan
      have hchosen : ChosenFrom paragraphs 0 (freeBlocks s (merged bs)) last := by
        have hnil : ChosenFrom paragraphs 0 [] none := fun r hr => absurd hr List.not_mem_nil
        rw [← hscan]
        exact scan_chosen (by omega) (freeBlocks_sorted _ _) hnil
      cases last with
      | none => exact absurd (hchosen run hrun) (Nat.not_lt.mpr hfit)
      | some r => rfl
    have htop : header mem' (s + extent bs) = header mem (s + extent bs) :=
      header_of_changesOnly hco fun hp => Nat.lt_irrefl _ (freeRange_range hp).2
    obtain ⟨n, hn⟩ := Nat.exists_eq_succ_of_ne_zero (Nat.sub_ne_zero_of_lt hlen)
    have herror : ∀ largest, allocateWalk stopBefore paragraphs owner strategy (n + 1) mem'
        (s + extent bs) largest last = some (.error (errMcbDestroyed, largest), mem') := by
      intro largest
      rw [allocateWalk, readMcbType_eq, htop, ← readMcbType_eq, hbehind]
      rfl
    rw [hn, herror]
    exact ⟨_, _, _, rfl, hmerge⟩
  · cases last with
    | none => exact ⟨_, _, _, rfl, hmerge⟩
    | some r =>
      obtain ⟨bs', hbs'⟩ := hcommit r rfl (strategy = 2)
      exact ⟨_, _, bs', rfl, hbs'⟩

lemma allocate_rewrites (hch : Chain mem s bs) (hs : Sealed bs) (hlt : s + extent bs < 2 ^ 16)
    (ho : owner < 2 ^ 16) (hstays : ¬ Overruns mem s bs paragraphs strategy) :
    ∃ result mem' bs', allocate mem s paragraphs owner strategy = some (result, mem') ∧
      Rewrites s Owned ∅ mem mem' bs bs' := by
  have hne := hs.ne_nil
  rw [← List.append_nil bs] at hch hs hlt
  obtain ⟨result, mem', bs', hrun, hrw⟩ :=
    allocateWithLimit_rewrites paragraphs strategy hch hs hlt hne (Or.inl ⟨rfl, rfl⟩) ho
      fun _ => hstays
  rw [List.append_nil] at hrw
  exact ⟨result, mem', bs', hrun, hrw⟩

/-! ### Free -/

lemma findTarget_spec {target : ℕ} (hch : Chain mem s bs) (hs : Sealed bs)
    (hlt : s + extent bs < 2 ^ 16) {n : ℕ} (h : findTarget mem target n s = .ok true) :
    ∃ b, (target, b) ∈ located s bs := by
  induction n generalizing s bs with
  | zero => cases h
  | succ n ih =>
    obtain ⟨b, bs, rfl⟩ := List.exists_cons_of_ne_nil hs.ne_nil
    have hv : isValidMcbType b.blockType = true := isValidMcbType_iff.mpr hs.head_valid
    simp only [extent] at hlt
    rw [findTarget, readMcbType_eq, readMcbSize_eq, hch.1] at h
    simp only [hv, not_true_eq_false, if_false] at h
    by_cases htarget : s = target
    · exact ⟨b, List.mem_cons.mpr (Or.inl (by rw [htarget]))⟩
    rw [if_neg htarget, nextSegment_of_lt (by omega)] at h
    cases bs with
    | nil =>
      have hz : b.blockType = typeZ := hs
      rw [if_pos hz] at h
      cases h
    | cons c cs =>
      rw [if_neg (hs.1 ▸ Ne.symm typeZ_ne_typeM)] at h
      obtain ⟨d, hd⟩ := ih hch.2 hs.2 (by omega) h
      exact ⟨d, List.mem_cons_of_mem _ hd⟩

lemma free_rewrites (hch : Chain mem s bs) (hs : Sealed bs) (hlt : s + extent bs < 2 ^ 16)
    {dataSegment target : ℕ} (htarget : wrappingSub 16 dataSegment 1 = target) :
    ∃ bs', Rewrites s (fun x => x.1 ≠ target) {p | p ≠ target} mem
        (free mem s dataSegment).2 bs bs' ∧
      ∀ x ∈ located s bs', x ∈ located s bs ∨ x.2.owner = ownerFree := by
  have hsame : ∀ kept extra, Rewrites s kept extra mem mem bs bs := fun _ _ =>
    Rewrites.refl hch hs
  unfold free
  rw [htarget]
  dsimp only
  split
  · exact ⟨bs, hsame _ _, fun x hx => Or.inl hx⟩
  · exact ⟨bs, hsame _ _, fun x hx => Or.inl hx⟩
  · rename_i hfound
    split_ifs with hfree
    · exact ⟨bs, hsame _ _, fun x hx => Or.inl hx⟩
    clear htarget
    obtain ⟨b, hb⟩ := findTarget_spec hch hs hlt hfound
    obtain ⟨pre, post, hbs, hseg⟩ := mem_located_split hb
    dsimp only at hbs hseg
    subst hbs hseg
    have hhead := ((chain_append _ _ _ _).mp hch).2.1
    obtain ⟨hh, hco⟩ := setOwner_spec mem (s + extent pre) (show ownerFree < 2 ^ 16 by decide)
    rw [hhead] at hh
    have hall := (sealed_append (List.cons_ne_nil b post)).mp hs
    refine ⟨pre ++ ([{ b with owner := ownerFree }] ++ post),
      Rewrites.replace [b] [{ b with owner := ownerFree }] hch ?_ rfl ⟨hh, trivial⟩ ?_ hco ?_, ?_⟩
    · have hnew : Sealed ({ b with owner := ownerFree } :: post) := hall.2.replace_head rfl
      exact hnew.append hall.1
    · intro x hx
      obtain rfl := List.mem_singleton.mp hx
      exact fun h => h rfl
    · intro p hp
      rw [Set.mem_singleton_iff] at hp
      refine ⟨hp.ge, ?_, fun h => h hp⟩
      simp only [extent]
      omega
    · intro x hx
      rw [located_append, List.mem_append] at hx
      rw [located_append, located, List.mem_append, List.mem_cons]
      rcases hx with hx | hx
      · exact Or.inl (Or.inl hx)
      · rcases List.mem_cons.mp hx with rfl | hx
        · exact Or.inr rfl
        · exact Or.inl (Or.inr (Or.inr hx))

/-! ### Resize -/

lemma owner_coalesceForward (mem : Memory) (s : ℕ) :
    readMcbOwner (coalesceForward mem s) s = readMcbOwner mem s := by
  unfold coalesceForward
  dsimp only
  split_ifs
  · rfl
  · rfl
  · rw [readMcbOwner_eq, header_writeMcbType_same, header_writeMcbSize_same _ _
      (wrappingAdd_lt 16 _ _)]
    rfl
  · rfl

lemma coalesceChainFrom_eq (h : readMcbOwner mem s = ownerFree) (fuel : ℕ) :
    coalesceChainFrom s fuel mem = absorbFree s fuel mem := by
  induction fuel generalizing mem with
  | zero => rfl
  | succ fuel ih =>
    rw [coalesceChainFrom, absorbFree]
    simp only [h, ne_eq, not_true_eq_false, or_false]
    split_ifs with h1 h2 h3 h4 h5
    all_goals first | rfl | tauto | skip
    exact ih ((owner_coalesceForward mem s).trans h)

/-- The paragraphs of a block that stay in it when it is resized. -/
def keptData (t size newParagraphs : ℕ) : Set ℕ := {p | t < p ∧ p ≤ t + min size newParagraphs}

/-- Owned by somebody, and not the block at a segment. -/
def OwnedElsewhere (t : ℕ) (x : ℕ × Header) : Prop := Owned x ∧ x.1 ≠ t

section Resize

variable {c : Header} {newParagraphs : ℕ}

/-- Replacing a block, or a block and the free one behind it, by what comes of it. -/
lemma Rewrites.resized (old new : List Header) (newParagraphs : ℕ) {P : Set ℕ}
    (hch : Chain mem s (pre ++ (b :: old ++ post))) (hs : Sealed (pre ++ (b :: old ++ post)))
    (hfree : ∀ c ∈ old, c.owner = ownerFree) (hext : extent new = extent (b :: old))
    (hnew : Chain mem' (s + extent pre) new) (hsealed : Sealed (new ++ post))
    (hco : ChangesOnly mem mem' P)
    (hP : ∀ p ∈ P, p = s + extent pre ∨
      s + extent pre + min b.size newParagraphs < p ∧ p < s + extent pre + extent (b :: old)) :
    Rewrites s (OwnedElsewhere (s + extent pre)) (keptData (s + extent pre) b.size newParagraphs)
      mem mem' (pre ++ (b :: old ++ post)) (pre ++ (new ++ post)) := by
  have hall := (sealed_append (List.cons_ne_nil b (old ++ post))).mp hs
  refine Rewrites.replace (b :: old) new hch (hsealed.append hall.1) hext hnew ?_ hco fun p hp => ?_
  · rintro x hx ⟨howned, hne⟩
    rcases List.mem_cons.mp hx with rfl | hx
    · exact hne rfl
    · obtain ⟨p, q, hpq, -⟩ := mem_located_split hx
      exact howned (hfree _ (hpq ▸ List.mem_append_right p List.mem_cons_self))
  · have hb : extent (b :: old) = b.size + 1 + extent old := rfl
    unfold keptData
    rw [Set.mem_ofPred_eq]
    rcases hP p hp with rfl | ⟨h1, h2⟩ <;> omega

lemma coalesceBehind_rewrites (newParagraphs : ℕ) (hch : Chain mem s (pre ++ b :: post))
    (hs : Sealed (pre ++ b :: post))
    (hlt : s + extent (pre ++ b :: post) < 2 ^ 16) :
    let t := s + extent pre
    let next := nextSegment t b.size
    ∃ mem' post', (if b.blockType ≠ typeZ ∧ isValidMcbType (readMcbType mem next) ∧
          readMcbOwner mem next = ownerFree then coalesceChainFrom next loopFuel mem
        else some mem) = some mem' ∧
      (post = [] → post' = []) ∧
      Rewrites s (OwnedElsewhere t) (keptData t b.size newParagraphs) mem mem'
        (pre ++ b :: post) (pre ++ b :: post') := by
  intro t next
  obtain ⟨-, hb, hpost⟩ := (chain_append _ _ _ _).mp hch
  have hall := (sealed_append (List.cons_ne_nil b post)).mp hs
  have hlt' : t + b.size + 1 + extent post < 2 ^ 16 := by
    simp only [extent_append, extent] at hlt
    omega
  split_ifs with hfree
  · obtain ⟨hz, hvalid, howner⟩ := hfree
    have hnext : next = t + b.size + 1 := nextSegment_of_lt (by omega)
    cases post with
    | nil => exact absurd hall.2 hz
    | cons c cs =>
      rw [hnext, readMcbOwner_eq, hpost.1] at howner
      have hfuel : cs.length < loopFuel := by
        have := length_le_extent (c :: cs)
        rw [List.length_cons] at this
        unfold loopFuel
        omega
      have hsealed := hall.2.tail (List.cons_ne_nil c cs)
      obtain ⟨mem', hm, hch', hco⟩ := absorbFree_spec hpost hsealed hlt' hfuel
      rw [hnext, coalesceChainFrom_eq (by rw [readMcbOwner_eq, hpost.1, howner]), hm]
      have hmerges : Merges (pre ++ b :: c :: cs)
          (pre ++ b :: (absorb c cs).1 :: (absorb c cs).2) :=
        (Merges.keep (Merges.merge howner (Merges.refl _))).append_left pre
      refine ⟨mem', (absorb c cs).1 :: (absorb c cs).2, rfl,
        fun h => absurd h (List.cons_ne_nil c cs),
        Rewrites.merge hmerges ?_ ?_ hco (fun p hp => ?_) fun x hx => hx.1⟩
      · rw [chain_append]
        refine ⟨((chain_append _ _ _ _).mp hch).1.of_changesOnly hco ?_, ?_, hch'⟩
        · rintro p rfl
          exact Or.inr (by omega)
        · rw [header_of_changesOnly hco, hb]
          intro h
          rw [Set.mem_singleton_iff] at h
          omega
      · have hs' := hs
        rw [← List.append_nil (pre ++ b :: c :: cs)] at hs'
        have hm := Sealed.merges hmerges hs' fun d hd => absurd hd (Option.not_mem_none d)
        rwa [List.append_nil] at hm
      · rw [Set.mem_singleton_iff] at hp
        refine ⟨mem_freeRange_append.mpr (Or.inr (mem_freeRange_cons.mpr (Or.inr
          (mem_freeRange_cons.mpr (Or.inl ⟨howner, ?_, ?_⟩))))), ?_⟩
        · omega
        · omega
        · unfold keptData
          rw [Set.mem_ofPred_eq]
          omega
  · exact ⟨mem, post, rfl, id, Rewrites.refl hch hs⟩

lemma coalesceForward_rewrites (kept : ℕ × Header → Prop) {extra : Set ℕ}
    (hch : Chain mem s (pre ++ b :: post)) (hs : Sealed (pre ++ b :: post))
    (hlt : s + extent (pre ++ b :: post) < 2 ^ 16) (hfree : b.owner = ownerFree)
    (hkept : ∀ x, kept x → Owned x ∨ x.1 < s + extent pre) (hextra : s + extent pre ∉ extra) :
    ∃ bs', Rewrites s kept extra mem (coalesceForward mem (s + extent pre)) (pre ++ b :: post)
      bs' := by
  obtain ⟨-, hsuffix⟩ := (chain_append _ _ _ _).mp hch
  have hall := (sealed_append (List.cons_ne_nil b post)).mp hs
  have hlt' : s + extent pre + extent (b :: post) < 2 ^ 16 := by
    rwa [extent_append, ← Nat.add_assoc] at hlt
  cases post with
  | nil =>
    have hz : b.blockType = typeZ := hall.2
    refine ⟨pre ++ [b], ?_⟩
    rw [coalesceForward, if_pos (by rw [readMcbType_eq, hsuffix.1, hz]; exact typeZ_ne_typeM)]
    exact Rewrites.refl hch hs
  | cons c cs =>
    by_cases hc : c.owner = ownerFree
    · obtain ⟨hch', hco⟩ := coalesceForward_spec hsuffix hall.2 hlt' hc
      have hsealed : Sealed (join b c :: cs) := hall.2.2.replace_head rfl
      refine ⟨pre ++ ([join b c] ++ cs), Rewrites.replace [b, c] [join b c] hch
        (hsealed.append hall.1) ?_ ⟨hch'.1, trivial⟩ ?_ hco fun p hp => ?_⟩
      · simp only [extent, join]
        omega
      · intro x hx hk
        have hseg := (located_range hx).1
        have howned := (hkept x hk).resolve_right (Nat.not_lt.mpr hseg)
        rcases List.mem_cons.mp hx with rfl | hx
        · exact howned hfree
        · obtain rfl := List.mem_singleton.mp hx
          exact howned hc
      · obtain rfl := Set.mem_singleton_iff.mp hp
        refine ⟨le_rfl, ?_, hextra⟩
        simp only [extent]
        omega
    · refine ⟨pre ++ b :: c :: cs, ?_⟩
      have hnext : nextSegment (s + extent pre) b.size = s + extent pre + b.size + 1 := by
        simp only [extent] at hlt'
        exact nextSegment_of_lt (by omega)
      have hsame : coalesceForward mem (s + extent pre) = mem := by
        unfold coalesceForward
        simp only [readMcbOwner_eq, readMcbSize_eq, hsuffix.1, hnext, hsuffix.2.1]
        simp [hc]
      rw [hsame]
      exact Rewrites.refl hch hs

/-- The resized block is still there, with its owner and the data it keeps. -/
def StaysAt (t : ℕ) (b : Header) (newParagraphs s : ℕ) (bs' : List Header) : Prop :=
  ∃ d, (t, d) ∈ located s bs' ∧ d.owner = b.owner ∧ min b.size newParagraphs ≤ d.size

lemma staysAt_append {d : Header} {new : List Header} (ho : d.owner = b.owner)
    (hsize : min b.size newParagraphs ≤ d.size) :
    StaysAt (s + extent pre) b newParagraphs s (pre ++ d :: new) := by
  refine ⟨d, ?_, ho, hsize⟩
  rw [located_append, List.mem_append]
  exact Or.inr List.mem_cons_self

lemma shrink_rewrites (hch : Chain mem s (pre ++ b :: post)) (hs : Sealed (pre ++ b :: post))
    (hlt : s + extent (pre ++ b :: post) < 2 ^ 16) (hn : newParagraphs < b.size) :
    let t := s + extent pre
    ∃ bs', Rewrites s (OwnedElsewhere t) (keptData t b.size newParagraphs) mem
      (shrink mem t b.size newParagraphs b.blockType) (pre ++ b :: post) bs' ∧
      StaysAt t b newParagraphs s bs' := by
  intro t
  have hall := (sealed_append (List.cons_ne_nil b post)).mp hs
  have hb := ((chain_append _ _ _ _).mp hch).2.1
  have hlt' : t + b.size + 1 < 2 ^ 16 := by
    simp only [extent_append, extent] at hlt
    omega
  unfold shrink
  rw [wrappingAdd_of_lt (show newParagraphs + 1 < 2 ^ 16 by omega)]
  split_ifs with hsplit
  · rw [remainderSize_eq hsplit.le (by omega), wrappingAdd_of_lt (show t + 1 < 2 ^ 16 by omega),
      wrappingAdd_of_lt (show t + 1 + newParagraphs < 2 ^ 16 by omega)]
    obtain ⟨h1, h2, hco⟩ := splitBlock_spec (t := t) (n := newParagraphs) mem b.blockType (by omega)
      (show b.size - newParagraphs - 1 < 2 ^ 16 by omega)
    rw [hb] at h1
    set rem : Header := ⟨b.blockType, ownerFree, b.size - newParagraphs - 1⟩ with hrem
    have hcut := Rewrites.resized [] [⟨typeM, b.owner, newParagraphs⟩, rem] newParagraphs hch hs
      (fun c hc => absurd hc List.not_mem_nil) (by simp only [extent, hrem]; omega)
      ⟨h1, h2, trivial⟩ (hall.2.split_head rfl rfl) hco
      (by
        rintro p (rfl | rfl)
        · exact Or.inl rfl
        · right
          simp only [extent]
          omega)
    -- the remainder is the block behind the shortened one
    have hpre : pre ++ ([⟨typeM, b.owner, newParagraphs⟩, rem] ++ post) =
        (pre ++ [⟨typeM, b.owner, newParagraphs⟩]) ++ rem :: post := by simp
    have hseg : s + extent (pre ++ [⟨typeM, b.owner, newParagraphs⟩]) = t + newParagraphs + 1 := by
      simp only [extent_append, extent, t]
      omega
    have hext := hcut.extent_eq
    rw [hpre] at hcut hext
    have hstays : StaysAt t b newParagraphs s
        (pre ++ ⟨typeM, b.owner, newParagraphs⟩ :: rem :: post) :=
      staysAt_append rfl (Nat.min_le_right _ _)
    obtain ⟨bs', hbs'⟩ := coalesceForward_rewrites (fun x => OwnedElsewhere t x ∨ x.1 = t)
      hcut.chain hcut.isSealed (by rw [hext]; exact hlt) rfl
      (by
        rintro x (hx | hx)
        · exact Or.inl hx.1
        · exact Or.inr (by rw [hseg, hx]; omega))
      (show _ ∉ keptData t b.size newParagraphs by
        unfold keptData
        rw [hseg, Set.mem_ofPred_eq]
        omega)
    rw [hseg, show t + newParagraphs + 1 = t + 1 + newParagraphs by omega] at hbs'
    refine ⟨bs', hcut.trans (hbs'.weaken (fun x _ hx => Or.inl hx) fun p hp _ _ => hp), ?_⟩
    obtain ⟨d, hd, howner, hsize⟩ := hstays
    refine ⟨d, hbs'.kept_mem (t, d) ?_ (Or.inr rfl), howner, hsize⟩
    rwa [List.append_assoc]
  · exact ⟨_, Rewrites.refl hch hs, staysAt_append rfl (Nat.min_le_left _ _)⟩

lemma setTypeSize_spec (mem : Memory) (t : ℕ) (v : UInt8) {size : ℕ} (hsize : size < 2 ^ 16) :
    header (writeMcbSize (writeMcbType mem t v) t size) t = ⟨v, (header mem t).owner, size⟩ ∧
      ChangesOnly mem (writeMcbSize (writeMcbType mem t v) t size) {t} :=
  ⟨by rw [header_writeMcbSize_same _ _ hsize, header_writeMcbType_same],
    (changesOnly_writeMcbType _ _ _).trans (changesOnly_writeMcbSize _ _ _)⟩

lemma grow_rewrites (hch : Chain mem s (pre ++ b :: post)) (hs : Sealed (pre ++ b :: post))
    (hlt : s + extent (pre ++ b :: post) < 2 ^ 16) (hn : b.size < newParagraphs) :
    let t := s + extent pre
    ∃ bs', Rewrites s (OwnedElsewhere t) (keptData t b.size newParagraphs) mem
      (grow mem t b.size newParagraphs b.blockType).2 (pre ++ b :: post) bs' ∧
      StaysAt t b newParagraphs s bs' := by
  intro t
  have hall := (sealed_append (List.cons_ne_nil b post)).mp hs
  obtain ⟨-, hb, hpost⟩ := (chain_append _ _ _ _).mp hch
  have hsame : ∃ bs', Rewrites s (OwnedElsewhere t) (keptData t b.size newParagraphs) mem mem
      (pre ++ b :: post) bs' ∧ StaysAt t b newParagraphs s bs' :=
    ⟨_, Rewrites.refl hch hs, staysAt_append rfl (Nat.min_le_left _ _)⟩
  unfold grow
  dsimp only
  cases post with
  | nil =>
    have hz : b.blockType = typeZ := hall.2
    rw [if_pos hz]
    exact hsame
  | cons c cs =>
    have hlt' : t + b.size + 1 + c.size + 1 < 2 ^ 16 := by
      simp only [extent_append, extent] at hlt
      omega
    have htype : readMcbType mem (t + b.size + 1) = c.blockType := by rw [readMcbType_eq, hpost.1]
    have howner : readMcbOwner mem (t + b.size + 1) = c.owner := by rw [readMcbOwner_eq, hpost.1]
    have hsize : readMcbSize mem (t + b.size + 1) = c.size := by rw [readMcbSize_eq, hpost.1]
    have hvalid : isValidMcbType c.blockType = true := isValidMcbType_iff.mpr hall.2.2.head_valid
    set total := b.size + 1 + c.size with htotal
    have hmin : min total 0xFFFF = total := by omega
    have hmod : total % 2 ^ 16 = total := Nat.mod_eq_of_lt (by omega)
    rw [if_neg (hall.2.1 ▸ Ne.symm typeZ_ne_typeM), nextSegment_of_lt (by omega)]
    simp only [htype, howner, hsize, hvalid, ← htotal, hmin, hmod, not_true_eq_false, if_false]
    by_cases hc : c.owner = ownerFree
    · have hfree : ∀ d ∈ [c], d.owner = ownerFree := fun d hd => List.mem_singleton.mp hd ▸ hc
      have hmerged : ∃ bs', Rewrites s (OwnedElsewhere t) (keptData t b.size newParagraphs) mem
          (writeMcbSize (writeMcbType mem t c.blockType) t total) (pre ++ b :: c :: cs) bs' ∧
          StaysAt t b newParagraphs s bs' := by
        obtain ⟨h, hco⟩ := setTypeSize_spec mem t c.blockType (show total < 2 ^ 16 by omega)
        rw [hb] at h
        have hsealed : Sealed (⟨c.blockType, b.owner, total⟩ :: cs) := hall.2.2.replace_head rfl
        refine ⟨_, Rewrites.resized [c] [⟨c.blockType, b.owner, total⟩] newParagraphs hch hs hfree
          (by simp only [extent]; omega) ⟨h, trivial⟩ hsealed hco fun p hp => Or.inl hp, ?_⟩
        exact staysAt_append rfl ((Nat.min_le_left _ _).trans (by dsimp only; omega))
      rw [if_neg (not_not.mpr hc)]
      split_ifs with hlarge hne hwhole hsplit
      · exact hmerged
      · exact hsame
      · exact hmerged
      · rw [wrappingAdd_of_lt (show newParagraphs + 1 < 2 ^ 16 by omega)] at hsplit
        rw [remainderSize_eq hsplit.le (by omega)]
        obtain ⟨h1, h2, hco⟩ := splitBlock_spec (t := t) (n := newParagraphs) mem c.blockType
          (by omega) (show total - newParagraphs - 1 < 2 ^ 16 by omega)
        rw [hb] at h1
        have hsealed : Sealed (⟨typeM, b.owner, newParagraphs⟩ ::
            ⟨c.blockType, ownerFree, total - newParagraphs - 1⟩ :: cs) :=
          hall.2.2.split_head rfl rfl
        refine ⟨_, Rewrites.resized [c] [⟨typeM, b.owner, newParagraphs⟩,
          ⟨c.blockType, ownerFree, total - newParagraphs - 1⟩] newParagraphs hch hs hfree ?_
          ⟨h1, h2, trivial⟩ hsealed hco ?_, staysAt_append rfl (Nat.min_le_right _ _)⟩
        · simp only [extent]
          omega
        · rintro p (rfl | rfl)
          · exact Or.inl rfl
          · right
            simp only [extent]
            omega
      · exact hmerged
    · rw [if_pos hc]
      exact hsame

/-- Resizing a block keeps all others, and its own data as far as it stays in it. -/
lemma resize_rewrites (hch : Chain mem s bs) (hs : Sealed bs) (hlt : s + extent bs < 2 ^ 16)
    {dataSegment target : ℕ} (newParagraphs : ℕ) (htarget : wrappingSub 16 dataSegment 1 = target) :
    ∃ result mem' bs', resize mem s dataSegment newParagraphs = some (result, mem') ∧
      Rewrites s (OwnedElsewhere target)
        {p | ∃ b, (target, b) ∈ located s bs ∧ p ∈ keptData target b.size newParagraphs}
        mem mem' bs bs' ∧
      ∀ b, (target, b) ∈ located s bs → StaysAt target b newParagraphs s bs' := by
  have hsame : ∀ b, (target, b) ∈ located s bs → StaysAt target b newParagraphs s bs := fun b hb =>
    ⟨b, hb, rfl, Nat.min_le_left _ _⟩
  unfold resize
  rw [htarget]
  dsimp only
  split
  · exact ⟨_, _, bs, rfl, Rewrites.refl hch hs, hsame⟩
  · exact ⟨_, _, bs, rfl, Rewrites.refl hch hs, hsame⟩
  · rename_i hfound
    clear htarget hsame
    obtain ⟨b, hb⟩ := findTarget_spec hch hs hlt hfound
    have hunique : ∀ d, (target, d) ∈ located s bs → d = b := fun d hd => by
      rcases located_disjoint hb hd with h | h | h
      · exact (Prod.mk.inj h).2.symm
      · dsimp only at h
        omega
      · dsimp only at h
        omega
    obtain ⟨pre, post, hbs, hseg⟩ := mem_located_split hb
    dsimp only at hbs hseg
    subst hbs hseg
    have hhead := ((chain_append _ _ _ _).mp hch).2.1
    have htype : readMcbType mem (s + extent pre) = b.blockType := by rw [readMcbType_eq, hhead]
    have hsize : readMcbSize mem (s + extent pre) = b.size := by rw [readMcbSize_eq, hhead]
    obtain ⟨mem₁, post₁, hm₁, -, hrw₁⟩ := coalesceBehind_rewrites newParagraphs hch hs hlt
    have hlt₁ : s + extent (pre ++ b :: post₁) < 2 ^ 16 := hrw₁.extent_eq ▸ hlt
    have hdone : ∃ result mem' bs',
        (if newParagraphs = b.size then some (.ok (), mem₁)
        else if newParagraphs < b.size then
          some (.ok (), shrink mem₁ (s + extent pre) b.size newParagraphs b.blockType)
        else some (grow mem₁ (s + extent pre) b.size newParagraphs b.blockType)) =
          some (result, mem') ∧
        Rewrites s (OwnedElsewhere (s + extent pre))
          (keptData (s + extent pre) b.size newParagraphs) mem mem' (pre ++ b :: post) bs' ∧
        StaysAt (s + extent pre) b newParagraphs s bs' := by
      split_ifs with heq hless
      · exact ⟨_, _, _, rfl, hrw₁, staysAt_append rfl (Nat.min_le_left _ _)⟩
      · obtain ⟨bs', hbs', hstays⟩ := shrink_rewrites hrw₁.chain hrw₁.isSealed hlt₁ hless
        exact ⟨_, _, bs', rfl, hrw₁.trans hbs', hstays⟩
      · obtain ⟨bs', hbs', hstays⟩ := grow_rewrites hrw₁.chain hrw₁.isSealed hlt₁
          (show b.size < newParagraphs by omega)
        exact ⟨_, _, bs', rfl, hrw₁.trans hbs', hstays⟩
    obtain ⟨result, mem', bs', hrun, hrw, hstays⟩ := hdone
    refine ⟨result, mem', bs', ?_, hrw.weaken (fun _ _ h => h) ?_,
      fun d hd => hunique d hd ▸ hstays⟩
    · rw [htype, hsize, ← hrun]
      by_cases hfree : b.blockType ≠ typeZ ∧ isValidMcbType
          (readMcbType mem (nextSegment (s + extent pre) b.size)) ∧
          readMcbOwner mem (nextSegment (s + extent pre) b.size) = ownerFree
      · rw [if_pos hfree] at hm₁ ⊢
        rw [hm₁]
        rfl
      · rw [if_neg hfree] at hm₁ ⊢
        obtain rfl := Option.some.inj hm₁
        rfl
    · rintro p ⟨d, hd, hp⟩ - -
      rwa [hunique d hd] at hp

end Resize

/-! ### Blocks of a process -/

lemma ownedSegments_spec {ownerPsp d : ℕ} (hch : Chain mem s bs) (hs : Sealed bs)
    (hlt : s + extent bs < 2 ^ 16) {n : ℕ} (h : d ∈ ownedSegments mem ownerPsp n s) :
    ∃ x ∈ located s bs, x.2.owner = ownerPsp ∧ wrappingSub 16 d 1 = x.1 := by
  induction n generalizing s bs with
  | zero => cases h
  | succ n ih =>
    obtain ⟨b, bs, rfl⟩ := List.exists_cons_of_ne_nil hs.ne_nil
    have hv : isValidMcbType b.blockType = true := isValidMcbType_iff.mpr hs.head_valid
    simp only [extent] at hlt
    rw [ownedSegments, readMcbType_eq, readMcbOwner_eq, readMcbSize_eq, hch.1] at h
    simp only [hv, not_true_eq_false, if_false] at h
    rw [nextSegment_of_lt (by omega), wrappingAdd_of_lt (show s + 1 < 2 ^ 16 by omega)] at h
    have hhere : ∀ hd : d ∈ (if b.owner = ownerPsp then [s + 1] else []),
        ∃ x ∈ located s (b :: bs), x.2.owner = ownerPsp ∧ wrappingSub 16 d 1 = x.1 := by
      intro hd
      split_ifs at hd with howner
      · obtain rfl := List.mem_singleton.mp hd
        exact ⟨(s, b), List.mem_cons_self, howner, wrappingSub_of_le (by omega) (by omega)⟩
      · cases hd
    cases bs with
    | nil =>
      have hz : b.blockType = typeZ := hs
      rw [if_pos hz] at h
      exact hhere h
    | cons c cs =>
      rw [if_neg (hs.1 ▸ Ne.symm typeZ_ne_typeM)] at h
      rcases List.mem_append.mp h with h | h
      · exact hhere h
      · obtain ⟨x, hx, ho, hd⟩ := ih hch.2 hs.2 (by omega) h
        exact ⟨x, List.mem_cons_of_mem _ hx, ho, hd⟩

/-- A free block takes in the free blocks behind it; an owned one stays as it is. -/
lemma absorbHead_spec (hch : Chain mem s (b :: bs)) (hs : Sealed (b :: bs))
    (hlt : s + extent (b :: bs) < 2 ^ 16) :
    ∃ mem' d tail, (if b.owner = ownerFree then absorbFree s loopFuel mem else some mem) =
        some mem' ∧
      Chain mem' s (d :: tail) ∧ Sealed (d :: tail) ∧ ChangesOnly mem mem' (freeRange s (b :: bs)) ∧
      (∀ ds, Merges tail ds → Merges (b :: bs) (d :: ds)) ∧
      extent (d :: tail) = extent (b :: bs) := by
  by_cases ho : b.owner = ownerFree
  · have hfuel : bs.length < loopFuel := by
      have := length_le_extent (b :: bs)
      rw [List.length_cons] at this
      unfold loopFuel
      omega
    obtain ⟨mem', hm, hch', hco⟩ := absorbFree_spec hch hs hlt hfuel
    rw [if_pos ho]
    refine ⟨mem', _, _, hm, hch', sealed_absorb hs, hco.mono ?_,
      fun ds hds => Merges.merge ho hds, extent_absorb b bs⟩
    rintro _ rfl
    exact mem_freeRange_cons.mpr (Or.inl ⟨ho, le_rfl, by omega⟩)
  · rw [if_neg ho]
    exact ⟨mem, b, bs, rfl, hch, hs, ChangesOnly.refl _ _, fun ds hds => Merges.keep hds, rfl⟩

lemma coalesceWalk_spec (hch : Chain mem s bs) (hs : Sealed bs) (hlt : s + extent bs < 2 ^ 16)
    (n : ℕ) :
    ∃ mem' ds, coalesceWalk n mem s = some mem' ∧ Merges bs ds ∧ Chain mem' s ds ∧
      ChangesOnly mem mem' (freeRange s bs) := by
  induction n generalizing mem s bs with
  | zero => exact ⟨mem, bs, rfl, Merges.refl bs, hch, ChangesOnly.refl _ _⟩
  | succ n ih =>
    obtain ⟨b, bs, rfl⟩ := List.exists_cons_of_ne_nil hs.ne_nil
    have hv : isValidMcbType b.blockType = true := isValidMcbType_iff.mpr hs.head_valid
    obtain ⟨mem₁, d, tail, hm₁, hch₁, hs₁, hco₁, hmerges, hext⟩ := absorbHead_spec hch hs hlt
    have hwalk : coalesceWalk (n + 1) mem s =
        if d.blockType = typeZ then some mem₁
        else coalesceWalk n mem₁ (nextSegment s d.size) := by
      have htype : readMcbType mem s = b.blockType := by rw [readMcbType_eq, hch.1]
      have howner : readMcbOwner mem s = b.owner := by rw [readMcbOwner_eq, hch.1]
      have htype₁ : readMcbType mem₁ s = d.blockType := by rw [readMcbType_eq, hch₁.1]
      have hsize₁ : readMcbSize mem₁ s = d.size := by rw [readMcbSize_eq, hch₁.1]
      rw [coalesceWalk]
      simp only [htype, howner, hv, not_true_eq_false, if_false]
      by_cases ho : b.owner = ownerFree
      · rw [if_pos ho] at hm₁ ⊢
        rw [hm₁, Option.bind_eq_bind, Option.bind_some, htype₁, hsize₁]
      · rw [if_neg ho] at hm₁ ⊢
        rw [hm₁, Option.bind_eq_bind, Option.bind_some, htype₁, hsize₁]
    rw [hwalk]
    rw [← hext] at hlt
    simp only [extent] at hlt
    cases tail with
    | nil =>
      have hz : d.blockType = typeZ := hs₁
      rw [if_pos hz]
      exact ⟨mem₁, [d], rfl, hmerges [] (Merges.refl []), hch₁, hco₁⟩
    | cons c cs =>
      rw [if_neg (hs₁.1 ▸ Ne.symm typeZ_ne_typeM), nextSegment_of_lt (by omega)]
      obtain ⟨mem₂, ds, hm₂, hds, hch₂, hco₂⟩ := ih hch₁.2 hs₁.2 (by omega)
      refine ⟨mem₂, d :: ds, hm₂, hmerges ds hds, ⟨?_, hch₂⟩, hco₁.trans (hco₂.mono fun p hp => ?_)⟩
      · rw [header_of_changesOnly hco₂ fun h => ?_, hch₁.1]
        have := freeRange_range h
        omega
      · rw [← (hmerges _ (Merges.refl _)).freeRange_eq]
        exact mem_freeRange_cons.mpr (Or.inr hp)

/-- Owned by somebody else than a process. -/
def OwnedByOther (ownerPsp : ℕ) (x : ℕ × Header) : Prop := Owned x ∧ x.2.owner ≠ ownerPsp

lemma freeAll_rewrites {ownerPsp : ℕ} {bs₀ : List Header} {mem₀ : Memory} (ds : List ℕ)
    (hds : ∀ d ∈ ds, ∃ x ∈ located s bs₀, x.2.owner = ownerPsp ∧ wrappingSub 16 d 1 = x.1)
    (h : Rewrites s (OwnedByOther ownerPsp) ∅ mem₀ mem bs₀ bs)
    (hsame : ∀ x ∈ located s bs, x ∈ located s bs₀ ∨ x.2.owner = ownerFree)
    (hlt : s + extent bs₀ < 2 ^ 16) :
    ∃ bs', Rewrites s (OwnedByOther ownerPsp) ∅ mem₀
      (ds.foldl (fun mem d => (free mem s d).2) mem) bs₀ bs' := by
  induction ds generalizing mem bs with
  | nil => exact ⟨bs, h⟩
  | cons d ds ih =>
    obtain ⟨y, hy, hyowner, htarget⟩ := hds d List.mem_cons_self
    obtain ⟨bs₁, hrw, hsame₁⟩ := free_rewrites h.chain h.isSealed (h.extent_eq ▸ hlt) htarget
    refine ih (fun e he => hds e (List.mem_cons_of_mem _ he))
      (h.trans (hrw.weaken (fun x hx hk hseg => ?_) nofun)) fun x hx => ?_
    · rcases hsame x hx with hx₀ | hfree
      · rcases located_disjoint hx₀ hy with rfl | hlt | hlt
        · exact hk.2 hyowner
        · omega
        · omega
      · exact hk.1 hfree
    · exact (hsame₁ x hx).elim (hsame x) Or.inr

lemma freeProcessBlocks_rewrites (hch : Chain mem s bs) (hs : Sealed bs)
    (hlt : s + extent bs < 2 ^ 16) (ownerPsp : ℕ) :
    ∃ mem' bs', freeProcessBlocks mem s ownerPsp = some mem' ∧
      Rewrites s (OwnedByOther ownerPsp) ∅ mem mem' bs bs' := by
  obtain ⟨bs₁, hrw₁⟩ := freeAll_rewrites (ownedSegments mem ownerPsp maxChainWalk s).reverse
    (fun d hd => ownedSegments_spec hch hs hlt (List.mem_reverse.mp hd))
    (Rewrites.refl hch hs) (fun x hx => Or.inl hx) hlt
  obtain ⟨mem₂, ds, hm₂, hds, hch₂, hco₂⟩ :=
    coalesceWalk_spec hrw₁.chain hrw₁.isSealed (hrw₁.extent_eq ▸ hlt) maxChainWalk
  have hs₂ : Sealed ds := by
    have hs₁ := hrw₁.isSealed
    rw [← List.append_nil bs₁] at hs₁
    have h := Sealed.merges hds hs₁ nofun
    rwa [List.append_nil] at h
  exact ⟨mem₂, ds, hm₂, hrw₁.trans (Rewrites.merge hds hch₂ hs₂ hco₂
    (fun p hp => ⟨hp, fun h => h.elim⟩) fun x hx => hx.1)⟩

lemma findPsp_spec {ownerPsp : ℕ} (hch : Chain mem s bs) (hs : Sealed bs)
    (hlt : s + extent bs < 2 ^ 16) {n : ℕ} (h : findPsp mem ownerPsp n s = true) :
    ∃ x ∈ located s bs, x.2.owner = ownerPsp ∧ x.1 + 1 = ownerPsp := by
  induction n generalizing s bs with
  | zero => cases h
  | succ n ih =>
    obtain ⟨b, bs, rfl⟩ := List.exists_cons_of_ne_nil hs.ne_nil
    have hv : isValidMcbType b.blockType = true := isValidMcbType_iff.mpr hs.head_valid
    simp only [extent] at hlt
    rw [findPsp, readMcbType_eq, readMcbOwner_eq, readMcbSize_eq, hch.1] at h
    simp only [hv, not_true_eq_false, if_false] at h
    rw [nextSegment_of_lt (by omega), wrappingAdd_of_lt (show s + 1 < 2 ^ 16 by omega)] at h
    by_cases howner : b.owner = ownerPsp ∧ s + 1 = ownerPsp
    · exact ⟨(s, b), List.mem_cons_self, howner⟩
    rw [if_neg howner] at h
    cases bs with
    | nil =>
      have hz : b.blockType = typeZ := hs
      rw [if_pos hz] at h
      cases h
    | cons c cs =>
      rw [if_neg (hs.1 ▸ Ne.symm typeZ_ne_typeM)] at h
      obtain ⟨x, hx, ho⟩ := ih hch.2 hs.2 (by omega) h
      exact ⟨x, List.mem_cons_of_mem _ hx, ho⟩

/-- A process that stays resident keeps its other blocks and the data of its own one. -/
lemma freeProcessBlocksTsr_rewrites (hch : Chain mem s bs) (hs : Sealed bs)
    (hlt : s + extent bs < 2 ^ 16) (ownerPsp keepParagraphs : ℕ) :
    ∃ mem' bs', freeProcessBlocksTsr mem s ownerPsp keepParagraphs = some mem' ∧
      Rewrites s (fun x => Owned x ∧ ¬ (x.2.owner = ownerPsp ∧ x.1 + 1 = ownerPsp))
        {p | ∃ x ∈ located s bs, x.2.owner = ownerPsp ∧ x.1 + 1 = ownerPsp ∧
          p ∈ keptData x.1 x.2.size keepParagraphs} mem mem' bs bs' ∧
      ∀ x ∈ located s bs, x.2.owner = ownerPsp → x.1 + 1 = ownerPsp →
        StaysAt x.1 x.2 keepParagraphs s bs' := by
  unfold freeProcessBlocksTsr
  split_ifs with hfound
  · obtain ⟨x, hx, howner, hseg⟩ := findPsp_spec hch hs hlt hfound
    have hrange := located_range hx
    have htarget : wrappingSub 16 ownerPsp 1 = x.1 := by
      rw [wrappingSub_of_le (by omega) (by omega)]
      omega
    obtain ⟨result, mem', bs', hrun, hrw, hstays⟩ :=
      resize_rewrites hch hs hlt keepParagraphs htarget
    refine ⟨mem', bs', by rw [hrun]; rfl, hrw.weaken (fun y hy hk => ⟨hk.1, fun hyseg => ?_⟩) ?_,
      fun y hy _ hyseg => ?_⟩
    · rcases located_disjoint hx hy with rfl | h | h
      · exact hk.2 ⟨howner, hseg⟩
      · omega
      · omega
    · rintro p ⟨y, hy, -, hyseg, hp⟩ - -
      have hxy : y.1 = x.1 := by omega
      exact ⟨y.2, hxy ▸ hy, hxy ▸ hp⟩
    · have hxy : y.1 = x.1 := by omega
      exact hxy ▸ hstays y.2 (hxy ▸ hy)
  · exact ⟨mem, bs, rfl, Rewrites.refl hch hs, fun x hx _ _ => ⟨x.2, hx, rfl, Nat.min_le_left _ _⟩⟩

end Neetan.Mcb
