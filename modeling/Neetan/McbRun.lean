import Neetan.McbCalls

/-!
The two chains of a machine, over whole runs of the DOS memory calls.

While the upper chain is linked, the conventional one ends in the link block and both are one
chain; otherwise each is sealed. Each call keeps the chains and every block that is not its target,
when it neither overruns a chain nor names the link block. A run of such calls does so from the
initial chain on.
-/

namespace Neetan.Mcb

open Neetan.ByteMemory Neetan.MachineInt

/-- The chains lie in order and their ends do not wrap. -/
structure Placement.Ordered (p : Placement) (umbEnd : ℕ) : Prop where
  first_lt : p.firstMcbSegment < p.memoryTopSegment
  top_lt : p.memoryTopSegment < p.umbFirstMcbSegment
  umb_le : p.umbFirstMcbSegment ≤ umbEnd
  end_lt : umbEnd < 2 ^ 16

/-- The block between the chains. -/
def linkHeader (p : Placement) : Header :=
  ⟨typeM, ownerDos, p.umbFirstMcbSegment - p.memoryTopSegment - 1⟩

/-- Both chains cover their ranges, and end as the link state has it. -/
structure WellFormed (p : Placement) (umbEnd : ℕ) (σ : State) (cs us : List Header) : Prop where
  conventional : Chain σ.mem p.firstMcbSegment cs
  conventional_end : p.firstMcbSegment + extent cs = p.memoryTopSegment
  upper : Chain σ.mem p.umbFirstMcbSegment us
  upper_sealed : Sealed us
  upper_end : p.umbFirstMcbSegment + extent us = umbEnd
  unlinked : σ.umbLink = false → Sealed cs
  linked : σ.umbLink = true →
    (∀ c ∈ cs, c.blockType = typeM) ∧ header σ.mem p.memoryTopSegment = linkHeader p

/-- The blocks of both chains, and the link block while there is one. -/
def blocks (p : Placement) (umbLink : Bool) (cs us : List Header) : List (ℕ × Header) :=
  located p.firstMcbSegment cs ++
    ((if umbLink then [(p.memoryTopSegment, linkHeader p)] else []) ++
      located p.umbFirstMcbSegment us)

/-- Kept blocks stay where they are, and neither their paragraphs nor the extra ones change. -/
structure Keeps (p : Placement) (umbEnd : ℕ) (kept : ℕ × Header → Prop) (extra : Set ℕ)
    (σ σ' : State) (cs us cs' us' : List Header) : Prop where
  wellFormed : WellFormed p umbEnd σ' cs' us'
  kept_mem : ∀ x ∈ blocks p σ.umbLink cs us, kept x → x ∈ blocks p σ'.umbLink cs' us'
  frame : ChangesOnly σ.mem σ'.mem {q | q ∉ extra ∧
    ∀ x ∈ blocks p σ.umbLink cs us, kept x → q < x.1 ∨ x.1 + x.2.size < q}

variable {p : Placement} {umbEnd : ℕ} {σ σ' σ'' : State} {cs us cs' us' cs'' us'' : List Header}
  {kept : ℕ × Header → Prop} {extra : Set ℕ} {mem' : Memory}

lemma Keeps.refl (h : WellFormed p umbEnd σ cs us) : Keeps p umbEnd kept extra σ σ cs us cs us :=
  ⟨h, fun _ hx _ => hx, ChangesOnly.refl _ _⟩

lemma Keeps.trans (h : Keeps p umbEnd kept extra σ σ' cs us cs' us')
    (h' : Keeps p umbEnd kept extra σ' σ'' cs' us' cs'' us'') :
    Keeps p umbEnd kept extra σ σ'' cs us cs'' us'' := by
  refine ⟨h'.wellFormed, fun x hx hk => h'.kept_mem x (h.kept_mem x hx hk) hk,
    h.frame.trans (h'.frame.mono ?_)⟩
  rintro q ⟨h1, h2⟩
  exact ⟨h1, fun x hx hk => h2 x (h.kept_mem x hx hk) hk⟩

lemma mem_blocks_of_unlinked {x : ℕ × Header} : x ∈ blocks p false cs us ↔
    x ∈ located p.firstMcbSegment cs ∨ x ∈ located p.umbFirstMcbSegment us := by
  simp [blocks]

lemma blocks_linked (us : List Header) (hp : p.Ordered umbEnd)
    (hend : p.firstMcbSegment + extent cs = p.memoryTopSegment) :
    blocks p true cs us = located p.firstMcbSegment (cs ++ linkHeader p :: us) := by
  have hseg : p.memoryTopSegment + (linkHeader p).size + 1 = p.umbFirstMcbSegment := by
    have := hp.top_lt
    simp only [linkHeader]
    omega
  rw [located_append, hend, located, hseg]
  rfl

/-! ### One chain at a time -/

lemma WellFormed.rewriteUpper (hp : p.Ordered umbEnd) (h : WellFormed p umbEnd σ cs us)
    (hrw : Rewrites p.umbFirstMcbSegment kept extra σ.mem mem' us us') :
    Keeps p umbEnd kept extra σ { σ with mem := mem' } cs us cs us' := by
  have hlow : ∀ q, q < p.umbFirstMcbSegment → header mem' q = header σ.mem q := fun q hq =>
    header_of_changesOnly hrw.frame fun hc => by
      have := hc.1
      omega
  have htop := hp.top_lt
  have hend := h.conventional_end
  refine ⟨⟨?_, hend, hrw.chain, hrw.isSealed, hrw.extent_eq ▸ h.upper_end, h.unlinked,
    fun hl => ⟨(h.linked hl).1, (hlow _ htop).trans (h.linked hl).2⟩⟩, fun x hx hk => ?_,
    hrw.frame.mono ?_⟩
  · refine h.conventional.of_changesOnly hrw.frame fun q hq => Or.inr ?_
    have := hq.1
    omega
  · rw [blocks, List.mem_append, List.mem_append] at hx ⊢
    exact hx.imp_right fun hx => hx.imp_right fun hx => hrw.kept_mem x hx hk
  · rintro q ⟨h1, -, h3, h4⟩
    refine ⟨h3, fun x hx hk => ?_⟩
    rw [blocks, List.mem_append, List.mem_append] at hx
    rcases hx with hx | hx | hx
    · have := located_range hx
      omega
    · split_ifs at hx
      · obtain rfl := List.mem_singleton.mp hx
        have : (linkHeader p).size = p.umbFirstMcbSegment - p.memoryTopSegment - 1 := rfl
        dsimp only
        omega
      · cases hx
    · exact h4 x hx hk

lemma WellFormed.rewriteConventional (hp : p.Ordered umbEnd) (h : WellFormed p umbEnd σ cs us)
    (hl : σ.umbLink = false) (hrw : Rewrites p.firstMcbSegment kept extra σ.mem mem' cs cs') :
    Keeps p umbEnd kept extra σ { σ with mem := mem' } cs us cs' us := by
  have htop := hp.top_lt
  have hend := h.conventional_end
  refine ⟨⟨hrw.chain, hrw.extent_eq ▸ hend, ?_, h.upper_sealed, h.upper_end,
    fun _ => hrw.isSealed, fun hl' => absurd (hl.symm.trans hl') Bool.false_ne_true⟩,
    fun x hx hk => ?_, hrw.frame.mono ?_⟩
  · refine h.upper.of_changesOnly hrw.frame fun q hq => Or.inl ?_
    have := hq.2.1
    omega
  · rw [hl, mem_blocks_of_unlinked] at hx
    dsimp only
    rw [hl, mem_blocks_of_unlinked]
    exact hx.imp_left fun hx => hrw.kept_mem x hx hk
  · rintro q ⟨h1, h2, h3, h4⟩
    refine ⟨h3, fun x hx hk => ?_⟩
    rw [hl, mem_blocks_of_unlinked] at hx
    rcases hx with hx | hx
    · exact h4 x hx hk
    · have := located_range hx
      omega

lemma WellFormed.whole (hp : p.Ordered umbEnd) (h : WellFormed p umbEnd σ cs us)
    (hl : σ.umbLink = true) :
    Chain σ.mem p.firstMcbSegment (cs ++ linkHeader p :: us) ∧ Sealed (cs ++ linkHeader p :: us) ∧
      p.firstMcbSegment + extent (cs ++ linkHeader p :: us) = umbEnd := by
  have htop := hp.top_lt
  have hsize : (linkHeader p).size = p.umbFirstMcbSegment - p.memoryTopSegment - 1 := rfl
  have hend := h.conventional_end
  have hseg : p.memoryTopSegment + (linkHeader p).size + 1 = p.umbFirstMcbSegment := by omega
  obtain ⟨hm, hlink⟩ := h.linked hl
  refine ⟨?_, ?_, ?_⟩
  · rw [chain_append, hend]
    exact ⟨h.conventional, hlink, hseg.symm ▸ h.upper⟩
  · refine Sealed.append hm ?_
    obtain ⟨u, us, rfl⟩ := List.exists_cons_of_ne_nil h.upper_sealed.ne_nil
    exact ⟨rfl, h.upper_sealed⟩
  · have := h.upper_end
    simp only [extent_append, extent]
    omega

/-- While linked, both chains are rewritten as one that keeps the link block. -/
lemma WellFormed.rewriteWhole (hp : p.Ordered umbEnd) (h : WellFormed p umbEnd σ cs us)
    (hl : σ.umbLink = true) {ds : List Header}
    (hrw : Rewrites p.firstMcbSegment kept extra σ.mem mem' (cs ++ linkHeader p :: us) ds)
    (hlink : kept (p.memoryTopSegment, linkHeader p)) :
    ∃ cs' us', ds = cs' ++ linkHeader p :: us' ∧
      Keeps p umbEnd kept extra σ { σ with mem := mem' } cs us cs' us' := by
  have htop := hp.top_lt
  have hfirst := hp.first_lt
  have hsize : (linkHeader p).size = p.umbFirstMcbSegment - p.memoryTopSegment - 1 := rfl
  have hblocks := blocks_linked us hp h.conventional_end
  have hmem : (p.memoryTopSegment, linkHeader p) ∈ located p.firstMcbSegment ds := by
    refine hrw.kept_mem _ ?_ hlink
    rw [← hblocks]
    simp [blocks]
  obtain ⟨pre, post, rfl, hend⟩ := mem_located_split hmem
  dsimp only at hend
  have hblocks' := blocks_linked post hp hend.symm
  have hwhole := (h.whole hp hl).2.2
  have hext := hrw.extent_eq
  obtain ⟨hpre, hh, hpost⟩ := (chain_append _ _ _ _).mp hrw.chain
  obtain ⟨hm, hsealed⟩ := (sealed_append (List.cons_ne_nil _ _)).mp hrw.isSealed
  have hne : post ≠ [] := by
    rintro rfl
    exact typeZ_ne_typeM hsealed.symm
  have hseg : p.firstMcbSegment + extent pre + (linkHeader p).size + 1 =
      p.umbFirstMcbSegment := by omega
  refine ⟨pre, post, rfl, ⟨⟨hpre, hend.symm, hseg ▸ hpost, hsealed.tail hne, ?_,
    fun hl' => absurd (hl.symm.trans hl') (Ne.symm Bool.false_ne_true), fun _ => ⟨hm, ?_⟩⟩, ?_, ?_⟩⟩
  · simp only [extent_append, extent] at hext hwhole
    omega
  · rw [hend]
    exact hh
  · dsimp only
    rw [hl, hblocks, hblocks']
    exact hrw.kept_mem
  · rw [hl, hblocks]
    exact hrw.frame.mono fun q hq => ⟨hq.2.2.1, hq.2.2.2⟩

/-- The chain that a walk from the first block sees: the conventional one, or both while they
are linked. Its rewritings are rewritings of the system. -/
lemma WellFormed.walked (hp : p.Ordered umbEnd) (h : WellFormed p umbEnd σ cs us) :
    ∃ bs, Chain σ.mem p.firstMcbSegment bs ∧ Sealed bs ∧
      p.firstMcbSegment + extent bs < 2 ^ 16 ∧
      (∀ x ∈ blocks p σ.umbLink cs us, x.1 < p.firstMcbSegment + extent bs →
        x ∈ located p.firstMcbSegment bs) ∧
      (∀ x ∈ located p.firstMcbSegment bs, x ∈ blocks p σ.umbLink cs us) ∧
      ∀ kept extra mem' bs', Rewrites p.firstMcbSegment kept extra σ.mem mem' bs bs' →
        (σ.umbLink = true → kept (p.memoryTopSegment, linkHeader p)) →
        ∃ cs' us', Keeps p umbEnd kept extra σ { σ with mem := mem' } cs us cs' us' ∧
          (∀ y ∈ located p.firstMcbSegment bs', y ∈ blocks p σ.umbLink cs' us') ∧
          ∀ x ∈ blocks p σ.umbLink cs us, x ∉ located p.firstMcbSegment bs →
            x ∈ blocks p σ.umbLink cs' us' := by
  have hend := h.conventional_end
  have htop := hp.top_lt
  cases hl : σ.umbLink with
  | false =>
    have hlt : p.firstMcbSegment + extent cs < 2 ^ 16 := by
      have := hp.umb_le
      have := hp.end_lt
      omega
    refine ⟨cs, h.conventional, h.unlinked hl, hlt, fun x hx hlow => ?_,
      fun x hx => mem_blocks_of_unlinked.mpr (Or.inl hx), ?_⟩
    · refine (mem_blocks_of_unlinked.mp hx).resolve_right fun hx => ?_
      have := located_range hx
      omega
    · intro kept extra mem' cs' hrw hlink
      have hk := h.rewriteConventional hp hl hrw
      rw [hl] at hk
      refine ⟨cs', us, hk, fun y hy => mem_blocks_of_unlinked.mpr (Or.inl hy), fun x hx hnot => ?_⟩
      exact mem_blocks_of_unlinked.mpr (Or.inr ((mem_blocks_of_unlinked.mp hx).resolve_left hnot))
  | true =>
    obtain ⟨hch, hs, hall⟩ := h.whole hp hl
    have hblocks := blocks_linked us hp hend
    refine ⟨_, hch, hs, hall ▸ hp.end_lt, fun x hx _ => hblocks ▸ hx, fun x hx => hblocks ▸ hx, ?_⟩
    intro kept extra mem' ds hrw hlink
    obtain ⟨cs', us', rfl, hk⟩ := h.rewriteWhole hp hl hrw (hlink rfl)
    rw [hl] at hk
    have hblocks' := blocks_linked us' hp hk.wellFormed.conventional_end
    exact ⟨cs', us', hk, fun y hy => hblocks' ▸ hy, fun x hx hnot => absurd (hblocks ▸ hx) hnot⟩

/-! ### Runs -/

/-- The upper memory bits of a strategy. -/
def searchesUpper (strategy : ℕ) : Prop := strategy &&& 0x0040 ≠ 0 ∨ strategy &&& 0x0080 ≠ 0

/-- The call does not overrun a chain it searches and does not name the link block. -/
def Operation.Avoids (p : Placement) (σ : State) (cs us : List Header) : Operation → Prop
  | .allocateDos paragraphs _ strategy =>
    if σ.umbLink then
      searchesUpper strategy.toNat →
        ¬ Overruns σ.mem p.umbFirstMcbSegment us paragraphs.toNat (strategy.toNat &&& 0x000F)
    else ¬ Overruns σ.mem p.firstMcbSegment cs paragraphs.toNat (strategy.toNat &&& 0x000F)
  | .freeDos dataSegment =>
    σ.umbLink → wrappingSub 16 dataSegment.toNat 1 ≠ p.memoryTopSegment
  | .resizeDos dataSegment _ =>
    σ.umbLink → wrappingSub 16 dataSegment.toNat 1 ≠ p.memoryTopSegment
  | .freeProcessBlocksDos ownerPsp => σ.umbLink → ownerPsp.toNat ≠ ownerDos
  | .freeProcessBlocksTsrDos ownerPsp _ =>
    σ.umbLink → ¬ (ownerPsp.toNat = ownerDos ∧ p.memoryTopSegment + 1 = ownerPsp.toNat)
  | .setDosUmbLinkState _ => True

/-- The blocks a call is about. -/
def Operation.Targets (p : Placement) : Operation → ℕ × Header → Prop
  | .allocateDos .., _ => False
  | .freeDos dataSegment, x => x.1 = wrappingSub 16 dataSegment.toNat 1
  | .resizeDos dataSegment _, x => x.1 = wrappingSub 16 dataSegment.toNat 1
  | .freeProcessBlocksDos ownerPsp, x => x.2.owner = ownerPsp.toNat
  | .freeProcessBlocksTsrDos ownerPsp _, x =>
    x.2.owner = ownerPsp.toNat ∧ x.1 + 1 = ownerPsp.toNat
  | .setDosUmbLinkState _, x => x.1 = p.memoryTopSegment

/-- The data paragraphs that a call takes from its target. -/
def Operation.GivesUp : Operation → ℕ × Header → ℕ → Prop
  | .resizeDos _ newParagraphs, x, q => x.1 + newParagraphs.toNat < q
  | .freeProcessBlocksTsrDos _ keepParagraphs, x, q => x.1 + keepParagraphs.toNat < q
  | .setDosUmbLinkState _, _, _ => False
  | _, _, _ => True

/-- What a call leaves alone: every owned block but its targets keeps segment, size and owner,
and no data byte of an owned block changes but those the call gives up. -/
structure LeavesAlone (p : Placement) (op : Operation) (σ σ' : State)
    (cs us cs' us' : List Header) : Prop where
  others : ∀ x ∈ blocks p σ.umbLink cs us, Owned x → ¬ op.Targets p x →
    ∃ y ∈ blocks p σ'.umbLink cs' us', y.1 = x.1 ∧ y.2.size = x.2.size ∧ y.2.owner = x.2.owner
  data : ∀ x ∈ blocks p σ.umbLink cs us, Owned x → ∀ a, x.1 < a / 16 → a / 16 ≤ x.1 + x.2.size →
    ¬ (op.Targets p x ∧ op.GivesUp x (a / 16)) → σ'.mem a = σ.mem a

lemma Keeps.leavesAlone {kept : ℕ × Header → Prop} {extra : Set ℕ} {op : Operation}
    (h : Keeps p umbEnd kept extra σ σ' cs us cs' us')
    (hkept : ∀ x ∈ blocks p σ.umbLink cs us, Owned x → ¬ op.Targets p x → kept x)
    (hextra : ∀ x ∈ blocks p σ.umbLink cs us, Owned x → op.Targets p x →
      ∀ q, x.1 < q → q ≤ x.1 + x.2.size → ¬ op.GivesUp x q → q ∈ extra) :
    LeavesAlone p op σ σ' cs us cs' us' := by
  refine ⟨fun x hx ho ht => ⟨x, h.kept_mem x hx (hkept x hx ho ht), rfl, rfl, rfl⟩,
    fun x hx ho a h1 h2 hkeep => h.frame a fun hc => ?_⟩
  by_cases ht : op.Targets p x
  · exact hc.1 (hextra x hx ho ht _ h1 h2 fun hg => hkeep ⟨ht, hg⟩)
  · have := hc.2 x hx (hkept x hx ho ht)
    omega

/-! ### Allocate -/

lemma owned_link : Owned (p.memoryTopSegment, linkHeader p) := by
  have h : ownerDos ≠ ownerFree := by decide
  exact h

variable {strategy owner : ℕ}

lemma allocateUpper_keeps (hp : p.Ordered umbEnd) (h : WellFormed p umbEnd σ cs us) {paragraphs : ℕ}
    (ho : owner < 2 ^ 16) (hstays : ¬ Overruns σ.mem p.umbFirstMcbSegment us paragraphs strategy) :
    ∃ result mem' us', allocate σ.mem p.umbFirstMcbSegment paragraphs owner strategy =
      some (result, mem') ∧ Keeps p umbEnd Owned ∅ σ { σ with mem := mem' } cs us cs us' := by
  obtain ⟨result, mem', us', hrun, hrw⟩ :=
    allocate_rewrites h.upper h.upper_sealed (h.upper_end ▸ hp.end_lt) ho hstays
  exact ⟨result, mem', us', hrun, h.rewriteUpper hp hrw⟩

lemma allocateLinked_keeps (paragraphs : ℕ) (hp : p.Ordered umbEnd)
    (h : WellFormed p umbEnd σ cs us) (hl : σ.umbLink = true) (strategy : ℕ) (ho : owner < 2 ^ 16) :
    ∃ result mem' cs' us', allocateWithLimit σ.mem p.firstMcbSegment (some p.memoryTopSegment)
        paragraphs owner strategy = some (result, mem') ∧
      Keeps p umbEnd Owned ∅ σ { σ with mem := mem' } cs us cs' us' := by
  obtain ⟨hch, hs, hend⟩ := h.whole hp hl
  have hne : cs ≠ [] := by
    rintro rfl
    have := h.conventional_end
    have := hp.first_lt
    simp only [extent] at *
    omega
  have hlim : Limits (some p.memoryTopSegment) p.firstMcbSegment cs (linkHeader p :: us) := by
    refine Or.inr ⟨by rw [h.conventional_end], List.cons_ne_nil _ _, fun c hc => ?_⟩
    obtain rfl : linkHeader p = c := by simpa using hc
    exact owned_link
  obtain ⟨result, mem', ds, hrun, hrw⟩ := allocateWithLimit_rewrites paragraphs strategy hch hs
    (hend ▸ hp.end_lt) hne hlim ho fun h => absurd h (List.cons_ne_nil _ us)
  obtain ⟨cs', us', -, hk⟩ := h.rewriteWhole hp hl hrw owned_link
  exact ⟨result, mem', cs', us', hrun, hk⟩

lemma dosStrategyView_none (first top strategy : ℕ) :
    dosStrategyView ⟨first, top, none⟩ strategy = (strategy &&& 0x000F, none, false, false) := by
  simp [dosStrategyView]

lemma dosStrategyView_low {first top umb : ℕ} (h : ¬ searchesUpper strategy) :
    dosStrategyView ⟨first, top, some umb⟩ strategy = (strategy &&& 0x000F, none, false, false) := by
  unfold searchesUpper at h
  simp [dosStrategyView, h]

lemma dosStrategyView_upper {first top umb : ℕ} (h : searchesUpper strategy) :
    dosStrategyView ⟨first, top, some umb⟩ strategy = (strategy &&& 0x000F, some umb,
      decide (strategy &&& 0x0040 ≠ 0), decide (strategy &&& 0x0080 ≠ 0)) := by
  unfold searchesUpper at h
  simp [dosStrategyView, h]

lemma allocateDos_low {chains : McbChains} {paragraphs : ℕ} {mem mem' : Memory}
    {result : AllocateResult}
    (hview : dosStrategyView chains strategy = (strategy &&& 0x000F, none, false, false))
    (hrun : allocateWithLimit mem chains.firstMcbSegment (conventionalStopBeforeSegment chains)
      paragraphs owner (strategy &&& 0x000F) = some (result, mem')) :
    allocateDos mem chains paragraphs owner strategy = some (result, mem') := by
  unfold allocateDos
  rw [hview]
  simp only [hrun, Option.bind_eq_bind, Option.bind_some]
  cases result with
  | ok data => rfl
  | error e => rfl

/-- A search of the upper chain, and of the conventional one when it fails and may do so. -/
lemma allocateDos_upper {first top umb paragraphs : ℕ} {mem mem₁ mem₂ : Memory}
    {result₁ result₂ : AllocateResult} (h : searchesUpper strategy)
    (hrun₁ : allocate mem umb paragraphs owner (strategy &&& 0x000F) = some (result₁, mem₁))
    (hrun₂ : allocateWithLimit mem₁ first (some top) paragraphs owner (strategy &&& 0x000F) =
      some (result₂, mem₂)) :
    ∃ result, allocateDos mem ⟨first, top, some umb⟩ paragraphs owner strategy =
        some (result, mem₁) ∨
      allocateDos mem ⟨first, top, some umb⟩ paragraphs owner strategy = some (result, mem₂) := by
  unfold allocateDos
  rw [dosStrategyView_upper h]
  simp only [hrun₁, Option.bind_eq_bind, Option.bind_some, conventionalStopBeforeSegment,
    Option.map_some, hrun₂]
  cases result₁ with
  | ok data => exact ⟨_, Or.inl rfl⟩
  | error e =>
    dsimp only
    split_ifs
    · exact ⟨_, Or.inl rfl⟩
    · cases result₂ with
      | ok data => exact ⟨_, Or.inr rfl⟩
      | error e => exact ⟨_, Or.inr rfl⟩
    · exact ⟨_, Or.inl rfl⟩

lemma allocateDos_keeps (hp : p.Ordered umbEnd) (h : WellFormed p umbEnd σ cs us)
    {paragraphs owner strategy : UInt16}
    (hav : (Operation.allocateDos paragraphs owner strategy).Avoids p σ cs us) :
    ∃ σ' cs' us', step p σ (.allocateDos paragraphs owner strategy) = some σ' ∧
      Keeps p umbEnd Owned ∅ σ σ' cs us cs' us' := by
  have ho : owner.toNat < 2 ^ 16 := owner.toNat_lt
  have hstep : ∀ result mem', allocateDos σ.mem (linkedMcbChains p σ) paragraphs.toNat owner.toNat
      strategy.toNat = some (result, mem') →
      step p σ (.allocateDos paragraphs owner strategy) = some { σ with mem := mem' } := by
    intro result mem' hrun
    simp only [step, hrun, Option.bind_eq_bind, Option.bind_some]
  simp only [Operation.Avoids] at hav
  cases hl : σ.umbLink with
  | false =>
    rw [hl] at hav
    have hs := h.unlinked hl
    have hlt : p.firstMcbSegment + extent cs < 2 ^ 16 := by
      have := h.conventional_end
      have := hp.top_lt
      have := hp.umb_le
      have := hp.end_lt
      omega
    have hchains : linkedMcbChains p σ = ⟨p.firstMcbSegment, p.memoryTopSegment, none⟩ := by
      rw [linkedMcbChains, hl]
      rfl
    obtain ⟨result, mem', cs', hrun, hrw⟩ := allocate_rewrites h.conventional hs hlt ho hav
    refine ⟨_, cs', us, hstep result mem' ?_, h.rewriteConventional hp hl hrw⟩
    rw [hchains]
    exact allocateDos_low (dosStrategyView_none _ _ _) hrun
  | true =>
    rw [hl, if_pos rfl] at hav
    have hchains : linkedMcbChains p σ =
        ⟨p.firstMcbSegment, p.memoryTopSegment, some p.umbFirstMcbSegment⟩ := by
      rw [linkedMcbChains, hl]
      rfl
    rw [hchains] at hstep
    by_cases hupper : searchesUpper strategy.toNat
    · obtain ⟨result, mem₁, us₁, hrun, hk⟩ := allocateUpper_keeps hp h ho (hav hupper)
      obtain ⟨result₂, mem₂, cs₂, us₂, hrun₂, hk₂⟩ := allocateLinked_keeps
        paragraphs.toNat hp hk.wellFormed hl (strategy.toNat &&& 0x000F) ho
      obtain ⟨result, hdos | hdos⟩ := allocateDos_upper hupper hrun hrun₂
      · exact ⟨_, cs, us₁, hstep _ _ hdos, hk⟩
      · exact ⟨_, cs₂, us₂, hstep _ _ hdos, hk.trans hk₂⟩
    · obtain ⟨result, mem', cs', us', hrun, hk⟩ := allocateLinked_keeps
        paragraphs.toNat hp h hl (strategy.toNat &&& 0x000F) ho
      exact ⟨_, cs', us', hstep result mem' (allocateDos_low (dosStrategyView_low hupper) hrun), hk⟩

/-! ### Free and resize -/

lemma findChain_start {mem : Memory} {chains : McbChains} {d start q : ℕ}
    (h : findChainContainingBlock mem chains d = .ok (some (start, q))) :
    start = chains.firstMcbSegment ∨ chains.umbFirstMcbSegment = some start := by
  unfold findChainContainingBlock at h
  cases h1 : walkChainForDataSegment mem chains.firstMcbSegment d with
  | error e => simp [h1, bind, Except.bind] at h
  | ok found =>
    cases found with
    | some q' =>
      simp only [h1, bind, Except.bind, Except.ok.injEq, Option.some.injEq, Prod.mk.injEq] at h
      exact Or.inl h.1.symm
    | none =>
      cases h2 : chains.umbFirstMcbSegment with
      | none => simp [h1, h2, bind, Except.bind] at h
      | some umb =>
        cases h3 : walkChainForDataSegment mem umb d with
        | error e => simp [h1, h2, h3, bind, Except.bind] at h
        | ok found =>
          cases found with
          | none => simp [h1, h2, h3, bind, Except.bind] at h
          | some q' =>
            simp only [h1, h2, h3, bind, Except.bind, Except.ok.injEq, Option.some.injEq,
              Prod.mk.injEq] at h
            exact Or.inr (by rw [h.1])

lemma linkedMcbChains_umb {start : ℕ}
    (h : (linkedMcbChains p σ).umbFirstMcbSegment = some start) :
    start = p.umbFirstMcbSegment := by
  unfold linkedMcbChains at h
  dsimp only at h
  split_ifs at h
  exact (Option.some.inj h).symm

/-- A block with a paragraph behind the start of the upper chain is one of that chain. -/
lemma WellFormed.mem_upper (hp : p.Ordered umbEnd) (h : WellFormed p umbEnd σ cs us)
    {x : ℕ × Header} (hx : x ∈ blocks p σ.umbLink cs us) {q : ℕ} (h1 : p.umbFirstMcbSegment ≤ q)
    (h2 : q ≤ x.1 + x.2.size) : x ∈ located p.umbFirstMcbSegment us := by
  have hend := h.conventional_end
  have htop := hp.top_lt
  rw [blocks, List.mem_append, List.mem_append] at hx
  rcases hx with hx | hx | hx
  · have := located_range hx
    omega
  · split_ifs at hx
    · obtain rfl := List.mem_singleton.mp hx
      have : (linkHeader p).size = p.umbFirstMcbSegment - p.memoryTopSegment - 1 := rfl
      dsimp only at h2
      omega
    · cases hx
  · exact hx

lemma freeDos_keeps (hp : p.Ordered umbEnd) (h : WellFormed p umbEnd σ cs us)
    {dataSegment : UInt16} {target : ℕ} (htarget : wrappingSub 16 dataSegment.toNat 1 = target)
    (hav : σ.umbLink = true → target ≠ p.memoryTopSegment) :
    ∃ σ' cs' us', step p σ (.freeDos dataSegment) = some σ' ∧
      Keeps p umbEnd (fun x => x.1 ≠ target) ∅ σ σ' cs us cs' us' := by
  have hdone : ∃ mem' cs' us', some (freeDos σ.mem (linkedMcbChains p σ) dataSegment.toNat).2 =
      some mem' ∧
        Keeps p umbEnd (fun x => x.1 ≠ target) ∅ σ { σ with mem := mem' } cs us cs' us' := by
    unfold freeDos
    split
    · exact ⟨_, cs, us, rfl, Keeps.refl h⟩
    · rename_i start q hfound
      rcases findChain_start hfound with rfl | humb
      · obtain ⟨bs, hch, hs, hlt, -, -, hlift⟩ := h.walked hp
        obtain ⟨bs', hrw, -⟩ := free_rewrites hch hs hlt htarget
        obtain ⟨cs', us', hk, -⟩ := hlift _ ∅ _ _
          (hrw.weaken (fun _ _ hx => hx) fun q hq => hq.elim) fun hl => (hav hl).symm
        exact ⟨_, cs', us', rfl, hk⟩
      · obtain rfl := linkedMcbChains_umb humb
        obtain ⟨us', hrw, -⟩ :=
          free_rewrites h.upper h.upper_sealed (h.upper_end ▸ hp.end_lt) htarget
        exact ⟨_, cs, us', rfl,
          h.rewriteUpper hp (hrw.weaken (fun _ _ hx => hx) fun q hq => hq.elim)⟩
    · exact ⟨_, cs, us, rfl, Keeps.refl h⟩
  obtain ⟨mem', cs', us', hrun, hk⟩ := hdone
  obtain rfl := Option.some.inj hrun
  exact ⟨_, cs', us', rfl, hk⟩

/-- The data that a resized block keeps. -/
def keptBlockData (bs : List (ℕ × Header)) (target newParagraphs : ℕ) : Set ℕ :=
  {q | ∃ b, (target, b) ∈ bs ∧ q ∈ keptData target b.size newParagraphs}

lemma resizeDos_keeps (newParagraphs : UInt16) (hp : p.Ordered umbEnd)
    (h : WellFormed p umbEnd σ cs us) {dataSegment : UInt16} {target : ℕ}
    (htarget : wrappingSub 16 dataSegment.toNat 1 = target)
    (hav : σ.umbLink = true → target ≠ p.memoryTopSegment) :
    ∃ σ' cs' us', step p σ (.resizeDos dataSegment newParagraphs) = some σ' ∧
      Keeps p umbEnd (OwnedElsewhere target)
        (keptBlockData (blocks p σ.umbLink cs us) target newParagraphs.toNat) σ σ' cs us cs' us' := by
  set extra := keptBlockData (blocks p σ.umbLink cs us) target newParagraphs.toNat with hextra
  have hdone : ∃ mem' cs' us', (resizeDos σ.mem (linkedMcbChains p σ) dataSegment.toNat
      newParagraphs.toNat).map Prod.snd = some mem' ∧
      Keeps p umbEnd (OwnedElsewhere target) extra σ { σ with mem := mem' } cs us cs' us' := by
    unfold resizeDos
    split
    · rename_i start q hfound
      rcases findChain_start hfound with rfl | humb
      · obtain ⟨bs, hch, hs, hlt, hin, -, hlift⟩ := h.walked hp
        obtain ⟨result, mem', bs', hrun, hrw, -⟩ :=
          resize_rewrites hch hs hlt newParagraphs.toNat htarget
        obtain ⟨cs', us', hk, -⟩ := hlift _ extra _ _ (hrw.weaken (fun _ _ hx => hx) (by
          rintro q ⟨b, hb, hq⟩ h1 -
          exact ⟨b, hin _ hb (hq.1.trans h1), hq⟩)) fun hl => ⟨owned_link, (hav hl).symm⟩
        exact ⟨mem', cs', us', congrArg (Option.map Prod.snd) hrun, hk⟩
      · obtain rfl := linkedMcbChains_umb humb
        obtain ⟨result, mem', us', hrun, hrw, -⟩ :=
          resize_rewrites h.upper h.upper_sealed (h.upper_end ▸ hp.end_lt) newParagraphs.toNat
            htarget
        refine ⟨mem', cs, us', congrArg (Option.map Prod.snd) hrun,
          h.rewriteUpper hp (hrw.weaken (fun _ _ hx => hx) ?_)⟩
        rintro q ⟨b, hb, hq⟩ - h1
        refine ⟨b, h.mem_upper hp hb h1 (hq.2.trans ?_), hq⟩
        exact Nat.add_le_add_left (Nat.min_le_left _ _) _
    · exact ⟨_, cs, us, rfl, Keeps.refl h⟩
    · exact ⟨_, cs, us, rfl, Keeps.refl h⟩
  obtain ⟨mem', cs', us', hrun, hk⟩ := hdone
  obtain ⟨⟨result, mem''⟩, hres, rfl⟩ := Option.map_eq_some_iff.mp hrun
  refine ⟨_, cs', us', ?_, hk⟩
  simp only [step, hres, Option.bind_eq_bind, Option.bind_some]

/-! ### Blocks of a process -/

lemma freeProcessBlocksDos_keeps (hp : p.Ordered umbEnd) (h : WellFormed p umbEnd σ cs us)
    {ownerPsp : UInt16} (hav : σ.umbLink = true → ownerPsp.toNat ≠ ownerDos) :
    ∃ σ' cs' us', step p σ (.freeProcessBlocksDos ownerPsp) = some σ' ∧
      Keeps p umbEnd (OwnedByOther ownerPsp.toNat) ∅ σ σ' cs us cs' us' := by
  obtain ⟨bs, hch, hs, hlt, -, -, hlift⟩ := h.walked hp
  obtain ⟨mem₁, bs₁, hrun₁, hrw₁⟩ := freeProcessBlocks_rewrites hch hs hlt ownerPsp.toNat
  obtain ⟨cs₁, us₁, hk₁, -⟩ := hlift _ _ _ _ hrw₁ fun hl => ⟨owned_link, (hav hl).symm⟩
  obtain ⟨mem₂, us₂, hrun₂, hrw₂⟩ := freeProcessBlocks_rewrites hk₁.wellFormed.upper
    hk₁.wellFormed.upper_sealed (hk₁.wellFormed.upper_end ▸ hp.end_lt) ownerPsp.toNat
  refine ⟨_, cs₁, us₂, ?_, hk₁.trans (hk₁.wellFormed.rewriteUpper hp hrw₂)⟩
  simp only [step, freeProcessBlocksDos, hrun₁, hrun₂, Option.bind_eq_bind, Option.bind_some]

/-- The block that holds the process itself. -/
def HoldsPsp (ownerPsp : ℕ) (x : ℕ × Header) : Prop := x.2.owner = ownerPsp ∧ x.1 + 1 = ownerPsp

/-- The data that a process staying resident keeps of its own block. -/
def residentData (bs : List (ℕ × Header)) (ownerPsp keepParagraphs : ℕ) : Set ℕ :=
  {q | ∃ x ∈ bs, HoldsPsp ownerPsp x ∧ q ∈ keptData x.1 x.2.size keepParagraphs}

lemma freeProcessBlocksTsrDos_keeps (keepParagraphs : UInt16) (hp : p.Ordered umbEnd)
    (h : WellFormed p umbEnd σ cs us) {ownerPsp : UInt16}
    (hav : σ.umbLink = true →
      ¬ (ownerPsp.toNat = ownerDos ∧ p.memoryTopSegment + 1 = ownerPsp.toNat)) :
    ∃ σ' cs' us', step p σ (.freeProcessBlocksTsrDos ownerPsp keepParagraphs) = some σ' ∧
      Keeps p umbEnd (fun x => Owned x ∧ ¬ HoldsPsp ownerPsp.toNat x)
        (residentData (blocks p σ.umbLink cs us) ownerPsp.toNat keepParagraphs.toNat)
        σ σ' cs us cs' us' := by
  obtain ⟨bs, hch, hs, hlt, hin, -, hlift⟩ := h.walked hp
  obtain ⟨mem₁, bs₁, hrun₁, hrw₁, hstays⟩ :=
    freeProcessBlocksTsr_rewrites hch hs hlt ownerPsp.toNat keepParagraphs.toNat
  obtain ⟨cs₁, us₁, hk₁, hin₁, hout₁⟩ := hlift _
    (residentData (blocks p σ.umbLink cs us) ownerPsp.toNat keepParagraphs.toNat) _ _
    (hrw₁.weaken (fun _ _ hx => hx) (by
      rintro q ⟨x, hx, ⟨ho, hseg⟩, hq⟩ h1 -
      exact ⟨x, hin x hx (hq.1.trans h1), ho, hseg, hq⟩))
    fun hl => ⟨owned_link, fun hh => hav hl ⟨hh.1.symm, hh.2⟩⟩
  have hwf := hk₁.wellFormed
  obtain ⟨mem₂, us₂, hrun₂, hrw₂, -⟩ := freeProcessBlocksTsr_rewrites hwf.upper hwf.upper_sealed
    (hwf.upper_end ▸ hp.end_lt) ownerPsp.toNat keepParagraphs.toNat
  refine ⟨_, cs₁, us₂, ?_, hk₁.trans (hwf.rewriteUpper hp (hrw₂.weaken (fun _ _ hx => hx) ?_))⟩
  · simp only [step, freeProcessBlocksTsrDos, hrun₁, hrun₂, Option.bind_eq_bind, Option.bind_some]
  · rintro q ⟨x, hx, ⟨ho, hseg⟩, hq⟩ - h1
    -- the first pass leaves the block with at least the data it keeps
    obtain ⟨d, hd, hdo, hdsize⟩ : ∃ d, (x.1, d) ∈ blocks p σ.umbLink cs₁ us₁ ∧
        d.owner = x.2.owner ∧ min x.2.size keepParagraphs.toNat ≤ d.size := by
      by_cases hxin : x ∈ located p.firstMcbSegment bs
      · obtain ⟨d, hd, hdo, hdsize⟩ := hstays x hxin ho hseg
        exact ⟨d, hin₁ _ hd, hdo, hdsize⟩
      · exact ⟨x.2, hout₁ x hx hxin, rfl, Nat.min_le_left _ _⟩
    obtain ⟨hq1, hq2⟩ := hq
    refine ⟨(x.1, d), hwf.mem_upper hp hd h1 ?_, hdo.trans ho, hseg, hq1, ?_⟩
    · dsimp only
      omega
    · dsimp only
      omega

end Neetan.Mcb
