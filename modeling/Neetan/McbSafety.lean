import Neetan.McbRun

/-!
Linking the upper chain, and the safety of whole runs.
-/

namespace Neetan.Mcb

open Neetan.ByteMemory Neetan.MachineInt

variable {p : Placement} {umbEnd : ℕ} {σ σ' : State} {cs us : List Header}

/-! ### Linking -/

lemma linkAnchorWalk_spec {mem : Memory} {s top a : ℕ} {bs : List Header}
    (hch : Chain mem s bs) (hs : Sealed bs) (hlt : s + extent bs < 2 ^ 16) {n : ℕ}
    (h : linkAnchorWalk mem top n s = .ok a) :
    ∃ x ∈ located s bs, x.1 = a ∧ x.1 + x.2.size + 1 = top := by
  induction n generalizing s bs with
  | zero => cases h
  | succ n ih =>
    obtain ⟨b, bs, rfl⟩ := List.exists_cons_of_ne_nil hs.ne_nil
    have hv : isValidMcbType b.blockType = true := isValidMcbType_iff.mpr hs.head_valid
    simp only [extent] at hlt
    rw [linkAnchorWalk, readMcbType_eq, readMcbSize_eq, hch.1] at h
    simp only [hv, not_true_eq_false, if_false] at h
    rw [nextSegment_of_lt (by omega)] at h
    by_cases htop : s + b.size + 1 = top
    · rw [if_pos htop] at h
      exact ⟨(s, b), List.mem_cons_self, Except.ok.inj h, htop⟩
    rw [if_neg htop] at h
    cases bs with
    | nil =>
      have hz : b.blockType = typeZ := hs
      rw [if_pos hz] at h
      cases h
    | cons c cs =>
      rw [if_neg (hs.1 ▸ Ne.symm typeZ_ne_typeM)] at h
      obtain ⟨x, hx, hxa⟩ := ih hch.2 hs.2 (by omega) h
      exact ⟨x, List.mem_cons_of_mem _ hx, hxa⟩

lemma anchor_spec (hp : p.Ordered umbEnd) (h : WellFormed p umbEnd σ cs us) {umb : Option ℕ} {a : ℕ}
    (ha : conventionalLinkAnchorSegment σ.mem ⟨p.firstMcbSegment, p.memoryTopSegment, umb⟩ = .ok a) :
    ∃ pre b, cs = pre ++ [b] ∧ a = p.firstMcbSegment + extent pre := by
  obtain ⟨bs, hch, hs, hlt, -, hout, -⟩ := h.walked hp
  obtain ⟨x, hx, rfl, hend⟩ := linkAnchorWalk_spec hch hs hlt ha
  change x.1 + x.2.size + 1 = p.memoryTopSegment at hend
  have htop := hp.top_lt
  have hblocks := hout x hx
  rw [blocks, List.mem_append, List.mem_append] at hblocks
  rcases hblocks with hx | hx | hx
  · obtain ⟨pre, post, rfl, hseg⟩ := mem_located_split hx
    have hall := h.conventional_end
    cases post with
    | nil => exact ⟨pre, x.2, rfl, hseg⟩
    | cons c cs =>
      simp only [extent_append, extent] at hall
      omega
  · split_ifs at hx
    · obtain rfl := List.mem_singleton.mp hx
      dsimp only at hend
      omega
    · cases hx
  · have := located_range hx
    omega

/-- Retyping the last conventional block, and at most the header at the top besides. -/
lemma retype_leavesAlone (linked : Bool) (hp : p.Ordered umbEnd) {pre : List Header} {b : Header}
    (h : WellFormed p umbEnd σ (pre ++ [b]) us) {v : UInt8} {mem' : Memory}
    (hch : Chain mem' p.firstMcbSegment (pre ++ [{ b with blockType := v }]))
    (hco : ChangesOnly σ.mem mem' {q | q = p.firstMcbSegment + extent pre ∨ q = p.memoryTopSegment})
    (hsealed : linked = false → v = typeZ)
    (hlinked : linked = true → v = typeM ∧ header mem' p.memoryTopSegment = linkHeader p) :
    WellFormed p umbEnd ⟨mem', linked⟩ (pre ++ [{ b with blockType := v }]) us ∧
      LeavesAlone p (.setDosUmbLinkState linked) σ ⟨mem', linked⟩ (pre ++ [b]) us
        (pre ++ [{ b with blockType := v }]) us := by
  have htop := hp.top_lt
  have hend := h.conventional_end
  have hend' : extent (pre ++ [{ b with blockType := v }]) = extent (pre ++ [b]) := by
    simp only [extent_append, extent]
  have hlast : p.firstMcbSegment + extent pre + b.size + 1 = p.memoryTopSegment := by
    simp only [extent_append, extent] at hend
    omega
  have hpre : ∀ c ∈ pre, c.blockType = typeM := by
    cases hl : σ.umbLink with
    | false => exact ((sealed_append (List.cons_ne_nil b [])).mp (h.unlinked hl)).1
    | true => exact fun c hc => (h.linked hl).1 c (List.mem_append_left _ hc)
  refine ⟨⟨hch, hend' ▸ hend, ?_, h.upper_sealed, h.upper_end, fun hl => ?_, fun hl => ⟨?_, ?_⟩⟩,
    ⟨fun x hx ho ht => ?_, fun x hx ho a h1 h2 _ => hco a ?_⟩⟩
  · refine h.upper.of_changesOnly hco ?_
    rintro q (rfl | rfl) <;> omega
  · have hz : Sealed [{ b with blockType := v }] := hsealed hl
    exact hz.append hpre
  · intro c hc
    rcases List.mem_append.mp hc with hc | hc
    · exact hpre c hc
    · rw [List.mem_singleton.mp hc]
      exact (hlinked hl).1
  · exact (hlinked hl).2
  · rw [blocks, List.mem_append, List.mem_append] at hx
    simp only [blocks, List.mem_append]
    rcases hx with hx | hx | hx
    · rw [located_append, List.mem_append] at hx
      rcases hx with hx | hx
      · refine ⟨x, Or.inl ?_, rfl, rfl, rfl⟩
        rw [located_append, List.mem_append]
        exact Or.inl hx
      · obtain rfl := List.mem_singleton.mp hx
        refine ⟨(_, { b with blockType := v }), Or.inl ?_, rfl, rfl, rfl⟩
        rw [located_append, List.mem_append]
        exact Or.inr List.mem_cons_self
    · split_ifs at hx
      · obtain rfl := List.mem_singleton.mp hx
        exact absurd rfl ht
      · cases hx
    · exact ⟨x, Or.inr (Or.inr hx), rfl, rfl, rfl⟩
  · rw [blocks, List.mem_append, List.mem_append] at hx
    rintro (hq | hq)
    · rcases hx with hx | hx | hx
      · rw [located_append, List.mem_append] at hx
        rcases hx with hx | hx
        · have := located_range hx
          omega
        · obtain rfl := List.mem_singleton.mp hx
          dsimp only at h1
          omega
      · split_ifs at hx
        · obtain rfl := List.mem_singleton.mp hx
          dsimp only at h1
          omega
        · cases hx
      · have := located_range hx
        omega
    · rcases hx with hx | hx | hx
      · have := located_range hx
        omega
      · split_ifs at hx
        · obtain rfl := List.mem_singleton.mp hx
          dsimp only at h1
          omega
        · cases hx
      · have := located_range hx
        omega

lemma setDosUmbLinkState_leavesAlone (hp : p.Ordered umbEnd) (h : WellFormed p umbEnd σ cs us)
    (linked : Bool) :
    ∃ σ' cs' us', step p σ (.setDosUmbLinkState linked) = some σ' ∧
      WellFormed p umbEnd σ' cs' us' ∧
      LeavesAlone p (.setDosUmbLinkState linked) σ σ' cs us cs' us' := by
  have hsame : LeavesAlone p (.setDosUmbLinkState linked) σ σ cs us cs us :=
    ⟨fun x hx _ _ => ⟨x, hx, rfl, rfl, rfl⟩, fun _ _ _ _ _ _ _ => rfl⟩
  set chains : McbChains := ⟨p.firstMcbSegment, p.memoryTopSegment, some p.umbFirstMcbSegment⟩
    with hchains
  have hfail : ∀ e, setDosUmbLinkState σ.mem chains linked = (.error e, σ.mem) →
      step p σ (.setDosUmbLinkState linked) = some σ := by
    intro e he
    simp only [step, ← hchains, he]
  have hok : ∀ mem', setDosUmbLinkState σ.mem chains linked = (.ok (), mem') →
      step p σ (.setDosUmbLinkState linked) = some ⟨mem', linked⟩ := by
    intro mem' he
    simp only [step, ← hchains, he]
  have hvalid : isValidMcbType (readMcbType σ.mem p.umbFirstMcbSegment) = true := by
    obtain ⟨u, us, rfl⟩ := List.exists_cons_of_ne_nil h.upper_sealed.ne_nil
    rw [readMcbType_eq, h.upper.1]
    exact isValidMcbType_iff.mpr h.upper_sealed.head_valid
  cases ha : conventionalLinkAnchorSegment σ.mem chains with
  | error e =>
    refine ⟨σ, cs, us, hfail e ?_, h, hsame⟩
    simp only [setDosUmbLinkState, hchains, hvalid, not_true_eq_false, if_false] at ha ⊢
    rw [ha]
  | ok a =>
    obtain ⟨pre, b, rfl, rfl⟩ := anchor_spec hp h ha
    have htop := hp.top_lt
    have hend := h.conventional_end
    simp only [extent_append, extent] at hend
    obtain ⟨hpre, hb, -⟩ := (chain_append _ _ _ _).mp h.conventional
    -- the header of the anchor with another type
    have hretype : ∀ v mem', ChangesOnly (writeMcbType σ.mem (p.firstMcbSegment + extent pre) v) mem'
        {p.memoryTopSegment} →
        Chain mem' p.firstMcbSegment (pre ++ [{ b with blockType := v }]) ∧
        ChangesOnly σ.mem mem'
          {q | q = p.firstMcbSegment + extent pre ∨ q = p.memoryTopSegment} := by
      intro v mem' hco
      have hco₁ := changesOnly_writeMcbType σ.mem (p.firstMcbSegment + extent pre) v
      have hall := (hco₁.mono fun q hq => Or.inl hq).trans (hco.mono fun q hq => Or.inr hq)
      refine ⟨?_, hall⟩
      rw [chain_append]
      refine ⟨hpre.of_changesOnly hall ?_, ?_, trivial⟩
      · rintro q (rfl | rfl) <;> omega
      · rw [header_of_changesOnly hco, header_writeMcbType_same, hb]
        intro hq
        rw [Set.mem_singleton_iff] at hq
        omega
    cases linked with
    | false =>
      obtain ⟨hch, hco⟩ := hretype typeZ _ (ChangesOnly.refl _ _)
      obtain ⟨hwf, hleaves⟩ := retype_leavesAlone false hp h hch hco (fun _ => rfl)
        fun htrue => absurd htrue Bool.false_ne_true
      refine ⟨_, _, us, hok _ ?_, hwf, hleaves⟩
      simp only [setDosUmbLinkState, hchains, hvalid, not_true_eq_false, if_false] at ha ⊢
      rw [ha]
      rfl
    | true =>
      have hsize : wrappingSub 16 (wrappingSub 16 p.umbFirstMcbSegment p.memoryTopSegment) 1 =
          p.umbFirstMcbSegment - p.memoryTopSegment - 1 := by
        have := hp.umb_le
        have := hp.end_lt
        exact remainderSize_eq (by omega) (by omega)
      have hlink := writeMcb_spec (writeMcbType σ.mem (p.firstMcbSegment + extent pre) typeM)
        p.memoryTopSegment typeM (show ownerDos < 2 ^ 16 by decide)
        (show p.umbFirstMcbSegment - p.memoryTopSegment - 1 < 2 ^ 16 by
          have := hp.umb_le
          have := hp.end_lt
          omega) (show umbLinkMcbName.length = 8 from rfl)
      obtain ⟨hch, hco⟩ := hretype typeM _ hlink.2
      obtain ⟨hwf, hleaves⟩ := retype_leavesAlone true hp h hch hco
        (fun hfalse => absurd hfalse.symm Bool.false_ne_true) fun _ => ⟨rfl, hlink.1⟩
      refine ⟨_, _, us, hok _ ?_, hwf, hleaves⟩
      simp only [setDosUmbLinkState, hchains, hvalid, not_true_eq_false, if_false] at ha ⊢
      rw [ha, hsize]
      rfl

/-! ### Runs -/

lemma step_safe (hp : p.Ordered umbEnd) (h : WellFormed p umbEnd σ cs us) {op : Operation}
    (hav : op.Avoids p σ cs us) :
    ∃ σ' cs' us', step p σ op = some σ' ∧ WellFormed p umbEnd σ' cs' us' ∧
      LeavesAlone p op σ σ' cs us cs' us' := by
  cases op with
  | allocateDos paragraphs owner strategy =>
    obtain ⟨σ', cs', us', hstep, hk⟩ := allocateDos_keeps hp h hav
    exact ⟨σ', cs', us', hstep, hk.wellFormed,
      hk.leavesAlone (fun x _ ho _ => ho) fun _ _ _ ht => ht.elim⟩
  | freeDos dataSegment =>
    obtain ⟨target, htarget⟩ : ∃ t, wrappingSub 16 dataSegment.toNat 1 = t := ⟨_, rfl⟩
    have hav' : σ.umbLink = true → wrappingSub 16 dataSegment.toNat 1 ≠ p.memoryTopSegment := hav
    rw [htarget] at hav'
    obtain ⟨σ', cs', us', hstep, hk⟩ := freeDos_keeps hp h htarget hav'
    refine ⟨σ', cs', us', hstep, hk.wellFormed, hk.leavesAlone (fun x _ _ ht => ?_)
      fun _ _ _ _ _ _ _ hg => absurd trivial hg⟩
    have hne : x.1 ≠ wrappingSub 16 dataSegment.toNat 1 := ht
    rwa [htarget] at hne
  | resizeDos dataSegment newParagraphs =>
    obtain ⟨target, htarget⟩ : ∃ t, wrappingSub 16 dataSegment.toNat 1 = t := ⟨_, rfl⟩
    have hav' : σ.umbLink = true → wrappingSub 16 dataSegment.toNat 1 ≠ p.memoryTopSegment := hav
    rw [htarget] at hav'
    obtain ⟨σ', cs', us', hstep, hk⟩ := resizeDos_keeps newParagraphs hp h htarget hav'
    refine ⟨σ', cs', us', hstep, hk.wellFormed, hk.leavesAlone (fun x _ ho ht => ⟨ho, ?_⟩)
      fun x hx _ ht q h1 h2 hg => ?_⟩
    · have hne : x.1 ≠ wrappingSub 16 dataSegment.toNat 1 := ht
      rwa [htarget] at hne
    · have hseg : x.1 = wrappingSub 16 dataSegment.toNat 1 := ht
      have hle : q ≤ x.1 + newParagraphs.toNat := Nat.not_lt.mp hg
      rw [htarget] at hseg
      subst hseg
      exact ⟨x.2, hx, h1, by omega⟩
  | freeProcessBlocksDos ownerPsp =>
    obtain ⟨σ', cs', us', hstep, hk⟩ := freeProcessBlocksDos_keeps hp h hav
    exact ⟨σ', cs', us', hstep, hk.wellFormed,
      hk.leavesAlone (fun x _ ho ht => ⟨ho, ht⟩) fun _ _ _ _ _ _ _ hg => absurd trivial hg⟩
  | freeProcessBlocksTsrDos ownerPsp keepParagraphs =>
    obtain ⟨σ', cs', us', hstep, hk⟩ :=
      freeProcessBlocksTsrDos_keeps keepParagraphs hp h hav
    refine ⟨σ', cs', us', hstep, hk.wellFormed, hk.leavesAlone (fun x _ ho ht => ⟨ho, ht⟩) ?_⟩
    intro x hx _ ht q h1 h2 hg
    have hle : q ≤ x.1 + keepParagraphs.toNat := Nat.not_lt.mp hg
    refine ⟨x, hx, ht, h1, ?_⟩
    omega
  | setDosUmbLinkState linked => exact setDosUmbLinkState_leavesAlone hp h linked

/-- Every call of a run avoids overruns and the link block, in the state it is made in. -/
def AvoidsAll (p : Placement) (umbEnd : ℕ) : State → List Operation → Prop
  | _, [] => True
  | σ, op :: ops => (∀ cs us, WellFormed p umbEnd σ cs us → op.Avoids p σ cs us) ∧
    ∀ σ', step p σ op = some σ' → AvoidsAll p umbEnd σ' ops

/-- Every call of a run comes to an end and leaves alone what is not its own, and both chains
are well formed in every state. -/
def SafeRun (p : Placement) (umbEnd : ℕ) :
    State → List Header → List Header → List Operation → Prop
  | σ, cs, us, [] => WellFormed p umbEnd σ cs us
  | σ, cs, us, op :: ops => WellFormed p umbEnd σ cs us ∧ ∃ σ' cs' us',
    step p σ op = some σ' ∧ LeavesAlone p op σ σ' cs us cs' us' ∧ SafeRun p umbEnd σ' cs' us' ops

lemma safeRun_of_avoids (hp : p.Ordered umbEnd) (h : WellFormed p umbEnd σ cs us)
    {ops : List Operation} (hav : AvoidsAll p umbEnd σ ops) : SafeRun p umbEnd σ cs us ops := by
  induction ops generalizing σ cs us with
  | nil => exact h
  | cons op ops ih =>
    obtain ⟨hop, hrest⟩ := hav
    obtain ⟨σ', cs', us', hstep, hwf, hleaves⟩ := step_safe hp h (hop cs us h)
    exact ⟨h, σ', cs', us', hstep, hleaves, ih hwf (hrest σ' hstep)⟩

/-- The blocks of the initial chain. -/
def initialBlocks (p : Placement) (envParagraphs : ℕ) : List Header :=
  let layout := initialMcbLayout p.firstMcbSegment envParagraphs
  [⟨typeM, ownerDos, envParagraphs⟩, ⟨typeM, layout.pspSegment, commandBlockParagraphs⟩,
    ⟨typeZ, ownerFree, p.memoryTopSegment - layout.freeMcbSegment - 1⟩]

/-- The state after the initial chain is written. -/
def initialState (p : Placement) (envParagraphs : ℕ) (mem : Memory) : State :=
  ⟨writeInitialMcbChain mem p.firstMcbSegment p.memoryTopSegment
    (initialMcbLayout p.firstMcbSegment envParagraphs), false⟩

lemma initialState_wellFormed (hp : p.Ordered umbEnd) {mem : Memory} {envParagraphs : ℕ}
    (hroom : p.firstMcbSegment + envParagraphs + commandBlockParagraphs + 2 < p.memoryTopSegment)
    (hch : Chain mem p.umbFirstMcbSegment us) (hs : Sealed us)
    (hend : p.umbFirstMcbSegment + extent us = umbEnd) :
    WellFormed p umbEnd (initialState p envParagraphs mem) (initialBlocks p envParagraphs) us := by
  have hfirst := hp.first_lt
  have htop := hp.top_lt
  have humb := hp.umb_le
  have hlt := hp.end_lt
  have hcommand : commandBlockParagraphs = 36 := rfl
  rw [hcommand] at hroom
  set s := p.firstMcbSegment
  set top := p.memoryTopSegment
  have hpsp : (initialMcbLayout s envParagraphs).pspSegment = s + envParagraphs + 2 := by
    simp only [initialMcbLayout]
    rw [wrappingAdd_of_lt (show s + 1 < 2 ^ 16 by omega),
      wrappingAdd_of_lt (show s + 1 + envParagraphs < 2 ^ 16 by omega),
      wrappingAdd_of_lt (by omega)]
    omega
  have hmcb : (initialMcbLayout s envParagraphs).commandMcbSegment = s + envParagraphs + 1 := by
    simp only [initialMcbLayout]
    rw [wrappingAdd_of_lt (show s + 1 < 2 ^ 16 by omega),
      wrappingAdd_of_lt (show s + 1 + envParagraphs < 2 ^ 16 by omega)]
    omega
  have hfree : (initialMcbLayout s envParagraphs).freeMcbSegment = s + envParagraphs + 38 := by
    have : (initialMcbLayout s envParagraphs).freeMcbSegment =
        wrappingAdd 16 (initialMcbLayout s envParagraphs).pspSegment commandBlockParagraphs := rfl
    rw [this, hpsp, hcommand, wrappingAdd_of_lt (by omega)]
  have hrest := remainderSize_eq (show s + envParagraphs + 38 + 1 ≤ top by omega) (by omega)
  set mem₁ := writeMcb mem s typeM ownerDos envParagraphs environmentName with hmem₁
  set mem₂ := writeMcb mem₁ (s + envParagraphs + 1) typeM (s + envParagraphs + 2)
    commandBlockParagraphs commandName with hmem₂
  set mem₃ := writeMcb mem₂ (s + envParagraphs + 38) typeZ ownerFree
    (top - (s + envParagraphs + 38) - 1) (List.replicate 8 0) with hmem₃
  obtain ⟨h1, hco1⟩ := writeMcb_spec mem s typeM (show ownerDos < 2 ^ 16 by decide)
    (show envParagraphs < 2 ^ 16 by omega) (show environmentName.length = 8 from rfl)
  obtain ⟨h2, hco2⟩ := writeMcb_spec mem₁ (s + envParagraphs + 1) typeM
    (show s + envParagraphs + 2 < 2 ^ 16 by omega) (show commandBlockParagraphs < 2 ^ 16 by decide)
    (show commandName.length = 8 from rfl)
  obtain ⟨h3, hco3⟩ := writeMcb_spec mem₂ (s + envParagraphs + 38) typeZ
    (show ownerFree < 2 ^ 16 by decide)
    (show top - (s + envParagraphs + 38) - 1 < 2 ^ 16 by omega)
    (show (List.replicate 8 (0 : UInt8)).length = 8 from rfl)
  have hmem : (initialState p envParagraphs mem).mem = mem₃ := by
    simp only [initialState, writeInitialMcbChain, s, top] at *
    rw [hmcb, hpsp, hfree, hrest]
    rfl
  have hblocks : initialBlocks p envParagraphs = [⟨typeM, ownerDos, envParagraphs⟩,
      ⟨typeM, s + envParagraphs + 2, commandBlockParagraphs⟩,
      ⟨typeZ, ownerFree, top - (s + envParagraphs + 38) - 1⟩] := by
    simp only [initialBlocks, hpsp, hfree, s, top]
  have hin : ChangesOnly mem mem₃ {q | q < top} := by
    refine (hco1.mono ?_).trans ((hco2.mono ?_).trans (hco3.mono ?_)) <;> rintro q rfl
    · exact hfirst
    · show s + envParagraphs + 1 < top
      omega
    · show s + envParagraphs + 38 < top
      omega
  rw [hblocks]
  refine ⟨?_, ?_, ?_, hs, hend, fun _ => ⟨rfl, rfl, rfl⟩, nofun⟩
  · rw [hmem]
    refine ⟨?_, ?_, ?_, trivial⟩
    · rw [header_of_changesOnly hco3, header_of_changesOnly hco2, h1]
      all_goals
        intro hq
        rw [Set.mem_singleton_iff] at hq
        omega
    · dsimp only
      rw [header_of_changesOnly hco3, h2]
      intro hq
      rw [Set.mem_singleton_iff] at hq
      omega
    · dsimp only
      rw [hcommand, show s + envParagraphs + 1 + 36 + 1 = s + envParagraphs + 38 by omega, h3]
  · simp only [extent, hcommand]
    omega
  · rw [hmem]
    refine hch.of_changesOnly hin fun q hq => Or.inl ?_
    exact Nat.lt_trans hq htop

/-- **From the initial chain and any upper chain on, a run of memory calls of which none
overruns a chain or names the link block keeps both chains well formed, and every call leaves
alone the blocks and the data that are not its own.** -/
theorem mcb_runs_safe (hp : p.Ordered umbEnd) {mem : Memory} {envParagraphs : ℕ}
    (hroom : p.firstMcbSegment + envParagraphs + commandBlockParagraphs + 2 < p.memoryTopSegment)
    (hch : Chain mem p.umbFirstMcbSegment us) (hs : Sealed us)
    (hend : p.umbFirstMcbSegment + extent us = umbEnd) (ops : List Operation)
    (hav : AvoidsAll p umbEnd (initialState p envParagraphs mem) ops) :
    SafeRun p umbEnd (initialState p envParagraphs mem) (initialBlocks p envParagraphs) us ops :=
  safeRun_of_avoids hp (initialState_wellFormed hp hroom hch hs hend) hav

/-- A small machine: conventional memory up to segment 80, the upper chain from 88 to 96. -/
def smallPlacement : Placement := ⟨16, 80, 88⟩

/-- An upper block of a program, and the header of a free block in the paragraph between. -/
def staleMemory : Memory :=
  writeMcb (writeMcb (fun _ => 0) 88 typeZ 22 7 (List.replicate 8 0)) 80 typeZ ownerFree 10
    (List.replicate 8 0)

def programBlock : List Header := [⟨typeZ, 22, 7⟩]

lemma smallPlacement_ordered : smallPlacement.Ordered 96 :=
  ⟨by decide, by decide, by decide, by decide⟩

lemma staleMemory_chain : Chain staleMemory 88 programBlock := ⟨by decide, trivial⟩

theorem mcb_runs_safe_linked :
    SafeRun smallPlacement 96 (initialState smallPlacement 4 staleMemory)
      (initialBlocks smallPlacement 4) programBlock
      [.setDosUmbLinkState true, .resizeDos 17 2, .freeProcessBlocksDos 22] :=
  mcb_runs_safe smallPlacement_ordered (by decide) staleMemory_chain rfl rfl _
    ⟨fun _ _ _ => trivial, fun _ _ =>
      ⟨fun _ _ _ _ => (by decide : wrappingSub 16 (17 : UInt16).toNat 1 ≠ 80), fun _ _ =>
        ⟨fun _ _ _ _ => (by decide : (22 : UInt16).toNat ≠ ownerDos), fun _ _ => trivial⟩⟩⟩

/-- A block is allocated and freed at the end of the chain, then eight paragraphs are asked
for by best fit. -/
def overrun : List Operation :=
  [.allocateDos 2 22 0, .freeDos 59, .allocateDos 8 22 1]

/-- The best fit takes the stale block behind the chain and splits it inside the data of the
upper block. -/
theorem mcb_overrun_writes_data : smallPlacement.Ordered 96 ∧ Chain staleMemory 88 programBlock ∧
    Sealed programBlock ∧
    ¬ SafeRun smallPlacement 96 (initialState smallPlacement 4 staleMemory)
      (initialBlocks smallPlacement 4) programBlock overrun := by
  refine ⟨smallPlacement_ordered, staleMemory_chain, rfl, ?_⟩
  rintro ⟨-, σ₁, cs₁, us₁, h₁, -, -, σ₂, cs₂, us₂, h₂, -, hwf, σ₃, cs₃, us₃, h₃, hleaves, -⟩
  have hrun : (do
      let a ← step smallPlacement (initialState smallPlacement 4 staleMemory) (.allocateDos 2 22 0)
      let b ← step smallPlacement a (.freeDos 59)
      let c ← step smallPlacement b (.allocateDos 8 22 1)
      some (header b.mem 88, b.mem (89 * 16), c.mem (89 * 16))) =
        some (⟨typeZ, 22, 7⟩, 0, 0x5A) := by decide +kernel
  simp only [h₁, h₂, h₃, Option.bind_eq_bind, Option.bind_some, Option.some.injEq,
    Prod.mk.injEq] at hrun
  obtain ⟨hheader, hbefore, hafter⟩ := hrun
  obtain ⟨b, rest, rfl⟩ := List.exists_cons_of_ne_nil hwf.upper_sealed.ne_nil
  obtain rfl : b = ⟨typeZ, 22, 7⟩ := hwf.upper.1.symm.trans hheader
  have hmem : ((88, ⟨typeZ, 22, 7⟩) : ℕ × Header) ∈ blocks smallPlacement σ₂.umbLink cs₂
      (⟨typeZ, 22, 7⟩ :: rest) :=
    List.mem_append_right _ (List.mem_append_right _ List.mem_cons_self)
  have howned : Owned (88, ⟨typeZ, 22, 7⟩) := by
    have h : (22 : ℕ) ≠ ownerFree := by decide
    exact h
  have hsame := hleaves.data _ hmem howned (89 * 16) (by decide) (by decide) fun h => h.1
  rw [hbefore, hafter] at hsame
  exact absurd hsame (by decide)

end Neetan.Mcb
