import Neetan.PagingCoherence

/-!
Accesses of coherent systems, and runs.

In a coherent system an access to a page that has not been changed does what the fresh walk
says. Every event keeps a system coherent, except an LMSW that turns paging on over a code page
cached without it.
-/

namespace Neetan.Paging

open DwordMemory

/-! ### Accesses -/

section

variable {model : CpuModel} {width : AddressWidth} {self : I386} {mem : Memory}
  {linear : Address} {write : Bool}

lemma errorCode_eq (present : Bool) : self.raisePageFault linear write present mem =
    ⟨.error (.exception 14 (errorCode self write present)),
      { self with cr2 := linear, faultPending := true }, mem⟩ := by
  unfold I386.raisePageFault errorCode
  cases present <;> cases write <;> cases self.isUserPageAccess <;> rfl

lemma freshWalk_of_fits (hon : self.isPagingEnabled = true) (h : Fits width self.cr3 mem linear) :
    freshWalk model width self mem linear write =
      (let pde := pdeOf self.cr3 mem linear
      let pte := pteOf self.cr3 mem linear
      if ¬ Both ptePresent pde pte then .error (errorCode self write false)
      else if ¬ Permitted model self pde pte write then .error (errorCode self write true)
      else .ok (pte &&& frameMask ||| linear &&& offsetMask)) := by
  have hpde := freshPde_eq h
  unfold freshWalk
  simp only
  rw [if_neg (by rw [hon]; decide), hpde]
  by_cases hp : pdeOf self.cr3 mem linear &&& ptePresent = 0
  · rw [if_pos fun hb => hb.1 hp, if_pos fun hb => hb.1 hp]
  rw [freshPte_eq h hp]
  by_cases hb : Both ptePresent (pdeOf self.cr3 mem linear) (pteOf self.cr3 mem linear)
  · have hframe := (h.2 hb.1).2 hb.2
    rw [BitVec.and_or_distrib_right, hframe, offset_mask]
  · rw [if_pos hb, if_pos hb]

lemma accessed_of_marked (h : Fits width self.cr3 mem linear)
    (hp : pdeOf self.cr3 mem linear &&& ptePresent ≠ 0) (hm : Marked self.cr3 mem linear write) :
    Accessed width self.cr3 mem linear write := by
  unfold Accessed
  rw [freshPde_eq h, freshPte_eq h hp]
  exact hm

lemma right_walk (hon : self.isPagingEnabled = true) (h : Fits width self.cr3 mem linear) :
    Right model width self mem linear write (self.pageTableWalk model linear write mem) := by
  unfold Right
  rw [freshWalk_of_fits hon h, pageTableWalk_eq, errorCode_eq, errorCode_eq]
  dsimp only
  by_cases hb : Both ptePresent (pdeOf self.cr3 mem linear) (pteOf self.cr3 mem linear)
  · rw [if_neg (not_not.mpr hb), if_neg (not_not.mpr hb)]
    by_cases hp : Permitted model self (pdeOf self.cr3 mem linear) (pteOf self.cr3 mem linear) write
    · rw [if_neg (not_not.mpr hp), if_neg (not_not.mpr hp)]
      obtain ⟨hg, hm⟩ := mark_spec self.cr3 mem linear write
      refine ⟨rfl, hg, fun _ => accessed_of_marked (hg.fits h) ?_ hm⟩
      exact hg.pde_ne_zero hb.1
    · rw [if_pos hp, if_pos hp]
      exact ⟨rfl, rfl, rfl⟩
  · rw [if_pos hb, if_pos hb]
    exact ⟨rfl, rfl, rfl⟩

lemma right_of_maps {slot : TlbSlot} {step : Step} (hon : self.isPagingEnabled = true)
    (h : Fits width self.cr3 mem linear) (hm : Maps self.cr3 mem linear slot)
    (hdenied : (self.isUserPageAccess = true ∧ slot.user = false ∨ write = true ∧
      (self.isUserPageAccess = true ∨ self.wpEnforced model = true) ∧ slot.writable = false) →
        step = self.raisePageFault linear write true mem)
    (hpermitted : ¬ (self.isUserPageAccess = true ∧ slot.user = false ∨ write = true ∧
      (self.isUserPageAccess = true ∨ self.wpEnforced model = true) ∧ slot.writable = false) →
        step = ⟨.ok (slot.phys ||| linear &&& offsetMask), step.cpu, mem⟩ ∧
          (write = true → slot.dirty = true)) :
    Right model width self mem linear write step := by
  have hiff : Permitted model self (pdeOf self.cr3 mem linear) (pteOf self.cr3 mem linear) write ↔
      ¬ (self.isUserPageAccess = true ∧ slot.user = false ∨ write = true ∧
        (self.isUserPageAccess = true ∨ self.wpEnforced model = true) ∧ slot.writable = false) := by
    rw [hm.user, hm.writable, decide_eq_false_iff_not, decide_eq_false_iff_not]
    simp only [Permitted, not_or, not_and, not_not]
  unfold Right
  rw [freshWalk_of_fits hon h]
  dsimp only
  rw [if_neg (not_not.mpr hm.present)]
  by_cases hp : Permitted model self (pdeOf self.cr3 mem linear) (pteOf self.cr3 mem linear) write
  · rw [if_neg (not_not.mpr hp)]
    obtain ⟨hstep, hdirty⟩ := hpermitted (hiff.mp hp)
    rw [hstep]
    refine ⟨?_, Grown.refl mem, fun _ => accessed_of_marked h hm.present.1 ?_⟩
    · rw [hm.phys]
    · exact ⟨hm.marked.1, fun hw => hm.marked.2 (hdirty hw)⟩
  · rw [if_pos hp, hdenied (not_not.mp fun hn => hp (hiff.mpr hn)), errorCode_eq]
    exact ⟨rfl, rfl, rfl⟩

end

/-- The pages of the address fit in the bus, if there are pages. -/
def Within (width : AddressWidth) (system : System) (linear : Address) : Prop :=
  system.cpu.isPagingEnabled = true → Fits width system.cpu.cr3 system.mem linear

section

variable {model : CpuModel} {width : AddressWidth} {system : System} {linear : Address}

lemma right_off {write : Bool} {step : Step} (hoff : system.cpu.isPagingEnabled = false)
    (h : step = ⟨.ok (linear &&& width.physicalAddressMask), step.cpu, system.mem⟩) :
    Right model width system.cpu system.mem linear write step := by
  unfold Right freshWalk
  simp only
  rw [if_pos hoff, h]
  refine ⟨rfl, Grown.refl _, fun hon => ?_⟩
  rw [hoff] at hon
  cases hon

lemma right_translateLinear (h : Coherent width system) (hpending : system.cpu.faultPending = false)
    (hchanged : pageOf linear ∉ system.changed) (hwithin : Within width system linear)
    (write : Bool) : Right model width system.cpu system.mem linear write
      (system.cpu.translateLinear model width linear write system.mem) := by
  unfold I386.translateLinear
  rw [if_neg (by rw [hpending]; decide)]
  cases hon : system.cpu.isPagingEnabled with
  | false =>
    rw [if_pos (by decide)]
    exact right_off hon rfl
  | true =>
    rw [if_neg (by decide)]
    dsimp only
    have hfits := hwithin hon
    have hmaps := h.maps (slotOf (pageOf linear)) linear
    generalize system.cpu.tlb (slotOf (pageOf linear)) = slot at hmaps ⊢
    split_ifs with hhit huser hwritable hdirty
    · -- a hit that the slot denies to a user
      have hm := hmaps hhit.1 hhit.2.symm hchanged
      refine right_of_maps hon hfits hm (fun _ => rfl) fun hn => absurd (.inl ?_) hn
      simpa using huser
    · have hm := hmaps hhit.1 hhit.2.symm hchanged
      refine right_of_maps hon hfits hm (fun _ => rfl) fun hn => absurd (.inr ?_) hn
      simpa using hwritable
    · -- a hit whose dirty bit is to be set walks again
      exact right_walk hon hfits
    · have hm := hmaps hhit.1 hhit.2.symm hchanged
      refine right_of_maps hon hfits hm (fun hd => ?_) fun _ => ⟨rfl, fun hw => ?_⟩
      · refine hd.elim (fun hu => absurd ?_ huser) fun hw => absurd ?_ hwritable
        · simpa using hu
        · simpa using hw
      · by_contra hd
        exact hdirty ⟨hw, by simpa using hd⟩
    · exact right_walk hon hfits

/-- What a translation with paging leaves: a fault and the caches as they were, or an address
through the slot of its page. -/
lemma translateLinear_spec (hon : system.cpu.isPagingEnabled = true)
    (hpending : system.cpu.faultPending = false) (linear : Address) (write : Bool) :
    (∃ present, system.cpu.translateLinear model width linear write system.mem =
        system.cpu.raisePageFault linear write present system.mem) ∨
      (∃ slot, slot = system.cpu.tlb (slotOf (pageOf linear)) ∧ slot.valid = true ∧
        slot.tag = pageOf linear ∧ system.cpu.translateLinear model width linear write system.mem =
          ⟨.ok (slot.phys ||| linear &&& offsetMask), system.cpu, system.mem⟩) ∨
      ∃ slot, Grown system.mem (mark system.cpu.cr3 system.mem linear write) ∧
        slot.valid = true ∧ slot.tag = pageOf linear ∧
        Maps system.cpu.cr3 (mark system.cpu.cr3 system.mem linear write) linear slot ∧
        system.cpu.translateLinear model width linear write system.mem =
          ⟨.ok (slot.phys ||| linear &&& offsetMask), { system.cpu with
            tlb := Function.update system.cpu.tlb (slotOf (pageOf linear)) slot },
            mark system.cpu.cr3 system.mem linear write⟩ := by
  obtain ⟨hg, hm⟩ := mark_spec system.cpu.cr3 system.mem linear write
  -- a walk faults or fills the slot
  have hwalk : (∃ present, system.cpu.pageTableWalk model linear write system.mem =
        system.cpu.raisePageFault linear write present system.mem) ∨
      ∃ slot : TlbSlot, slot.valid = true ∧ slot.tag = pageOf linear ∧
        Maps system.cpu.cr3 (mark system.cpu.cr3 system.mem linear write) linear slot ∧
        system.cpu.pageTableWalk model linear write system.mem =
          ⟨.ok (slot.phys ||| linear &&& offsetMask), { system.cpu with
            tlb := Function.update system.cpu.tlb (slotOf (pageOf linear)) slot },
            mark system.cpu.cr3 system.mem linear write⟩ := by
    rw [pageTableWalk_eq]
    dsimp only
    split_ifs with hb hp
    · refine .inr ⟨filled _ _ linear write, rfl, rfl, ⟨?_, ?_, ?_, ?_, hm⟩, rfl⟩
      · exact (hg.both (by decide)).mpr hb
      · rw [hg.pte_and (by decide)]
        rfl
      · exact decide_eq_decide.mpr (hg.both (by decide)).symm
      · exact decide_eq_decide.mpr (hg.both (by decide)).symm
    · exact .inl ⟨true, rfl⟩
    · exact .inl ⟨false, rfl⟩
  unfold I386.translateLinear
  rw [if_neg (by rw [hpending]; decide), if_neg (by rw [hon]; decide)]
  dsimp only
  split_ifs with hhit huser hwritable hdirty
  · exact .inl ⟨true, rfl⟩
  · exact .inl ⟨true, rfl⟩
  · exact hwalk.imp_right fun ⟨slot, hslot⟩ => .inr ⟨slot, hg, hslot⟩
  · exact .inr (.inl ⟨_, rfl, hhit.1, hhit.2, rfl⟩)
  · exact hwalk.imp_right fun ⟨slot, hslot⟩ => .inr ⟨slot, hg, hslot⟩

lemma Coherent.fill (h : Coherent width system) (hon : system.cpu.isPagingEnabled = true)
    {slot : TlbSlot} {mem' : Memory} (hg : Grown system.mem mem') (htag : slot.tag = pageOf linear)
    (hm : Maps system.cpu.cr3 mem' linear slot) : Coherent width { system with
      cpu := { system.cpu with
        tlb := Function.update system.cpu.tlb (slotOf (pageOf linear)) slot }
      mem := mem' } := by
  refine ⟨fun i hv => ?_, fun i other hv hpage hchanged => ?_, fun hoff => ?_,
    fun _ hoff => ?_, fun hv _ other hpage hchanged => ?_⟩
  · by_cases hi : i = slotOf (pageOf linear)
    · subst hi
      dsimp only
      rw [Function.update_self, htag]
    · dsimp only at hv ⊢
      rw [Function.update_of_ne hi] at hv ⊢
      exact h.slot i hv
  · by_cases hi : i = slotOf (pageOf linear)
    · subst hi
      dsimp only at hpage ⊢
      rw [Function.update_self] at hpage ⊢
      exact hm.congr (hpage.trans htag)
    · dsimp only at hv hpage ⊢
      rw [Function.update_of_ne hi] at hv hpage ⊢
      exact (h.maps i other hv hpage hchanged).grown hg
  · exact absurd (hon.symm.trans hoff) (by decide)
  · exact absurd (hon.symm.trans hoff) (by decide)
  · obtain ⟨slot', hslot, hrest⟩ := h.fetchOn hv hon other hpage hchanged
    exact ⟨slot', hslot.grown hg, hrest⟩

lemma Coherent.fault (h : Coherent width system) (cr2 : Dword) (faultPending : Bool) :
    Coherent width { system with cpu := { system.cpu with cr2, faultPending } } :=
  h.frame rfl ⟨rfl, rfl, rfl, rfl⟩ rfl fun _ _ hchanged => ⟨hchanged, id⟩

lemma Coherent.translate (h : Coherent width system) (linear : Address) (write : Bool) :
    Coherent width (system.run model width (.translate linear write)) := by
  unfold System.run
  dsimp only
  cases hpending : system.cpu.faultPending with
  | true =>
    unfold I386.translateLinear
    rw [if_pos hpending]
    exact h
  | false =>
    cases hon : system.cpu.isPagingEnabled with
    | false =>
      unfold I386.translateLinear
      rw [if_neg (by rw [hpending]; decide), if_pos (by rw [hon]; decide)]
      exact h
    | true =>
      obtain ⟨present, he⟩ | ⟨slot, -, -, -, he⟩ | ⟨slot, hg, -, htag, hm, he⟩ :=
        @translateLinear_spec model width system hon hpending linear write
      · rw [he, errorCode_eq]
        exact h.fault linear true
      · rw [he]
        exact h
      · rw [he]
        exact h.fill hon hg htag hm

/-! ### The Code Page -/

lemma Right.congr {self : I386} {mem : Memory} {write : Bool} {step step' : Step}
    (h : Right model width self mem linear write step) (hresult : step'.result = step.result)
    (hcr2 : step'.cpu.cr2 = step.cpu.cr2) (hmem : step'.mem = step.mem) :
    Right model width self mem linear write step' := by
  unfold Right at h ⊢
  rw [hresult, hcr2, hmem]
  exact h

lemma fetchPhysicalAddress_spec (self : I386) (linear : Address) (mem : Memory) :
    (self.fetchPageValid = true ∧ pageOf linear = self.fetchPageTag ∧
      (self.isUserPageAccess = true → self.fetchPageUser = true) ∧
      self.fetchPhysicalAddress model width linear mem =
        ⟨.ok (self.fetchPagePhys ||| linear &&& offsetMask), self, mem⟩) ∨
      (∃ fault, (self.translateLinear model width linear false mem).result = .error fault ∧
        self.fetchPhysicalAddress model width linear mem =
          self.translateLinear model width linear false mem) ∨
      ∃ addr, (self.translateLinear model width linear false mem).result = .ok addr ∧
        self.fetchPhysicalAddress model width linear mem =
          (let step := self.translateLinear model width linear false mem
          let slot := step.cpu.tlb (slotOf (pageOf linear))
          ⟨.ok addr, { step.cpu with
            fetchPageValid := true
            fetchPageTag := pageOf linear
            fetchPagePhys := addr &&& ~~~offsetMask
            fetchPageUser := if step.cpu.isPagingEnabled then
              decide (slot.valid ∧ slot.tag = pageOf linear ∧ slot.user) else true },
            step.mem⟩) := by
  unfold I386.fetchPhysicalAddress
  dsimp only
  by_cases hhit : self.fetchPageValid ∧ self.fetchPageTag = pageOf linear ∧
      (!self.isUserPageAccess ∨ self.fetchPageUser)
  · rw [if_pos hhit]
    refine .inl ⟨hhit.1, hhit.2.1.symm, fun hu => ?_, rfl⟩
    have huser := hhit.2.2
    rw [hu] at huser
    simpa using huser
  · rw [if_neg hhit]
    generalize self.translateLinear model width linear false mem = step
    obtain ⟨result, cpu, mem'⟩ := step
    cases result with
    | error fault => exact .inr (.inl ⟨fault, rfl, rfl⟩)
    | ok addr => exact .inr (.inr ⟨addr, rfl, rfl⟩)

lemma right_fetch_hit (h : Coherent width system) (hv : system.cpu.fetchPageValid = true)
    (hpage : pageOf linear = system.cpu.fetchPageTag)
    (huser : system.cpu.isUserPageAccess = true → system.cpu.fetchPageUser = true)
    (hchanged : pageOf linear ∉ system.changed) (hwithin : Within width system linear) :
    Right model width system.cpu system.mem linear false
      ⟨.ok (system.cpu.fetchPagePhys ||| linear &&& offsetMask), system.cpu, system.mem⟩ := by
  cases hon : system.cpu.isPagingEnabled with
  | false =>
    refine right_off hon ?_
    rw [h.fetchOff hv hon linear hpage]
  | true =>
    obtain ⟨slot, hm, hphys, hslot⟩ := h.fetchOn hv hon linear hpage hchanged
    refine right_of_maps hon (hwithin hon) hm (fun hd => ?_) fun _ => ⟨?_, ?_⟩
    · obtain ⟨hu, hno⟩ | ⟨hw, -⟩ := hd
      · rw [hslot, huser hu] at hno
        cases hno
      · cases hw
    · rw [hphys]
    · rintro ⟨⟩

lemma right_fetch (h : Coherent width system) (hchanged : pageOf linear ∉ system.changed)
    (hwithin : Within width system linear) :
    Right model width system.cpu system.mem linear false
        (system.cpu.fetchPhysicalAddress model width linear system.mem) ∨
      system.cpu.faultPending = true ∧
        system.cpu.fetchPhysicalAddress model width linear system.mem =
          ⟨.error .pending, system.cpu, system.mem⟩ := by
  obtain ⟨hv, hpage, huser, he⟩ | hmiss :=
    @fetchPhysicalAddress_spec model width system.cpu linear system.mem
  · rw [he]
    exact .inl (right_fetch_hit h hv hpage huser hchanged hwithin)
  cases hpending : system.cpu.faultPending with
  | true =>
    have hnone : system.cpu.translateLinear model width linear false system.mem =
        ⟨.error .pending, system.cpu, system.mem⟩ := if_pos hpending
    obtain ⟨fault, -, he⟩ | ⟨addr, hok, -⟩ := hmiss
    · exact .inr ⟨rfl, he.trans hnone⟩
    · rw [hnone] at hok
      cases hok
  | false =>
    have htranslate := @right_translateLinear model width system linear h hpending hchanged
      hwithin false
    obtain ⟨fault, -, he⟩ | ⟨addr, hok, he⟩ := hmiss
    · rw [he]
      exact .inl htranslate
    · rw [he]
      exact .inl (htranslate.congr hok.symm rfl rfl)

lemma Coherent.cacheFetch (h : Coherent width system) {tag phys : Dword} {user : Bool}
    (hoff : system.cpu.isPagingEnabled = false → ∀ linear, pageOf linear = tag →
      phys ||| linear &&& offsetMask = linear &&& width.physicalAddressMask)
    (hon : system.cpu.isPagingEnabled = true → ∀ linear, pageOf linear = tag →
      pageOf linear ∉ system.changed → ∃ slot, Maps system.cpu.cr3 system.mem linear slot ∧
        slot.phys = phys ∧ slot.user = user) :
    Coherent width { system with cpu := { system.cpu with
      fetchPageValid := true, fetchPageTag := tag, fetchPagePhys := phys, fetchPageUser := user } } :=
  ⟨h.slot, h.maps, h.off, fun _ => hoff, fun _ => hon⟩

lemma cached_of_slot {slot : TlbSlot} {user : Bool} (h : Coherent width system)
    (hslot : system.cpu.tlb (slotOf (pageOf linear)) = slot) (hv : slot.valid = true)
    (htag : slot.tag = pageOf linear) (huser : user = slot.user) {other : Address}
    (hpage : pageOf other = pageOf linear) (hchanged : pageOf other ∉ system.changed) :
    ∃ slot', Maps system.cpu.cr3 system.mem other slot' ∧
      slot'.phys = (slot.phys ||| linear &&& offsetMask) &&& ~~~offsetMask ∧ slot'.user = user := by
  have hm := h.maps (slotOf (pageOf linear)) other (by rw [hslot, hv])
    (by rw [hslot, htag, hpage]) hchanged
  rw [hslot] at hm
  refine ⟨slot, hm, ?_, huser.symm⟩
  rw [hm.phys, frame_or_offset]

lemma Coherent.fetch (h : Coherent width system) (linear : Address) :
    Coherent width (system.run model width (.fetch linear)) := by
  have htranslate := @Coherent.translate model width system h linear false
  unfold System.run at htranslate ⊢
  dsimp only at htranslate ⊢
  obtain ⟨-, -, -, he⟩ | ⟨fault, -, he⟩ | ⟨addr, hok, he⟩ :=
    @fetchPhysicalAddress_spec model width system.cpu linear system.mem
  · rw [he]
    exact h
  · rw [he]
    exact htranslate
  · rw [he]
    dsimp only
    -- the translation succeeded, so no fault was pending
    have hpending : system.cpu.faultPending = false := by
      by_contra hp
      unfold I386.translateLinear at hok
      rw [if_pos (by simpa using hp)] at hok
      cases hok
    cases hon : system.cpu.isPagingEnabled with
    | false =>
      have hstep : system.cpu.translateLinear model width linear false system.mem =
          ⟨.ok (linear &&& width.physicalAddressMask), system.cpu, system.mem⟩ := by
        unfold I386.translateLinear
        rw [if_neg (by rw [hpending]; decide), if_pos (by rw [hon]; decide)]
      rw [hstep] at hok ⊢
      obtain rfl := Except.ok.inj hok
      refine h.cacheFetch (fun _ other hpage => ?_) fun hon' => ?_
      · exact page_or_offset hpage _ fun i hi => mask_low hi
      · exact absurd (hon'.symm.trans hon) (by decide)
    | true =>
      obtain ⟨present, hstep⟩ | ⟨slot, hslot, hv, htag, hstep⟩ | ⟨slot, hg, hv, htag, hm, hstep⟩ :=
        @translateLinear_spec model width system hon hpending linear false
      · rw [hstep, errorCode_eq] at hok
        cases hok
      · rw [hstep] at hok ⊢
        obtain rfl := Except.ok.inj hok
        refine h.cacheFetch (fun hoff => ?_) fun _ other hpage hchanged => ?_
        · exact absurd (hon.symm.trans hoff) (by decide)
        · refine cached_of_slot h hslot.symm hv htag ?_ hpage hchanged
          rw [if_pos hon]
          simp [← hslot, hv, htag]
      · rw [hstep] at hok ⊢
        obtain rfl := Except.ok.inj hok
        have hfill := h.fill hon hg htag hm
        refine hfill.cacheFetch (fun hoff => ?_) fun _ other hpage hchanged => ?_
        · exact absurd (hon.symm.trans hoff) (by decide)
        · refine cached_of_slot hfill (Function.update_self _ _ _) hv htag ?_ hpage hchanged
          refine (if_pos hon).trans ?_
          simp [hv, htag]

end

/-! ### Control Registers -/

lemma and_twoPow_ne_zero {w i : ℕ} {x : BitVec w} (hi : i < w) :
    x &&& BitVec.twoPow w i ≠ 0 ↔ x.getLsbD i = true := by
  rw [BitVec.and_twoPow]
  split_ifs with h
  · refine iff_of_true (fun hz => ?_) h
    have hbit := congrArg (fun x => x.getLsbD i) hz
    rw [BitVec.getLsbD_twoPow] at hbit
    simp [hi] at hbit
  · exact iff_of_false (fun hn => hn rfl) h

lemma isPagingEnabled_iff {self : I386} :
    self.isPagingEnabled = true ↔ self.cr0 &&& cr0Pe ≠ 0 ∧ self.cr0 &&& cr0Pg ≠ 0 := by
  have hpe : cr0Pe = BitVec.twoPow 32 0 := by decide
  have hpg : cr0Pg = BitVec.twoPow 32 31 := by decide
  have hk : ∀ i : Fin 32, (0x80000001#32).getLsbD i =
      (decide (i.val = 0) || decide (i.val = 31)) := by
    decide
  rw [hpe, hpg, and_twoPow_ne_zero (by decide), and_twoPow_ne_zero (by decide)]
  unfold I386.isPagingEnabled
  rw [decide_eq_true_iff]
  constructor
  · intro h
    refine ⟨?_, ?_⟩
    · have hbit := congrArg (fun x => x.getLsbD 0) h
      rw [BitVec.getLsbD_and] at hbit
      exact (Bool.and_eq_true _ _ ▸ hbit : _ ∧ _).1
    · have hbit := congrArg (fun x => x.getLsbD 31) h
      rw [BitVec.getLsbD_and] at hbit
      exact (Bool.and_eq_true _ _ ▸ hbit : _ ∧ _).1
  · rintro ⟨h0, h31⟩
    refine BitVec.eq_of_getLsbD_eq fun i hi => ?_
    have hbit := hk ⟨i, hi⟩
    rw [BitVec.getLsbD_and]
    change (self.cr0.getLsbD i && (0x80000001#32).getLsbD i) = (0x80000001#32).getLsbD i
    rw [hbit]
    by_cases hi0 : i = 0
    · simp [hi0, h0]
    · by_cases hi31 : i = 31
      · simp [hi31, h31]
      · simp [hi0, hi31]

lemma and_eq_of_xor_and_eq_zero {w : ℕ} {x y k : BitVec w} (h : (x ^^^ y) &&& k = 0) :
    x &&& k = y &&& k := by
  refine BitVec.eq_of_getLsbD_eq fun i hi => ?_
  have hbit := congrArg (fun x => x.getLsbD i) h
  simp only [BitVec.getLsbD_and, BitVec.getLsbD_xor] at hbit ⊢
  cases hk : k.getLsbD i
  · rw [Bool.and_false, Bool.and_false]
  · rw [hk] at hbit
    simpa using hbit

lemma paging_congr {self other : I386} (h : self.cr0 &&& 0x80000001 = other.cr0 &&& 0x80000001) :
    self.isPagingEnabled = other.isPagingEnabled := by
  unfold I386.isPagingEnabled
  rw [h]

section

variable {model : CpuModel} {width : AddressWidth} {system : System}

lemma coherent_flushTlb (cpu : I386) (mem : Memory) (changed : Set Dword) :
    Coherent width ⟨cpu.flushTlb, mem, changed⟩ := coherent_of_empty (fun _ => rfl) rfl

lemma Coherent.processor (h : Coherent width system) {cpu : I386} (htlb : cpu.tlb = system.cpu.tlb)
    (hfetch : cpu.fetchPageValid = system.cpu.fetchPageValid ∧
      cpu.fetchPageTag = system.cpu.fetchPageTag ∧ cpu.fetchPagePhys = system.cpu.fetchPagePhys ∧
      cpu.fetchPageUser = system.cpu.fetchPageUser)
    (hcr3 : cpu.cr3 = system.cpu.cr3)
    (hpaging : cpu.isPagingEnabled = system.cpu.isPagingEnabled) :
    Coherent width { system with cpu } :=
  h.frame htlb hfetch hpaging fun _ _ hchanged => ⟨hchanged, by rw [hcr3]; exact id⟩

lemma Coherent.movCrR32 (h : Coherent width system) (crNum : BitVec 3) (value : Dword) :
    Coherent width (system.run model width (.movCrR32 crNum value)) := by
  unfold System.run I386.movCrR32
  dsimp only
  cases hp : system.cpu.privileged with
  | false => simpa [System.afterInstruction] using h
  | true =>
    simp only [Bool.not_true, Bool.false_eq_true, if_false, and_true]
    by_cases h0 : crNum = 0
    · rw [if_pos h0, if_neg (show ¬ crNum = 3 by rw [h0]; decide)]
      generalize (if model = .i486dx then (0xE005003F : Dword) else 0x8000001F) = cr0Mask
      split_ifs with hflush
      · exact coherent_flushTlb _ _ _
      · -- neither PE nor PG changes
        refine h.processor rfl ⟨rfl, rfl, rfl, rfl⟩ rfl (paging_congr ?_)
        have hflush := and_eq_of_xor_and_eq_zero (not_not.mp hflush)
        have hk : (0x80000001 : Dword) = 0x80010001 &&& 0x80000001 := by decide
        rw [hk, ← BitVec.and_assoc, ← BitVec.and_assoc]
        exact congrArg (· &&& 0x80000001) hflush.symm
    by_cases h2 : crNum = 2
    · rw [if_neg h0, if_pos h2, if_neg (show ¬ crNum = 3 by rw [h2]; decide)]
      exact h.processor rfl ⟨rfl, rfl, rfl, rfl⟩ rfl rfl
    by_cases h3 : crNum = 3
    · rw [if_neg h0, if_neg h2, if_pos h3]
      exact coherent_flushTlb _ _ _
    · rw [if_neg h0, if_neg h2, if_neg h3, if_neg h3]
      exact h

/-- An LMSW that turns paging on over a cached code page. -/
def LmswHazard (cpu : I386) (value : BitVec 16) : Prop :=
  cpu.cr0 &&& cr0Pg ≠ 0 ∧ cpu.cr0 &&& cr0Pe = 0 ∧ value &&& 1 ≠ 0 ∧ cpu.fetchPageValid = true

lemma Coherent.lmsw (h : Coherent width system) (value : BitVec 16)
    (hclear : ¬ LmswHazard system.cpu value) :
    Coherent width (system.run model width (.lmsw value)) := by
  change Coherent width (system.afterInstruction (system.cpu.lmsw value))
  unfold I386.lmsw
  cases hp : system.cpu.privileged with
  | false => exact h
  | true =>
  have hpe : cr0Pe = BitVec.twoPow 32 0 := by decide
  have hpg : cr0Pg = BitVec.twoPow 32 31 := by decide
  have hv : (1 : BitVec 16) = BitVec.twoPow 16 0 := by decide
  generalize hcr0 : system.cpu.cr0 &&& 0xFFFFFFF0 ||| value.setWidth 32 &&& 0x000F |||
    system.cpu.cr0 &&& 1 = cr0
  have hbit0 : cr0 &&& cr0Pe ≠ 0 ↔ value &&& 1 ≠ 0 ∨ system.cpu.cr0 &&& cr0Pe ≠ 0 := by
    rw [hpe, hv, and_twoPow_ne_zero (by decide), and_twoPow_ne_zero (by decide),
      and_twoPow_ne_zero (by decide), ← hcr0]
    simp
  have hbit31 : cr0 &&& cr0Pg ≠ 0 ↔ system.cpu.cr0 &&& cr0Pg ≠ 0 := by
    rw [hpg, and_twoPow_ne_zero (by decide), and_twoPow_ne_zero (by decide), ← hcr0]
    simp
  change Coherent width { system with cpu := { system.cpu with cr0 } }
  have hafter := @isPagingEnabled_iff { system.cpu with cr0 }
  dsimp only at hafter
  rw [hbit0, hbit31] at hafter
  have hbefore := @isPagingEnabled_iff system.cpu
  by_cases hsame : ({ system.cpu with cr0 } : I386).isPagingEnabled = system.cpu.isPagingEnabled
  · exact h.processor rfl ⟨rfl, rfl, rfl, rfl⟩ rfl hsame
  · -- paging is turned on, over an empty buffer and no cached code page
    cases hoff : system.cpu.isPagingEnabled with
    | true =>
      obtain ⟨h0, h31⟩ := hbefore.mp hoff
      exact absurd (hafter.mpr ⟨.inr h0, h31⟩) fun hon => hsame (hon.trans hoff.symm)
    | false =>
      have hon : ({ system.cpu with cr0 } : I386).isPagingEnabled = true := by
        rw [hoff] at hsame
        simpa using hsame
      obtain ⟨h0, h31⟩ := hafter.mp hon
      have hpe0 : system.cpu.cr0 &&& cr0Pe = 0 := by
        by_contra hne
        exact absurd (hbefore.mpr ⟨hne, h31⟩) (by rw [hoff]; decide)
      refine coherent_of_empty (h.off hoff) ?_
      by_contra hvalid
      exact hclear ⟨h31, hpe0, h0.resolve_right (not_not.mpr hpe0), by simpa using hvalid⟩

lemma Coherent.invlpg (h : Coherent width system) (linear : Address) :
    Coherent width (system.run model width (.invlpg linear)) := by
  unfold System.run I386.invlpg
  by_cases hm : model = .i486dx
  · cases hp : system.cpu.privileged with
    | false => simpa [hm, System.afterInstruction] using h
    | true =>
      generalize htlb : (if (system.cpu.tlb (slotOf (pageOf linear))).valid = true ∧
        (system.cpu.tlb (slotOf (pageOf linear))).tag = pageOf linear then
        Function.update system.cpu.tlb (slotOf (pageOf linear))
          { system.cpu.tlb (slotOf (pageOf linear)) with valid := false } else system.cpu.tlb) = tlb
      -- the slots that stay valid are not the page's
      have hkept : ∀ i, (tlb i).valid = true → tlb i = system.cpu.tlb i ∧
          (system.cpu.tlb i).tag ≠ pageOf linear := by
        intro i hv
        rw [← htlb] at hv ⊢
        split_ifs at hv ⊢ with hhit
        · by_cases hi : i = slotOf (pageOf linear)
          · subst hi
            rw [Function.update_self] at hv
            cases hv
          · rw [Function.update_of_ne hi] at hv ⊢
            exact ⟨rfl, fun htag => hi (htag ▸ (h.slot i hv).symm)⟩
        · refine ⟨rfl, fun htag => hhit ?_⟩
          rw [← htag, h.slot i hv]
          exact ⟨hv, rfl⟩
      have hcoherent : Coherent width { system with
          cpu := { system.cpu with tlb, fetchPageValid := false }
          changed := system.changed \ {pageOf linear} } := by
        refine ⟨fun i hv => ?_, fun i other hv hpage hchanged => ?_, fun hoff i => ?_,
          fun hv => ?_, fun hv => ?_⟩
        · dsimp only at hv ⊢
          have he := (hkept i hv).1
          rw [he] at hv ⊢
          exact h.slot i hv
        · obtain ⟨he, htag⟩ := hkept i hv
          dsimp only at hv hpage ⊢
          rw [he] at hv hpage ⊢
          refine h.maps i other hv hpage fun hmem => hchanged ⟨hmem, fun hp => ?_⟩
          exact htag (hpage.symm.trans hp)
        · by_contra hv
          have hvalid : (tlb i).valid = true := by simpa using hv
          rw [(hkept i hvalid).1, h.off hoff i] at hvalid
          cases hvalid
        · cases hv
        · cases hv
      simpa [hm, System.afterInstruction, htlb] using hcoherent
  · simpa [hm, System.afterInstruction] using h

lemma Coherent.clts (h : Coherent width system) :
    Coherent width (system.run model width .clts) := by
  change Coherent width (system.afterInstruction system.cpu.clts)
  unfold I386.clts
  cases hp : system.cpu.privileged with
  | false => exact h
  | true =>
    refine h.processor rfl ⟨rfl, rfl, rfl, rfl⟩ rfl (paging_congr ?_)
    change system.cpu.cr0 &&& ~~~cr0Ts &&& 0x80000001 = system.cpu.cr0 &&& 0x80000001
    rw [BitVec.and_assoc]
    rfl

lemma Coherent.switchTask (h : Coherent width system) (is386Tss : Bool) (ntssCr3 : Dword) :
    Coherent width (system.run model width (.switchTask is386Tss ntssCr3)) := by
  have hts : ∀ cr0 : Dword, (cr0 ||| cr0Ts) &&& 0x80000001 = cr0 &&& 0x80000001 := fun cr0 =>
    or_and_of_and_eq_zero (by decide)
  unfold System.run I386.switchTaskControl
  dsimp only
  by_cases hload : is386Tss = true ∧ system.cpu.isPagingEnabled = true
  · rw [if_pos hload, if_pos hload]
    exact coherent_of_empty (fun _ => rfl) rfl
  · rw [if_neg hload, if_neg hload]
    exact h.processor rfl ⟨rfl, rfl, rfl, rfl⟩ rfl (paging_congr (hts _))

lemma Coherent.store (h : Coherent width system) (mem : Memory) :
    Coherent width (system.run model width (.store mem)) := by
  refine h.frame rfl ⟨rfl, rfl, rfl, rfl⟩ rfl fun linear slot hchanged => ?_
  refine ⟨fun hmem => hchanged (.inl hmem), fun hm => hm.same ?_⟩
  by_contra hdiffer
  exact hchanged (.inr ⟨linear, rfl, hdiffer⟩)

/-! ### Runs -/

/-- An event that does not turn paging on by LMSW over a cached code page. -/
def Clear (system : System) : Event → Prop
  | .lmsw value => ¬ LmswHazard system.cpu value
  | _ => True

lemma Coherent.run (h : Coherent width system) {event : Event} (hclear : Clear system event) :
    Coherent width (system.run model width event) := by
  cases event with
  | movCrR32 crNum value => exact h.movCrR32 crNum value
  | lmsw value => exact h.lmsw value hclear
  | invlpg linear => exact h.invlpg linear
  | clts => exact h.clts
  | switchTask is386Tss ntssCr3 => exact h.switchTask is386Tss ntssCr3
  | context => exact h.processor rfl ⟨rfl, rfl, rfl, rfl⟩ rfl rfl
  | translate linear write => exact h.translate linear write
  | fetch linear => exact h.fetch linear
  | store mem => exact h.store mem

lemma coherent_of_reachable (h : System.Reachable model width Clear system) :
    Coherent width system := by
  induction h with
  | reset mem => exact coherent_of_empty (fun _ => rfl) rfl
  | step _ hclear ih => exact ih.run hclear

/-- A translation and a fetch of the address are right; with a fault of the instruction pending,
a translation does nothing, and a fetch may. -/
def AccessRight (model : CpuModel) (width : AddressWidth) (system : System) (linear : Address)
    (write : Bool) : Prop :=
  let translated := system.cpu.translateLinear model width linear write system.mem
  let fetched := system.cpu.fetchPhysicalAddress model width linear system.mem
  (if system.cpu.faultPending then translated = ⟨.error .pending, system.cpu, system.mem⟩
    else Right model width system.cpu system.mem linear write translated) ∧
  (Right model width system.cpu system.mem linear false fetched ∨
    system.cpu.faultPending = true ∧ fetched = ⟨.error .pending, system.cpu, system.mem⟩)

/-- **Translations and fetches agree with a fresh walk of the tables**, in every state of a run
that turns paging on by no LMSW over a cached code page, for every page that has not been changed
since a load of CR3 or an INVLPG of it, and whose entries fit the width of the bus. -/
theorem access_right (h : System.Reachable model width Clear system) {linear : Address}
    (hchanged : pageOf linear ∉ system.changed) (hwithin : Within width system linear)
    (write : Bool) : AccessRight model width system linear write := by
  have hcoherent := coherent_of_reachable h
  refine ⟨?_, right_fetch hcoherent hchanged hwithin⟩
  cases hpending : system.cpu.faultPending with
  | false => exact right_translateLinear hcoherent hpending hchanged hwithin write
  | true => exact if_pos hpending

end

/-- A memory with one directory entry, for the first table, and one table entry. -/
def tables (pde pte : Dword) : Memory :=
  writeDword (writeDword (fun _ => 0) 0x1000 pde) 0x2000 pte

/-- Paging is turned on by MOV CR0. -/
def paged (model : CpuModel) (width : AddressWidth) (pde pte : Dword) : System :=
  ((System.reset (tables pde pte)).run model width (.movCrR32 3 0x1000)).run model width
    (.movCrR32 0 0x80000011)

/-- Paging is turned on by LMSW, after the first page has been fetched from without it. -/
def pagedByLmsw (pde pte : Dword) : System :=
  ((((System.reset (tables pde pte)).run .i486dx .width32 (.movCrR32 3 0x1000)).run .i486dx .width32
    (.movCrR32 0 0x80000010)).run .i486dx .width32 (.fetch 0)).run .i486dx .width32 (.lmsw 1)

lemma changed_paged (model : CpuModel) (width : AddressWidth) (pde pte : Dword) :
    (paged model width pde pte).changed = ∅ := by
  simp only [paged, System.run, System.reset, ite_self]

lemma changed_pagedByLmsw (pde pte : Dword) : (pagedByLmsw pde pte).changed = ∅ := by
  have hlmsw : ∀ system : System, (system.run .i486dx .width32 (.lmsw 1)).changed =
      system.changed := by
    intro system
    change (system.afterInstruction (system.cpu.lmsw 1)).changed = system.changed
    unfold I386.lmsw
    cases system.cpu.privileged <;> rfl
  rw [pagedByLmsw, hlmsw]
  simp only [System.run, System.reset, ite_self]

/-- A page that is mapped has been written to, and is read. -/
theorem access_right_written : AccessRight .i486dx .width32
    ((paged .i486dx .width32 0x2007 0x5007).run .i486dx .width32 (.translate 0x123 true))
    0x456 false := by
  have hpaged : System.Reachable .i486dx .width32 Clear (paged .i486dx .width32 0x2007 0x5007) := by
    refine @System.Reachable.step _ _ _ _ (.movCrR32 0 0x80000011) ?_ trivial
    exact @System.Reachable.step _ _ _ _ (.movCrR32 3 0x1000) (.reset _) trivial
  refine access_right (@System.Reachable.step _ _ _ _ (.translate 0x123 true) hpaged trivial)
    ?_ (fun _ => ?_) false
  · exact (changed_paged .i486dx .width32 0x2007 0x5007) ▸ id
  · decide

lemma not_right_of_result {model : CpuModel} {width : AddressWidth} {self : I386} {mem : Memory}
    {linear : Address} {write : Bool} {step : Step} (addr : Address)
    (h : freshWalk model width self mem linear write = .ok addr)
    (hne : step.result ≠ .ok addr) : ¬ Right model width self mem linear write step := by
  unfold Right
  rw [h]
  exact fun hr => hne hr.1

theorem not_access_right :
    (System.Reachable .i486dx .width24 (fun _ _ => True) (paged .i486dx .width24 0x2007 0x1005007) ∧
      pageOf 0x123 ∉ (paged .i486dx .width24 0x2007 0x1005007).changed ∧
      ¬ AccessRight .i486dx .width24 (paged .i486dx .width24 0x2007 0x1005007) 0x123 false) ∧
    (System.Reachable .i486dx .width32 (fun _ _ => True) (pagedByLmsw 0x2007 0x5007) ∧
      pageOf 0x123 ∉ (pagedByLmsw 0x2007 0x5007).changed ∧
      ¬ AccessRight .i486dx .width32 (pagedByLmsw 0x2007 0x5007) 0x123 false) := by
  refine ⟨⟨.step (.step (.reset _) trivial) trivial, ?_, fun hright => ?_⟩,
    .step (.step (.step (.step (.reset _) trivial) trivial) trivial) trivial, ?_, fun hright => ?_⟩
  · rw [changed_paged]
    exact id
  · -- the frame is above the 24 lines of the bus
    have hpending : (paged .i486dx .width24 0x2007 0x1005007).cpu.faultPending = false := rfl
    have htranslated := hright.1
    rw [if_neg (by rw [hpending]; decide)] at htranslated
    refine not_right_of_result 0x5123 ?_ ?_ htranslated
    · rfl
    · decide
  · rw [changed_pagedByLmsw]
    exact id
  · -- the code page is still the one of real mode
    obtain hfetch | ⟨hpending, -⟩ := hright.2
    · refine not_right_of_result 0x5123 ?_ ?_ hfetch
      · rfl
      · decide
    · cases hpending

end Neetan.Paging
