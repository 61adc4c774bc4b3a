import Neetan.Paging

/-!
The fresh walk of the page tables, and the translation lookaside buffer and the cached code page,
which agree with the tables.

The processor only adds accessed and dirty bits, and those change neither where an address goes
nor who may go there. The invariant: what is cached for a page whose tables have not been changed is
what the tables say, with the bits already set that an access through the cache would have to set.
-/

namespace Neetan.Paging

open DwordMemory

/-! ### The Fresh Walk -/

/-- Both entries have the bit. -/
def Both (bit pde pte : Dword) : Prop := pde &&& bit ≠ 0 ∧ pte &&& bit ≠ 0

instance (bit pde pte : Dword) : Decidable (Both bit pde pte) :=
  inferInstanceAs (Decidable (_ ∧ _))

/-- A user needs a user page, and a writable one to write to it; the supervisor needs a writable
page to write to it where the write-protect bit is enforced. -/
def Permitted (model : CpuModel) (self : I386) (pde pte : Dword) (write : Bool) : Prop :=
  (self.isUserPageAccess = true → Both pteUser pde pte) ∧
    (write = true → self.isUserPageAccess = true ∨ self.wpEnforced model = true →
      Both pteWritable pde pte)

instance (model : CpuModel) (self : I386) (pde pte : Dword) (write : Bool) :
    Decidable (Permitted model self pde pte write) := inferInstanceAs (Decidable (_ ∧ _))

/-- Present, write and user. -/
def errorCode (self : I386) (write present : Bool) : BitVec 16 :=
  (if present then 1 else 0) ||| (if write then 2 else 0) |||
    if self.isUserPageAccess then 4 else 0

section

variable (model : CpuModel) (width : AddressWidth)

/-- The directory entry, read where the bus has it. -/
def freshPde (cr3 : Dword) (mem : Memory) (linear : Address) : Dword :=
  readDword mem (pdeAddr cr3 linear &&& width.physicalAddressMask)

def freshPte (cr3 : Dword) (mem : Memory) (linear : Address) : Dword :=
  readDword mem (pteAddr (freshPde width cr3 mem linear) linear &&& width.physicalAddressMask)

/-- Where an access goes, or the error code of its page fault. -/
def freshWalk (self : I386) (mem : Memory) (linear : Address) (write : Bool) :
    Except (BitVec 16) Address :=
  let pde := freshPde width self.cr3 mem linear
  let pte := freshPte width self.cr3 mem linear
  if self.isPagingEnabled = false then .ok (linear &&& width.physicalAddressMask)
  else if ¬ Both ptePresent pde pte then .error (errorCode self write false)
  else if ¬ Permitted model self pde pte write then .error (errorCode self write true)
  else .ok ((pte &&& frameMask ||| linear &&& offsetMask) &&& width.physicalAddressMask)

/-- The accessed bits are set, and after a write the dirty bit. -/
def Accessed (cr3 : Dword) (mem : Memory) (linear : Address) (write : Bool) : Prop :=
  Both pteAccessed (freshPde width cr3 mem linear) (freshPte width cr3 mem linear) ∧
    (write = true → freshPte width cr3 mem linear &&& pteDirty ≠ 0)

/-- Some accessed and dirty bits have been added to the memory, and nothing else. -/
def Grown (mem mem' : Memory) : Prop :=
  ∀ addr, Aligned addr → ∃ extra, extra &&& ~~~(pteAccessed ||| pteDirty) = 0 ∧
    readDword mem' addr = readDword mem addr ||| extra

/-- The access does what the fresh walk says. -/
def Right (self : I386) (mem : Memory) (linear : Address) (write : Bool) (step : Step) : Prop :=
  match freshWalk model width self mem linear write with
  | .ok addr => step.result = .ok addr ∧ Grown mem step.mem ∧
      (self.isPagingEnabled = true → Accessed width self.cr3 step.mem linear write)
  | .error code => step.result = .error (.exception 14 code) ∧ step.cpu.cr2 = linear ∧
      step.mem = mem

/-- The base, and the frames of the entries that are present, are within the width of the bus. -/
def Fits (cr3 : Dword) (mem : Memory) (linear : Address) : Prop :=
  let mask := width.physicalAddressMask
  cr3 &&& frameMask &&& mask = cr3 &&& frameMask ∧
    (pdeOf cr3 mem linear &&& ptePresent ≠ 0 →
      pdeOf cr3 mem linear &&& frameMask &&& mask = pdeOf cr3 mem linear &&& frameMask ∧
      (pteOf cr3 mem linear &&& ptePresent ≠ 0 →
        pteOf cr3 mem linear &&& frameMask &&& mask = pteOf cr3 mem linear &&& frameMask))

instance (cr3 : Dword) (mem : Memory) (linear : Address) : Decidable (Fits width cr3 mem linear) :=
  inferInstanceAs (Decidable (_ ∧ (_ → _ ∧ (_ → _))))

end

/-! ### Addresses of Entries -/

lemma readDwordPhysRaw_eq (mem : Memory) (addr : Address) :
    readDwordPhysRaw mem addr = readDword mem addr := ite_self _

lemma writeDwordPhysRaw_eq (mem : Memory) (addr : Address) (value : Dword) :
    writeDwordPhysRaw mem addr value = writeDword mem addr value := ite_self _

lemma aligned_entry (base index : Dword) : Aligned (base &&& frameMask ||| index <<< 2) := by
  refine BitVec.eq_of_getLsbD_eq fun i hi => ?_
  have hthree : ∀ i : Fin 32, (3#32).getLsbD i = decide (i.val < 2) := by decide
  have hframe : ∀ i : Fin 32, frameMask.getLsbD i = decide (12 ≤ i.val) := by decide
  have h3 := hthree ⟨i, hi⟩
  have hf := hframe ⟨i, hi⟩
  change ((base &&& frameMask ||| index <<< 2) &&& 3#32).getLsbD i = (0#32).getLsbD i
  rw [BitVec.getLsbD_and, BitVec.getLsbD_or, BitVec.getLsbD_and, BitVec.getLsbD_shiftLeft, h3, hf]
  by_cases h2 : i < 2
  · have h12 : ¬ 12 ≤ i := by omega
    simp [h2, h12]
  · simp [h2]

lemma aligned_pdeAddr (cr3 : Dword) (linear : Address) : Aligned (pdeAddr cr3 linear) :=
  aligned_entry _ _

lemma aligned_pteAddr (pde : Dword) (linear : Address) : Aligned (pteAddr pde linear) :=
  aligned_entry _ _

variable {other : Address} {k extra : Dword}

lemma dirIndex_congr {linear : Address} (h : pageOf linear = pageOf other) :
    dirIndex linear = dirIndex other := by
  have hshift : ∀ l : Address, l >>> 22 = pageOf l >>> 10 := fun l =>
    (BitVec.shiftRight_add l 12 10)
  unfold dirIndex
  rw [hshift, hshift, h]

lemma tableIndex_congr {linear : Address} (h : pageOf linear = pageOf other) :
    tableIndex linear = tableIndex other := congrArg (· &&& 0x3FF) h

lemma pdeOf_congr {linear : Address} (h : pageOf linear = pageOf other) (cr3 : Dword)
    (mem : Memory) :
    pdeOf cr3 mem linear = pdeOf cr3 mem other := by
  unfold pdeOf pdeAddr
  rw [dirIndex_congr h]

lemma pteOf_congr {linear : Address} (h : pageOf linear = pageOf other) (cr3 : Dword)
    (mem : Memory) :
    pteOf cr3 mem linear = pteOf cr3 mem other := by
  unfold pteOf pteAddr
  rw [pdeOf_congr h, tableIndex_congr h]

/-! ### Added Bits -/

lemma or_and_of_and_eq_zero {v : Dword} (h : extra &&& k = 0) :
    (v ||| extra) &&& k = v &&& k := by
  rw [BitVec.and_or_distrib_right, h]
  exact BitVec.or_zero

lemma grown_and {v : Dword} (h : extra &&& ~~~(pteAccessed ||| pteDirty) = 0)
    (hk : k &&& (pteAccessed ||| pteDirty) = 0) : (v ||| extra) &&& k = v &&& k := by
  refine or_and_of_and_eq_zero (BitVec.eq_of_getLsbD_eq fun i hi => ?_)
  have h1 := congrArg (fun x => x.getLsbD i) h
  have h2 := congrArg (fun x => x.getLsbD i) hk
  simp only [BitVec.getLsbD_and, BitVec.getLsbD_not, hi, decide_true, Bool.true_and] at h1 h2
  simp only [BitVec.getLsbD_and]
  cases he : extra.getLsbD i <;> cases hkb : k.getLsbD i <;> simp_all

lemma or_and_ne_zero {v : Dword} (h : v &&& k ≠ 0) : (v ||| extra) &&& k ≠ 0 := by
  intro hzero
  refine h (BitVec.eq_of_getLsbD_eq fun i hi => ?_)
  have h1 := congrArg (fun x => x.getLsbD i) hzero
  simp only [BitVec.getLsbD_and, BitVec.getLsbD_or] at h1 ⊢
  cases hv : v.getLsbD i <;> cases hkb : k.getLsbD i <;> simp_all

lemma Grown.refl (mem : Memory) : Grown mem mem := fun _ _ => ⟨0, by decide, BitVec.or_zero.symm⟩

/-- A write over a memory that has grown may go back to the first value of the dword. -/
lemma Grown.write {mem mem' : Memory} {addr : Address} (hg : Grown mem mem') (ha : Aligned addr)
    (h : extra &&& ~~~(pteAccessed ||| pteDirty) = 0) :
    Grown mem (writeDword mem' addr (readDword mem addr ||| extra)) := by
  intro other ho
  by_cases he : other = addr
  · subst he
    exact ⟨extra, h, readDword_writeDword _ _ _⟩
  · rw [readDword_writeDword_of_ne ha ho he]
    exact hg other ho

section

variable {cr3 : Dword} {mem mem' : Memory} {linear : Address}

lemma Grown.pde (h : Grown mem mem') (cr3 : Dword) (linear : Address) :
    ∃ extra, extra &&& ~~~(pteAccessed ||| pteDirty) = 0 ∧
      pdeOf cr3 mem' linear = pdeOf cr3 mem linear ||| extra := h _ (aligned_pdeAddr _ _)

lemma Grown.pde_and (h : Grown mem mem') (hk : k &&& (pteAccessed ||| pteDirty) = 0) :
    pdeOf cr3 mem' linear &&& k = pdeOf cr3 mem linear &&& k := by
  obtain ⟨extra, he, heq⟩ := h.pde cr3 linear
  rw [heq]
  exact grown_and he hk

lemma Grown.pteAddr (h : Grown mem mem') :
    pteAddr (pdeOf cr3 mem' linear) linear = pteAddr (pdeOf cr3 mem linear) linear := by
  unfold Paging.pteAddr
  rw [h.pde_and (by decide)]

lemma Grown.pte (h : Grown mem mem') (cr3 : Dword) (linear : Address) :
    ∃ extra, extra &&& ~~~(pteAccessed ||| pteDirty) = 0 ∧
      pteOf cr3 mem' linear = pteOf cr3 mem linear ||| extra := by
  unfold pteOf
  rw [h.pteAddr]
  exact h _ (aligned_pteAddr _ _)

lemma Grown.pte_and (h : Grown mem mem') (hk : k &&& (pteAccessed ||| pteDirty) = 0) :
    pteOf cr3 mem' linear &&& k = pteOf cr3 mem linear &&& k := by
  obtain ⟨extra, he, heq⟩ := h.pte cr3 linear
  rw [heq]
  exact grown_and he hk

lemma Grown.pde_ne_zero (h : Grown mem mem') (hk : pdeOf cr3 mem linear &&& k ≠ 0) :
    pdeOf cr3 mem' linear &&& k ≠ 0 := by
  obtain ⟨extra, -, heq⟩ := h.pde cr3 linear
  rw [heq]
  exact or_and_ne_zero hk

lemma Grown.pte_ne_zero (h : Grown mem mem') (hk : pteOf cr3 mem linear &&& k ≠ 0) :
    pteOf cr3 mem' linear &&& k ≠ 0 := by
  obtain ⟨extra, -, heq⟩ := h.pte cr3 linear
  rw [heq]
  exact or_and_ne_zero hk

lemma Grown.fits {width : AddressWidth} (h : Grown mem mem') (hf : Fits width cr3 mem linear) :
    Fits width cr3 mem' linear := by
  refine ⟨hf.1, fun hpde => ?_⟩
  rw [h.pde_and (by decide)] at hpde
  obtain ⟨h1, h2⟩ := hf.2 hpde
  refine ⟨?_, fun hpte => ?_⟩
  · rw [h.pde_and (by decide)]
    exact h1
  · rw [h.pte_and (by decide)] at hpte ⊢
    exact h2 hpte

end

/-! ### Masks -/

lemma mask_low {width : AddressWidth} {i : ℕ} (h : i < 12) :
    width.physicalAddressMask.getLsbD i = true := by
  have hall : ∀ i : Fin 12, ∀ width : AddressWidth, width.physicalAddressMask.getLsbD i = true := by
    intro i width
    cases width <;> revert i <;> decide
  exact hall ⟨i, h⟩ width

lemma getLsbD_offsetMask {i : ℕ} (hi : i < 32) : offsetMask.getLsbD i = decide (i < 12) := by
  have hall : ∀ i : Fin 32, offsetMask.getLsbD i = decide (i.val < 12) := by decide
  exact hall ⟨i, hi⟩

lemma getLsbD_frameMask {i : ℕ} (hi : i < 32) : frameMask.getLsbD i = decide (12 ≤ i) := by
  have hall : ∀ i : Fin 32, frameMask.getLsbD i = decide (12 ≤ i.val) := by decide
  exact hall ⟨i, hi⟩

lemma offset_mask (linear : Address) (width : AddressWidth) :
    linear &&& offsetMask &&& width.physicalAddressMask = linear &&& offsetMask := by
  refine BitVec.eq_of_getLsbD_eq fun i hi => ?_
  simp only [BitVec.getLsbD_and, getLsbD_offsetMask hi]
  by_cases h : i < 12
  · simp [mask_low h]
  · simp [h]

lemma index_mask (index : Dword) (width : AddressWidth) :
    (index &&& 0x3FF) <<< 2 &&& width.physicalAddressMask = (index &&& 0x3FF) <<< 2 := by
  have hall : ∀ i : Fin 32, (0x3FF#32).getLsbD i = decide (i.val < 10) := by decide
  refine BitVec.eq_of_getLsbD_eq fun i hi => ?_
  have hbit := hall ⟨i - 2, by omega⟩
  simp only [BitVec.getLsbD_and, BitVec.getLsbD_shiftLeft] at hbit ⊢
  change (decide (i < 32) && !decide (i < 2) && (index.getLsbD (i - 2) &&
    (0x3FF#32).getLsbD (i - 2)) && _) = (decide (i < 32) && !decide (i < 2) &&
    (index.getLsbD (i - 2) && (0x3FF#32).getLsbD (i - 2)))
  rw [hbit]
  by_cases h : i - 2 < 10
  · rw [mask_low (show i < 12 by omega), Bool.and_true]
  · simp [h]

lemma entry_mask {base index : Dword} {width : AddressWidth}
    (h : base &&& frameMask &&& width.physicalAddressMask = base &&& frameMask) :
    (base &&& frameMask ||| (index &&& 0x3FF) <<< 2) &&& width.physicalAddressMask =
      base &&& frameMask ||| (index &&& 0x3FF) <<< 2 := by
  rw [BitVec.and_or_distrib_right, h, index_mask]

lemma frame_or_offset (frame linear : Dword) :
    (frame &&& frameMask ||| linear &&& offsetMask) &&& ~~~offsetMask = frame &&& frameMask := by
  refine BitVec.eq_of_getLsbD_eq fun i hi => ?_
  simp only [BitVec.getLsbD_and, BitVec.getLsbD_or, BitVec.getLsbD_not, getLsbD_offsetMask hi,
    getLsbD_frameMask hi]
  by_cases h : i < 12
  · simp [h, show ¬ 12 ≤ i by omega]
  · simp [h, hi, show 12 ≤ i by omega]

lemma page_or_offset {linear : Address} (h : pageOf other = pageOf linear) (mask : Dword)
    (hmask : ∀ i < 12, mask.getLsbD i = true) :
    linear &&& mask &&& ~~~offsetMask ||| other &&& offsetMask = other &&& mask := by
  refine BitVec.eq_of_getLsbD_eq fun i hi => ?_
  simp only [BitVec.getLsbD_and, BitVec.getLsbD_or, BitVec.getLsbD_not, getLsbD_offsetMask hi]
  by_cases h12 : i < 12
  · simp [h12, hmask i h12]
  · have hbit := congrArg (fun x => x.getLsbD (i - 12)) h
    simp only [pageOf, BitVec.getLsbD_ushiftRight, show 12 + (i - 12) = i by omega] at hbit
    rw [hbit]
    simp [h12, hi]

/-! ### The Fresh Walk within the Width -/

section

variable {width : AddressWidth} {cr3 : Dword} {mem : Memory} {linear : Address}

lemma freshPde_eq (h : Fits width cr3 mem linear) :
    freshPde width cr3 mem linear = pdeOf cr3 mem linear := by
  unfold freshPde pdeOf
  rw [show pdeAddr cr3 linear &&& width.physicalAddressMask = pdeAddr cr3 linear from
    entry_mask h.1]

lemma freshPte_eq (h : Fits width cr3 mem linear)
    (hpde : pdeOf cr3 mem linear &&& ptePresent ≠ 0) :
    freshPte width cr3 mem linear = pteOf cr3 mem linear := by
  unfold freshPte pteOf
  rw [freshPde_eq h, show pteAddr (pdeOf cr3 mem linear) linear &&& width.physicalAddressMask =
    pteAddr (pdeOf cr3 mem linear) linear from entry_mask (h.2 hpde).1]

end

/-! ### The Processor's Walk -/

lemma denied_iff {model : CpuModel} {self : I386} {pde pte : Dword} {write : Bool} :
    self.denied model pde pte write = true ↔ ¬ Permitted model self pde pte write := by
  unfold I386.denied Permitted Both
  cases self.isUserPageAccess <;> cases write <;> cases self.wpEnforced model <;>
    simp [or_iff_not_imp_left]

/-- The accessed bits are set in the entries the processor reads, and after a write the dirty
bit. -/
def Marked (cr3 : Dword) (mem : Memory) (linear : Address) (write : Bool) : Prop :=
  Both pteAccessed (pdeOf cr3 mem linear) (pteOf cr3 mem linear) ∧
    (write = true → pteOf cr3 mem linear &&& pteDirty ≠ 0)

/-- What the walk puts into the buffer. -/
def filled (pde pte : Dword) (linear : Address) (write : Bool) : TlbSlot where
  valid := true
  tag := pageOf linear
  phys := pte &&& frameMask
  dirty := write
  writable := decide (Both pteWritable pde pte)
  user := decide (Both pteUser pde pte)

/-- The page table entry after an access. -/
def markedPte (pte : Dword) (write : Bool) : Dword :=
  if write then pte ||| pteAccessed ||| pteDirty else pte ||| pteAccessed

lemma markedPte_accessed (pte : Dword) (write : Bool) : markedPte pte write &&& pteAccessed ≠ 0 := by
  have h : (pte ||| pteAccessed) &&& pteAccessed ≠ 0 := by
    rw [BitVec.or_comm]
    exact or_and_ne_zero (by decide)
  cases write
  · exact h
  · exact or_and_ne_zero h

lemma markedPte_dirty (pte : Dword) : markedPte pte true &&& pteDirty ≠ 0 := by
  unfold markedPte
  rw [if_pos rfl, BitVec.or_comm]
  exact or_and_ne_zero (by decide)

lemma markedPte_extra (pte : Dword) (write : Bool) :
    ∃ extra, extra &&& ~~~(pteAccessed ||| pteDirty) = 0 ∧ markedPte pte write = pte ||| extra := by
  cases write
  · exact ⟨pteAccessed, by decide, rfl⟩
  · exact ⟨pteAccessed ||| pteDirty, by decide, BitVec.or_assoc _ _ _⟩

/-- The memory after a walk that succeeds. -/
def mark (cr3 : Dword) (mem : Memory) (linear : Address) (write : Bool) : Memory :=
  let pde := pdeOf cr3 mem linear
  let pte := pteOf cr3 mem linear
  let mem := if pde &&& pteAccessed = 0 then
    writeDword mem (pdeAddr cr3 linear) (pde ||| pteAccessed) else mem
  if markedPte pte write ≠ pte then writeDword mem (pteAddr pde linear) (markedPte pte write)
  else mem

lemma mark_spec (cr3 : Dword) (mem : Memory) (linear : Address) (write : Bool) :
    Grown mem (mark cr3 mem linear write) ∧ Marked cr3 (mark cr3 mem linear write) linear write := by
  unfold mark
  dsimp only
  generalize hmem1 : (if pdeOf cr3 mem linear &&& pteAccessed = 0 then writeDword mem
    (pdeAddr cr3 linear) (pdeOf cr3 mem linear ||| pteAccessed) else mem) = mem1
  -- the first write marks the directory entry
  obtain ⟨hg1, hpde1⟩ : Grown mem mem1 ∧ pdeOf cr3 mem1 linear &&& pteAccessed ≠ 0 := by
    rw [← hmem1]
    split_ifs with h
    · refine ⟨(Grown.refl mem).write (aligned_pdeAddr _ _) (by decide), ?_⟩
      rw [pdeOf, readDword_writeDword, BitVec.or_comm]
      exact or_and_ne_zero (by decide)
    · exact ⟨Grown.refl mem, h⟩
  split_ifs with hsame
  · -- the second one marks the table entry, which may be the same dword
    obtain ⟨extra, hextra, heq⟩ := markedPte_extra (pteOf cr3 mem linear) write
    have hg2 := hg1.write (aligned_pteAddr (pdeOf cr3 mem linear) linear) hextra
    change Grown mem (writeDword mem1 _ (pteOf cr3 mem linear ||| extra)) at hg2
    rw [← heq] at hg2
    have hpte : pteOf cr3 (writeDword mem1 (pteAddr (pdeOf cr3 mem linear) linear)
        (markedPte (pteOf cr3 mem linear) write)) linear =
      markedPte (pteOf cr3 mem linear) write := by
      rw [pteOf, hg2.pteAddr]
      exact readDword_writeDword _ _ _
    refine ⟨hg2, ⟨?_, ?_⟩, ?_⟩
    · by_cases he : pdeAddr cr3 linear = pteAddr (pdeOf cr3 mem linear) linear
      · rw [pdeOf, he, readDword_writeDword]
        exact markedPte_accessed _ _
      · rw [pdeOf, readDword_writeDword_of_ne (aligned_pteAddr _ _) (aligned_pdeAddr _ _) he]
        exact hpde1
    · rw [hpte]
      exact markedPte_accessed _ _
    · rintro rfl
      rw [hpte]
      exact markedPte_dirty _
  · rw [not_not] at hsame
    refine ⟨hg1, ⟨hpde1, hg1.pte_ne_zero ?_⟩, ?_⟩
    · rw [← hsame]
      exact markedPte_accessed _ _
    · rintro rfl
      refine hg1.pte_ne_zero ?_
      rw [← hsame]
      exact markedPte_dirty _

lemma pageTableWalk_eq (model : CpuModel) (self : I386) (linear : Address) (write : Bool)
    (mem : Memory) : self.pageTableWalk model linear write mem =
      (let pde := pdeOf self.cr3 mem linear
      let pte := pteOf self.cr3 mem linear
      if ¬ Both ptePresent pde pte then self.raisePageFault linear write false mem
      else if ¬ Permitted model self pde pte write then self.raisePageFault linear write true mem
      else ⟨.ok (pte &&& frameMask ||| linear &&& offsetMask), { self with
        tlb := Function.update self.tlb (slotOf (pageOf linear)) (filled pde pte linear write) },
        mark self.cr3 mem linear write⟩) := by
  unfold I386.pageTableWalk
  simp only [readDwordPhysRaw_eq, writeDwordPhysRaw_eq]
  change (if pdeOf self.cr3 mem linear &&& ptePresent = 0 then _ else
    if pteOf self.cr3 mem linear &&& ptePresent = 0 then _ else
    if self.denied model (pdeOf self.cr3 mem linear) (pteOf self.cr3 mem linear) write = true
      then _ else _) = _
  by_cases hpde : pdeOf self.cr3 mem linear &&& ptePresent = 0
  · rw [if_pos hpde, if_pos fun hb => hb.1 hpde]
  by_cases hpte : pteOf self.cr3 mem linear &&& ptePresent = 0
  · rw [if_neg hpde, if_pos hpte, if_pos fun hb => hb.2 hpte]
  have hboth : Both ptePresent (pdeOf self.cr3 mem linear) (pteOf self.cr3 mem linear) :=
    ⟨hpde, hpte⟩
  rw [if_neg hpde, if_neg hpte, if_neg (not_not.mpr hboth)]
  by_cases hdenied : self.denied model (pdeOf self.cr3 mem linear)
      (pteOf self.cr3 mem linear) write = true
  · rw [if_pos hdenied, if_pos (denied_iff.mp hdenied)]
  · rw [if_neg hdenied, if_neg (mt denied_iff.mpr hdenied)]
    rfl

/-! ### The Invariant -/

/-- The slot holds what the tables say of the address, and the bits it vouches for are set. -/
structure Maps (cr3 : Dword) (mem : Memory) (linear : Address) (slot : TlbSlot) : Prop where
  present : Both ptePresent (pdeOf cr3 mem linear) (pteOf cr3 mem linear)
  phys : slot.phys = pteOf cr3 mem linear &&& frameMask
  writable : slot.writable = decide (Both pteWritable (pdeOf cr3 mem linear) (pteOf cr3 mem linear))
  user : slot.user = decide (Both pteUser (pdeOf cr3 mem linear) (pteOf cr3 mem linear))
  marked : Marked cr3 mem linear slot.dirty

/-- What is cached for a page that has not been changed is what its tables say; without paging
the buffer is empty, and the cached code page is the page itself. -/
structure Coherent (width : AddressWidth) (system : System) : Prop where
  slot : ∀ i, (system.cpu.tlb i).valid = true → slotOf (system.cpu.tlb i).tag = i
  maps : ∀ i linear, (system.cpu.tlb i).valid = true → pageOf linear = (system.cpu.tlb i).tag →
    pageOf linear ∉ system.changed → Maps system.cpu.cr3 system.mem linear (system.cpu.tlb i)
  off : system.cpu.isPagingEnabled = false → ∀ i, (system.cpu.tlb i).valid = false
  fetchOff : system.cpu.fetchPageValid = true → system.cpu.isPagingEnabled = false →
    ∀ linear, pageOf linear = system.cpu.fetchPageTag →
      system.cpu.fetchPagePhys ||| linear &&& offsetMask = linear &&& width.physicalAddressMask
  fetchOn : system.cpu.fetchPageValid = true → system.cpu.isPagingEnabled = true →
    ∀ linear, pageOf linear = system.cpu.fetchPageTag → pageOf linear ∉ system.changed →
      ∃ slot, Maps system.cpu.cr3 system.mem linear slot ∧
        slot.phys = system.cpu.fetchPagePhys ∧ slot.user = system.cpu.fetchPageUser

section

variable {cr3 : Dword} {mem mem' : Memory} {linear : Address} {slot : TlbSlot}

lemma Grown.both (h : Grown mem mem') (hk : k &&& (pteAccessed ||| pteDirty) = 0) :
    Both k (pdeOf cr3 mem' linear) (pteOf cr3 mem' linear) ↔
      Both k (pdeOf cr3 mem linear) (pteOf cr3 mem linear) := by
  unfold Both
  rw [h.pde_and hk, h.pte_and hk]

lemma Grown.marked (h : Grown mem mem') {write : Bool} (hm : Marked cr3 mem linear write) :
    Marked cr3 mem' linear write :=
  ⟨⟨h.pde_ne_zero hm.1.1, h.pte_ne_zero hm.1.2⟩, fun hw => h.pte_ne_zero (hm.2 hw)⟩

lemma Maps.grown (hm : Maps cr3 mem linear slot) (h : Grown mem mem') :
    Maps cr3 mem' linear slot where
  present := (h.both (by decide)).mpr hm.present
  phys := by rw [h.pte_and (by decide)]; exact hm.phys
  writable := by rw [hm.writable]; exact decide_eq_decide.mpr (h.both (by decide)).symm
  user := by rw [hm.user]; exact decide_eq_decide.mpr (h.both (by decide)).symm
  marked := h.marked hm.marked

lemma Maps.same (hm : Maps cr3 mem linear slot) (h : SameEntries cr3 mem mem' linear) :
    Maps cr3 mem' linear slot := by
  have hpde := h.1
  have hpte := h.2 hm.present.1
  have hmarked := hm.marked
  unfold Marked at hmarked
  rw [← hpde, ← hpte] at hmarked
  refine ⟨?_, ?_, ?_, ?_, hmarked⟩
  · rw [hpde, hpte]
    exact hm.present
  · rw [hpte]
    exact hm.phys
  · rw [hpde, hpte]
    exact hm.writable
  · rw [hpde, hpte]
    exact hm.user

lemma Maps.congr (hm : Maps cr3 mem linear slot) (h : pageOf other = pageOf linear) :
    Maps cr3 mem other slot := by
  have hpde := pdeOf_congr h cr3 mem
  have hpte := pteOf_congr h cr3 mem
  have hmarked := hm.marked
  unfold Marked at hmarked
  rw [← hpde, ← hpte] at hmarked
  refine ⟨?_, ?_, ?_, ?_, hmarked⟩
  · rw [hpde, hpte]
    exact hm.present
  · rw [hpte]
    exact hm.phys
  · rw [hpde, hpte]
    exact hm.writable
  · rw [hpde, hpte]
    exact hm.user

end

lemma coherent_of_empty {width : AddressWidth} {system : System}
    (htlb : ∀ i, (system.cpu.tlb i).valid = false)
    (hfetch : system.cpu.fetchPageValid = false) : Coherent width system := by
  have hno : ∀ i, (system.cpu.tlb i).valid ≠ true := fun i h => by rw [htlb i] at h; cases h
  have hnofetch : system.cpu.fetchPageValid ≠ true := fun h => by rw [hfetch] at h; cases h
  exact ⟨fun i hv => absurd hv (hno i), fun i _ hv => absurd hv (hno i), fun _ => htlb,
    fun hv => absurd hv hnofetch, fun hv => absurd hv hnofetch⟩

/-- A change that leaves the caches as they are, and for pages that stay unchanged what they
hold. -/
lemma Coherent.frame {width : AddressWidth} {before after : System} (h : Coherent width before)
    (htlb : after.cpu.tlb = before.cpu.tlb)
    (hfetch : after.cpu.fetchPageValid = before.cpu.fetchPageValid ∧
      after.cpu.fetchPageTag = before.cpu.fetchPageTag ∧
      after.cpu.fetchPagePhys = before.cpu.fetchPagePhys ∧
      after.cpu.fetchPageUser = before.cpu.fetchPageUser)
    (hpaging : after.cpu.isPagingEnabled = before.cpu.isPagingEnabled)
    (hmaps : ∀ linear slot, pageOf linear ∉ after.changed → pageOf linear ∉ before.changed ∧
      (Maps before.cpu.cr3 before.mem linear slot → Maps after.cpu.cr3 after.mem linear slot)) :
    Coherent width after := by
  obtain ⟨hvalid, htag, hphys, huser⟩ := hfetch
  refine ⟨?_, ?_, ?_, ?_, ?_⟩
  · rw [htlb]
    exact h.slot
  · rw [htlb]
    intro i linear hv hpage hchanged
    obtain ⟨hbefore, hm⟩ := hmaps linear (before.cpu.tlb i) hchanged
    exact hm (h.maps i linear hv hpage hbefore)
  · rw [hpaging, htlb]
    exact h.off
  · rw [hpaging, hvalid, htag, hphys]
    exact h.fetchOff
  · rw [hpaging, hvalid, htag, hphys, huser]
    intro hv hon linear hpage hchanged
    obtain ⟨slot, hslot, hrest⟩ := h.fetchOn hv hon linear hpage (hmaps linear default hchanged).1
    exact ⟨slot, (hmaps linear slot hchanged).2 hslot, hrest⟩

end Neetan.Paging
