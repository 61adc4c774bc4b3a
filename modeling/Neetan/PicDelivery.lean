import Neetan.Pic
import Mathlib.Data.Fintype.Basic

/-!
Which request the interrupt controllers deliver.

Levels are ordered from the rotation base of their chip on and round. A chip's request is
delivered if it comes before every level in service that keeps others out; the slave speaks to
the master through one line.
-/

namespace Neetan.Pic

/-! ### Bits -/

lemma getLsbD_bit (num other : Level) : (bit num).getLsbD other = decide (num = other) := by
  revert num other
  decide

variable {level num : Level} {self : I8259aPic} {a : Byte}

lemma has_iff {register : Byte} : Has register num ↔ register.getLsbD num := by
  have hself : (bit num).getLsbD num = true := by rw [getLsbD_bit, decide_eq_true rfl]
  unfold Has
  constructor
  · intro h
    by_contra hn
    refine h (BitVec.eq_of_getLsbD_eq fun i hi => ?_)
    rw [BitVec.getLsbD_and, getLsbD_bit num ⟨i, hi⟩]
    by_cases he : num = ⟨i, hi⟩
    · subst he
      simpa using hn
    · simp [he]
  · intro h hzero
    have hbit := congrArg (fun r => r.getLsbD num) hzero
    rw [BitVec.getLsbD_and, h, hself] at hbit
    simp at hbit

@[simp] lemma has_or {b : Byte} : Has (a ||| b) num ↔ Has a num ∨ Has b num := by
  rw [has_iff, has_iff, has_iff, BitVec.getLsbD_or, Bool.or_eq_true]

@[simp] lemma has_and {b : Byte} :
    Has (a &&& b) num ↔ Has a num ∧ Has b num := by
  rw [has_iff, has_iff, has_iff, BitVec.getLsbD_and, Bool.and_eq_true]

@[simp] lemma has_not : Has (~~~a) num ↔ ¬ Has a num := by
  rw [has_iff, has_iff, BitVec.getLsbD_not, decide_eq_true num.isLt]
  simp

@[simp] lemma has_bit {other : Level} : Has (bit num) other ↔ num = other := by
  rw [has_iff, getLsbD_bit, decide_eq_true_iff]

lemma ne_zero_iff : a ≠ 0 ↔ ∃ num, Has a num := by
  constructor
  · intro h
    by_contra hn
    refine h (BitVec.eq_of_getLsbD_eq fun i hi => ?_)
    have hbit := not_exists.mp hn ⟨i, hi⟩
    rw [has_iff] at hbit
    simpa using hbit
  · rintro ⟨num, hnum⟩ rfl
    rw [has_iff] at hnum
    simp at hnum

/-! ### The Order of Levels -/

/-- How far a level is from the rotation base. -/
def rank (pry level : Level) : ℕ := (level.val + 8 - pry.val) % 8

lemma rank_lt (pry level : Level) : rank pry level < 8 := Nat.mod_lt _ (by omega)

lemma rank_inj {pry a b : Level} (h : rank pry a = rank pry b) : a = b := by
  have ha := a.isLt
  have hb := b.isLt
  unfold rank at h
  exact Fin.ext (by omega)

lemma rank_next (h : level ≠ num) :
    rank num level = rank (num + 1) level + 1 := by
  have hval : (num + 1).val = (num.val + 1) % 8 := Fin.val_add num 1
  have hne : level.val ≠ num.val := fun he => h (Fin.ext he)
  unfold rank
  rw [hval]
  omega

lemma rank_self (num : Level) : rank num num = 0 := by
  unfold rank
  omega

lemma scan_none {mask : Byte} {fuel : ℕ} (h : scan mask fuel num = none)
    (hr : rank num level < fuel) : ¬ Has mask level := by
  induction fuel generalizing num with
  | zero => exact absurd hr (Nat.not_lt_zero _)
  | succ fuel ih =>
    rw [scan] at h
    split_ifs at h with hzero
    by_cases he : level = num
    · rw [he, Has, not_not]
      exact hzero
    · rw [rank_next he] at hr
      exact ih h (Nat.lt_of_succ_lt_succ hr)

lemma scan_some {mask : Byte} {fuel : ℕ} {found : Level} (h : scan mask fuel num = some found) :
    Has mask found ∧ ∀ level, Has mask level → rank num found ≤ rank num level := by
  induction fuel generalizing num with
  | zero => cases h
  | succ fuel ih =>
    rw [scan] at h
    split_ifs at h with hzero
    · obtain ⟨hfound, hfirst⟩ := ih h
      refine ⟨hfound, fun level hlevel => ?_⟩
      have hnot : ∀ l, Has mask l → l ≠ num := by
        rintro l hl rfl
        exact hl hzero
      rw [rank_next (hnot found hfound), rank_next (hnot level hlevel)]
      exact Nat.succ_le_succ (hfirst level hlevel)
    · obtain rfl := Option.some.inj h
      refine ⟨hzero, fun level _ => ?_⟩
      rw [rank_self]
      exact Nat.zero_le _

lemma firstLevel_spec {mask : Byte} (start : Level) (h : ∃ num, Has mask num) :
    ∃ found, firstLevel mask start = some found ∧ Has mask found ∧
      ∀ level, Has mask level → rank start found ≤ rank start level := by
  cases hscan : firstLevel mask start with
  | none =>
    obtain ⟨num, hnum⟩ := h
    exact absurd hnum (scan_none hscan (rank_lt start num))
  | some found => exact ⟨found, rfl, scan_some hscan⟩

/-! ### What Is to Be Delivered -/

namespace Chip

/-- An unmasked request. -/
def Requests (self : Chip) (level : Level) : Prop := Has self.irr level ∧ ¬ Has self.imr level

/-- A level in service that keeps others out; in special mask mode a masked one does not. -/
def Blocks (self : Chip) (level : Level) : Prop :=
  Has self.isr level ∧ (self.ocw3 &&& ocw3Smm = 0 ∨ ¬ Has self.imr level)

def Before (self : Chip) (level other : Level) : Prop := rank self.pry level < rank self.pry other

/-- No equal or higher level in service keeps this one out. -/
def Passes (self : Chip) (level : Level) : Prop :=
  ∀ other, self.Blocks other → self.Before level other

/-- The chip asserts its output. -/
def Interrupts (self : Chip) : Prop := ∃ level, self.Requests level ∧ self.Passes level

instance (self : Chip) (level : Level) : Decidable (self.Requests level) :=
  inferInstanceAs (Decidable (_ ∧ _))

instance (self : Chip) (level : Level) : Decidable (self.Blocks level) :=
  inferInstanceAs (Decidable (_ ∧ _))

instance (self : Chip) (level other : Level) : Decidable (self.Before level other) :=
  inferInstanceAs (Decidable (_ < _))

instance (self : Chip) (level : Level) : Decidable (self.Passes level) :=
  inferInstanceAs (Decidable (∀ other, self.Blocks other → self.Before level other))

instance (self : Chip) : Decidable self.Interrupts :=
  inferInstanceAs (Decidable (∃ level, self.Requests level ∧ self.Passes level))

lemma has_blockingIsr {self : Chip} :
    Has self.blockingIsr level ↔ self.Blocks level := by
  unfold blockingIsr Blocks
  split_ifs with h
  · exact (and_iff_left (.inl h)).symm
  · rw [has_and, has_not]
    exact and_congr_right fun _ => (or_iff_right h).symm

lemma Blocks.inService {self : Chip} (h : self.Blocks level) :
    Has self.isr level := h.1

lemma blocks_of_unmasked {self : Chip} (h : ¬ Has self.imr level) (hs : Has self.isr level) :
    self.Blocks level := ⟨hs, .inr h⟩

lemma passes_of_first {self : Chip} (hnot : ¬ self.Blocks level)
    (h : ∀ other, self.Blocks other → rank self.pry level ≤ rank self.pry other) :
    self.Passes level := by
  intro other hother
  refine lt_of_le_of_ne (h other hother) fun he => ?_
  obtain rfl := rank_inj he
  exact hnot hother

end Chip

namespace I8259aPic

/-- An unmasked request of the master, or the slave's output. -/
def Asks (self : I8259aPic) (level : Level) : Prop :=
  ¬ Has self.master.imr level ∧
    (Has self.master.irr level ∨ level = self.slaveLevel ∧ self.slave.Interrupts)

/-- The line that is to be delivered, if any: the first one asked for that passes. -/
inductive Delivers (self : I8259aPic) : Option ℕ → Prop
  | none : (∀ level, self.Asks level → ¬ self.master.Passes level) → Delivers self none
  | master {level : Level} : self.Asks level → self.master.Passes level →
    (∀ other, self.Asks other → ¬ self.master.Before other level) →
    ¬ (level = self.slaveLevel ∧ self.slave.Interrupts) → Delivers self (some level)
  | slave {level : Level} : self.Asks self.slaveLevel → self.master.Passes self.slaveLevel →
    (∀ other, self.Asks other → ¬ self.master.Before other self.slaveLevel) →
    self.slave.Interrupts → self.slave.Requests level →
    (∀ other, self.slave.Requests other → ¬ self.slave.Before other level) →
    Delivers self (some (8 + level))

/-- What the master's scan takes for a request: the slave's unmasked requests are one, whether
or not the slave asserts its output. -/
def Raised (self : I8259aPic) (level : Level) : Prop :=
  ¬ Has self.master.imr level ∧
    (Has self.master.irr level ∨ level = self.slaveLevel ∧ ∃ num, self.slave.Requests num)

/-- The slave's line is the first one the master looks at, and either it is in service while the
slave asserts its output, or the slave does not assert it and a request of the master passes. -/
def Stuck (self : I8259aPic) : Prop :=
  (∃ level, self.Raised level) ∧
    (self.Raised self.slaveLevel ∨ self.master.Blocks self.slaveLevel) ∧
    (∀ level, self.Raised level ∨ self.master.Blocks level →
      ¬ self.master.Before level self.slaveLevel) ∧
    (self.master.Blocks self.slaveLevel ∧ self.slave.Interrupts ∨
      ¬ self.master.Blocks self.slaveLevel ∧ ¬ self.slave.Interrupts ∧ self.master.Interrupts)

instance (self : I8259aPic) (level : Level) : Decidable (self.Raised level) :=
  inferInstanceAs (Decidable (_ ∧ _))

instance (self : I8259aPic) : Decidable self.Stuck := inferInstanceAs (Decidable (_ ∧ _))

instance (self : I8259aPic) : Decidable self.Wired := inferInstanceAs (Decidable (_ = _))

lemma has_sir : Has self.sir num ↔ self.slave.Requests num := by
  simp [sir, Chip.Requests]

lemma has_mir : Has self.mir level ↔ self.Raised level := by
  have hsir : self.sir ≠ 0 ↔ ∃ num, self.slave.Requests num := by
    rw [ne_zero_iff]
    exact exists_congr fun num => has_sir
  unfold mir Raised
  by_cases h : self.sir ≠ 0
  · rw [if_pos h]
    have hex := hsir.mp h
    simp [hex, eq_comm, and_comm]
  · rw [if_neg h]
    have hex := mt hsir.mpr h
    simp [hex, and_comm]

lemma Asks.raised (h : self.Asks level) : self.Raised level :=
  ⟨h.1, h.2.imp_right fun hs => ⟨hs.1, hs.2.imp fun _ hr => hr.1⟩⟩

/-! ### The Slave -/

/-- The scan of the slave finds its first request if it asserts its output, and nothing else. -/
lemma findSlaveIrq_spec (self : I8259aPic) :
    (self.findSlaveIrq = some none ∧ ¬ self.slave.Interrupts) ∨
      ∃ num, self.findSlaveIrq = some (some (.slave num)) ∧ self.slave.Interrupts ∧
        self.slave.Requests num ∧ ∀ other, self.slave.Requests other →
          ¬ self.slave.Before other num := by
  unfold findSlaveIrq
  by_cases hsir : self.sir = 0
  · rw [if_pos hsir]
    refine .inl ⟨rfl, ?_⟩
    rintro ⟨num, hnum, -⟩
    exact ne_zero_iff.mpr ⟨num, has_sir.mpr hnum⟩ hsir
  rw [if_neg hsir]
  obtain ⟨request, hrequest⟩ := ne_zero_iff.mp hsir
  obtain ⟨num, hscan, hnum, hfirst⟩ := @firstLevel_spec
    (self.sir ||| self.slave.blockingIsr) self.slave.pry ⟨request, has_or.mpr (.inl hrequest)⟩
  simp only [has_or, has_sir, Chip.has_blockingIsr] at hnum hfirst
  rw [hscan]
  by_cases hserved : Has self.slave.isr num
  · -- the first level is in service, so no request passes it
    refine .inl ⟨if_pos hserved, ?_⟩
    rintro ⟨other, hother, hpasses⟩
    have hblocks : self.slave.Blocks num :=
      hnum.elim (fun h => Chip.blocks_of_unmasked h.2 hserved) id
    exact Nat.not_lt.mpr (hfirst other (.inl hother)) (hpasses num hblocks)
  · have hnot : ¬ self.slave.Blocks num := fun h => hserved h.inService
    have hrequests : self.slave.Requests num := hnum.resolve_right hnot
    refine .inr ⟨num, if_neg hserved, ⟨num, hrequests, ?_⟩, hrequests, fun other hother => ?_⟩
    · exact Chip.passes_of_first hnot fun other hother => hfirst other (.inr hother)
    · exact Nat.not_lt.mpr (hfirst other (.inl hother))

/-! ### The Master -/

lemma findPendingIrq_total (self : I8259aPic) : ∃ found, self.findPendingIrq = some found := by
  unfold findPendingIrq
  by_cases hmir : self.mir = 0
  · exact ⟨none, if_pos hmir⟩
  rw [if_neg hmir]
  obtain ⟨request, hrequest⟩ := ne_zero_iff.mp hmir
  obtain ⟨num, hscan, -⟩ := @firstLevel_spec
    (self.mir ||| self.master.blockingIsr) self.master.pry ⟨request, has_or.mpr (.inl hrequest)⟩
  rw [hscan]
  simp only
  split_ifs
  · obtain ⟨h, -⟩ | ⟨found, h, -⟩ := self.findSlaveIrq_spec
    · exact ⟨_, h⟩
    · exact ⟨_, h⟩
  · exact ⟨_, rfl⟩
  · exact ⟨_, rfl⟩

/-- The level is the first of those that ask or keep others out, as the master sees them. -/
def First (self : I8259aPic) (level : Level) : Prop :=
  (self.Raised level ∨ self.master.Blocks level) ∧
    ∀ other, self.Raised other ∨ self.master.Blocks other → ¬ self.master.Before other level

lemma findPendingIrq_spec (h : self.Wired) :
    (self.findPendingIrq = some none ∧ ∀ level, ¬ self.Raised level) ∨
      (∃ level, self.Raised level) ∧
        ((self.First self.slaveLevel ∧ self.findPendingIrq = self.findSlaveIrq) ∨
          ∃ level, level ≠ self.slaveLevel ∧ self.First level ∧ self.findPendingIrq =
            if self.master.Blocks level then some none else some (some (.master level))) := by
  unfold findPendingIrq
  by_cases hmir : self.mir = 0
  · rw [if_pos hmir]
    exact .inl ⟨rfl, fun level hlevel => ne_zero_iff.mpr ⟨level, has_mir.mpr hlevel⟩ hmir⟩
  rw [if_neg hmir]
  obtain ⟨request, hrequest⟩ := ne_zero_iff.mp hmir
  obtain ⟨num, hscan, hnum, hfirst⟩ := @firstLevel_spec
    (self.mir ||| self.master.blockingIsr) self.master.pry ⟨request, has_or.mpr (.inl hrequest)⟩
  simp only [has_or, has_mir, Chip.has_blockingIsr] at hnum hfirst hrequest
  have hfirst' : self.First num := ⟨hnum, fun other ho => Nat.not_lt.mpr (hfirst other ho)⟩
  rw [hscan]
  refine .inr ⟨⟨request, hrequest⟩, ?_⟩
  by_cases hcascade : Has self.master.icw[2] num
  · have he : self.slaveLevel = num := by
      rw [h, has_bit] at hcascade
      exact hcascade
    exact .inl ⟨he ▸ hfirst', if_pos hcascade⟩
  · have hne : num ≠ self.slaveLevel := by
      rintro rfl
      rw [h, has_bit] at hcascade
      exact hcascade rfl
    refine .inr ⟨num, hne, hfirst', ?_⟩
    -- in service is the same as keeping others out, for the first level
    have hserved : Has self.master.isr num ↔ self.master.Blocks num :=
      ⟨fun hs => hnum.elim (fun hr => Chip.blocks_of_unmasked hr.1 hs) id, Chip.Blocks.inService⟩
    simp only [if_neg hcascade, hserved]

/-! ### The Line -/

/-- The line of the interrupt that was found. -/
def line : Option PendingIrq → Option ℕ
  | none => none
  | some (.master num) => some num
  | some (.slave num) => some (8 + num)

lemma line_isSome (found : Option PendingIrq) : (line found).isSome = found.isSome := by
  rcases found with _ | _ | _ <;> rfl

lemma First.passes (h : self.First level) (hnot : ¬ self.master.Blocks level) :
    self.master.Passes level :=
  Chip.passes_of_first hnot fun other ho => Nat.not_lt.mp (h.2 other (.inr ho))

lemma First.keeps {other : Level} (h : self.First level) (hb : self.master.Blocks level)
    (ho : self.Asks other) : ¬ self.master.Passes other :=
  fun hp => h.2 other (.inl ho.raised) (hp level hb)

lemma not_passes_of_blocks {self : Chip} (h : self.Blocks level) :
    ¬ self.Passes level := fun hp => Nat.lt_irrefl _ (hp level h)

lemma delivers_none_of_not_raised (h : ∀ level, ¬ self.Raised level) :
    self.Delivers none := .none fun level hlevel => absurd hlevel.raised (h level)

lemma delivers_of_first_master (hne : level ≠ self.slaveLevel) (h : self.First level) :
    self.Delivers
      (if self.master.Blocks level then none else some level.val) := by
  split_ifs with hb
  · exact .none fun other ho => h.keeps hb ho
  · have hraised : self.Raised level := h.1.resolve_right hb
    have hasks : self.Asks level := ⟨hraised.1, hraised.2.imp_right fun hs => absurd hs.1 hne⟩
    exact .master hasks (h.passes hb) (fun other ho => h.2 other (.inl ho.raised))
      fun hs => hne hs.1

/-- When the slave's line is first, what the slave's scan finds is right unless it is stuck. -/
lemma delivers_iff_of_first_slave {found : Option PendingIrq} (h : self.First self.slaveLevel)
    (hfound : self.findSlaveIrq = some found) :
    self.Delivers (line found) ↔
      ¬ (self.master.Blocks self.slaveLevel ∧ self.slave.Interrupts ∨
        ¬ self.master.Blocks self.slaveLevel ∧ ¬ self.slave.Interrupts ∧
          self.master.Interrupts) := by
  have hspec := self.findSlaveIrq_spec
  rw [hfound] at hspec
  by_cases hb : self.master.Blocks self.slaveLevel
  · simp only [hb, true_and, not_true_eq_false, false_and, or_false]
    obtain ⟨he, hi⟩ | ⟨num, he, hi, -⟩ := hspec
    · -- neither delivers
      obtain rfl := Option.some.inj he
      exact iff_of_true (.none fun other ho => h.keeps hb ho) hi
    · -- the scan delivers past a line in service
      obtain rfl := Option.some.inj he
      refine iff_of_false (fun hd => ?_) (not_not.mpr hi)
      generalize hl : line (some (.slave num)) = l at hd
      cases hd with
      | none _ => cases hl
      | @master level _ _ _ _ =>
        have hlt := level.isLt
        have heq : 8 + num.val = level.val := Option.some.inj hl
        omega
      | slave _ hp _ _ _ _ => exact not_passes_of_blocks hb hp
  · have hraised : self.Raised self.slaveLevel := h.1.resolve_right hb
    simp only [hb, false_and, not_false_eq_true, true_and, false_or, not_and]
    obtain ⟨he, hi⟩ | ⟨num, he, hi, hnum, hfirst⟩ := hspec
    · obtain rfl := Option.some.inj he
      constructor
      · -- a request of the master that passes is delayed
        rintro hd - ⟨level, hlevel, hpasses⟩
        cases hd with
        | none hnone => exact hnone level ⟨hlevel.2, .inl hlevel.1⟩ hpasses
      · intro hnone
        refine .none fun level hlevel hpasses => hnone hi ⟨level, ⟨?_, hlevel.1⟩, hpasses⟩
        exact hlevel.2.resolve_right fun hs => hi hs.2
    · obtain rfl := Option.some.inj he
      refine iff_of_true ?_ fun hn => absurd hi hn
      exact .slave ⟨hraised.1, .inr ⟨rfl, hi⟩⟩ (h.passes hb)
        (fun other ho => h.2 other (.inl ho.raised)) hi hnum hfirst

/-- **What the scan finds is what is to be delivered, unless the slave's line is stuck.** -/
theorem delivers_iff (h : self.Wired) {found : Option PendingIrq}
    (hfound : self.findPendingIrq = some found) : self.Delivers (line found) ↔ ¬ self.Stuck := by
  have hspec := findPendingIrq_spec h
  rw [hfound] at hspec
  obtain ⟨he, hnot⟩ | ⟨hex, ⟨hfirst, he⟩ | ⟨level, hne, hfirst, he⟩⟩ := hspec
  · obtain rfl := Option.some.inj he
    refine iff_of_true (delivers_none_of_not_raised hnot) ?_
    rintro ⟨⟨level, hlevel⟩, -⟩
    exact hnot level hlevel
  · rw [delivers_iff_of_first_slave hfirst he.symm]
    refine not_congr ⟨fun hs => ⟨hex, hfirst.1, hfirst.2, hs⟩, fun hs => hs.2.2.2⟩
  · have hline : line found = if self.master.Blocks level then none else some level.val := by
      split_ifs at he with hb
      · obtain rfl := Option.some.inj he
        exact (if_pos hb).symm
      · obtain rfl := Option.some.inj he
        exact (if_neg hb).symm
    rw [hline]
    refine iff_of_true (delivers_of_first_master hne hfirst) ?_
    rintro ⟨-, hslave, hall, -⟩
    -- the slave's line and this level cannot both be first
    have h1 := hfirst.2 self.slaveLevel hslave
    have h2 := hall level hfirst.1
    exact hne (rank_inj (Nat.le_antisymm (Nat.not_lt.mp h1) (Nat.not_lt.mp h2)))

end I8259aPic

end Neetan.Pic
