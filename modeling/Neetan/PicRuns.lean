import Neetan.PicDelivery

/-!
What an acknowledge does to the controllers, and runs of calls.

An answer that is remembered stays true: every call that can change what a scan finds forgets
it. A run is right when no call of it fails and every state it passes through is right.
-/

namespace Neetan.Pic

lemma register_ext {a b : Byte} (h : ∀ num, Has a num ↔ Has b num) : a = b := by
  refine BitVec.eq_of_getLsbD_eq fun i hi => ?_
  have hbit := h ⟨i, hi⟩
  rw [has_iff, has_iff] at hbit
  exact Bool.eq_iff_iff.mpr hbit

lemma or_bit_of_has {a : Byte} {num : Level} (h : Has a num) : a ||| bit num = a := by
  refine register_ext fun other => ?_
  rw [has_or, has_bit]
  refine or_iff_left_of_imp ?_
  rintro rfl
  exact h

lemma and_not_bit_of_not_has {a : Byte} {num : Level} (h : ¬ Has a num) :
    a &&& ~~~bit num = a := by
  refine register_ext fun other => ?_
  rw [has_and, has_not, has_bit]
  refine and_iff_left_of_imp ?_
  rintro ho rfl
  exact h ho

namespace Chip

/-- The request at the level is taken into service, and nothing else of the chip changes. -/
structure Serves (chip : Chip) (level : Level) (after : Chip) : Prop where
  irr : ∀ other, Has after.irr other ↔ Has chip.irr other ∧ other ≠ level
  isr : ∀ other, Has after.isr other ↔ Has chip.isr other ∨ other = level
  rest : after = { chip with irr := after.irr, isr := after.isr }

lemma serves_serve (self : Chip) (level : Level) : self.Serves level (self.serve level) where
  irr other := by
    rw [serve, has_and, has_not, has_bit]
    exact and_congr_right fun _ => not_congr eq_comm
  isr other := by
    rw [serve, has_or, has_bit]
    exact or_congr_right eq_comm
  rest := rfl

end Chip

namespace I8259aPic

/-- What an acknowledge that delivers the line does to the chips. -/
inductive Served (self : I8259aPic) : Option ℕ → I8259aPic → Prop
  | none {after : I8259aPic} : after.master = self.master → after.slave = self.slave →
    Served self none after
  | master {level : Level} {after : I8259aPic} : self.master.Serves level after.master →
    after.slave = self.slave → Served self (some level) after
  | slave {level : Level} {after : I8259aPic} : self.master.Serves self.slaveLevel after.master →
    self.slave.Serves level after.slave → Served self (some (8 + level)) after

/-- What is asked of a state: both scans end, has_pending_irq is true exactly when the next
acknowledge delivers a line, the line is the one that is to be delivered, and the acknowledge
does to the chips what it should. -/
def Right (self : I8259aPic) : Prop :=
  ∃ pending asked ack after, self.hasPendingIrq = some (pending, asked) ∧
    asked.master = self.master ∧ asked.slave = self.slave ∧
    self.acknowledgeWithLine = some (ack, after) ∧
    (pending = true ↔ ack.line.isSome = true) ∧
    (self.Wired → self.Delivers ack.line) ∧ self.Served ack.line after

/-- The slave's line is not stuck, if it is wired as the initialization words say. -/
def Clear (self : I8259aPic) : Prop := self.Wired → ¬ self.Stuck

instance (self : I8259aPic) : Decidable self.Clear :=
  inferInstanceAs (Decidable (self.Wired → ¬ self.Stuck))

/-- The positions in the initialization sequences are in range, and a remembered answer is what
a scan finds. -/
structure Valid (pic : I8259aPic) : Prop where
  writeIcw : ∀ index, (pic.chip index).writeIcw ≤ 4
  irqCache : ∀ cached, pic.irqCache = some cached →
    ∃ found, pic.findPendingIrq = some found ∧ found.isSome = cached

/-! ### One State -/

/-- Scans do not look at what is remembered, or at the positions in the sequences. -/
lemma findPendingIrq_congr {self other : I8259aPic}
    (hm : { other.master with writeIcw := self.master.writeIcw } = self.master)
    (hs : { other.slave with writeIcw := self.slave.writeIcw } = self.slave) :
    self.findPendingIrq = other.findPendingIrq := by
  unfold findPendingIrq findSlaveIrq mir sir slaveLevel
  rw [← hm, ← hs]
  rfl

lemma findPendingIrq_invalidate (self : I8259aPic) :
    self.invalidateIrqCache.findPendingIrq = self.findPendingIrq := rfl

lemma acknowledge_spec {self : I8259aPic} {found : Option PendingIrq}
    (h : self.findPendingIrq = some found) : ∃ ack after,
      self.acknowledgeWithLine = some (ack, after) ∧ ack.line = line found ∧
        self.Served (line found) after ∧ after.irqCache = none ∧
        ∀ index, (after.chip index).writeIcw = (self.chip index).writeIcw := by
  simp only [acknowledgeWithLine, findPendingIrq_invalidate, h]
  rcases found with _ | num | num
  · exact ⟨_, _, rfl, rfl, .none rfl rfl, rfl, fun index => rfl⟩
  · exact ⟨_, _, rfl, rfl, .master (self.master.serves_serve num) rfl, rfl,
      fun index => by cases index <;> rfl⟩
  · exact ⟨_, _, rfl, rfl, .slave (self.master.serves_serve _) (self.slave.serves_serve num),
      rfl, fun index => by cases index <;> rfl⟩

lemma hasPendingIrq_spec {self : I8259aPic} (h : self.Valid) {found : Option PendingIrq}
    (hfound : self.findPendingIrq = some found) : ∃ asked,
      self.hasPendingIrq = some (found.isSome, asked) ∧ asked.master = self.master ∧
        asked.slave = self.slave ∧ asked.Valid := by
  unfold hasPendingIrq
  cases hcache : self.irqCache with
  | some cached =>
    obtain ⟨found', hfound', rfl⟩ := h.irqCache cached hcache
    obtain rfl := Option.some.inj (hfound.symm.trans hfound')
    exact ⟨self, rfl, rfl, rfl, h⟩
  | none =>
    refine ⟨_, congrArg (Option.map _) hfound, rfl, rfl, ?_, ?_⟩
    · intro index
      cases index
      · exact h.writeIcw .master
      · exact h.writeIcw .slave
    · intro cached hcached
      exact ⟨found, hfound, Option.some.inj hcached⟩

lemma right_iff {self : I8259aPic} (h : self.Valid) : self.Right ↔ self.Clear := by
  obtain ⟨found, hfound⟩ := self.findPendingIrq_total
  obtain ⟨ack, after, hack, hline, hserved, -⟩ := acknowledge_spec hfound
  obtain ⟨asked, hasked, hm, hs, -⟩ := hasPendingIrq_spec h hfound
  constructor
  · rintro ⟨pending, asked', ack', after', -, -, -, hack', -, hdelivers, -⟩ hwired
    obtain ⟨rfl, -⟩ := Prod.mk.inj (Option.some.inj (hack.symm.trans hack'))
    have hd := hdelivers hwired
    rw [hline] at hd
    exact (delivers_iff hwired hfound).mp hd
  · intro hclear
    refine ⟨_, asked, ack, after, hasked, hm, hs, hack, ?_, fun hwired => ?_, ?_⟩
    · rw [hline, line_isSome]
    · rw [hline]
      exact (delivers_iff hwired hfound).mpr (hclear hwired)
    · rw [hline]
      exact hserved

/-! ### One Call -/

lemma valid_of_forgotten {self : I8259aPic} (hw : ∀ index, (self.chip index).writeIcw ≤ 4)
    (h : self.irqCache = none) : self.Valid where
  writeIcw := hw
  irqCache cached hcached := by
    rw [h] at hcached
    cases hcached

lemma writeIcw_setChip {self : I8259aPic} {chip : Chip} {index : ChipIndex}
    (h : ∀ index, (self.chip index).writeIcw ≤ 4) (hc : chip.writeIcw ≤ 4) (other : ChipIndex) :
    ((self.setChip chip index).chip other).writeIcw ≤ 4 := by
  cases index <;> cases other
  · exact hc
  · exact h .slave
  · exact h .master
  · exact hc

lemma findPendingIrq_setChip {self : I8259aPic} {index : ChipIndex} {position : ℕ} :
    (self.setChip { self.chip index with writeIcw := position } index).findPendingIrq =
      self.findPendingIrq := by
  cases index
  · exact findPendingIrq_congr rfl rfl
  · exact findPendingIrq_congr rfl rfl

end I8259aPic

lemma Chip.writePort0_spec (self : Chip) (data : Byte) :
    ∃ after, self.writePort0 data = some after ∧ after.writeIcw ≤ 1 ∧
      (data &&& 0x18 = 0 ∧ data &&& ocw2Sl = 0 ∧ self.isr = 0 →
        after = { self with writeIcw := 0 }) := by
  unfold writePort0
  simp only
  split_ifs with h2 h3
  · -- the end of interrupt is for a level in service, or none is
    obtain ⟨level, hlevel, hnone⟩ : ∃ level, eoiLevel { self with writeIcw := 0 } data =
        some level ∧ (data &&& ocw2Sl = 0 ∧ self.isr = 0 → level = none) := by
      unfold eoiLevel
      split_ifs with hsl hisr
      · exact ⟨_, rfl, fun h => absurd h.1 hsl⟩
      · exact ⟨_, rfl, fun _ => rfl⟩
      · obtain ⟨level, hlevel, -⟩ := firstLevel_spec self.pry (ne_zero_iff.mp hisr)
        exact ⟨_, congrArg (Option.map some) hlevel, fun h => absurd h.2 hisr⟩
    unfold writeOcw2
    rw [hlevel]
    cases level with
    | none => exact ⟨_, rfl, Nat.zero_le _, fun _ => rfl⟩
    | some level =>
      refine ⟨_, rfl, ?_, fun h => by cases hnone h.2⟩
      dsimp only
      split_ifs <;> exact Nat.zero_le _
  · exact ⟨_, rfl, Nat.zero_le _, fun h => absurd h.1 h2⟩
  · exact ⟨_, rfl, Nat.le_refl _, fun h => absurd h.1 h2⟩

lemma Chip.writePort2_spec {self : Chip} (data : Byte) (h : self.writeIcw ≤ 4) :
    (self.writeIcw < 4 ∧ ∃ after, self.writePort2 data = some after ∧ after.writeIcw ≤ 4) ∨
      self.writeIcw = 4 ∧ self.writePort2 data = none := by
  unfold writePort2
  split_ifs with h0 h4
  · exact .inl ⟨by omega, _, rfl, h⟩
  · refine .inl ⟨h4, _, rfl, ?_⟩
    dsimp only
    split_ifs
    · exact Nat.zero_le _
    · exact h4
  · exact .inr ⟨by omega, rfl⟩

namespace I8259aPic

/-- A call is in range if it does not write past the end of an initialization sequence. -/
def InRange (self : I8259aPic) : Call → Prop
  | .writePort2 index _ => (self.chip index).writeIcw < 4
  | _ => True

instance (self : I8259aPic) : (call : Call) → Decidable (self.InRange call)
  | .writePort0 _ _ => inferInstanceAs (Decidable True)
  | .writePort2 index _ => inferInstanceAs (Decidable ((self.chip index).writeIcw < 4))
  | .setIrq _ => inferInstanceAs (Decidable True)
  | .clearIrq _ => inferInstanceAs (Decidable True)
  | .hasPendingIrq => inferInstanceAs (Decidable True)
  | .acknowledge => inferInstanceAs (Decidable True)

lemma setChip_self (self : I8259aPic) (index : ChipIndex) :
    self.setChip (self.chip index) index = self := by
  cases index <;> rfl

lemma irqCache_setChip (self : I8259aPic) (chip : Chip) (index : ChipIndex) :
    (self.setChip chip index).irqCache = self.irqCache := by
  cases index <;> rfl

lemma valid_invalidate {self : I8259aPic} (h : ∀ index, (self.chip index).writeIcw ≤ 4) :
    self.invalidateIrqCache.Valid := by
  refine valid_of_forgotten (fun index => ?_) rfl
  cases index
  · exact h .master
  · exact h .slave

lemma valid_writePort0 {self : I8259aPic} (h : self.Valid) (index : ChipIndex) (data : Byte) :
    ∃ after, self.writePort0 index data = some after ∧ after.Valid := by
  obtain ⟨chip, hchip, hle, hsame⟩ := (self.chip index).writePort0_spec data
  have hw := @writeIcw_setChip self chip index h.writeIcw (hle.trans (by decide))
  unfold writePort0
  rw [hchip]
  dsimp only
  split_ifs with hearly
  · -- nothing is in service: the remembered answer is kept, and still true
    obtain rfl := hsame hearly
    refine ⟨_, rfl, hw, fun cached hcached => ?_⟩
    rw [irqCache_setChip] at hcached
    rw [findPendingIrq_setChip]
    exact h.irqCache cached hcached
  · exact ⟨_, rfl, valid_invalidate hw⟩

lemma writePort2_spec {self : I8259aPic} (h : self.Valid) (index : ChipIndex) (data : Byte) :
    ((self.chip index).writeIcw < 4 ∧
        ∃ after, self.writePort2 index data = some after ∧ after.Valid) ∨
      (self.chip index).writeIcw = 4 ∧ self.writePort2 index data = none := by
  unfold writePort2
  obtain ⟨hlt, chip, hchip, hle⟩ | ⟨he, hchip⟩ :=
    Chip.writePort2_spec data (h.writeIcw index)
  · rw [hchip]
    exact .inl ⟨hlt, _, rfl, valid_invalidate (writeIcw_setChip h.writeIcw hle)⟩
  · rw [hchip]
    exact .inr ⟨he, rfl⟩

lemma valid_setIrq {self : I8259aPic} (h : self.Valid) (irq : Byte) : (self.setIrq irq).2.Valid := by
  have hw := @writeIcw_setChip self ((self.chip (chipOf irq)).request (lowLevel irq)).2
    (chipOf irq) h.writeIcw (h.writeIcw (chipOf irq))
  unfold setIrq
  dsimp only
  split_ifs with hchanged
  · exact valid_invalidate hw
  · -- the request was there already
    have hhas : Has (self.chip (chipOf irq)).irr (lowLevel irq) := by
      simpa [Chip.request, Has] using hchanged
    have hsame : ((self.chip (chipOf irq)).request (lowLevel irq)).2 = self.chip (chipOf irq) := by
      unfold Chip.request
      rw [or_bit_of_has hhas]
    rw [hsame, setChip_self]
    exact h

lemma valid_clearIrq {self : I8259aPic} (h : self.Valid) (irq : Byte) :
    (self.clearIrq irq).2.Valid := by
  have hw := @writeIcw_setChip self ((self.chip (chipOf irq)).withdraw (lowLevel irq)).2
    (chipOf irq) h.writeIcw (h.writeIcw (chipOf irq))
  unfold clearIrq
  dsimp only
  split_ifs with hchanged
  · exact valid_invalidate hw
  · -- there was no request
    have hhas : ¬ Has (self.chip (chipOf irq)).irr (lowLevel irq) := by
      simpa [Chip.withdraw, Has] using hchanged
    have hsame : ((self.chip (chipOf irq)).withdraw (lowLevel irq)).2 =
        self.chip (chipOf irq) := by
      unfold Chip.withdraw
      rw [and_not_bit_of_not_has hhas]
    rw [hsame, setChip_self]
    exact h

lemma valid_hasPendingIrq {self : I8259aPic} (h : self.Valid) :
    ∃ asked, self.hasPendingIrq.map Prod.snd = some asked ∧ asked.Valid := by
  obtain ⟨found, hfound⟩ := self.findPendingIrq_total
  obtain ⟨asked, hasked, -, -, hvalid⟩ := hasPendingIrq_spec h hfound
  exact ⟨asked, congrArg (Option.map Prod.snd) hasked, hvalid⟩

lemma valid_acknowledge {self : I8259aPic} (h : self.Valid) :
    ∃ after, self.acknowledgeWithLine.map Prod.snd = some after ∧ after.Valid := by
  obtain ⟨found, hfound⟩ := self.findPendingIrq_total
  obtain ⟨ack, after, hack, -, -, hcache, hw⟩ := acknowledge_spec hfound
  refine ⟨after, congrArg (Option.map Prod.snd) hack, valid_of_forgotten (fun index => ?_) hcache⟩
  rw [hw]
  exact h.writeIcw index

lemma valid_of_start {self : I8259aPic} (h : Start self) : self.Valid := by
  cases h with
  | new => exact valid_of_forgotten (fun index => by cases index <;> decide) rfl
  | newZeroed => exact valid_of_forgotten (fun index => by cases index <;> decide) rfl
  | @restored pic _ master slave hr =>
    have hrange : ∀ {state : ChipState} {chip : Chip}, state.restore = some chip →
        chip.writeIcw ≤ 4 := by
      intro state chip hs
      unfold ChipState.restore at hs
      split_ifs at hs with hpry hicw
      obtain rfl := Option.some.inj hs
      exact Nat.not_lt.mp hicw
    unfold restoreState at hr
    cases hm : master.restore with
    | none => simp [hm] at hr
    | some m =>
      cases hs : slave.restore with
      | none => simp [hm, hs] at hr
      | some s =>
        simp only [hm, hs, Option.bind_eq_bind, Option.bind_some, Option.pure_def,
          Option.some.injEq] at hr
        subst hr
        refine valid_of_forgotten (fun index => ?_) rfl
        cases index
        · exact hrange hm
        · exact hrange hs

end I8259aPic

/-! ### Runs -/

/-- A call that is in range succeeds and keeps the state valid, and no other call succeeds. -/
lemma Call.run_spec {pic : I8259aPic} (h : pic.Valid) (call : Call) :
    (pic.InRange call ∧ ∃ pic', call.run pic = some pic' ∧ pic'.Valid) ∨
      ¬ pic.InRange call ∧ call.run pic = none := by
  cases call with
  | writePort0 index data => exact .inl ⟨trivial, I8259aPic.valid_writePort0 h index data⟩
  | writePort2 index data =>
    exact (I8259aPic.writePort2_spec h index data).imp_right fun ⟨he, hnone⟩ =>
      ⟨fun hlt => Nat.ne_of_lt hlt he, hnone⟩
  | setIrq irq => exact .inl ⟨trivial, _, rfl, I8259aPic.valid_setIrq h irq⟩
  | clearIrq irq => exact .inl ⟨trivial, _, rfl, I8259aPic.valid_clearIrq h irq⟩
  | hasPendingIrq => exact .inl ⟨trivial, I8259aPic.valid_hasPendingIrq h⟩
  | acknowledge => exact .inl ⟨trivial, I8259aPic.valid_acknowledge h⟩

/-- No call fails, and every state of the run is right. -/
def RunsRight : I8259aPic → List Call → Prop
  | pic, [] => pic.Right
  | pic, call :: calls => pic.Right ∧ ∃ pic', call.run pic = some pic' ∧ RunsRight pic' calls

/-- Every call is in range, and the slave's line is stuck in no state of the run. -/
def RunsClear : I8259aPic → List Call → Prop
  | pic, [] => pic.Clear
  | pic, call :: calls => pic.Clear ∧ pic.InRange call ∧
    match call.run pic with
    | none => True
    | some pic' => RunsClear pic' calls

instance : (pic : I8259aPic) → (calls : List Call) → Decidable (RunsClear pic calls)
  | pic, [] => inferInstanceAs (Decidable pic.Clear)
  | pic, call :: calls =>
    have : Decidable (match call.run pic with
        | none => True
        | some pic' => RunsClear pic' calls) :=
      match call.run pic with
      | none => isTrue trivial
      | some pic' => instDecidableRunsClear pic' calls
    inferInstanceAs (Decidable (_ ∧ _ ∧ _))

lemma runsRight_iff {pic : I8259aPic} (h : pic.Valid) (calls : List Call) :
    RunsRight pic calls ↔ RunsClear pic calls := by
  induction calls generalizing pic with
  | nil => exact I8259aPic.right_iff h
  | cons call calls ih =>
    refine and_congr (I8259aPic.right_iff h) ?_
    obtain ⟨hin, pic', hrun, hvalid⟩ | ⟨hout, hrun⟩ := call.run_spec h
    · rw [hrun]
      constructor
      · rintro ⟨_, ⟨⟩, hright⟩
        exact ⟨hin, (ih hvalid).mp hright⟩
      · rintro ⟨-, hclear⟩
        exact ⟨pic', rfl, (ih hvalid).mpr hclear⟩
    · rw [hrun]
      refine iff_of_false ?_ fun hclear => hout hclear.1
      rintro ⟨_, ⟨⟩, -⟩

/-- **A run of the controllers is right exactly when it stays in range and the slave's line is
never stuck.** -/
theorem runs_right_iff {pic : I8259aPic} (h : Start pic) (calls : List Call) :
    RunsRight pic calls ↔ RunsClear pic calls := runsRight_iff (I8259aPic.valid_of_start h) calls

/-- A keyboard request and one of the slave. -/
theorem runs_right_of_both :
    Start .new ∧ RunsRight .new [.setIrq 9, .setIrq 1, .hasPendingIrq, .acknowledge] :=
  ⟨.new, (runs_right_iff .new _).mpr (by decide)⟩

/-- A slave request that its chip holds back delays one of the master that nothing does. -/
def delayingCalls : List Call :=
  [.setIrq 9, .acknowledge, .writePort0 .master 0x20, .setIrq 10, .writePort0 .master 0xC6,
    .setIrq 1]

theorem not_runsRight_delayed : ¬ RunsRight .new delayingCalls := by
  rw [runsRight_iff (I8259aPic.valid_of_start .new)]
  decide

end Neetan.Pic
