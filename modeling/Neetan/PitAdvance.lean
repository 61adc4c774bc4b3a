import Neetan.Pit
import Mathlib.Algebra.Order.Group.Nat
import Mathlib.Order.Basic
import Mathlib.Tactic.ByContra

/-!
The step of timer 0 at the end of a period.

The step moves the load to the cycle of the fire event, which is the end of the period rounded
down to a cycle. The reports stay if the end is a cycle and the pin comes out as it is after a
whole period.
-/

namespace Neetan.Pit

open MachineInt

namespace Channel

variable (ch : Channel) (cpuClockHz pitClockHz : ℕ)

/-- No other reload value waits for the end of the period. -/
def Settled : Prop := ch.reloadPending.getD ch.value = ch.value

/-- The cycle at which timer 0 fires for the period since its load. -/
def periodEnd : ℕ := ch.lastLoadCycle + ch.timer0PeriodCycles cpuClockHz pitClockHz

/-- From the end of the period on, the step of timer 0 changes neither count nor output pin, as
long as the products before and after it are `u64` values. -/
def AdvanceQuiet : Prop :=
  ∀ t, ch.periodEnd cpuClockHz pitClockHz ≤ t →
    (t - ch.lastLoadCycle) * pitClockHz < 2 ^ 64 →
    let advanced := (ch.advanceTimer0 (ch.periodEnd cpuClockHz pitClockHz)).2
    advanced.getCount t cpuClockHz pitClockHz = ch.getCount t cpuClockHz pitClockHz ∧
      advanced.getOutput t cpuClockHz pitClockHz = ch.getOutput t cpuClockHz pitClockHz

/-- When the step changes nothing. Mode 0: the period is shorter than a cycle and the pin is high
already, or a cycle is the longest period, which starts again where it ended. Mode 2: the period
is shorter than a cycle, or it ends with a cycle and the pin is as it is after it. Mode 3: the
period ends with a cycle, and the pin was left low, which the step turns round. -/
def Seamless : Prop :=
  let period := ch.countPeriod
  let cycles := ch.timer0PeriodCycles cpuClockHz pitClockHz
  if ch.mode = 0 then
    cycles = 0 ∧ ch.output = true ∨ pitClockHz = period * cpuClockHz ∧ ch.value = 0
  else if ch.mode = 2 then
    cycles = 0 ∨ period = 1 ∧ ch.output = false ∨
      2 ≤ period ∧ pitClockHz ∣ period * cpuClockHz ∧ ch.output = true ∧ ¬ ch.LongestBcd
  else
    cycles ≠ 0 ∧ ch.output = false ∧ (period = 1 ∨ pitClockHz ∣ period * cpuClockHz) ∧
      ¬ ch.LongestBcd

/-! ### By the cycles since the load -/

/-- The count after a number of cycles. -/
def countAfter (elapsed : ℕ) : Word :=
  if elapsed = 0 then ch.value else ch.register (ch.binaryCount (elapsed * pitClockHz / cpuClockHz))

/-- The output pin after a number of cycles. -/
def outputAfter (elapsed : ℕ) : Bool :=
  if elapsed = 0 then ch.output else ch.outputAt (elapsed * pitClockHz / cpuClockHz)

variable {ch cpuClockHz pitClockHz}

lemma getCount_eq {t : ℕ} (fits : (t - ch.lastLoadCycle) * pitClockHz < 2 ^ 64) :
    ch.getCount t cpuClockHz pitClockHz =
      some (ch.countAfter cpuClockHz pitClockHz (t - ch.lastLoadCycle)) := by
  unfold getCount countAfter
  dsimp only
  split
  · rfl
  · rw [checkedMul, if_pos fits, Option.map_some]

lemma getOutput_eq {t : ℕ} (fits : (t - ch.lastLoadCycle) * pitClockHz < 2 ^ 64) :
    ch.getOutput t cpuClockHz pitClockHz =
      some (ch.outputAfter cpuClockHz pitClockHz (t - ch.lastLoadCycle)) := by
  unfold getOutput outputAfter
  dsimp only
  split
  · rfl
  · rw [checkedMul, if_pos fits, Option.map_some]

/-- The pin that the step leaves. -/
def advancedOutput (ch : Channel) : Bool :=
  if ch.mode = 0 then true else if ch.mode = 3 then !ch.output else ch.output

variable (ch cpuClockHz pitClockHz) in
/-- What the channel reports `e` cycles behind the end of the period, with and without the step. -/
def SameAt (e : ℕ) : Prop :=
  ch.countAfter cpuClockHz pitClockHz e =
      ch.countAfter cpuClockHz pitClockHz (e + ch.timer0PeriodCycles cpuClockHz pitClockHz) ∧
    (if e = 0 then ch.advancedOutput else ch.outputAt (e * pitClockHz / cpuClockHz)) =
      ch.outputAfter cpuClockHz pitClockHz (e + ch.timer0PeriodCycles cpuClockHz pitClockHz)

/-- **The step is quiet if every later cycle counts as it did, and so does the pin.** -/
theorem advanceQuiet_iff (counting : ch.Counting) (settled : ch.Settled) :
    ch.AdvanceQuiet cpuClockHz pitClockHz ↔
      ∀ e, (e + ch.timer0PeriodCycles cpuClockHz pitClockHz) * pitClockHz < 2 ^ 64 →
        ch.SameAt cpuClockHz pitClockHz e := by
  unfold SameAt
  generalize cycles_eq : ch.timer0PeriodCycles cpuClockHz pitClockHz = cycles
  have end_eq : ch.periodEnd cpuClockHz pitClockHz = ch.lastLoadCycle + cycles := by
    rw [periodEnd, cycles_eq]
  have step (e : ℕ) (fits : (e + cycles) * pitClockHz < 2 ^ 64) :
      let advanced := (ch.advanceTimer0 (ch.lastLoadCycle + cycles)).2
      let t := ch.lastLoadCycle + cycles + e
      advanced.getCount t cpuClockHz pitClockHz =
          some (ch.countAfter cpuClockHz pitClockHz e) ∧
        advanced.getOutput t cpuClockHz pitClockHz =
          some (if e = 0 then ch.advancedOutput
            else ch.outputAt (e * pitClockHz / cpuClockHz)) := by
    intro advanced t
    have elapsed : t - advanced.lastLoadCycle = e := Nat.add_sub_cancel_left _ e
    have fits' : (t - advanced.lastLoadCycle) * pitClockHz < 2 ^ 64 := by
      rw [elapsed]
      exact (Nat.mul_le_mul_right _ (Nat.le_add_right e cycles)).trans_lt fits
    have value_eq : advanced.value = ch.value := settled
    have period_eq : advanced.countPeriod = ch.countPeriod := by
      unfold countPeriod
      rw [value_eq]
      rfl
    have count_eq (k : ℕ) : advanced.binaryCount k = ch.binaryCount k := by
      unfold binaryCount
      rw [period_eq]
      rfl
    have register_eq (k : ℕ) : advanced.register k = ch.register k := rfl
    have output_eq (k : ℕ) : advanced.outputAt k = ch.outputAt k := by
      have counting' : advanced.Counting :=
        ⟨counting.mode_eq, fun decimal => value_eq ▸ counting.digits decimal⟩
      rw [outputAt_eq counting, outputAt_eq counting', element, element, period_eq]
      rfl
    rw [getCount_eq fits', getOutput_eq fits', elapsed]
    unfold countAfter outputAfter
    rw [value_eq, register_eq, count_eq, output_eq]
    exact ⟨rfl, rfl⟩
  unfold AdvanceQuiet
  rw [end_eq]
  constructor
  · intro quiet e fits
    have elapsed : ch.lastLoadCycle + cycles + e - ch.lastLoadCycle = e + cycles := by omega
    have here := quiet (ch.lastLoadCycle + cycles + e) (Nat.le_add_right _ _) (by rwa [elapsed])
    dsimp only at here
    rw [(step e fits).1, (step e fits).2, getCount_eq (by rwa [elapsed]),
      getOutput_eq (by rwa [elapsed]), elapsed, Option.some.injEq, Option.some.injEq] at here
    exact here
  · intro quiet t late fits
    obtain ⟨e, rfl⟩ := Nat.exists_eq_add_of_le late
    have elapsed : ch.lastLoadCycle + cycles + e - ch.lastLoadCycle = e + cycles := by omega
    rw [elapsed] at fits
    have here := quiet e fits
    dsimp only
    rw [(step e fits).1, (step e fits).2, getCount_eq (by rwa [elapsed]),
      getOutput_eq (by rwa [elapsed]), elapsed, Option.some.injEq, Option.some.injEq]
    exact here

/-! ### Places of the element -/

lemma element_count_pos (ch : Channel) (periodic : ch.mode = 2 ∨ ch.mode = 3) (k : ℕ) :
    0 < (ch.element k).count := by
  have pos := ch.countPeriod_pos
  have lt := Nat.mod_lt k pos
  unfold element
  obtain two | three := periodic
  · rw [two, Element.after_two pos]
    exact Nat.sub_pos_of_lt lt
  · rw [three, Element.after_three pos]
    unfold Element.square
    dsimp only
    split_ifs <;> dsimp only <;> omega

lemma element_add_period (ch : Channel) (periodic : ch.mode = 2 ∨ ch.mode = 3) (k : ℕ) :
    ch.element (k + ch.countPeriod) = ch.element k := by
  have pos := ch.countPeriod_pos
  unfold element
  obtain two | three := periodic
  · rw [two, Element.after_two pos, Element.after_two pos, Nat.add_mod_right]
  · rw [three, Element.after_three pos, Element.after_three pos, Nat.add_mod_right]

lemma register_injective (counting : ch.Counting) {x y : ℕ} (x_pos : 0 < x) (y_pos : 0 < y)
    (x_le : x ≤ ch.countPeriod) (y_le : y ≤ ch.countPeriod)
    (same : ch.register x = ch.register y) : x = y := by
  have period_le := countPeriod_le counting
  unfold register at same
  by_cases decimal : ch.isBcd
  · rw [if_pos decimal] at period_le
    rw [if_pos decimal, if_pos decimal] at same
    exact binaryToBcd_injective (by omega) (by omega) same
  · rw [if_neg decimal] at period_le
    rw [if_neg decimal, if_neg decimal, ← BitVec.toNat_inj, BitVec.toNat_ofNat,
      BitVec.toNat_ofNat] at same
    omega

/-- The reload value is shown at the whole count only, and not for the longest decimal one. -/
lemma value_eq_register_iff (counting : ch.Counting) {count : ℕ} (count_pos : 0 < count)
    (count_le : count ≤ ch.countPeriod) :
    ch.value = ch.register count ↔ ¬ ch.LongestBcd ∧ count = ch.countPeriod := by
  by_cases longest : ch.LongestBcd
  · refine iff_of_false (fun same => ?_) fun both => both.1 longest
    have period_le := countPeriod_le counting
    rw [if_pos longest.1] at period_le
    rw [longest.2, register, if_pos longest.1] at same
    have zero : (0 : Word) = binaryToBcd 0 := by decide
    rw [zero] at same
    exact count_pos.ne (binaryToBcd_injective (by decide) (by omega) same)
  · have whole := (register_eq_shows_iff counting le_rfl).2 fun both => longest both.1
    rw [shows_countPeriod counting] at whole
    rw [and_iff_right longest, ← whole]
    constructor
    · exact fun same => (register_injective counting ch.countPeriod_pos count_pos le_rfl count_le
        same).symm
    · rintro rfl
      rfl

/-! ### Cycles of a period -/

section Cycles

variable (ch)

lemma cycles_mul_le :
    ch.timer0PeriodCycles cpuClockHz pitClockHz * pitClockHz ≤ ch.countPeriod * cpuClockHz :=
  Nat.div_mul_le_self _ _

lemma lt_succ_cycles_mul (pit_pos : 0 < pitClockHz) :
    ch.countPeriod * cpuClockHz <
      (ch.timer0PeriodCycles cpuClockHz pitClockHz + 1) * pitClockHz := by
  rw [Nat.mul_comm _ pitClockHz]
  exact Nat.lt_mul_div_succ _ pit_pos

lemma cycles_mul_eq (whole : pitClockHz ∣ ch.countPeriod * cpuClockHz) :
    ch.timer0PeriodCycles cpuClockHz pitClockHz * pitClockHz = ch.countPeriod * cpuClockHz :=
  Nat.div_mul_cancel whole

lemma ticks_add_cycles (cpu_pos : 0 < cpuClockHz)
    (whole : pitClockHz ∣ ch.countPeriod * cpuClockHz) (e : ℕ) :
    (e + ch.timer0PeriodCycles cpuClockHz pitClockHz) * pitClockHz / cpuClockHz =
      e * pitClockHz / cpuClockHz + ch.countPeriod := by
  rw [Nat.add_mul, ch.cycles_mul_eq whole, Nat.add_mul_div_right _ _ cpu_pos]

lemma ticks_of_not_whole (cpu_pos : 0 < cpuClockHz)
    (broken : ¬ pitClockHz ∣ ch.countPeriod * cpuClockHz) :
    ch.timer0PeriodCycles cpuClockHz pitClockHz * pitClockHz / cpuClockHz < ch.countPeriod := by
  rw [Nat.div_lt_iff_lt_mul cpu_pos]
  refine lt_of_le_of_ne (ch.cycles_mul_le) fun same => broken ?_
  exact ⟨_, (same.symm.trans (Nat.mul_comm _ _))⟩

lemma ticks_pos (cpu_pos : 0 < cpuClockHz) (pit_pos : 0 < pitClockHz) (long : 2 ≤ ch.countPeriod)
    (some : ch.timer0PeriodCycles cpuClockHz pitClockHz ≠ 0) :
    0 < ch.timer0PeriodCycles cpuClockHz pitClockHz * pitClockHz / cpuClockHz := by
  refine Nat.div_pos ?_ cpu_pos
  have next := @lt_succ_cycles_mul ch cpuClockHz pitClockHz pit_pos
  have least : pitClockHz ≤ ch.timer0PeriodCycles cpuClockHz pitClockHz * pitClockHz :=
    Nat.le_mul_of_pos_left _ (Nat.pos_of_ne_zero some)
  have twice : 2 * cpuClockHz ≤ ch.countPeriod * cpuClockHz := Nat.mul_le_mul_right _ long
  rw [Nat.add_mul, Nat.one_mul] at next
  omega

lemma cycles_ne_zero (cpu_pos : 0 < cpuClockHz)
    (whole : pitClockHz ∣ ch.countPeriod * cpuClockHz) :
    ch.timer0PeriodCycles cpuClockHz pitClockHz ≠ 0 := by
  intro none
  have eq := ch.cycles_mul_eq whole
  rw [none, Nat.zero_mul] at eq
  exact (Nat.mul_pos ch.countPeriod_pos cpu_pos).ne eq

/-- At the end of a period that ends with a cycle stands the element of the load. -/
lemma element_whole (cpu_pos : 0 < cpuClockHz) (periodic : ch.mode = 2 ∨ ch.mode = 3)
    (whole : pitClockHz ∣ ch.countPeriod * cpuClockHz) :
    ch.element (ch.timer0PeriodCycles cpuClockHz pitClockHz * pitClockHz / cpuClockHz) =
      ch.element 0 := by
  have shift := ch.ticks_add_cycles cpu_pos whole 0
  rw [Nat.zero_add, Nat.zero_mul, Nat.zero_div, Nat.zero_add] at shift
  have periodic_eq := ch.element_add_period periodic 0
  rw [Nat.zero_add] at periodic_eq
  rw [shift, periodic_eq]

lemma element_of_one (periodic : ch.mode = 2 ∨ ch.mode = 3) (one : ch.countPeriod = 1) (k : ℕ) :
    ch.element k = ch.element 0 := by
  induction k with
  | zero => rfl
  | succ k ih =>
    have next := ch.element_add_period periodic k
    rw [one] at next
    rw [next, ih]

/-- The element at the end of a period of one tick, or of one that ends with a cycle. -/
lemma element_at_end (cpu_pos : 0 < cpuClockHz) (periodic : ch.mode = 2 ∨ ch.mode = 3)
    (whole : ch.countPeriod = 1 ∨ pitClockHz ∣ ch.countPeriod * cpuClockHz) :
    ch.element (ch.timer0PeriodCycles cpuClockHz pitClockHz * pitClockHz / cpuClockHz) =
      ch.element 0 := by
  obtain one | whole := whole
  · exact ch.element_of_one periodic one _
  · exact ch.element_whole cpu_pos periodic whole

lemma element_zero_done (zero : ch.mode = 0) {k : ℕ} (done : ch.countPeriod ≤ k) :
    ch.element k = ⟨0, true⟩ := by
  rw [element, zero, Element.after_zero ch.countPeriod_pos, Nat.sub_eq_zero_of_le done,
    decide_eq_true done]

lemma register_zero : ch.register 0 = 0 := by
  unfold register
  split
  · decide
  · rfl

end Cycles

lemma square_injective {period i j : ℕ} (long : 2 ≤ period) (i_lt : i < period)
    (j_lt : j < period) (same : Element.square period i = Element.square period j) : i = j := by
  unfold Element.square at same
  dsimp only at same
  split_ifs at same <;> simp only [Element.mk.injEq, and_true, and_false, reduceCtorEq] at same <;>
    omega

lemma mod_add_ne {period place ticks : ℕ} (pos : 0 < ticks) (lt : ticks < period) :
    place % period ≠ (place + ticks) % period := by
  intro same
  have rest := Nat.sub_mod_eq_zero_of_mod_eq same.symm
  rw [Nat.add_sub_cancel_left, Nat.mod_eq_of_lt lt] at rest
  omega

lemma advancedOutput_three (three : ch.mode = 3) : ch.advancedOutput = !ch.output := by
  rw [advancedOutput, three]
  rfl

/-! ### The modes -/

section Modes

variable (counting : ch.Counting)

include counting

lemma countAfter_of_pos {e : ℕ} (some : e ≠ 0) :
    ch.countAfter cpuClockHz pitClockHz e =
      ch.register (ch.element (e * pitClockHz / cpuClockHz)).count := by
  rw [countAfter, if_neg some, binaryCount_eq counting]

lemma outputAfter_of_pos {e : ℕ} (some : e ≠ 0) :
    ch.outputAfter cpuClockHz pitClockHz e =
      (ch.element (e * pitClockHz / cpuClockHz)).output := by
  rw [outputAfter, if_neg some, outputAt_eq counting]

lemma cycles_mul_small (cpu_lt : cpuClockHz < 2 ^ 32) :
    ch.timer0PeriodCycles cpuClockHz pitClockHz * pitClockHz ≤ 2 ^ 48 := by
  have period_le := countPeriod_le counting
  have le := @cycles_mul_le ch cpuClockHz pitClockHz
  have period_le' : ch.countPeriod ≤ 0x10000 := by
    split at period_le <;> omega
  have most := Nat.mul_le_mul period_le' cpu_lt.le
  omega

lemma cycles_fit (cpu_lt : cpuClockHz < 2 ^ 32) :
    (0 + ch.timer0PeriodCycles cpuClockHz pitClockHz) * pitClockHz < 2 ^ 64 := by
  have small := @cycles_mul_small ch cpuClockHz pitClockHz counting cpu_lt
  rw [Nat.zero_add]
  omega

lemma sameAt_zero_iff (some : ch.timer0PeriodCycles cpuClockHz pitClockHz ≠ 0) :
    ch.SameAt cpuClockHz pitClockHz 0 ↔
      let last := ch.element
        (ch.timer0PeriodCycles cpuClockHz pitClockHz * pitClockHz / cpuClockHz)
      ch.value = ch.register last.count ∧ ch.advancedOutput = last.output := by
  rw [SameAt, Nat.zero_add, countAfter_of_pos counting some, outputAfter_of_pos counting some,
    if_pos rfl, countAfter, if_pos rfl]

lemma sameAt_later_iff {e : ℕ} (later : e ≠ 0) :
    ch.SameAt cpuClockHz pitClockHz e ↔
      let here := ch.element (e * pitClockHz / cpuClockHz)
      let there := ch.element
        ((e + ch.timer0PeriodCycles cpuClockHz pitClockHz) * pitClockHz / cpuClockHz)
      ch.register here.count = ch.register there.count ∧ here.output = there.output := by
  rw [SameAt, countAfter_of_pos counting later, countAfter_of_pos counting (by omega),
    outputAfter_of_pos counting (by omega), if_neg later, outputAt_eq counting]

/-- A period that ends with a cycle leaves everything behind its end as it is. -/
lemma sameAt_succ_of_whole (cpu_pos : 0 < cpuClockHz) (periodic : ch.mode = 2 ∨ ch.mode = 3)
    (whole : pitClockHz ∣ ch.countPeriod * cpuClockHz) (e : ℕ) :
    ch.SameAt cpuClockHz pitClockHz (e + 1) := by
  rw [sameAt_later_iff counting (Nat.succ_ne_zero e), ch.ticks_add_cycles cpu_pos whole,
    ch.element_add_period periodic]
  exact ⟨rfl, rfl⟩

lemma sameAt_succ_of_one (periodic : ch.mode = 2 ∨ ch.mode = 3) (one : ch.countPeriod = 1)
    (e : ℕ) : ch.SameAt cpuClockHz pitClockHz (e + 1) := by
  rw [sameAt_later_iff counting (Nat.succ_ne_zero e), ch.element_of_one periodic one,
    ch.element_of_one periodic one (_ / _)]
  exact ⟨rfl, rfl⟩

theorem quiet_two (cpu_pos : 0 < cpuClockHz) (pit_pos : 0 < pitClockHz)
    (cpu_lt : cpuClockHz < 2 ^ 32) (two : ch.mode = 2) :
    (∀ e, (e + ch.timer0PeriodCycles cpuClockHz pitClockHz) * pitClockHz < 2 ^ 64 →
        ch.SameAt cpuClockHz pitClockHz e) ↔
      ch.timer0PeriodCycles cpuClockHz pitClockHz = 0 ∨
        ch.countPeriod = 1 ∧ ch.output = false ∨
        2 ≤ ch.countPeriod ∧ pitClockHz ∣ ch.countPeriod * cpuClockHz ∧ ch.output = true ∧
          ¬ ch.LongestBcd := by
  have pos := ch.countPeriod_pos
  have stays : ch.advancedOutput = ch.output := by
    rw [advancedOutput, two]
    rfl
  have place (k : ℕ) : ch.element k = Element.rate ch.countPeriod (k % ch.countPeriod) := by
    rw [element, two, Element.after_two pos]
  constructor
  · intro quiet
    by_cases none : ch.timer0PeriodCycles cpuClockHz pitClockHz = 0
    · exact .inl none
    have first := (sameAt_zero_iff counting none).1 (quiet 0 (cycles_fit counting cpu_lt))
    obtain ⟨count_eq, output_eq⟩ := first
    rw [value_eq_register_iff counting (ch.element_count_pos (.inl two) _)
      (element_count_le counting _)] at count_eq
    obtain ⟨short, full⟩ := count_eq
    rw [stays, place] at output_eq
    rw [place] at full
    have start : ch.timer0PeriodCycles cpuClockHz pitClockHz * pitClockHz / cpuClockHz %
        ch.countPeriod = 0 := by
      unfold Element.rate at full
      dsimp only at full
      omega
    rw [start] at output_eq
    by_cases long : 2 ≤ ch.countPeriod
    · refine .inr (.inr ⟨long, ?_, ?_, short⟩)
      · by_contra broken
        have less := ch.ticks_of_not_whole cpu_pos broken
        rw [Nat.mod_eq_of_lt less] at start
        exact (ch.ticks_pos cpu_pos pit_pos long none).ne' start
      · rw [output_eq]
        exact decide_eq_true (by omega)
    · refine .inr (.inl ⟨by omega, ?_⟩)
      rw [output_eq]
      exact decide_eq_false (by omega)
  · rintro (none | ⟨one, low⟩ | ⟨long, whole, high, short⟩) e -
    · -- the load stays where it is
      rw [SameAt, none, Nat.add_zero]
      refine ⟨rfl, ?_⟩
      rw [outputAfter, stays]
    · cases e with
      | succ e => exact sameAt_succ_of_one counting (.inl two) one e
      | zero =>
        by_cases none : ch.timer0PeriodCycles cpuClockHz pitClockHz = 0
        · rw [SameAt, none, Nat.add_zero]
          refine ⟨rfl, ?_⟩
          rw [outputAfter, stays]
        have short : ¬ ch.LongestBcd := by
          rintro ⟨decimal, zero⟩
          rw [(countPeriod_eq_longest counting decimal).2 zero] at one
          exact absurd one (by decide)
        rw [sameAt_zero_iff counting none, stays, low]
        dsimp only
        rw [value_eq_register_iff counting (ch.element_count_pos (.inl two) _)
          (element_count_le counting _), place, one, Nat.mod_one]
        exact ⟨⟨short, rfl⟩, rfl⟩
    · cases e with
      | succ e => exact sameAt_succ_of_whole counting cpu_pos (.inl two) whole e
      | zero =>
        rw [sameAt_zero_iff counting (ch.cycles_ne_zero cpu_pos whole), stays, high,
          ch.element_whole cpu_pos (.inl two) whole]
        dsimp only
        rw [value_eq_register_iff counting (ch.element_count_pos (.inl two) _)
          (element_count_le counting _), place, Nat.zero_mod]
        exact ⟨⟨short, rfl⟩, (decide_eq_true (by omega)).symm⟩

/-- The step of mode 3 shows itself in the period behind it, unless the period ends with a
cycle. -/
lemma whole_of_quiet_three (three : ch.mode = 3) (cpu_pos : 0 < cpuClockHz)
    (pit_pos : 0 < pitClockHz) (some : ch.timer0PeriodCycles cpuClockHz pitClockHz ≠ 0)
    (same : ch.SameAt cpuClockHz pitClockHz cpuClockHz) :
    ch.countPeriod = 1 ∨ pitClockHz ∣ ch.countPeriod * cpuClockHz := by
  have pos := ch.countPeriod_pos
  by_contra neither
  obtain ⟨many, broken⟩ := not_or.1 neither
  have long : 2 ≤ ch.countPeriod := by omega
  have place (k : ℕ) : ch.element k = Element.square ch.countPeriod (k % ch.countPeriod) := by
    rw [element, three, Element.after_three pos]
  rw [sameAt_later_iff counting cpu_pos.ne', Nat.add_mul, Nat.mul_div_cancel_left _ cpu_pos,
    Nat.mul_add_div cpu_pos] at same
  dsimp only at same
  obtain ⟨count_eq, output_eq⟩ := same
  have counts := register_injective counting (ch.element_count_pos (.inr three) _)
    (ch.element_count_pos (.inr three) _) (element_count_le counting _)
    (element_count_le counting _) count_eq
  have elements : ch.element pitClockHz = ch.element (pitClockHz +
      ch.timer0PeriodCycles cpuClockHz pitClockHz * pitClockHz / cpuClockHz) := by
    rw [Element.mk.injEq]
    exact ⟨counts, output_eq⟩
  rw [place, place] at elements
  exact mod_add_ne (ch.ticks_pos cpu_pos pit_pos long some) (ch.ticks_of_not_whole cpu_pos broken)
    (square_injective long (Nat.mod_lt _ pos) (Nat.mod_lt _ pos) elements)

theorem seamless_of_quiet_three (cpu_pos : 0 < cpuClockHz) (pit_pos : 0 < pitClockHz)
    (cpu_lt : cpuClockHz < 2 ^ 32) (three : ch.mode = 3)
    (room : (cpuClockHz + ch.timer0PeriodCycles cpuClockHz pitClockHz) * pitClockHz < 2 ^ 64)
    (quiet : ∀ e, (e + ch.timer0PeriodCycles cpuClockHz pitClockHz) * pitClockHz < 2 ^ 64 →
      ch.SameAt cpuClockHz pitClockHz e) :
    ch.timer0PeriodCycles cpuClockHz pitClockHz ≠ 0 ∧ ch.output = false ∧
      (ch.countPeriod = 1 ∨ pitClockHz ∣ ch.countPeriod * cpuClockHz) ∧ ¬ ch.LongestBcd := by
  have start := quiet 0 (cycles_fit counting cpu_lt)
  have some : ch.timer0PeriodCycles cpuClockHz pitClockHz ≠ 0 := by
    intro none
    have flipped := start.2
    rw [none, if_pos rfl, advancedOutput_three three] at flipped
    exact Bool.not_ne_self _ flipped
  have whole := whole_of_quiet_three counting three cpu_pos pit_pos some (quiet cpuClockHz room)
  obtain ⟨count_eq, output_eq⟩ := (sameAt_zero_iff counting some).1 start
  rw [value_eq_register_iff counting (ch.element_count_pos (.inr three) _)
    (element_count_le counting _)] at count_eq
  refine ⟨some, ?_, whole, count_eq.1⟩
  rw [ch.element_at_end cpu_pos (.inr three) whole, advancedOutput_three three,
    element, three] at output_eq
  exact Bool.not_eq_true' _ ▸ output_eq

theorem quiet_of_seamless_three (cpu_pos : 0 < cpuClockHz) (three : ch.mode = 3)
    (some : ch.timer0PeriodCycles cpuClockHz pitClockHz ≠ 0) (low : ch.output = false)
    (whole : ch.countPeriod = 1 ∨ pitClockHz ∣ ch.countPeriod * cpuClockHz)
    (short : ¬ ch.LongestBcd) (e : ℕ) : ch.SameAt cpuClockHz pitClockHz e := by
  cases e with
  | succ e =>
    obtain one | whole := whole
    · exact sameAt_succ_of_one counting (.inr three) one e
    · exact sameAt_succ_of_whole counting cpu_pos (.inr three) whole e
  | zero =>
    rw [sameAt_zero_iff counting some, ch.element_at_end cpu_pos (.inr three) whole,
      advancedOutput_three three, low]
    dsimp only
    rw [value_eq_register_iff counting (ch.element_count_pos (.inr three) _)
      (element_count_le counting _), element, three]
    exact ⟨⟨short, rfl⟩, rfl⟩

theorem quiet_zero (cpu_pos : 0 < cpuClockHz) (pit_pos : 0 < pitClockHz)
    (cpu_lt : cpuClockHz < 2 ^ 32) (zero : ch.mode = 0) :
    (∀ e, (e + ch.timer0PeriodCycles cpuClockHz pitClockHz) * pitClockHz < 2 ^ 64 →
        ch.SameAt cpuClockHz pitClockHz e) ↔
      ch.timer0PeriodCycles cpuClockHz pitClockHz = 0 ∧ ch.output = true ∨
        pitClockHz = ch.countPeriod * cpuClockHz ∧ ch.value = 0 := by
  have up : ch.advancedOutput = true := by
    rw [advancedOutput, zero]
    rfl
  by_cases none : ch.timer0PeriodCycles cpuClockHz pitClockHz = 0
  · -- the load stays where it is, and the pin goes up
    have long : ch.countPeriod * cpuClockHz < pitClockHz := by
      have next := @lt_succ_cycles_mul ch cpuClockHz pitClockHz pit_pos
      rwa [none, Nat.zero_add, Nat.one_mul] at next
    constructor
    · intro quiet
      have output_eq := (quiet 0 (cycles_fit counting cpu_lt)).2
      rw [none, if_pos rfl, up] at output_eq
      exact .inl ⟨none, output_eq.symm⟩
    · rintro (⟨-, high⟩ | ⟨same, -⟩) e -
      · rw [SameAt, none, Nat.add_zero]
        refine ⟨rfl, ?_⟩
        unfold outputAfter
        rw [up, high]
      · omega
  · have done (e : ℕ) (long : ch.countPeriod * cpuClockHz ≤ e * pitClockHz) :
        ch.element (e * pitClockHz / cpuClockHz) = ⟨0, true⟩ :=
      ch.element_zero_done zero ((Nat.le_div_iff_mul_le cpu_pos).2 long)
    have later (e : ℕ) : ch.element ((e + 1 + ch.timer0PeriodCycles cpuClockHz pitClockHz) *
        pitClockHz / cpuClockHz) = ⟨0, true⟩ := by
      refine done _ (Nat.le_trans (@lt_succ_cycles_mul ch cpuClockHz pitClockHz pit_pos).le ?_)
      exact Nat.mul_le_mul_right _ (by omega)
    have least : pitClockHz ≤ ch.timer0PeriodCycles cpuClockHz pitClockHz * pitClockHz :=
      Nat.le_mul_of_pos_left _ (Nat.pos_of_ne_zero none)
    have small := @cycles_mul_small ch cpuClockHz pitClockHz counting cpu_lt
    have most := @cycles_mul_le ch cpuClockHz pitClockHz
    constructor
    · intro quiet
      -- a cycle behind the end the count is done, so it is done after one cycle
      have next := quiet 1 (by rw [Nat.add_mul]; omega)
      rw [sameAt_later_iff counting Nat.one_ne_zero, later 0, Nat.one_mul, element, zero,
        Element.after_zero ch.countPeriod_pos] at next
      have long := (Nat.le_div_iff_mul_le cpu_pos).1 (of_decide_eq_true next.2)
      have start := ((sameAt_zero_iff counting none).1 (quiet 0 (cycles_fit counting cpu_lt))).1
      rw [done _ (by omega), register_zero] at start
      exact .inr ⟨by omega, start⟩
    · rintro (⟨absent, -⟩ | ⟨same, start⟩) e -
      · exact absurd absent none
      cases e with
      | zero =>
        rw [sameAt_zero_iff counting none, done _ (by omega), up]
        dsimp only
        rw [register_zero]
        exact ⟨start, rfl⟩
      | succ e =>
        rw [sameAt_later_iff counting (Nat.succ_ne_zero e), later, done]
        · exact ⟨rfl, rfl⟩
        · rw [← same]
          exact Nat.le_mul_of_pos_left _ (Nat.succ_pos e)

/-! ### Timer 0 -/

theorem advanceQuiet_of_seamless (cpu_pos : 0 < cpuClockHz) (pit_pos : 0 < pitClockHz)
    (cpu_lt : cpuClockHz < 2 ^ 32) (settled : ch.Settled)
    (seamless : ch.Seamless cpuClockHz pitClockHz) : ch.AdvanceQuiet cpuClockHz pitClockHz := by
  rw [advanceQuiet_iff counting settled]
  unfold Seamless at seamless
  obtain zero | two | three := counting.mode_eq
  · rw [zero] at seamless
    exact (quiet_zero counting cpu_pos pit_pos cpu_lt zero).2 seamless
  · rw [two] at seamless
    exact (quiet_two counting cpu_pos pit_pos cpu_lt two).2 seamless
  · rw [three] at seamless
    obtain ⟨some, low, whole, short⟩ := seamless
    exact fun e _ => quiet_of_seamless_three counting cpu_pos three some low whole short e

theorem seamless_of_advanceQuiet (cpu_pos : 0 < cpuClockHz) (pit_pos : 0 < pitClockHz)
    (cpu_lt : cpuClockHz < 2 ^ 32) (settled : ch.Settled)
    (room : (cpuClockHz + ch.timer0PeriodCycles cpuClockHz pitClockHz) * pitClockHz < 2 ^ 64)
    (quiet : ch.AdvanceQuiet cpuClockHz pitClockHz) : ch.Seamless cpuClockHz pitClockHz := by
  rw [advanceQuiet_iff counting settled] at quiet
  unfold Seamless
  obtain zero | two | three := counting.mode_eq
  · rw [zero]
    exact (quiet_zero counting cpu_pos pit_pos cpu_lt zero).1 quiet
  · rw [two]
    exact (quiet_two counting cpu_pos pit_pos cpu_lt two).1 quiet
  · rw [three]
    exact seamless_of_quiet_three counting cpu_pos pit_pos cpu_lt three room quiet

end Modes

/-- **A channel that counts reports what its element does at exactly the faithful cycles, and the
step of timer 0 at the end of a period stays out of sight if it is seamless, and only then where a
second's ticks fit into the product.** -/
theorem reports_and_advance_iff (ch : Channel) (counting : ch.Counting) (cpuClockHz pitClockHz : ℕ)
    (cpu_pos : 0 < cpuClockHz) (pit_pos : 0 < pitClockHz) (cpu_lt : cpuClockHz < 2 ^ 32) :
    (∀ t, ch.Reports t cpuClockHz pitClockHz ↔ ch.Faithful t cpuClockHz pitClockHz) ∧
      (ch.Settled →
        (ch.Seamless cpuClockHz pitClockHz → ch.AdvanceQuiet cpuClockHz pitClockHz) ∧
        ((cpuClockHz + ch.timer0PeriodCycles cpuClockHz pitClockHz) * pitClockHz < 2 ^ 64 →
          ch.AdvanceQuiet cpuClockHz pitClockHz → ch.Seamless cpuClockHz pitClockHz)) :=
  ⟨fun t => reports_iff counting t cpuClockHz pitClockHz, fun settled =>
    ⟨advanceQuiet_of_seamless counting cpu_pos pit_pos cpu_lt settled, fun room quiet =>
      seamless_of_advanceQuiet counting cpu_pos pit_pos cpu_lt settled room quiet⟩⟩

/-- A square wave of 100 Hz, as it stands when it is loaded. -/
def hundredHertz : Channel := ⟨0x36, 0x20, 24576, 0, true, none⟩

/-- A decimal channel of the longest period. -/
def longestDecimal : Channel := ⟨0x35, 0, 0, 0, true, none⟩

theorem reports_and_advance_hundredHertz :
    (hundredHertz.Reports 49152 4915200 2457600 ↔ hundredHertz.Faithful 49152 4915200 2457600) ∧
      (hundredHertz.AdvanceQuiet 4915200 2457600 → hundredHertz.Seamless 4915200 2457600) := by
  have both := reports_and_advance_iff hundredHertz
    ⟨.inr (.inr (by decide)), fun decimal => absurd decimal (by decide)⟩ 4915200 2457600
    (by decide) (by decide) (by decide)
  exact ⟨both.1 49152, (both.2 rfl).2 (by decide)⟩

/-- A whole period behind the load the longest decimal count is shown as `0xA000`, not as zero, some
weeks behind it the product overflows, and the step of timer 0 turns the pin of a square wave
round. -/
theorem reports_not_always :
    longestDecimal.Counting ∧ longestDecimal.getCount 10000 2457600 2457600 = some 0xA000 ∧
      longestDecimal.shows (longestDecimal.element 10000).count = 0 ∧
      hundredHertz.Counting ∧ hundredHertz.getCount (2 ^ 43) 4915200 2457600 = none ∧
      hundredHertz.periodEnd 4915200 2457600 = 49152 ∧
      hundredHertz.getOutput 49152 4915200 2457600 = some true ∧
      (hundredHertz.advanceTimer0 49152).2.getOutput 49152 4915200 2457600 = some false := by
  refine ⟨⟨.inr (.inl (by decide)), fun _ => by decide⟩, by decide, ?_,
    ⟨.inr (.inr (by decide)), fun decimal => absurd decimal (by decide)⟩, by decide, by decide,
    by decide, by decide⟩
  have mode_eq : longestDecimal.mode = 2 := by decide
  have period_eq : longestDecimal.countPeriod = 10000 := by decide
  rw [element, mode_eq, period_eq, Element.after_two (by decide)]
  decide

end Channel

end Neetan.Pit
