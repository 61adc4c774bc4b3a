import Neetan.MachineInt
import Mathlib.Algebra.Ring.Nat
import Mathlib.Tactic.Common
import Mathlib.Logic.Function.Iterate
import Mathlib.Data.Nat.Basic

/-!
The 8253 interval timer: the count and the output pin of a channel, computed from its reload value
and the cycles since it was loaded, and the step of timer 0 at the end of a period.

The channel counts lazily: at the cycle of the load it reads its registers, and later a formula.
Both give what its counting element does, which goes down one tick at a time, up to the longest
decimal count, the pin at the load and products that overflow.
-/

namespace Neetan.Pit

open MachineInt

abbrev Byte : Type := BitVec 8

abbrev Word : Type := BitVec 16

def pitFlagI : Byte := 0x20

/-- The state of a channel; the latches of reads, which no count depends on, are left out. -/
structure Channel where
  ctrl : Byte
  flag : Byte
  value : Word
  lastLoadCycle : ℕ
  output : Bool
  reloadPending : Option Word
  deriving DecidableEq, Repr

/-! ### Conversions -/

def bcdToBinary (bcd : Word) : ℕ :=
  let d0 := (bcd &&& 0x000F).toNat
  let d1 := (bcd >>> 4 &&& 0x000F).toNat
  let d2 := (bcd >>> 8 &&& 0x000F).toNat
  let d3 := (bcd >>> 12 &&& 0x000F).toNat
  d3 * 1000 + d2 * 100 + d1 * 10 + d0

def binaryToBcd (bin : ℕ) : Word :=
  let d3 := bin / 1000
  let bin := bin % 1000
  let d2 := bin / 100
  let bin := bin % 100
  let d1 := bin / 10
  let d0 := bin % 10
  BitVec.ofNat 16 (d3 <<< 12 ||| d2 <<< 8 ||| d1 <<< 4 ||| d0)

namespace Channel

variable (ch : Channel)

def isBcd : Bool := ch.ctrl &&& 1 != 0

def mode : ℕ := (ch.ctrl >>> 1 &&& 7).toNat

/-- The ticks of a period; a reload value of 0 stands for the longest one. -/
def countPeriod : ℕ :=
  if ch.isBcd then if ch.value = 0 then 10000 else bcdToBinary ch.value
  else if ch.value = 0 then 0x10000
  else ch.value.toNat

/-! ### Lazy evaluation -/

/-- The count at a tick of the current period or of a later one. -/
def binaryCount (elapsedPit : ℕ) : ℕ :=
  let period := ch.countPeriod
  if ch.mode = 2 then
    let pos := elapsedPit % period
    if pos = 0 then period else period - pos
  else if ch.mode = 3 then
    let isOdd := period % 2 = 1
    let highHalf := (period + 1) / 2
    let pos := elapsedPit % period
    if pos = 0 then period
    else if pos < highHalf then
      if isOdd then period + 1 - pos * 2 else period - pos * 2
    else
      let posInLow := pos - highHalf
      if posInLow = 0 then period
      else if isOdd then period - 1 - posInLow * 2
      else period - posInLow * 2
  else period - elapsedPit

/-- The count as the register shows it. -/
def register (count : ℕ) : Word := if ch.isBcd then binaryToBcd count else BitVec.ofNat 16 count

/-- The count; no value where the product of cycles and clock overflows. -/
def getCount (currentCycle cpuClockHz pitClockHz : ℕ) : Option Word :=
  let elapsedCpu := currentCycle - ch.lastLoadCycle
  if elapsedCpu = 0 then some ch.value
  else
    (checkedMul 64 elapsedCpu pitClockHz).map fun product =>
      ch.register (ch.binaryCount (product / cpuClockHz))

/-- The output pin at a tick. -/
def outputAt (elapsedPit : ℕ) : Bool :=
  let period := ch.countPeriod
  if ch.mode = 0 then period ≤ elapsedPit
  else if ch.mode = 2 then elapsedPit % period ≠ period - 1
  else if ch.mode = 3 then elapsedPit % period < (period + 1) / 2
  else if ch.mode = 4 then if period ≤ elapsedPit then 1 ≤ elapsedPit - period else true
  else ch.output

def getOutput (currentCycle cpuClockHz pitClockHz : ℕ) : Option Bool :=
  let elapsedCpu := currentCycle - ch.lastLoadCycle
  if elapsedCpu = 0 then some ch.output
  else
    (checkedMul 64 elapsedCpu pitClockHz).map fun product => ch.outputAt (product / cpuClockHz)

/-! ### Timer 0 -/

def timer0PeriodCycles (cpuClockHz pitClockHz : ℕ) : ℕ := ch.countPeriod * cpuClockHz / pitClockHz

/-- The channel at a fire event, and whether it raises an interrupt request. -/
def advanceTimer0 (currentCycle : ℕ) : Bool × Channel :=
  let raiseIrq := ch.flag &&& pitFlagI != 0
  let flag := if raiseIrq then ch.flag &&& ~~~pitFlagI else ch.flag
  let value := ch.reloadPending.getD ch.value
  let output :=
    if ch.mode = 0 then true else if ch.mode = 3 then !ch.output else ch.output
  let flag := if ch.mode = 2 ∨ ch.mode = 3 then flag ||| pitFlagI else flag
  (raiseIrq,
    { ch with flag, value, output, reloadPending := none, lastLoadCycle := currentCycle })

end Channel

/-! ### The counting element -/

/-- The counting element: its count and the output pin. -/
structure Element where
  count : ℕ
  output : Bool
  deriving DecidableEq, Repr

namespace Element

variable (mode period : ℕ)

/-- The element when a reload value comes in. -/
def load : Element :=
  ⟨period, if mode = 0 then false else if mode = 2 then period ≠ 1 else true⟩

/-- One tick. Mode 0 counts down to zero and stays there. Mode 2 counts down to one, where the
output is low, and starts again. Mode 3 counts down by two and starts again at zero, with the
output the other way; an odd period takes one off at the start of its high half and three at the
start of its low one. -/
def tick (e : Element) : Element :=
  if mode = 0 then ⟨e.count - 1, e.count ≤ 1⟩
  else if mode = 2 then
    let count := if e.count ≤ 1 then period else e.count - 1
    ⟨count, count ≠ 1⟩
  else
    let down := if period % 2 = 1 ∧ e.count = period then if e.output then 1 else 3 else 2
    -- a period of one tick has no low half
    if e.count ≤ down then ⟨period, if period = 1 then true else !e.output⟩
    else ⟨e.count - down, e.output⟩

def after (ticks : ℕ) : Element := (tick mode period)^[ticks] (load mode period)

/-- The element of mode 2 at a place of its period. -/
def rate (pos : ℕ) : Element := ⟨period - pos, pos ≠ period - 1⟩

/-- The element of mode 3 at a place of its period. -/
def square (pos : ℕ) : Element :=
  let high := (period + 1) / 2
  if pos < high then
    ⟨if pos = 0 then period else if period % 2 = 1 then period + 1 - pos * 2 else period - pos * 2,
      true⟩
  else
    let low := pos - high
    ⟨if low = 0 then period else if period % 2 = 1 then period - 1 - low * 2 else period - low * 2,
      false⟩

variable {mode period}

lemma after_succ (ticks : ℕ) :
    after mode period (ticks + 1) = tick mode period (after mode period ticks) :=
  Function.iterate_succ_apply' _ ticks _

lemma succ_mod_cases (pos_lt : 0 < period) (k : ℕ) :
    k % period + 1 < period ∧ (k + 1) % period = k % period + 1 ∨
      k % period + 1 = period ∧ (k + 1) % period = 0 := by
  have lt := Nat.mod_lt k pos_lt
  obtain less | full := Nat.lt_or_eq_of_le (Nat.succ_le_of_lt lt)
  · exact .inl ⟨less, by rw [← Nat.mod_add_mod, Nat.mod_eq_of_lt less]⟩
  · refine .inr ⟨full, ?_⟩
    rw [← Nat.mod_add_mod]
    change (k % period).succ % period = 0
    rw [full, Nat.mod_self]

/-- **Mode 0**: down to zero. -/
theorem after_zero (pos : 0 < period) (ticks : ℕ) :
    after 0 period ticks = ⟨period - ticks, period ≤ ticks⟩ := by
  induction ticks with
  | zero =>
    change Element.mk period false = _
    rw [Nat.sub_zero, decide_eq_false (by omega)]
  | succ ticks ih =>
    rw [after_succ, ih, tick, if_pos rfl, Element.mk.injEq]
    exact ⟨by dsimp only; omega, decide_eq_decide.2 (by dsimp only; omega)⟩

lemma tick_rate {pos : ℕ} (pos_lt : pos + 1 < period) :
    tick 2 period (rate period pos) = rate period (pos + 1) := by
  have count_eq : (if period - pos ≤ 1 then period else period - pos - 1) = period - (pos + 1) := by
    rw [if_neg (by omega)]
    omega
  change Element.mk (if period - pos ≤ 1 then period else period - pos - 1) (decide (_ ≠ 1)) = _
  rw [rate, Element.mk.injEq]
  exact ⟨count_eq, decide_eq_decide.2 (by rw [count_eq]; omega)⟩

lemma tick_rate_last {pos : ℕ} (last : pos + 1 = period) :
    tick 2 period (rate period pos) = rate period 0 := by
  have count_eq : (if period - pos ≤ 1 then period else period - pos - 1) = period := by
    rw [if_pos (by omega)]
  change Element.mk (if period - pos ≤ 1 then period else period - pos - 1) (decide (_ ≠ 1)) = _
  rw [rate, Element.mk.injEq]
  exact ⟨count_eq, decide_eq_decide.2 (by rw [count_eq]; omega)⟩

/-- **Mode 2**: from the period to one, again and again. -/
theorem after_two (pos : 0 < period) (ticks : ℕ) :
    after 2 period ticks = rate period (ticks % period) := by
  induction ticks with
  | zero =>
    change Element.mk period (decide (period ≠ 1)) = _
    rw [Nat.zero_mod, rate, Nat.sub_zero, Element.mk.injEq]
    exact ⟨rfl, decide_eq_decide.2 (by omega)⟩
  | succ ticks ih =>
    rw [after_succ, ih]
    obtain ⟨less, mod_eq⟩ | ⟨full, mod_eq⟩ := succ_mod_cases pos ticks
    · rw [mod_eq, tick_rate less]
    · rw [mod_eq, tick_rate_last full]

lemma square_even (half pos : ℕ) : square (2 * half) pos =
    if pos < half then ⟨if pos = 0 then 2 * half else 2 * half - pos * 2, true⟩
    else ⟨if pos = half then 2 * half else 2 * half - (pos - half) * 2, false⟩ := by
  have high : (2 * half + 1) / 2 = half := by omega
  unfold square
  dsimp only
  rw [high, if_neg (show ¬ 2 * half % 2 = 1 by omega), if_neg (show ¬ 2 * half % 2 = 1 by omega)]
  split
  · rfl
  · rename_i low
    have start : pos - half = 0 ↔ pos = half := by omega
    simp only [start]

lemma square_odd (half pos : ℕ) : square (2 * half + 1) pos =
    if pos ≤ half then ⟨if pos = 0 then 2 * half + 1 else 2 * half + 2 - pos * 2, true⟩
    else ⟨if pos = half + 1 then 2 * half + 1 else 2 * half - (pos - (half + 1)) * 2, false⟩ := by
  have high : (2 * half + 1 + 1) / 2 = half + 1 := by omega
  unfold square
  dsimp only
  rw [high, if_pos (show (2 * half + 1) % 2 = 1 by omega),
    if_pos (show (2 * half + 1) % 2 = 1 by omega)]
  by_cases low : pos ≤ half
  · rw [if_pos low, if_pos (by omega)]
  · have start : pos - (half + 1) = 0 ↔ pos = half + 1 := by omega
    rw [if_neg low, if_neg (by omega)]
    simp only [start]
    rfl

lemma tick_even (half : ℕ) (e : Element) : tick 3 (2 * half) e =
    if e.count ≤ 2 then ⟨2 * half, !e.output⟩ else ⟨e.count - 2, e.output⟩ := by
  have even : ¬ (2 * half % 2 = 1 ∧ e.count = 2 * half) := by omega
  rw [tick, if_neg (by decide), if_neg (by decide), if_neg even,
    if_neg (show ¬ 2 * half = 1 by omega)]

lemma tick_odd (half : ℕ) (e : Element) : tick 3 (2 * half + 1) e =
    (let down := if e.count = 2 * half + 1 then if e.output then 1 else 3 else 2
      if e.count ≤ down then ⟨2 * half + 1, if half = 0 then true else !e.output⟩
      else ⟨e.count - down, e.output⟩) := by
  have odd : (2 * half + 1) % 2 = 1 := by omega
  have one : 2 * half + 1 = 1 ↔ half = 0 := by omega
  rw [tick, if_neg (by decide), if_neg (by decide)]
  dsimp only
  simp only [odd, true_and, one]

section Halves

variable {half pos : ℕ}

lemma square_even_high (high : pos < half) :
    square (2 * half) pos = ⟨2 * half - 2 * pos, true⟩ := by
  rw [square_even, if_pos high, Element.mk.injEq]
  refine ⟨?_, rfl⟩
  split_ifs <;> omega

lemma square_even_low (low : half ≤ pos) :
    square (2 * half) pos = ⟨4 * half - 2 * pos, false⟩ := by
  rw [square_even, if_neg (by omega), Element.mk.injEq]
  refine ⟨?_, rfl⟩
  split_ifs <;> omega

lemma square_odd_start : square (2 * half + 1) 0 = ⟨2 * half + 1, true⟩ := by
  rw [square_odd, if_pos (Nat.zero_le _), if_pos rfl]

lemma square_odd_high (some : 0 < pos) (high : pos ≤ half) :
    square (2 * half + 1) pos = ⟨2 * half + 2 - 2 * pos, true⟩ := by
  rw [square_odd, if_pos high, if_neg (by omega), Nat.mul_comm 2 pos]

lemma square_odd_turn : square (2 * half + 1) (half + 1) = ⟨2 * half + 1, false⟩ := by
  rw [square_odd, if_neg (by omega), if_pos rfl]

lemma square_odd_low (low : half + 1 < pos) :
    square (2 * half + 1) pos = ⟨4 * half + 2 - 2 * pos, false⟩ := by
  rw [square_odd, if_neg (by omega), if_neg (by omega), Element.mk.injEq]
  exact ⟨by omega, rfl⟩

lemma tick_odd_top (output : Bool) : tick 3 (2 * half + 1) ⟨2 * half + 1, output⟩ =
    if 2 * half + 1 ≤ (if output then 1 else 3) then
      ⟨2 * half + 1, if half = 0 then true else !output⟩
    else ⟨2 * half + 1 - (if output then 1 else 3), output⟩ := by
  rw [tick_odd]
  simp only [if_true]

lemma tick_odd_below {count : ℕ} (below : count ≠ 2 * half + 1) (output : Bool) :
    tick 3 (2 * half + 1) ⟨count, output⟩ =
      if count ≤ 2 then ⟨2 * half + 1, if half = 0 then true else !output⟩
      else ⟨count - 2, output⟩ := by
  rw [tick_odd]
  simp only [below, if_false]

lemma tick_square_even (inside : pos + 1 < 2 * half) :
    tick 3 (2 * half) (square (2 * half) pos) = square (2 * half) (pos + 1) := by
  rcases Nat.lt_or_ge pos half with high | low
  · rw [square_even_high high, tick_even]
    rcases Nat.lt_or_ge (pos + 1) half with stays | turns
    · have many : ¬ 2 * half - 2 * pos ≤ 2 := by omega
      rw [if_neg many, square_even_high stays, Nat.mul_succ, Nat.sub_sub]
    · have few : 2 * half - 2 * pos ≤ 2 := by omega
      have count_eq : 2 * half = 4 * half - 2 * (pos + 1) := by omega
      rw [if_pos few, square_even_low turns, ← count_eq]
      rfl
  · have many : ¬ 4 * half - 2 * pos ≤ 2 := by omega
    rw [square_even_low low, tick_even, if_neg many, square_even_low (Nat.le_succ_of_le low),
      Nat.mul_succ, Nat.sub_sub]

lemma tick_square_odd (inside : pos + 1 < 2 * half + 1) :
    tick 3 (2 * half + 1) (square (2 * half + 1) pos) = square (2 * half + 1) (pos + 1) := by
  have some_half : half ≠ 0 := by omega
  rcases Nat.eq_zero_or_pos pos with rfl | some
  · have many : ¬ 2 * half + 1 ≤ 1 := by omega
    rw [square_odd_start, tick_odd_top, if_pos rfl, if_neg many,
      square_odd_high Nat.one_pos (Nat.pos_of_ne_zero some_half)]
    rfl
  · rcases Nat.lt_trichotomy pos (half + 1) with high | rfl | low
    · have below : 2 * half + 2 - 2 * pos ≠ 2 * half + 1 := by omega
      rw [square_odd_high some (Nat.le_of_lt_succ high), tick_odd_below below, if_neg some_half]
      rcases Nat.lt_or_ge pos half with stays | turns
      · have many : ¬ 2 * half + 2 - 2 * pos ≤ 2 := by omega
        rw [if_neg many, square_odd_high (Nat.succ_pos pos) stays, Nat.mul_succ, Nat.sub_sub]
      · obtain rfl : pos = half := by omega
        have few : 2 * pos + 2 - 2 * pos ≤ 2 := by omega
        rw [if_pos few, square_odd_turn]
        rfl
    · have many : ¬ 2 * half + 1 ≤ 3 := by omega
      have count_eq : 2 * half + 1 - 3 = 4 * half + 2 - 2 * (half + 1 + 1) := by omega
      rw [square_odd_turn, tick_odd_top, if_neg Bool.false_ne_true, if_neg many,
        square_odd_low (Nat.lt_succ_self _), count_eq]
    · have below : 4 * half + 2 - 2 * pos ≠ 2 * half + 1 := by omega
      have many : ¬ 4 * half + 2 - 2 * pos ≤ 2 := by omega
      rw [square_odd_low low, tick_odd_below below, if_neg many,
        square_odd_low (Nat.lt_succ_of_lt low), Nat.mul_succ, Nat.sub_sub]

lemma tick_square_even_last (last : pos + 1 = 2 * half) :
    tick 3 (2 * half) (square (2 * half) pos) = square (2 * half) 0 := by
  have low : half ≤ pos := by omega
  have few : 4 * half - 2 * pos ≤ 2 := by omega
  have some_half : 0 < half := by omega
  rw [square_even_low low, tick_even, if_pos few, square_even_high some_half]
  rfl

lemma tick_square_odd_last :
    tick 3 (2 * half + 1) (square (2 * half + 1) (2 * half)) = square (2 * half + 1) 0 := by
  rw [square_odd_start]
  obtain rfl | rfl | many : half = 0 ∨ half = 1 ∨ 1 < half := by omega
  · rfl
  · rfl
  · have below : 4 * half + 2 - 2 * (2 * half) ≠ 2 * half + 1 := by omega
    have few : 4 * half + 2 - 2 * (2 * half) ≤ 2 := by omega
    have low : half + 1 < 2 * half := by omega
    have some_half : half ≠ 0 := by omega
    rw [square_odd_low low, tick_odd_below below, if_pos few, if_neg some_half]
    rfl

end Halves

lemma even_or_odd_period (period : ℕ) : ∃ half, period = 2 * half ∨ period = 2 * half + 1 :=
  ⟨period / 2, by omega⟩

lemma tick_square {pos : ℕ} (pos_lt : pos + 1 < period) :
    tick 3 period (square period pos) = square period (pos + 1) := by
  obtain ⟨half, rfl | rfl⟩ := even_or_odd_period period
  · exact tick_square_even pos_lt
  · exact tick_square_odd pos_lt

lemma tick_square_last {pos : ℕ} (last : pos + 1 = period) :
    tick 3 period (square period pos) = square period 0 := by
  obtain ⟨half, rfl | rfl⟩ := even_or_odd_period period
  · exact tick_square_even_last last
  · obtain rfl := Nat.succ.inj last
    exact tick_square_odd_last

/-- **Mode 3**: a square wave. -/
theorem after_three (pos : 0 < period) (ticks : ℕ) :
    after 3 period ticks = square period (ticks % period) := by
  induction ticks with
  | zero =>
    change Element.mk period true = _
    rw [Nat.zero_mod, square, if_pos (by omega), if_pos rfl]
  | succ ticks ih =>
    rw [after_succ, ih]
    obtain ⟨less, mod_eq⟩ | ⟨full, mod_eq⟩ := succ_mod_cases pos ticks
    · rw [mod_eq, tick_square less]
    · rw [mod_eq, tick_square_last full]

end Element

/-! ### Reports -/

/-- The four decimal digits of a reload value. -/
def ValidBcd (value : Word) : Prop :=
  (value &&& 0x000F).toNat ≤ 9 ∧ (value >>> 4 &&& 0x000F).toNat ≤ 9 ∧
    (value >>> 8 &&& 0x000F).toNat ≤ 9 ∧ (value >>> 12 &&& 0x000F).toNat ≤ 9

instance (value : Word) : Decidable (ValidBcd value) := inferInstanceAs (Decidable (_ ∧ _))

namespace Channel

/-- A channel in one of the modes that count without a gate, with digits for a reload value where
they are digits. -/
structure Counting (ch : Channel) : Prop where
  mode_eq : ch.mode = 0 ∨ ch.mode = 2 ∨ ch.mode = 3
  digits : ch.isBcd → ValidBcd ch.value

variable (ch : Channel)

/-- The counting element of the channel. -/
def element (ticks : ℕ) : Element := Element.after ch.mode ch.countPeriod ticks

/-- The count as the register is to show it: the longest one as zero. -/
def shows (count : ℕ) : Word :=
  if ch.isBcd then binaryToBcd (count % 10000) else BitVec.ofNat 16 count

end Channel

/-! ### Digits -/

lemma nibble_toNat (value : Word) (k : ℕ) :
    (value >>> k &&& 0x000F).toNat = value.toNat / 2 ^ k % 16 := by
  rw [BitVec.toNat_and, BitVec.toNat_ushiftRight, Nat.shiftRight_eq_div_pow]
  exact Nat.and_two_pow_sub_one_eq_mod _ 4

lemma exists_digits (value : Word) : ∃ d₃ d₂ d₁ d₀ : ℕ, d₃ < 16 ∧ d₂ < 16 ∧ d₁ < 16 ∧ d₀ < 16 ∧
    value.toNat = d₃ * 4096 + d₂ * 256 + d₁ * 16 + d₀ ∧
    (value &&& 0x000F).toNat = d₀ ∧ (value >>> 4 &&& 0x000F).toNat = d₁ ∧
    (value >>> 8 &&& 0x000F).toNat = d₂ ∧ (value >>> 12 &&& 0x000F).toNat = d₃ := by
  have low : (value &&& 0x000F).toNat = value.toNat % 16 := by
    have shifted := nibble_toNat value 0
    rwa [BitVec.ushiftRight_zero, Nat.pow_zero, Nat.div_one] at shifted
  have value_lt := value.isLt
  refine ⟨value.toNat / 4096 % 16, value.toNat / 256 % 16, value.toNat / 16 % 16,
    value.toNat % 16, ?_, ?_, ?_, ?_, ?_, low, nibble_toNat value 4, nibble_toNat value 8,
    nibble_toNat value 12⟩ <;> omega

lemma binaryToBcd_toNat {bin : ℕ} (bin_le : bin ≤ 10000) :
    (binaryToBcd bin).toNat =
      bin / 1000 * 4096 + bin % 1000 / 100 * 256 + bin % 100 / 10 * 16 + bin % 10 := by
  have tens : bin % 1000 % 100 = bin % 100 := by omega
  have ones : bin % 100 % 10 = bin % 10 := by omega
  have joined : (bin / 1000) <<< 12 ||| (bin % 1000 / 100) <<< 8 ||| (bin % 100 / 10) <<< 4 |||
      bin % 10 =
      bin / 1000 * 4096 + bin % 1000 / 100 * 256 + bin % 100 / 10 * 16 + bin % 10 := by
    have h₁ := Nat.shiftLeft_add_eq_or_of_lt
      (show bin % 10 < 2 ^ 4 by omega) (bin % 100 / 10)
    have h₂ := Nat.shiftLeft_add_eq_or_of_lt
      (show (bin % 100 / 10) <<< 4 + bin % 10 < 2 ^ 8 by rw [Nat.shiftLeft_eq]; omega)
      (bin % 1000 / 100)
    have h₃ := Nat.shiftLeft_add_eq_or_of_lt
      (show (bin % 1000 / 100) <<< 8 + ((bin % 100 / 10) <<< 4 + bin % 10) < 2 ^ 12 by
        rw [Nat.shiftLeft_eq, Nat.shiftLeft_eq]; omega) (bin / 1000)
    rw [Nat.or_assoc, Nat.or_assoc, ← h₁, ← h₂, ← h₃]
    simp only [Nat.shiftLeft_eq]
    omega
  simp only [binaryToBcd, tens, ones, joined, BitVec.toNat_ofNat]
  rw [Nat.mod_eq_of_lt (by omega)]

lemma binaryToBcd_injective {x y : ℕ} (x_le : x ≤ 10000) (y_le : y ≤ 10000)
    (same : binaryToBcd x = binaryToBcd y) : x = y := by
  have value := congrArg BitVec.toNat same
  rw [binaryToBcd_toNat x_le, binaryToBcd_toNat y_le] at value
  omega

lemma binaryToBcd_bcdToBinary {value : Word} (valid : ValidBcd value) :
    binaryToBcd (bcdToBinary value) = value := by
  obtain ⟨d₃, d₂, d₁, d₀, -, -, -, -, value_eq, eq₀, eq₁, eq₂, eq₃⟩ := exists_digits value
  unfold ValidBcd at valid
  rw [eq₀, eq₁, eq₂, eq₃] at valid
  have binary : bcdToBinary value = d₃ * 1000 + d₂ * 100 + d₁ * 10 + d₀ := by
    rw [bcdToBinary, eq₀, eq₁, eq₂, eq₃]
  obtain ⟨le₀, le₁, le₂, le₃⟩ := valid
  have th : (d₃ * 1000 + d₂ * 100 + d₁ * 10 + d₀) / 1000 = d₃ := by omega
  have hu : (d₃ * 1000 + d₂ * 100 + d₁ * 10 + d₀) % 1000 / 100 = d₂ := by omega
  have te : (d₃ * 1000 + d₂ * 100 + d₁ * 10 + d₀) % 100 / 10 = d₁ := by omega
  have on : (d₃ * 1000 + d₂ * 100 + d₁ * 10 + d₀) % 10 = d₀ := by omega
  rw [← BitVec.toNat_inj, binary, binaryToBcd_toNat (by omega), value_eq, th, hu, te, on]

lemma bcdToBinary_pos {value : Word} (some : value ≠ 0) : 0 < bcdToBinary value := by
  obtain ⟨d₃, d₂, d₁, d₀, -, -, -, -, value_eq, eq₀, eq₁, eq₂, eq₃⟩ := exists_digits value
  have value_ne : value.toNat ≠ 0 := fun zero => some (BitVec.eq_of_toNat_eq zero)
  rw [bcdToBinary, eq₀, eq₁, eq₂, eq₃]
  omega

lemma bcdToBinary_lt {value : Word} (valid : ValidBcd value) : bcdToBinary value < 10000 := by
  obtain ⟨d₀, d₁, d₂, d₃⟩ := valid
  unfold bcdToBinary
  dsimp only
  omega

/-! ### The element of a channel -/

namespace Channel

variable {ch : Channel}

/-- The reload value 0 with decimal digits. -/
def LongestBcd (ch : Channel) : Prop := ch.isBcd ∧ ch.value = 0

instance : Decidable ch.LongestBcd := inferInstanceAs (Decidable (_ ∧ _))

lemma countPeriod_pos (ch : Channel) : 0 < ch.countPeriod := by
  unfold countPeriod
  split_ifs with decimal zero zero
  · decide
  · exact bcdToBinary_pos zero
  · decide
  · exact Nat.pos_of_ne_zero fun none => zero (BitVec.eq_of_toNat_eq none)

lemma countPeriod_le (counting : ch.Counting) :
    ch.countPeriod ≤ if ch.isBcd then 10000 else 0x10000 := by
  unfold countPeriod
  split_ifs with decimal zero zero
  · exact le_rfl
  · exact Nat.le_of_lt (bcdToBinary_lt (counting.digits decimal))
  · exact le_rfl
  · exact Nat.le_of_lt ch.value.isLt

lemma countPeriod_eq_longest (counting : ch.Counting) (decimal : ch.isBcd) :
    ch.countPeriod = 10000 ↔ ch.value = 0 := by
  rw [countPeriod, if_pos decimal]
  split_ifs with zero
  · exact iff_of_true rfl zero
  · exact iff_of_false (Nat.ne_of_lt (bcdToBinary_lt (counting.digits decimal))) zero

lemma binaryCount_eq (counting : ch.Counting) (k : ℕ) :
    ch.binaryCount k = (ch.element k).count := by
  have pos := ch.countPeriod_pos
  unfold binaryCount element
  obtain zero | two | three := counting.mode_eq
  · rw [zero, Element.after_zero pos]
    rfl
  · rw [two, Element.after_two pos]
    simp only [Element.rate, if_true]
    split_ifs with start
    · rw [start, Nat.sub_zero]
    · rfl
  · rw [three, Element.after_three pos]
    simp only [Element.square, show ¬ 3 = 2 by decide, if_false, if_true]
    split_ifs <;> first | rfl | omega

lemma outputAt_eq (counting : ch.Counting) (k : ℕ) : ch.outputAt k = (ch.element k).output := by
  have pos := ch.countPeriod_pos
  unfold outputAt element
  obtain zero | two | three := counting.mode_eq
  · rw [zero, Element.after_zero pos]
    rfl
  · rw [two, Element.after_two pos]
    rfl
  · rw [three, Element.after_three pos]
    simp only [show ¬ 3 = 0 by decide, show ¬ 3 = 2 by decide, if_false, if_true]
    unfold Element.square
    dsimp only
    by_cases high : k % ch.countPeriod < (ch.countPeriod + 1) / 2
    · rw [if_pos high, decide_eq_true high]
    · rw [if_neg high, decide_eq_false high]

lemma element_count_le (counting : ch.Counting) (k : ℕ) :
    (ch.element k).count ≤ ch.countPeriod := by
  have pos := ch.countPeriod_pos
  unfold element
  obtain zero | two | three := counting.mode_eq
  · rw [zero, Element.after_zero pos]
    exact Nat.sub_le _ _
  · rw [two, Element.after_two pos]
    exact Nat.sub_le _ _
  · rw [three, Element.after_three pos]
    unfold Element.square
    dsimp only
    split_ifs <;> dsimp only <;> omega

/-- The register shows the count as it should, up to the longest decimal one. -/
lemma register_eq_shows_iff (counting : ch.Counting) {count : ℕ}
    (count_le : count ≤ ch.countPeriod) :
    ch.register count = ch.shows count ↔ ¬ (ch.LongestBcd ∧ count = 10000) := by
  have period_le := countPeriod_le counting
  unfold register shows LongestBcd
  by_cases decimal : ch.isBcd
  · rw [if_pos decimal] at period_le ⊢
    rw [if_pos decimal]
    by_cases full : count = 10000
    · have zero := (countPeriod_eq_longest counting decimal).1 (by omega)
      rw [full]
      exact iff_of_false (by decide) (not_not_intro ⟨⟨decimal, zero⟩, rfl⟩)
    · rw [Nat.mod_eq_of_lt (by omega)]
      exact iff_of_true rfl fun both => full both.2
  · rw [if_neg decimal, if_neg decimal]
    exact iff_of_true rfl fun both => decimal both.1.1

lemma shows_countPeriod (counting : ch.Counting) : ch.shows ch.countPeriod = ch.value := by
  unfold shows countPeriod
  split_ifs with decimal zero zero
  · rw [zero]
    decide
  · rw [Nat.mod_eq_of_lt (bcdToBinary_lt (counting.digits decimal)),
      binaryToBcd_bcdToBinary (counting.digits decimal)]
  · rw [zero]
    decide
  · exact BitVec.ofNat_toNat 16 ch.value |>.trans (BitVec.setWidth_eq _)

/-! ### Reports -/

/-- What the channel reports is what its element does. -/
def Reports (ch : Channel) (currentCycle cpuClockHz pitClockHz : ℕ) : Prop :=
  let ticks := (currentCycle - ch.lastLoadCycle) * pitClockHz / cpuClockHz
  ch.getCount currentCycle cpuClockHz pitClockHz = some (ch.shows (ch.element ticks).count) ∧
    ch.getOutput currentCycle cpuClockHz pitClockHz = some (ch.element ticks).output

/-- The product of cycles and clock is a `u64`, the pin at the load is as the mode has it, and
later on no longest decimal count stands in the element. -/
structure Faithful (ch : Channel) (currentCycle cpuClockHz pitClockHz : ℕ) : Prop where
  fits : (currentCycle - ch.lastLoadCycle) * pitClockHz < 2 ^ 64
  pin : currentCycle ≤ ch.lastLoadCycle →
    ch.output = (Element.load ch.mode ch.countPeriod).output
  digits : ch.lastLoadCycle < currentCycle → ¬ (ch.LongestBcd ∧
    (ch.element ((currentCycle - ch.lastLoadCycle) * pitClockHz / cpuClockHz)).count = 10000)

/-- **A channel reports what its element does if and only if it is faithful.** -/
theorem reports_iff (counting : ch.Counting) (currentCycle cpuClockHz pitClockHz : ℕ) :
    ch.Reports currentCycle cpuClockHz pitClockHz ↔
      ch.Faithful currentCycle cpuClockHz pitClockHz := by
  unfold Reports getCount getOutput
  by_cases loaded : currentCycle ≤ ch.lastLoadCycle
  · have elapsed : currentCycle - ch.lastLoadCycle = 0 := Nat.sub_eq_zero_of_le loaded
    simp only [elapsed, Nat.zero_mul, Nat.zero_div, if_true, Option.some.injEq]
    have count_eq : (ch.element 0).count = ch.countPeriod := rfl
    rw [count_eq, shows_countPeriod counting, and_iff_right rfl]
    constructor
    · intro pin
      exact ⟨by rw [elapsed, Nat.zero_mul]; decide, fun _ => pin,
        fun later => absurd loaded (Nat.not_le_of_lt later)⟩
    · intro faithful
      exact faithful.pin loaded
  · have later := Nat.lt_of_not_le loaded
    have elapsed : currentCycle - ch.lastLoadCycle ≠ 0 := by omega
    simp only [if_neg elapsed, checkedMul]
    by_cases fits : (currentCycle - ch.lastLoadCycle) * pitClockHz < 2 ^ 64
    · rw [if_pos fits]
      simp only [Option.map_some, Option.some.injEq, binaryCount_eq counting,
        outputAt_eq counting, and_true]
      rw [register_eq_shows_iff counting (element_count_le counting _)]
      exact ⟨fun digits => ⟨fits, fun early => absurd early loaded, fun _ => digits⟩,
        fun faithful => faithful.digits later⟩
    · rw [if_neg fits]
      exact iff_of_false (by simp) fun faithful => fits faithful.fits

end Channel

end Neetan.Pit
