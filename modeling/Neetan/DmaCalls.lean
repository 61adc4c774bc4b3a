import Neetan.Dma
import Mathlib.Tactic.IntervalCases

/-!
A device stream cut into transfer calls, on a controller whose other channels transfer in between
and whose status is read at any time.

What the calls of one channel show is compared with one uninterrupted run through its addresses:
where the calls cut the stream is to make no difference.
-/

namespace Neetan.Dma

/-- A call that moves data or reads the status. -/
inductive Call
  | write (on : Index) (data : List Byte)
  | read (on : Index) (byteCount : ℕ)
  | readStatus
  deriving DecidableEq, Repr

/-- What a call shows of one channel: the bytes that went to memory and where, the addresses that
were read, whether the terminal count was reached, and the status bit, as a status read sees it
that is the call or follows it. -/
structure Outcome where
  writes : List (ℕ × Byte)
  reads : List ℕ
  terminalCount : Bool
  status : Bool
  deriving DecidableEq, Repr

namespace I8237Dma

/-- The status bit of a channel. -/
def flag (dma : I8237Dma) (index : Index) : Bool := dma.status &&& bit index != 0

/-- One call, and what it shows of the channel `index`. -/
def call (dma : I8237Dma) (index : Index) : Call → Outcome × I8237Dma
  | .write on data =>
    let ((writes, terminalCount), after) := dma.transferWriteToMemory on data
    if on = index then (⟨writes, [], terminalCount, after.flag index⟩, after)
    else (⟨[], [], false, after.flag index⟩, after)
  | .read on byteCount =>
    let ((reads, terminalCount), after) := dma.transferReadFromMemory on byteCount
    if on = index then (⟨[], reads, terminalCount, after.flag index⟩, after)
    else (⟨[], [], false, after.flag index⟩, after)
  | .readStatus =>
    let (status, after) := dma.readStatus
    (⟨[], [], false, status &&& bit index != 0⟩, after)

/-- What a run of calls shows of a channel. -/
def outcomes (dma : I8237Dma) (index : Index) : List Call → List Outcome
  | [] => []
  | c :: calls => (dma.call index c).1 :: outcomes (dma.call index c).2 index calls

/-- The register writes that program a channel. -/
def program (dma : I8237Dma) (index : Index) (address count : Word)
    (page extendedPage mode bound : Byte) : I8237Dma :=
  let select := BitVec.ofNat 8 index.val
  let dma := dma.clearFlipFlop.writeMode ((mode &&& ~~~channelSelectMask) ||| select)
  let dma := dma.writeAddress index (address.setWidth 8)
  let dma := dma.writeAddress index ((address >>> 8).setWidth 8)
  let dma := dma.writeCount index (count.setWidth 8)
  let dma := dma.writeCount index ((count >>> 8).setWidth 8)
  let dma := dma.writePage index page
  let dma := dma.writeExtendedPage index extendedPage
  dma.writeBound (bound <<< 2 ||| select)

end I8237Dma

/-! ### The uninterrupted run -/

/-- How far the run has come: the bytes moved, and whether a terminal count waits to be read. -/
structure Progress where
  moved : ℕ
  flagged : Bool
  deriving DecidableEq, Repr

namespace Call

/-- The number of bytes that a call offers a channel. -/
def offered (index : Index) : Call → ℕ
  | .write on data => if on = index then data.length else 0
  | .read on byteCount => if on = index then byteCount else 0
  | .readStatus => 0

end Call

namespace Channel

variable (ch : Channel)

/-- The place of the next byte in its cycle. A channel that does not start again stays behind
its one cycle. -/
def position (moved : ℕ) : ℕ := if ch.autoInit then moved % ch.cycle else moved

/-- The bytes up to the next terminal count. -/
def remaining (moved : ℕ) : ℕ := ch.cycle - ch.position moved

/-- What a call is to show, and how far the run is behind it. -/
def expect (index : Index) (progress : Progress) (c : Call) : Outcome × Progress :=
  let k := ch.position progress.moved
  let n := c.offered index
  let visited := ch.upTo k n
  let terminalCount := decide (k < ch.cycle ∧ ch.cycle ≤ k + n)
  let flagged := progress.flagged || terminalCount
  let moved := progress.moved + visited.length
  match c with
  | .write _ data => (⟨visited.zip data, [], terminalCount, flagged⟩, ⟨moved, flagged⟩)
  | .read _ _ => (⟨[], visited, terminalCount, flagged⟩, ⟨moved, flagged⟩)
  | .readStatus => (⟨[], [], false, progress.flagged⟩, ⟨progress.moved, false⟩)

def expected (index : Index) : Progress → List Call → List Outcome
  | _, [] => []
  | progress, c :: calls =>
    (ch.expect index progress c).1 :: expected index (ch.expect index progress c).2 calls

/-- A call that the channel serves as it is to: it offers no byte, or it comes before the first
terminal count, or the channel starts again on the page it started from. -/
def Served (moved offered : ℕ) : Prop :=
  offered = 0 ∨ moved ≤ ch.count.toNat ∨ ch.autoInit ∧ ¬ ch.Carries

instance (moved offered : ℕ) : Decidable (ch.Served moved offered) :=
  inferInstanceAs (Decidable (_ ∨ _))

/-- Every call is served. -/
def AllServed (index : Index) : ℕ → List Call → Prop
  | _, [] => True
  | moved, c :: calls =>
    ch.Served moved (c.offered index) ∧
      AllServed index (moved + min (c.offered index) (ch.remaining moved)) calls

end Channel

namespace I8237Dma

variable {dma : I8237Dma} {index : Index}

@[simp] lemma channel_afterTransfer (last : Channel) (terminalCount : Bool) :
    (dma.afterTransfer index last terminalCount).channel index = last := by
  simp [afterTransfer, setChannel, channel]

lemma channel_afterTransfer_of_ne {other : Index} (ne : other ≠ index) (last : Channel)
    (terminalCount : Bool) :
    (dma.afterTransfer other last terminalCount).channel index = dma.channel index := by
  have apart : other.val ≠ index.val := fun same => ne (Fin.ext same)
  simp [afterTransfer, setChannel, channel, Vector.getElem_set_ne, apart]

lemma bit_or (status : Byte) (index : Index) :
    ((status ||| bit index) &&& bit index != 0) = true := by
  revert status index
  decide +kernel

lemma bit_or_of_ne (status : Byte) {other index : Index} (ne : other ≠ index) :
    ((status ||| bit other) &&& bit index != 0) = (status &&& bit index != 0) := by
  have apart : bit other &&& bit index = 0#8 := by
    revert other index
    decide
  rw [BitVec.and_or_distrib_right, apart, BitVec.or_zero]

lemma bit_cleared (status : Byte) (index : Index) :
    (status &&& ~~~statusTcMask &&& bit index != 0) = false := by
  revert status index
  decide +kernel

lemma flag_afterTransfer (last : Channel) (terminalCount : Bool) :
    (dma.afterTransfer index last terminalCount).flag index =
      (dma.flag index || terminalCount) := by
  cases terminalCount with
  | false => rw [Bool.or_false]; rfl
  | true => rw [Bool.or_true]; exact bit_or _ _

lemma flag_afterTransfer_of_ne {other : Index} (ne : other ≠ index) (last : Channel)
    (terminalCount : Bool) :
    (dma.afterTransfer other last terminalCount).flag index = dma.flag index := by
  cases terminalCount with
  | false => rfl
  | true => exact bit_or_of_ne _ ne

end I8237Dma

/-! ### One call -/

namespace Channel

variable {ch : Channel}

lemma cycle_pos : 0 < ch.cycle := Nat.succ_pos _

lemma length_upTo (k n : ℕ) : (ch.upTo k n).length = min n (ch.cycle - k) := by simp [upTo]

lemma position_of_le {moved : ℕ} (early : moved ≤ ch.count.toNat) :
    ch.position moved = moved := by
  unfold position
  split
  · exact Nat.mod_eq_of_lt (Nat.lt_succ_of_le early)
  · rfl

/-- What the registers of a channel hold behind `moved` bytes, as long as every call was
served. -/
structure Follows (ch : Channel) (moved : ℕ) (actual : Channel) : Prop where
  early : moved ≤ ch.count.toNat → actual = ch.moved moved
  again : ch.autoInit → ¬ ch.Carries → actual = ch.moved (moved % ch.cycle)
  astray : ch.count.toNat < moved → ch.autoInit → ch.Carries →
    actual.physical ≠ ch.place (ch.position moved)

lemma follows_zero (ch : Channel) : ch.Follows 0 ch where
  early _ := rfl
  again _ _ := by rw [Nat.zero_mod]; rfl
  astray late := absurd late (Nat.not_lt_zero _)

lemma Served.at_position {moved n : ℕ} (served : ch.Served moved (n + 1)) {actual : Channel}
    (follows : ch.Follows moved actual) :
    actual = ch.moved (ch.position moved) ∧ ch.position moved < ch.cycle := by
  obtain none | early | ⟨again, still⟩ := served
  · exact absurd none (Nat.succ_ne_zero n)
  · rw [position_of_le early]
    exact ⟨follows.early early, Nat.lt_succ_of_le early⟩
  · rw [position, if_pos again]
    exact ⟨follows.again again still, Nat.mod_lt _ cycle_pos⟩

lemma reload_of_not_carries (programmed : ch.Programmed) (again : ch.autoInit)
    (still : ¬ ch.Carries) : (ch.moved ch.count.toNat).reload = ch := by
  have page_eq := page_reload_iff.2 still
  rw [reload, if_pos (by rw [moved_autoInit]; exact again), page_eq, moved_eq]
  exact congrArg₂ (fun address count => { ch with address, count })
    programmed.address_eq.symm programmed.count_eq.symm

lemma reload_physical_ne (programmed : ch.Programmed) (again : ch.autoInit)
    (carries : ch.Carries) : (ch.moved ch.count.toNat).reload.physical ≠ ch.physical := by
  have page_ne : (ch.moved ch.count.toNat).nextPage ≠ ch.page :=
    fun same => page_reload_iff.1 same carries
  rw [ne_eq, ← BitVec.toNat_inj] at page_ne
  rw [reload, if_pos (by rw [moved_autoInit]; exact again), physical_eq, physical_eq]
  have extendedPage_eq : (ch.moved ch.count.toNat).extendedPage = ch.extendedPage := by
    rw [moved_eq]
  have startAddress_eq : (ch.moved ch.count.toNat).startAddress = ch.address := by
    rw [moved_eq, programmed.address_eq]
  simp only [extendedPage_eq, startAddress_eq]
  omega

/-- **A served call goes through the expected places, and the registers keep up.** -/
theorem Served.readLoop_eq (programmed : ch.Programmed) {moved n : ℕ}
    (served : ch.Served moved n) {actual : Channel} (follows : ch.Follows moved actual) :
    ∃ next, actual.readLoop n =
        (ch.upTo (ch.position moved) n, next,
          decide (ch.position moved < ch.cycle ∧ ch.cycle ≤ ch.position moved + n)) ∧
      ch.Follows (moved + (ch.upTo (ch.position moved) n).length) next := by
  obtain _ | n := n
  · refine ⟨actual, ?_, by rwa [upTo_zero]⟩
    rw [upTo_zero, readLoop, decide_eq_false (by omega)]
  obtain ⟨actual_eq, room⟩ := served.at_position follows
  have length_eq := @length_upTo ch (ch.position moved) (n + 1)
  rw [actual_eq, readLoop_moved room, length_eq]
  generalize position_eq : ch.position moved = k at *
  have place_eq : moved % ch.cycle = k := by
    rw [← position_eq, position]
    split
    · rfl
    · rename_i once
      rw [position, if_neg once] at position_eq
      exact Nat.mod_eq_of_lt (position_eq ▸ room)
  have divided := Nat.div_add_mod moved ch.cycle
  rw [place_eq] at divided
  have cycle_eq : ch.cycle = ch.count.toNat + 1 := rfl
  by_cases ends : ch.cycle ≤ k + (n + 1)
  · -- the terminal count: the channel starts again, or is through
    have restart : (moved + min (n + 1) (ch.cycle - k)) % ch.cycle = 0 := by
      rw [Nat.min_eq_right (by omega), ← divided,
        show ch.cycle * (moved / ch.cycle) + k + (ch.cycle - k) =
          ch.cycle * (moved / ch.cycle) + ch.cycle by omega,
        Nat.add_mod_right, Nat.mul_mod_right]
    refine ⟨(ch.moved ch.count.toNat).reload, ?_, ?_⟩
    · rw [if_pos ends, decide_eq_true ⟨room, ends⟩]
    · refine ⟨fun early => ?_, fun again still => ?_, fun _ again carries => ?_⟩
      · have late : k ≤ moved := place_eq ▸ Nat.mod_le _ _
        omega
      · rw [restart, reload_of_not_carries programmed again still, moved_zero]
      · rw [position, if_pos again, restart]
        exact reload_physical_ne programmed again carries
  · have step : (moved + min (n + 1) (ch.cycle - k)) % ch.cycle = k + (n + 1) := by
      rw [Nat.min_eq_left (by omega), ← divided, Nat.add_assoc, Nat.mul_add_mod,
        Nat.mod_eq_of_lt (by omega)]
    refine ⟨ch.moved (k + (n + 1)), ?_, ?_⟩
    · rw [if_neg ends, decide_eq_false fun both => ends both.2]
    · refine ⟨fun early => ?_, fun again still => ?_, fun late again carries => ?_⟩
      · rw [← step, Nat.mod_eq_of_lt (by omega)]
      · rw [step]
      · obtain none | early | ⟨-, still⟩ := served
        · exact absurd none (Nat.succ_ne_zero n)
        · have k_eq : k = moved := by rw [← position_eq, position_of_le early]
          omega
        · exact absurd carries still

/-- **A call that is not served shows an address that it is not to show.** -/
theorem readLoop_ne_of_not_served {moved n : ℕ} (refused : ¬ ch.Served moved n)
    {actual : Channel} (follows : ch.Follows moved actual) :
    ∃ m rest last, n = m + 1 ∧ actual.readLoop n = (actual.physical :: rest, last) ∧
      ∀ place others, ch.upTo (ch.position moved) n = place :: others →
        actual.physical ≠ place := by
  unfold Served at refused
  push Not at refused
  obtain ⟨some, late, astray⟩ := refused
  obtain ⟨m, rfl⟩ := Nat.exists_eq_succ_of_ne_zero some
  have head : ∃ rest last, actual.readLoop (m + 1) = (actual.physical :: rest, last) := by
    rw [readLoop]
    split
    · exact ⟨_, _, rfl⟩
    · exact ⟨_, _, rfl⟩
  obtain ⟨rest, last, loop⟩ := head
  refine ⟨m, rest, last, rfl, loop, fun place others shown => ?_⟩
  by_cases again : ch.autoInit
  · rw [position, if_pos again, upTo_succ (Nat.mod_lt _ cycle_pos), List.cons.injEq] at shown
    rw [← shown.1]
    have wrong := follows.astray late again (astray again)
    rwa [position, if_pos again] at wrong
  · have through : ch.cycle - moved = 0 := Nat.sub_eq_zero_of_le late
    rw [position, if_neg again, upTo, through, Nat.min_zero] at shown
    exact absurd shown (by simp)

end Channel

/-! ### Runs of calls -/

/-- A controller that is as far as the run is. -/
structure Keeps (ch : Channel) (index : Index) (progress : Progress) (dma : I8237Dma) : Prop where
  channel : ch.Follows progress.moved (dma.channel index)
  flag : dma.flag index = progress.flagged

namespace I8237Dma

variable {ch : Channel} {index : Index} {progress : Progress} {dma : I8237Dma}

lemma call_write (data : List Byte) {addresses : List ℕ} {next : Channel} {terminalCount : Bool}
    (loop : (dma.channel index).readLoop data.length = (addresses, next, terminalCount)) :
    dma.call index (.write index data) =
      (⟨addresses.zip data, [], terminalCount, dma.flag index || terminalCount⟩,
        dma.afterTransfer index next terminalCount) := by
  simp only [call, transferWriteToMemory, Channel.writeLoop_eq, loop, if_true,
    flag_afterTransfer]

lemma call_read {byteCount : ℕ} {addresses : List ℕ} {next : Channel} {terminalCount : Bool}
    (loop : (dma.channel index).readLoop byteCount = (addresses, next, terminalCount)) :
    dma.call index (.read index byteCount) =
      (⟨[], addresses, terminalCount, dma.flag index || terminalCount⟩,
        dma.afterTransfer index next terminalCount) := by
  simp only [call, transferReadFromMemory, loop, if_true, flag_afterTransfer]

lemma expect_of_none {c : Call} (none : c.offered index = 0) (transfer : c ≠ .readStatus) :
    ch.expect index progress c = (⟨[], [], false, progress.flagged⟩, progress) := by
  have never : decide (ch.position progress.moved < ch.cycle ∧
      ch.cycle ≤ ch.position progress.moved) = false := decide_eq_false (by omega)
  cases c with
  | readStatus => exact absurd rfl transfer
  | write on data =>
    simp only [Channel.expect, none, Channel.upTo_zero, never, Bool.or_false, List.zip_nil_left,
      List.length_nil, Nat.add_zero]
  | read on byteCount =>
    simp only [Channel.expect, none, Channel.upTo_zero, never, Bool.or_false, List.length_nil,
      Nat.add_zero]

/-- **A served call shows what it is to show.** -/
theorem call_served (programmed : ch.Programmed) {c : Call}
    (served : ch.Served progress.moved (c.offered index)) (keeps : Keeps ch index progress dma) :
    (dma.call index c).1 = (ch.expect index progress c).1 ∧
      Keeps ch index (ch.expect index progress c).2 (dma.call index c).2 := by
  obtain ⟨next, loop, follows⟩ := served.readLoop_eq programmed keeps.channel
  cases c with
  | readStatus =>
    refine ⟨?_, ⟨keeps.channel, bit_cleared _ _⟩⟩
    change Outcome.mk _ _ _ (dma.flag index) = _
    rw [keeps.flag]
    rfl
  | write on data =>
    by_cases same : on = index
    · subst same
      rw [Call.offered, if_pos rfl] at loop follows
      rw [call_write data loop, keeps.flag, Channel.expect, Call.offered, if_pos rfl]
      refine ⟨rfl, ⟨?_, ?_⟩⟩
      · rwa [channel_afterTransfer]
      · rw [flag_afterTransfer, keeps.flag]
    · rw [expect_of_none (by rw [Call.offered, if_neg same]) (by simp)]
      simp only [call, transferWriteToMemory, if_neg same, flag_afterTransfer_of_ne same,
        keeps.flag]
      refine ⟨trivial, ⟨?_, ?_⟩⟩
      · rw [channel_afterTransfer_of_ne same]
        exact keeps.channel
      · rw [flag_afterTransfer_of_ne same, keeps.flag]
  | read on byteCount =>
    by_cases same : on = index
    · subst same
      rw [Call.offered, if_pos rfl] at loop follows
      rw [call_read loop, keeps.flag, Channel.expect, Call.offered, if_pos rfl]
      refine ⟨rfl, ⟨?_, ?_⟩⟩
      · rwa [channel_afterTransfer]
      · rw [flag_afterTransfer, keeps.flag]
    · rw [expect_of_none (by rw [Call.offered, if_neg same]) (by simp)]
      simp only [call, transferReadFromMemory, if_neg same, flag_afterTransfer_of_ne same,
        keeps.flag]
      refine ⟨trivial, ⟨?_, ?_⟩⟩
      · rw [channel_afterTransfer_of_ne same]
        exact keeps.channel
      · rw [flag_afterTransfer_of_ne same, keeps.flag]

/-- **Any other call shows something else.** -/
theorem call_not_served {c : Call} (refused : ¬ ch.Served progress.moved (c.offered index))
    (keeps : Keeps ch index progress dma) :
    (dma.call index c).1 ≠ (ch.expect index progress c).1 := by
  obtain ⟨m, rest, last, offered_eq, loop, wrong⟩ :=
    Channel.readLoop_ne_of_not_served refused keeps.channel
  intro shown
  cases c with
  | readStatus => exact absurd offered_eq (Nat.succ_ne_zero m).symm
  | write on data =>
    by_cases same : on = index
    · subst same
      rw [Call.offered, if_pos rfl] at offered_eq loop wrong
      have writes_eq := congrArg Outcome.writes shown
      rw [call_write data loop] at writes_eq
      simp only [Channel.expect, Call.offered, if_true] at writes_eq
      obtain ⟨byte, bytes, rfl⟩ := List.exists_cons_of_length_eq_add_one offered_eq
      cases visited : ch.upTo (ch.position progress.moved) (byte :: bytes).length with
      | nil => simp only [visited, List.zip_cons_cons, List.zip_nil_left, reduceCtorEq] at writes_eq
      | cons place others =>
        rw [visited, List.zip_cons_cons, List.zip_cons_cons, List.cons.injEq,
          Prod.mk.injEq] at writes_eq
        exact wrong place others visited writes_eq.1.1
    · rw [Call.offered, if_neg same] at offered_eq
      exact absurd offered_eq (Nat.succ_ne_zero m).symm
  | read on byteCount =>
    by_cases same : on = index
    · subst same
      rw [Call.offered, if_pos rfl] at offered_eq loop wrong
      have reads_eq := congrArg Outcome.reads shown
      rw [call_read loop] at reads_eq
      simp only [Channel.expect, Call.offered, if_true] at reads_eq
      exact wrong _ _ reads_eq.symm rfl
    · rw [Call.offered, if_neg same] at offered_eq
      exact absurd offered_eq (Nat.succ_ne_zero m).symm

lemma expect_moved (ch : Channel) (index : Index) (progress : Progress) (c : Call) :
    (ch.expect index progress c).2.moved =
      progress.moved + min (c.offered index) (ch.remaining progress.moved) := by
  cases c with
  | readStatus => simp [Channel.expect, Call.offered]
  | write on data => simp [Channel.expect, Channel.length_upTo, Channel.remaining]
  | read on byteCount => simp [Channel.expect, Channel.length_upTo, Channel.remaining]

/-- **A run shows the uninterrupted transfer, where every call is served, and only there.** -/
theorem outcomes_eq_iff (programmed : ch.Programmed) (keeps : Keeps ch index progress dma)
    (calls : List Call) :
    dma.outcomes index calls = ch.expected index progress calls ↔
      ch.AllServed index progress.moved calls := by
  induction calls generalizing dma progress with
  | nil => exact iff_of_true rfl trivial
  | cons c calls ih =>
    rw [outcomes, Channel.expected, Channel.AllServed, List.cons.injEq]
    by_cases served : ch.Served progress.moved (c.offered index)
    · obtain ⟨shown, after⟩ := call_served programmed served keeps
      rw [ih after, expect_moved]
      exact and_congr (iff_of_true shown served) Iff.rfl
    · exact iff_of_false (fun both => call_not_served served keeps both.1)
        fun both => served both.1

end I8237Dma

/-- The addresses of a call, in the order they are used. -/
def Outcome.addresses (outcome : Outcome) : List ℕ := outcome.writes.map Prod.fst ++ outcome.reads

namespace Channel

variable {ch : Channel} {index : Index}

end Channel

namespace I8237Dma

variable {dma : I8237Dma} {index : Index}

lemma withByte_both (old value : Word) :
    withByte (withByte old false (value.setWidth 8)) true ((value >>> 8).setWidth 8) = value := by
  ext i lt
  interval_cases i <;> simp [withByte]

lemma selected_mode (mode : Byte) (index : Index) :
    selected (mode &&& ~~~channelSelectMask ||| BitVec.ofNat 8 index.val) = index := by
  revert mode index
  decide +kernel

lemma selected_bound (bound : Byte) (index : Index) :
    selected (bound <<< 2 ||| BitVec.ofNat 8 index.val) = index ∧
      (bound <<< 2 ||| BitVec.ofNat 8 index.val) >>> 2 &&& boundModeMask =
        bound &&& boundModeMask := by
  revert bound index
  decide +kernel

lemma channel_setChannel (ch : Channel) : (dma.setChannel index ch).channel index = ch := by
  simp [setChannel, channel]

lemma channel_writeAddress (value : Byte) :
    (dma.writeAddress index value).channel index =
      { dma.channel index with
        address := withByte (dma.channel index).address dma.flipFlop value
        startAddress := withByte (dma.channel index).address dma.flipFlop value } :=
  channel_setChannel _

lemma channel_writeCount (value : Byte) :
    (dma.writeCount index value).channel index =
      { dma.channel index with
        count := withByte (dma.channel index).count dma.flipFlop value
        startCount := withByte (dma.channel index).count dma.flipFlop value } :=
  channel_setChannel _

lemma flipFlop_writeAddress (value : Byte) :
    (dma.writeAddress index value).flipFlop = !dma.flipFlop := rfl

lemma flipFlop_writeCount (value : Byte) :
    (dma.writeCount index value).flipFlop = !dma.flipFlop := rfl

lemma channel_writePage (value : Byte) :
    (dma.writePage index value).channel index = { dma.channel index with page := value } :=
  channel_setChannel _

lemma channel_writeExtendedPage (value : Byte) :
    (dma.writeExtendedPage index value).channel index =
      { dma.channel index with extendedPage := value &&& extendedPageMask } :=
  channel_setChannel _

lemma channel_writeMode {value : Byte} (on : selected value = index) :
    (dma.writeMode value).channel index = { dma.channel index with mode := value } := by
  subst on
  exact channel_setChannel _

lemma channel_writeBound {value : Byte} (on : selected value = index) :
    (dma.writeBound value).channel index =
      { dma.channel index with bound := value >>> 2 &&& boundModeMask } := by
  subst on
  exact channel_setChannel _

/-- **The register writes leave a channel with what they wrote.** -/
theorem channel_program (dma : I8237Dma) (index : Index) (address count : Word)
    (page extendedPage mode bound : Byte) :
    (dma.program index address count page extendedPage mode bound).channel index =
      { address, count, startAddress := address, startCount := count, page
        extendedPage := extendedPage &&& extendedPageMask
        mode := (mode &&& ~~~channelSelectMask) ||| BitVec.ofNat 8 index.val
        bound := bound &&& boundModeMask } := by
  have low_first : (dma.clearFlipFlop.writeMode
      (mode &&& ~~~channelSelectMask ||| BitVec.ofNat 8 index.val)).flipFlop = false := rfl
  obtain ⟨on_bound, bound_eq⟩ := selected_bound bound index
  simp only [program, channel_writeBound on_bound, channel_writeExtendedPage, channel_writePage,
    channel_writeCount, channel_writeAddress, flipFlop_writeCount, flipFlop_writeAddress,
    low_first, channel_writeMode (selected_mode mode index), Bool.not_false, Bool.not_true,
    withByte_both, bound_eq]

lemma programmed_program (dma : I8237Dma) (index : Index) (address count : Word)
    (page extendedPage mode bound : Byte) :
    ((dma.program index address count page extendedPage mode bound).channel index).Programmed := by
  rw [channel_program]
  exact ⟨rfl, rfl⟩

/-- **However a device stream is cut into calls, a channel runs through the addresses of one
uninterrupted transfer and flags each terminal count, if and only if no call offers it a byte
behind the terminal count of a single transfer, and none behind that of an automatically
repeated one that took the page along.** -/
theorem transfer_calls_iff (dma : I8237Dma) (index : Index)
    (programmed : (dma.channel index).Programmed) (calls : List Call) :
    dma.outcomes index calls = (dma.channel index).expected index ⟨0, dma.flag index⟩ calls ↔
      (dma.channel index).AllServed index 0 calls :=
  outcomes_eq_iff programmed ⟨Channel.follows_zero _, rfl⟩ calls

theorem transfer_calls_iff_program :
    let dma := new.program 2 0xFFFE 3 0x01 0 0x54 1
    let calls := [Call.write 2 [0xAA, 0xBB], .readStatus, .read 2 5]
    (dma.outcomes 2 calls = (dma.channel 2).expected 2 ⟨0, dma.flag 2⟩ calls ↔
      (dma.channel 2).AllServed 2 0 calls) :=
  transfer_calls_iff _ _ (programmed_program ..) _

/-- A single transfer of one byte takes a second one, and a repeated transfer of two bytes across
the end of 64 KiB does not come back to the page it started from. -/
theorem transfer_calls_ne :
    (let dma := new.program 0 0x1000 0 0x01 0 0x44 0
     let calls := [Call.write 0 [0xAA], .write 0 [0xBB]]
     dma.outcomes 0 calls ≠ (dma.channel 0).expected 0 ⟨0, dma.flag 0⟩ calls) ∧
    (let dma := new.program 0 0xFFFF 1 0x01 0 0x54 1
     let calls := [Call.write 0 [0xAA, 0xBB], .write 0 [0xCC]]
     dma.outcomes 0 calls ≠ (dma.channel 0).expected 0 ⟨0, dma.flag 0⟩ calls) := by
  decide +kernel

end I8237Dma

end Neetan.Dma
