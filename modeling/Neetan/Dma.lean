import Mathlib.Algebra.Ring.Nat
import Mathlib.Tactic.Common
import Mathlib.Logic.Function.Iterate
import Mathlib.Data.List.Range

/-!
The 8237 controller for direct memory access: the registers of its channels, and transfers in
both directions.

A transfer visits one address for each byte: one step inside an aligned window of addresses, until
the count is used up. It ends at the terminal count, where the channel starts again or stops. The
registers are followed byte by byte up to the terminal count, in both directions at once.
-/

namespace Neetan.Dma

abbrev Byte : Type := BitVec 8

abbrev Word : Type := BitVec 16

/-- The number of a channel. -/
abbrev Index : Type := Fin 4

def maskAllChannels : Byte := 0x0F
def channelSelectMask : Byte := 0x03
def singleMaskSetBit : Byte := 0x04
def modeDecrementBit : Byte := 0x20
def statusTcMask : Byte := 0x0F
def allMaskNibble : Byte := 0x0F
def boundChannelMask : Byte := 0x03
def boundModeMask : Byte := 0x03
def boundMode1mb : Byte := 1
def boundMode16mb : Byte := 3
def extendedPageMask : Byte := 0x7F
def pageLowNibbleMask : Byte := 0x0F
def pageHighNibbleMask : Byte := 0xF0
def modeAutoInitBit : Byte := 0x10

structure Channel where
  address : Word
  count : Word
  startAddress : Word
  startCount : Word
  page : Byte
  extendedPage : Byte
  mode : Byte
  bound : Byte
  deriving DecidableEq, Repr

structure I8237Dma where
  channels : Vector Channel 4
  flipFlop : Bool
  command : Byte
  mask : Byte
  status : Byte
  deriving DecidableEq

/-- The bit of a channel in a register. -/
def bit (channel : Index) : Byte := 1#8 <<< channel.val

/-! ### Registers -/

namespace I8237Dma

variable (dma : I8237Dma)

def channel (index : Index) : Channel := dma.channels[index]

def setChannel (index : Index) (ch : Channel) : I8237Dma :=
  { dma with channels := dma.channels.set index ch }

/-- A register with one of its bytes replaced: the high one when the flip-flop is set. -/
def withByte (register : Word) (high : Bool) (value : Byte) : Word :=
  if high then register &&& 0x00FF ||| value.setWidth 16 <<< 8
  else register &&& 0xFF00 ||| value.setWidth 16

/-- The byte of a register that the flip-flop selects. -/
def byteOf (register : Word) (high : Bool) : Byte :=
  if high then (register >>> 8).setWidth 8 else register.setWidth 8

def new : I8237Dma where
  channels := Vector.replicate 4 ⟨0, 0, 0, 0, 0, 0, 0, 0⟩
  flipFlop := false
  command := 0
  mask := maskAllChannels
  status := 0

def masterClear : I8237Dma :=
  { dma with flipFlop := false, command := 0, status := 0, mask := maskAllChannels }

def readAddress (index : Index) : Byte × I8237Dma :=
  (byteOf (dma.channel index).address dma.flipFlop, { dma with flipFlop := !dma.flipFlop })

def readCount (index : Index) : Byte × I8237Dma :=
  (byteOf (dma.channel index).count dma.flipFlop, { dma with flipFlop := !dma.flipFlop })

def writeAddress (index : Index) (value : Byte) : I8237Dma :=
  let ch := dma.channel index
  let address := withByte ch.address dma.flipFlop value
  { dma.setChannel index { ch with address, startAddress := address } with
    flipFlop := !dma.flipFlop }

def writeCount (index : Index) (value : Byte) : I8237Dma :=
  let ch := dma.channel index
  let count := withByte ch.count dma.flipFlop value
  { dma.setChannel index { ch with count, startCount := count } with flipFlop := !dma.flipFlop }

def readStatus : Byte × I8237Dma :=
  (dma.status, { dma with status := dma.status &&& ~~~statusTcMask })

def writeCommand (value : Byte) : I8237Dma := { dma with command := value }

/-- The channel that the low bits of a register value select. -/
def selected (value : Byte) : Index :=
  ⟨(value &&& channelSelectMask).toNat, by
    revert value
    decide⟩

def writeMode (value : Byte) : I8237Dma :=
  let index := selected value
  dma.setChannel index { dma.channel index with mode := value }

def writeSingleMask (value : Byte) : I8237Dma :=
  let index := selected value
  if value &&& singleMaskSetBit ≠ 0 then { dma with mask := dma.mask ||| bit index }
  else { dma with mask := dma.mask &&& ~~~bit index }

def clearFlipFlop : I8237Dma := { dma with flipFlop := false }

def writeAllMask (value : Byte) : I8237Dma := { dma with mask := value &&& allMaskNibble }

def writePage (index : Index) (value : Byte) : I8237Dma :=
  dma.setChannel index { dma.channel index with page := value }

def writeBound (value : Byte) : I8237Dma :=
  let index := selected value
  dma.setChannel index { dma.channel index with bound := value >>> 2 &&& boundModeMask }

def writeExtendedPage (index : Index) (value : Byte) : I8237Dma :=
  dma.setChannel index { dma.channel index with extendedPage := value &&& extendedPageMask }

def channelUnmasked (index : Index) : Bool := dma.mask &&& bit index == 0

end I8237Dma

namespace Channel

variable (ch : Channel)

def increments : Bool := ch.mode &&& modeDecrementBit == 0

def autoInit : Bool := ch.mode &&& modeAutoInitBit != 0

/-- The address on the bus: extended page, page and address, one behind the other. -/
def physical : ℕ :=
  ch.extendedPage.toNat <<< 24 ||| ch.page.toNat <<< 16 ||| ch.address.toNat

/-- The page behind the byte at the current address. -/
def nextPage : Byte :=
  if ch.increments && ch.address == 0xFFFF then
    if ch.bound = boundMode1mb then
      (ch.page + 1 &&& pageLowNibbleMask) ||| (ch.page &&& pageHighNibbleMask)
    else if ch.bound = boundMode16mb then ch.page + 1
    else ch.page
  else ch.page

def nextAddress : Word := if ch.increments then ch.address + 1 else ch.address - 1

/-- The registers behind one byte, and whether it was the last one. -/
def advance : Channel × Bool :=
  let moved := { ch with page := ch.nextPage, address := ch.nextAddress }
  if ch.count = 0 then
    if ch.autoInit then
      ({ moved with address := ch.startAddress, count := ch.startCount }, true)
    else ({ moved with count := 0xFFFF }, true)
  else ({ moved with count := ch.count - 1 }, false)

/-- From the device to memory: what is written where, the registers behind it, and whether the
terminal count was reached. -/
def writeLoop : Channel → List Byte → List (ℕ × Byte) × Channel × Bool
  | ch, [] => ([], ch, false)
  | ch, byte :: data =>
    match ch.advance with
    | (next, true) => ([(ch.physical, byte)], next, true)
    | (next, false) =>
      let (writes, last, terminalCount) := writeLoop next data
      ((ch.physical, byte) :: writes, last, terminalCount)

/-- From memory to the device: what is read, as far as `writeLoop` goes with as many bytes. -/
def readLoop : Channel → ℕ → List ℕ × Channel × Bool
  | ch, 0 => ([], ch, false)
  | ch, byteCount + 1 =>
    match ch.advance with
    | (next, true) => ([ch.physical], next, true)
    | (next, false) =>
      let (addresses, last, terminalCount) := readLoop next byteCount
      (ch.physical :: addresses, last, terminalCount)

end Channel

namespace I8237Dma

/-- The controller behind a transfer of a channel. -/
def afterTransfer (dma : I8237Dma) (index : Index) (last : Channel) (terminalCount : Bool) :
    I8237Dma :=
  { dma.setChannel index last with
    status := if terminalCount then dma.status ||| bit index else dma.status }

def transferWriteToMemory (dma : I8237Dma) (index : Index) (data : List Byte) :
    (List (ℕ × Byte) × Bool) × I8237Dma :=
  let (writes, last, terminalCount) := (dma.channel index).writeLoop data
  ((writes, terminalCount), dma.afterTransfer index last terminalCount)

def transferReadFromMemory (dma : I8237Dma) (index : Index) (byteCount : ℕ) :
    (List ℕ × Bool) × I8237Dma :=
  let (addresses, last, terminalCount) := (dma.channel index).readLoop byteCount
  ((addresses, terminalCount), dma.afterTransfer index last terminalCount)

end I8237Dma

/-! ### Cycles -/

/-- The address behind an address, in the aligned window of `size` addresses around it. -/
def stepIn (size stride address : ℕ) : ℕ :=
  address / size * size + (address % size + stride) % size

namespace Channel

variable (ch : Channel)

/-- The size of the window that the boundary mode leaves to a channel. The page follows an
address that counts up only. -/
def window : ℕ :=
  if ch.increments then
    if ch.bound = boundMode1mb then 0x100000
    else if ch.bound = boundMode16mb then 0x1000000
    else 0x10000
  else 0x10000

def stride : ℕ := if ch.increments then 1 else ch.window - 1

/-- The address of a byte, by its place in the transfer. -/
def place (k : ℕ) : ℕ := (stepIn ch.window ch.stride)^[k] ch.physical

/-- The bytes of one transfer. -/
def cycle : ℕ := ch.count.toNat + 1

/-- The registers behind one byte that is not the last one. -/
def move : Channel :=
  { ch with page := ch.nextPage, address := ch.nextAddress, count := ch.count - 1 }

/-- The registers behind `k` bytes, none of them the last one. -/
def moved (k : ℕ) : Channel := move^[k] ch

/-- The registers behind the last byte. -/
def reload : Channel :=
  if ch.autoInit then
    { ch with page := ch.nextPage, address := ch.startAddress, count := ch.startCount }
  else { ch with page := ch.nextPage, address := ch.nextAddress, count := 0xFFFF }

/-- The channel is as the register writes left it. -/
structure Programmed : Prop where
  address_eq : ch.address = ch.startAddress
  count_eq : ch.count = ch.startCount

/-- The transfer takes the page along, past the end of 64 KiB. -/
def Carries : Prop :=
  ch.increments ∧ (ch.bound = boundMode1mb ∨ ch.bound = boundMode16mb) ∧
    0xFFFF ≤ ch.address.toNat + ch.count.toNat

instance : Decidable ch.Carries := inferInstanceAs (Decidable (_ ∧ _))

lemma advance_eq : ch.advance = if ch.count = 0 then (ch.reload, true) else (ch.move, false) := by
  unfold advance reload move
  split <;> simp only
  split <;> rfl

lemma physical_eq :
    ch.physical = ch.extendedPage.toNat * 2 ^ 24 + ch.page.toNat * 2 ^ 16 + ch.address.toNat := by
  have page_lt := ch.page.isLt
  have address_lt := ch.address.isLt
  have low : ch.page.toNat <<< 16 ||| ch.address.toNat =
      ch.page.toNat * 2 ^ 16 + ch.address.toNat := by
    rw [← Nat.shiftLeft_add_eq_or_of_lt address_lt, Nat.shiftLeft_eq]
  have high := Nat.shiftLeft_add_eq_or_of_lt
    (show ch.page.toNat * 2 ^ 16 + ch.address.toNat < 2 ^ 24 by omega) ch.extendedPage.toNat
  rw [physical, Nat.or_assoc, low, ← high, Nat.shiftLeft_eq, Nat.add_assoc]

lemma carried_nibble (page : Byte) :
    ((page + 1 &&& pageLowNibbleMask) ||| (page &&& pageHighNibbleMask)).toNat =
      page.toNat / 16 * 16 + (page.toNat % 16 + 1) % 16 := by
  revert page
  decide

/-- **One step of the registers is one step in the window.** -/
theorem physical_move : ch.move.physical = stepIn ch.window ch.stride ch.physical := by
  have page_lt := ch.page.isLt
  have address_lt := ch.address.isLt
  have up : (ch.address + 1).toNat = (ch.address.toNat + 1) % 2 ^ 16 := by
    rw [BitVec.toNat_add]; rfl
  have down : (ch.address - 1).toNat = (ch.address.toNat + 65535) % 2 ^ 16 := by
    rw [BitVec.toNat_sub, Nat.add_comm]; rfl
  have next : (ch.page + 1).toNat = (ch.page.toNat + 1) % 2 ^ 8 := by
    rw [BitVec.toNat_add]; rfl
  have wraps : ch.address = 0xFFFF ↔ ch.address.toNat = 0xFFFF := by
    rw [← BitVec.toNat_inj]; rfl
  have nibble := carried_nibble ch.page
  rw [physical_eq, physical_eq]
  unfold stepIn stride window
  cases direction : ch.increments with
  | false =>
    simp only [move, nextPage, nextAddress, direction, Bool.false_and, Bool.false_eq_true,
      if_false, down]
    omega
  | true =>
    simp only [move, nextPage, nextAddress, direction, Bool.true_and, if_true, up, beq_iff_eq,
      wraps]
    by_cases small : ch.bound = boundMode1mb
    · simp only [small, if_true]
      by_cases full : ch.address.toNat = 0xFFFF
      · simp only [full, if_true, nibble]
        omega
      · simp only [full, if_false]
        omega
    · by_cases large : ch.bound = boundMode16mb
      · have other : ¬ boundMode16mb = boundMode1mb := by decide
        simp only [large, other, if_true, if_false]
        by_cases full : ch.address.toNat = 0xFFFF
        · simp only [full, if_true, next]
          omega
        · simp only [full, if_false]
          omega
      · simp only [small, large, if_false, ite_self]
        omega

@[simp] lemma move_window : ch.move.window = ch.window := rfl

@[simp] lemma move_stride : ch.move.stride = ch.stride := rfl

@[simp] lemma moved_zero : ch.moved 0 = ch := rfl

lemma moved_succ (k : ℕ) : ch.moved (k + 1) = (ch.moved k).move :=
  Function.iterate_succ_apply' move k ch

lemma moved_window (k : ℕ) : (ch.moved k).window = ch.window := by
  induction k with
  | zero => rfl
  | succ k ih => rw [moved_succ, move_window, ih]

lemma moved_stride (k : ℕ) : (ch.moved k).stride = ch.stride := by
  induction k with
  | zero => rfl
  | succ k ih => rw [moved_succ, move_stride, ih]

lemma physical_moved (k : ℕ) : (ch.moved k).physical = ch.place k := by
  induction k with
  | zero => rfl
  | succ k ih =>
    rw [moved_succ, physical_move, moved_window, moved_stride, ih, place, place,
      Function.iterate_succ_apply']

lemma moved_eq (k : ℕ) :
    ch.moved k =
      { ch with
        page := (ch.moved k).page
        address := (ch.moved k).address
        count := ch.count - BitVec.ofNat 16 k } := by
  induction k with
  | zero => simp
  | succ k ih =>
    have count_eq : ch.count - BitVec.ofNat 16 k - 1 = ch.count - BitVec.ofNat 16 (k + 1) := by
      bv_omega
    rw [moved_succ, ih]
    simp only [move, count_eq]

lemma moved_moved (j k : ℕ) : (ch.moved j).moved k = ch.moved (j + k) := by
  rw [moved, moved, moved, ← Function.iterate_add_apply, Nat.add_comm]

lemma moved_increments (k : ℕ) : (ch.moved k).increments = ch.increments := by
  rw [moved_eq]; rfl

lemma moved_autoInit (k : ℕ) : (ch.moved k).autoInit = ch.autoInit := by
  rw [moved_eq]; rfl

variable {ch}

lemma moved_count_toNat {k : ℕ} (room : k < ch.cycle) :
    (ch.moved k).count.toNat = ch.count.toNat - k := by
  have count_lt := ch.count.isLt
  have count_eq : (ch.moved k).count = ch.count - BitVec.ofNat 16 k := by rw [moved_eq]
  unfold cycle at room
  rw [count_eq]
  bv_omega

lemma moved_count_eq_zero {k : ℕ} (room : k < ch.cycle) :
    (ch.moved k).count = 0 ↔ k + 1 = ch.cycle := by
  have count_eq := moved_count_toNat room
  rw [← BitVec.toNat_inj, count_eq]
  unfold cycle at room ⊢
  change _ = 0 ↔ _
  omega

/-! ### Runs -/

variable (ch) in
/-- What a run shows that starts behind `k` bytes and is offered `n` of them. -/
def upTo (k n : ℕ) : List ℕ := (List.range (min n (ch.cycle - k))).map fun i => ch.place (k + i)

lemma upTo_zero (k : ℕ) : ch.upTo k 0 = [] := by simp [upTo]

lemma upTo_succ {k : ℕ} (room : k < ch.cycle) (n : ℕ) :
    ch.upTo k (n + 1) = ch.place k :: ch.upTo (k + 1) n := by
  have length_eq : min (n + 1) (ch.cycle - k) = min n (ch.cycle - (k + 1)) + 1 := by omega
  rw [upTo, length_eq, List.range_succ_eq_map, List.map_cons, List.map_map]
  simp only [upTo, Function.comp_def, Nat.add_zero, Nat.succ_eq_add_one, Nat.add_assoc,
    Nat.add_comm 1]

lemma upTo_full {n : ℕ} : ch.upTo ch.cycle n = [] := by simp [upTo]

/-- **A run goes through the places that are left, and says whether it saw the last one.** -/
theorem readLoop_moved {k : ℕ} (room : k < ch.cycle) (n : ℕ) :
    (ch.moved k).readLoop n =
      if ch.cycle ≤ k + n then (ch.upTo k n, (ch.moved ch.count.toNat).reload, true)
      else (ch.upTo k n, ch.moved (k + n), false) := by
  induction n generalizing k with
  | zero =>
    rw [if_neg (by omega), upTo_zero]
    rfl
  | succ n ih =>
    rw [readLoop, advance_eq, upTo_succ room, physical_moved]
    by_cases last : k + 1 = ch.cycle
    · have k_eq : ch.count.toNat = k := by unfold cycle at last; omega
      rw [if_pos ((moved_count_eq_zero room).2 last), if_pos (by omega), last, upTo_full, k_eq]
    · rw [if_neg (mt (moved_count_eq_zero room).1 last)]
      simp only [← moved_succ, ih (show k + 1 < ch.cycle by omega)]
      rw [show k + 1 + n = k + (n + 1) by omega]
      split <;> rfl

/-- **The two directions go the same way.** -/
theorem writeLoop_eq (ch : Channel) (data : List Byte) :
    ch.writeLoop data =
      ((ch.readLoop data.length).1.zip data, (ch.readLoop data.length).2) := by
  induction data generalizing ch with
  | nil => rfl
  | cons byte data ih =>
    rw [writeLoop, List.length_cons, readLoop]
    split
    · simp only [List.zip_cons_cons, List.zip_nil_left]
    · simp only [ih, List.zip_cons_cons]

lemma moved_address (k : ℕ) :
    (ch.moved k).address =
      if ch.increments then ch.address + BitVec.ofNat 16 k
      else ch.address - BitVec.ofNat 16 k := by
  induction k with
  | zero => simp
  | succ k ih =>
    rw [moved_succ, move]
    simp only [nextAddress, moved_increments, ih]
    split <;> bv_omega

lemma moved_page_of_le (up : ch.increments) {k : ℕ} (low : ch.address.toNat + k ≤ 0xFFFF) :
    (ch.moved k).page = ch.page := by
  induction k with
  | zero => rfl
  | succ k ih =>
    have inside : ¬ ch.address + BitVec.ofNat 16 k = 0xFFFF := by bv_omega
    rw [moved_succ, move]
    simp only [nextPage, moved_increments, up, moved_address, if_true, Bool.true_and,
      beq_iff_eq, inside, if_false]
    exact ih (by omega)

lemma moved_bound (k : ℕ) : (ch.moved k).bound = ch.bound := by
  rw [moved_eq]

lemma moved_page_of_still
    (still : ¬ (ch.increments ∧ (ch.bound = boundMode1mb ∨ ch.bound = boundMode16mb)))
    (k : ℕ) : (ch.moved k).page = ch.page := by
  induction k with
  | zero => rfl
  | succ k ih =>
    rw [moved_succ, move]
    simp only [nextPage, moved_increments, moved_bound]
    split
    · rename_i wraps
      rw [Bool.and_eq_true] at wraps
      rw [if_neg fun small => still ⟨wraps.1, .inl small⟩,
        if_neg fun large => still ⟨wraps.1, .inr large⟩, ih]
    · exact ih

lemma carried_ne (page : Byte) :
    ((page + 1 &&& pageLowNibbleMask) ||| (page &&& pageHighNibbleMask)) ≠ page ∧
      page + 1 ≠ page := by
  revert page
  decide

/-- **The page behind the last byte is the page of the first one, where the transfer does not
take it along, and only there.** -/
theorem page_reload_iff : (ch.moved ch.count.toNat).nextPage = ch.page ↔ ¬ ch.Carries := by
  have page_eq : (ch.moved ch.count.toNat).nextPage = (ch.moved ch.cycle).page := by
    rw [cycle, moved_succ]; rfl
  have address_lt := ch.address.isLt
  have count_lt := ch.count.isLt
  rw [page_eq]
  by_cases moves : ch.increments ∧ (ch.bound = boundMode1mb ∨ ch.bound = boundMode16mb)
  · obtain ⟨up, wide⟩ := moves
    by_cases far : 0xFFFF ≤ ch.address.toNat + ch.count.toNat
    · -- one carry at the byte whose address is 0xFFFF, and none behind it
      refine iff_of_false ?_ (not_not_intro ⟨up, wide, far⟩)
      obtain ⟨j, j_eq⟩ : ∃ j, ch.address.toNat + j = 0xFFFF :=
        ⟨0xFFFF - ch.address.toNat, by omega⟩
      have at_end : ch.address + BitVec.ofNat 16 j = 0xFFFF := by bv_omega
      have crossing : (ch.moved (j + 1)).page ≠ ch.page := by
        rw [moved_succ, move]
        simp only [nextPage, moved_increments, up, moved_address, if_true, Bool.true_and,
          beq_iff_eq, at_end, moved_bound, moved_page_of_le up (show _ ≤ 0xFFFF from j_eq.le)]
        obtain small | large := wide
        · rw [if_pos small]
          exact (carried_ne ch.page).1
        · rw [if_neg (by rw [large]; decide), if_pos large]
          exact (carried_ne ch.page).2
      have address_zero : (ch.moved (j + 1)).address = 0 := by
        rw [moved_address, if_pos up]
        bv_omega
      have rest : (ch.moved (j + 1)).moved (ch.cycle - (j + 1)) = ch.moved ch.cycle := by
        rw [moved_moved, show j + 1 + (ch.cycle - (j + 1)) = ch.cycle by unfold cycle; omega]
      rw [← rest, moved_page_of_le (by rw [moved_increments]; exact up)]
      · exact crossing
      · rw [address_zero]
        unfold cycle
        change 0 + _ ≤ _
        omega
    · refine iff_of_true (moved_page_of_le up ?_) fun carries => far carries.2.2
      unfold cycle
      omega
  · exact iff_of_true (moved_page_of_still moves _)
      fun carries => moves ⟨carries.1, carries.2.1⟩

end Channel

end Neetan.Dma
