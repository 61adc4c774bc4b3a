import Mathlib.Tactic.Common
import Mathlib.Data.Fin.Basic

/-!
The two 8259A interrupt controllers: a master, and a slave on one of the master's lines.

Registers are bytes with one bit for each level. A scan for the first level of a set starts at
the chip's rotation base and comes round to it after eight levels; a scan that finds none does
not end, which is `none` here, as is an index out of range.
-/

namespace Neetan.Pic

abbrev Byte : Type := BitVec 8

/-- A level of a chip. -/
abbrev Level : Type := Fin 8

def bit (num : Level) : Byte := 1#8 <<< num.val

/-- The register has the bit of the level. -/
def Has (register : Byte) (num : Level) : Prop := register &&& bit num ≠ 0

instance (register : Byte) (num : Level) : Decidable (Has register num) :=
  inferInstanceAs (Decidable (_ ≠ _))

def masterIcw1 : Byte := 0x11
def masterIcw2 : Byte := 0x08
def masterIcw3 : Byte := 0x80
def masterIcw4 : Byte := 0x1D
def masterImrDefault : Byte := 0x7D
def slaveIcw1 : Byte := 0x11
def slaveIcw2 : Byte := 0x10
def slaveIcw3 : Byte := 0x07
def slaveIcw4 : Byte := 0x09
def slaveImrDefault : Byte := 0x71

def ocw2L : Byte := 0x07
def ocw2Eoi : Byte := 0x20
def ocw2Sl : Byte := 0x40
def ocw2R : Byte := 0x80
def ocw3Ris : Byte := 0x01
def ocw3Rr : Byte := 0x02
def ocw3Smm : Byte := 0x20
def ocw3Esmm : Byte := 0x40

/-- One chip. -/
structure Chip where
  icw : Vector Byte 4
  imr : Byte
  isr : Byte
  irr : Byte
  ocw3 : Byte
  pry : Level
  writeIcw : ℕ
  deriving DecidableEq, Repr

inductive ChipIndex where
  | master
  | slave
  deriving DecidableEq, Repr

/-- Both chips, and what is remembered of the last scan for a request. -/
structure I8259aPic where
  master : Chip
  slave : Chip
  irqCache : Option Bool
  deriving DecidableEq, Repr

inductive PendingIrq where
  | master (num : Level)
  | slave (num : Level)
  deriving DecidableEq, Repr

structure Acknowledge where
  line : Option ℕ
  vector : Byte
  deriving DecidableEq, Repr

/-! ### Scans -/

/-- The first level of the set, within so many levels from one on. -/
def scan (mask : Byte) : ℕ → Level → Option Level
  | 0, _ => none
  | fuel + 1, num => if mask &&& bit num = 0 then scan mask fuel (num + 1) else some num

/-- The first level of the set, from one on and round. -/
def firstLevel (mask : Byte) (start : Level) : Option Level := scan mask 8 start

/-- The low three bits of a byte. -/
def lowLevel (data : Byte) : Level := ⟨(data &&& 7).toNat, by
  rw [BitVec.toNat_and]
  exact Nat.lt_succ_of_le Nat.and_le_right⟩

namespace Chip

/-- The in-service levels that keep others out. -/
def blockingIsr (self : Chip) : Byte :=
  if self.ocw3 &&& ocw3Smm = 0 then self.isr else self.isr &&& ~~~self.imr

/-- The level an end of interrupt is for, if there is one. -/
def eoiLevel (self : Chip) (data : Byte) : Option (Option Level) :=
  if data &&& ocw2Sl ≠ 0 then some (some (lowLevel data))
  else if self.isr = 0 then some none
  else (firstLevel self.isr self.pry).map some

def writeOcw2 (self : Chip) (data : Byte) : Option Chip :=
  match self.eoiLevel data with
  | none => none
  | some none => some self
  | some (some level) =>
    let self := if data &&& ocw2R ≠ 0 then { self with pry := level + 1 } else self
    some (if data &&& ocw2Eoi ≠ 0 then { self with isr := self.isr &&& ~~~bit level } else self)

def writeOcw3 (self : Chip) (data : Byte) : Chip :=
  let new := data
  let new := if data &&& ocw3Rr = 0 then new &&& ~~~ocw3Ris ||| self.ocw3 &&& ocw3Ris else new
  let new := if data &&& ocw3Esmm = 0 then new &&& ~~~ocw3Smm ||| self.ocw3 &&& ocw3Smm else new
  { self with ocw3 := new }

def writeIcw1 (self : Chip) (data : Byte) : Chip where
  icw := self.icw.set 0 data
  imr := 0
  isr := 0
  irr := 0
  ocw3 := 0
  pry := 0
  writeIcw := 1

def writePort0 (self : Chip) (data : Byte) : Option Chip :=
  let self := { self with writeIcw := 0 }
  if data &&& 0x18 = 0x00 then self.writeOcw2 data
  else if data &&& 0x18 = 0x08 then some (self.writeOcw3 data)
  else some (self.writeIcw1 data)

def writePort2 (self : Chip) (data : Byte) : Option Chip :=
  if self.writeIcw = 0 then some { self with imr := data }
  else if h : self.writeIcw < 4 then
    let icw := self.icw.set self.writeIcw data
    let writeIcw := self.writeIcw + 1
    some { self with
      icw, writeIcw := if writeIcw ≥ 3 + (icw[0] &&& 1).toNat then 0 else writeIcw }
  else none

def readPort0 (self : Chip) : Byte := if self.ocw3 &&& ocw3Ris = 0 then self.irr else self.isr

def readPort2 (self : Chip) : Byte := self.imr

/-- The request bit is set, and whether it was clear before. -/
def request (self : Chip) (num : Level) : Bool × Chip :=
  (self.irr &&& bit num = 0, { self with irr := self.irr ||| bit num })

/-- The request bit is cleared, and whether it was set before. -/
def withdraw (self : Chip) (num : Level) : Bool × Chip :=
  (self.irr &&& bit num ≠ 0, { self with irr := self.irr &&& ~~~bit num })

/-- A request is taken into service. -/
def serve (self : Chip) (num : Level) : Chip :=
  { self with isr := self.isr ||| bit num, irr := self.irr &&& ~~~bit num }

end Chip

namespace I8259aPic

def new : I8259aPic where
  master := ⟨#v[masterIcw1, masterIcw2, masterIcw3, masterIcw4], masterImrDefault, 0, 0, 0, 0, 0⟩
  slave := ⟨#v[slaveIcw1, slaveIcw2, slaveIcw3, slaveIcw4], slaveImrDefault, 0, 0, 0, 0, 0⟩
  irqCache := none

def newZeroed : I8259aPic where
  master := ⟨#v[0, 0, 0, 0], 0, 0, 0, 0, 0, 0⟩
  slave := ⟨#v[0, 0, 0, 0], 0, 0, 0, 0, 0, 0⟩
  irqCache := none

def invalidateIrqCache (self : I8259aPic) : I8259aPic := { self with irqCache := none }

def chip (self : I8259aPic) : ChipIndex → Chip
  | .master => self.master
  | .slave => self.slave

def setChip (self : I8259aPic) (chip : Chip) : ChipIndex → I8259aPic
  | .master => { self with master := chip }
  | .slave => { self with slave := chip }

/-- The chip an interrupt line belongs to. -/
def chipOf (irq : Byte) : ChipIndex := if irq &&& 8 = 0 then .master else .slave

/-- A non-specific end of interrupt with nothing in service leaves the cache as it is. -/
def writePort0 (self : I8259aPic) (index : ChipIndex) (data : Byte) : Option I8259aPic :=
  match (self.chip index).writePort0 data with
  | none => none
  | some chip =>
    let after := self.setChip chip index
    if data &&& 0x18 = 0 ∧ data &&& ocw2Sl = 0 ∧ (self.chip index).isr = 0 then some after
    else some after.invalidateIrqCache

def writePort2 (self : I8259aPic) (index : ChipIndex) (data : Byte) : Option I8259aPic :=
  match (self.chip index).writePort2 data with
  | none => none
  | some chip => some (self.setChip chip index).invalidateIrqCache

def setIrq (self : I8259aPic) (irq : Byte) : Bool × I8259aPic :=
  let (changed, chip) := (self.chip (chipOf irq)).request (lowLevel irq)
  let after := self.setChip chip (chipOf irq)
  (changed, if changed then after.invalidateIrqCache else after)

def clearIrq (self : I8259aPic) (irq : Byte) : Bool × I8259aPic :=
  let (changed, chip) := (self.chip (chipOf irq)).withdraw (lowLevel irq)
  let after := self.setChip chip (chipOf irq)
  (changed, if changed then after.invalidateIrqCache else after)

/-- The master's level the slave says it is on. -/
def slaveLevel (self : I8259aPic) : Level := lowLevel self.slave.icw[2]

/-- The master has its slave on the line the slave says. -/
def Wired (self : I8259aPic) : Prop := self.master.icw[2] = bit self.slaveLevel

/-- The unmasked requests of the slave. -/
def sir (self : I8259aPic) : Byte := self.slave.irr &&& ~~~self.slave.imr

/-- The unmasked requests of the master, the slave's among them. -/
def mir (self : I8259aPic) : Byte :=
  (if self.sir ≠ 0 then self.master.irr ||| bit self.slaveLevel else self.master.irr) &&&
    ~~~self.master.imr

/-- What the slave asks for. -/
def findSlaveIrq (self : I8259aPic) : Option (Option PendingIrq) :=
  if self.sir = 0 then some none else
  match firstLevel (self.sir ||| self.slave.blockingIsr) self.slave.pry with
  | none => none
  | some snum => if Has self.slave.isr snum then some none else some (some (.slave snum))

def findPendingIrq (self : I8259aPic) : Option (Option PendingIrq) :=
  if self.mir = 0 then some none else
  match firstLevel (self.mir ||| self.master.blockingIsr) self.master.pry with
  | none => none
  | some num =>
    if Has self.master.icw[2] num then self.findSlaveIrq
    else if Has self.master.isr num then some none
    else some (some (.master num))

def hasPendingIrq (self : I8259aPic) : Option (Bool × I8259aPic) :=
  match self.irqCache with
  | some cached => some (cached, self)
  | none => self.findPendingIrq.map fun found =>
    (found.isSome, { self with irqCache := some found.isSome })

def acknowledgeWithLine (self : I8259aPic) : Option (Acknowledge × I8259aPic) :=
  let self := self.invalidateIrqCache
  match self.findPendingIrq with
  | none => none
  | some none => some (⟨none, self.master.icw[1] &&& 0xF8 ||| 7⟩, self)
  | some (some (.master num)) =>
    some (⟨some num, self.master.icw[1] &&& 0xF8 ||| BitVec.ofNat 8 num⟩,
      { self with master := self.master.serve num })
  | some (some (.slave num)) =>
    some (⟨some (8 + num), self.slave.icw[1] &&& 0xF8 ||| BitVec.ofNat 8 num⟩,
      { self with
        master := self.master.serve self.slaveLevel
        slave := self.slave.serve num })

/-- A chip as it is saved. -/
structure ChipState where
  icw : Vector Byte 4
  imr : Byte
  isr : Byte
  irr : Byte
  ocw3 : Byte
  pry : Byte
  writeIcw : Byte

def ChipState.restore (state : ChipState) : Option Chip :=
  if h : state.pry.toNat < 8 then
    if state.writeIcw.toNat > 4 then none
    else some ⟨state.icw, state.imr, state.isr, state.irr, state.ocw3, ⟨state.pry.toNat, h⟩,
      state.writeIcw.toNat⟩
  else none

/-- The chips are replaced by saved ones, if they are valid. -/
def restoreState (_self : I8259aPic) (master slave : ChipState) : Option I8259aPic := do
  return { master := ← master.restore, slave := ← slave.restore, irqCache := none }

end I8259aPic

/-! ### Runs -/

inductive Call where
  | writePort0 (index : ChipIndex) (data : Byte)
  | writePort2 (index : ChipIndex) (data : Byte)
  | setIrq (irq : Byte)
  | clearIrq (irq : Byte)
  | hasPendingIrq
  | acknowledge
  deriving DecidableEq, Repr

/-- The state after a call. -/
def Call.run (pic : I8259aPic) : Call → Option I8259aPic
  | .writePort0 index data => pic.writePort0 index data
  | .writePort2 index data => pic.writePort2 index data
  | .setIrq irq => some (pic.setIrq irq).2
  | .clearIrq irq => some (pic.clearIrq irq).2
  | .hasPendingIrq => pic.hasPendingIrq.map Prod.snd
  | .acknowledge => pic.acknowledgeWithLine.map Prod.snd

/-- A controller that has just been made, or restored. -/
inductive Start : I8259aPic → Prop where
  | new : Start .new
  | newZeroed : Start .newZeroed
  | restored {pic pic' : I8259aPic} {master slave : I8259aPic.ChipState} :
    pic.restoreState master slave = some pic' → Start pic'

end Neetan.Pic
