import Neetan.DwordMemory
import Mathlib.Logic.Function.Basic
import Mathlib.Data.Set.Basic

/-!
Address translation of the 80386 and 80486: the page-table walk, the translation lookaside
buffer, the cached code page, and the instructions that change what they depend on.

Only what translation reads of the processor is kept. A fault is an outcome; what delivering it
does to the processor is a change of context like any other.
-/

namespace Neetan.Paging

open DwordMemory

inductive CpuModel where
  | i386dx
  | i486dx
  | i386sx
  deriving DecidableEq, Repr

inductive AddressWidth where
  | width24
  | width32
  deriving DecidableEq, Repr

def AddressWidth.physicalAddressMask : AddressWidth → Dword
  | .width24 => 0x00FFFFFF
  | .width32 => 0xFFFFFFFF

def ptePresent : Dword := 0x01
def pteWritable : Dword := 0x02
def pteUser : Dword := 0x04
def pteAccessed : Dword := 0x20
def pteDirty : Dword := 0x40

/-- The page frame of a table entry, or the base in the control register. -/
def frameMask : Dword := 0xFFFFF000

def offsetMask : Dword := 0xFFF

def cr0Pe : Dword := 0x00000001
def cr0Ts : Dword := 0x00000008
def cr0Wp : Dword := 0x00010000
def cr0Pg : Dword := 0x80000000

inductive Fault where
  /-- A fault of this instruction has been raised already. -/
  | pending
  | exception (vector : ℕ) (errorCode : BitVec 16)
  deriving DecidableEq, Repr

/-- A slot of the translation lookaside buffer. -/
structure TlbSlot where
  valid : Bool
  tag : Dword
  phys : Dword
  writable : Bool
  user : Bool
  dirty : Bool
  deriving DecidableEq, Repr, Inhabited

structure I386 where
  cr0 : Dword
  cr2 : Dword
  cr3 : Dword
  eflagsUpper : Dword
  storedCpl : BitVec 16
  faultPending : Bool
  supervisorOverride : Bool
  fetchPageValid : Bool
  fetchPageTag : Dword
  fetchPagePhys : Dword
  fetchPageUser : Bool
  tlb : Fin 64 → TlbSlot

/-- What a step returns, the processor after it, and the memory. -/
structure Step where
  result : Except Fault Address
  cpu : I386
  mem : Memory

/-- The slot of a page. -/
def slotOf (page : Dword) : Fin 64 := ⟨(page &&& 63).toNat, by
  rw [BitVec.toNat_and]
  exact Nat.lt_succ_of_le Nat.and_le_right⟩

def pageOf (linear : Address) : Dword := linear >>> 12

def dirIndex (linear : Address) : Dword := linear >>> 22 &&& 0x3FF

def tableIndex (linear : Address) : Dword := linear >>> 12 &&& 0x3FF

def pdeAddr (cr3 : Dword) (linear : Address) : Address := cr3 &&& frameMask ||| dirIndex linear <<< 2

def pteAddr (pde : Dword) (linear : Address) : Address :=
  pde &&& frameMask ||| tableIndex linear <<< 2

def readDwordPhysRaw (mem : Memory) (addr : Address) : Dword :=
  if addr &&& offsetMask ≤ 0xFFC then readDword mem addr
  else mem (addr + 3) ++ mem (addr + 2) ++ mem (addr + 1) ++ mem addr

def writeDwordPhysRaw (mem : Memory) (addr : Address) (value : Dword) : Memory :=
  if addr &&& offsetMask ≤ 0xFFC then writeDword mem addr value
  else fun a => if a - addr < 4 then value.extractLsb' (8 * (a - addr).toNat) 8 else mem a

namespace I386

def isProtectedMode (self : I386) : Bool := self.cr0 &&& cr0Pe ≠ 0

def isVirtualMode (self : I386) : Bool :=
  self.isProtectedMode && decide (self.eflagsUpper &&& 0x00020000 ≠ 0)

def cpl (self : I386) : BitVec 16 :=
  if self.isVirtualMode then 3 else if !self.isProtectedMode then 0 else self.storedCpl

def isUserPageAccess (self : I386) : Bool := self.cpl == 3 && !self.supervisorOverride

def isPagingEnabled (self : I386) : Bool := self.cr0 &&& 0x80000001 = 0x80000001

def flushTlb (self : I386) : I386 :=
  { self with
    tlb := fun slot => { self.tlb slot with valid := false, dirty := false, user := false }
    fetchPageValid := false
    fetchPageUser := false }

/-! ### Translation -/

def raisePageFault (self : I386) (linear : Address) (write present : Bool) (mem : Memory) : Step :=
  let errorCode : BitVec 16 := 0
  let errorCode := if present then errorCode ||| 1 else errorCode
  let errorCode := if write then errorCode ||| 2 else errorCode
  let errorCode := if self.isUserPageAccess then errorCode ||| 4 else errorCode
  ⟨.error (.exception 14 errorCode), { self with cr2 := linear, faultPending := true }, mem⟩

/-- The write-protect bit is enforced for the supervisor, on the model that has it. -/
def wpEnforced (model : CpuModel) (self : I386) : Bool :=
  model == .i486dx && decide (self.cr0 &&& cr0Wp ≠ 0)

/-- The entries do not permit the access. -/
def denied (model : CpuModel) (self : I386) (pde pte : Dword) (write : Bool) : Bool :=
  let isUser := self.isUserPageAccess
  if isUser then
    decide (pde &&& pteUser = 0 ∨ pte &&& pteUser = 0) ||
      write && decide (pde &&& pteWritable = 0 ∨ pte &&& pteWritable = 0)
  else
    write && wpEnforced model self &&
      decide (pde &&& pteWritable = 0 ∨ pte &&& pteWritable = 0)

def pageTableWalk (model : CpuModel) (self : I386) (linear : Address) (write : Bool)
    (mem : Memory) : Step :=
  let pdeAddr := pdeAddr self.cr3 linear
  let pde := readDwordPhysRaw mem pdeAddr
  if pde &&& ptePresent = 0 then self.raisePageFault linear write false mem else
  let pteAddr := pteAddr pde linear
  let pte := readDwordPhysRaw mem pteAddr
  if pte &&& ptePresent = 0 then self.raisePageFault linear write false mem
  else if denied model self pde pte write then self.raisePageFault linear write true mem
  else
    let mem := if pde &&& pteAccessed = 0 then
      writeDwordPhysRaw mem pdeAddr (pde ||| pteAccessed) else mem
    let newPte := pte ||| pteAccessed
    let newPte := if write then newPte ||| pteDirty else newPte
    let mem := if newPte ≠ pte then writeDwordPhysRaw mem pteAddr newPte else mem
    let physicalPage := pte &&& frameMask
    let slot : TlbSlot :=
      { valid := true
        tag := pageOf linear
        phys := physicalPage
        dirty := write
        writable := pde &&& pteWritable ≠ 0 ∧ pte &&& pteWritable ≠ 0
        user := pde &&& pteUser ≠ 0 ∧ pte &&& pteUser ≠ 0 }
    ⟨.ok (physicalPage ||| linear &&& offsetMask),
      { self with tlb := Function.update self.tlb (slotOf (pageOf linear)) slot }, mem⟩

def translateLinear (model : CpuModel) (width : AddressWidth) (self : I386) (linear : Address)
    (write : Bool) (mem : Memory) : Step :=
  if self.faultPending then ⟨.error .pending, self, mem⟩
  else if !self.isPagingEnabled then ⟨.ok (linear &&& width.physicalAddressMask), self, mem⟩
  else
    let slot := self.tlb (slotOf (pageOf linear))
    if slot.valid ∧ slot.tag = pageOf linear then
      let isUser := self.isUserPageAccess
      if isUser ∧ !slot.user then self.raisePageFault linear write true mem
      else if write ∧ (isUser ∨ wpEnforced model self) ∧ !slot.writable then
        self.raisePageFault linear write true mem
      else if write ∧ !slot.dirty then pageTableWalk model self linear write mem
      else ⟨.ok (slot.phys ||| linear &&& offsetMask), self, mem⟩
    else pageTableWalk model self linear write mem

def fetchPhysicalAddress (model : CpuModel) (width : AddressWidth) (self : I386)
    (linear : Address) (mem : Memory) : Step :=
  let page := pageOf linear
  if self.fetchPageValid ∧ self.fetchPageTag = page ∧
      (!self.isUserPageAccess ∨ self.fetchPageUser) then
    ⟨.ok (self.fetchPagePhys ||| linear &&& offsetMask), self, mem⟩
  else
    match translateLinear model width self linear false mem with
    | ⟨.error fault, cpu, mem⟩ => ⟨.error fault, cpu, mem⟩
    | ⟨.ok addr, cpu, mem⟩ =>
      let slot := cpu.tlb (slotOf page)
      ⟨.ok addr, { cpu with
        fetchPageValid := true
        fetchPageTag := page
        fetchPagePhys := addr &&& ~~~offsetMask
        fetchPageUser := if cpu.isPagingEnabled then
          decide (slot.valid ∧ slot.tag = page ∧ slot.user) else true }, mem⟩

/-! ### Instructions -/

/-- The privileged instructions raise a general protection fault outside level 0. -/
def privileged (self : I386) : Bool := !self.isProtectedMode || self.cpl == 0

def movCrR32 (model : CpuModel) (self : I386) (crNum : BitVec 3) (value : Dword) :
    Except Fault I386 :=
  if !self.privileged then .error (.exception 13 0)
  else if crNum = 0 then
    let oldCr0 := self.cr0
    let cr0Mask : Dword := if model = .i486dx then 0xE005003F else 0x8000001F
    let self := { self with cr0 := value &&& cr0Mask }
    .ok (if (oldCr0 ^^^ self.cr0) &&& 0x80010001 ≠ 0 then self.flushTlb else self)
  else if crNum = 2 then .ok { self with cr2 := value }
  else if crNum = 3 then .ok { self with cr3 := value }.flushTlb
  else .error (.exception 6 0)

def lmsw (self : I386) (value : BitVec 16) : Except Fault I386 :=
  if !self.privileged then .error (.exception 13 0)
  else .ok { self with
    cr0 := self.cr0 &&& 0xFFFFFFF0 ||| value.setWidth 32 &&& 0x000F ||| self.cr0 &&& 1 }

def invlpg (model : CpuModel) (self : I386) (linear : Address) : Except Fault I386 :=
  if model ≠ .i486dx then .error (.exception 6 0)
  else if !self.privileged then .error (.exception 13 0)
  else
    let page := pageOf linear
    let slot := slotOf page
    let tlb := if (self.tlb slot).valid ∧ (self.tlb slot).tag = page then
      Function.update self.tlb slot { self.tlb slot with valid := false } else self.tlb
    .ok { self with tlb, fetchPageValid := false }

def clts (self : I386) : Except Fault I386 :=
  if !self.privileged then .error (.exception 13 0)
  else .ok { self with cr0 := self.cr0 &&& ~~~cr0Ts }

/-- What a task switch does to the control registers. -/
def switchTaskControl (self : I386) (is386Tss : Bool) (ntssCr3 : Dword) : I386 :=
  let self := if is386Tss ∧ self.isPagingEnabled then { self with cr3 := ntssCr3 }.flushTlb else self
  { self with cr0 := self.cr0 ||| cr0Ts }

/-- The processor after a reset, with a coprocessor. -/
def reset : I386 where
  cr0 := 0x00000010
  cr2 := 0
  cr3 := 0
  eflagsUpper := 0
  storedCpl := 0
  faultPending := false
  supervisorOverride := false
  fetchPageValid := false
  fetchPageTag := 0
  fetchPagePhys := 0
  fetchPageUser := false
  tlb := fun _ => ⟨false, 0, 0, false, false, false⟩

end I386

/-! ### Runs -/

/-- What happens: instructions that change the control registers, changes of the level of
privilege and of the fault state, accesses, and writes to memory by anyone. -/
inductive Event where
  | movCrR32 (crNum : BitVec 3) (value : Dword)
  | lmsw (value : BitVec 16)
  | invlpg (linear : Address)
  | clts
  | switchTask (is386Tss : Bool) (ntssCr3 : Dword)
  | context (eflagsUpper : Dword) (storedCpl : BitVec 16) (faultPending supervisorOverride : Bool)
  | translate (linear : Address) (write : Bool)
  | fetch (linear : Address)
  | store (mem : Memory)

/-- The processor, the memory, and the pages whose tables have been changed without a load of
CR3 or an INVLPG of the page since. -/
structure System where
  cpu : I386
  mem : Memory
  changed : Set Dword

/-- The page directory entry of an address. -/
def pdeOf (cr3 : Dword) (mem : Memory) (linear : Address) : Dword :=
  readDword mem (pdeAddr cr3 linear)

/-- The page table entry of an address. -/
def pteOf (cr3 : Dword) (mem : Memory) (linear : Address) : Dword :=
  readDword mem (pteAddr (pdeOf cr3 mem linear) linear)

/-- The tables say the same of the address. -/
def SameEntries (cr3 : Dword) (mem mem' : Memory) (linear : Address) : Prop :=
  pdeOf cr3 mem' linear = pdeOf cr3 mem linear ∧
    (pdeOf cr3 mem linear &&& ptePresent ≠ 0 → pteOf cr3 mem' linear = pteOf cr3 mem linear)

namespace System

def reset (mem : Memory) : System := ⟨.reset, mem, ∅⟩

def afterInstruction (self : System) : Except Fault I386 → System
  | .error _ => self
  | .ok cpu => { self with cpu }

def run (model : CpuModel) (width : AddressWidth) (self : System) : Event → System
  | .movCrR32 crNum value =>
    let after := self.afterInstruction (self.cpu.movCrR32 model crNum value)
    { after with changed := if crNum = 3 ∧ self.cpu.privileged then ∅ else self.changed }
  | .lmsw value => self.afterInstruction (self.cpu.lmsw value)
  | .invlpg linear =>
    let after := self.afterInstruction (self.cpu.invlpg model linear)
    { after with changed := if model = .i486dx ∧ self.cpu.privileged then
        self.changed \ {pageOf linear} else self.changed }
  | .clts => self.afterInstruction self.cpu.clts
  | .switchTask is386Tss ntssCr3 =>
    { self with
      cpu := self.cpu.switchTaskControl is386Tss ntssCr3
      changed := if is386Tss ∧ self.cpu.isPagingEnabled then ∅ else self.changed }
  | .context eflagsUpper storedCpl faultPending supervisorOverride =>
    { self with cpu := { self.cpu with
      eflagsUpper, storedCpl, faultPending, supervisorOverride } }
  | .translate linear write =>
    let step := self.cpu.translateLinear model width linear write self.mem
    { self with cpu := step.cpu, mem := step.mem }
  | .fetch linear =>
    let step := self.cpu.fetchPhysicalAddress model width linear self.mem
    { self with cpu := step.cpu, mem := step.mem }
  | .store mem =>
    { self with
      mem
      changed := self.changed ∪
        {page | ∃ linear, pageOf linear = page ∧ ¬ SameEntries self.cpu.cr3 self.mem mem linear} }

/-- The states of the runs from a reset whose every event is allowed. -/
inductive Reachable (model : CpuModel) (width : AddressWidth) (allowed : System → Event → Prop) :
    System → Prop
  | reset (mem : Memory) : Reachable model width allowed (.reset mem)
  | step {self : System} {event : Event} : Reachable model width allowed self →
    allowed self event → Reachable model width allowed (self.run model width event)

end System

end Neetan.Paging
