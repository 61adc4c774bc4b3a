import Mathlib.Algebra.Ring.Nat
import Mathlib.Tactic.Common

/-!
The prefixes of an instruction of the i386 core: the loop that consumes them, the one behind a
repeat prefix, the resumption of an interrupted repeat, and the look-ahead behind a branch.

Each loop is a machine that takes one byte in a step.
-/

namespace Neetan.Prefixes

abbrev Byte : Type := BitVec 8

abbrev Word : Type := BitVec 16

abbrev Dword : Type := BitVec 32

inductive SegReg32
  | es
  | cs
  | ss
  | ds
  | fs
  | gs
  deriving DecidableEq, Repr

/-- The memory, and the physical address of a linear one for a fetch, if it has one. -/
structure Bus where
  memory : Dword → Byte
  translateLinear : Dword → Option Dword

/-! ### Fetching -/

/-- What a fetch reads and writes of the processor. -/
structure Code where
  ip : Word
  ipUpper : Dword
  csBase : Dword
  csLimit : Dword
  faultPending : Bool
  prefetchValid : Bool
  prefetchAddr : Dword
  prefetchByte : Byte
  deriving DecidableEq, Repr

namespace Code

variable (c : Code) (bus : Bus)

def effectiveEip : Dword := c.ipUpper ||| c.ip.setWidth 32

def advanceIpByte : Code :=
  let next := c.effectiveEip + 1
  { c with ip := next.setWidth 16, ipUpper := next &&& 0xFFFF0000 }

/-- The next code byte, unless the fetch raises a fault. -/
def fetch : Option (Byte × Code) :=
  if c.faultPending then none
  else if c.csLimit < c.effectiveEip then none
  else do
    let addr ← bus.translateLinear (c.csBase + c.effectiveEip)
    let value := if c.prefetchValid && c.prefetchAddr == addr then c.prefetchByte
      else bus.memory addr
    let nextAddr := addr + 1
    let c := c.advanceIpByte
    if nextAddr &&& 0xFFF ≠ 0 then
      return (value, { c with
        prefetchAddr := nextAddr, prefetchByte := bus.memory nextAddr, prefetchValid := true })
    else return (value, { c with prefetchValid := false })

/-- The next code byte, which stays the next one. -/
def peekByte : Option Byte :=
  if c.csLimit < c.effectiveEip then none
  else do
    let addr ← bus.translateLinear (c.csBase + c.effectiveEip)
    return if c.prefetchValid && c.prefetchAddr == addr then c.prefetchByte else bus.memory addr

end Code

/-! ### Prefixes -/

/-- The processor behind the interrupt check of `execute_one`. -/
structure I386 where
  code : Code
  codeSegment32 : Bool
  segPrefix : Option SegReg32
  operandSizeOverride : Bool
  addressSizeOverride : Bool
  lockPrefix : Bool
  ecx : Dword
  repActive : Bool
  repIp : Word
  repIpUpper : Dword
  repSegPrefix : Option SegReg32
  repOpcode : Byte
  repOperandSizeOverride : Bool
  repAddressSizeOverride : Bool
  deriving DecidableEq, Repr

namespace I386

variable (cpu : I386)

/-- What `execute_one` clears before it fetches. -/
def beginInstruction : I386 :=
  { cpu with
    segPrefix := none
    lockPrefix := false
    operandSizeOverride := cpu.codeSegment32
    addressSizeOverride := cpu.codeSegment32 }

/-- The saved state of an interrupted repeat, taken back. -/
def resumeRep : I386 :=
  { cpu with
    code := { cpu.code with ip := cpu.repIp, ipUpper := cpu.repIpUpper }
    segPrefix := cpu.repSegPrefix
    operandSizeOverride := cpu.repOperandSizeOverride
    addressSizeOverride := cpu.repAddressSizeOverride
    repActive := false }

def repCount : Dword :=
  if cpu.addressSizeOverride then cpu.ecx else (cpu.ecx.setWidth 16).setWidth 32

/-- The effect of a prefix of the loop behind a repeat prefix. -/
def takeRepPrefix (opcode : Byte) : Option I386 :=
  if opcode = 0x26 then some { cpu with segPrefix := some .es }
  else if opcode = 0x2E then some { cpu with segPrefix := some .cs }
  else if opcode = 0x36 then some { cpu with segPrefix := some .ss }
  else if opcode = 0x3E then some { cpu with segPrefix := some .ds }
  else if opcode = 0x64 then some { cpu with segPrefix := some .fs }
  else if opcode = 0x65 then some { cpu with segPrefix := some .gs }
  else if opcode = 0x66 then some { cpu with operandSizeOverride := !cpu.codeSegment32 }
  else if opcode = 0x67 then some { cpu with addressSizeOverride := !cpu.codeSegment32 }
  else if opcode = 0xF0 then some cpu
  else none

/-- The effect of a prefix of the first loop, which also takes the lock. -/
def takePrefix (opcode : Byte) : Option I386 :=
  if opcode = 0xF0 then some { cpu with lockPrefix := true } else cpu.takeRepPrefix opcode

end I386

def isLockable (opcode : Byte) : Bool :=
  opcode ∈ [0x00, 0x01, 0x08, 0x09, 0x10, 0x11, 0x18, 0x19, 0x20, 0x21, 0x28, 0x29, 0x30, 0x31,
    0x80, 0x81, 0x82, 0x83, 0x86, 0x87, 0xF6, 0xF7, 0xFE, 0xFF]

def lockableModrmIsRegister (modrm : Byte) : Bool := modrm &&& 0xC0 = 0xC0

def isRepStringOpcode (opcode : Byte) : Bool :=
  opcode ∈ [0x6C, 0x6D, 0x6E, 0x6F, 0xA4, 0xA5, 0xA6, 0xA7, 0xAA, 0xAB, 0xAC, 0xAD, 0xAE, 0xAF]

/-- How the decoding of prefixes ends. -/
inductive Outcome
  /-- A fetch raised a fault. -/
  | fault
  | generalProtection
  | invalidOpcode
  /-- The opcode is dispatched. -/
  | instruction (opcode : Byte)
  /-- The count of a repeat is zero. -/
  | repCompleted
  /-- The string instruction is repeated. -/
  | string (opcode : Byte)
  deriving DecidableEq, Repr

inductive Phase
  /-- The loop of `execute_with_prefixes`. -/
  | prefixes (prefixCount : ℕ) (opcode : Byte)
  /-- The loop of `start_rep`. -/
  | rep (next : Byte)
  | done (outcome : Outcome)
  deriving DecidableEq, Repr

/-- The decoding of an instruction, with the bytes fetched and the calls of `dispatch`. -/
structure Run where
  phase : Phase
  cpu : I386
  fetched : ℕ
  dispatches : ℕ
  deriving DecidableEq, Repr

namespace Run

variable (bus : Bus) (r : Run)

/-- A fetch, and the phase with its byte. -/
def fetchThen (phase : Byte → Phase) : Run :=
  match r.cpu.code.fetch bus with
  | none => { r with phase := .done .fault }
  | some (value, code) =>
    { r with phase := phase value, cpu := { r.cpu with code }, fetched := r.fetched + 1 }

/-- A repeat prefix starts the loop behind it; every other opcode ends the decoding. -/
def dispatch (opcode : Byte) : Run :=
  let r := { r with dispatches := r.dispatches + 1 }
  if opcode = 0xF2 ∨ opcode = 0xF3 then r.fetchThen bus .rep
  else { r with phase := .done (.instruction opcode) }

/-- A repeat of a string instruction ends the decoding; another opcode is dispatched. -/
def doRep (next : Byte) : Run :=
  if r.cpu.repCount = 0 then { r with phase := .done .repCompleted }
  else if isRepStringOpcode next then { r with phase := .done (.string next) }
  else r.dispatch bus next

def continueRep : Run := { r with cpu := r.cpu.resumeRep }.doRep bus r.cpu.repOpcode

/-- The opcode behind the prefixes, which a lock prefix has to fit. -/
def opcodeAt (opcode : Byte) : Run :=
  if r.cpu.lockPrefix && opcode != 0x0F && !isLockable opcode then
    { r with phase := .done .invalidOpcode }
  else if r.cpu.lockPrefix && isLockable opcode then
    match r.cpu.code.peekByte bus with
    | none => { r with phase := .done .fault }
    | some modrm =>
      if lockableModrmIsRegister modrm then { r with phase := .done .invalidOpcode }
      else r.dispatch bus opcode
  else r.dispatch bus opcode

/-- One round of a loop. -/
def step : Run :=
  match r.phase with
  | .prefixes prefixCount opcode =>
    match r.cpu.takePrefix opcode with
    | some cpu =>
      if 14 ≤ prefixCount then { r with phase := .done .generalProtection }
      else { r with cpu }.fetchThen bus (.prefixes (prefixCount + 1))
    | none => r.opcodeAt bus opcode
  | .rep next =>
    match r.cpu.takeRepPrefix next with
    | some cpu => { r with cpu }.fetchThen bus .rep
    | none =>
      if isRepStringOpcode next then r.doRep bus next
      else r.dispatch bus next
  | .done _ => r

/-- Before the first byte. -/
def initial (cpu : I386) : Run where
  phase := .done .fault
  cpu := cpu.beginInstruction
  fetched := 0
  dispatches := 0

/-- The decoding of an instruction behind its first byte, or an interrupted repeat resumed. -/
def start (cpu : I386) : Run :=
  if cpu.repActive then (initial cpu).continueRep bus
  else (initial cpu).fetchThen bus (.prefixes 0)

end Run

/-! ### The look-ahead -/

/-- The bytes that the look-ahead steps over. -/
def isPrefix (byte : Byte) : Bool :=
  byte ∈ [0x26, 0x2E, 0x36, 0x3E, 0x64, 0x65, 0x66, 0x67, 0xF0, 0xF2, 0xF3]

def opcode0fHasModrm (opcode : Byte) : Bool :=
  !(opcode ∈ [0x06, 0x08, 0x09, 0x0B, 0xA0, 0xA1, 0xA2, 0xA8, 0xA9] ∨
    0x80 ≤ opcode ∧ opcode ≤ 0x8F)

def opcodeHasModrm (opcode : Byte) : Bool :=
  let hasModrm : List Dword := [0x0F0F0F0F, 0x0F0F0F0F, 0, 0x00000A0C, 0x0000FFFF, 0, 0xFF0F00F3,
    0xC0C00000]
  let idx := (opcode >>> 5).toNat
  let bit := (opcode &&& 0x1F).toNat
  hasModrm.getD idx 0 >>> bit &&& 1 != 0

/-- The look-ahead, with the bytes inspected. -/
inductive Look
  | scanning (eip : Dword) (length inspected : ℕ)
  | found (length inspected : ℕ)
  deriving DecidableEq, Repr

namespace Look

variable (bus : Bus) (csBase : Dword) (code32bit : Bool)

/-- The next offset, which wraps by the size of the code segment. -/
def nextEip (eip : Dword) : Dword :=
  if code32bit then eip + 1 else (eip.setWidth 16 + 1).setWidth 32

def address (eip : Dword) : Dword := (csBase + eip) &&& 0xFFFFFF

/-- The length by the opcode, which is read again. -/
def opcodeLength (eip : Dword) (length inspected : ℕ) : Look :=
  let opcodeAddr := address csBase eip
  let opcode := bus.memory opcodeAddr
  let length := length + 1
  let inspected := inspected + 1
  if opcode = 0x0F then
    let opcode2 := bus.memory ((opcodeAddr + 1) &&& 0xFFFFFF)
    .found (length + 1 + if opcode0fHasModrm opcode2 then 1 else 0) (inspected + 1)
  else .found (length + if opcodeHasModrm opcode then 1 else 0) inspected

def step : Look → Look
  | scanning eip length inspected =>
    if isPrefix (bus.memory (address csBase eip)) then
      scanning (nextEip code32bit eip) (length + 1) (inspected + 1)
    else opcodeLength bus csBase eip length (inspected + 1)
  | found length inspected => found length inspected

end Look

end Neetan.Prefixes
