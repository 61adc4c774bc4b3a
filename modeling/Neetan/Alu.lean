import Mathlib.Algebra.Ring.Nat
import Mathlib.Tactic.Common
import Mathlib.Data.Nat.Bits

/-!
The arithmetic unit of the i386 core: the flags, which are stored as the values they are computed
from, and the routines for each width that set them.

The stored values denote the flags; packing and unpacking them keeps what they denote.
-/

namespace Neetan.Alu

abbrev Byte : Type := BitVec 8

abbrev Word : Type := BitVec 16

abbrev Dword : Type := BitVec 32

abbrev Qword : Type := BitVec 64

def u32From (b : Bool) : Dword := if b then 1 else 0

/-! ### Flags -/

/-- The ones of a value, on top of some. -/
def ones (v bits : ℕ) : ℕ := if v = 0 then bits else ones (v / 2) (bits + v % 2)

def parityTable (i : Byte) : Bool := ones i.toNat 0 % 2 = 0

structure I386Flags where
  signVal : Dword
  zeroVal : Dword
  carryVal : Dword
  overflowVal : Dword
  auxVal : Dword
  parityVal : Dword
  tf : Bool
  ifFlag : Bool
  df : Bool
  iopl : Byte
  nt : Bool
  deriving DecidableEq, Repr

namespace I386Flags

variable (f : I386Flags)

def cf : Bool := f.carryVal != 0

def sf : Bool := f.signVal.slt 0

def zf : Bool := f.zeroVal == 0

def pf : Bool := parityTable ((f.parityVal &&& 0xFF).setWidth 8)

def af : Bool := f.auxVal != 0

def of : Bool := f.overflowVal != 0

def cfVal : Dword := u32From (f.carryVal != 0)

def bit (b : Bool) (shift : ℕ) : Word := (BitVec.ofBool b).setWidth 16 <<< shift

/-- The packed flags. -/
def compress : Word :=
  bit f.cf 0 ||| (0x0002 : Word) ||| bit f.pf 2 ||| bit f.af 4 ||| bit f.zf 6 ||| bit f.sf 7 |||
    bit f.tf 8 ||| bit f.ifFlag 9 ||| bit f.df 10 ||| bit f.of 11 |||
    (f.iopl &&& 3).setWidth 16 <<< 12 ||| bit f.nt 14

/-- The flags of a packed value, which sets every field. -/
def expand (value : Word) : I386Flags where
  carryVal := (value &&& 0x0001).setWidth 32
  parityVal := if value &&& 0x0004 != 0 then 0 else 1
  auxVal := (value &&& 0x0010).setWidth 32
  zeroVal := if value &&& 0x0040 != 0 then 0 else 1
  signVal := if value &&& 0x0080 != 0 then -1 else 0
  tf := value &&& 0x0100 != 0
  ifFlag := value &&& 0x0200 != 0
  df := value &&& 0x0400 != 0
  overflowVal := (value &&& 0x0800).setWidth 32
  iopl := (value >>> 12 &&& 3).setWidth 8
  nt := value &&& 0x4000 != 0

/-! The setters of bytes and words differ in the width only. -/

def setCf (w : ℕ) (result : Dword) : I386Flags :=
  { f with carryVal := result &&& BitVec.twoPow 32 w }

def setCfByte : Dword → I386Flags := f.setCf 8

def setCfWord : Dword → I386Flags := f.setCf 16

def setCfDword (result : Qword) : I386Flags :=
  { f with carryVal := (result >>> 32 &&& 1).setWidth 32 }

def setAf (result src dst : Dword) : I386Flags :=
  { f with auxVal := (result ^^^ (src ^^^ dst)) &&& 0x10 }

def setOfAdd (w : ℕ) (result src dst : Dword) : I386Flags :=
  { f with
    overflowVal := (result ^^^ src) &&& (result ^^^ dst) &&& BitVec.twoPow 32 (w - 1) }

def setOfAddByte : Dword → Dword → Dword → I386Flags := f.setOfAdd 8

def setOfAddWord : Dword → Dword → Dword → I386Flags := f.setOfAdd 16

def setOfAddDword : Dword → Dword → Dword → I386Flags := f.setOfAdd 32

def setOfSub (w : ℕ) (result src dst : Dword) : I386Flags :=
  { f with
    overflowVal := (dst ^^^ src) &&& (dst ^^^ result) &&& BitVec.twoPow 32 (w - 1) }

def setOfSubByte : Dword → Dword → Dword → I386Flags := f.setOfSub 8

def setOfSubWord : Dword → Dword → Dword → I386Flags := f.setOfSub 16

def setOfSubDword : Dword → Dword → Dword → I386Flags := f.setOfSub 32

def setSzpf (w : ℕ) (result : Dword) : I386Flags :=
  { f with
    signVal := (result.setWidth w).signExtend 32
    zeroVal := result &&& BitVec.ofNat 32 (2 ^ w - 1)
    parityVal := result }

def setSzpfByte : Dword → I386Flags := f.setSzpf 8

def setSzpfWord : Dword → I386Flags := f.setSzpf 16

def setSzpfDword (result : Dword) : I386Flags :=
  { f with signVal := result, zeroVal := result, parityVal := result }

end I386Flags

/-- A result and the flags behind it. -/
abbrev Out (w : ℕ) : Type := BitVec w × I386Flags

/-! ### Sums and differences

Bytes and words are summed up in 32 bits, double words in 64. -/

section Narrow

variable {w : ℕ} (f : I386Flags)

def addFlags (w : ℕ) (result src dst : Dword) : I386Flags :=
  (((f.setCf w result).setOfAdd w result src dst).setAf result src dst).setSzpf w result

def subFlags (w : ℕ) (result src dst : Dword) : I386Flags :=
  (((f.setCf w result).setOfSub w result src dst).setAf result src dst).setSzpf w result

def add (dst src : BitVec w) : Out w :=
  let result := dst.setWidth 32 + src.setWidth 32
  (result.setWidth w, addFlags f w result (src.setWidth 32) (dst.setWidth 32))

def adc (dst src : BitVec w) (cf : Dword) : Out w :=
  let result := dst.setWidth 32 + src.setWidth 32 + cf
  (result.setWidth w, addFlags f w result (src.setWidth 32) (dst.setWidth 32))

def sbb (dst src : BitVec w) (cf : Dword) : Out w :=
  let result := dst.setWidth 32 - src.setWidth 32 - cf
  (result.setWidth w, subFlags f w result (src.setWidth 32) (dst.setWidth 32))

def sub (dst src : BitVec w) : Out w :=
  let result := dst.setWidth 32 - src.setWidth 32
  (result.setWidth w, subFlags f w result (src.setWidth 32) (dst.setWidth 32))

def inc (val : BitVec w) : Out w :=
  let result := val.setWidth 32 + 1
  (result.setWidth w,
    ((f.setOfAdd w result 1 (val.setWidth 32)).setAf result 1 (val.setWidth 32)).setSzpf w result)

def dec (val : BitVec w) : Out w :=
  let result := val.setWidth 32 - 1
  (result.setWidth w,
    ((f.setOfSub w result 1 (val.setWidth 32)).setAf result 1 (val.setWidth 32)).setSzpf w result)

def neg (val : BitVec w) : Out w :=
  let result := 0 - val.setWidth 32
  let f := { f with carryVal := if val ≠ 0 then 1 else 0 }
  (result.setWidth w,
    ((f.setOfSub w result (val.setWidth 32) 0).setAf result (val.setWidth 32) 0).setSzpf w result)

end Narrow

section Members

variable (f : I386Flags)

def aluAddByte : Byte → Byte → Out 8 := add f

def aluAddWord : Word → Word → Out 16 := add f

def aluAddDword (dst src : Dword) : Out 32 :=
  let result64 : Qword := dst.setWidth 64 + src.setWidth 64
  let result := result64.setWidth 32
  (result,
    (((f.setCfDword result64).setOfAddDword result src dst).setAf result src dst).setSzpfDword
      result)

def aluAdcByte : Byte → Byte → Dword → Out 8 := adc f

def aluAdcWord : Word → Word → Dword → Out 16 := adc f

def aluAdcDword (dst src cf : Dword) : Out 32 :=
  let result64 : Qword := dst.setWidth 64 + src.setWidth 64 + cf.setWidth 64
  let result := result64.setWidth 32
  (result,
    (((f.setCfDword result64).setOfAddDword result src dst).setAf result src dst).setSzpfDword
      result)

def aluSbbByte : Byte → Byte → Dword → Out 8 := sbb f

def aluSbbWord : Word → Word → Dword → Out 16 := sbb f

def aluSbbDword (dst src cf : Dword) : Out 32 :=
  let result := dst - src - cf
  let f := { f with
    carryVal := u32From ((dst.setWidth 64).ult (src.setWidth 64 + cf.setWidth 64)) }
  (result,
    ((f.setOfSubDword result src dst).setAf result src dst).setSzpfDword result)

def aluSubByte : Byte → Byte → Out 8 := sub f

def aluSubWord : Word → Word → Out 16 := sub f

def aluSubDword (dst src : Dword) : Out 32 :=
  let result := dst - src
  let f := { f with carryVal := u32From (dst.ult src) }
  (result,
    ((f.setOfSubDword result src dst).setAf result src dst).setSzpfDword result)

def aluIncByte : Byte → Out 8 := inc f

def aluIncWord : Word → Out 16 := inc f

def aluIncDword (val : Dword) : Out 32 :=
  let result := val + 1
  (result, ((f.setOfAddDword result 1 val).setAf result 1 val).setSzpfDword result)

def aluDecByte : Byte → Out 8 := dec f

def aluDecWord : Word → Out 16 := dec f

def aluDecDword (val : Dword) : Out 32 :=
  let result := val - 1
  (result, ((f.setOfSubDword result 1 val).setAf result 1 val).setSzpfDword result)

def aluNegByte : Byte → Out 8 := neg f

def aluNegWord : Word → Out 16 := neg f

def aluNegDword (val : Dword) : Out 32 :=
  let result := 0 - val
  let f := { f with carryVal := u32From (val != 0) }
  (result, ((f.setOfSubDword result val 0).setAf result val 0).setSzpfDword result)

end Members

/-! ### Shifts

A count is masked by `0x1F`, and a masked count of zero leaves everything as it is. -/

section Narrow

variable {w : ℕ} (f : I386Flags)

def shl (val : BitVec w) (count : Byte) : Out w :=
  let count := (count &&& 0x1F).toNat
  if count = 0 then (val, f)
  else
    let result := if count < w then val.setWidth 32 <<< count else 0
    let carryVal :=
      if count ≤ w then (val.setWidth 32 <<< (count - 1)) &&& BitVec.twoPow 32 (w - 1)
      else if count &&& (w - 1) = 0 then (val.setWidth 32 &&& 1) <<< (w - 1)
      else 0
    let f := { f with carryVal }
    let overflowVal := ((result >>> (w - 1) &&& 1) ^^^ f.cfVal) * BitVec.twoPow 32 (w - 1)
    (result.setWidth w, { f with overflowVal, auxVal := 0 }.setSzpf w result)

def shr (val : BitVec w) (count : Byte) : Out w :=
  let count := (count &&& 0x1F).toNat
  if count = 0 then (val, f)
  else
    let overflowVal := if count = 1 then val.setWidth 32 &&& BitVec.twoPow 32 (w - 1) else 0
    let carryVal : Dword :=
      if count < w then (val >>> (count - 1) &&& 1).setWidth 32
      else if count = w ∨ w < count ∧ count &&& (w - 1) = 0 then (val >>> (w - 1)).setWidth 32
      else 0
    let result := if count < w then val >>> count else 0
    (result, { f with carryVal, overflowVal, auxVal := 0 }.setSzpf w (result.setWidth 32))

def sar (val : BitVec w) (count : Byte) : Out w :=
  let count := (count &&& 0x1F).toNat
  if count = 0 then (val, f)
  else
    let carryVal : Dword :=
      if count < w then (val.sshiftRight (count - 1) &&& 1).signExtend 32
      else if val.slt 0 then 1
      else 0
    let result := if count < w then val.sshiftRight count else val.sshiftRight (w - 1)
    (result, { f with carryVal, overflowVal := 0, auxVal := 0 }.setSzpf w (result.setWidth 32))

end Narrow

section Members

variable (f : I386Flags)

def aluShlByte : Byte → Byte → Out 8 := shl f

def aluShlWord : Word → Byte → Out 16 := shl f

def aluShlDword (val : Dword) (count : Byte) : Out 32 :=
  let count := (count &&& 0x1F).toNat
  if count = 0 then (val, f)
  else
    let result := val <<< count
    let carryVal := val >>> (32 - count) &&& 1
    let overflowVal := (result >>> 31 ^^^ carryVal) &&& 1
    (result, { f with carryVal, overflowVal, auxVal := 0 }.setSzpfDword result)

def aluShrByte : Byte → Byte → Out 8 := shr f

def aluShrWord : Word → Byte → Out 16 := shr f

def aluShrDword (val : Dword) (count : Byte) : Out 32 :=
  let count := (count &&& 0x1F).toNat
  if count = 0 then (val, f)
  else
    let overflowVal := if count = 1 then val &&& 0x80000000 else 0
    let carryVal := val >>> (count - 1) &&& 1
    let result := val >>> count
    (result, { f with carryVal, overflowVal, auxVal := 0 }.setSzpfDword result)

def aluSarByte : Byte → Byte → Out 8 := sar f

def aluSarWord : Word → Byte → Out 16 := sar f

def aluSarDword (val : Dword) (count : Byte) : Out 32 :=
  let count := (count &&& 0x1F).toNat
  if count = 0 then (val, f)
  else
    let carryVal := val.sshiftRight (count - 1) &&& 1
    let result := val.sshiftRight count
    (result, { f with carryVal, overflowVal := 0, auxVal := 0 }.setSzpfDword result)

end Members

/-! ### Rotations

Bytes and words have their masked count reduced to one turn, with a whole turn for none. -/

section Narrow

variable {w : ℕ} (f : I386Flags)

def rol (val : BitVec w) (count : Byte) : Out w :=
  let count := (count &&& 0x1F).toNat
  if count = 0 then (val, f)
  else
    let count := if count &&& (w - 1) = 0 then w else count &&& (w - 1)
    let result := val.rotateLeft count
    (result,
      { f with
        carryVal := (result &&& 1).setWidth 32
        overflowVal :=
          (result >>> (w - 1) ^^^ (result &&& 1)).setWidth 32 * BitVec.twoPow 32 (w - 1) })

def ror (val : BitVec w) (count : Byte) : Out w :=
  let count := (count &&& 0x1F).toNat
  if count = 0 then (val, f)
  else
    let count := if count &&& (w - 1) = 0 then w else count &&& (w - 1)
    let result := val.rotateRight count
    (result,
      { f with
        carryVal := (result >>> (w - 1) &&& 1).setWidth 32
        overflowVal := ((result ^^^ result <<< 1) &&& BitVec.twoPow w (w - 1)).setWidth 32 })

def rcl (val : BitVec w) (count : Byte) : Out w :=
  let count := (count &&& 0x1F).toNat
  if count = 0 then (val, f)
  else
    let count := if count % (w + 1) = 0 then w + 1 else count % (w + 1)
    let wide := val.setWidth 32 ||| f.cfVal <<< w
    let rotated := wide <<< count ||| wide >>> (w + 1 - count)
    let result := rotated.setWidth w
    let carryVal := rotated >>> w &&& 1
    (result,
      { f with
        carryVal
        overflowVal := (result.setWidth 32 >>> (w - 1) ^^^ carryVal) * BitVec.twoPow 32 (w - 1) })

end Narrow

section Members

variable (f : I386Flags)

def aluRolByte : Byte → Byte → Out 8 := rol f

def aluRolWord : Word → Byte → Out 16 := rol f

def aluRolDword (val : Dword) (count : Byte) : Out 32 :=
  let count := (count &&& 0x1F).toNat
  if count = 0 then (val, f)
  else
    let result := val.rotateLeft count
    let carryVal := result &&& 1
    (result, { f with carryVal, overflowVal := (result >>> 31 ^^^ carryVal) &&& 1 })

def aluRorByte : Byte → Byte → Out 8 := ror f

def aluRorWord : Word → Byte → Out 16 := ror f

def aluRorDword (val : Dword) (count : Byte) : Out 32 :=
  let count := (count &&& 0x1F).toNat
  if count = 0 then (val, f)
  else
    let result := val.rotateRight count
    (result,
      { f with
        carryVal := result >>> 31 &&& 1
        overflowVal := (result >>> 31 ^^^ (result >>> 30 &&& 1)) &&& 1 })

def aluRclByte : Byte → Byte → Out 8 := rcl f

def aluRclWord : Word → Byte → Out 16 := rcl f

def aluRclDword (val : Dword) (count : Byte) : Out 32 :=
  let count := (count &&& 0x1F).toNat
  if count = 0 then (val, f)
  else
    let cf : Qword := f.cfVal.setWidth 64
    let mask : Qword := (1 <<< 33) - 1
    let wide := val.setWidth 64 ||| cf <<< 32
    let rotated := (wide <<< count ||| wide >>> (33 - count)) &&& mask
    let result := rotated.setWidth 32
    let carryVal := (rotated >>> 32 &&& 1).setWidth 32
    (result, { f with carryVal, overflowVal := (result >>> 31 ^^^ carryVal) &&& 1 })

def aluRcrByte (val : Byte) (count : Byte) : Out 8 :=
  let count := (count &&& 0x1F).toNat
  if count = 0 then (val, f)
  else
    let count := if count % 9 = 0 then 9 else count % 9
    let wide := val.setWidth 32 ||| f.cfVal <<< 8
    let result := (wide >>> count ||| wide <<< (9 - count)).setWidth 8
    (result,
      { f with
        carryVal := wide >>> (count - 1) &&& 1
        overflowVal := ((result ^^^ result <<< 1) &&& 0x80).setWidth 32 })

def aluRcrWord (val : Word) (count : Byte) : Out 16 :=
  let count := (count &&& 0x1F).toNat
  if count = 0 then (val, f)
  else
    let count := if count % 17 = 0 then 17 else count % 17
    let wide := val.setWidth 32 ||| f.cfVal <<< 16
    let result := (wide >>> count ||| wide <<< (17 - count)).setWidth 16
    (result,
      { f with
        carryVal := wide >>> (count - 1) &&& 1
        overflowVal := (result.setWidth 32 ^^^ result.setWidth 32 <<< 1) &&& 0x8000 })

def aluRcrDword (val : Dword) (count : Byte) : Out 32 :=
  let count := (count &&& 0x1F).toNat
  if count = 0 then (val, f)
  else
    let cf : Qword := f.cfVal.setWidth 64
    let mask : Qword := (1 <<< 33) - 1
    let wide := val.setWidth 64 ||| cf <<< 32
    let rotated := (wide >>> count ||| wide <<< (33 - count)) &&& mask
    let result := rotated.setWidth 32
    (result,
      { f with
        carryVal := (wide >>> (count - 1) &&& 1).setWidth 32
        overflowVal := (result >>> 31 ^^^ (result >>> 30 &&& 1)) &&& 1 })

end Members

/-! ### Double shifts

What `shld_imm` and `shld_cl`, and `shrd_imm` and `shrd_cl`, do with their operands. -/

section Double

variable (f : I386Flags)

def shldDword (dst src : Dword) (count : Byte) : Out 32 :=
  let count := (count &&& 0x1F).toNat
  if count = 0 then (dst, f)
  else
    let result := dst <<< count ||| src >>> (32 - count)
    let carryVal := dst >>> (32 - count) &&& 1
    let overflowVal := (result >>> 31 &&& 1) ^^^ carryVal
    (result, { f with carryVal, overflowVal, auxVal := 0x10 }.setSzpfDword result)

def shldWord (dst src : Word) (count : Byte) : Out 16 :=
  let dst32 := dst.setWidth 32
  let src := src.setWidth 32
  let count := (count &&& 0x1F).toNat
  if count = 0 then (dst, f)
  else
    let result :=
      (if count < 16 then (dst32 <<< 16 ||| src) <<< count >>> 16
        else src <<< (count - 16) ||| src >>> (32 - count)) &&& 0xFFFF
    let carryVal :=
      if count < 16 then dst32 >>> (16 - count) &&& 1
      else if count = 16 then dst32 &&& 1
      else src >>> (32 - count) &&& 1
    let overflowVal := (result >>> 15 &&& 1) ^^^ carryVal
    (result.setWidth 16, { f with carryVal, overflowVal, auxVal := 0x10 }.setSzpfWord result)

def shrdDword (dst src : Dword) (count : Byte) : Out 32 :=
  let count := (count &&& 0x1F).toNat
  if count = 0 then (dst, f)
  else
    let result := dst >>> count ||| src <<< (32 - count)
    let carryVal := dst >>> (count - 1) &&& 1
    let overflowVal := (result >>> 31 ^^^ result >>> 30) &&& 1
    (result, { f with carryVal, overflowVal, auxVal := 0x10 }.setSzpfDword result)

def shrdWord (dst src : Word) (count : Byte) : Out 16 :=
  let dst32 := dst.setWidth 32
  let src := src.setWidth 32
  let count := (count &&& 0x1F).toNat
  if count = 0 then (dst, f)
  else
    let result :=
      (if count < 16 then dst32 >>> count ||| src <<< (16 - count)
        else src >>> (count - 16) ||| src <<< (32 - count)) &&& 0xFFFF
    let carryVal :=
      if count ≤ 16 then if count = 16 then dst32 >>> 15 &&& 1 else dst32 >>> (count - 1) &&& 1
      else src >>> (count - 17) &&& 1
    let overflowVal := (result >>> 15 ^^^ result >>> 14) &&& 1
    (result.setWidth 16, { f with carryVal, overflowVal, auxVal := 0x10 }.setSzpfWord result)

end Double

/-! ### The flags as a program sees them -/

/-- The byte has an even number of ones. -/
def evenOnes (b : Byte) : Bool := (List.range 8).countP b.getLsbD % 2 = 0

/-- The flags that the stored values denote. -/
structure Denoted where
  cf : Bool
  pf : Bool
  af : Bool
  zf : Bool
  sf : Bool
  tf : Bool
  ifFlag : Bool
  df : Bool
  of : Bool
  iopl : BitVec 2
  nt : Bool
  deriving DecidableEq, Repr

def I386Flags.denoted (f : I386Flags) : Denoted :=
  ⟨f.cf, f.pf, f.af, f.zf, f.sf, f.tf, f.ifFlag, f.df, f.of, f.iopl.setWidth 2, f.nt⟩

/-- The flags behind a result, as far as it alone tells them. -/
def Denoted.result {w : ℕ} (d : Denoted) (r : BitVec w) : Denoted :=
  { d with zf := r == 0, sf := r.msb, pf := evenOnes (r.setWidth 8) }

/-- A result and the flags that a program sees behind it. -/
def Out.denoted {w : ℕ} (out : Out w) : BitVec w × Denoted := (out.1, out.2.denoted)

/-! ### Parity -/

lemma ones_add (v bits : ℕ) : ones v bits = bits + ones v 0 := by
  induction v using Nat.strongRecOn generalizing bits with
  | ind v ih =>
    unfold ones
    split
    · rfl
    · rename_i some
      rw [ih (v / 2) (by omega) (bits + v % 2), ih (v / 2) (by omega) (0 + v % 2)]
      omega

lemma ones_half (v : ℕ) : ones v 0 = v % 2 + ones (v / 2) 0 := by
  by_cases none : v = 0
  · rw [none, Nat.zero_mod, Nat.zero_add]
  · rw [ones, if_neg none, ones_add, Nat.zero_add]

lemma ones_byte {v : ℕ} (v_lt : v < 256) : ones v 0 =
    v % 2 + (v / 2 % 2 + (v / 4 % 2 + (v / 8 % 2 + (v / 16 % 2 + (v / 32 % 2 +
      (v / 64 % 2 + v / 128 % 2)))))) := by
  have last : ones (v / 256) 0 = 0 := by
    rw [Nat.div_eq_of_lt v_lt, ones, if_pos rfl]
  rw [ones_half, ones_half (v / 2), ones_half (v / 2 / 2), ones_half (v / 2 / 2 / 2),
    ones_half (v / 2 / 2 / 2 / 2), ones_half (v / 2 / 2 / 2 / 2 / 2),
    ones_half (v / 2 / 2 / 2 / 2 / 2 / 2), ones_half (v / 2 / 2 / 2 / 2 / 2 / 2 / 2)]
  simp only [Nat.div_div_eq_div_mul, Nat.reduceMul, last, Nat.add_zero]

lemma countP_range_eight (p : ℕ → Bool) : (List.range 8).countP p =
    (p 0).toNat + ((p 1).toNat + ((p 2).toNat + ((p 3).toNat + ((p 4).toNat + ((p 5).toNat +
      ((p 6).toNat + (p 7).toNat)))))) := by
  have range : List.range 8 = [0, 1, 2, 3, 4, 5, 6, 7] := rfl
  have cond (b : Bool) : (if b = true then 1 else 0) = b.toNat := by
    cases b <;> rfl
  simp only [range, List.countP_cons, List.countP_nil, cond]
  omega

lemma parityTable_eq (b : Byte) : parityTable b = evenOnes b := by
  unfold parityTable evenOnes
  rw [ones_byte b.isLt, countP_range_eight]
  simp only [BitVec.getLsbD, Nat.toNat_testBit, Nat.reducePow, Nat.div_one]

/-! ### Masks -/

lemma masked_ne {w : ℕ} (x : BitVec w) {i : ℕ} (i_lt : i < w) :
    (x &&& BitVec.twoPow w i != 0) = x.getLsbD i := by
  rw [BitVec.and_twoPow]
  cases x.getLsbD i with
  | false => simp
  | true =>
    have some : BitVec.twoPow w i ≠ 0 := by
      intro none
      have bit := congrArg (BitVec.getLsbD · i) none
      simp [i_lt] at bit
    simpa using some

lemma and_one_ne {w : ℕ} (x : BitVec w) (pos : 0 < w) : (x &&& 1 != 0) = x.getLsbD 0 := by
  have one : (1 : BitVec w) = BitVec.twoPow w 0 := by
    simp [BitVec.twoPow]
  rw [one, masked_ne x pos]

lemma setWidth_ne {w v : ℕ} (x : BitVec w) (w_le : w ≤ v) :
    (x.setWidth v != 0) = (x != 0) := by
  have zero : x.setWidth v = 0 ↔ x = 0 := by
    rw [← BitVec.toNat_inj, ← BitVec.toNat_inj, BitVec.toNat_setWidth_of_le w_le]
    rfl
  rw [Bool.eq_iff_iff, bne_iff_ne, bne_iff_ne, Ne, Ne, zero]

lemma u32From_ne (b : Bool) : (u32From b != 0) = b := by
  cases b <;> rfl

/-! ### Packing -/

lemma bit_getLsbD (b : Bool) {shift i : ℕ} (shift_lt : shift < 16) :
    (I386Flags.bit b shift).getLsbD i = (decide (i = shift) && b) := by
  simp only [I386Flags.bit, BitVec.getLsbD_shiftLeft, BitVec.getLsbD_setWidth,
    BitVec.getLsbD_ofBool]
  by_cases same : i = shift
  · subst same
    simp [shift_lt]
  · by_cases below : i < shift
    · simp [same, below]
    · simp [same, show i - shift ≠ 0 by omega]

namespace I386Flags

variable (f : I386Flags)

lemma compress_getLsbD (i : ℕ) : f.compress.getLsbD i =
    (decide (i = 0) && f.cf || decide (i = 1) || decide (i = 2) && f.pf || decide (i = 4) && f.af ||
      decide (i = 6) && f.zf || decide (i = 7) && f.sf || decide (i = 8) && f.tf ||
      decide (i = 9) && f.ifFlag || decide (i = 10) && f.df || decide (i = 11) && f.of ||
      (decide (12 ≤ i) && decide (i < 14)) && f.iopl.getLsbD (i - 12) ||
      decide (i = 14) && f.nt) := by
  have two : (0x0002 : Word).getLsbD i = decide (i = 1) := by
    rw [show (0x0002 : Word) = BitVec.twoPow 16 1 from rfl, BitVec.getLsbD_twoPow]
    simp [eq_comm]
  have three (k : ℕ) : (3 : Byte).getLsbD k = decide (k < 2) := by
    rw [show (3 : Byte) = (BitVec.allOnes 2).setWidth 8 from rfl, BitVec.getLsbD_setWidth,
      BitVec.getLsbD_allOnes]
    by_cases small : k < 2
    · simp [small, show k < 8 by omega]
    · simp [small]
  have iopl : ((f.iopl &&& 3).setWidth 16 <<< 12).getLsbD i =
      ((decide (12 ≤ i) && decide (i < 14)) && f.iopl.getLsbD (i - 12)) := by
    rw [BitVec.getLsbD_shiftLeft, BitVec.getLsbD_setWidth, BitVec.getLsbD_and, three]
    by_cases low : 12 ≤ i
    · by_cases high : i < 14
      · simp [low, high, show i < 16 by omega, show ¬ i < 12 by omega, show i - 12 < 16 by omega,
          show i - 12 < 2 by omega]
      · simp [high, show ¬ i - 12 < 2 by omega]
    · simp [low, show i < 12 by omega]
  unfold compress
  simp only [BitVec.getLsbD_or, bit_getLsbD _ (show 0 < 16 by decide),
    bit_getLsbD _ (show 2 < 16 by decide), bit_getLsbD _ (show 4 < 16 by decide),
    bit_getLsbD _ (show 6 < 16 by decide), bit_getLsbD _ (show 7 < 16 by decide),
    bit_getLsbD _ (show 8 < 16 by decide), bit_getLsbD _ (show 9 < 16 by decide),
    bit_getLsbD _ (show 10 < 16 by decide), bit_getLsbD _ (show 11 < 16 by decide),
    bit_getLsbD _ (show 14 < 16 by decide), two, iopl]

lemma compress_and {i : ℕ} (i_lt : i < 16) {b : Bool} (here : f.compress.getLsbD i = b) :
    (f.compress &&& BitVec.twoPow 16 i != 0) = b :=
  (masked_ne _ i_lt).trans here

/-- **Unpacking the packed flags gives what they denote.** -/
theorem expand_compress_denoted : (expand f.compress).denoted = f.denoted := by
  have bit (i : ℕ) := f.compress_getLsbD i
  have two : (f.compress &&& 0x0004 != 0) = f.pf :=
    f.compress_and (i := 2) (by decide) ((bit 2).trans (by simp))
  have six : (f.compress &&& 0x0040 != 0) = f.zf :=
    f.compress_and (i := 6) (by decide) ((bit 6).trans (by simp))
  have seven : (f.compress &&& 0x0080 != 0) = f.sf :=
    f.compress_and (i := 7) (by decide) ((bit 7).trans (by simp))
  rw [denoted, denoted, Denoted.mk.injEq]
  refine ⟨?carry, ?parity, ?aux, ?zero, ?sign, ?trap, ?interrupt, ?direction, ?overflow, ?level,
    ?nested⟩
  case carry =>
    exact (setWidth_ne _ (by decide)).trans
      (f.compress_and (i := 0) (by decide) ((bit 0).trans (by simp)))
  case parity =>
    rw [pf, expand]
    dsimp only
    rw [two, parityTable_eq]
    cases f.pf <;> rfl
  case aux =>
    exact (setWidth_ne _ (by decide)).trans
      (f.compress_and (i := 4) (by decide) ((bit 4).trans (by simp)))
  case zero =>
    rw [zf, expand]
    dsimp only
    rw [six]
    cases f.zf <;> rfl
  case sign =>
    rw [sf, expand]
    dsimp only
    rw [seven]
    cases f.sf <;> rfl
  case trap => exact f.compress_and (i := 8) (by decide) ((bit 8).trans (by simp))
  case interrupt => exact f.compress_and (i := 9) (by decide) ((bit 9).trans (by simp))
  case direction => exact f.compress_and (i := 10) (by decide) ((bit 10).trans (by simp))
  case overflow =>
    exact (setWidth_ne _ (by decide)).trans
      (f.compress_and (i := 11) (by decide) ((bit 11).trans (by simp)))
  case nested => exact f.compress_and (i := 14) (by decide) ((bit 14).trans (by simp))
  case level =>
    rw [expand]
    dsimp only
    apply BitVec.eq_of_getLsbD_eq
    intro k k_lt
    obtain rfl | rfl : k = 0 ∨ k = 1 := by omega
    · have low : f.compress.getLsbD 12 = f.iopl.getLsbD 0 := (bit 12).trans (by simp)
      simpa using low
    · have high : f.compress.getLsbD 13 = f.iopl.getLsbD 1 := (bit 13).trans (by simp)
      simpa using high

/-! ### Setters -/

variable {w : ℕ} (result src dst : Dword)

lemma denoted_setCf (w_lt : w < 32) :
    (f.setCf w result).denoted = { f.denoted with cf := result.getLsbD w } := by
  rw [setCf, denoted, denoted, Denoted.mk.injEq]
  exact ⟨masked_ne _ w_lt, rfl, rfl, rfl, rfl, rfl, rfl, rfl, rfl, rfl, rfl⟩

lemma qword_bit (x : Qword) (k : ℕ) :
    (x >>> k &&& 1).setWidth 32 = u32From (x.getLsbD k) := by
  apply BitVec.eq_of_getLsbD_eq
  intro i i_lt
  rw [BitVec.getLsbD_setWidth, BitVec.getLsbD_and, BitVec.getLsbD_ushiftRight]
  cases i with
  | zero => cases x.getLsbD k <;> simp [u32From]
  | succ i => cases x.getLsbD k <;> simp [u32From]

lemma setCfDword_cf (result : Qword) : (f.setCfDword result).cf = result.getLsbD 32 :=
  (congrArg (· != 0) (qword_bit result 32)).trans (u32From_ne _)

lemma denoted_setAf : (f.setAf result src dst).denoted =
    { f.denoted with
      af := result.getLsbD 4 ^^ (src.getLsbD 4 ^^ dst.getLsbD 4) } := by
  rw [denoted, denoted, Denoted.mk.injEq]
  refine ⟨rfl, rfl, ?_, rfl, rfl, rfl, rfl, rfl, rfl, rfl, rfl⟩
  refine (masked_ne (i := 4) _ (by decide)).trans ?_
  rw [BitVec.getLsbD_xor, BitVec.getLsbD_xor]

lemma denoted_setOfAdd (pos : 0 < w) (w_le : w ≤ 32) :
    (f.setOfAdd w result src dst).denoted = { f.denoted with
      of := (result.getLsbD (w - 1) ^^ src.getLsbD (w - 1)) &&
        (result.getLsbD (w - 1) ^^ dst.getLsbD (w - 1)) } := by
  rw [denoted, denoted, Denoted.mk.injEq]
  refine ⟨rfl, rfl, rfl, rfl, rfl, rfl, rfl, rfl, ?_, rfl, rfl⟩
  refine (masked_ne _ (by omega)).trans ?_
  rw [BitVec.getLsbD_and, BitVec.getLsbD_xor, BitVec.getLsbD_xor]

lemma denoted_setOfSub (pos : 0 < w) (w_le : w ≤ 32) :
    (f.setOfSub w result src dst).denoted = { f.denoted with
      of := (dst.getLsbD (w - 1) ^^ src.getLsbD (w - 1)) &&
        (dst.getLsbD (w - 1) ^^ result.getLsbD (w - 1)) } := by
  rw [denoted, denoted, Denoted.mk.injEq]
  refine ⟨rfl, rfl, rfl, rfl, rfl, rfl, rfl, rfl, ?_, rfl, rfl⟩
  refine (masked_ne _ (by omega)).trans ?_
  rw [BitVec.getLsbD_and, BitVec.getLsbD_xor, BitVec.getLsbD_xor]

lemma slt_zero {w : ℕ} (x : BitVec w) : x.slt 0 = x.msb := by
  rw [BitVec.msb_eq_toInt, BitVec.slt]
  exact congrArg (fun i => decide (x.toInt < i)) BitVec.toInt_zero

lemma low_byte (x : Dword) : (x &&& 0xFF).setWidth 8 = x.setWidth 8 := by
  apply BitVec.eq_of_toNat_eq
  rw [BitVec.toNat_setWidth, BitVec.toNat_setWidth, BitVec.toNat_and]
  exact (congrArg (· % 2 ^ 8) (Nat.and_two_pow_sub_one_eq_mod _ 8)).trans (Nat.mod_mod _ _)

lemma denoted_setSzpf (w_ge : 8 ≤ w) (w_le : w ≤ 32) :
    (f.setSzpf w result).denoted = f.denoted.result (result.setWidth w) := by
  have zero : (f.setSzpf w result).zf = (result.setWidth w == 0) := by
    have low : (result &&& BitVec.ofNat 32 (2 ^ w - 1)).toNat = result.toNat % 2 ^ w := by
      have pow_le := Nat.pow_le_pow_right (show 0 < 2 by decide) w_le
      have pow_pos := Nat.two_pow_pos w
      rw [BitVec.toNat_and, BitVec.toNat_ofNat, Nat.mod_eq_of_lt (by omega),
        Nat.and_two_pow_sub_one_eq_mod]
    rw [zf, setSzpf, Bool.eq_iff_iff, beq_iff_eq, beq_iff_eq, ← BitVec.toNat_inj,
      ← BitVec.toNat_inj, low, BitVec.toNat_setWidth]
    rfl
  have sign : (f.setSzpf w result).sf = (result.setWidth w).msb := by
    refine (slt_zero _).trans ?_
    rw [setSzpf, BitVec.msb_signExtend, decide_eq_true (by decide), Bool.true_and]
    split
    · rw [show w - 32 = 0 by omega]
      rfl
    · rfl
  have parity : (f.setSzpf w result).pf = evenOnes ((result.setWidth w).setWidth 8) := by
    rw [BitVec.setWidth_setWidth_of_le _ w_ge, pf, parityTable_eq]
    exact congrArg evenOnes (low_byte result)
  rw [denoted, denoted, Denoted.result, Denoted.mk.injEq]
  exact ⟨rfl, parity, rfl, zero, sign, rfl, rfl, rfl, rfl, rfl, rfl⟩

lemma denoted_setSzpfDword :
    (f.setSzpfDword result).denoted = f.denoted.result result := by
  have parity : (f.setSzpfDword result).pf = evenOnes (result.setWidth 8) := by
    rw [pf, parityTable_eq]
    exact congrArg evenOnes (low_byte result)
  rw [denoted, denoted, Denoted.result, Denoted.mk.injEq]
  exact ⟨rfl, parity, rfl, rfl, slt_zero _, rfl, rfl, rfl, rfl, rfl, rfl⟩

end I386Flags

end Neetan.Alu
