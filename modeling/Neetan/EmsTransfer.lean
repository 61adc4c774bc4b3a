import Neetan.XmsContents
import Mathlib.Data.List.GetD

/-!
Moves and exchanges between conventional and expanded memory.

A region of expanded memory is a run of bytes of a handle, over pages that lie anywhere in the
pool. It is read and written page by page, a region of conventional memory at once.
-/

namespace Neetan.Ems

open Neetan.MachineInt Neetan.BestFit Neetan.EmulatedMemory MemoryAccess
open MemoryManager CellMemory

/-- Decoded parameters of a move. -/
structure EmsMoveParams where
  regionLength : ℕ
  srcType : ℕ
  srcHandle : ℕ
  srcOffset : ℕ
  srcSegPage : ℕ
  dstType : ℕ
  dstHandle : ℕ
  dstOffset : ℕ
  dstSegPage : ℕ

inductive EmsTransferRegion
  | conventional (linearAddress : ℕ)
  | expanded (handle regionOffset : ℕ)

def EmsWindow.baseAddress (self : EmsWindow) : ℕ := self.pageFrameSegment * 16

def EmsWindow.size (_ : EmsWindow) : ℕ := physicalPages * emsPageSize

def rangesOverlap (startA lenA startB lenB : ℕ) : Bool :=
  let endA := wrappingAdd 32 startA lenA
  let endB := wrappingAdd 32 startB lenB
  decide (startA < endB) && decide (startB < endA)

variable {σ : Type} [MemoryAccess σ]

namespace MemoryManager

def emsIsValidHandle (self : MemoryManager) (handleIndex : ℕ) : Bool :=
  (self.activeEmsHandle handleIndex).isSome

def emsHandlePages (self : MemoryManager) (handleIndex : ℕ) : Except ℕ ℕ :=
  match self.activeEmsHandle handleIndex with
  | none => .error 0x83
  | some handle => .ok (handle.pages.length % 2 ^ 16)

/-- The region, unless it leaves conventional memory or the pages of its handle. -/
def resolveEmsTransferRegion (self : MemoryManager)
    (memoryType handle offset segPage regionLength : ℕ) : Except ℕ EmsTransferRegion :=
  match memoryType with
  | 0 =>
    match (checkedMul 32 segPage 16).bind fun base => checkedAdd 32 base offset with
    | none => .error 0xA2
    | some linearAddress =>
      match checkedAdd 32 linearAddress regionLength with
      | none => .error 0xA2
      | some stop => if stop > 0x100000 then .error 0xA2 else .ok (.conventional linearAddress)
  | 1 =>
    if offset ≥ emsPageSize then .error 0x95
    else if ¬ self.emsIsValidHandle handle then .error 0x83
    else
      match self.emsHandlePages handle with
      | .error code => .error code
      | .ok pageCount =>
        match (checkedMul 32 segPage emsPageSize).bind fun base => checkedAdd 32 base offset with
        | none => .error 0x93
        | some regionOffset =>
          if segPage ≥ pageCount then .error 0x8A else
          match checkedMul 32 pageCount emsPageSize with
          | none => .error 0x93
          | some totalBytes =>
            match checkedAdd 32 regionOffset regionLength with
            | none => .error 0x93
            | some stop =>
              if stop > totalBytes then .error 0x93 else .ok (.expanded handle regionOffset)
  | _ => .error 0x98

/-! ### Chunks -/

/-- The chunks of a region from a position on: address, position and length of each. -/
def emsTransferRegionChunks (self : MemoryManager) (handle regionOffset regionLength copied : ℕ) :
    Run (List (ℕ × ℕ × ℕ)) :=
  if h : copied < regionLength then do
    let absoluteOffset := wrappingAdd 32 regionOffset copied
    let logicalPage := absoluteOffset / emsPageSize % 2 ^ 16
    let pageOffset := absoluteOffset % emsPageSize
    let chunkLen := min (emsPageSize - pageOffset) (regionLength - copied)
    let allocationOffset ← self.emsPageAllocationOffset handle logicalPage
    let linearAddress := self.extendedPoolLinearAddress (wrappingAdd 32 allocationOffset pageOffset)
    let chunks ← self.emsTransferRegionChunks handle regionOffset regionLength (copied + chunkLen)
    return (linearAddress, copied, chunkLen) :: chunks
  else some []
termination_by regionLength - copied
decreasing_by
  have hpage : wrappingAdd 32 regionOffset copied % emsPageSize < emsPageSize :=
    Nat.mod_lt _ (by decide)
  omega

/-- The loop over the chunks; a conventional region is one chunk. -/
def withEmsTransferRegionChunks (self : MemoryManager) (region : EmsTransferRegion)
    (regionLength : ℕ) : Run (List (ℕ × ℕ × ℕ)) :=
  match region with
  | .conventional linearAddress => some [(linearAddress, 0, regionLength)]
  | .expanded handle regionOffset =>
    self.emsTransferRegionChunks handle regionOffset regionLength 0

def readChunks (mem : σ) : List (ℕ × ℕ × ℕ) → List UInt8 → List UInt8
  | [], buffer => buffer
  | (linear, offset, len) :: chunks, buffer =>
    readChunks mem chunks
      (buffer.take offset ++ readBlock mem linear len ++ buffer.drop (offset + len))

def writeChunks (data : List UInt8) : List (ℕ × ℕ × ℕ) → σ → σ
  | [], mem => mem
  | (linear, offset, len) :: chunks, mem =>
    writeChunks data chunks (writeBlock mem linear ((data.drop offset).take len))

def readEmsTransferRegion (self : MemoryManager) (region : EmsTransferRegion) (regionLength : ℕ)
    (mem : σ) : Run (List UInt8) := do
  let chunks ← self.withEmsTransferRegionChunks region regionLength
  return readChunks mem chunks (List.replicate regionLength 0)

def writeEmsTransferRegion (self : MemoryManager) (region : EmsTransferRegion)
    (data : List UInt8) (mem : σ) : Run σ := do
  let chunks ← self.withEmsTransferRegionChunks region data.length
  return writeChunks data chunks mem

/-! ### Transfers -/

/-- Between conventional and expanded memory, the conventional region must not touch the frame. -/
def emsRegionsOverlapPageFrame (self : MemoryManager) (srcRegion dstRegion : EmsTransferRegion)
    (regionLength : ℕ) : Bool :=
  match self.emsWindow with
  | none => false
  | some window =>
    match srcRegion, dstRegion with
    | .conventional linearAddress, .expanded _ _
    | .expanded _ _, .conventional linearAddress =>
      rangesOverlap linearAddress regionLength window.baseAddress window.size
    | _, _ => false

/-- Two regions of one handle that overlap. -/
def sameHandleOverlap (srcRegion dstRegion : EmsTransferRegion) (regionLength : ℕ) : Bool :=
  match srcRegion, dstRegion with
  | .expanded srcHandle srcRegionOffset, .expanded dstHandle dstRegionOffset =>
    decide (srcHandle = dstHandle) &&
      rangesOverlap srcRegionOffset regionLength dstRegionOffset regionLength
  | _, _ => false

/-- The copy itself, both regions read before anything is written. -/
def transferRegions (self : MemoryManager) (srcRegion dstRegion : EmsTransferRegion)
    (regionLength : ℕ) (exchange : Bool) (mem : σ) : Run σ := do
  let srcBuffer ← self.readEmsTransferRegion srcRegion regionLength mem
  if exchange then do
    let dstBuffer ← self.readEmsTransferRegion dstRegion regionLength mem
    let mem ← self.writeEmsTransferRegion srcRegion dstBuffer mem
    self.writeEmsTransferRegion dstRegion srcBuffer mem
  else self.writeEmsTransferRegion dstRegion srcBuffer mem

def emsTransferMemory (self : MemoryManager) (params : EmsMoveParams) (exchange : Bool)
    (mem : σ) : Run (ℕ × σ) :=
  let regionLength := params.regionLength
  if regionLength = 0 then some (0x00, mem)
  else if regionLength > 0x100000 then some (0x96, mem)
  else
    match self.resolveEmsTransferRegion params.srcType params.srcHandle params.srcOffset
      params.srcSegPage regionLength with
    | .error code => some (code, mem)
    | .ok srcRegion =>
      match self.resolveEmsTransferRegion params.dstType params.dstHandle params.dstOffset
        params.dstSegPage regionLength with
      | .error code => some (code, mem)
      | .ok dstRegion =>
        if self.emsRegionsOverlapPageFrame srcRegion dstRegion regionLength then some (0x94, mem)
        else
          let overlap := sameHandleOverlap srcRegion dstRegion regionLength
          if overlap && exchange then some (0x97, mem) else do
          let mem ← self.transferRegions srcRegion dstRegion regionLength exchange mem
          return (if overlap then 0x92 else 0x00, mem)

def emsMoveMemory (self : MemoryManager) (params : EmsMoveParams) (mem : σ) : Run (ℕ × σ) :=
  self.emsTransferMemory params false mem

def emsExchangeMemory (self : MemoryManager) (params : EmsMoveParams) (mem : σ) : Run (ℕ × σ) :=
  self.emsTransferMemory params true mem

end MemoryManager

/-! ### Chunks of a Region -/

/-- The address of each byte of a region, page by page through its handle. -/
def MemoryManager.regionAddress (self : MemoryManager) : EmsTransferRegion → ℕ → ℕ
  | .conventional linearAddress, k => linearAddress + k
  | .expanded handle regionOffset, k =>
    self.extendedPoolLinearAddress
      ((self.emsPageAllocationOffset handle ((regionOffset + k) / emsPageSize)).getD 0 +
        (regionOffset + k) % emsPageSize)

/-- Chunks that make up the bytes of a region from a position to its end, in order. -/
def Covers (address : ℕ → ℕ) (stop : ℕ) : ℕ → List (ℕ × ℕ × ℕ) → Prop
  | copied, [] => copied = stop
  | copied, (linear, offset, len) :: chunks => offset = copied ∧ linear + len ≤ 2 ^ 32 ∧
      copied + len ≤ stop ∧ (∀ k < len, linear + k = address (copied + k)) ∧
      Covers address stop (copied + len) chunks

variable [CellMemory σ] {mem mem' : σ} {address : ℕ → ℕ} {stop copied : ℕ}
variable {chunks : List (ℕ × ℕ × ℕ)}

lemma readChunks_spec (h : Covers address stop copied chunks) (buffer : List UInt8)
    (hlen : buffer.length = stop)
    (hread : ∀ k < copied, buffer.getD k 0 = byteAt mem (address k)) :
    (readChunks mem chunks buffer).length = stop ∧
      ∀ k < stop, (readChunks mem chunks buffer).getD k 0 = byteAt mem (address k) := by
  induction chunks generalizing copied buffer with
  | nil =>
    obtain rfl : copied = stop := h
    exact ⟨hlen, hread⟩
  | cons chunk chunks ih =>
    obtain ⟨linear, offset, len⟩ := chunk
    obtain ⟨rfl, hlinear, hstop, haddress, hrest⟩ := h
    have hblock : (readBlock mem linear len).length = len := length_readBlock hlinear
    refine ih hrest _ ?_ fun k hk => ?_
    · simp only [List.length_append, List.length_take, List.length_drop, hblock]
      omega
    · have htake : (buffer.take offset).length = offset := by
        rw [List.length_take]
        omega
      rw [List.append_assoc]
      rcases Nat.lt_or_ge k offset with hlt | hge
      · rw [List.getD_append _ _ _ _ (by omega), List.getD_eq_getElem?_getD,
          List.getElem?_take_of_lt hlt, ← List.getD_eq_getElem?_getD]
        exact hread k hlt
      · have hk' : k - offset < len := by omega
        rw [List.getD_append_right _ _ _ _ (by omega), htake,
          List.getD_append _ _ _ _ (by omega), getD_readBlock hlinear hk', haddress _ hk',
          Nat.add_sub_cancel' hge]

lemma writeChunks_spec (h : Covers address stop copied chunks) (data : List UInt8)
    (hlen : data.length = stop) :
    Written mem (fun k => location mem (address (copied + k))) (stop - copied)
      (fun k => data.getD (copied + k) 0) (writeChunks data chunks mem) := by
  induction chunks generalizing copied mem with
  | nil =>
    obtain rfl : copied = stop := h
    rw [Nat.sub_self]
    exact Written.nothing mem _ _
  | cons chunk chunks ih =>
    obtain ⟨linear, offset, len⟩ := chunk
    obtain ⟨rfl, hlinear, hstop, haddress, hrest⟩ := h
    have hbytes : ((data.drop offset).take len).length = len := by
      rw [List.length_take, List.length_drop]
      omega
    have hfirst : Written mem (fun k => location mem (linear + k)) _ _ _ :=
      writeBlock_written ((data.drop offset).take len) (hbytes.symm ▸ hlinear)
    rw [hbytes] at hfirst
    have hsplit : stop - offset = len + (stop - (offset + len)) := by omega
    rw [hsplit]
    refine (hfirst.congr (fun k hk => ?_) fun k hk => ?_).append
      ((ih hrest).congr (fun k _ => ?_) fun k _ => ?_)
    · rw [haddress k hk]
    · rw [List.getD_eq_getElem?_getD, List.getD_eq_getElem?_getD, List.getElem?_take_of_lt hk,
        List.getElem?_drop]
    · rw [hfirst.location, Nat.add_assoc]
    · rw [Nat.add_assoc]

/-! ### Regions -/

/-- The region lies in conventional memory, or in the pages of its handle. -/
def Resolved (m : MemoryManager) (n : ℕ) : EmsTransferRegion → Prop
  | .conventional linearAddress => linearAddress + n ≤ extendedRamBase
  | .expanded handle regionOffset => ∃ found, m.activeEmsHandle handle = some found ∧
      regionOffset + n ≤ found.pages.length * emsPageSize

section Pool

variable {setup : Setup} {m : MemoryManager} {handle regionOffset n p : ℕ} {found : EmsHandle}
variable (hsize : extendedRamBase + setup.extendedMemorySize ≤ 2 ^ 32) (h : Owned setup m)

omit [CellMemory σ] in
lemma emsPageAllocationOffset_at (hactive : m.activeEmsHandle handle = some found)
    (hp : p < found.pages.length * emsPageSize) :
    ∃ page, found.pages[p / emsPageSize]? = some page ∧
      m.emsPageAllocationOffset handle (p / emsPageSize) = some page.offset := by
  have hlt : p / emsPageSize < found.pages.length := Nat.div_lt_of_lt_mul (Nat.mul_comm _ _ ▸ hp)
  refine ⟨found.pages[p / emsPageSize], List.getElem?_eq_getElem hlt, ?_⟩
  simp [emsPageAllocationOffset, hactive, List.getElem?_eq_getElem hlt]

lemma page_add {pageSize a k : ℕ} (hlt : a % pageSize + k < pageSize) :
    (a + k) / pageSize = a / pageSize ∧ (a + k) % pageSize = a % pageSize + k := by
  have hsplit : a + k = pageSize * (a / pageSize) + (a % pageSize + k) := by
    have := Nat.div_add_mod a pageSize
    omega
  rw [hsplit, Nat.mul_add_div (by omega), Nat.mul_add_mod, Nat.div_eq_of_lt hlt,
    Nat.mod_eq_of_lt hlt]
  exact ⟨Nat.add_zero _, rfl⟩

include hsize h

lemma pageAddress_add (hactive : m.activeEmsHandle handle = some found) {page : Allocation}
    (hpage : page ∈ found.pages) {x k : ℕ} (hx : x + k < emsPageSize) :
    m.extendedPoolLinearAddress (page.offset + x) + k =
      m.extendedPoolLinearAddress (page.offset + (x + k)) := by
  have hlease : (page, emsPageSize) ∈ leases m setup.reserved :=
    mem_leases_page (List.mem_of_getElem? (activeEmsHandle_getElem? hactive)) hpage
  have hend := h.leased.end_le hlease
  have hwithin := h.within
  dsimp only at hend
  rw [extendedPoolLinearAddress_eq hsize h (by omega),
    extendedPoolLinearAddress_eq hsize h (by omega)]
  omega

/-- The chunks of a region of a handle cover it, and no page of it is missing. -/
lemma emsTransferRegionChunks_covers (hactive : m.activeEmsHandle handle = some found)
    (hend : regionOffset + n ≤ found.pages.length * emsPageSize) (copied : ℕ) (hle : copied ≤ n) :
    ∃ chunks, m.emsTransferRegionChunks handle regionOffset n copied = some chunks ∧
      Covers (m.regionAddress (.expanded handle regionOffset)) n copied chunks := by
  induction hmeasure : n - copied using Nat.strong_induction_on generalizing copied with
  | _ measure ih =>
    rw [emsTransferRegionChunks]
    split_ifs with hlt
    swap
    · exact ⟨[], rfl, show copied = n by omega⟩
    have hmem := List.mem_of_getElem? (activeEmsHandle_getElem? hactive)
    have hcount := (h.counted found hmem).count
    have hpageSize : emsPageSize = 16384 := rfl
    have hbytes : found.pages.length * emsPageSize < 2 ^ 32 := by
      rw [hpageSize]
      omega
    have hposition : wrappingAdd 32 regionOffset copied = regionOffset + copied :=
      wrappingAdd_of_lt (by omega)
    generalize ha : regionOffset + copied = a at hposition
    have hmod : a % emsPageSize < emsPageSize := Nat.mod_lt _ (by decide)
    have hbound : a < found.pages.length * emsPageSize := by omega
    obtain ⟨page, hpage, hoffset⟩ := emsPageAllocationOffset_at hactive hbound
    have hnumber : a / emsPageSize % 2 ^ 16 = a / emsPageSize :=
      Nat.mod_eq_of_lt ((Nat.div_lt_of_lt_mul (Nat.mul_comm _ _ ▸ hbound)).trans hcount)
    have hpageMem := List.mem_of_getElem? hpage
    have hlease : (page, emsPageSize) ∈ leases m setup.reserved := mem_leases_page hmem hpageMem
    have hleaseEnd := h.leased.end_le hlease
    have hwithin := h.within
    dsimp only at hleaseEnd
    have hstart : wrappingAdd 32 page.offset (a % emsPageSize) = page.offset + a % emsPageSize :=
      wrappingAdd_of_lt (by omega)
    dsimp only
    rw [hposition, hnumber, hoffset]
    simp only [Option.bind_eq_bind, Option.bind_some, hstart]
    generalize hlen : min (emsPageSize - a % emsPageSize) (n - copied) = len
    have hinPage : ∀ k < len, a % emsPageSize + k < emsPageSize := fun k hk => by omega
    obtain ⟨chunks, hchunks, hcovers⟩ :=
      ih (n - (copied + len)) (by omega) (copied + len) (by omega) rfl
    have haddress := extendedPoolLinearAddress_eq (x := page.offset + a % emsPageSize) hsize h
      (by omega)
    refine ⟨_, by rw [hchunks]; rfl, ?_⟩
    refine ⟨rfl, by omega, by omega, fun k hk => ?_, hcovers⟩
    rw [pageAddress_add hsize h hactive hpageMem (hinPage k hk), regionAddress,
      ← Nat.add_assoc regionOffset, ha, (page_add (hinPage k hk)).1, (page_add (hinPage k hk)).2,
      hoffset]
    rfl

variable {region srcRegion dstRegion : EmsTransferRegion}

lemma withEmsTransferRegionChunks_covers (hr : Resolved m n region) :
    ∃ chunks, m.withEmsTransferRegionChunks region n = some chunks ∧
      Covers (m.regionAddress region) n 0 chunks := by
  cases region with
  | conventional linearAddress =>
    have hend : linearAddress + n ≤ extendedRamBase := hr
    refine ⟨_, rfl, rfl, by omega, (Nat.zero_add n).le, fun k _ => ?_, Nat.zero_add n⟩
    rw [Nat.zero_add]
    rfl
  | expanded handle regionOffset =>
    obtain ⟨found, hactive, hend⟩ := hr
    exact emsTransferRegionChunks_covers hsize h hactive hend 0 (Nat.zero_le n)

lemma readEmsTransferRegion_spec (hr : Resolved m n region) (mem : σ) :
    ∃ buffer, m.readEmsTransferRegion region n mem = some buffer ∧ buffer.length = n ∧
      ∀ k < n, buffer.getD k 0 = byteAt mem (m.regionAddress region k) := by
  obtain ⟨chunks, hchunks, hcovers⟩ := withEmsTransferRegionChunks_covers hsize h hr
  exact ⟨_, by rw [readEmsTransferRegion, hchunks]; rfl, readChunks_spec hcovers _
    List.length_replicate fun k hk => absurd hk (Nat.not_lt_zero k)⟩

lemma writeEmsTransferRegion_spec (hr : Resolved m n region) (mem : σ) {data : List UInt8}
    (hlen : data.length = n) :
    ∃ mem', m.writeEmsTransferRegion region data mem = some mem' ∧
      Written mem (fun k => location mem (m.regionAddress region k)) n (fun k => data.getD k 0)
        mem' := by
  subst hlen
  obtain ⟨chunks, hchunks, hcovers⟩ := withEmsTransferRegionChunks_covers hsize h hr
  refine ⟨_, by rw [writeEmsTransferRegion, hchunks]; rfl, ?_⟩
  refine (writeChunks_spec hcovers data rfl).congr (fun k _ => ?_) fun k _ => ?_
  · rw [Nat.zero_add]
  · rw [Nat.zero_add]

lemma transferRegions_move (hsrc : Resolved m n srcRegion) (hdst : Resolved m n dstRegion)
    (mem : σ) :
    ∃ mem', m.transferRegions srcRegion dstRegion n false mem = some mem' ∧
      Written mem (fun k => location mem (m.regionAddress dstRegion k)) n
        (fun k => byteAt mem (m.regionAddress srcRegion k)) mem' := by
  obtain ⟨buffer, hbuffer, hlen, hread⟩ := readEmsTransferRegion_spec hsize h hsrc mem
  obtain ⟨mem', hmem', hwritten⟩ := writeEmsTransferRegion_spec hsize h hdst mem hlen
  refine ⟨mem', ?_, hwritten.congr (fun _ _ => rfl) fun k hk => (hread k hk).symm⟩
  simp [transferRegions, hbuffer, hmem']

/-- An exchange writes the source region first, each with what the other held. -/
lemma transferRegions_exchange (hsrc : Resolved m n srcRegion) (hdst : Resolved m n dstRegion)
    (mem : σ) :
    ∃ mem₁ mem', m.transferRegions srcRegion dstRegion n true mem = some mem' ∧
      Written mem (fun k => location mem (m.regionAddress srcRegion k)) n
        (fun k => byteAt mem (m.regionAddress dstRegion k)) mem₁ ∧
      Written mem₁ (fun k => location mem (m.regionAddress dstRegion k)) n
        (fun k => byteAt mem (m.regionAddress srcRegion k)) mem' := by
  obtain ⟨srcBuffer, hsrcBuffer, hsrcLen, hsrcRead⟩ := readEmsTransferRegion_spec hsize h hsrc mem
  obtain ⟨dstBuffer, hdstBuffer, hdstLen, hdstRead⟩ := readEmsTransferRegion_spec hsize h hdst mem
  obtain ⟨mem₁, hmem₁, hfirst⟩ := writeEmsTransferRegion_spec hsize h hsrc mem hdstLen
  obtain ⟨mem', hmem', hsecond⟩ := writeEmsTransferRegion_spec hsize h hdst mem₁ hsrcLen
  refine ⟨mem₁, mem', ?_, hfirst.congr (fun _ _ => rfl) fun k hk => (hdstRead k hk).symm,
    hsecond.congr (fun k _ => ?_) fun k hk => (hsrcRead k hk).symm⟩
  · simp [transferRegions, hsrcBuffer, hdstBuffer, hmem₁, hmem']
  · rw [hfirst.location]

end Pool

end Neetan.Ems
