import Neetan.ByteMemory
import Neetan.MachineInt
import Mathlib.Tactic.SplitIfs

/-!
Memory control blocks: the chain walks of the DOS memory calls, and chains in memory.

Segments and sizes are `u16` values; sums the code leaves unchecked wrap, as in a release
build. A loop without a bound of its own runs on fuel that a loop on a chain cannot use up;
a run out of fuel is reported as `none`. A chain is the list of its headers, from a segment on.
A step of the code changes a few headers in the middle of a list and leaves the memory of all
other paragraphs alone.
-/

namespace Neetan.Mcb

open Neetan.ByteMemory Neetan.MachineInt

/-- A computation that may not come to an end. -/
abbrev Run (α : Type) := Option α

def typeM : UInt8 := 0x4D
def typeZ : UInt8 := 0x5A
def maxChainWalk : ℕ := 4096
def errMcbDestroyed : ℕ := 7
def errInsufficientMemory : ℕ := 8
def errInvalidBlock : ℕ := 9
def offType : ℕ := 0
def offOwner : ℕ := 1
def offSize : ℕ := 3
def offName : ℕ := 8
def ownerFree : ℕ := 0
def ownerDos : ℕ := 8
def commandBlockParagraphs : ℕ := 36

def mcbAddr (segment : ℕ) : ℕ := segment * 16

def readMcbType (mem : Memory) (segment : ℕ) : UInt8 := readByte mem (mcbAddr segment + offType)
def readMcbOwner (mem : Memory) (segment : ℕ) : ℕ := readWord mem (mcbAddr segment + offOwner)
def readMcbSize (mem : Memory) (segment : ℕ) : ℕ := readWord mem (mcbAddr segment + offSize)

def isValidMcbType (t : UInt8) : Bool := t = typeM || t = typeZ

def writeMcbType (mem : Memory) (segment : ℕ) (blockType : UInt8) : Memory :=
  writeByte mem (mcbAddr segment + offType) blockType

def writeMcbOwner (mem : Memory) (segment owner : ℕ) : Memory :=
  writeWord mem (mcbAddr segment + offOwner) owner

def writeMcbSize (mem : Memory) (segment size : ℕ) : Memory :=
  writeWord mem (mcbAddr segment + offSize) size

def clearMcbName (mem : Memory) (segment : ℕ) : Memory :=
  writeBlock mem (mcbAddr segment + offName) (List.replicate 8 0)

/-- The bytes between the size and the name. -/
def clearMcbReserved (mem : Memory) (segment : ℕ) : Memory :=
  writeBlock mem (mcbAddr segment + 5) [0, 0, 0]

def writeMcb (mem : Memory) (segment : ℕ) (blockType : UInt8) (owner size : ℕ)
    (name : List UInt8) : Memory :=
  let mem := writeMcbType mem segment blockType
  let mem := writeMcbOwner mem segment owner
  let mem := writeMcbSize mem segment size
  let mem := clearMcbReserved mem segment
  writeBlock mem (mcbAddr segment + offName) name

/-- The segment behind a block. -/
def nextSegment (segment size : ℕ) : ℕ := wrappingAdd 16 (wrappingAdd 16 segment size) 1

/-! ### Allocation -/

def coalesceForward (mem : Memory) (segment : ℕ) : Memory :=
  if readMcbType mem segment ≠ typeM then mem else
  let blockSize := readMcbSize mem segment
  let next := nextSegment segment blockSize
  let nextType := readMcbType mem next
  if ¬ isValidMcbType nextType then mem else
  if readMcbOwner mem next ≠ ownerFree then mem else
  let merged := wrappingAdd 16 (wrappingAdd 16 blockSize 1) (readMcbSize mem next)
  writeMcbType (writeMcbSize mem segment merged) segment nextType

/-- More iterations than a merging loop makes on a chain. -/
def loopFuel : ℕ := 65536

/-- Merges the free blocks behind a free block into it; the block size the code keeps beside
the header is the stored one. -/
def absorbFree (segment : ℕ) : ℕ → Memory → Run Memory
  | 0, _ => none
  | fuel + 1, mem =>
    if readMcbType mem segment ≠ typeM then some mem else
    let next := nextSegment segment (readMcbSize mem segment)
    if ¬ isValidMcbType (readMcbType mem next) then some mem else
    if readMcbOwner mem next ≠ ownerFree then some mem else
    absorbFree segment fuel (coalesceForward mem segment)

def commitAllocation (mem : Memory) (segment blockSize paragraphs owner : ℕ)
    (allocateFromHigh : Bool) : ℕ × Memory :=
  let blockType := readMcbType mem segment
  let (allocated, mem) :=
    if allocateFromHigh ∧ blockSize > wrappingAdd 16 paragraphs 1 then
      let remaining := wrappingSub 16 (wrappingSub 16 blockSize paragraphs) 1
      let allocated := nextSegment segment remaining
      let mem := writeMcbType mem segment typeM
      let mem := writeMcbOwner mem segment ownerFree
      let mem := writeMcbSize mem segment remaining
      let mem := clearMcbName mem segment
      let mem := writeMcbType mem allocated blockType
      (allocated, writeMcbSize mem allocated paragraphs)
    else if blockSize > wrappingAdd 16 paragraphs 1 then
      let remainder := wrappingAdd 16 (wrappingAdd 16 segment 1) paragraphs
      let remainderSize := wrappingSub 16 (wrappingSub 16 blockSize paragraphs) 1
      let mem := writeMcbType mem remainder blockType
      let mem := writeMcbOwner mem remainder ownerFree
      let mem := writeMcbSize mem remainder remainderSize
      let mem := clearMcbName mem remainder
      let mem := clearMcbReserved mem remainder
      let mem := writeMcbType mem segment typeM
      (segment, writeMcbSize mem segment paragraphs)
    else (segment, mem)
  let mem := writeMcbOwner mem allocated owner
  (wrappingAdd 16 allocated 1, clearMcbName mem allocated)

/-- A data segment, or an error code and the size of the largest free block. -/
abbrev AllocateResult := Except (ℕ × ℕ) ℕ

/-- Whether a block that fits becomes the candidate. -/
def useThis (strategy : ℕ) (candidate : Option (ℕ × ℕ)) (blockSize : ℕ) : Bool :=
  match strategy with
  | 1 => candidate.all fun c => blockSize < c.2
  | 2 => true
  | _ => candidate.isNone

/-- What the walk leaves to do when it ends. -/
def finishAllocate (mem : Memory) (paragraphs owner strategy largest : ℕ)
    (candidate : Option (ℕ × ℕ)) : AllocateResult × Memory :=
  match candidate with
  | some (segment, size) =>
    let committed := commitAllocation mem segment size paragraphs owner (strategy = 2)
    (.ok committed.1, committed.2)
  | none => (.error (errInsufficientMemory, largest), mem)

/-- The walk, with the iterations it has left. -/
def allocateWalk (stopBefore : Option ℕ) (paragraphs owner strategy : ℕ) :
    ℕ → Memory → (current largest : ℕ) → Option (ℕ × ℕ) → Run (AllocateResult × Memory)
  | 0, mem, _, largest, candidate =>
    some (finishAllocate mem paragraphs owner strategy largest candidate)
  | n + 1, mem, current, largest, candidate => do
    let blockType := readMcbType mem current
    if ¬ isValidMcbType blockType then some (.error (errMcbDestroyed, largest), mem) else
    let free := readMcbOwner mem current = ownerFree
    let mem ← if free then absorbFree current loopFuel mem else some mem
    let blockSize := readMcbSize mem current
    let largest := if free ∧ blockSize > largest then blockSize else largest
    let taken := free ∧ blockSize ≥ paragraphs ∧ useThis strategy candidate blockSize
    if taken ∧ strategy = 0 then
      let committed := commitAllocation mem current blockSize paragraphs owner false
      some (.ok (wrappingAdd 16 current 1), committed.2)
    else
    let candidate := if taken then some (current, blockSize) else candidate
    let next := nextSegment current blockSize
    if blockType = typeZ ∨ stopBefore = some next then
      some (finishAllocate mem paragraphs owner strategy largest candidate)
    else allocateWalk stopBefore paragraphs owner strategy n mem next largest candidate

def allocateWithLimit (mem : Memory) (first : ℕ) (stopBefore : Option ℕ)
    (paragraphs owner strategy : ℕ) : Run (AllocateResult × Memory) :=
  allocateWalk stopBefore paragraphs owner strategy maxChainWalk mem first 0 none

def allocate (mem : Memory) (first paragraphs owner strategy : ℕ) :
    Run (AllocateResult × Memory) :=
  allocateWithLimit mem first none paragraphs owner strategy

/-! ### Chains -/

/-- The fields of a control block that the chain walks read. -/
structure Header where
  blockType : UInt8
  owner : ℕ
  size : ℕ
  deriving DecidableEq

def header (mem : Memory) (segment : ℕ) : Header :=
  ⟨readMcbType mem segment, readMcbOwner mem segment, readMcbSize mem segment⟩

variable {mem mem' : Memory} {s t : ℕ}

lemma readMcbType_eq (mem : Memory) (s : ℕ) : readMcbType mem s = (header mem s).blockType := rfl
lemma readMcbOwner_eq (mem : Memory) (s : ℕ) : readMcbOwner mem s = (header mem s).owner := rfl
lemma readMcbSize_eq (mem : Memory) (s : ℕ) : readMcbSize mem s = (header mem s).size := rfl

lemma header_of_changesOnly {p : Set ℕ} (h : ChangesOnly mem mem' p) (hs : s ∉ p) :
    header mem' s = header mem s := by
  have hb : ∀ i < 16, mem' (s * 16 + i) = mem (s * 16 + i) := fun i hi => by
    refine h _ ?_
    rwa [show (s * 16 + i) / 16 = s by omega]
  have h0 := hb 0 (by omega)
  have h1 := hb 1 (by omega)
  have h2 := hb 2 (by omega)
  have h3 := hb 3 (by omega)
  have h4 := hb 4 (by omega)
  simp only [header, readMcbType, readMcbOwner, readMcbSize, readByte, readWord, mcbAddr, offType,
    offOwner, offSize]
  simp only [Nat.add_assoc, Nat.reduceAdd] at *
  rw [h0, h1, h2, h3, h4]

/-! ### Single writes -/

lemma changesOnly_writeMcbType (mem : Memory) (s : ℕ) (v : UInt8) :
    ChangesOnly mem (writeMcbType mem s v) {s} :=
  changesOnly_writeByte v (by unfold mcbAddr offType; omega)

lemma changesOnly_writeMcbOwner (mem : Memory) (s v : ℕ) :
    ChangesOnly mem (writeMcbOwner mem s v) {s} :=
  changesOnly_writeWord (by unfold mcbAddr offOwner; omega) (by unfold mcbAddr offOwner; omega)

lemma changesOnly_writeMcbSize (mem : Memory) (s v : ℕ) :
    ChangesOnly mem (writeMcbSize mem s v) {s} :=
  changesOnly_writeWord (by unfold mcbAddr offSize; omega) (by unfold mcbAddr offSize; omega)

lemma header_writeMcbType_same (mem : Memory) (s : ℕ) (v : UInt8) :
    header (writeMcbType mem s v) s = { header mem s with blockType := v } := by
  simp only [header, readMcbType, readMcbOwner, readMcbSize, writeMcbType, mcbAddr, offType,
    offOwner, offSize, readByte_writeByte, if_true]
  rw [readWord_writeByte_of_ne (by omega), readWord_writeByte_of_ne (by omega)]

lemma header_writeMcbOwner_same (mem : Memory) (s : ℕ) {v : ℕ} (hv : v < 2 ^ 16) :
    header (writeMcbOwner mem s v) s = { header mem s with owner := v } := by
  simp only [header, readMcbType, readMcbOwner, readMcbSize, writeMcbOwner, mcbAddr, offType,
    offOwner, offSize]
  rw [readWord_writeWord_same hv, readWord_writeWord_of_ne (by omega),
    readByte_writeWord_of_ne (by omega)]

lemma header_writeMcbSize_same (mem : Memory) (s : ℕ) {v : ℕ} (hv : v < 2 ^ 16) :
    header (writeMcbSize mem s v) s = { header mem s with size := v } := by
  simp only [header, readMcbType, readMcbOwner, readMcbSize, writeMcbSize, mcbAddr, offType,
    offOwner, offSize]
  rw [readWord_writeWord_same hv, readWord_writeWord_of_ne (by omega),
    readByte_writeWord_of_ne (by omega)]

lemma header_writeBlock (mem : Memory) {a s : ℕ} (data : List UInt8) (ha : s * 16 + 5 ≤ a)
    (hb : a + data.length ≤ s * 16 + 16) : header (writeBlock mem a data) s = header mem s ∧
      ChangesOnly mem (writeBlock mem a data) {s} := by
  induction data generalizing mem a with
  | nil => exact ⟨rfl, ChangesOnly.refl _ _⟩
  | cons v data ih =>
    rw [List.length_cons] at hb
    obtain ⟨hh, hc⟩ := ih (writeByte mem a v) (a := a + 1) (by omega) (by omega)
    refine ⟨hh.trans ?_, (changesOnly_writeByte v (by omega)).trans hc⟩
    simp only [header, readMcbType, readMcbOwner, readMcbSize, mcbAddr, offType, offOwner, offSize,
      readByte_writeByte]
    rw [if_neg (by omega), readWord_writeByte_of_ne (by omega), readWord_writeByte_of_ne (by omega)]

lemma header_clearMcbName_same (mem : Memory) (s : ℕ) :
    header (clearMcbName mem s) s = header mem s :=
  (header_writeBlock mem _ (by unfold mcbAddr offName; omega)
    (by rw [List.length_replicate]; unfold mcbAddr offName; omega)).1

lemma changesOnly_clearMcbName (mem : Memory) (s : ℕ) :
    ChangesOnly mem (clearMcbName mem s) {s} :=
  (header_writeBlock mem _ (by unfold mcbAddr offName; omega)
    (by rw [List.length_replicate]; unfold mcbAddr offName; omega)).2

lemma header_clearMcbReserved_same (mem : Memory) (s : ℕ) :
    header (clearMcbReserved mem s) s = header mem s :=
  (header_writeBlock mem [0, 0, 0] (by unfold mcbAddr; omega)
    (by unfold mcbAddr; simp only [List.length_cons, List.length_nil]; omega)).1

lemma changesOnly_clearMcbReserved (mem : Memory) (s : ℕ) :
    ChangesOnly mem (clearMcbReserved mem s) {s} :=
  (header_writeBlock mem [0, 0, 0] (by unfold mcbAddr; omega)
    (by unfold mcbAddr; simp only [List.length_cons, List.length_nil]; omega)).2

/-! ### Chains -/

/-- The headers of a chain, from a segment on. -/
def Chain (mem : Memory) : ℕ → List Header → Prop
  | _, [] => True
  | s, b :: bs => header mem s = b ∧ Chain mem (s + b.size + 1) bs

/-- The paragraphs of a list of blocks, with their headers. -/
def extent : List Header → ℕ
  | [] => 0
  | b :: bs => b.size + 1 + extent bs

/-- Every block but the last is an M block, and the last is the Z block. -/
def Sealed : List Header → Prop
  | [] => False
  | [b] => b.blockType = typeZ
  | b :: bs => b.blockType = typeM ∧ Sealed bs

@[simp] lemma extent_append (bs cs : List Header) : extent (bs ++ cs) = extent bs + extent cs := by
  induction bs with
  | nil => simp [extent]
  | cons b bs ih => simp only [List.cons_append, extent, ih]; omega

lemma length_le_extent (bs : List Header) : bs.length ≤ extent bs := by
  induction bs with
  | nil => exact le_rfl
  | cons b bs ih => simp only [List.length_cons, extent]; omega

lemma chain_append (mem : Memory) (s : ℕ) (bs cs : List Header) :
    Chain mem s (bs ++ cs) ↔ Chain mem s bs ∧ Chain mem (s + extent bs) cs := by
  induction bs generalizing s with
  | nil => simp [Chain, extent]
  | cons b bs ih =>
    simp only [List.cons_append, Chain, extent, ih]
    rw [show s + b.size + 1 + extent bs = s + (b.size + 1 + extent bs) by omega, and_assoc]

variable {bs : List Header} {b : Header}

lemma Chain.of_changesOnly {p : Set ℕ} (h : Chain mem s bs) (hc : ChangesOnly mem mem' p)
    (hp : ∀ i ∈ p, i < s ∨ s + extent bs ≤ i) :
    Chain mem' s bs := by
  induction bs generalizing s with
  | nil => trivial
  | cons b bs ih =>
    simp only [extent] at hp
    refine ⟨(header_of_changesOnly hc fun hs => ?_).trans h.1, ih h.2 fun i hi => ?_⟩
    · have := hp s hs
      omega
    · have := hp i hi
      omega

lemma Sealed.ne_nil (h : Sealed bs) : bs ≠ [] := by
  rintro rfl
  exact h

lemma Sealed.append {cs : List Header} (h : ∀ b ∈ bs, b.blockType = typeM) (hs : Sealed cs) :
    Sealed (bs ++ cs) := by
  induction bs with
  | nil => exact hs
  | cons b bs ih =>
    have hbs := ih fun c hc => h c (List.mem_cons_of_mem _ hc)
    rw [List.cons_append]
    cases hcs : bs ++ cs with
    | nil => exact absurd hcs hbs.ne_nil
    | cons c ds => exact ⟨h b List.mem_cons_self, hcs ▸ hbs⟩

lemma Sealed.tail (h : Sealed (b :: bs)) (hne : bs ≠ []) :
    Sealed bs := by
  cases bs with
  | nil => exact absurd rfl hne
  | cons c cs => exact h.2

lemma Sealed.head_valid (h : Sealed (b :: bs)) :
    b.blockType = typeM ∨ b.blockType = typeZ := by
  cases bs with
  | nil => exact Or.inr h
  | cons c bs => exact Or.inl h.1

lemma isValidMcbType_iff {v : UInt8} : isValidMcbType v = true ↔ v = typeM ∨ v = typeZ := by
  simp [isValidMcbType]

lemma typeZ_ne_typeM : typeZ ≠ typeM := by decide

lemma nextSegment_of_lt {s n : ℕ} (h : s + n + 1 < 2 ^ 16) : nextSegment s n = s + n + 1 := by
  rw [nextSegment, wrappingAdd_of_lt (show s + n < 2 ^ 16 by omega), wrappingAdd_of_lt h]

/-- What is left of a block when its first paragraphs and a header are taken off. -/
lemma remainderSize_eq {size n : ℕ} (h : n + 1 ≤ size) (hlt : size < 2 ^ 16) :
    wrappingSub 16 (wrappingSub 16 size n) 1 = size - n - 1 := by
  have hn : wrappingSub 16 size n = size - n := wrappingSub_of_le (by omega) hlt
  rw [hn, wrappingSub_of_le (by omega) (by omega)]

/-! ### Merging -/

/-- One block in place of two adjacent ones. -/
def join (b c : Header) : Header := ⟨c.blockType, b.owner, b.size + 1 + c.size⟩

/-- A block with the free blocks behind it merged into it, and the rest. -/
def absorb : Header → List Header → Header × List Header
  | b, [] => (b, [])
  | b, c :: cs => if c.owner = ownerFree then absorb (join b c) cs else (b, c :: cs)

lemma extent_absorb (b : Header) (bs : List Header) :
    extent ((absorb b bs).1 :: (absorb b bs).2) = extent (b :: bs) := by
  induction bs generalizing b with
  | nil => rfl
  | cons c cs ih =>
    unfold absorb
    split_ifs with hc
    · rw [ih]
      simp only [extent, join]
      omega
    · rfl

lemma sealed_absorb (h : Sealed (b :: bs)) :
    Sealed ((absorb b bs).1 :: (absorb b bs).2) := by
  induction bs generalizing b with
  | nil => exact h
  | cons c cs ih =>
    unfold absorb
    split_ifs with hc
    · refine ih ?_
      cases cs with
      | nil => exact h.2
      | cons d ds => exact h.2
    · exact h

lemma owner_absorb (b : Header) (bs : List Header) : (absorb b bs).1.owner = b.owner := by
  induction bs generalizing b with
  | nil => rfl
  | cons c cs ih =>
    unfold absorb
    split_ifs with hc
    · exact (ih _).trans rfl
    · rfl

lemma coalesceForward_spec {c : Header} {cs : List Header} (h : Chain mem s (b :: c :: cs))
    (hs : Sealed (b :: c :: cs)) (hlt : s + extent (b :: c :: cs) < 2 ^ 16)
    (hc : c.owner = ownerFree) :
    Chain (coalesceForward mem s) s (join b c :: cs) ∧
      ChangesOnly mem (coalesceForward mem s) {s} := by
  obtain ⟨hb, hn, hcs⟩ := h
  simp only [extent] at hlt
  have hnext : nextSegment s b.size = s + b.size + 1 := nextSegment_of_lt (by omega)
  have hvalid : isValidMcbType c.blockType = true := isValidMcbType_iff.mpr hs.2.head_valid
  have he : coalesceForward mem s =
      writeMcbType (writeMcbSize mem s (b.size + 1 + c.size)) s c.blockType := by
    unfold coalesceForward
    simp only [readMcbType_eq, readMcbOwner_eq, readMcbSize_eq, hb, hnext, hn, hs.1, hvalid, hc]
    rw [wrappingAdd_of_lt (show b.size + 1 < 2 ^ 16 by omega),
      wrappingAdd_of_lt (show b.size + 1 + c.size < 2 ^ 16 by omega)]
    simp
  have hchange : ChangesOnly mem (coalesceForward mem s) {s} := by
    rw [he]
    exact (changesOnly_writeMcbSize _ _ _).trans (changesOnly_writeMcbType _ _ _)
  refine ⟨⟨?_, ?_⟩, hchange⟩
  · rw [he, header_writeMcbType_same, header_writeMcbSize_same _ _ (by omega), hb]
    rfl
  · have hrest := hcs.of_changesOnly hchange (by rintro i rfl; omega)
    rwa [join, show s + (b.size + 1 + c.size) + 1 = s + b.size + 1 + c.size + 1 by omega]

lemma absorbFree_spec (h : Chain mem s (b :: bs)) (hs : Sealed (b :: bs))
    (hlt : s + extent (b :: bs) < 2 ^ 16) {fuel : ℕ} (hf : bs.length < fuel) :
    ∃ mem', absorbFree s fuel mem = some mem' ∧
      Chain mem' s ((absorb b bs).1 :: (absorb b bs).2) ∧ ChangesOnly mem mem' {s} := by
  induction bs generalizing mem b fuel with
  | nil =>
    obtain ⟨n, rfl⟩ := Nat.exists_eq_succ_of_ne_zero (by omega : fuel ≠ 0)
    refine ⟨mem, ?_, h, ChangesOnly.refl _ _⟩
    have hz : b.blockType = typeZ := hs
    rw [absorbFree, if_pos (by rw [readMcbType_eq, h.1, hz]; exact typeZ_ne_typeM)]
  | cons c cs ih =>
    obtain ⟨n, rfl⟩ := Nat.exists_eq_succ_of_ne_zero (by omega : fuel ≠ 0)
    rw [List.length_cons] at hf
    have hnext : nextSegment s b.size = s + b.size + 1 := by
      simp only [extent] at hlt
      exact nextSegment_of_lt (by omega)
    have hvalid : isValidMcbType c.blockType = true := isValidMcbType_iff.mpr hs.2.head_valid
    have hunfold : absorbFree s (n + 1) mem =
        if c.owner ≠ ownerFree then some mem else absorbFree s n (coalesceForward mem s) := by
      rw [absorbFree, if_neg (by rw [readMcbType_eq, h.1, hs.1]; exact fun hc => hc rfl)]
      simp only [readMcbType_eq, readMcbOwner_eq, readMcbSize_eq, h.1, hnext, h.2.1, hvalid]
      simp
    rw [hunfold, absorb]
    by_cases hc : c.owner = ownerFree
    · obtain ⟨hchain, hchange⟩ := coalesceForward_spec h hs hlt hc
      have hs' : Sealed (join b c :: cs) := by
        cases cs with
        | nil => exact hs.2
        | cons d ds => exact hs.2
      have hlt' : s + extent (join b c :: cs) < 2 ^ 16 := by
        simp only [extent, join] at hlt ⊢
        omega
      obtain ⟨mem', hm, hch, hco⟩ := ih hchain hs' hlt' (by omega : cs.length < n)
      rw [if_neg (fun hn => hn hc), if_pos hc]
      exact ⟨mem', hm, hch, hchange.trans hco⟩
    · rw [if_pos hc, if_neg hc]
      exact ⟨mem, rfl, h, ChangesOnly.refl _ _⟩

end Neetan.Mcb
