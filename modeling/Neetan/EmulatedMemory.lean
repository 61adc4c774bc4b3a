import Neetan.ByteMemory
import Mathlib.Data.Fin.Basic

/-!
Emulated memory as the DOS memory manager sees it, and as cells behind addresses.

The manager reads and writes linear addresses, and maps each of the four 16 KB slots of the
EMS page frame to a backing address in extended RAM. A machine keeps the backing addresses
in registers that no other access changes.

Two addresses may show the same cell, as two slots of the page frame do that show one page. A
write goes through the addresses one by one, so that a cell keeps what came to it last.
-/

namespace Neetan.EmulatedMemory

open Neetan.ByteMemory

abbrev physicalPages : ℕ := 4

/-- The accesses of the memory manager; addresses are `u32` values. -/
class MemoryAccess (σ : Type) where
  readWord : σ → ℕ → ℕ
  readBlock : σ → ℕ → ℕ → List UInt8
  writeByte : σ → ℕ → UInt8 → σ
  writeWord : σ → ℕ → ℕ → σ
  writeBlock : σ → ℕ → List UInt8 → σ
  enableEmsPageFrame : σ → σ
  mapEmsPageFrameSlot : σ → ℕ → Option ℕ → σ
  enableUmbRegion : σ → Option ℕ → σ

open MemoryAccess

/-- The registers that hold the backing address of each slot. -/
class FrameRegisters (σ : Type) [MemoryAccess σ] where
  slotBacking : σ → Fin physicalPages → Option ℕ
  slotBacking_writeByte : ∀ mem a v, slotBacking (writeByte mem a v) = slotBacking mem
  slotBacking_writeWord : ∀ mem a v, slotBacking (writeWord mem a v) = slotBacking mem
  slotBacking_writeBlock : ∀ mem a v, slotBacking (writeBlock mem a v) = slotBacking mem
  slotBacking_enableEmsPageFrame : ∀ mem, slotBacking (enableEmsPageFrame mem) = slotBacking mem
  slotBacking_enableUmbRegion : ∀ mem v, slotBacking (enableUmbRegion mem v) = slotBacking mem
  slotBacking_mapEmsPageFrameSlot : ∀ mem p v slot,
    slotBacking (mapEmsPageFrameSlot mem p v) slot =
      if slot.val = p then v else slotBacking mem slot

attribute [simp] FrameRegisters.slotBacking_writeByte FrameRegisters.slotBacking_writeWord
  FrameRegisters.slotBacking_writeBlock FrameRegisters.slotBacking_enableEmsPageFrame
  FrameRegisters.slotBacking_enableUmbRegion

/-! ### A Machine -/

/-- Flat memory behind the page frame at `C0000`. -/
structure Machine where
  data : Memory
  emsPageFrameSlotMappings : Fin physicalPages → Option ℕ

def Machine.new : Machine := ⟨fun _ => 0, fun _ => none⟩

def emsPageFrameBase : ℕ := 0xC0000

/-- The address behind an address of the page frame. -/
def Machine.translate (mem : Machine) (address : ℕ) : ℕ :=
  if h : emsPageFrameBase ≤ address ∧ (address - emsPageFrameBase) / 0x4000 < physicalPages then
    match mem.emsPageFrameSlotMappings ⟨_, h.2⟩ with
    | some base => base + (address - emsPageFrameBase) % 0x4000
    | none => address
  else address

def Machine.readByte (mem : Machine) (address : ℕ) : UInt8 := mem.data (mem.translate address)

def Machine.writeByte (mem : Machine) (address : ℕ) (value : UInt8) : Machine :=
  { mem with data := Function.update mem.data (mem.translate address) value }

def Machine.writeBlock (mem : Machine) (address : ℕ) : List UInt8 → Machine
  | [] => mem
  | b :: bs => Machine.writeBlock (mem.writeByte address b) (address + 1) bs

instance : MemoryAccess Machine where
  readWord mem address := (mem.readByte address).toNat + 256 * (mem.readByte (address + 1)).toNat
  readBlock mem address length := (List.range length).map fun i => mem.readByte (address + i)
  writeByte := Machine.writeByte
  writeWord mem address value :=
    mem.writeBlock address [UInt8.ofNat value, UInt8.ofNat (value / 256)]
  writeBlock := Machine.writeBlock
  enableEmsPageFrame mem := mem
  mapEmsPageFrameSlot mem p v :=
    { mem with emsPageFrameSlotMappings := fun slot =>
        if slot.val = p then v else mem.emsPageFrameSlotMappings slot }
  enableUmbRegion mem _ := mem

lemma Machine.slots_writeBlock (mem : Machine) (address : ℕ) (bytes : List UInt8) :
    (mem.writeBlock address bytes).emsPageFrameSlotMappings = mem.emsPageFrameSlotMappings := by
  induction bytes generalizing mem address with
  | nil => rfl
  | cons b bs ih => exact ih _ _

instance : FrameRegisters Machine where
  slotBacking := Machine.emsPageFrameSlotMappings
  slotBacking_writeByte _ _ _ := rfl
  slotBacking_writeWord _ _ _ := Machine.slots_writeBlock _ _ _
  slotBacking_writeBlock _ _ _ := Machine.slots_writeBlock _ _ _
  slotBacking_enableEmsPageFrame _ := rfl
  slotBacking_enableUmbRegion _ _ := rfl
  slotBacking_mapEmsPageFrameSlot _ _ _ _ := rfl

/-! ### Cells -/

/-- Memory of which each address shows one cell. -/
class CellMemory (σ : Type) [MemoryAccess σ] where
  cell : σ → ℕ → UInt8
  location : σ → ℕ → ℕ
  readBlock_eq : ∀ (mem : σ) a n, a + n ≤ 2 ^ 32 →
    readBlock mem a n = (List.range n).map fun k => cell mem (location mem (a + k))
  writeBlock_nil : ∀ (mem : σ) a, writeBlock mem a [] = mem
  writeBlock_cons : ∀ (mem : σ) a b bs, a + bs.length < 2 ^ 32 →
    writeBlock mem a (b :: bs) = writeBlock (writeByte mem a b) (a + 1) bs
  cell_writeByte : ∀ (mem : σ) a b x, a < 2 ^ 32 →
    cell (writeByte mem a b) x = if x = location mem a then b else cell mem x
  location_writeByte : ∀ (mem : σ) a b, location (writeByte mem a b) = location mem

/-- From `base` on, each of a number of addresses shows the cell of its own number. -/
class DirectCells (σ : Type) [MemoryAccess σ] [CellMemory σ] (base size : ℕ) : Prop where
  location_direct : ∀ (mem : σ) a, base ≤ a → a < base + size → CellMemory.location mem a = a

/-- The address belongs to the page frame. -/
def InFrame (address : ℕ) : Prop :=
  emsPageFrameBase ≤ address ∧ address < emsPageFrameBase + physicalPages * 0x4000

/-- Outside the page frame an address goes on to show the same cell, but for those of the upper
memory region at `C0000`, which may be redirected. -/
class FrameCells (σ : Type) [MemoryAccess σ] [CellMemory σ] : Prop where
  location_writeWord : ∀ (mem : σ) a v,
    CellMemory.location (writeWord mem a v) = CellMemory.location mem
  location_writeBlock : ∀ (mem : σ) a bytes,
    CellMemory.location (writeBlock mem a bytes) = CellMemory.location mem
  location_enableEmsPageFrame : ∀ (mem : σ) a, ¬ InFrame a →
    CellMemory.location (enableEmsPageFrame mem) a = CellMemory.location mem a
  location_mapEmsPageFrameSlot : ∀ (mem : σ) p v a, ¬ InFrame a →
    CellMemory.location (mapEmsPageFrameSlot mem p v) a = CellMemory.location mem a
  location_enableUmbRegion : ∀ (mem : σ) backing a, ¬ InFrame a →
    CellMemory.location (enableUmbRegion mem (some backing)) a = CellMemory.location mem a ∨
      ∃ k < 0x20000, a = 0xC0000 + k ∧
        CellMemory.location (enableUmbRegion mem (some backing)) a = backing + k

open CellMemory

variable {σ : Type} [MemoryAccess σ] [CellMemory σ] {mem mem' mem₁ mem₂ : σ} {a a' n x : ℕ}

def byteAt (mem : σ) (address : ℕ) : UInt8 := cell mem (location mem address)

/-! ### Writes -/

/-- Bytes have been written to cells one after the other, and nothing else has changed. -/
structure Written (mem : σ) (target : ℕ → ℕ) (n : ℕ) (data : ℕ → UInt8) (mem' : σ) : Prop where
  location : location mem' = location mem
  cells : ∀ x, (∃ k < n, target k = x ∧ cell mem' x = data k) ∨
    (∀ k < n, target k ≠ x) ∧ cell mem' x = cell mem x

variable {target : ℕ → ℕ} {data : ℕ → UInt8}

lemma Written.nothing (mem : σ) (target : ℕ → ℕ) (data : ℕ → UInt8) :
    Written mem target 0 data mem :=
  ⟨rfl, fun _ => Or.inr ⟨fun _ hk => absurd hk (Nat.not_lt_zero _), rfl⟩⟩

lemma Written.append {m : ℕ} (h₁ : Written mem target n data mem₁)
    (h₂ : Written mem₁ (fun k => target (n + k)) m (fun k => data (n + k)) mem₂) :
    Written mem target (n + m) data mem₂ := by
  refine ⟨h₂.location.trans h₁.location, fun x => ?_⟩
  rcases h₂.cells x with ⟨k, hk, htarget, hcell⟩ | ⟨hmiss₂, hcell₂⟩
  · exact Or.inl ⟨n + k, by omega, htarget, hcell⟩
  rcases h₁.cells x with ⟨k, hk, htarget, hcell⟩ | ⟨hmiss₁, hcell₁⟩
  · exact Or.inl ⟨k, by omega, htarget, hcell₂.trans hcell⟩
  · refine Or.inr ⟨fun k hk => ?_, hcell₂.trans hcell₁⟩
    rcases Nat.lt_or_ge k n with hlt | hge
    · exact hmiss₁ k hlt
    · have hmiss := hmiss₂ (k - n) (by omega)
      rwa [Nat.add_sub_cancel' hge] at hmiss

lemma Written.congr {target' : ℕ → ℕ} {data' : ℕ → UInt8} (h : Written mem target n data mem')
    (htarget : ∀ k < n, target' k = target k) (hdata : ∀ k < n, data' k = data k) :
    Written mem target' n data' mem' := by
  refine ⟨h.location, fun x => ?_⟩
  rcases h.cells x with ⟨k, hk, hx, hcell⟩ | ⟨hmiss, hcell⟩
  · exact Or.inl ⟨k, hk, (htarget k hk).trans hx, hcell.trans (hdata k hk).symm⟩
  · exact Or.inr ⟨fun k hk => htarget k hk ▸ hmiss k hk, hcell⟩

lemma Written.outside (h : Written mem target n data mem') (hx : ∀ k < n, target k ≠ x) :
    cell mem' x = cell mem x := by
  rcases h.cells x with ⟨k, hk, hc, -⟩ | ⟨-, hcell⟩
  · exact absurd hc (hx k hk)
  · exact hcell

/-- What was written is there just when no cell was to take two different bytes. -/
lemma Written.inside_iff (h : Written mem target n data mem') :
    (∀ k < n, cell mem' (target k) = data k) ↔
      ∀ j < n, ∀ k < n, target j = target k → data j = data k := by
  constructor
  · intro hall j hj k hk hsame
    rw [← hall j hj, hsame, hall k hk]
  · intro hdata k hk
    rcases h.cells (target k) with ⟨j, hj, hsame, hcell⟩ | ⟨hmiss, -⟩
    · exact hcell.trans (hdata j hj k hk hsame)
    · exact absurd rfl (hmiss k hk)

/-- Two writes that swap what two lists of cells had do so just when no cell was to take two
different bytes. -/
lemma Written.exchange_iff {p q : ℕ → ℕ} (h₁ : Written mem p n (fun k => cell mem (q k)) mem₁)
    (h₂ : Written mem₁ q n (fun k => cell mem (p k)) mem₂) :
    ((∀ k < n, cell mem₂ (p k) = cell mem (q k)) ∧ ∀ k < n, cell mem₂ (q k) = cell mem (p k)) ↔
      (∀ j < n, ∀ k < n, q j = q k → cell mem (p j) = cell mem (p k)) ∧
      (∀ j < n, ∀ k < n, p j = p k → cell mem (q j) = cell mem (q k)) ∧
      ∀ j < n, ∀ k < n, q j = p k → cell mem (p j) = cell mem (q k) := by
  constructor
  · rintro ⟨hp, hq⟩
    refine ⟨h₂.inside_iff.mp hq, fun j hj k hk hsame => ?_, fun j hj k hk hsame => ?_⟩
    · rw [← hp j hj, hsame, hp k hk]
    · rw [← hq j hj, hsame, hp k hk]
  · rintro ⟨hqq, hpp, hqp⟩
    refine ⟨fun k hk => ?_, h₂.inside_iff.mpr hqq⟩
    rcases h₂.cells (p k) with ⟨j, hj, hsame, hcell⟩ | ⟨-, hcell⟩
    · exact hcell.trans (hqp j hj k hk hsame)
    · exact hcell.trans (h₁.inside_iff.mpr hpp k hk)

lemma writeBlock_written (bytes : List UInt8) (h : a + bytes.length ≤ 2 ^ 32) :
    Written mem (fun k => location mem (a + k)) bytes.length (fun k => bytes.getD k 0)
      (writeBlock mem a bytes) := by
  induction bytes generalizing mem a with
  | nil =>
    rw [writeBlock_nil]
    exact Written.nothing mem _ _
  | cons b bs ih =>
    rw [List.length_cons] at h
    rw [writeBlock_cons mem a b bs (by omega), List.length_cons, Nat.add_comm]
    -- the first byte, and the others behind it
    have hfirst : Written mem (fun k => location mem (a + k)) 1 (fun k => (b :: bs).getD k 0)
        (writeByte mem a b) := by
      refine ⟨location_writeByte mem a b, fun x => ?_⟩
      rw [cell_writeByte mem a b x (by omega)]
      split_ifs with hx
      · exact Or.inl ⟨0, Nat.one_pos, hx.symm, rfl⟩
      · refine Or.inr ⟨fun k hk => ?_, rfl⟩
        obtain rfl : k = 0 := by omega
        exact fun hc => hx hc.symm
    refine hfirst.append ((ih (by omega)).congr (fun k _ => ?_) fun k _ => ?_)
    · rw [location_writeByte, Nat.add_assoc]
    · rw [Nat.add_comm 1 k]
      exact List.getD_cons_succ

/-! ### Reads -/

lemma length_readBlock (h : a + n ≤ 2 ^ 32) : (readBlock mem a n).length = n := by
  rw [readBlock_eq mem a n h, List.length_map, List.length_range]

lemma getD_readBlock {k : ℕ} (h : a + n ≤ 2 ^ 32) (hk : k < n) :
    (readBlock mem a n).getD k 0 = byteAt mem (a + k) := by
  rw [readBlock_eq mem a n h, List.getD_eq_getElem?_getD, List.getElem?_map,
    List.getElem?_range hk]
  rfl

lemma readBlock_congr (h : a + n ≤ 2 ^ 32) (h' : a' + n ≤ 2 ^ 32)
    (hbytes : ∀ k < n, byteAt mem' (a' + k) = byteAt mem (a + k)) :
    readBlock mem' a' n = readBlock mem a n := by
  rw [readBlock_eq mem a n h, readBlock_eq mem' a' n h']
  exact List.map_congr_left fun k hk => hbytes k (List.mem_range.mp hk)

lemma take_readBlock {m : ℕ} (h : a + n ≤ 2 ^ 32) (hle : m ≤ n) :
    (readBlock mem a n).take m = readBlock mem a m := by
  rw [readBlock_eq mem a n h, readBlock_eq mem a m (by omega), ← List.map_take, List.take_range,
    Nat.min_eq_left hle]

/-! ### A Machine -/

instance : CellMemory Machine where
  cell := Machine.data
  location := Machine.translate
  readBlock_eq _ _ _ _ := rfl
  writeBlock_nil _ _ := rfl
  writeBlock_cons _ _ _ _ _ := rfl
  cell_writeByte _ _ _ _ _ := Function.update_apply _ _ _ _
  location_writeByte _ _ _ := rfl

lemma Machine.translate_congr {mem mem' : Machine}
    (h : mem'.emsPageFrameSlotMappings = mem.emsPageFrameSlotMappings) :
    mem'.translate = mem.translate := by
  funext a
  unfold Machine.translate
  rw [h]

lemma Machine.translate_outside (mem : Machine) {a : ℕ} (h : ¬ InFrame a) :
    mem.translate a = a := by
  unfold Machine.translate
  rw [dif_neg]
  rintro ⟨hle, hslot⟩
  refine h ⟨hle, ?_⟩
  simp only [physicalPages] at hslot ⊢
  omega

lemma Machine.translate_new (a : ℕ) : Machine.new.translate a = a := by
  unfold Machine.translate
  split_ifs <;> rfl

instance : FrameCells Machine where
  location_writeWord _ _ _ := Machine.translate_congr (Machine.slots_writeBlock _ _ _)
  location_writeBlock _ _ _ := Machine.translate_congr (Machine.slots_writeBlock _ _ _)
  location_enableEmsPageFrame _ _ _ := rfl
  location_mapEmsPageFrameSlot _ _ _ _ h :=
    (Machine.translate_outside _ h).trans (Machine.translate_outside _ h).symm
  location_enableUmbRegion _ _ _ _ := Or.inl rfl

/-- Nothing is mapped behind the first megabyte. -/
instance (size : ℕ) : DirectCells Machine 0x100000 size where
  location_direct mem a hle _ := by
    refine Machine.translate_outside mem ?_
    rintro ⟨-, hlt⟩
    simp only [emsPageFrameBase, physicalPages] at hlt
    omega

end Neetan.EmulatedMemory
