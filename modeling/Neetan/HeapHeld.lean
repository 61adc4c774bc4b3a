import Neetan.HeapOperations

/-!
The accounting: how many slots are taken and how many bytes their objects own; and what holds of a
heap between any two operations.

A collection recounts slots and bytes from the survivors, which keep their sizes, so it never raises
the footprint. The span ahead of the cursor is authorized against the limits before it is used, so
the invariant counts it as if it were already taken.
-/

namespace Neetan.Gc

open Neetan.Bytecode

/-! ### Sizes of contents -/

/-- The size of an object is read off its contents. -/
def Content.bytes (owned : Object → ℕ) : Content → ℕ
  | .vector values => saturatingAdd objectSize (saturatingMul values.length valueSize)
  | .bytevector bytes => saturatingAdd objectSize bytes.length
  | .string bytes _ => saturatingAdd objectSize bytes.length
  | .plain object => object.bytes owned

section
variable (owned : Object → ℕ)

lemma bytes_of_content {object : Object} {content : Content} {bytes : List UInt8}
    {values : List Value} (h : object.content bytes values = some content) :
    object.bytes owned = content.bytes owned := by
  cases object
  case vector | bytevector | string =>
    obtain ⟨elements, hs, rfl⟩ := Option.map_eq_some_iff.mp h
    simp only [Object.bytes, Content.bytes, (span_eq_some hs).2]
  all_goals
    obtain rfl := Option.some.inj h
    rfl

lemma objectSize_le_bytes (object : Object) : objectSize ≤ object.bytes owned := by
  have hle : ∀ n, objectSize ≤ saturatingAdd objectSize n := by
    intro n
    unfold saturatingAdd objectSize usizeMax
    omega
  cases object <;> exact hle _

/-! ### Tallies -/

/-- The number of slots taken. -/
def occupied (slots : List (Option Object)) : ℕ := slots.countP Option.isSome

/-- The out-of-line bytes of the object in a slot. -/
def slotPayload (slot : Option Object) : ℕ :=
  slot.elim 0 fun object => object.bytes owned - objectSize

def payloads (slots : List (Option Object)) : ℕ := (slots.map (slotPayload owned)).sum

@[simp] lemma occupied_nil : occupied [] = 0 := rfl

@[simp] lemma payloads_nil : payloads owned [] = 0 := rfl

lemma occupied_cons (slot : Option Object) (slots : List (Option Object)) :
    occupied (slot :: slots) = occupied slots + if slot.isSome then 1 else 0 :=
  List.countP_cons

lemma payloads_cons (slot : Option Object) (slots : List (Option Object)) :
    payloads owned (slot :: slots) = slotPayload owned slot + payloads owned slots := by
  simp [payloads]

lemma occupied_le_length (slots : List (Option Object)) : occupied slots ≤ slots.length :=
  List.countP_le_length

lemma occupied_append_none (slots : List (Option Object)) (n : ℕ) :
    occupied (slots ++ List.replicate n none) = occupied slots := by
  simp [occupied, List.countP_append, List.countP_replicate]

lemma payloads_append_none (slots : List (Option Object)) (n : ℕ) :
    payloads owned (slots ++ List.replicate n none) = payloads owned slots := by
  simp [payloads, slotPayload]

lemma occupied_set_le (slots : List (Option Object)) (i : ℕ) (object : Object) :
    occupied (slots.set i (some object)) ≤ occupied slots + 1 := by
  induction slots generalizing i with
  | nil => simp
  | cons slot slots ih =>
    cases i with
    | zero =>
      rw [List.set_cons_zero, occupied_cons, occupied_cons]
      simp
    | succ i =>
      have hi := ih i
      rw [List.set_cons_succ, occupied_cons, occupied_cons]
      omega

lemma payloads_set_le (slots : List (Option Object)) (i : ℕ) (object : Object) :
    payloads owned (slots.set i (some object)) ≤
      payloads owned slots + (object.bytes owned - objectSize) := by
  induction slots generalizing i with
  | nil => simp
  | cons slot slots ih =>
    cases i with
    | zero =>
      rw [List.set_cons_zero, payloads_cons, payloads_cons]
      simp only [slotPayload, Option.elim_some]
      omega
    | succ i =>
      have hi := ih i
      rw [List.set_cons_succ, payloads_cons, payloads_cons]
      omega

/-! ### The recount -/

section
variable (fromBytes : List UInt8) (fromValues : List Value) (color : MarkColor)

lemma sweepSurvivor_bytes (object : Object) (sweep : Sweep) :
    (sweepSurvivor owned fromBytes fromValues object sweep).2.2 =
      (sweepSurvivor owned fromBytes fromValues object sweep).1.bytes owned := by
  have hempty : saturatingAdd objectSize 0 = objectSize := rfl
  unfold sweepSurvivor
  split
  case h_1 | h_2 | h_3 => split <;> simp [Object.bytes, saturatingMul, hempty]
  case h_4 => rfl

lemma sweepSlot_tally {cell : Cell} (ht : cell.slot = none ↔ cell.state = metaFree) (index : ℕ)
    {sweep : Sweep} :
    let swept := sweepSlot owned fromBytes fromValues color index cell sweep
    swept.2.live = sweep.live + (if swept.1.slot.isSome then 1 else 0) ∧
      swept.2.liveBytes = (if swept.1.slot.isSome then
        saturatingAdd sweep.liveBytes (objectSize + slotPayload owned swept.1.slot)
        else sweep.liveBytes) := by
  have hclose : (sweep.closeRun index).live = sweep.live ∧
      (sweep.closeRun index).liveBytes = sweep.liveBytes := by
    unfold Sweep.closeRun
    split <;> exact ⟨rfl, rfl⟩
  unfold sweepSlot
  by_cases hstate : cell.state = color.bits
  · obtain ⟨object, hslot⟩ : ∃ object, cell.slot = some object :=
      Option.ne_none_iff_exists'.mp (ht.not.mpr (hstate ▸ color.bits_ne_free))
    have hlive : ∀ sweep, (sweepSurvivor owned fromBytes fromValues object sweep).2.1.live =
        sweep.live ∧ (sweepSurvivor owned fromBytes fromValues object sweep).2.1.liveBytes =
        sweep.liveBytes := by
      intro sweep
      unfold sweepSurvivor
      split <;> first | (split <;> exact ⟨rfl, rfl⟩) | exact ⟨rfl, rfl⟩
    have hbytes := sweepSurvivor_bytes owned fromBytes fromValues object
    simp only [hstate, if_true, keepCell, hslot]
    refine ⟨?_, ?_⟩
    · simp [(hlive _).1, hclose.1]
    · simp only [Option.isSome_some, if_true, slotPayload, Option.elim_some, hbytes, (hlive _).2,
        hclose.2]
      exact congrArg _ (Nat.add_sub_cancel' (objectSize_le_bytes owned _)).symm
  · simp only [hstate, if_false, Sweep.openRun]
    by_cases hfree : cell.state = metaFree
    · simp [hfree, ht.mpr hfree]
    · simp [hfree]

lemma sweepSlots_tally {cells : List Cell} (ht : Tagged cells) (index : ℕ) {sweep : Sweep}
    (hsweep : sweep.liveBytes ≤ usizeMax) :
    let swept := sweepSlots owned fromBytes fromValues color index cells sweep
    swept.2.live = sweep.live + occupied (slotsOf swept.1) ∧
      swept.2.liveBytes = saturatingAdd sweep.liveBytes
        (objectSize * occupied (slotsOf swept.1) + payloads owned (slotsOf swept.1)) := by
  induction cells generalizing index sweep with
  | nil => simpa [sweepSlots, slotsOf, saturatingAdd] using hsweep
  | cons cell cells ih =>
    obtain ⟨hlive, hbytes⟩ := @sweepSlot_tally owned fromBytes fromValues color cell
      (ht cell List.mem_cons_self) index sweep
    generalize hfirst : sweepSlot owned fromBytes fromValues color index cell sweep = first at *
    have hle : first.2.liveBytes ≤ usizeMax := by
      rw [hbytes]
      split_ifs
      · exact min_le_right _ _
      · exact hsweep
    obtain ⟨hlive', hbytes'⟩ := ih (fun cell hcell => ht cell (List.mem_cons_of_mem _ hcell))
      (index + 1) hle
    generalize hrest : sweepSlots owned fromBytes fromValues color (index + 1) cells first.2 =
      rest at *
    have hslots : slotsOf (first.1 :: rest.1) = first.1.slot :: slotsOf rest.1 := rfl
    simp only [sweepSlots, hfirst, hrest, hslots, occupied_cons, payloads_cons]
    refine ⟨by omega, ?_⟩
    rw [hbytes', hbytes]
    cases hslot : first.1.slot with
    | none => simp [slotPayload]
    | some object =>
      simp only [Option.isSome_some, if_true]
      unfold saturatingAdd
      generalize usizeMax = top
      generalize slotPayload owned (some object) = own
      unfold objectSize
      omega

end

/-! ### A collection -/

section
variable (heap : Heap) (extraRoots : List Value)

lemma swept_tally (h : heap.Valid) (hs : heap.Addressable) :
    occupied (slotsOf (heap.collectWith owned extraRoots).cells) ≤ occupied (slotsOf heap.cells) ∧
      payloads owned (slotsOf (heap.collectWith owned extraRoots).cells) ≤
        payloads owned (slotsOf heap.cells) := by
  have hswept := (swept_spec owned heap extraRoots h hs).1
  rw [collectWith_cells, ← marked_slots heap extraRoots]
  generalize (heap.swept owned extraRoots).1 = cells at hswept ⊢
  generalize heap.marked extraRoots = marked at hswept ⊢
  induction hswept with
  | nil => exact ⟨le_rfl, le_rfl⟩
  | @cons cell after cells marked hcell _ ih =>
    have hcons : ∀ (cell : Cell) (cells : List Cell), slotsOf (cell :: cells) =
        cell.slot :: slotsOf cells := fun _ _ => rfl
    simp only [hcons, occupied_cons, payloads_cons]
    cases hcell with
    | kept _ hslot hc hc' =>
      have hsize := (bytes_of_content owned hc).trans (bytes_of_content owned hc').symm
      simp only [hslot, slotPayload, Option.isSome_some, if_true, Option.elim_some, hsize]
      omega
    | freed _ hnone _ =>
      simp only [hnone, slotPayload, Option.isSome_none, Option.elim_none]
      simp only [Bool.false_eq_true, if_false]
      omega

lemma collected_tally (h : heap.Valid) (hs : heap.Addressable) :
    (heap.collectWith owned extraRoots).liveSlots =
      occupied (slotsOf (heap.collectWith owned extraRoots).cells) ∧
    (heap.collectWith owned extraRoots).totalBytes =
      saturatingAdd
        (objectSize * occupied (slotsOf (heap.collectWith owned extraRoots).cells))
        (payloads owned (slotsOf (heap.collectWith owned extraRoots).cells)) := by
  obtain ⟨hlive, hbytes⟩ := @sweepSlots_tally owned heap.byteArena heap.valueArena
    heap.currentMark.rotate _ (marked_tagged heap extraRoots h) 0 ⟨[], [], [], none, 0, 0⟩
    (Nat.zero_le _)
  rw [collectWith_cells]
  have hlength : (slotsOf (heap.swept owned extraRoots).1).length < 2 ^ 32 := by
    have hcells := hs.cells
    rw [← collected_length owned heap extraRoots h hs, collectWith_cells] at hcells
    simpa [slotsOf] using hcells
  have hcount := (occupied_le_length (slotsOf (heap.swept owned extraRoots).1)).trans_lt hlength
  have hswept : sweepSlots owned heap.byteArena heap.valueArena heap.currentMark.rotate 0
    (heap.marked extraRoots) ⟨[], [], [], none, 0, 0⟩ = heap.swept owned extraRoots := rfl
  rw [hswept] at hlive hbytes
  have hclose : ∀ (sweep : Sweep) (index : ℕ), (sweep.closeRun index).live = sweep.live ∧
      (sweep.closeRun index).liveBytes = sweep.liveBytes := by
    intro sweep index
    unfold Sweep.closeRun
    split <;> exact ⟨rfl, rfl⟩
  have hbase : (heap.collectWith owned extraRoots).liveSlots =
      (heap.swept owned extraRoots).2.live := by
    simp [Heap.collectWith, Heap.sweep, Heap.markRoots, Heap.swept, Heap.marked, sweepCells_eq,
      Heap.roots, Heap.liveSlots, hclose]
  have hdynamic : (heap.collectWith owned extraRoots).dynamicBytes =
      (heap.swept owned extraRoots).2.liveBytes -
        saturatingMul (heap.swept owned extraRoots).2.live objectSize := by
    simp [Heap.collectWith, Heap.sweep, Heap.markRoots, Heap.swept, Heap.marked, sweepCells_eq,
      Heap.roots, hclose]
  simp only [Nat.zero_add] at hlive hbytes
  refine ⟨hbase.trans hlive, ?_⟩
  rw [Heap.totalBytes, hbase, hdynamic, hlive, hbytes]
  clear hlive hbytes hbase hdynamic
  generalize occupied (slotsOf (heap.swept owned extraRoots).1) = count at *
  generalize payloads owned (slotsOf (heap.swept owned extraRoots).1) = payload at *
  unfold saturatingAdd saturatingMul usizeMax objectSize
  omega

end

end

/-! ### Outcomes -/

lemma Ends.and {α : Type} {heap : Heap} {run : HeapM α} {post post' : α → Heap → Prop}
    {fail fail' : Heap → Prop} (h : Ends run heap post fail) (h' : Ends run heap post' fail') :
    Ends run heap (fun value after => post value after ∧ post' value after)
      (fun after => fail after ∧ fail' after) := by
  unfold Ends at *
  cases hr : run heap with
  | error failure =>
    rw [hr] at h h'
    exact ⟨h, h'⟩
  | ok result =>
    rw [hr] at h h'
    exact ⟨h, h'⟩

lemma Ends.congr {α : Type} {heap heap' : Heap} {run run' : HeapM α} {post : α → Heap → Prop}
    {fail : Heap → Prop} (h : run heap = run' heap') (h' : Ends run' heap' post fail) :
    Ends run heap post fail := by
  unfold Ends at *
  rw [h]
  exact h'

/-! ### What an operation leaves alone -/

/-- The values an object with these contents refers to. -/
def Content.edges : Content → List Value
  | .vector values => values
  | .bytevector _ | .string _ _ => []
  | .plain object => object.edges []

lemma edges_of_content {object : Object} {content : Content} {bytes : List UInt8}
    {values : List Value} (h : object.content bytes values = some content) :
    object.edges values = content.edges := by
  cases object
  case vector | bytevector | string =>
    obtain ⟨elements, hs, rfl⟩ := Option.map_eq_some_iff.mp h
    simp [Object.edges, Content.edges, hs]
  all_goals
    obtain rfl := Option.some.inj h
    rfl

namespace Heap

/-- No collection in an allocation takes the object in slot `i`. -/
def Secure (heap : Heap) (i : ℕ) : Prop := heap.vmActive = true ∨ heap.Live [] i

end Heap

/-- The roots, the limits and every object that is secure are the same. -/
structure Keeps (before after : Heap) : Prop where
  vmActive : after.vmActive = before.vmActive
  roots : ∀ extraRoots, after.roots extraRoots = before.roots extraRoots
  maxSlots : after.maxSlots = before.maxSlots
  maxBytes : after.maxBytes = before.maxBytes
  contents : ∀ i, before.Secure i → after.contents i = before.contents i
  secure : ∀ i, before.Secure i → after.Secure i

lemma Keeps.refl (heap : Heap) : Keeps heap heap :=
  ⟨rfl, fun _ => rfl, rfl, rfl, fun _ _ => rfl, fun _ h => h⟩

lemma Keeps.trans {first second third : Heap} (h : Keeps first second) (h' : Keeps second third) :
    Keeps first third where
  vmActive := h'.vmActive.trans h.vmActive
  roots extraRoots := (h'.roots extraRoots).trans (h.roots extraRoots)
  maxSlots := h'.maxSlots.trans h.maxSlots
  maxBytes := h'.maxBytes.trans h.maxBytes
  contents i hi := (h'.contents i (h.secure i hi)).trans (h.contents i hi)
  secure i hi := h'.secure i (h.secure i hi)

lemma contents_of_slot {heap : Heap} (hv : heap.Valid) {i : ℕ} {object : Object}
    (h : (slotsOf heap.cells)[i]? = some (some object)) :
    ∃ content immutable, object.content heap.byteArena heap.valueArena = some content ∧
      heap.contents i = some (content, immutable) := by
  rw [slotsOf_getElem?] at h
  obtain ⟨cell, hcell, hslot⟩ := Option.map_eq_some_iff.mp h
  obtain ⟨content, hc⟩ := hv.inside object (mem_slotsOf (List.mem_of_getElem? hcell) hslot)
  refine ⟨content, cell.byte &&& metaImmutable ≠ 0, hc, ?_⟩
  simp [Heap.contents, hcell, hslot, hc]

lemma slot_of_contents {heap : Heap} {i : ℕ} {content : Content} {immutable : Bool}
    (h : heap.contents i = some (content, immutable)) :
    ∃ object, (slotsOf heap.cells)[i]? = some (some object) ∧
      object.content heap.byteArena heap.valueArena = some content := by
  simp only [Heap.contents, Option.bind_eq_bind, Option.bind_eq_some_iff, Option.pure_def,
    Option.some.injEq, Prod.mk.injEq] at h
  obtain ⟨cell, hcell, object, hslot, content', hc, rfl, -⟩ := h
  exact ⟨object, by rw [slotsOf_getElem?, hcell, Option.map_some, hslot], hc⟩

lemma live_of_contents {before after : Heap} (hv : before.Valid)
    (hroots : after.roots [] = before.roots [])
    (h : ∀ i, before.Live [] i → after.contents i = before.contents i) {i : ℕ}
    (hi : before.Live [] i) : after.Live [] i := by
  have hslot : ∀ {i : ℕ} {object : Object}, before.Live [] i →
      (slotsOf before.cells)[i]? = some (some object) →
      ∃ object', (slotsOf after.cells)[i]? = some (some object') ∧
        object'.edges after.valueArena = object.edges before.valueArena := by
    intro i object hi hobject
    obtain ⟨content, immutable, hc, hcontents⟩ := contents_of_slot hv hobject
    obtain ⟨object', hobject', hc'⟩ := slot_of_contents ((h i hi).trans hcontents)
    exact ⟨object', hobject', (edges_of_content hc').trans (edges_of_content hc).symm⟩
  have hrefers : ∀ {value : Value} {i : ℕ}, before.Live [] i →
      Refers (slotsOf before.cells) value i → Refers (slotsOf after.cells) value i := by
    rintro value i hi ⟨reference, object, href, hnat, hobject⟩
    obtain ⟨object', hobject', -⟩ := hslot hi hobject
    exact ⟨reference, object', href, hnat, hobject'⟩
  induction hi with
  | root hvalue href =>
    exact .root (hroots ▸ hvalue) (hrefers (.root hvalue href) href)
  | edge hreach hobject hvalue href ih =>
    obtain ⟨object', hobject', hedges⟩ := hslot hreach hobject
    exact .edge ih hobject' (hedges ▸ hvalue) (hrefers (.edge hreach hobject hvalue href) href)

lemma keeps_of_contents {before after : Heap} (hv : before.Valid)
    (hactive : after.vmActive = before.vmActive)
    (hroots : ∀ extraRoots, after.roots extraRoots = before.roots extraRoots)
    (hslots : after.maxSlots = before.maxSlots) (hbytes : after.maxBytes = before.maxBytes)
    (h : ∀ i, before.Secure i → after.contents i = before.contents i) : Keeps before after := by
  refine ⟨hactive, hroots, hslots, hbytes, h, ?_⟩
  rintro i (hi | hi)
  · exact .inl (hactive.trans hi)
  · exact .inr (live_of_contents hv (hroots []) (fun i hi => h i (.inr hi)) hi)

lemma Grows.keeps {before after : Heap} (h : Grows before after) (hv : before.Valid)
    (hroots : ∀ extraRoots, after.roots extraRoots = before.roots extraRoots)
    (hslots : after.maxSlots = before.maxSlots) (hbytes : after.maxBytes = before.maxBytes) :
    Keeps before after :=
  keeps_of_contents hv h.vmActive hroots hslots hbytes fun i _ => h.contents hv i

/-! ### The invariant -/

section
variable (owned : Object → ℕ)

/-- The heap is sound, its counts cover the objects there are, and the authorized span stays
within the slot limit. -/
structure Heap.Held (heap : Heap) : Prop where
  sound : heap.Sound
  began : heap.authStart ≤ heap.cursor
  slots : occupied (slotsOf heap.cells) ≤ heap.liveSlots
  bytes : min (objectSize * heap.liveSlots + payloads owned (slotsOf heap.cells)) usizeMax ≤
    heap.totalBytes
  room : heap.liveSlots + (heap.limit - heap.cursor) ≤ heap.maxSlots

/-- The byte limit covers the authorized span and `extra` bytes. -/
def Heap.Spare (heap : Heap) (extra : ℕ) : Prop :=
  saturatingAdd (heap.totalBytes + extra) (objectSize * (heap.limit - heap.cursor)) ≤
    heap.maxBytes

end

lemma Heap.Spare.total {heap : Heap} (h : heap.Spare 0) : heap.totalBytes ≤ heap.maxBytes := by
  have htotal : heap.totalBytes ≤ usizeMax := min_le_right _ _
  unfold Heap.Spare saturatingAdd at h
  generalize usizeMax = top at *
  omega

lemma spare_of_used {heap : Heap} (h : heap.limit ≤ heap.cursor)
    (hbytes : heap.totalBytes ≤ heap.maxBytes) : heap.Spare 0 := by
  unfold Heap.Spare saturatingAdd
  rw [Nat.sub_eq_zero_of_le h]
  omega

section
variable {owned : Object → ℕ} {heap : Heap}

/-! ### Retiring and collecting -/

@[simp] lemma retire_liveSlots : heap.retire.liveSlots = heap.liveSlots := by
  simp [Heap.retire, Heap.liveSlots]

@[simp] lemma retire_totalBytes : heap.retire.totalBytes = heap.totalBytes := by
  rw [Heap.totalBytes, retire_liveSlots]
  rfl

lemma Heap.Held.retire (h : heap.Held owned) : heap.retire.Held owned where
  sound := (accounts_retire heap).grows.sound h.sound ((accounts_retire heap).ready h.sound.ready)
  began := le_rfl
  slots := h.slots.trans retire_liveSlots.ge
  bytes := by
    rw [retire_liveSlots, retire_totalBytes]
    exact h.bytes
  room := by
    rw [retire_liveSlots]
    exact h.room

lemma keeps_retire (hv : heap.Valid) : Keeps heap heap.retire :=
  (accounts_retire heap).grows.keeps hv (fun _ => rfl) rfl rfl

lemma Heap.Held.pending (h : heap.Held owned) (pendingCollection : Bool) :
    ({ heap with pendingCollection } : Heap).Held owned :=
  ⟨(accounts_pending heap pendingCollection).grows.sound h.sound
    ((accounts_pending heap pendingCollection).ready h.sound.ready), h.began, h.slots, h.bytes,
    h.room⟩

lemma keeps_pending (hv : heap.Valid) (pendingCollection : Bool) :
    Keeps heap { heap with pendingCollection } :=
  (accounts_pending heap pendingCollection).grows.keeps hv (fun _ => rfl) rfl rfl

lemma collectWith_frame (extraRoots : List Value) :
    (heap.collectWith owned extraRoots).vmActive = heap.vmActive ∧
      (∀ roots, (heap.collectWith owned extraRoots).roots roots = heap.roots roots) ∧
      (heap.collectWith owned extraRoots).maxSlots = heap.maxSlots ∧
      (heap.collectWith owned extraRoots).maxBytes = heap.maxBytes ∧
      (heap.collectWith owned extraRoots).cursor = 0 ∧
      (heap.collectWith owned extraRoots).limit = 0 ∧
      (heap.collectWith owned extraRoots).authStart = 0 :=
  ⟨rfl, fun _ => rfl, rfl, rfl, rfl, rfl, rfl⟩

lemma Heap.Held.collectWith (h : heap.Held owned) (extraRoots : List Value) :
    (heap.collectWith owned extraRoots).Held owned ∧
      (heap.collectWith owned extraRoots).totalBytes ≤ heap.totalBytes := by
  obtain ⟨hv, hr, hf⟩ := h.sound
  obtain ⟨hslots, hpayloads⟩ := swept_tally owned heap extraRoots hv hr.addressable
  obtain ⟨hlive, htotal⟩ := collected_tally owned heap extraRoots hv hr.addressable
  obtain ⟨-, -, hmax, -, hcursor, hlimit, hauth⟩ := @collectWith_frame owned heap extraRoots
  have hcount : (heap.collectWith owned extraRoots).liveSlots ≤ heap.liveSlots :=
    hlive.le.trans (hslots.trans h.slots)
  refine ⟨⟨⟨collected_valid owned heap extraRoots hv hr.addressable,
    collected_ready owned heap extraRoots hv hr.addressable,
    collected_freshColor owned heap extraRoots hv hr.addressable⟩, ?_, hlive.ge, ?_, ?_⟩, ?_⟩
  · rw [hcursor, hauth]
  · rw [htotal, hlive]
    exact le_rfl
  · have hroom := h.room
    rw [hcursor, hlimit, hmax]
    omega
  · have hbytes := h.bytes
    rw [htotal, ← hlive]
    unfold saturatingAdd
    generalize usizeMax = top at *
    unfold objectSize at *
    omega

lemma keeps_collect (h : heap.Held owned) (hactive : heap.vmActive ≠ true) :
    Keeps heap (heap.collect owned) := by
  obtain ⟨hv, hr, hf⟩ := h.sound
  refine keeps_of_contents hv rfl (fun _ => rfl) rfl rfl ?_
  rintro i (hi | hi)
  · exact absurd hi hactive
  · exact collected_contents owned heap [] hv hf hr.addressable hi

/-! ### Refilling -/

end

section
variable (owned : Object → ℕ)

/-- The heap in which a refill authorizes: the span is retired, and a soft threshold that is
reached has made a collection due, or run one. -/
def Heap.settled (heap : Heap) : Heap :=
  if heap.retire.softReached then
    if heap.vmActive then { heap.retire with pendingCollection := true }
    else (heap.retire.collect owned).retire
  else heap.retire

/-- The number of slots that are authorized next. -/
def Heap.spanCount (heap : Heap) : ℕ :=
  if heap.cursor < heap.regionEnd then min heap.spanBudget (heap.regionEnd - heap.cursor)
  else
    match heap.holes with
    | hole :: _ => min heap.spanBudget (hole.stop - hole.start)
    | [] => min heap.spanBudget heap.growth

lemma refillSpan_eq (heap : Heap) : refillSpan owned heap = authorize (heap.settled owned) := by
  have hactive : heap.retire.vmActive = heap.vmActive := rfl
  rw [refillSpan_cases, hactive]
  unfold Heap.settled
  split_ifs <;> rfl

end

section
variable {owned : Object → ℕ} {heap : Heap}

lemma settled_spec (h : heap.Held owned) :
    (heap.settled owned).Held owned ∧ Keeps heap (heap.settled owned) ∧
      (heap.settled owned).authStart = (heap.settled owned).cursor ∧
      (heap.settled owned).totalBytes ≤ heap.totalBytes := by
  have hretire := h.retire
  have hkeeps := keeps_retire h.sound.valid
  unfold Heap.settled
  split_ifs with hsoft hactive
  · exact ⟨hretire.pending true, hkeeps.trans (keeps_pending hretire.sound.valid true), rfl,
      retire_totalBytes.le⟩
  · obtain ⟨hcollect, hle⟩ := hretire.collectWith []
    refine ⟨hcollect.retire, (hkeeps.trans (keeps_collect hretire hactive)).trans
      (keeps_retire hcollect.sound.valid), rfl, ?_⟩
    rw [retire_totalBytes]
    exact hle.trans retire_totalBytes.le
  · exact ⟨hretire, hkeeps, rfl, retire_totalBytes.le⟩

lemma spanCount_le : heap.spanCount ≤ heap.allowance := by
  have hbudget : heap.spanBudget ≤ heap.allowance := by
    unfold Heap.spanBudget
    split_ifs
    · exact le_rfl
    · exact min_le_right _ _
  unfold Heap.spanCount
  split_ifs
  · exact (min_le_left _ _).trans hbudget
  · split <;> exact (min_le_left _ _).trans hbudget

lemma authorize_counts (hstart : heap.authStart = heap.cursor) :
    Ends authorize heap
      (fun _ after => after.limit - after.cursor = heap.spanCount ∧
        after.authStart = after.cursor ∧ after.liveBase = heap.liveBase ∧
        after.dynamicBytes = heap.dynamicBytes ∧ heap.allowance ≠ 0 ∧
        (∀ extraRoots, after.roots extraRoots = heap.roots extraRoots) ∧
        after.maxSlots = heap.maxSlots ∧ after.maxBytes = heap.maxBytes)
      (fun _ => True) := by
  unfold authorize
  apply Ends.get
  split_ifs with hallow hregion
  · exact trivial
  · refine ⟨?_, hstart, rfl, rfl, hallow, fun _ => rfl, rfl, rfl⟩
    simp [Heap.spanCount, hregion]
  · split
    · rename_i hole holes hholes
      refine ⟨?_, rfl, rfl, rfl, hallow, fun _ => rfl, rfl, rfl⟩
      simp [Heap.spanCount, hregion, hholes]
    · rename_i hholes
      dsimp only
      split_ifs with hfull
      · exact trivial
      · refine ⟨?_, rfl, rfl, rfl, hallow, fun _ => rfl, rfl, rfl⟩
        simp [Heap.spanCount, hregion, hholes]

lemma authorize_held (h : heap.Held owned) (hstart : heap.authStart = heap.cursor) :
    Ends authorize heap
      (fun _ after => after.Held owned ∧ Keeps heap after ∧ after.cursor < after.limit ∧
        after.limit - after.cursor = heap.spanCount ∧ after.totalBytes = heap.totalBytes ∧
        after.Spare 0)
      (fun after => after = heap) := by
  refine ((authorize_spec h.sound.ready).and (authorize_counts hstart)).mono ?_ fun _ h => h.1
  rintro - after ⟨⟨hgrows, hready, hlt⟩, hcount, hauth, hbase, hdynamic, hallow, hroots, hmax,
    hbytes⟩
  obtain ⟨n, hslots⟩ := hgrows.slots
  have hlive : after.liveSlots = heap.liveSlots := by
    simp [Heap.liveSlots, hauth, hbase, hstart]
  have hbaseLive : heap.liveSlots = heap.liveBase := by simp [Heap.liveSlots, hstart]
  have htotal : after.totalBytes = heap.totalBytes := by
    rw [Heap.totalBytes, hlive, hdynamic]
    rfl
  have hle := @spanCount_le heap
  unfold Heap.allowance at hle hallow
  refine ⟨⟨hgrows.sound h.sound hready, hauth.le, ?_, ?_, ?_⟩,
    hgrows.keeps h.sound.valid hroots hmax hbytes, hlt, hcount, htotal, ?_⟩
  · rw [hslots, occupied_append_none, hlive]
    exact h.slots
  · rw [hslots, payloads_append_none, hlive, htotal]
    exact h.bytes
  · rw [hcount, hlive, hmax]
    omega
  · unfold Heap.Spare saturatingAdd
    rw [hcount, htotal, hbytes]
    generalize usizeMax = top
    unfold objectSize at *
    omega

lemma refillSpan_held (h : heap.Held owned) :
    Ends (refillSpan owned) heap
      (fun _ after => after.Held owned ∧ Keeps heap after ∧ after.cursor < after.limit ∧
        after.limit - after.cursor = (heap.settled owned).spanCount ∧
        after.totalBytes = (heap.settled owned).totalBytes ∧ after.Spare 0)
      (fun after => after.Held owned ∧ Keeps heap after ∧ after.totalBytes ≤ heap.totalBytes ∧
        after = heap.settled owned) := by
  obtain ⟨hheld, hkeeps, hstart, hle⟩ := settled_spec h
  refine Ends.congr (refillSpan_eq owned heap) ((authorize_held hheld hstart).mono ?_ ?_)
  · rintro - after ⟨hafter, hkeeps', hrest⟩
    exact ⟨hafter, hkeeps.trans hkeeps', hrest⟩
  · rintro after rfl
    exact ⟨hheld, hkeeps, hle, rfl⟩

end

end Neetan.Gc
