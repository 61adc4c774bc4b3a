import Neetan.HeapSpans

/-!
Allocations between two collections: each takes a free slot and spans behind those in use.
-/

namespace Neetan.Gc

open Neetan.Bytecode

/-! ### Growing a valid heap -/

section Grow
variable {heap heap' : Heap}

lemma Grows.slots (hg : Grows heap heap') :
    ∃ n, slotsOf heap'.cells = slotsOf heap.cells ++ List.replicate n none := by
  obtain ⟨n, hn⟩ := hg.cells
  exact ⟨n, by simp [slotsOf, hn]⟩

lemma Grows.mem_slots (hg : Grows heap heap') {object : Object} :
    some object ∈ slotsOf heap'.cells ↔ some object ∈ slotsOf heap.cells := by
  obtain ⟨n, hn⟩ := hg.slots
  simp [hn, List.mem_replicate]

lemma Grows.slot (hg : Grows heap heap') (k : ℕ) (object : Object) :
    (slotsOf heap'.cells)[k]? = some (some object) ↔
      (slotsOf heap.cells)[k]? = some (some object) := by
  obtain ⟨n, hn⟩ := hg.slots
  rw [hn]
  by_cases hk : k < (slotsOf heap.cells).length
  · rw [List.getElem?_append_left hk]
  · rw [List.getElem?_append_right (by omega), List.getElem?_replicate,
      List.getElem?_eq_none (by omega)]
    split_ifs <;> simp

lemma Grows.content (hg : Grows heap heap') {object : Object} {content : Content}
    (h : object.content heap.byteArena heap.valueArena = some content) :
    object.content heap'.byteArena heap'.valueArena = some content := by
  obtain ⟨bytes, hb⟩ := hg.bytes
  obtain ⟨values, hv⟩ := hg.values
  rw [hb, hv]
  exact Object.content_append h bytes values

lemma Separate.append_none {position : Object → Option (ℕ × ℕ)} {slots : List (Option Object)}
    (h : Separate position slots) (n : ℕ) : Separate position (slots ++ List.replicate n none) := by
  refine List.pairwise_append.mpr ⟨h, ?_, ?_⟩
  · exact List.pairwise_replicate.mpr (.inr fun p q hp => (by cases hp))
  · intro slot _ slot' hs p q _ hq
    rw [List.eq_of_mem_replicate hs] at hq
    cases hq

lemma Grows.valid (hg : Grows heap heap') (hv : heap.Valid) : heap'.Valid := by
  obtain ⟨n, hn⟩ := hg.slots
  refine ⟨?_, ?_, ?_, ?_, ?_⟩
  · obtain ⟨n, hn⟩ := hg.cells
    intro cell hcell
    rw [hn] at hcell
    rcases List.mem_append.mp hcell with hcell | hcell
    · exact hv.tagged cell hcell
    · rw [List.eq_of_mem_replicate hcell]
      exact iff_of_true rfl rfl
  · intro object hobject
    obtain ⟨content, hc⟩ := hv.inside object (hg.mem_slots.mp hobject)
    exact ⟨content, hg.content hc⟩
  · exact hn ▸ hv.bytesApart.append_none n
  · exact hn ▸ hv.valuesApart.append_none n
  · intro object hobject bytes chars hc
    obtain ⟨content, hcontent⟩ := hv.inside object (hg.mem_slots.mp hobject)
    obtain rfl := Option.some.inj ((hg.content hcontent).symm.trans hc)
    exact hv.text object (hg.mem_slots.mp hobject) bytes chars hcontent

lemma Grows.freshColor (hg : Grows heap heap') (hf : heap.FreshColor) : heap'.FreshColor := by
  obtain ⟨n, hn⟩ := hg.cells
  rintro k ⟨cell, hk, hstate⟩
  rw [hg.currentMark] at hstate
  rw [hn] at hk
  by_cases hlt : k < heap.cells.length
  · rw [List.getElem?_append_left hlt] at hk
    exact hf k ⟨cell, hk, hstate⟩
  · rw [List.getElem?_append_right (by omega)] at hk
    have hcell := List.eq_of_mem_replicate (List.mem_of_getElem? hk)
    rw [hcell] at hstate
    exact MarkColor.bits_ne_free _ hstate.symm

lemma Grows.contents (hg : Grows heap heap') (hv : heap.Valid) (k : ℕ) :
    heap'.contents k = heap.contents k := by
  obtain ⟨n, hn⟩ := hg.cells
  unfold Heap.contents
  rw [hn]
  by_cases hlt : k < heap.cells.length
  · rw [List.getElem?_append_left hlt, List.getElem?_eq_getElem hlt]
    simp only [Option.bind_eq_bind, Option.bind_some]
    cases hslot : heap.cells[k].slot with
    | none => rfl
    | some object =>
      obtain ⟨content, hc⟩ := hv.inside object (mem_slotsOf (List.getElem_mem hlt) hslot)
      simp only [Option.bind_some, hc, hg.content hc]
  · rw [List.getElem?_append_right (by omega), List.getElem?_eq_none (by omega : _ ≤ k),
      List.getElem?_replicate]
    split_ifs <;> rfl

end Grow

/-! ### A new object -/

/-- The object can be read, and its spans lie apart from those in use. -/
structure Heap.Fits (heap : Heap) (object : Object) : Prop where
  content : ∃ content, object.content heap.byteArena heap.valueArena = some content
  text : ∀ bytes chars,
    object.content heap.byteArena heap.valueArena = some (.string bytes chars) →
      ∃ text : String, text.toUTF8.toList = bytes
  bytesApart : ∀ other, some other ∈ slotsOf heap.cells → ∀ p q, object.byteSpan = some p →
    other.byteSpan = some q → Apart p q
  valuesApart : ∀ other, some other ∈ slotsOf heap.cells → ∀ p q, object.valueSpan = some p →
    other.valueSpan = some q → Apart p q

lemma Apart.symm {p q : ℕ × ℕ} (h : Apart p q) : Apart q p := Or.symm h

lemma Separate.set {position : Object → Option (ℕ × ℕ)} {slots : List (Option Object)}
    (h : Separate position slots) {i : ℕ} {object : Object}
    (ha : ∀ other, some other ∈ slots → ∀ p q, position object = some p →
      position other = some q → Apart p q) : Separate position (slots.set i (some object)) := by
  refine List.pairwise_iff_getElem.mpr fun j k hj hk hjk p q hp hq => ?_
  simp only [List.length_set] at hj hk
  rw [List.getElem_set] at hp hq
  have hother : ∀ {m : ℕ} (hm : m < slots.length) {r : ℕ × ℕ}, slots[m].bind position = some r →
      ∃ other, some other ∈ slots ∧ position other = some r := by
    intro m hm r hr
    obtain ⟨other, hslot, hpos⟩ := Option.bind_eq_some_iff.mp hr
    exact ⟨other, hslot ▸ List.getElem_mem hm, hpos⟩
  split_ifs at hp hq with hij hik
  · omega
  · obtain ⟨other, hmem, hpos⟩ := hother hk hq
    exact ha other hmem p q hp hpos
  · obtain ⟨other, hmem, hpos⟩ := hother hj hp
    exact (ha other hmem q p hq hpos).symm
  · exact List.pairwise_iff_getElem.mp h j k hj hk hjk p q hp hq

section Write
variable {heap : Heap} {object : Object}

lemma slotsOf_written :
    slotsOf (heap.written object).cells = (slotsOf heap.cells).set heap.cursor (some object) := by
  simp [slotsOf, Heap.written, List.map_set]

lemma mem_written {other : Object} (h : some other ∈ slotsOf (heap.written object).cells) :
    some other ∈ slotsOf heap.cells ∨ other = object := by
  rw [slotsOf_written] at h
  rcases List.mem_or_eq_of_mem_set h with h | h
  · exact .inl h
  · exact .inr (Option.some.inj h)

lemma Heap.Valid.written (hv : heap.Valid) (hf : heap.Fits object) :
    (heap.written object).Valid := by
  refine ⟨?_, ?_, ?_, ?_, ?_⟩
  · intro cell hcell
    rcases List.mem_or_eq_of_mem_set hcell with hcell | rfl
    · exact hv.tagged cell hcell
    · have hyoung : metaYoung &&& metaStateMask ≠ metaFree := by decide
      exact iff_of_false (by simp) hyoung
  · intro other hother
    rcases mem_written hother with hother | rfl
    · exact hv.inside other hother
    · exact hf.content
  · exact slotsOf_written ▸ hv.bytesApart.set hf.bytesApart
  · exact slotsOf_written ▸ hv.valuesApart.set hf.valuesApart
  · intro other hother
    rcases mem_written hother with hother | rfl
    · exact hv.text other hother
    · exact hf.text

lemma written_freshColor (hf : heap.FreshColor) : (heap.written object).FreshColor := by
  rintro k ⟨cell, hk, hstate⟩
  rcases List.mem_or_eq_of_mem_set (List.mem_of_getElem? hk) with hcell | rfl
  · obtain ⟨i, hi⟩ := List.mem_iff_getElem?.mp hcell
    exact hf i ⟨cell, hi, hstate⟩
  · have hyoung : ∀ color : MarkColor, metaYoung &&& metaStateMask ≠ color.bits := by
      intro color
      cases color <;> decide
    exact hyoung _ hstate

end Write

/-! ### Requests -/

/-- An allocation returned a slot that held no object and spans that lie apart from those of
every object, and left the objects there were. -/
inductive Allocated (before : Heap) (value : Value) (after : Heap) : Prop
  | mk {i : ℕ} {object : Object} : Refers (slotsOf after.cells) value i →
    (slotsOf after.cells)[i]? = some (some object) →
    (∀ other, (slotsOf before.cells)[i]? ≠ some (some other)) →
    (∀ other, some other ∈ slotsOf before.cells →
      (∀ p q, object.byteSpan = some p → other.byteSpan = some q → Apart p q) ∧
      ∀ p q, object.valueSpan = some p → other.valueSpan = some q → Apart p q) →
    (∀ k, k ≠ i → ∀ other, (slotsOf after.cells)[k]? = some (some other) ↔
      (slotsOf before.cells)[k]? = some (some other)) →
    (∀ k, k ≠ i → after.contents k = before.contents k) → Allocated before value after

/-- What holds between two collections. -/
structure Heap.Sound (heap : Heap) : Prop where
  valid : heap.Valid
  ready : heap.Ready
  fresh : heap.FreshColor

lemma Grows.sound {heap heap' : Heap} (hg : Grows heap heap') (hs : heap.Sound)
    (hr : heap'.Ready) : heap'.Sound :=
  ⟨hg.valid hs.valid, hr, hg.freshColor hs.fresh⟩

lemma written_contents {heap : Heap} {object : Object} {k : ℕ} (h : k ≠ heap.cursor) :
    (heap.written object).contents k = heap.contents k := by
  unfold Heap.contents Heap.written
  simp only [List.getElem?_set_ne (Ne.symm h)]

variable {mid : Heap}

lemma allocated_of_written {before after : Heap} {object : Object} (hs : before.Sound)
    (hg : Grows before mid) (hr : mid.Ready) (hlt : mid.cursor < mid.limit) (hf : mid.Fits object)
    (ha : Accounts (mid.written object) after) :
    Allocated before (.heap (UInt32.ofNat mid.cursor)) after ∧ after.Sound := by
  have hvac := hr.vacant hlt
  have hsound := hg.sound hs hr
  have hwritten : (mid.written object).Sound :=
    ⟨hsound.valid.written hf, hr.written hlt object, written_freshColor hsound.fresh⟩
  have hslots : slotsOf after.cells = (slotsOf mid.cells).set mid.cursor (some object) := by
    rw [ha.cells, slotsOf_written]
  have hin : mid.cursor < (slotsOf mid.cells).length := by simpa [slotsOf] using hvac.lt
  have hslot : (slotsOf after.cells)[mid.cursor]? = some (some object) := by
    rw [hslots, List.getElem?_set_self hin]
  have hindex : (UInt32.ofNat mid.cursor).toNat = mid.cursor := by
    have := hvac.lt
    have := hr.addressable.cells
    simp only [UInt32.toNat_ofNat']
    omega
  refine ⟨.mk ⟨_, object, rfl, hindex, hslot⟩ hslot ?_ ?_ ?_ ?_,
    ha.grows.sound hwritten (ha.ready hwritten.ready)⟩
  · intro other hother
    obtain ⟨cell, hcell, hnone⟩ := hvac
    have hmid := (hg.slot mid.cursor other).mpr hother
    simp [slotsOf_getElem?, hcell, hnone] at hmid
  · intro other hother
    exact ⟨hf.bytesApart other (hg.mem_slots.mpr hother),
      hf.valuesApart other (hg.mem_slots.mpr hother)⟩
  · intro k hk other
    rw [hslots, List.getElem?_set_ne (Ne.symm hk)]
    exact hg.slot k other
  · intro k hk
    rw [ha.grows.contents hwritten.valid, written_contents hk, hg.contents hs.valid]

/-- A request for an object. -/
inductive Request
  | object (object : Object)
  | bytevector (bytes : List UInt8)
  | string (text : String)
  | vector (values : List Value)

namespace Request

/-- The plain allocation path takes objects without a span. -/
def Plain : Request → Prop
  | .object plain => plain.byteSpan = none ∧ plain.valueSpan = none
  | _ => True

section
variable (owned : Object → ℕ)

/-- The out-of-line bytes of a request. -/
def payload : Request → ℕ
  | .object plain => plain.bytes owned - objectSize
  | .bytevector bytes => bytes.length
  | .string text => text.toUTF8.toList.length
  | .vector values => saturatingMul values.length valueSize

def perform : Request → HeapM Value
  | .object plain => alloc owned plain
  | .bytevector bytes => allocBytevector owned bytes
  | .string text => allocString owned text
  | .vector values => allocVector owned values

end

end Request

/-! ### Each request -/

section Perform
variable (owned : Object → ℕ) {before : Heap}

/-- What a request guarantees. -/
def Serves (before : Heap) (run : HeapM Value) : Prop :=
  Ends run before (fun value after => Allocated before value after ∧ after.Sound)
    (fun after => Grows before after ∧ after.Ready)

lemma accounts_charge (heap : Heap) (bytes : ℕ) :
    Accounts heap { heap with dynamicBytes := saturatingAdd heap.dynamicBytes bytes } :=
  ⟨rfl, rfl, rfl, rfl, rfl, rfl, le_rfl, rfl, rfl⟩

lemma writeAuthorizedSlot_spec (hr : mid.Ready) (hlt : mid.cursor < mid.limit) (object : Object)
    (fail : Heap → Prop) :
    Ends (writeAuthorizedSlot object) mid
      (fun value after => value = .heap (UInt32.ofNat mid.cursor) ∧ after = mid.written object)
      fail := by
  unfold Ends
  rw [writeAuthorizedSlot_eq hr hlt]
  exact ⟨rfl, rfl⟩

lemma write_serves {object : Object} {bytes : ℕ} (hs : before.Sound) (hg : Grows before mid)
    (hr : mid.Ready) (hlt : mid.cursor < mid.limit) (hf : mid.Fits object) :
    Ends (writeAuthorizedSlot object >>= fun value => charge bytes >>= fun _ => pure value) mid
      (fun value after => Allocated before value after ∧ after.Sound)
      (fun after => Grows before after ∧ after.Ready) := by
  refine (writeAuthorizedSlot_spec hr hlt object _).bind fun value after ⟨hvalue, hafter⟩ => ?_
  subst hvalue hafter
  exact allocated_of_written hs hg hr hlt hf (accounts_charge _ bytes)

lemma grows_byteArena (heap : Heap) (bytes : List UInt8) :
    Grows heap { heap with byteArena := heap.byteArena ++ bytes } :=
  ⟨⟨0, by simp⟩, ⟨bytes, rfl⟩, ⟨[], by simp⟩, rfl, rfl⟩

lemma grows_valueArena (heap : Heap) (values : List Value) :
    Grows heap { heap with valueArena := heap.valueArena ++ values } :=
  ⟨⟨0, by simp⟩, ⟨[], by simp⟩, ⟨values, rfl⟩, rfl, rfl⟩

lemma fits_bytes {heap : Heap} (hv : heap.Valid) {bytes : List UInt8} {object : Object}
    (hspan : object.byteSpan = some (heap.byteArena.length, bytes.length))
    (hvalue : object.valueSpan = none)
    (hc : ∃ content, object.content (heap.byteArena ++ bytes) heap.valueArena = some content)
    (ht : ∀ text chars, object.content (heap.byteArena ++ bytes) heap.valueArena =
      some (.string text chars) → ∃ string : String, string.toUTF8.toList = text) :
    ({ heap with byteArena := heap.byteArena ++ bytes } : Heap).Fits object := by
  refine ⟨hc, ht, ?_, ?_⟩
  · intro other hother p q hp hq
    obtain ⟨content, hcontent⟩ := hv.inside other hother
    obtain rfl := Option.some.inj (hspan.symm.trans hp)
    exact .inr ((Object.span_inside hcontent).1 hq)
  · intro other _ p q hp
    rw [hvalue] at hp
    cases hp

lemma byteArenaAppend_spec (hr : mid.Ready) (bytes : List UInt8) :
    Ends (byteArenaAppend bytes) mid
      (fun off after => off = mid.byteArena.length ∧
        after = { mid with byteArena := mid.byteArena ++ bytes } ∧ after.Ready)
      (fun after => after = mid) := by
  unfold byteArenaAppend arenaOffset
  apply Ends.get
  split_ifs with hfull
  · exact rfl
  · refine ⟨rfl, rfl, ⟨hr.spans.1, hr.spans.2, hr.spans.3, hr.spans.4, hr.spans.5⟩,
      ⟨?_, hr.addressable.values, hr.addressable.cells⟩⟩
    simp only [List.length_append]
    unfold u32Max at hfull
    omega

lemma valueArenaAppend_spec (hr : mid.Ready) (values : List Value) :
    Ends (valueArenaAppend values) mid
      (fun off after => off = mid.valueArena.length ∧
        after = { mid with valueArena := mid.valueArena ++ values } ∧ after.Ready)
      (fun after => after = mid) := by
  unfold valueArenaAppend arenaOffset
  apply Ends.get
  split_ifs with hfull
  · exact rfl
  · refine ⟨rfl, rfl, ⟨hr.spans.1, hr.spans.2, hr.spans.3, hr.spans.4, hr.spans.5⟩,
      ⟨hr.addressable.bytes, ?_, hr.addressable.cells⟩⟩
    simp only [List.length_append]
    unfold u32Max at hfull
    omega

lemma allocBytevector_serves (hs : before.Sound) (bytes : List UInt8)
    (hq : Quiet owned before bytes.length) : Serves before (allocBytevector owned bytes) := by
  refine ((ensureSlotAndBytes_spec owned hs.ready hq).mono (fun _ _ h => h)
    fun after h => ⟨h.grows, h.ready hs.ready⟩).bind fun _ mid ⟨hg, hr, hlt⟩ => ?_
  refine ((byteArenaAppend_spec hr bytes).mono (fun _ _ h => h)
    fun after h => h ▸ ⟨hg, hr⟩).bind fun off after ⟨hoff, hafter, hready⟩ => ?_
  subst hoff hafter
  refine write_serves hs (hg.trans (grows_byteArena mid bytes)) hready hlt
    (fits_bytes (hg.valid hs.valid) rfl rfl ⟨.bytevector bytes, ?_⟩ ?_)
  · simp [Object.content, span_append_self _ rfl]
  · simp [Object.content]

lemma allocString_serves (hs : before.Sound) (text : String)
    (hq : Quiet owned before text.toUTF8.toList.length) :
    Serves before (allocString owned text) := by
  refine ((ensureSlotAndBytes_spec owned hs.ready hq).mono (fun _ _ h => h)
    fun after h => ⟨h.grows, h.ready hs.ready⟩).bind fun _ mid ⟨hg, hr, hlt⟩ => ?_
  refine ((byteArenaAppend_spec hr text.toUTF8.toList).mono (fun _ _ h => h)
    fun after h => h ▸ ⟨hg, hr⟩).bind fun off after ⟨hoff, hafter, hready⟩ => ?_
  subst hoff hafter
  have hspan : span (mid.byteArena ++ text.toUTF8.toList) mid.byteArena.length
      text.toUTF8.toList.length = some text.toUTF8.toList := span_append_self _ rfl
  refine write_serves hs (hg.trans (grows_byteArena mid _)) hready hlt
    (fits_bytes (hg.valid hs.valid) rfl rfl ⟨.string text.toUTF8.toList text.length, ?_⟩ ?_)
  · simp only [Object.content, hspan, Option.map_some]
  · intro bytes chars hc
    simp only [Object.content, hspan, Option.map_some, Option.some.injEq,
      Content.string.injEq] at hc
    exact ⟨text, hc.1⟩

lemma allocVector_serves (hs : before.Sound) (values : List Value)
    (hq : Quiet owned before (saturatingMul values.length valueSize)) :
    Serves before (allocVector owned values) := by
  refine ((ensureSlotAndBytes_spec owned hs.ready hq).mono (fun _ _ h => h)
    fun after h => ⟨h.grows, h.ready hs.ready⟩).bind fun _ mid ⟨hg, hr, hlt⟩ => ?_
  refine ((valueArenaAppend_spec hr values).mono (fun _ _ h => h)
    fun after h => h ▸ ⟨hg, hr⟩).bind fun off after ⟨hoff, hafter, hready⟩ => ?_
  subst hoff hafter
  refine write_serves hs (hg.trans (grows_valueArena mid values)) hready hlt ⟨?_, ?_, ?_, ?_⟩
  · exact ⟨.vector values, by simp [Object.content, span_append_self _ rfl]⟩
  · simp [Object.content]
  · intro other _ p q hp
    cases hp
  · intro other hother p q hp hq
    obtain ⟨content, hcontent⟩ := (hg.valid hs.valid).inside other hother
    cases hp
    exact .inr ((Object.span_inside hcontent).2 hq)

lemma content_plain {object : Object} (hb : object.byteSpan = none) (hv : object.valueSpan = none)
    (bytes : List UInt8) (values : List Value) :
    object.content bytes values = some (.plain object) := by
  cases object
  case vector => exact absurd hv (by simp [Object.valueSpan])
  case bytevector | string => exact absurd hb (by simp [Object.byteSpan])
  all_goals rfl

lemma fits_plain {heap : Heap} {object : Object} (hb : object.byteSpan = none)
    (hv : object.valueSpan = none) : heap.Fits object := by
  refine ⟨⟨_, content_plain hb hv _ _⟩, ?_, ?_, ?_⟩
  · rw [content_plain hb hv]
    intro bytes chars hc
    cases hc
  · rw [hb]
    intro other _ p q hp
    cases hp
  · rw [hv]
    intro other _ p q hp
    cases hp

lemma allocInner_spec (hg : Grows before mid) (hr : mid.Ready)
    (hq : mid.cursor < mid.limit ∨ mid.vmActive = true ∨ ¬ mid.retire.softReached)
    (object : Object) :
    Ends (allocInner owned object) mid
      (fun value after => ∃ last : Heap, Grows before last ∧ last.Ready ∧
        last.cursor < last.limit ∧ value = .heap (UInt32.ofNat last.cursor) ∧
        after = last.written object)
      (fun after => Grows before after ∧ after.Ready) := by
  unfold allocInner
  apply Ends.get
  split_ifs with hlt
  · exact (writeAuthorizedSlot_spec hr hlt.1 object _).mono
      (fun value after h => ⟨mid, hg, hr, hlt.1, h⟩) fun _ h => h
  · have hfull : ¬ mid.cursor < mid.limit := fun h => hlt ⟨h, (hr.vacant h).lt⟩
    refine ((refillSpan_spec owned hr (hq.resolve_left hfull)).mono (fun _ _ h => h)
      fun after h => ⟨hg.trans h.grows, h.ready hr⟩).bind fun _ last ⟨hg', hr', hlt'⟩ => ?_
    exact (writeAuthorizedSlot_spec hr' hlt' object _).mono
      (fun value after h => ⟨last, hg.trans hg', hr', hlt', h⟩) fun _ h => h

lemma alloc_bind (object : Object) : alloc owned object =
    (if object.bytes owned - objectSize ≠ 0 then
      preAccountDynamic owned (object.bytes owned - objectSize) else pure ()) >>= fun _ =>
    allocInner owned object >>= fun value =>
    charge (object.bytes owned - objectSize) >>= fun _ => pure value := by
  unfold alloc
  simp only
  split_ifs <;> rfl

lemma alloc_serves (hs : before.Sound) {object : Object} (hb : object.byteSpan = none)
    (hv : object.valueSpan = none) (hq : Quiet owned before (object.bytes owned - objectSize)) :
    Serves before (alloc owned object) := by
  unfold Serves
  rw [alloc_bind]
  refine ((account_spec owned hq).mono (fun _ _ h => h)
    fun after h => ⟨h.grows, h.ready hs.ready⟩).bind fun _ mid ⟨hm, hquiet⟩ => ?_
  refine (allocInner_spec owned hm.grows (hm.ready hs.ready) hquiet object).bind
    fun value after ⟨last, hg, hr, hlt, hvalue, hafter⟩ => ?_
  subst hvalue hafter
  exact allocated_of_written hs hg hr hlt (fits_plain hb hv) (accounts_charge _ _)

lemma perform_serves (hs : before.Sound) {request : Request} (hp : request.Plain)
    (hq : Quiet owned before (request.payload owned)) :
    Serves before (request.perform owned) := by
  cases request with
  | object plain => exact alloc_serves owned hs hp.1 hp.2 hq
  | bytevector bytes => exact allocBytevector_serves owned hs bytes hq
  | string text => exact allocString_serves owned hs text hq
  | vector values => exact allocVector_serves owned hs values hq

end Perform

/-! ### Runs between two collections -/

/-- Mutation of objects: no slot is taken or freed, the free spans stay, and the heap stays
valid. -/
structure Mutates (before after : Heap) : Prop where
  cells : after.cells.length = before.cells.length
  vacant : ∀ k, Vacant before.cells k → Vacant after.cells k
  taken : ∀ k, Vacant after.cells k → Vacant before.cells k
  cursor : after.cursor = before.cursor
  limit : after.limit ≤ before.limit
  regionEnd : after.regionEnd = before.regionEnd
  holes : after.holes = before.holes
  valid : before.Valid → after.Valid
  bytes : before.byteArena.length < 2 ^ 32 → after.byteArena.length < 2 ^ 32
  values : before.valueArena.length < 2 ^ 32 → after.valueArena.length < 2 ^ 32
  fresh : before.FreshColor → after.FreshColor

lemma Mutates.sound {before after : Heap} (hm : Mutates before after) (hs : before.Sound) :
    after.Sound := by
  obtain ⟨hv, ⟨⟨hl, hreg, hhole, hap, hha⟩, ⟨hb, hva, hc⟩⟩, hf⟩ := hs
  refine ⟨hm.valid hv, ⟨⟨?_, ?_, ?_, ?_, ?_⟩, ⟨hm.bytes hb, hm.values hva, hm.cells ▸ hc⟩⟩,
    hm.fresh hf⟩
  · rw [hm.regionEnd]
    exact hm.limit.trans hl
  · rw [hm.cursor, hm.regionEnd]
    exact fun k hk hk' => hm.vacant k (hreg k hk hk')
  · rw [hm.holes]
    exact fun hole hmem => ⟨(hhole hole hmem).1,
      fun k hk hk' => hm.vacant k ((hhole hole hmem).2 k hk hk')⟩
  · rwa [hm.holes, hm.cursor, hm.regionEnd]
  · rwa [hm.holes]

/-- An allocation: the heap before it, its result and the heap after it. -/
structure Entry where
  before : Heap
  value : Value
  after : Heap

/-- Allocations, refused allocations and mutations with no collection on the way. -/
inductive Run (owned : Object → ℕ) (start : Heap) : List Entry → Heap → Prop
  | nil : Run owned start [] start
  | allocate {log : List Entry} {heap after : Heap} {request : Request} {value : Value} :
    Run owned start log heap → request.Plain → Quiet owned heap (request.payload owned) →
    request.perform owned heap = .ok (value, after) →
    Run owned start (log ++ [⟨heap, value, after⟩]) after
  | refuse {log : List Entry} {heap after : Heap} {request : Request} {error : Error} :
    Run owned start log heap → request.Plain → Quiet owned heap (request.payload owned) →
    request.perform owned heap = .error (error, after) → Run owned start log after
  | mutate {log : List Entry} {heap after : Heap} : Run owned start log heap →
    Mutates heap after → Run owned start log after

lemma Run.sound {owned : Object → ℕ} {start final : Heap} {log : List Entry}
    (hrun : Run owned start log final) (hs : start.Sound) :
    final.Sound ∧ ∀ entry ∈ log, Allocated entry.before entry.value entry.after := by
  induction hrun with
  | nil => exact ⟨hs, by simp⟩
  | allocate _ hp hq hperform ih =>
    have hserves := perform_serves owned ih.1 hp hq
    unfold Serves Ends at hserves
    rw [hperform] at hserves
    refine ⟨hserves.2, fun entry hentry => ?_⟩
    rcases List.mem_append.mp hentry with hentry | hentry
    · exact ih.2 entry hentry
    · obtain rfl := List.mem_singleton.mp hentry
      exact hserves.1
  | refuse _ hp hq hperform ih =>
    have hserves := perform_serves owned ih.1 hp hq
    unfold Serves Ends at hserves
    rw [hperform] at hserves
    exact ⟨hserves.1.sound ih.1 hserves.2, ih.2⟩
  | mutate _ hm ih => exact ⟨hm.sound ih.1, ih.2⟩

/-! ### What a collection does -/

section Collect
variable (owned : Object → ℕ) (heap : Heap) (extraRoots : List Value)

/-- A collection keeps what is reachable, with its contents, leaves a valid heap whose holes
are the maximal runs of free slots, and nothing allocated before the next collection takes a
slot or a span in use. -/
structure Collects : Prop where
  kept : ∀ i, (∃ object, (slotsOf (heap.collectWith owned extraRoots).cells)[i]? =
    some (some object)) ↔ heap.Live extraRoots i
  contents : ∀ i, heap.Live extraRoots i →
    (heap.collectWith owned extraRoots).contents i = heap.contents i
  valid : (heap.collectWith owned extraRoots).Valid
  holes : MaximalRuns (heap.collectWith owned extraRoots).cells
    (heap.collectWith owned extraRoots).holes
  fresh : ∀ log final, Run owned (heap.collectWith owned extraRoots) log final →
    ∀ entry ∈ log, Allocated entry.before entry.value entry.after

lemma collected_ready (h : heap.Valid) (hs : heap.Addressable) :
    (heap.collectWith owned extraRoots).Ready := by
  have hholes := collected_holes owned heap extraRoots h hs
  refine ⟨⟨le_rfl, fun k _ hk => absurd hk (Nat.not_lt_zero k), ?_,
    fun _ _ k _ hk => absurd hk (Nat.not_lt_zero k), ?_⟩,
    collected_addressable owned heap extraRoots h hs⟩
  · exact fun hole hmem => ⟨(hholes.run hole hmem).1, (hholes.run hole hmem).2.1⟩
  · exact hholes.ordered.imp fun hlt k _ hk hin => absurd hin.1 (by omega)

/-- **A collection of a valid heap**: what is reachable stays as it was, the rest is freed,
and the heap is ready for allocations that touch nothing in use. -/
theorem collects (h : heap.Valid) (hf : heap.FreshColor) (hs : heap.Addressable) :
    Collects owned heap extraRoots ∧ (heap.collectWith owned extraRoots).FreshColor ∧
      (heap.collectWith owned extraRoots).Addressable := by
  have hvalid := collected_valid owned heap extraRoots h hs
  have hready := collected_ready owned heap extraRoots h hs
  have hfresh := collected_freshColor owned heap extraRoots h hs
  exact ⟨⟨collected_kept owned heap extraRoots h hf hs,
    fun i hi => collected_contents owned heap extraRoots h hf hs hi, hvalid,
    collected_holes owned heap extraRoots h hs,
    fun log final hrun => (hrun.sound ⟨hvalid, hready, hfresh⟩).2⟩, hfresh, hready.addressable⟩

end Collect

/-- Two pairs, the first a root that refers to the second. -/
def twoPairs (byte : UInt8) : Heap :=
  { cells := [⟨some (.pair (.heap 1) .nil), byte⟩, ⟨some (.pair .nil .nil), metaYoung⟩]
    valueArena := [], byteArena := [], holes := [], cursor := 2, limit := 2, regionEnd := 2
    authStart := 0, currentMark := .a, liveBase := 0, dynamicBytes := 0, slotThreshold := 8
    byteThreshold := 1024, minimumSlotHeadroom := 1, minimumByteHeadroom := 1, maxSlots := 8
    maxBytes := 1024, temporaryRoots := [], hostRoots := [.heap 0], engineRoots := []
    rootedRegionDepth := 0, pendingCollection := false, vmActive := false }

lemma twoPairs_valid {byte : UInt8} (h : byte &&& metaStateMask ≠ metaFree) :
    (twoPairs byte).Valid := by
  have hplain : ∀ object, some object ∈ slotsOf (twoPairs byte).cells →
      object.byteSpan = none ∧ object.valueSpan = none := by
    intro object hobject
    have hcases : object = .pair (.heap 1) .nil ∨ object = .pair .nil .nil := by
      simpa [twoPairs, slotsOf] using hobject
    rcases hcases with rfl | rfl <;> exact ⟨rfl, rfl⟩
  refine ⟨?_, ?_, ?_, ?_, ?_⟩
  · intro cell hcell
    have hcases : cell = ⟨some (.pair (.heap 1) .nil), byte⟩ ∨
        cell = ⟨some (.pair .nil .nil), metaYoung⟩ := by
      simpa [twoPairs] using hcell
    have hyoung : metaYoung &&& metaStateMask ≠ metaFree := by decide
    rcases hcases with rfl | rfl
    · exact iff_of_false (by simp) h
    · exact iff_of_false (by simp) hyoung
  · intro object hobject
    exact ⟨_, content_plain (hplain object hobject).1 (hplain object hobject).2 _ _⟩
  · simp [Separate, twoPairs, slotsOf, Object.byteSpan]
  · simp [Separate, twoPairs, slotsOf, Object.valueSpan]
  · intro object hobject bytes chars hc
    rw [content_plain (hplain object hobject).1 (hplain object hobject).2] at hc
    cases hc

lemma twoPairs_addressable (byte : UInt8) : (twoPairs byte).Addressable := by
  constructor <;> simp [twoPairs]

theorem collects_twoPairs : Collects (fun _ => 0) (twoPairs 1) [] ∧
    ((twoPairs 1).collectWith (fun _ => 0) []).FreshColor ∧
    ((twoPairs 1).collectWith (fun _ => 0) []).Addressable := by
  refine collects _ _ _ (twoPairs_valid (by decide)) ?_ (twoPairs_addressable 1)
  rintro k ⟨cell, hk, hstate⟩
  have hcases : cell.byte = 1 := by
    have hmem := List.mem_of_getElem? hk
    simp only [twoPairs, List.mem_cons, List.not_mem_nil, or_false] at hmem
    rcases hmem with rfl | rfl <;> rfl
  rw [Cell.state, hcases] at hstate
  revert hstate
  decide

/-- A slot that already carries the color of the next collection is taken for marked, and
what it refers to is lost. -/
theorem collects_not_stale : ¬ ∀ (owned : Object → ℕ) (heap : Heap) (extraRoots : List Value),
    heap.Valid → heap.Addressable → Collects owned heap extraRoots := by
  intro h
  have hc := h (fun _ => 0) (twoPairs 3) [] (twoPairs_valid (by decide)) (twoPairs_addressable 3)
  have hroot : (twoPairs 3).Live [] 0 :=
    .root (List.mem_singleton_self (Value.heap 0)) ⟨0, _, rfl, rfl, rfl⟩
  have hlive : (twoPairs 3).Live [] 1 :=
    .edge hroot rfl List.mem_cons_self ⟨1, _, rfl, rfl, rfl⟩
  obtain ⟨object, hobject⟩ := (hc.kept 1).mpr hlive
  have hstate : (3 : UInt8) &&& metaStateMask = MarkColor.b.bits := by decide
  have hmarked : (twoPairs 3).marked [] = (twoPairs 3).cells := by
    have hskip : ¬ Cell.Unmarked .b ⟨some (.pair (.heap 1) .nil), 3⟩ := fun hu => hu.1 hstate
    simp only [Heap.marked, Heap.roots, twoPairs, List.nil_append, List.append_nil,
      List.reverse_singleton, MarkColor.rotate]
    rw [markFrom]
    simp only [Value.heapRef]
    split
    · rw [markFrom]
    · rename_i cell hcell
      obtain rfl := Option.some.inj hcell
      rw [dif_neg hskip, markFrom]
  rw [collectWith_cells, Heap.swept, hmarked] at hobject
  have hyoung : metaYoung &&& metaStateMask ≠ MarkColor.b.bits := by decide
  have hfree : metaYoung &&& metaStateMask ≠ metaFree := by decide
  simp [twoPairs, sweepSlots, sweepSlot, Cell.state, MarkColor.rotate, hstate, hyoung, hfree,
    keepCell, sweepSurvivor, slotsOf] at hobject

end Neetan.Gc
