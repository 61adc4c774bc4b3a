import Neetan.StringHeap

/-!
The strings of a heap as texts: what an access finds, whatever is cached, and what a mutation
of a character leaves: it replaces one character of one string, or it leaves everything as it is.

Every string is counted, so its handle says how many characters its span encodes. The replaced
character is anchored where it was found. Its offset is the same in the new text, whose characters
before it are those of the old one.
-/

namespace Neetan.Gc

open Neetan.Bytecode Neetan.StringCursor

/-! ### The invariant -/

/-- The span of every string encodes as many characters as its handle says. -/
def Heap.Counted (heap : Heap) : Prop := ∀ i bytes chars immutable,
  heap.contents i = some (.string bytes chars, immutable) →
    ∃ text, bytes = Utf8.encode text ∧ chars = text.length

/-- The characters in the slots of a heap. -/
def Heap.chars (heap : Heap) : ℕ → Option (List Char) := fun i => (heap.texts i).map Text.chars

/-- The heap is sound, its strings are counted, and what is cached are boundaries of them. -/
structure StringHeap.Sound (owned : Object → ℕ) (state : StringHeap) : Prop where
  held : state.heap.Held owned
  counted : state.heap.Counted
  cursors : state.cursors.Sound state.heap.chars

section
variable {heap heap' : Heap} {i : ℕ}

lemma texts_of_string {text : List Char} {chars : ℕ} {immutable : Bool}
    (h : heap.contents i = some (.string (Utf8.encode text) chars, immutable)) :
    heap.texts i = some ⟨text, immutable⟩ := by
  simp only [Heap.texts, h, Utf8.fromUTF8_encode, Option.map_some, String.toList_ofList]

lemma texts_congr (h : heap'.contents i = heap.contents i) : heap'.texts i = heap.texts i := by
  unfold Heap.texts
  rw [h]

lemma texts_of_none (h : heap.contents i = none) : heap.texts i = none := by
  unfold Heap.texts
  rw [h]

lemma texts_eq_some (hc : heap.Counted) {text : List Char} {immutable : Bool} :
    heap.texts i = some ⟨text, immutable⟩ ↔
      heap.contents i = some (.string (Utf8.encode text) text.length, immutable) := by
  refine ⟨fun h => ?_, texts_of_string⟩
  unfold Heap.texts at h
  split at h
  · rename_i bytes chars immutable' hcontents
    obtain ⟨text', rfl, rfl⟩ := hc i bytes chars immutable' hcontents
    rw [Utf8.fromUTF8_encode, Option.map_some, String.toList_ofList] at h
    cases h
    exact hcontents
  · cases h

lemma chars_eq_some {text : List Char} :
    heap.chars i = some text ↔ ∃ immutable, heap.texts i = some ⟨text, immutable⟩ := by
  unfold Heap.chars
  constructor
  · intro h
    obtain ⟨found, hfound, rfl⟩ := Option.map_eq_some_iff.mp h
    exact ⟨found.immutable, hfound⟩
  · rintro ⟨immutable, h⟩
    rw [h]
    rfl

/-! ### What a slot holds -/

/-- A string in a slot: its span, and the text it encodes. -/
structure Heap.HasString (heap : Heap) (i off byteLen chars : ℕ) (text : List Char)
    (immutable : Bool) : Prop where
  span : span heap.byteArena off byteLen = some (Utf8.encode text)
  chars : chars = text.length
  texts : heap.texts i = some ⟨text, immutable⟩

lemma HasString.byteLen {off byteLen chars : ℕ} {text : List Char} {immutable : Bool}
    (h : heap.HasString i off byteLen chars text immutable) :
    byteLen = (Utf8.encode text).length :=
  (span_eq_some h.span).2.symm

lemma hasString_of_cell (hv : heap.Valid) (hc : heap.Counted) {cell : Cell}
    (hcell : heap.cells[i]? = some cell) {off byteLen chars : ℕ}
    (hslot : cell.slot = some (.string off byteLen chars)) :
    ∃ text, heap.HasString i off byteLen chars text (cell.byte &&& metaImmutable ≠ 0) := by
  obtain ⟨content, hcontent⟩ := hv.inside _ (mem_slotsOf (List.mem_of_getElem? hcell) hslot)
  obtain ⟨bytes, hspan, rfl⟩ := Option.map_eq_some_iff.mp hcontent
  have hcontents : heap.contents i =
      some (Content.string bytes chars, decide (cell.byte &&& metaImmutable ≠ 0)) := by
    simp [Heap.contents, hcell, hslot, hcontent]
  obtain ⟨text, rfl, rfl⟩ := hc i bytes chars _ hcontents
  exact ⟨text, hspan, rfl, texts_of_string hcontents⟩

lemma texts_of_other {cell : Cell} (hcell : heap.cells[i]? = some cell)
    (hslot : ∀ off byteLen chars, cell.slot ≠ some (.string off byteLen chars)) :
    heap.texts i = none := by
  cases hobject : cell.slot with
  | none => exact texts_of_none (by simp [Heap.contents, hcell, hobject])
  | some object =>
    unfold Heap.texts
    split
    · rename_i bytes chars immutable hcontents
      simp only [Heap.contents, hcell, hobject, Option.bind_eq_bind, Option.bind_some,
        Option.bind_eq_some_iff, Option.pure_def, Option.some.injEq, Prod.mk.injEq] at hcontents
      obtain ⟨content, hcontent, rfl, -⟩ := hcontents
      cases object
      case string off byteLen chars => exact absurd hobject (hslot off byteLen chars)
      case vector | bytevector =>
        obtain ⟨elements, -, hstring⟩ := Option.map_eq_some_iff.mp hcontent
        cases hstring
      all_goals cases hcontent
    · rfl

lemma slotAt_cases (hv : heap.Valid) (hc : heap.Counted) (reference : UInt32) :
    (∃ off byteLen chars text immutable,
      heap.slotAt reference = some (.string off byteLen chars) ∧
      heap.HasString reference.toNat off byteLen chars text immutable) ∨
    (∀ off byteLen chars, heap.slotAt reference ≠ some (.string off byteLen chars)) ∧
      heap.texts reference.toNat = none := by
  unfold Heap.slotAt
  cases hcell : heap.cells[reference.toNat]? with
  | none =>
    exact .inr ⟨fun _ _ _ => by simp, texts_of_none (by simp [Heap.contents, hcell])⟩
  | some cell =>
    by_cases hstring : ∃ off byteLen chars, cell.slot = some (.string off byteLen chars)
    · obtain ⟨off, byteLen, chars, hslot⟩ := hstring
      obtain ⟨text, htext⟩ := hasString_of_cell hv hc hcell hslot
      exact .inl ⟨off, byteLen, chars, text, _, by simpa using hslot, htext⟩
    · have hother : ∀ off byteLen chars, cell.slot ≠ some (.string off byteLen chars) :=
        fun off byteLen chars h => hstring ⟨off, byteLen, chars, h⟩
      exact .inr ⟨fun off byteLen chars => by simpa using hother off byteLen chars,
        texts_of_other hcell hother⟩

end

/-! ### Accesses -/

section
variable {owned : Object → ℕ} {state : StringHeap}

lemma HasString.hint (h : state.Sound owned) {i off byteLen chars : ℕ} {text : List Char}
    {immutable : Bool} (hstring : state.heap.HasString i off byteLen chars text immutable) :
    ∀ position, state.cursors.lookup i = some position → Anchors text position :=
  lookup_anchors h.cursors (chars_eq_some.mpr ⟨immutable, hstring.texts⟩)

lemma HasString.fits (h : state.Sound owned) {i off byteLen chars index : ℕ} {text : List Char}
    {immutable : Bool} (hstring : state.heap.HasString i off byteLen chars text immutable)
    (hindex : index ≤ text.length) : index ≤ u32Max ∧ offset text index ≤ u32Max := by
  have hin := (span_eq_some hstring.span).1
  have harena := h.held.sound.ready.addressable.bytes
  have hbytes := HasString.byteLen hstring
  have hoffset := offset_le text index
  have hlength := length_le_encode text
  unfold u32Max
  omega

lemma StringHeap.Sound.store (h : state.Sound owned) {i off byteLen chars index : ℕ}
    {text : List Char} {immutable : Bool}
    (hstring : state.heap.HasString i off byteLen chars text immutable)
    (hindex : index ≤ text.length) :
    StringHeap.Sound owned
      { state with cursors := state.cursors.store i (index, offset text index) } :=
  ⟨h.held, h.counted, store_sound h.cursors (fun _ _ => rfl)
    (chars_eq_some.mpr ⟨immutable, hstring.texts⟩) ⟨hindex, rfl⟩ (HasString.fits h hstring hindex)⟩

lemma read_eq {heap : Heap} {value : Value} {reference : UInt32}
    (hvalue : value.heapRef = some reference) :
    heap.texts.read value = heap.texts reference.toNat := by
  unfold Texts.read
  rw [hvalue, Option.bind_some]

lemma span_getElem? {arena bytes : List UInt8} {off len k : ℕ} (h : span arena off len = some bytes)
    (hk : k < len) : arena[off + k]? = bytes[k]? := by
  unfold span at h
  split_ifs at h
  rw [← Option.some.inj h, List.getElem?_take_of_lt hk, List.getElem?_drop]

/-- **An access to a character**: it finds the character of the list, whatever is cached. -/
lemma stringRef_spec (h : state.Sound owned) (value : Value) (index : ℕ) :
    (state.stringRef value index).1 =
        (state.heap.texts.read value).bind (fun text => text.chars[index]?) ∧
      (state.stringRef value index).2.heap = state.heap ∧
      (state.stringRef value index).2.Sound owned := by
  unfold StringHeap.stringRef
  cases hvalue : value.heapRef with
  | none => exact ⟨by simp [Texts.read, hvalue], rfl, h⟩
  | some reference =>
    rw [read_eq hvalue]
    rcases slotAt_cases h.held.sound.valid h.counted reference with
      ⟨off, byteLen, chars, text, immutable, hslot, hstring⟩ | ⟨hother, hnone⟩
    · have hspan := hstring.span
      have hbytes := HasString.byteLen hstring
      obtain rfl := hstring.chars
      rw [hstring.texts, Option.bind_some]
      simp only [hslot]
      split_ifs with hascii hout
      · exact ⟨(List.getElem?_eq_none hout).symm, rfl, h⟩
      · -- each byte is its character
        refine ⟨?_, rfl, h⟩
        rw [span_getElem? hspan (hascii ▸ not_le.mp hout), byte_of_ascii (hbytes.symm.trans hascii)]
      · have hchar := @charAt_eq text index _ (HasString.hint h hstring)
        simp only [StringHeap.stringRefMultibyte, hslot, hspan, hchar]
        cases hc : text[index]? with
        | none => exact ⟨rfl, rfl, h⟩
        | some c =>
          exact ⟨rfl, rfl, h.store hstring (List.getElem?_eq_some_iff.mp hc).1.le⟩
    · rw [hnone]
      dsimp only
      generalize state.heap.slotAt reference = slot at hother
      rcases slot with _ | object
      · exact ⟨rfl, rfl, h⟩
      cases object
      case string off byteLen chars => exact absurd rfl (hother off byteLen chars)
      all_goals exact ⟨rfl, rfl, h⟩

lemma stringLen_spec (h : state.Sound owned) (value : Value) :
    state.stringLen value = (state.heap.texts.read value).map fun text => text.chars.length := by
  unfold StringHeap.stringLen Heap.stringLen
  cases hvalue : value.heapRef with
  | none => simp [Texts.read, Heap.object, hvalue]
  | some reference =>
    rw [read_eq hvalue]
    have hobject : state.heap.object value = state.heap.slotAt reference := by
      simp [Heap.object, Heap.slotAt, hvalue]
    rw [hobject]
    rcases slotAt_cases h.held.sound.valid h.counted reference with
      ⟨off, byteLen, chars, text, immutable, hslot, hstring⟩ | ⟨hother, hnone⟩
    · rw [hslot, hstring.texts, hstring.chars]
      rfl
    · rw [hnone]
      split
      · rename_i off byteLen chars hslot
        exact absurd hslot (hother off byteLen chars)
      · rfl

lemma stringRange_spec (h : state.Sound owned) {value : Value} {start stop : ℕ}
    (hle : start ≤ stop) (hstop : ∀ chars, state.stringLen value = some chars → stop ≤ chars) :
    state.stringRange value start stop = (state.heap.texts.read value).map fun text =>
      Utf8.encode ((text.chars.drop start).take (stop - start)) := by
  rw [stringLen_spec h] at hstop
  unfold StringHeap.stringRange
  cases hvalue : value.heapRef with
  | none => simp [Texts.read, hvalue]
  | some reference =>
    rw [read_eq hvalue] at hstop ⊢
    rcases slotAt_cases h.held.sound.valid h.counted reference with
      ⟨off, byteLen, chars, text, immutable, hslot, hstring⟩ | ⟨hother, hnone⟩
    · obtain rfl := hstring.chars
      rw [hstring.texts] at hstop ⊢
      have hrange := charRangeToBytes_eq hle (hstop _ rfl) (HasString.hint h hstring)
      simp only [Option.bind_eq_bind, Option.bind_some, hslot, hstring.span, hrange,
        Option.map_some]
      rw [slice, if_pos ⟨offset_mono hle, offset_le text stop⟩, encode_range hle]
    · rw [hnone, Option.bind_eq_bind, Option.bind_some]
      split
      · rename_i off byteLen chars hslot
        exact absurd hslot (hother off byteLen chars)
      · rfl

end

/-! ### The character that is replaced -/

variable {text : List Char} {index chars off byteLen : ℕ} {value : Value} {immutable : Bool}
  {cell : Cell}

lemma charToByte_none {bytes : List UInt8} (h : index ≤ chars) :
    StringCursor.charToByte bytes chars index none = charToByte bytes chars index := by
  unfold StringCursor.charToByte charToByte anchor
  dsimp only
  by_cases hnearer : chars - index < index
  · simp only [if_pos hnearer]
    split_ifs with hforward
    · have hlast : index = chars := le_antisymm h hforward
      subst hlast
      simp
    · rfl
  · simp only [if_neg hnearer, ge_iff_le, Nat.zero_le, if_true, Nat.sub_zero]

/-- A mutation that finds its character: the string, and what stands around the character. -/
structure StringTarget.Of (target : StringTarget) (heap : Heap) (value : Value) (index : ℕ)
    (chars : List Char) : Prop where
  slot : value.heapRef.map UInt32.toNat = some target.slot
  settable : heap.texts.Settable value index chars
  count : target.chars = chars.length
  current : chars[index]? = some target.current
  start : target.start = offset chars index
  found : ∃ cell, cell.byte &&& metaImmutable = 0 ∧
    target.Found heap cell (chars.take index) (chars.drop (index + 1))

lemma not_settable {texts : Texts} (index : ℕ)
    (h : ∀ chars, texts.read value = some ⟨chars, false⟩ → chars.length ≤ index)
    (chars : List Char) :
    ¬ texts.Settable value index chars :=
  fun hset => absurd hset.2 (not_lt.mpr (h chars hset.1))

section
variable {owned : Object → ℕ} {state : StringHeap}

/-- The mutation finds the character at the index of a string that may be written. -/
lemma stringTarget_spec (h : state.Sound owned) (value : Value) (index : ℕ) :
    (∃ target chars, state.stringTarget value index = some target ∧
      state.heap.stringTarget value index = some target ∧
      target.Of state.heap value index chars) ∨
    state.stringTarget value index = none ∧ state.heap.stringTarget value index = none ∧
      ∀ chars, ¬ state.heap.texts.Settable value index chars := by
  unfold StringHeap.stringTarget Heap.stringTarget
  cases hvalue : value.heapRef with
  | none => exact .inr ⟨rfl, rfl, not_settable index fun chars hread => by
      simp [Texts.read, hvalue] at hread⟩
  | some reference =>
    have hread := @read_eq state.heap value reference hvalue
    cases hcell : state.heap.cells[reference.toNat]? with
    | none =>
      refine .inr ⟨by simp [hcell], by simp [hcell], not_settable index fun chars htext => ?_⟩
      rw [hread, texts_of_none (by simp [Heap.contents, hcell])] at htext
      cases htext
    | some cell =>
      simp only [Option.bind_eq_bind, Option.bind_some, hcell]
      by_cases hstring : ∃ off byteLen chars, cell.slot = some (.string off byteLen chars)
      · obtain ⟨off, byteLen, count, hslot⟩ := hstring
        obtain ⟨text, htext⟩ :=
          hasString_of_cell h.held.sound.valid h.counted hcell hslot
        have hspan := htext.span
        have hbytes := HasString.byteLen htext
        obtain rfl := htext.chars
        have hfound := hread.trans htext.texts
        by_cases himmutable : cell.byte &&& metaImmutable ≠ 0
        · refine .inr ⟨if_pos himmutable, if_pos himmutable,
            not_settable index fun chars hset => ?_⟩
          rw [hfound, decide_eq_true himmutable] at hset
          cases hset
        rw [if_neg himmutable, if_neg himmutable, hslot]
        rw [decide_eq_false himmutable] at hfound
        by_cases hout : index ≥ text.length
        · refine .inr ⟨if_pos hout, if_pos hout, not_settable index fun chars hset => ?_⟩
          rw [hfound] at hset
          cases hset
          exact hout
        have hin := not_le.mp hout
        obtain ⟨hsplit, -⟩ := split_take hin
        have hwalk : ∀ hint, (∀ position, hint = some position → Anchors text position) →
            (if byteLen = text.length then index
              else StringCursor.charToByte (Utf8.encode text) text.length index hint) =
            offset text index := by
          intro hint hhint
          split_ifs with hascii
          · exact (offset_of_ascii (hbytes.symm.trans hascii) hin.le).symm
          · exact charToByte_eq hin.le hhint
        have hcached := hwalk _ (HasString.hint h htext)
        have hplain := hwalk none fun position hposition => by cases hposition
        rw [charToByte_none hin.le] at hplain
        refine .inl ⟨⟨reference.toNat, off, byteLen, text.length, Utf8.encode text,
          offset text index, text[index]⟩, text, ?_, ?_, ?_, ⟨hfound, hin⟩, rfl,
          List.getElem?_eq_getElem hin, rfl, cell, not_not.mp himmutable, hcell, hslot, hspan,
          congrArg Utf8.encode hsplit, rfl⟩
        · simp only [if_neg hout, hspan, Option.bind_some, hcached, decodeCharAt_offset hin,
            Option.pure_def]
        · simp only [if_neg hout, hspan, Option.bind_some, hplain, decodeCharAt_offset hin,
            Option.pure_def]
        · rw [hvalue]
          rfl
      · have hother : ∀ off byteLen chars, cell.slot ≠ some (.string off byteLen chars) :=
          fun off byteLen chars hslot => hstring ⟨off, byteLen, chars, hslot⟩
        refine .inr ⟨?_, ?_, not_settable index fun chars htext => ?_⟩
        · split_ifs
          · rfl
          · split
            · rename_i off byteLen chars hslot
              exact absurd hslot (hother off byteLen chars)
            · rfl
        · split_ifs
          · rfl
          · split
            · rename_i off byteLen chars hslot
              exact absurd hslot (hother off byteLen chars)
            · rfl
        · rw [hread, texts_of_other hcell hother] at htext
          cases htext

/-! ### What the mutation leaves -/

lemma stringSet_heap (h : state.Sound owned) (value : Value) (index : ℕ) (replacement : Char) :
    Gc.stringSet value index replacement state.heap =
      match state.stringSet value index replacement with
      | .ok (done, after) => .ok (done, after.heap)
      | .error error => .error (error, state.heap) := by
  have htarget : state.stringTarget value index = state.heap.stringTarget value index := by
    rcases stringTarget_spec h value index with ⟨target, -, hcached, hplain, -⟩ |
      ⟨hcached, hplain, -⟩
    · rw [hcached, hplain]
    · rw [hcached, hplain]
  have hget : ∀ next : Heap → HeapM Bool, ((get : HeapM Heap) >>= next) state.heap =
      next state.heap state.heap := fun _ => rfl
  unfold StringHeap.stringSet Gc.stringSet
  rw [htarget, hget]
  cases state.heap.stringTarget value index with
  | none => rfl
  | some target =>
    dsimp only
    split_ifs <;> rfl

/-- One string has become another one, counted and with its cursor at a boundary. -/
lemma sound_of_edit {heap : Heap} {cursors : StringCursors} {slot : ℕ} {text' : List Char}
    (h : state.Sound owned) (hheld : heap.Held owned)
    (hslot : value.heapRef.map UInt32.toNat = some slot)
    (hsame : ∀ i, i ≠ slot → heap.contents i = state.heap.contents i)
    (hnew : heap.contents slot = some (.string (Utf8.encode text') text'.length, false))
    (hcursors : cursors = state.cursors.store slot (index, offset text index))
    (hindex : index ≤ text'.length) (hoffset : offset text' index = offset text index) :
    StringHeap.Sound owned ⟨heap, cursors⟩ ∧ heap.texts = state.heap.texts.set value text' := by
  have htexts : heap.texts slot = some ⟨text', false⟩ := texts_of_string hnew
  have hcounted : heap.Counted := by
    intro i bytes chars immutable hi
    by_cases hne : i = slot
    · subst hne
      rw [hnew] at hi
      cases hi
      exact ⟨text', rfl, rfl⟩
    · exact h.counted i bytes chars immutable ((hsame i hne).symm.trans hi)
  have hfits : index ≤ u32Max ∧ offset text' index ≤ u32Max := by
    obtain ⟨object, hobject, hcontent⟩ := slot_of_contents hnew
    obtain ⟨cell, hcell, hcellSlot⟩ := Option.map_eq_some_iff.mp
      ((slotsOf_getElem? heap.cells slot).symm.trans hobject)
    cases object
    case string off byteLen chars =>
      obtain ⟨found, hfound⟩ := hasString_of_cell hheld.sound.valid hcounted hcell hcellSlot
      have hsound : StringHeap.Sound owned ⟨heap, .new⟩ := ⟨hheld, hcounted, new_sound _⟩
      obtain rfl : found = text' :=
        (Text.mk.inj (Option.some.inj (hfound.texts.symm.trans htexts))).1
      exact HasString.fits hsound hfound hindex
    case vector | bytevector =>
      obtain ⟨elements, -, hstring⟩ := Option.map_eq_some_iff.mp hcontent
      cases hstring
    all_goals cases hcontent
  refine ⟨⟨hheld, hcounted, ?_⟩, ?_⟩
  · subst hcursors
    rw [← hoffset]
    refine store_sound h.cursors (fun i hi => ?_) (chars_eq_some.mpr ⟨false, htexts⟩)
      ⟨hindex, rfl⟩ hfits
    unfold Heap.chars
    rw [texts_congr (hsame i hi)]
  · funext i
    unfold Texts.set
    rw [hslot]
    split_ifs with hi
    · rw [← Option.some.inj hi]
      exact htexts
    · exact texts_congr (hsame i fun heq => hi (heq ▸ rfl))

lemma set_eq_of_current {chars : List Char} {c : Char} (h : chars[index]? = some c) :
    chars.set index c = chars := by
  obtain ⟨hin, rfl⟩ := List.getElem?_eq_some_iff.mp h
  exact List.set_getElem_self hin

lemma offset_set (chars : List Char) (index : ℕ) (c : Char) :
    offset (chars.set index c) index = offset chars index := by
  unfold offset
  rw [List.take_set_of_le le_rfl]

lemma StringTarget.Of.replaced {target : StringTarget} {heap : Heap} {chars : List Char}
    (h : target.Of heap value index chars) (replacement : Char) :
    target.rebuilt replacement = Utf8.encode (chars.set index replacement) ∧
      target.bytes.take target.start ++ String.utf8EncodeChar replacement ++
        target.bytes.drop (target.start + target.current.utf8Size) =
      Utf8.encode (chars.set index replacement) := by
  obtain ⟨cell, -, hfound⟩ := h.found
  have hrebuilt := hfound.rebuilt_eq replacement
  have hset := @List.set_eq_take_append_cons_drop _ chars index replacement
  rw [if_pos h.settable.2] at hset
  rw [← hset] at hrebuilt
  exact ⟨hrebuilt, hrebuilt⟩

lemma patched_contents {heap : Heap} (hv : heap.Valid) {target : StringTarget}
    {before after : List Char} (hfound : target.Found heap cell before after)
    {encoded arena : List UInt8} (hp : Patched target heap encoded arena) {i : ℕ}
    (hne : i ≠ target.slot) :
    ({ heap with byteArena := arena } : Heap).contents i = heap.contents i := by
  unfold Heap.contents
  cases hcell : heap.cells[i]? with
  | none => rfl
  | some other =>
    cases hslot : other.slot with
    | none => simp [hslot]
    | some object =>
      have hobject : (slotsOf heap.cells)[i]? = some (some object) := by
        rw [slotsOf_getElem?, hcell, Option.map_some, hslot]
      have hcontent := patched_content hv hfound hp hobject hne.symm
      simp only [Option.bind_eq_bind, Option.bind_some, hslot, hcontent]

lemma rebuilt_contents {heap : Heap} {target : StringTarget} {bytes : List UInt8} (hv : heap.Valid)
    (hcell : heap.cells[target.slot]? = some cell) (hmutable : cell.byte &&& metaImmutable = 0)
    (dynamicBytes : ℕ) {len : ℕ} (hoff : off = heap.byteArena.length) (hlen : bytes.length = len) :
    let after : Heap := { heap with
      byteArena := heap.byteArena ++ bytes
      cells := heap.setString target.slot off len target.chars
      dynamicBytes }
    (∀ i, i ≠ target.slot → after.contents i = heap.contents i) ∧
      after.contents target.slot = some (.string bytes target.chars, false) := by
  subst hoff
  refine ⟨fun i hne => ?_, ?_⟩
  · simp only [Heap.contents, Heap.setString, List.getElem?_modify_ne _ _ hne.symm]
    cases hother : heap.cells[i]? with
    | none => rfl
    | some other =>
      cases hslot : other.slot with
      | none => simp [hslot]
      | some object =>
        obtain ⟨content, hcontent⟩ := hv.inside object
          (mem_slotsOf (List.mem_of_getElem? hother) hslot)
        have happend := Object.content_append hcontent bytes []
        rw [List.append_nil] at happend
        simp only [Option.bind_eq_bind, Option.bind_some, hslot, hcontent, happend]
  · have hspan : span (heap.byteArena ++ bytes) heap.byteArena.length len = some bytes :=
      span_append_self _ hlen
    simp [Heap.contents, Heap.setString, hcell, Object.content, hspan, hmutable]

/-- **A mutation of a character**: it replaces the character in the list, or it leaves the heap
and its cursors as they are. -/
lemma stringSet_spec (h : state.Sound owned) {replacement : Char} {done : Bool} {after : StringHeap}
    (hset : state.stringSet value index replacement = .ok (done, after)) :
    after.Sound owned ∧
      (done = true ∧ (∃ chars, state.heap.texts.Settable value index chars ∧
          after.heap.texts = state.heap.texts.set value (chars.set index replacement)) ∨
        done = false ∧ (∀ chars, ¬ state.heap.texts.Settable value index chars) ∧
          after = state) := by
  have hheld : after.heap.Held owned := by
    have hends := stringSet_held h.held value index replacement
    unfold Ends at hends
    rw [stringSet_heap h, hset] at hends
    exact hends.1
  rcases stringTarget_spec h value index with ⟨target, chars, hcached, -, hof⟩ | ⟨hcached, -, hnot⟩
  · obtain ⟨cell, hmutable, hfound⟩ := hof.found
    obtain ⟨hrebuilt, hpatched⟩ := hof.replaced replacement
    have hlength : (chars.set index replacement).length = chars.length := List.length_set
    have hindex : index ≤ (chars.set index replacement).length :=
      hlength.symm ▸ hof.settable.2.le
    have hedit : ∀ {heap : Heap}, heap.Held owned →
        (∀ i, i ≠ target.slot → heap.contents i = state.heap.contents i) →
        heap.contents target.slot = some (.string (Utf8.encode (chars.set index replacement))
          (chars.set index replacement).length, false) →
        StringHeap.Sound owned
          ⟨heap, state.cursors.store target.slot (index, target.start)⟩ ∧
          heap.texts = state.heap.texts.set value (chars.set index replacement) :=
      fun hheap hsame hnew => sound_of_edit h hheap hof.slot hsame hnew
        (by rw [hof.start]) hindex (offset_set chars index replacement)
    have hold : state.heap.contents target.slot =
        some (.string (Utf8.encode chars) chars.length, false) := by
      refine (texts_eq_some h.counted).mp ?_
      obtain ⟨reference, hvalue, hslot⟩ := Option.map_eq_some_iff.mp hof.slot
      rw [← hslot, ← read_eq hvalue]
      exact hof.settable.1
    unfold StringHeap.stringSet at hset
    rw [hcached] at hset
    dsimp only at hset
    split_ifs at hset with hsame hwidth hshort hlong hlimit
    · -- the character is there already
      cases hset
      have hchars : chars.set index replacement = chars :=
        set_eq_of_current (hsame ▸ hof.current)
      obtain ⟨hsound, htexts⟩ := hedit hheld (fun _ _ => rfl) (by rw [hchars]; exact hold)
      exact ⟨hsound, .inl ⟨rfl, chars, hof.settable, htexts⟩⟩
    · obtain ⟨-, -, hle, hin, -⟩ := hfound.parts
      omega
    · -- in place
      cases hset
      have hpatch := patch_spec hfound hwidth
      obtain ⟨hsound, htexts⟩ := hedit hheld
        (fun i hne => patched_contents h.held.sound.valid hfound hpatch hne) (by
          have hspan := hpatch.span
          rw [hpatched] at hspan
          simp [Heap.contents, hfound.found, hfound.holds, Object.content, hspan, hmutable,
            hof.count])
      exact ⟨hsound, .inl ⟨rfl, chars, hof.settable, htexts⟩⟩
    · -- a copy behind the arena
      cases hset
      obtain ⟨hothers, hslot⟩ := rebuilt_contents h.held.sound.valid hfound.found hmutable
        (saturatingAdd state.heap.dynamicBytes (target.newLen replacement)) rfl
        (hfound.rebuilt_length replacement)
      obtain ⟨hsound, htexts⟩ := hedit hheld hothers
        (hslot.trans (by rw [hrebuilt, hof.count, hlength]))
      exact ⟨hsound, .inl ⟨rfl, chars, hof.settable, htexts⟩⟩
  · unfold StringHeap.stringSet at hset
    rw [hcached] at hset
    cases hset
    exact ⟨h, .inr ⟨rfl, hnot, rfl⟩⟩

lemma stringSet_fails (h : state.Sound owned) {replacement : Char} {error : Error}
    (hset : state.stringSet value index replacement = .error error) :
    ∃ chars, state.heap.texts.Settable value index chars ∧ error.kind = .heapLimitExceeded ∧
      ∀ current, chars[index]? = some current → current.utf8Size ≠ replacement.utf8Size := by
  rcases stringTarget_spec h value index with ⟨target, chars, hcached, -, hof⟩ | ⟨hcached, -, -⟩
  · unfold StringHeap.stringSet at hset
    rw [hcached] at hset
    dsimp only at hset
    refine ⟨chars, hof.settable, ?_, fun current hcurrent => ?_⟩
    · split_ifs at hset
      all_goals
        cases hset
        rfl
    · obtain rfl := Option.some.inj (hof.current.symm.trans hcurrent)
      intro hwidth
      rw [String.length_utf8EncodeChar, if_pos hwidth.symm] at hset
      split_ifs at hset
  · unfold StringHeap.stringSet at hset
    rw [hcached] at hset
    cases hset

end

end Neetan.Gc
