import Neetan.HeapReserve

/-!
The mutation of a character: in place where the width stays, else in a copy of the string
behind the arena. Either way the string remains a text.

The copy is checked against the byte limit and charged, but the span ahead of the cursor
stays as it was authorized.
-/

namespace Neetan.Gc

open Neetan.Bytecode

/-! ### Characters -/

lemma decodeCharAt_spec {bytes : List UInt8} {start : ℕ} {c : Char}
    (h : decodeCharAt bytes start = some c) :
    ∃ rest, bytes.drop start = String.utf8EncodeChar c ++ rest := by
  simp only [decodeCharAt, Option.bind_eq_bind, Option.bind_eq_some_iff] at h
  obtain ⟨lead, -, h⟩ := h
  generalize (if lead ≤ 0x7F then 1 else if 0xC2 ≤ lead ∧ lead ≤ 0xDF then 2
    else if 0xE0 ≤ lead ∧ lead ≤ 0xEF then 3 else 4) = width at h
  split_ifs at h with hshort
  obtain ⟨text, htext, hhead⟩ := Option.bind_eq_some_iff.mp h
  have hencode := Utf8.encode_of_fromUTF8 htext
  obtain ⟨rest, hrest⟩ : ∃ rest, text.toList = c :: rest := by
    cases hlist : text.toList with
    | nil => simp [hlist] at hhead
    | cons first rest =>
      rw [hlist] at hhead
      exact ⟨rest, by rw [Option.some.inj hhead]⟩
  refine ⟨Utf8.encode rest ++ (bytes.drop start).drop width, ?_⟩
  rw [← List.append_assoc, ← Utf8.encode_cons, ← hrest, hencode, List.take_append_drop]

/-- What a mutation finds: a string, and in its text the character that is replaced. -/
structure StringTarget.Found (target : StringTarget) (heap : Heap) (cell : Cell)
    (before after : List Char) : Prop where
  found : heap.cells[target.slot]? = some cell
  holds : cell.slot = some (.string target.off target.len target.chars)
  inside : span heap.byteArena target.off target.len = some target.bytes
  text : target.bytes = Utf8.encode (before ++ target.current :: after)
  start : (Utf8.encode before).length = target.start

lemma stringTarget_found {heap : Heap} (hv : heap.Valid) {value : Value} {index : ℕ}
    {target : StringTarget} (h : heap.stringTarget value index = some target) :
    ∃ cell before after, target.Found heap cell before after := by
  simp only [Heap.stringTarget, Option.bind_eq_bind, Option.bind_eq_some_iff] at h
  obtain ⟨reference, -, cell, hcell, h⟩ := h
  split_ifs at h
  split at h
  · rename_i off len chars hslot
    by_cases hge : index ≥ chars
    · rw [if_pos hge] at h
      cases h
    rw [if_neg hge] at h
    simp only [Option.bind_eq_some_iff, Option.pure_def, Option.some.injEq] at h
    obtain ⟨bytes, hspan, current, hdecode, rfl⟩ := h
    have hobject := mem_slotsOf (List.mem_of_getElem? hcell) hslot
    obtain ⟨text, htext⟩ := Utf8.isText_iff.mpr
      (hv.text _ hobject bytes chars (by simp [Object.content, hspan]))
    obtain ⟨rest, hrest⟩ := decodeCharAt_spec hdecode
    generalize (if len = chars then index else charToByte bytes chars index) = start at hrest ⊢
    rw [← htext] at hrest
    obtain ⟨before, after, rfl, hstart⟩ := Utf8.split_at_char hrest
    exact ⟨cell, before, after, hcell, hslot, hspan, htext.symm, hstart⟩
  · cases h

section
variable {target : StringTarget} {heap : Heap} {cell : Cell} {before after : List Char}

lemma StringTarget.Found.parts (h : target.Found heap cell before after) :
    target.bytes.take target.start = Utf8.encode before ∧
      target.bytes.drop (target.start + target.current.utf8Size) = Utf8.encode after ∧
      target.start + target.current.utf8Size ≤ target.len ∧
      target.off + target.len ≤ heap.byteArena.length ∧ target.bytes.length = target.len := by
  obtain ⟨hinside, hlength⟩ := span_eq_some h.inside
  have htext := h.text
  rw [Utf8.encode_append, Utf8.encode_cons] at htext
  have hwidth := String.length_utf8EncodeChar target.current
  refine ⟨?_, ?_, ?_, hinside, hlength⟩
  · rw [htext, ← h.start, List.take_left']
    rfl
  · rw [htext, ← h.start, ← List.append_assoc, List.drop_left']
    simp [hwidth]
  · rw [← hlength, htext, ← h.start]
    simp [hwidth]

lemma StringTarget.Found.rebuilt_eq (h : target.Found heap cell before after)
    (replacement : Char) :
    target.rebuilt replacement = Utf8.encode (before ++ replacement :: after) := by
  obtain ⟨htake, hdrop, -⟩ := h.parts
  simp [StringTarget.rebuilt, htake, hdrop]

lemma StringTarget.Found.rebuilt_length (h : target.Found heap cell before after)
    (replacement : Char) : (target.rebuilt replacement).length = target.newLen replacement := by
  obtain ⟨-, -, hle, -, hlength⟩ := h.parts
  have hlist := h.text
  rw [h.rebuilt_eq replacement]
  replace hlist := congrArg List.length hlist
  simp only [Utf8.encode_append, Utf8.encode_cons, List.length_append,
    String.length_utf8EncodeChar] at hlist ⊢
  unfold StringTarget.newLen
  omega

end

/-! ### A copy behind the arena -/

section
variable {owned : Object → ℕ} {heap : Heap} {i : ℕ} {cell : Cell} {old object : Object}

/-- The heap with another object in a slot that is taken. -/
def Heap.replaced (heap : Heap) (i : ℕ) (cell : Cell) (object : Object) : Heap :=
  { heap with cells := heap.cells.set i { cell with slot := some object } }

lemma slotsOf_replaced :
    slotsOf (heap.replaced i cell object).cells = (slotsOf heap.cells).set i (some object) := by
  simp [slotsOf, Heap.replaced, List.map_set]

lemma replaced_sound (hs : heap.Sound) (hcell : heap.cells[i]? = some cell)
    (hslot : cell.slot = some old) (hf : heap.Fits object) :
    (heap.replaced i cell object).Sound := by
  have htaken : ∀ k, Vacant heap.cells k → i ≠ k := by
    rintro k ⟨other, hk, hnone⟩ rfl
    obtain rfl : cell = other := Option.some.inj (hcell.symm.trans hk)
    rw [hslot] at hnone
    cases hnone
  have hvacant : ∀ k, Vacant heap.cells k → Vacant (heap.replaced i cell object).cells k :=
    fun k hk => hk.set (htaken k hk) _
  obtain ⟨hv, ⟨⟨hl, hreg, hhole, hap, hha⟩, ⟨hb, hva, hc⟩⟩, hfresh⟩ := hs
  refine ⟨⟨?_, ?_, ?_, ?_, ?_⟩, ⟨⟨hl, fun k hk hk' => hvacant k (hreg k hk hk'), ?_, hap, hha⟩,
    ⟨hb, hva, by simpa [Heap.replaced] using hc⟩⟩, ?_⟩
  · intro other hother
    rcases List.mem_or_eq_of_mem_set hother with hother | rfl
    · exact hv.tagged other hother
    · have hstate := (hv.tagged cell (List.mem_of_getElem? hcell)).not.mp (by simp [hslot])
      exact iff_of_false (by simp) hstate
  · intro other hother
    rw [slotsOf_replaced] at hother
    rcases List.mem_or_eq_of_mem_set hother with hother | hother
    · exact hv.inside other hother
    · exact Option.some.inj hother ▸ hf.content
  · exact slotsOf_replaced ▸ hv.bytesApart.set hf.bytesApart
  · exact slotsOf_replaced ▸ hv.valuesApart.set hf.valuesApart
  · intro other hother
    rw [slotsOf_replaced] at hother
    rcases List.mem_or_eq_of_mem_set hother with hother | hother
    · exact hv.text other hother
    · exact Option.some.inj hother ▸ hf.text
  · exact fun hole hmem => ⟨(hhole hole hmem).1, fun k hk hk' =>
      hvacant k ((hhole hole hmem).2 k hk hk')⟩
  · rintro k ⟨other, hk, hstate⟩
    rcases List.mem_or_eq_of_mem_set (List.mem_of_getElem? hk) with hother | rfl
    · obtain ⟨j, hj⟩ := List.mem_iff_getElem?.mp hother
      exact hfresh j ⟨other, hj, hstate⟩
    · exact hfresh i ⟨cell, hcell, hstate⟩

lemma occupied_set_taken {slots : List (Option Object)} (h : slots[i]? = some (some old)) :
    occupied (slots.set i (some object)) = occupied slots := by
  induction slots generalizing i with
  | nil => rfl
  | cons slot slots ih =>
    cases i with
    | zero =>
      obtain rfl : slot = some old := by simpa using h
      rw [List.set_cons_zero, occupied_cons, occupied_cons]
      rfl
    | succ i =>
      rw [List.set_cons_succ, occupied_cons, occupied_cons, ih (by simpa using h)]

lemma replaced_held {payload : ℕ} (h : heap.Held owned) (hcell : heap.cells[i]? = some cell)
    (hslot : cell.slot = some old) (hf : heap.Fits object)
    (hsize : object.bytes owned - objectSize ≤ payload) :
    ({ heap.replaced i cell object with
        dynamicBytes := saturatingAdd heap.dynamicBytes payload } : Heap).Held owned ∧
      (({ heap.replaced i cell object with
        dynamicBytes := saturatingAdd heap.dynamicBytes payload } : Heap).Spare 0 ↔
          heap.Spare payload) := by
  have haccounts := accounts_charge (heap.replaced i cell object) payload
  have hsound := replaced_sound h.sound hcell hslot hf
  have hold : (slotsOf heap.cells)[i]? = some (some old) := by
    rw [slotsOf_getElem?, hcell, Option.map_some, hslot]
  generalize hafter : ({ heap.replaced i cell object with
    dynamicBytes := saturatingAdd heap.dynamicBytes payload } : Heap) = after
  have hcounts : after.liveSlots = heap.liveSlots ∧ after.limit = heap.limit ∧
      after.cursor = heap.cursor ∧ after.maxBytes = heap.maxBytes ∧
      after.dynamicBytes = saturatingAdd heap.dynamicBytes payload := by
    subst hafter
    exact ⟨rfl, rfl, rfl, rfl, rfl⟩
  obtain ⟨hlive, hlimit, hcursor, hmax, hdynamic⟩ := hcounts
  have hslots : slotsOf after.cells = (slotsOf heap.cells).set i (some object) := by
    subst hafter
    exact slotsOf_replaced
  have hpayloads := payloads_set_le owned (slotsOf heap.cells) i object
  have hbytes := h.bytes
  refine ⟨⟨?_, ?_, ?_, ?_, ?_⟩, ?_⟩
  · subst hafter
    exact haccounts.grows.sound hsound (haccounts.ready hsound.ready)
  · subst hafter
    exact h.began
  · rw [hslots, hlive, occupied_set_taken hold]
    exact h.slots
  · rw [hslots, hlive, Heap.totalBytes, hlive, hdynamic]
    generalize payloads owned ((slotsOf heap.cells).set i (some object)) = own at *
    generalize payloads owned (slotsOf heap.cells) = own' at *
    clear hdynamic
    unfold Heap.totalBytes saturatingAdd saturatingMul at *
    generalize usizeMax = top at *
    unfold objectSize at *
    omega
  · subst hafter
    exact h.room
  · unfold Heap.Spare
    rw [Heap.totalBytes, Heap.totalBytes, hlive, hlimit, hcursor, hmax, hdynamic]
    clear hdynamic hbytes hpayloads
    unfold saturatingAdd saturatingMul
    generalize usizeMax = top
    unfold objectSize
    omega

/-! ### In place -/

lemma span_congr {α : Type} {arena arena' : List α} {off len : ℕ}
    (hlen : arena'.length = arena.length)
    (h : ∀ k, off ≤ k → k < off + len → arena'[k]? = arena[k]?) :
    span arena' off len = span arena off len := by
  unfold span
  rw [hlen]
  split_ifs with hin
  · congr 1
    apply List.ext_getElem?
    intro k
    by_cases hk : k < len
    · rw [List.getElem?_take_of_lt hk, List.getElem?_take_of_lt hk, List.getElem?_drop,
        List.getElem?_drop]
      exact h _ (by omega) (by omega)
    · rw [List.getElem?_eq_none (by simp; omega), List.getElem?_eq_none (by simp; omega)]
  · rfl

lemma Separate.apart {position : Object → Option (ℕ × ℕ)} {slots : List (Option Object)}
    (h : Separate position slots) {j : ℕ} (hi : slots[i]? = some (some old))
    (hj : slots[j]? = some (some object)) (hne : i ≠ j) {p q : ℕ × ℕ}
    (hp : position old = some p) (hq : position object = some q) : Apart p q := by
  obtain ⟨hil, hie⟩ := List.getElem?_eq_some_iff.mp hi
  obtain ⟨hjl, hje⟩ := List.getElem?_eq_some_iff.mp hj
  have hpair := List.pairwise_iff_getElem.mp h
  rcases Nat.lt_or_gt_of_ne hne with hlt | hlt
  · exact hpair i j hil hjl hlt p q (by rw [hie]; exact hp) (by rw [hje]; exact hq)
  · exact (hpair j i hjl hil hlt q p (by rw [hje]; exact hq) (by rw [hie]; exact hp)).symm

/-- The arena with the character at its place replaced. -/
structure Patched (target : StringTarget) (heap : Heap) (encoded arena : List UInt8) : Prop where
  length : arena.length = heap.byteArena.length
  outside : ∀ k, k < target.off + target.start ∨
    target.off + target.start + target.current.utf8Size ≤ k → arena[k]? = heap.byteArena[k]?
  span : span arena target.off target.len =
    some (target.bytes.take target.start ++ encoded ++
      target.bytes.drop (target.start + target.current.utf8Size))

variable {target : StringTarget} {before after : List Char}

lemma patch_spec (h : target.Found heap cell before after) {encoded : List UInt8}
    (hwidth : encoded.length = target.current.utf8Size) :
    Patched target heap encoded (target.patch heap.byteArena encoded) := by
  obtain ⟨-, -, hle, hin, hlength⟩ := h.parts
  have hbytes : (heap.byteArena.drop target.off).take target.len = target.bytes := by
    have hinside := h.inside
    unfold Gc.span at hinside
    rw [if_pos hin] at hinside
    exact Option.some.inj hinside
  have hsize : (target.patch heap.byteArena encoded).length = heap.byteArena.length := by
    simp only [StringTarget.patch, List.length_append, List.length_take, List.length_drop]
    omega
  have hget : ∀ k, (target.patch heap.byteArena encoded)[k]? =
      if k < target.off + target.start then heap.byteArena[k]?
      else if k < target.off + target.start + target.current.utf8Size then
        encoded[k - (target.off + target.start)]?
      else heap.byteArena[k]? := by
    intro k
    unfold StringTarget.patch
    split_ifs with hlow hhigh
    · rw [List.append_assoc, List.getElem?_append_left (by simp; omega),
        List.getElem?_take_of_lt hlow]
    · rw [List.getElem?_append_left (by simp; omega), List.getElem?_append_right (by simp; omega)]
      congr 1
      simp
      omega
    · rw [List.getElem?_append_right (by simp; omega), List.getElem?_drop]
      congr 1
      simp
      omega
  refine ⟨hsize, fun k hk => ?_, ?_⟩
  · rw [hget]
    split_ifs with hlow hhigh <;> first | rfl | omega
  · unfold Gc.span
    rw [if_pos (by omega)]
    congr 1
    apply List.ext_getElem?
    intro k
    have hold : ∀ j, j < target.len → heap.byteArena[target.off + j]? = target.bytes[j]? := by
      intro j hj
      rw [← hbytes, List.getElem?_take_of_lt hj, List.getElem?_drop]
    by_cases hk : k < target.len
    · rw [List.getElem?_take_of_lt hk, List.getElem?_drop, hget]
      split_ifs with hlow hhigh
      · rw [List.append_assoc, List.getElem?_append_left (by simp; omega),
          List.getElem?_take_of_lt (by omega), hold k hk]
      · rw [List.getElem?_append_left (by simp; omega),
          List.getElem?_append_right (by simp; omega)]
        congr 1
        simp
        omega
      · rw [List.getElem?_append_right (by simp; omega), List.getElem?_drop, hold k hk]
        congr 1
        simp
        omega
    · rw [List.getElem?_eq_none (by simp; omega), List.getElem?_eq_none (by simp; omega)]

lemma patched_content (hv : heap.Valid) (h : target.Found heap cell before after)
    {encoded arena : List UInt8} (hp : Patched target heap encoded arena) {j : ℕ}
    (hj : (slotsOf heap.cells)[j]? = some (some object)) (hne : target.slot ≠ j) :
    object.content arena heap.valueArena = object.content heap.byteArena heap.valueArena := by
  have hwidth := h.parts.2.2.1
  have htarget : (slotsOf heap.cells)[target.slot]? =
      some (some (.string target.off target.len target.chars)) := by
    rw [slotsOf_getElem?, h.found, Option.map_some, h.holds]
  -- a span apart from that of the string has none of its bytes changed
  have hsame : ∀ {p : ℕ × ℕ}, Apart (target.off, target.len) p →
      span arena p.1 p.2 = span heap.byteArena p.1 p.2 := by
    intro p hapart
    refine span_congr hp.length fun k hk hk' => hp.outside k ?_
    unfold Apart at hapart
    simp only at hapart
    omega
  cases object
  case bytevector off len | string off len chars =>
    have hapart := hv.bytesApart.apart htarget hj hne rfl rfl
    simp only [Object.content, hsame hapart]
  all_goals rfl

lemma patched_valid (hv : heap.Valid) (h : target.Found heap cell before after)
    {encoded arena : List UInt8} (hp : Patched target heap encoded arena)
    (htext : Utf8.IsText (target.bytes.take target.start ++ encoded ++
      target.bytes.drop (target.start + target.current.utf8Size))) :
    ({ heap with byteArena := arena } : Heap).Valid := by
  have htarget : (slotsOf heap.cells)[target.slot]? =
      some (some (.string target.off target.len target.chars)) := by
    rw [slotsOf_getElem?, h.found, Option.map_some, h.holds]
  have hread : ∀ object, some object ∈ slotsOf heap.cells →
      (object = .string target.off target.len target.chars ∨
        object.content arena heap.valueArena =
          object.content heap.byteArena heap.valueArena) := by
    intro object hobject
    obtain ⟨j, hj⟩ := List.mem_iff_getElem?.mp hobject
    by_cases hne : target.slot = j
    · subst hne
      exact .inl (Option.some.inj (Option.some.inj (hj.symm.trans htarget)))
    · exact .inr (patched_content hv h hp hj hne)
  refine ⟨hv.tagged, fun object hobject => ?_, hv.bytesApart, hv.valuesApart,
    fun object hobject bytes chars hc => ?_⟩
  · rcases hread object hobject with rfl | hcontent
    · refine ⟨.string (target.bytes.take target.start ++ encoded ++
        target.bytes.drop (target.start + target.current.utf8Size)) target.chars, ?_⟩
      simp only [Object.content, hp.span, Option.map_some]
    · exact hcontent ▸ hv.inside object hobject
  · rcases hread object hobject with rfl | hcontent
    · simp only [Object.content, hp.span, Option.map_some, Option.some.injEq,
        Content.string.injEq] at hc
      exact hc.1 ▸ Utf8.isText_iff.mp htext
    · exact hv.text object hobject bytes chars (hcontent ▸ hc)

end

/-! ### The mutation -/

/-- The span ahead of the cursor leaves room for the copy of a string. -/
def Heap.LeavesRoomForCopy (heap : Heap) (value : Value) (index : ℕ) (replacement : Char) :
    Prop :=
  ∀ target, heap.stringTarget value index = some target →
    replacement.utf8Size ≠ target.current.utf8Size → heap.Spare (target.newLen replacement)

/-- A carried out mutation. -/
def Mutated (owned : Object → ℕ) (room : Prop) (before after : Heap) : Prop :=
  after.Held owned ∧ after.maxSlots = before.maxSlots ∧ after.maxBytes = before.maxBytes ∧
    (before.Spare 0 → (after.Spare 0 ↔ room))

lemma stringSet_held {owned : Object → ℕ} {heap : Heap} (h : heap.Held owned) (value : Value)
    (index : ℕ) (replacement : Char) :
    Ends (stringSet value index replacement) heap
      (fun _ after => Mutated owned (heap.LeavesRoomForCopy value index replacement) heap after)
      (fun after => after = heap) := by
  have hunchanged : heap.LeavesRoomForCopy value index replacement →
      Mutated owned (heap.LeavesRoomForCopy value index replacement) heap heap :=
    fun hroom => ⟨h, rfl, rfl, fun hspare => iff_of_true hspare hroom⟩
  unfold stringSet
  apply Ends.get
  cases htarget : heap.stringTarget value index with
  | none => exact hunchanged fun target h => by rw [htarget] at h; cases h
  | some target =>
    obtain ⟨cell, before, after, hfound⟩ := stringTarget_found h.sound.valid htarget
    have hroom : heap.LeavesRoomForCopy value index replacement ↔
        (replacement.utf8Size ≠ target.current.utf8Size →
          heap.Spare (target.newLen replacement)) := by
      refine ⟨fun h => h target htarget, fun h other hother => ?_⟩
      obtain rfl := Option.some.inj (htarget.symm.trans hother)
      exact h
    simp only [String.length_utf8EncodeChar]
    split_ifs with hsame hwidth hshort hlong hlimit
    · exact hunchanged (hroom.mpr fun hne => absurd (by rw [hsame]) hne)
    · exact hunchanged (hroom.mpr fun hne => absurd hwidth hne)
    · -- in place
      have hencoded : (String.utf8EncodeChar replacement).length = target.current.utf8Size := by
        rw [String.length_utf8EncodeChar, hwidth]
      have hpatch := patch_spec hfound hencoded
      have hvalid := patched_valid h.sound.valid hfound hpatch
        ⟨_, (hfound.rebuilt_eq replacement).symm⟩
      obtain ⟨-, ⟨hspans, hb, hva, hc⟩, hfresh⟩ := h.sound
      have hready : ({ heap with
          byteArena := target.patch heap.byteArena (String.utf8EncodeChar replacement) } :
            Heap).Ready :=
        ⟨⟨hspans.1, hspans.2, hspans.3, hspans.4, hspans.5⟩, ⟨hpatch.length ▸ hb, hva, hc⟩⟩
      exact ⟨⟨⟨hvalid, hready, hfresh⟩, h.began, h.slots, h.bytes, h.room⟩, rfl, rfl,
        fun hspare => iff_of_true hspare (hroom.mpr fun hne => absurd hwidth hne)⟩
    · exact rfl
    · exact rfl
    · -- a copy behind the arena
      have hlength := hfound.rebuilt_length replacement
      have hready : (heap.extended (target.rebuilt replacement) []).Ready := by
        obtain ⟨hspans, hb, hva, hc⟩ := h.sound.ready
        refine ⟨⟨hspans.1, hspans.2, hspans.3, hspans.4, hspans.5⟩, ⟨?_, ?_, hc⟩⟩
        · simp only [Heap.extended, List.length_append, hlength]
          unfold u32Max at hlong
          omega
        · simpa [Heap.extended] using hva
      obtain ⟨hextended, -⟩ := extended_held h hready
      have hspan : span (heap.byteArena ++ target.rebuilt replacement) heap.byteArena.length
          (target.newLen replacement) = some (target.rebuilt replacement) :=
        span_append_self _ hlength
      have hfits : (heap.extended (target.rebuilt replacement) []).Fits
          (.string heap.byteArena.length (target.newLen replacement) target.chars) := by
        rw [← extended_bytes]
        refine fits_bytes h.sound.valid (by rw [hlength]; rfl) rfl
          ⟨.string (target.rebuilt replacement) target.chars, ?_⟩ ?_
        · simp [Object.content, hspan]
        · intro text chars hc
          simp only [Object.content, hspan, Option.map_some, Option.some.injEq,
            Content.string.injEq] at hc
          exact hc.1 ▸ Utf8.isText_iff.mp ⟨_, (hfound.rebuilt_eq replacement).symm⟩
      obtain ⟨hheld, hiff⟩ := replaced_held hextended hfound.found hfound.holds hfits
        (size_le rfl)
      have hcells : heap.setString target.slot heap.byteArena.length
          (target.newLen replacement) target.chars =
          heap.cells.set target.slot { cell with
            slot := some (.string heap.byteArena.length (target.newLen replacement)
              target.chars) } := by
        obtain ⟨hin, hcell⟩ := List.getElem?_eq_some_iff.mp hfound.found
        rw [Heap.setString, List.modify_eq_set_getElem?, hfound.found]
        rfl
      have hafter : ({ heap with
          byteArena := heap.byteArena ++ target.rebuilt replacement
          cells := heap.setString target.slot heap.byteArena.length
            (target.newLen replacement) target.chars
          dynamicBytes := saturatingAdd heap.dynamicBytes (target.newLen replacement) } : Heap) =
          { (heap.extended (target.rebuilt replacement) []).replaced target.slot cell
              (.string heap.byteArena.length (target.newLen replacement) target.chars) with
            dynamicBytes := saturatingAdd heap.dynamicBytes (target.newLen replacement) } := by
        simp [Heap.replaced, Heap.extended, hcells]
      show Mutated owned (heap.LeavesRoomForCopy value index replacement) heap _
      rw [hafter]
      exact ⟨hheld, rfl, rfl, fun _ => hiff.trans (hroom.trans (forall_prop_of_true hwidth)).symm⟩

end Neetan.Gc
