import Neetan.StringEdits

/-!
What an allocation and a collection do to the contents of a heap: nothing appears but the new
object, and only what is not reachable goes, in a collection.

An allocation that runs no collection leaves every slot as it was, so a cached position stays
a boundary of the text in its slot.
-/

namespace Neetan.Gc

open Neetan.Bytecode Neetan.StringCursor

/-! ### Contents -/

/-- A slot is as it was, or what it held was not bound to stay. -/
def Survives (before after : Heap) : Prop :=
  ∀ i, after.contents i = before.contents i ∨ ¬ before.Secure i ∧ after.contents i = none

lemma Survives.of_eq {before after : Heap} (h : ∀ i, after.contents i = before.contents i) :
    Survives before after := fun i => .inl (h i)

lemma Survives.trans {first second third : Heap} (h : Survives first second)
    (hkeeps : Keeps first second) (h' : Survives second third) : Survives first third := by
  intro i
  rcases h i with hsame | ⟨hloose, hnone⟩
  · exact (h' i).imp (fun h => h.trans hsame) fun ⟨hloose, hnone⟩ =>
      ⟨fun hsecure => hloose (hkeeps.secure i hsecure), hnone⟩
  · refine .inr ⟨hloose, ?_⟩
    rcases h' i with hsame | ⟨-, hnone'⟩
    · exact hsame.trans hnone
    · exact hnone'

section
variable {owned : Object → ℕ} {heap : Heap}

lemma collected_none (hs : heap.Sound) {extraRoots : List Value} {i : ℕ}
    (h : ¬ heap.Live extraRoots i) : (heap.collectWith owned extraRoots).contents i = none := by
  cases hcontents : (heap.collectWith owned extraRoots).contents i with
  | none => rfl
  | some found =>
    obtain ⟨object, hobject, -⟩ := slot_of_contents hcontents
    exact absurd ((collected_kept owned heap extraRoots hs.valid hs.fresh hs.ready.addressable
      i).mp ⟨object, hobject⟩) h

lemma collect_survives (h : heap.Held owned) (hactive : heap.vmActive ≠ true) :
    Survives heap (heap.collect owned) := by
  intro i
  by_cases hlive : heap.Live [] i
  · exact .inl (collected_contents owned heap [] h.sound.valid h.sound.fresh
      h.sound.ready.addressable hlive)
  · exact .inr ⟨fun hsecure => hsecure.elim hactive hlive, collected_none h.sound hlive⟩

lemma accounted_survives (h : heap.Held owned) (payload : ℕ) :
    Survives heap (heap.accounted owned payload) := by
  unfold Heap.accounted
  split_ifs with hover hactive
  · exact .of_eq fun _ => rfl
  · exact collect_survives h hactive
  · exact .of_eq fun _ => rfl

lemma preAccountDynamic_survives (h : heap.Held owned) (payload : ℕ) :
    Ends (preAccountDynamic owned payload) heap (fun _ after => Survives heap after)
      (fun after => Survives heap after) := by
  have hsurvives := accounted_survives h payload
  unfold Ends
  rw [preAccountDynamic_eq]
  split_ifs
  · exact hsurvives
  · exact hsurvives

lemma settled_survives (h : heap.Held owned) : Survives heap (heap.settled owned) := by
  unfold Heap.settled
  split_ifs with hsoft hactive
  · exact .of_eq fun _ => rfl
  · have hretire := h.retire
    exact collect_survives hretire hactive
  · exact .of_eq fun _ => rfl

lemma refillSpan_survives (h : heap.Held owned) :
    Ends (refillSpan owned) heap (fun _ after => Survives heap after)
      (fun after => Survives heap after) := by
  obtain ⟨hsettled, hkeeps, -⟩ := settled_spec h
  refine Ends.congr (refillSpan_eq owned heap)
    ((authorize_spec hsettled.sound.ready).mono ?_ ?_)
  · rintro - after ⟨hgrows, -⟩
    exact (settled_survives h).trans hkeeps
      (.of_eq fun i => hgrows.contents hsettled.sound.valid i)
  · rintro after rfl
    exact settled_survives h

/-! ### Securing a slot -/

lemma ensureSlotAndBytes_eq (payload : ℕ) : ensureSlotAndBytes owned payload =
    (if payload ≠ 0 then preAccountDynamic owned payload else pure ()) >>= fun _ =>
      (get : HeapM Heap) >>= fun heap =>
        if heap.cursor ≥ heap.limit then refillSpan owned else pure () := by
  unfold ensureSlotAndBytes
  split_ifs <;> rfl

lemma ensureSlotAndBytes_survives (h : heap.Held owned) (payload : ℕ) :
    Ends (ensureSlotAndBytes owned payload) heap (fun _ after => Survives heap after)
      (fun after => Survives heap after) := by
  have hbook : Ends (if payload ≠ 0 then preAccountDynamic owned payload else pure ()) heap
      (fun _ mid => (mid.Held owned ∧ Keeps heap mid) ∧ Survives heap mid)
      (fun mid => Survives heap mid) := by
    split_ifs
    · refine ((preAccountDynamic_held h payload).and (preAccountDynamic_survives h payload)).mono
        (fun _ _ h => ⟨⟨h.1.1, h.1.2.1⟩, h.2⟩) fun _ h => h.2
    · exact ⟨⟨h, Keeps.refl heap⟩, .of_eq fun _ => rfl⟩
  rw [ensureSlotAndBytes_eq]
  refine hbook.bind fun _ mid ⟨⟨hmid, hkeeps⟩, hsurvives⟩ => ?_
  apply Ends.get
  split_ifs
  · exact (refillSpan_survives hmid).mono (fun _ _ h => hsurvives.trans hkeeps h)
      fun _ h => hsurvives.trans hkeeps h
  · exact hsurvives

lemma collectsFor_eq_false (payload : ℕ) :
    heap.collectsFor owned payload = false ↔ Quiet owned heap payload := by
  unfold Heap.collectsFor Quiet
  cases heap.vmActive with
  | true => simp
  | false =>
    cases hrun : (if payload ≠ 0 then preAccountDynamic owned payload else pure ()) heap with
    | error failure => simp
    | ok result =>
      obtain ⟨-, mid⟩ := result
      simp [or_iff_not_imp_left]

/-- What becomes of the slots: they survive, and if nothing is collected they stay. -/
def Steady (quiet : Prop) (before after : Heap) : Prop :=
  Survives before after ∧ (quiet → ∀ i, after.contents i = before.contents i)

lemma Steady.refl (quiet : Prop) (heap : Heap) : Steady quiet heap heap :=
  ⟨.of_eq fun _ => rfl, fun _ _ => rfl⟩

lemma ensureSlotAndBytes_steady (h : heap.Held owned) (payload : ℕ) :
    Ends (ensureSlotAndBytes owned payload) heap
      (fun _ mid => Secured owned payload heap mid ∧ Steady (Quiet owned heap payload) heap mid)
      (fun after => Steady (Quiet owned heap payload) heap after) := by
  have hheld := ensureSlotAndBytes_held h payload
  have hsurvives := ensureSlotAndBytes_survives h payload
  by_cases hquiet : Quiet owned heap payload
  · have hspec := ensureSlotAndBytes_spec owned h.sound.ready hquiet
    refine ((hheld.and hsurvives).and hspec).mono ?_ ?_
    · rintro - mid ⟨⟨hsecured, hmid⟩, hgrows, -⟩
      exact ⟨hsecured, hmid, fun _ i => hgrows.contents h.sound.valid i⟩
    · rintro after ⟨⟨-, hafter⟩, haccounts⟩
      exact ⟨hafter, fun _ i => haccounts.grows.contents h.sound.valid i⟩
  · exact (hheld.and hsurvives).mono (fun _ _ h => ⟨h.1, h.2, fun hq => absurd hq hquiet⟩)
      fun _ h => ⟨h.2, fun hq => absurd hq hquiet⟩

/-! ### The new object -/

/-- A new object is in a slot that held none, or none that was bound to stay; the other slots
survive, and if nothing is collected they stay. -/
structure Made (quiet : Prop) (before : Heap) (reference : UInt32) (content : Content)
    (after : Heap) : Prop where
  contents : after.contents reference.toNat = some (content, false)
  vacant : before.contents reference.toNat = none ∨ ¬ before.Secure reference.toNat
  others : ∀ i, i ≠ reference.toNat → after.contents i = before.contents i ∨
    ¬ before.Secure i ∧ after.contents i = none
  quiet : quiet → before.contents reference.toNat = none ∧
    ∀ i, i ≠ reference.toNat → after.contents i = before.contents i

/-- A payload is appended, and is the contents of an object at its offset. -/
def AppendsAs (mid : Heap) (append : HeapM ℕ) (object : ℕ → Object) (content : Content) : Prop :=
  Ends append mid
    (fun off after => ∃ bytes values, after = mid.extended bytes values ∧ after.Ready ∧
      (object off).content after.byteArena after.valueArena = some content)
    (fun after => after = mid)

lemma extended_contents (hv : heap.Valid) (bytes : List UInt8) (values : List Value) (i : ℕ) :
    (heap.extended bytes values).contents i = heap.contents i := by
  have hgrows : Grows heap (heap.extended bytes values) :=
    ⟨⟨0, by simp [Heap.extended]⟩, ⟨bytes, rfl⟩, ⟨values, rfl⟩, rfl, rfl⟩
  exact hgrows.contents hv i

lemma made_of_written {mid : Heap} {quiet : Prop} {bytes : List UInt8} {values : List Value}
    {object : Object} {content : Content} (hmid : mid.Held owned) (hlt : mid.cursor < mid.limit)
    (hsteady : Steady quiet heap mid)
    (hcontent : object.content (mid.extended bytes values).byteArena
      (mid.extended bytes values).valueArena = some content) (dynamicBytes : ℕ) :
    Made quiet heap (UInt32.ofNat mid.cursor) content
      { (mid.extended bytes values).written object with dynamicBytes } := by
  have hvacant := hmid.sound.ready.vacant hlt
  have hindex : (UInt32.ofNat mid.cursor).toNat = mid.cursor := by
    have hin := hvacant.lt
    have hcells := hmid.sound.ready.addressable.cells
    simp only [UInt32.toNat_ofNat']
    omega
  have hnone : mid.contents mid.cursor = none := by
    obtain ⟨cell, hcell, hslot⟩ := hvacant
    simp [Heap.contents, hcell, hslot]
  have hothers : ∀ i, i ≠ mid.cursor →
      ({ (mid.extended bytes values).written object with dynamicBytes } : Heap).contents i =
        mid.contents i := by
    intro i hi
    have hwritten := @written_contents (mid.extended bytes values) object i hi
    exact hwritten.trans (extended_contents hmid.sound.valid bytes values i)
  refine ⟨?_, ?_, ?_, ?_⟩ <;> rw [hindex]
  · have hin := hvacant.lt
    have hset : ((mid.extended bytes values).cells.set mid.cursor ⟨some object, metaYoung⟩)[
        mid.cursor]? = some ⟨some object, metaYoung⟩ := List.getElem?_set_self hin
    have himmutable : decide (metaYoung &&& metaImmutable ≠ 0) = false := by decide
    show (do
      let cell ← ((mid.extended bytes values).cells.set mid.cursor ⟨some object, metaYoung⟩)[
        mid.cursor]?
      let object ← cell.slot
      let content ← object.content (mid.extended bytes values).byteArena
        (mid.extended bytes values).valueArena
      return (content, decide (cell.byte &&& metaImmutable ≠ 0))) = _
    simp only [hset, Option.bind_eq_bind, Option.bind_some, hcontent, himmutable, Option.pure_def]
  · rcases hsteady.1 mid.cursor with hsame | ⟨hloose, -⟩
    · exact .inl (hsame.symm.trans hnone)
    · exact .inr hloose
  · intro i hi
    rw [hothers i hi]
    exact hsteady.1 i
  · intro hquiet
    exact ⟨(hsteady.2 hquiet _).symm.trans hnone,
      fun i hi => (hothers i hi).trans (hsteady.2 hquiet i)⟩

/-- What an allocation guarantees of the contents. -/
def Makes (quiet : Prop) (heap : Heap) (content : Content) (run : HeapM Value) : Prop :=
  Ends run heap (fun value after => ∃ reference, value = .heap reference ∧
    Made quiet heap reference content after) (fun after => Steady quiet heap after)

/-- A slot is secured, the payload appended, the slot written and the payload charged. -/
lemma allocate_makes (h : heap.Held owned) {payload : ℕ} {append : HeapM ℕ} {object : ℕ → Object}
    {content : Content} (happend : ∀ mid, mid.Held owned → Keeps heap mid →
      AppendsAs mid append object content) :
    Makes (Quiet owned heap payload) heap content
      (ensureSlotAndBytes owned payload >>= fun _ => append >>= fun off =>
        writeAuthorizedSlot (object off) >>= fun value => charge payload >>= fun _ =>
          pure value) := by
  refine (ensureSlotAndBytes_steady h payload).bind fun _ mid ⟨hsecured, hsteady⟩ => ?_
  obtain ⟨hmid, hkeeps, hlt, -⟩ := hsecured
  refine ((happend mid hmid hkeeps).mono (fun _ _ h => h) ?_).bind fun off after
    ⟨bytes, values, hafter, hready, hcontent⟩ => ?_
  · rintro after rfl
    exact hsteady
  subst hafter
  refine (writeAuthorizedSlot_spec hready hlt (object off) _).bind fun value after
    ⟨hvalue, hafter⟩ => ?_
  subst hvalue hafter
  exact ⟨_, rfl, made_of_written hmid hlt hsteady hcontent _⟩

lemma appendsAs_bytes {mid : Heap} (h : mid.Held owned) (bytes : List UInt8)
    {object : ℕ → Object} {content : Content}
    (hcontent : ∀ off, span (mid.byteArena ++ bytes) off bytes.length = some bytes →
      (object off).content (mid.byteArena ++ bytes) mid.valueArena = some content) :
    AppendsAs mid (byteArenaAppend bytes) object content := by
  refine (byteArenaAppend_spec h.sound.ready bytes).mono ?_ fun _ h => h
  rintro off after ⟨hoff, hafter, hready⟩
  subst hoff hafter
  refine ⟨bytes, [], extended_bytes mid bytes, hready, ?_⟩
  exact hcontent _ (span_append_self _ rfl)

lemma appendsAs_values {mid : Heap} (h : mid.Held owned) (values : List Value) :
    AppendsAs mid (valueArenaAppend values) (fun off => .vector off values.length)
      (.vector values) := by
  refine (valueArenaAppend_spec h.sound.ready values).mono ?_ fun _ h => h
  rintro off after ⟨hoff, hafter, hready⟩
  subst hoff hafter
  exact ⟨[], values, by simp [Heap.extended], hready, by
    simp [Object.content, span_append_self _ rfl]⟩

lemma appendsAs_nothing {mid : Heap} (h : mid.Held owned) {object : Object}
    (hb : object.byteSpan = none) (hv : object.valueSpan = none) :
    AppendsAs mid (pure 0) (fun _ => object) (.plain object) :=
  ⟨[], [], by simp [Heap.extended], h.sound.ready, content_plain hb hv _ _⟩

lemma appendsAs_parts {mid : Heap} (h : mid.Held owned) {parts : List Value}
    {texts : List (List UInt8 × ℕ)} (hparts : List.Forall₂ mid.IsPart parts texts)
    {totalBytes : ℕ} (htotal : totalBytes = (texts.map fun text => text.1.length).sum)
    (totalChars : ℕ) :
    AppendsAs mid (do
      let heap ← (get : HeapM Heap)
      let off ← arenaOffset heap.byteArena.length totalBytes
      appendParts parts
      return off) (fun off => .string off totalBytes totalChars)
      (.string (texts.map Prod.fst).flatten totalChars) := by
  have hlength : (texts.map Prod.fst).flatten.length = totalBytes := by
    rw [htotal, List.length_flatten, List.map_map]
    rfl
  have hsame : mid = mid.extended [] [] := by simp [Heap.extended]
  have hrun := appendParts_ends hparts []
  rw [← hsame, List.nil_append] at hrun
  show Ends (arenaOffset mid.byteArena.length totalBytes >>= fun off =>
    appendParts parts >>= fun _ => pure off) mid _ _
  unfold arenaOffset
  split_ifs with hover
  · exact rfl
  · rw [pure_bind]
    refine (hrun.mono (fun _ _ h => h) fun _ h => h.elim).bind fun _ after hafter => ?_
    subst hafter
    have hspan := span_append_self mid.byteArena hlength
    obtain ⟨hspans, hb, hv, hc⟩ := h.sound.ready
    refine ⟨_, [], rfl, ⟨⟨hspans.1, hspans.2, hspans.3, hspans.4, hspans.5⟩, ⟨?_, ?_, hc⟩⟩, ?_⟩
    · simp only [Heap.extended, List.length_append, hlength]
      unfold u32Max at hover
      omega
    · simpa [Heap.extended] using hv
    · simp only [Object.content, Heap.extended, hspan, Option.map_some]

/-! ### Texts of new strings -/

/-- The contents are those of a new string with this text, or of no string. -/
def Content.IsText (content : Content) (text : Option Text) : Prop :=
  match content with
  | .string bytes chars =>
    ∃ list, bytes = Utf8.encode list ∧ chars = list.length ∧ text = some ⟨list, false⟩
  | _ => text = none

lemma parts_texts (hc : heap.Counted) {parts : List Value} {texts : List (List UInt8 × ℕ)}
    (h : List.Forall₂ heap.IsPart parts texts) :
    let list := (parts.map fun part => ((heap.texts.read part).map Text.chars).getD []).flatten
    (texts.map Prod.fst).flatten = Utf8.encode list ∧ (texts.map Prod.snd).sum = list.length := by
  induction h with
  | nil => exact ⟨rfl, rfl⟩
  | @cons part text parts texts hpart _ ih =>
    obtain ⟨reference, immutable, hvalue, -, hcontents⟩ := hpart
    obtain ⟨list, hbytes, hchars⟩ := hc _ _ _ _ hcontents
    rw [hbytes] at hcontents
    have hread : heap.texts.read part = some ⟨list, immutable⟩ :=
      (read_eq hvalue).trans (texts_of_string hcontents)
    simp only [List.map_cons, List.flatten_cons, List.sum_cons, hread, Option.map_some,
      Option.getD_some, Utf8.encode_append, List.length_append]
    exact ⟨by rw [hbytes, ih.1], by rw [hchars, ih.2]⟩

lemma Makes.mono {quiet quiet' : Prop} {content : Content} {run : HeapM Value}
    (h : Makes quiet heap content run) (hquiet : quiet' → quiet) :
    Makes quiet' heap content run := by
  refine Ends.mono h ?_ ?_
  · rintro value after ⟨reference, hvalue, hmade⟩
    exact ⟨reference, hvalue, hmade.contents, hmade.vacant, hmade.others,
      fun hq => hmade.quiet (hquiet hq)⟩
  · exact fun after hafter => ⟨hafter.1, fun hq => hafter.2 (hquiet hq)⟩

lemma allocPair_makes (h : heap.Held owned) (car cdr : Value) :
    Makes (Quiet owned heap 0) heap (.plain (.pair car cdr)) (allocPair owned car cdr) := by
  refine Ends.congr (allocInner_eq h.sound.ready (.pair car cdr)) ?_
  refine (ensureSlotAndBytes_steady h 0).bind fun _ mid ⟨hsecured, hsteady⟩ => ?_
  obtain ⟨hmid, hkeeps, hlt, -⟩ := hsecured
  refine (writeAuthorizedSlot_spec hmid.sound.ready hlt (.pair car cdr) _).mono ?_ fun _ h => h
  rintro value after ⟨rfl, rfl⟩
  have hsame : mid.extended [] [] = mid := by simp [Heap.extended]
  have hmade := @made_of_written owned heap mid _ [] [] (.pair car cdr) (.plain (.pair car cdr))
    hmid hlt hsteady rfl mid.dynamicBytes
  rw [hsame] at hmade
  exact ⟨_, rfl, hmade⟩

lemma perform_makes (h : heap.Held owned) (hc : heap.Counted) {allocation : Allocation}
    (hproper : allocation.operation.Proper heap) :
    ∃ content, content.IsText (heap.texts.made allocation) ∧
      Makes (allocation.collects owned heap = false) heap content (allocation.perform owned) := by
  have hquiet : ∀ payload, heap.collectsFor owned payload = false → Quiet owned heap payload :=
    fun payload => (collectsFor_eq_false payload).mp
  cases allocation with
  | object plain =>
    refine ⟨.plain plain, rfl, Makes.mono ?_ (hquiet _)⟩
    refine Ends.congr (alloc_eq h plain) (allocate_makes h fun mid hmid _ => ?_)
    exact appendsAs_nothing hmid hproper.1 hproper.2
  | pair car cdr => exact ⟨.plain (.pair car cdr), rfl, (allocPair_makes h car cdr).mono (hquiet _)⟩
  | vector values =>
    refine ⟨.vector values, rfl, Makes.mono ?_ (hquiet _)⟩
    exact allocate_makes h fun mid hmid _ => appendsAs_values hmid values
  | vectorFilled fill count =>
    refine ⟨.vector (List.replicate count fill), rfl, Makes.mono ?_ (hquiet _)⟩
    refine allocate_makes h fun mid hmid _ => ?_
    have happend := appendsAs_values hmid (List.replicate count fill)
    rwa [List.length_replicate] at happend
  | bytevector bytes =>
    refine ⟨.bytevector bytes, rfl, Makes.mono ?_ (hquiet _)⟩
    exact allocate_makes h fun mid hmid _ =>
      appendsAs_bytes hmid bytes fun off hspan => by simp [Object.content, hspan]
  | bytevectorFilled fill count =>
    refine ⟨.bytevector (List.replicate count fill), rfl, Makes.mono ?_ (hquiet _)⟩
    exact allocate_makes h fun mid hmid _ => appendsAs_bytes hmid _ fun off hspan => by
      rw [List.length_replicate] at hspan
      simp [Object.content, hspan]
  | string text =>
    refine ⟨.string text.toUTF8.toList text.length,
      ⟨text.toList, Utf8.toUTF8_eq text, String.length_toList.symm, rfl⟩,
      Makes.mono ?_ (hquiet _)⟩
    exact allocate_makes h fun mid hmid _ =>
      appendsAs_bytes hmid _ fun off hspan => by simp only [Object.content, hspan, Option.map_some]
  | stringFilled fill count =>
    obtain ⟨hlength, -⟩ := filled_spec fill count
    refine ⟨.string (List.replicate count (String.utf8EncodeChar fill)).flatten count,
      ⟨List.replicate count fill, (Utf8.encode_replicate count fill).symm,
        List.length_replicate.symm, rfl⟩, ?_⟩
    show Makes _ heap _ (allocStringFilled owned fill count)
    unfold allocStringFilled
    simp only
    split_ifs with hover hcount
    · exact Steady.refl _ heap
    · have hcollects : (Allocation.stringFilled fill count).collects owned heap = false →
          Quiet owned heap (count * fill.utf8Size) := by
        intro hfalse
        refine hquiet _ ?_
        simpa [Allocation.collects, not_lt.mp hover] using hfalse
      refine ((ensureSlotAndBytes_steady h _).mono (fun _ _ h => h)
        fun after hafter => ⟨hafter.1, fun hq => hafter.2 (hcollects hq)⟩).bind
        fun _ mid hmid => ?_
      exact ⟨hmid.2.1, fun hq => hmid.2.2 (hcollects hq)⟩
    · refine Makes.mono ?_ fun hfalse => hquiet (count * fill.utf8Size) ?_
      · refine allocate_makes h fun mid hmid _ => appendsAs_bytes hmid _ fun off hspan => ?_
        rw [hlength] at hspan
        simp only [Object.content, hspan, Option.map_some]
      · simpa [Allocation.collects, not_lt.mp hover] using hfalse
  | stringConcat parts totalBytes totalChars =>
    obtain ⟨texts, htexts, hbytes, hchars⟩ := hproper
    obtain ⟨hlist, hcount⟩ := parts_texts hc htexts
    refine ⟨.string (texts.map Prod.fst).flatten totalChars, ⟨_, hlist, hchars.trans hcount, rfl⟩,
      Makes.mono ?_ (hquiet _)⟩
    show Makes _ heap _ (allocStringConcat owned parts totalBytes totalChars)
    rw [allocStringConcat_eq]
    refine allocate_makes h fun mid hmid hkeeps => appendsAs_parts hmid ?_ hbytes totalChars
    exact htexts.imp fun _ _ hpart => hkeeps.isPart hpart

end

end Neetan.Gc
