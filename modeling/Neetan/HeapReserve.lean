import Neetan.HeapHeld

/-!
Allocations under the limits: the byte bookkeeping, the slot, and the payload charged for it, be it
literal, filled or concatenated.

The bookkeeping clamps the span in use to what a payload leaves. A span that is refilled
afterwards is authorized without the payload, and is right only if it leaves that room.
-/

namespace Neetan.Gc

open Neetan.Bytecode

section
variable (owned : Object → ℕ)

/-! ### Byte bookkeeping -/

/-- The heap in which a payload is checked against the byte limit. -/
def Heap.accounted (heap : Heap) (payload : ℕ) : Heap :=
  if saturatingAdd heap.totalBytes (saturatingAdd objectSize payload) > heap.byteThreshold then
    if heap.vmActive then { heap with pendingCollection := true } else heap.collect owned
  else heap

/-- The footprint with a payload and its slot. -/
def Heap.after (heap : Heap) (payload : ℕ) : ℕ :=
  saturatingAdd heap.totalBytes (saturatingAdd objectSize payload)

/-- The span in use is clamped to what a payload leaves. -/
def Heap.clamped (heap : Heap) (payload : ℕ) : Heap :=
  { heap with
    limit := min heap.limit (min (min (saturatingAdd ((heap.maxBytes - heap.after payload) /
      objectSize) 1) u32Max + heap.cursor) u32Max) }

/-- The heap in which the slot of an accepted payload is looked for. -/
def Heap.booked (heap : Heap) (payload : ℕ) : Heap :=
  (heap.accounted owned payload).clamped payload

/-- The span that is authorized for a payload leaves room for it. -/
def Heap.LeavesRoomFor (heap : Heap) (payload : ℕ) : Prop :=
  payload ≠ 0 → (heap.booked owned payload).cursor < (heap.booked owned payload).limit ∨
    saturatingAdd (((heap.booked owned payload).settled owned).totalBytes + payload)
      (objectSize * ((heap.booked owned payload).settled owned).spanCount) ≤ heap.maxBytes

lemma preAccountDynamic_eq (heap : Heap) (payload : ℕ) :
    preAccountDynamic owned payload heap =
      if (heap.accounted owned payload).after payload > heap.maxBytes then
        .error (heapLimit "heap limit exceeded", heap.accounted owned payload)
      else .ok ((), heap.booked owned payload) := by
  have hmax : (heap.accounted owned payload).maxBytes = heap.maxBytes := by
    unfold Heap.accounted
    split_ifs <;> rfl
  have hrest : ∀ mid : Heap, (do
      let mid ← (get : HeapM Heap)
      let after := saturatingAdd mid.totalBytes (saturatingAdd objectSize payload)
      if after > mid.maxBytes then raise (heapLimit "heap limit exceeded")
      else
        let remainingSlots := (mid.maxBytes - after) / objectSize
        let clamp := min (min (saturatingAdd remainingSlots 1) u32Max + mid.cursor) u32Max
        set { mid with limit := min mid.limit clamp } : HeapM Unit) mid =
      if mid.after payload > mid.maxBytes then
        .error (heapLimit "heap limit exceeded", mid)
      else .ok ((), mid.clamped payload) := by
    intro mid
    show (if mid.after payload > mid.maxBytes then _ else _ : HeapM Unit) mid = _
    split_ifs <;> rfl
  rw [← hmax]
  refine Eq.trans ?_ (hrest (heap.accounted owned payload))
  unfold preAccountDynamic Heap.accounted
  show (if saturatingAdd heap.totalBytes (saturatingAdd objectSize payload) > heap.byteThreshold
    then _ else _ : HeapM Unit) heap = _
  split_ifs <;> rfl

end

section
variable {owned : Object → ℕ} {heap : Heap}

lemma accounted_held (h : heap.Held owned) (payload : ℕ) :
    (heap.accounted owned payload).Held owned ∧ Keeps heap (heap.accounted owned payload) ∧
      (heap.Spare 0 → (heap.accounted owned payload).Spare 0) := by
  unfold Heap.accounted
  split_ifs with hover hactive
  · exact ⟨h.pending true, keeps_pending h.sound.valid true, fun h => h⟩
  · obtain ⟨hcollect, hle⟩ := h.collectWith []
    obtain ⟨-, -, -, -, hcursor, hlimit, -⟩ := @collectWith_frame owned heap []
    refine ⟨hcollect, keeps_collect h hactive, fun hspare => spare_of_used ?_ ?_⟩
    · exact (hlimit.trans hcursor.symm).le
    · exact hle.trans hspare.total
  · exact ⟨h, Keeps.refl heap, fun h => h⟩

lemma clamped_accounts (heap : Heap) (payload : ℕ) : Accounts heap (heap.clamped payload) :=
  ⟨rfl, rfl, rfl, rfl, rfl, rfl, min_le_left _ _, rfl, rfl⟩

lemma Heap.Held.clamped (h : heap.Held owned) (payload : ℕ) :
    (heap.clamped payload).Held owned ∧ Keeps heap (heap.clamped payload) := by
  have haccounts := clamped_accounts heap payload
  refine ⟨⟨haccounts.grows.sound h.sound (haccounts.ready h.sound.ready), h.began, h.slots,
    h.bytes, ?_⟩, haccounts.grows.keeps h.sound.valid (fun _ => rfl) rfl rfl⟩
  have hroom := h.room
  have hle := haccounts.limit
  have hsame : (heap.clamped payload).liveSlots = heap.liveSlots ∧
      (heap.clamped payload).cursor = heap.cursor ∧
      (heap.clamped payload).maxSlots = heap.maxSlots := ⟨rfl, rfl, rfl⟩
  rw [hsame.1, hsame.2.1, hsame.2.2]
  omega

lemma clamp_le (limit room top most cursor : ℕ) :
    min limit (min (min (min (room + 1) top) most + cursor) most) ≤ room + 1 + cursor := by
  omega

lemma spare_clamped {payload : ℕ} (h : heap.after payload ≤ heap.maxBytes)
    (hlt : (heap.clamped payload).cursor < (heap.clamped payload).limit) :
    (heap.clamped payload).Spare payload := by
  have hsame : (heap.clamped payload).totalBytes = heap.totalBytes ∧
      (heap.clamped payload).cursor = heap.cursor ∧
      (heap.clamped payload).maxBytes = heap.maxBytes := ⟨rfl, rfl, rfl⟩
  have hlimit : (heap.clamped payload).limit ≤
      (heap.maxBytes - heap.after payload) / objectSize + 1 + heap.cursor :=
    clamp_le _ _ _ _ _
  rw [hsame.2.1] at hlt
  unfold Heap.Spare
  rw [hsame.1, hsame.2.1, hsame.2.2]
  unfold Heap.after saturatingAdd at *
  generalize usizeMax = top at *
  unfold objectSize at *
  omega

lemma spare_mono {payload : ℕ} (h : heap.Spare payload) : heap.Spare 0 := by
  unfold Heap.Spare saturatingAdd at *
  omega

lemma preAccountDynamic_held (h : heap.Held owned) (payload : ℕ) :
    Ends (preAccountDynamic owned payload) heap
      (fun _ after => after.Held owned ∧ Keeps heap after ∧ after = heap.booked owned payload ∧
        after.totalBytes ≤ after.maxBytes ∧
        (after.cursor < after.limit → after.Spare payload))
      (fun after => after.Held owned ∧ Keeps heap after ∧ (heap.Spare 0 → after.Spare 0)) := by
  obtain ⟨hheld, hkeeps, hspare⟩ := accounted_held h payload
  obtain ⟨hclamped, hkeeps'⟩ := hheld.clamped payload
  unfold Ends
  rw [preAccountDynamic_eq]
  split_ifs with hover
  · exact ⟨hheld, hkeeps, hspare⟩
  · have hfits : (heap.accounted owned payload).after payload ≤
        (heap.accounted owned payload).maxBytes := by
      rw [hkeeps.maxBytes]
      exact not_lt.mp hover
    refine ⟨hclamped, hkeeps.trans hkeeps', rfl, ?_, spare_clamped hfits⟩
    have htotal : (heap.accounted owned payload).totalBytes ≤ usizeMax := min_le_right _ _
    show (heap.accounted owned payload).totalBytes ≤ (heap.accounted owned payload).maxBytes
    unfold Heap.after saturatingAdd at hfits
    generalize usizeMax = top at *
    omega

/-! ### Securing a slot -/

/-- A slot is secured for an object that `payload` bytes go with. -/
def Secured (owned : Object → ℕ) (payload : ℕ) (before after : Heap) : Prop :=
  after.Held owned ∧ Keeps before after ∧ after.cursor < after.limit ∧
    (before.Spare 0 → after.Spare 0 ∧
      (after.Spare payload ↔ before.LeavesRoomFor owned payload))

/-- A request that failed has left what is secure. -/
def Failed (owned : Object → ℕ) (before after : Heap) : Prop :=
  after.Held owned ∧ Keeps before after ∧ (before.Spare 0 → after.Spare 0)

lemma settled_used (heap : Heap) (h : heap.limit ≤ heap.cursor) :
    (heap.settled owned).limit ≤ (heap.settled owned).cursor := by
  unfold Heap.settled
  split_ifs
  · exact h
  · exact le_rfl
  · exact h

lemma refill_secures {mid : Heap} {payload : ℕ} (h : mid.Held owned) (hkeeps : Keeps heap mid)
    (hused : mid.limit ≤ mid.cursor)
    (hbytes : heap.Spare 0 → mid.totalBytes ≤ mid.maxBytes)
    (hroom : heap.LeavesRoomFor owned payload ↔
      saturatingAdd ((mid.settled owned).totalBytes + payload)
        (objectSize * (mid.settled owned).spanCount) ≤ heap.maxBytes ∨ payload = 0) :
    Ends (refillSpan owned) mid (fun _ after => Secured owned payload heap after)
      (fun after => Failed owned heap after) := by
  refine (refillSpan_held h).mono ?_ ?_
  · rintro - after ⟨hheld, hkeeps', hlt, hcount, htotal, hspare⟩
    refine ⟨hheld, hkeeps.trans hkeeps', hlt, fun _ => ⟨hspare, ?_⟩⟩
    rw [hroom]
    by_cases hzero : payload = 0
    · subst hzero
      exact iff_of_true hspare (.inr rfl)
    · unfold Heap.Spare
      rw [htotal, hcount, hkeeps'.maxBytes, hkeeps.maxBytes]
      simp only [hzero, or_false]
  · rintro after ⟨hheld, hkeeps', hle, rfl⟩
    refine ⟨hheld, hkeeps.trans hkeeps', fun hspare => ?_⟩
    refine spare_of_used (settled_used mid hused) ?_
    rw [hkeeps'.maxBytes]
    exact hle.trans (hbytes hspare)

lemma ensureSlotAndBytes_held (h : heap.Held owned) (payload : ℕ) :
    Ends (ensureSlotAndBytes owned payload) heap (fun _ after => Secured owned payload heap after)
      (fun after => Failed owned heap after) := by
  have hensure : ensureSlotAndBytes owned payload =
      (if payload ≠ 0 then preAccountDynamic owned payload else pure ()) >>= fun _ =>
        (get : HeapM Heap) >>= fun heap =>
          if heap.cursor ≥ heap.limit then refillSpan owned else pure () := by
    unfold ensureSlotAndBytes
    split_ifs <;> rfl
  rw [hensure]
  by_cases hzero : payload = 0
  · subst hzero
    rw [if_neg (by simp)]
    show Ends (if heap.cursor ≥ heap.limit then refillSpan owned else pure ()) heap _ _
    have hroom : heap.LeavesRoomFor owned 0 := fun hne => absurd rfl hne
    split_ifs with hused
    · exact refill_secures h (Keeps.refl heap) hused Heap.Spare.total
        (iff_of_true hroom (.inr rfl))
    · exact ⟨h, Keeps.refl heap, not_le.mp hused,
        fun hspare => ⟨hspare, iff_of_true hspare hroom⟩⟩
  · rw [if_pos hzero]
    refine (preAccountDynamic_held h payload).bind fun _ mid ⟨hmid, hkeeps, hbooked, hle, hspare⟩ =>
      ?_
    apply Ends.get
    split_ifs with hused
    · refine refill_secures hmid hkeeps hused (fun _ => hle) ?_
      subst hbooked
      simp only [Heap.LeavesRoomFor, hzero, not_lt.mpr hused, or_false, false_or, ne_eq,
        not_false_eq_true, forall_const]
    · have hlt := not_le.mp hused
      refine ⟨hmid, hkeeps, hlt, fun _ => ⟨spare_mono (hspare hlt), iff_of_true (hspare hlt) ?_⟩⟩
      exact fun _ => .inl (hbooked ▸ hlt)

/-! ### Writing the slot -/

lemma writeAuthorizedSlot_ends {mid : Heap} (h : mid.Held owned) (hlt : mid.cursor < mid.limit)
    (object : Object) (fail : Heap → Prop) :
    Ends (writeAuthorizedSlot object) mid (fun _ after => after = mid.written object) fail := by
  unfold Ends
  rw [writeAuthorizedSlot_eq h.sound.ready hlt]

/-- The heap with an object in the slot under the cursor and its payload charged. -/
def Heap.chargedFor (heap : Heap) (object : Object) (dynamicBytes : ℕ) : Heap :=
  { heap.written object with dynamicBytes }

lemma written_liveSlots (h : heap.authStart ≤ heap.cursor) (object : Object) :
    (heap.written object).liveSlots = heap.liveSlots + 1 := by
  unfold Heap.liveSlots Heap.written
  simp only
  omega

lemma saturatingAdd_zero (first second : ℕ) :
    saturatingAdd (saturatingAdd first second) 0 = saturatingAdd first second := by
  unfold saturatingAdd
  omega

lemma chargedFor_held {object : Object} {payload dynamic : ℕ} (h : heap.Held owned)
    (hlt : heap.cursor < heap.limit) (hfits : heap.Fits object)
    (hsize : object.bytes owned - objectSize ≤ payload)
    (hcharge : saturatingAdd dynamic 0 = saturatingAdd heap.dynamicBytes payload) :
    (heap.chargedFor object dynamic).Held owned ∧
      ((heap.chargedFor object dynamic).Spare 0 ↔ heap.Spare payload) := by
  have hlive : (heap.chargedFor object dynamic).liveSlots = heap.liveSlots + 1 :=
    written_liveSlots h.began object
  have hslots : slotsOf (heap.chargedFor object dynamic).cells =
      (slotsOf heap.cells).set heap.cursor (some object) := slotsOf_written
  have haccounts : Accounts (heap.written object) (heap.chargedFor object dynamic) :=
    ⟨rfl, rfl, rfl, rfl, rfl, rfl, le_rfl, rfl, rfl⟩
  have hwritten : (heap.written object).Sound :=
    ⟨h.sound.valid.written hfits, h.sound.ready.written hlt object,
      written_freshColor h.sound.fresh⟩
  have htotal : (heap.chargedFor object dynamic).totalBytes =
      saturatingAdd (saturatingMul (heap.liveSlots + 1) objectSize) dynamic := by
    rw [Heap.totalBytes, hlive]
    rfl
  have hoccupied := occupied_set_le (slotsOf heap.cells) heap.cursor object
  have hpayloads := payloads_set_le owned (slotsOf heap.cells) heap.cursor object
  refine ⟨⟨haccounts.grows.sound hwritten (haccounts.ready hwritten.ready), ?_, ?_, ?_, ?_⟩, ?_⟩
  · exact h.began.trans (Nat.le_succ _)
  · rw [hslots, hlive]
    exact hoccupied.trans (Nat.add_le_add_right h.slots 1)
  · have hbytes := h.bytes
    rw [hslots, hlive, htotal]
    generalize payloads owned ((slotsOf heap.cells).set heap.cursor (some object)) = own at *
    generalize payloads owned (slotsOf heap.cells) = own' at *
    unfold Heap.totalBytes saturatingAdd saturatingMul at *
    generalize usizeMax = top at *
    unfold objectSize at *
    omega
  · have hroom := h.room
    have hcursor : (heap.chargedFor object dynamic).cursor = heap.cursor + 1 := rfl
    have hlimit : (heap.chargedFor object dynamic).limit = heap.limit := rfl
    have hmax : (heap.chargedFor object dynamic).maxSlots = heap.maxSlots := rfl
    rw [hlive, hcursor, hlimit, hmax]
    omega
  · have hcursor : (heap.chargedFor object dynamic).cursor = heap.cursor + 1 := rfl
    have hlimit : (heap.chargedFor object dynamic).limit = heap.limit := rfl
    have hmax : (heap.chargedFor object dynamic).maxBytes = heap.maxBytes := rfl
    unfold Heap.Spare
    rw [htotal, hcursor, hlimit, hmax, Heap.totalBytes]
    clear htotal
    unfold saturatingAdd saturatingMul at *
    generalize usizeMax = top at *
    unfold objectSize at *
    omega

/-! ### Allocations -/

/-- A carried out allocation with this payload. -/
def Served (owned : Object → ℕ) (payload : ℕ) (before after : Heap) : Prop :=
  after.Held owned ∧ after.maxSlots = before.maxSlots ∧ after.maxBytes = before.maxBytes ∧
    (before.Spare 0 → (after.Spare 0 ↔ before.LeavesRoomFor owned payload))

/-- The heap with more payload in its arenas. -/
def Heap.extended (heap : Heap) (bytes : List UInt8) (values : List Value) : Heap :=
  { heap with byteArena := heap.byteArena ++ bytes, valueArena := heap.valueArena ++ values }

lemma extended_held (h : heap.Held owned) {bytes : List UInt8} {values : List Value}
    (hr : (heap.extended bytes values).Ready) :
    (heap.extended bytes values).Held owned ∧ Keeps heap (heap.extended bytes values) := by
  have hgrows : Grows heap (heap.extended bytes values) :=
    ⟨⟨0, by simp [Heap.extended]⟩, ⟨bytes, rfl⟩, ⟨values, rfl⟩, rfl, rfl⟩
  exact ⟨⟨hgrows.sound h.sound hr, h.began, h.slots, h.bytes, h.room⟩,
    hgrows.keeps h.sound.valid (fun _ => rfl) rfl rfl⟩

/-- A payload is appended, and fits an object at its offset. -/
def Appends (mid : Heap) (append : HeapM ℕ) (object : ℕ → Object) : Prop :=
  Ends append mid
    (fun off after => ∃ bytes values, after = mid.extended bytes values ∧ after.Ready ∧
      after.Fits (object off))
    (fun after => after = mid)

/-- A slot is secured, the payload appended, the slot written and the payload charged. -/
lemma allocate_held (h : heap.Held owned) {payload : ℕ} {append : HeapM ℕ} {object : ℕ → Object}
    (hsize : ∀ off, (object off).bytes owned - objectSize ≤ payload)
    (happend : ∀ mid, mid.Held owned → Keeps heap mid → Appends mid append object) :
    Ends (ensureSlotAndBytes owned payload >>= fun _ => append >>= fun off =>
        writeAuthorizedSlot (object off) >>= fun value => charge payload >>= fun _ => pure value)
      heap (fun _ after => Served owned payload heap after)
      (fun after => Failed owned heap after) := by
  refine (ensureSlotAndBytes_held h payload).bind fun _ mid ⟨hmid, hkeeps, hlt, hspare⟩ => ?_
  refine ((happend mid hmid hkeeps).mono (fun _ _ h => h) ?_).bind fun off after
    ⟨bytes, values, hafter, hready, hfits⟩ => ?_
  · rintro after rfl
    exact ⟨hmid, hkeeps, fun h => (hspare h).1⟩
  subst hafter
  obtain ⟨hheld, hkeeps'⟩ := extended_held hmid hready
  refine (writeAuthorizedSlot_ends hheld hlt (object off) _).bind fun value after hafter => ?_
  subst hafter
  obtain ⟨hcharged, hiff⟩ := chargedFor_held hheld hlt hfits (hsize off)
    (saturatingAdd_zero _ payload)
  exact ⟨hcharged, (hkeeps.trans hkeeps').maxSlots, (hkeeps.trans hkeeps').maxBytes,
    fun h => hiff.trans (hspare h).2⟩

/-! ### Objects without a payload in the arenas -/

lemma allocInner_eq {mid : Heap} (hr : mid.Ready) (object : Object) :
    allocInner owned object mid =
      (((get : HeapM Heap) >>= fun heap =>
        if heap.cursor ≥ heap.limit then refillSpan owned else pure ()) >>= fun _ =>
          writeAuthorizedSlot object) mid := by
  show (if mid.cursor < mid.limit ∧ mid.cursor < mid.cells.length then writeAuthorizedSlot object
    else refillSpan owned >>= fun _ => writeAuthorizedSlot object) mid =
    ((if mid.cursor ≥ mid.limit then refillSpan owned else pure ()) >>= fun _ =>
      writeAuthorizedSlot object) mid
  by_cases hlt : mid.cursor < mid.limit
  · rw [if_pos ⟨hlt, (hr.vacant hlt).lt⟩, if_neg (not_le.mpr hlt)]
    rfl
  · rw [if_neg fun h => hlt h.1, if_pos (not_lt.mp hlt)]

lemma alloc_eq (h : heap.Held owned) (object : Object) :
    alloc owned object heap =
      (ensureSlotAndBytes owned (object.bytes owned - objectSize) >>= fun _ =>
        (pure 0 : HeapM ℕ) >>= fun _ => writeAuthorizedSlot object >>= fun value =>
          charge (object.bytes owned - objectSize) >>= fun _ => pure value) heap := by
  generalize hpayload : object.bytes owned - objectSize = payload
  have halloc : alloc owned object =
      (if payload ≠ 0 then preAccountDynamic owned payload else pure ()) >>= fun _ =>
        allocInner owned object >>= fun value => charge payload >>= fun _ => pure value := by
    unfold alloc
    simp only [hpayload]
    split_ifs <;> rfl
  have hensure : ensureSlotAndBytes owned payload =
      (if payload ≠ 0 then preAccountDynamic owned payload else pure ()) >>= fun _ =>
        (get : HeapM Heap) >>= fun heap =>
          if heap.cursor ≥ heap.limit then refillSpan owned else pure () := by
    unfold ensureSlotAndBytes
    split_ifs <;> rfl
  have hready : Ends (if payload ≠ 0 then preAccountDynamic owned payload else pure ()) heap
      (fun _ after => after.Ready) (fun _ => True) := by
    split_ifs
    · exact (preAccountDynamic_held h payload).mono (fun _ _ h => h.1.sound.ready)
        fun _ _ => trivial
    · exact h.sound.ready
  rw [halloc, hensure]
  simp only [bind_assoc, pure_bind]
  unfold Ends at hready
  show ((if payload ≠ 0 then preAccountDynamic owned payload else pure ()) heap >>=
      fun result => (allocInner owned object >>= fun value => charge payload >>= fun _ =>
        pure value) result.2) =
    ((if payload ≠ 0 then preAccountDynamic owned payload else pure ()) heap >>=
      fun result => ((get : HeapM Heap) >>= fun heap => (if heap.cursor ≥ heap.limit then
        refillSpan owned else pure ()) >>= fun _ => writeAuthorizedSlot object >>= fun value =>
          charge payload >>= fun _ => pure value) result.2)
  cases hrun : (if payload ≠ 0 then preAccountDynamic owned payload else pure ()) heap with
  | error failure => rfl
  | ok result =>
    rw [hrun] at hready
    have hinner := @allocInner_eq owned result.2 hready object
    show (allocInner owned object result.2 >>= fun written =>
        (charge payload >>= fun _ => pure written.1) written.2) = _
    rw [hinner]
    show ((((get : HeapM Heap) >>= fun heap =>
        if heap.cursor ≥ heap.limit then refillSpan owned else pure ()) >>= fun _ =>
          writeAuthorizedSlot object) >>= fun value => charge payload >>= fun _ =>
            pure value) result.2 = _
    simp only [bind_assoc]
    rfl

lemma alloc_held (h : heap.Held owned) {object : Object} (hb : object.byteSpan = none)
    (hv : object.valueSpan = none) :
    Ends (alloc owned object) heap
      (fun _ after => Served owned (object.bytes owned - objectSize) heap after)
      (fun after => Failed owned heap after) := by
  refine Ends.congr (alloc_eq h object) (allocate_held h (fun _ => le_rfl) ?_)
  intro mid hmid _
  exact ⟨[], [], by simp [Heap.extended], hmid.sound.ready, fits_plain hb hv⟩

lemma allocPair_held (h : heap.Held owned) {car cdr : Value}
    (hsize : (Object.pair car cdr).bytes owned - objectSize = 0) :
    Ends (allocPair owned car cdr) heap (fun _ after => Served owned 0 heap after)
      (fun after => Failed owned heap after) := by
  refine Ends.congr (allocInner_eq h.sound.ready (.pair car cdr)) ?_
  refine (ensureSlotAndBytes_held h 0).bind fun _ mid ⟨hmid, hkeeps, hlt, hspare⟩ => ?_
  refine (writeAuthorizedSlot_ends hmid hlt (.pair car cdr) _).mono ?_ fun _ h => h
  rintro value after rfl
  obtain ⟨hheld, hiff⟩ := @chargedFor_held owned mid (.pair car cdr) 0 mid.dynamicBytes hmid hlt
    (fits_plain rfl rfl) hsize.le rfl
  exact ⟨hheld, hkeeps.maxSlots, hkeeps.maxBytes, fun h => hiff.trans (hspare h).2⟩

end

section
variable {owned : Object → ℕ} {heap : Heap}

/-! ### Appending -/

lemma object_of_byteSpan {object : Object} {off len : ℕ} (h : object.byteSpan = some (off, len)) :
    object = .bytevector off len ∨ ∃ chars, object = .string off len chars := by
  cases object
  case bytevector | string =>
    cases h
    simp
  all_goals cases h

lemma extended_bytes (heap : Heap) (bytes : List UInt8) :
    ({ heap with byteArena := heap.byteArena ++ bytes } : Heap) = heap.extended bytes [] := by
  simp [Heap.extended]

lemma appends_bytes {mid : Heap} (h : mid.Held owned) (bytes : List UInt8) {object : ℕ → Object}
    (hspan : ∀ off, (object off).byteSpan = some (off, bytes.length))
    (htext : ∀ off chars, object off = .string off bytes.length chars → Utf8.IsText bytes) :
    Appends mid (byteArenaAppend bytes) object := by
  refine (byteArenaAppend_spec h.sound.ready bytes).mono ?_ fun _ h => h
  rintro off after ⟨hoff, hafter, hready⟩
  subst hoff hafter
  have hinside : span (mid.byteArena ++ bytes) mid.byteArena.length bytes.length = some bytes :=
    span_append_self _ rfl
  refine ⟨bytes, [], extended_bytes mid bytes, hready, ?_⟩
  rcases object_of_byteSpan (hspan mid.byteArena.length) with hobject | ⟨chars, hobject⟩
  · rw [hobject]
    refine fits_bytes h.sound.valid rfl rfl ⟨.bytevector bytes, ?_⟩ ?_
    · simp [Object.content, hinside]
    · simp [Object.content]
  · rw [hobject]
    refine fits_bytes h.sound.valid rfl rfl ⟨.string bytes chars, ?_⟩ ?_
    · simp [Object.content, hinside]
    · intro text chars' hc
      simp only [Object.content, hinside, Option.map_some, Option.some.injEq,
        Content.string.injEq] at hc
      exact hc.1 ▸ Utf8.isText_iff.mp (htext _ _ hobject)

lemma appends_values {mid : Heap} (h : mid.Held owned) (values : List Value) :
    Appends mid (valueArenaAppend values) fun off => .vector off values.length := by
  refine (valueArenaAppend_spec h.sound.ready values).mono ?_ fun _ h => h
  rintro off after ⟨hoff, hafter, hready⟩
  subst hoff hafter
  refine ⟨[], values, by simp [Heap.extended], hready, ?_, ?_, ?_, ?_⟩
  · exact ⟨.vector values, by simp [Object.content, span_append_self _ rfl]⟩
  · simp [Object.content]
  · intro other _ p q hp
    cases hp
  · intro other hother p q hp hq
    obtain ⟨content, hcontent⟩ := h.sound.valid.inside other hother
    cases hp
    exact .inr ((Object.span_inside hcontent).2 hq)

/-! ### Literal and filled payloads -/

lemma size_le {object : Object} {payload : ℕ}
    (h : object.bytes owned = saturatingAdd objectSize payload) :
    object.bytes owned - objectSize ≤ payload := by
  rw [h]
  unfold saturatingAdd
  omega

lemma allocBytevector_held (h : heap.Held owned) (bytes : List UInt8) :
    Ends (allocBytevector owned bytes) heap (fun _ after => Served owned bytes.length heap after)
      (fun after => Failed owned heap after) :=
  allocate_held h (fun _ => size_le rfl) fun mid hmid _ =>
    appends_bytes hmid bytes (fun _ => rfl) fun _ _ h => by cases h

lemma allocBytevectorFilled_held (h : heap.Held owned) (fill : UInt8) (count : ℕ) :
    Ends (allocBytevectorFilled owned fill count) heap
      (fun _ after => Served owned count heap after) (fun after => Failed owned heap after) :=
  allocate_held h (fun _ => size_le rfl) fun mid hmid _ =>
    appends_bytes hmid _ (fun _ => by simp [Object.byteSpan]) fun _ _ h => by cases h

lemma allocVector_held (h : heap.Held owned) (values : List Value) :
    Ends (allocVector owned values) heap
      (fun _ after => Served owned (saturatingMul values.length valueSize) heap after)
      (fun after => Failed owned heap after) :=
  allocate_held h (fun _ => size_le rfl) fun _ hmid _ => appends_values hmid values

lemma allocVectorFilled_held (h : heap.Held owned) (fill : Value) (count : ℕ) :
    Ends (allocVectorFilled owned fill count) heap
      (fun _ after => Served owned (saturatingMul count valueSize) heap after)
      (fun after => Failed owned heap after) := by
  refine allocate_held h (fun _ => size_le rfl) fun mid hmid _ => ?_
  have happend := appends_values hmid (List.replicate count fill)
  rwa [List.length_replicate] at happend

lemma allocString_held (h : heap.Held owned) (text : String) :
    Ends (allocString owned text) heap
      (fun _ after => Served owned text.toUTF8.toList.length heap after)
      (fun after => Failed owned heap after) :=
  allocate_held h (fun _ => size_le rfl) fun _ hmid _ =>
    appends_bytes hmid _ (fun _ => rfl) fun _ _ _ => Utf8.isText_iff.mpr ⟨text, rfl⟩

lemma filled_spec (fill : Char) (count : ℕ) :
    (List.replicate count (String.utf8EncodeChar fill)).flatten.length = count * fill.utf8Size ∧
      Utf8.IsText (List.replicate count (String.utf8EncodeChar fill)).flatten := by
  refine ⟨by simp, List.replicate count fill, ?_⟩
  rw [Utf8.encode_replicate]

lemma allocStringFilled_held (h : heap.Held owned) (fill : Char) (count : ℕ) :
    Ends (allocStringFilled owned fill count) heap
      (fun _ after => Served owned (count * fill.utf8Size) heap after)
      (fun after => Failed owned heap after) := by
  obtain ⟨hlength, htext⟩ := filled_spec fill count
  unfold allocStringFilled
  simp only
  split_ifs with hover hcount
  · exact ⟨h, Keeps.refl heap, fun h => h⟩
  · refine (ensureSlotAndBytes_held h (count * fill.utf8Size)).bind fun _ mid hmid => ?_
    exact ⟨hmid.1, hmid.2.1, fun h => (hmid.2.2.2 h).1⟩
  · refine allocate_held h (fun _ => size_le rfl) fun mid hmid _ => ?_
    exact appends_bytes hmid _ (fun _ => by rw [hlength]; rfl) fun _ _ _ => htext

/-! ### Concatenation -/

/-- The part is a string of these bytes, and secure. -/
def Heap.IsPart (heap : Heap) (part : Value) (text : List UInt8 × ℕ) : Prop :=
  ∃ reference immutable, part.heapRef = some reference ∧ heap.Secure reference.toNat ∧
    heap.contents reference.toNat = some (.string text.1 text.2, immutable)

lemma Keeps.isPart {after : Heap} (h : Keeps heap after) {part : Value} {text : List UInt8 × ℕ}
    (hpart : heap.IsPart part text) : after.IsPart part text := by
  obtain ⟨reference, immutable, href, hsecure, hcontents⟩ := hpart
  exact ⟨reference, immutable, href, h.secure _ hsecure, (h.contents _ hsecure).trans hcontents⟩

lemma Heap.IsPart.span {part : Value} {text : List UInt8 × ℕ} (h : heap.IsPart part text)
    (more : List UInt8) :
    ∃ off len, (heap.extended more []).stringSpan part = some (off, len) ∧
      Gc.span (heap.extended more []).byteArena off len = some text.1 := by
  obtain ⟨reference, immutable, href, -, hcontents⟩ := h
  obtain ⟨object, hslot, hc⟩ := slot_of_contents hcontents
  rw [slotsOf_getElem?] at hslot
  obtain ⟨cell, hcell, hobject⟩ := Option.map_eq_some_iff.mp hslot
  have hread : (heap.extended more []).object part = some object := by
    simp [Heap.object, Heap.extended, href, hcell, hobject]
  cases object
  case string off len chars =>
    obtain ⟨bytes, hs, hbytes⟩ := Option.map_eq_some_iff.mp hc
    obtain ⟨rfl, -⟩ := Content.string.inj hbytes
    exact ⟨off, len, by simp [Heap.stringSpan, hread], span_append_left hs more⟩
  case vector | bytevector =>
    obtain ⟨elements, -, hcontent⟩ := Option.map_eq_some_iff.mp hc
    cases hcontent
  all_goals cases hc

lemma appendParts_ends {parts : List Value} {texts : List (List UInt8 × ℕ)}
    (h : List.Forall₂ heap.IsPart parts texts) (done : List UInt8) :
    Ends (appendParts parts) (heap.extended done [])
      (fun _ after => after = heap.extended (done ++ (texts.map Prod.fst).flatten) [])
      (fun _ => False) := by
  induction h generalizing done with
  | nil =>
    change heap.extended done [] = heap.extended (done ++ []) []
    rw [List.append_nil]
  | @cons part text parts texts hpart _ ih =>
    obtain ⟨off, len, hspan, hbytes⟩ := hpart.span done
    unfold appendParts
    apply Ends.get
    simp only [hspan, hbytes]
    have hnext : ({ heap.extended done [] with
        byteArena := (heap.extended done []).byteArena ++ text.1 } : Heap) =
        heap.extended (done ++ text.1) [] := by
      simp [Heap.extended]
    rw [hnext]
    have hrest := ih (done ++ text.1)
    simp only [List.map_cons, List.flatten_cons, ← List.append_assoc]
    exact hrest

lemma parts_text (hv : heap.Valid) {parts : List Value} {texts : List (List UInt8 × ℕ)}
    (h : List.Forall₂ heap.IsPart parts texts) :
    Utf8.IsText (texts.map Prod.fst).flatten := by
  induction h with
  | nil => exact ⟨[], rfl⟩
  | @cons part text parts texts hpart _ ih =>
    obtain ⟨reference, immutable, -, -, hcontents⟩ := hpart
    obtain ⟨object, hslot, hc⟩ := slot_of_contents hcontents
    obtain ⟨first, hfirst⟩ := Utf8.isText_iff.mpr
      (hv.text object (List.mem_of_getElem? hslot) text.1 text.2 hc)
    obtain ⟨rest, hrest⟩ := ih
    exact ⟨first ++ rest, by simp [hfirst, hrest]⟩

/-- The parts are checked strings, and the sizes those of their concatenation. -/
def Heap.Checked (heap : Heap) (parts : List Value) (totalBytes totalChars : ℕ) : Prop :=
  ∃ texts, List.Forall₂ heap.IsPart parts texts ∧
    totalBytes = (texts.map fun text => text.1.length).sum ∧
    totalChars = (texts.map Prod.snd).sum

lemma appends_parts {mid : Heap} (h : mid.Held owned) {parts : List Value}
    {totalBytes totalChars : ℕ} (hparts : mid.Checked parts totalBytes totalChars) :
    Appends mid (do
      let heap ← (get : HeapM Heap)
      let off ← arenaOffset heap.byteArena.length totalBytes
      appendParts parts
      return off) fun off => .string off totalBytes totalChars := by
  obtain ⟨texts, htexts, htotal, -⟩ := hparts
  have hlength : totalBytes = (texts.map Prod.fst).flatten.length := by
    rw [htotal, List.length_flatten, List.map_map]
    rfl
  have happend := @appends_bytes owned mid h (texts.map Prod.fst).flatten
    (fun off => .string off totalBytes totalChars) (fun _ => by rw [hlength]; rfl)
    fun _ _ _ => parts_text h.sound.valid htexts
  unfold Appends byteArenaAppend arenaOffset at happend
  unfold Appends arenaOffset
  rw [← hlength] at happend
  show Ends ((if mid.byteArena.length + totalBytes > u32Max then
    raise (heapLimit "payload arena exhausted") else pure mid.byteArena.length) >>= fun off =>
      appendParts parts >>= fun _ => pure off) mid _ _
  replace happend : Ends ((if mid.byteArena.length + totalBytes > u32Max then
    raise (heapLimit "payload arena exhausted") else pure mid.byteArena.length) >>= fun off =>
      set ({ mid with byteArena := mid.byteArena ++ (texts.map Prod.fst).flatten } : Heap) >>=
        fun _ => pure off) mid _ _ := happend
  have hsame : mid = mid.extended [] [] := by simp [Heap.extended]
  split_ifs at happend ⊢ with hover
  · exact rfl
  · have hparts := appendParts_ends htexts []
    rw [← hsame, List.nil_append] at hparts
    rw [pure_bind]
    refine (hparts.mono (fun _ _ h => h) fun _ h => h.elim).bind fun _ after hafter => ?_
    subst hafter
    obtain ⟨bytes, values, hafter, hready, hfits⟩ := happend
    rw [extended_bytes] at hready hfits
    exact ⟨_, [], rfl, hready, hfits⟩

lemma allocStringConcat_eq (parts : List Value) (totalBytes totalChars : ℕ) :
    allocStringConcat owned parts totalBytes totalChars =
      ensureSlotAndBytes owned totalBytes >>= fun _ => (do
        let heap ← (get : HeapM Heap)
        let off ← arenaOffset heap.byteArena.length totalBytes
        appendParts parts
        return off) >>= fun off => writeAuthorizedSlot (.string off totalBytes totalChars) >>=
          fun value => charge totalBytes >>= fun _ => pure value := by
  unfold allocStringConcat
  simp only [bind_assoc, pure_bind]

lemma allocStringConcat_held (h : heap.Held owned) {parts : List Value}
    {totalBytes totalChars : ℕ} (hparts : heap.Checked parts totalBytes totalChars) :
    Ends (allocStringConcat owned parts totalBytes totalChars) heap
      (fun _ after => Served owned totalBytes heap after)
      (fun after => Failed owned heap after) := by
  rw [allocStringConcat_eq]
  refine allocate_held h (fun _ => size_le rfl) fun mid hmid hkeeps => appends_parts hmid ?_
  obtain ⟨texts, htexts, hsizes⟩ := hparts
  exact ⟨texts, htexts.imp fun _ _ hpart => hkeeps.isPart hpart, hsizes⟩

end

end Neetan.Gc
