import Neetan.SaveState
import Mathlib.Tactic.Linarith

/-!
Every save-state codec is self-delimiting.

A codec is lawful when its decoder reads the encoding of each value whose collections are
within the limits, and is stable. Each way to build a codec keeps lawfulness, so the codec of
every state type is lawful; a payload then has one decoding, and a proper part or extension
of an encoding has none.
-/

namespace Neetan.SaveState

open Neetan.LittleEndian Neetan.OrderedMap

variable {host : Host} {α β σ ε κ : Type}

/-- The limits that every value of the host meets. -/
def Limits.top (host : Host) : Limits := ⟨host.usizeSize, fun _ => true⟩

/-- A length that the limits admit and the allocator grants. -/
def Limits.Admits (limits : Limits) (length : ℕ) : Prop :=
  length ≤ limits.maximumCollectionLength ∧ limits.grants length = true

/-- The collections of a value, at any depth, are within the limits. -/
def StateType.Within : {α : Type} → StateType host α → Limits → α → Prop
  | _, .option state, limits, value => ∀ v ∈ value, state.Within limits v
  | _, .pair first second, limits, value =>
    first.Within limits value.1 ∧ second.Within limits value.2
  | _, .vec state, limits, values | _, .vecDeque state, limits, values
  | _, .boxedSlice state, limits, values =>
    limits.Admits values.toList.length ∧ ∀ v ∈ values.toList, state.Within limits v
  | _, @StateType.btreeMap _ _ _ _ key value, limits, values =>
    values.map.size ≤ limits.maximumCollectionLength ∧
      ∀ e ∈ values.map.entries, key.Within limits e.1 ∧ value.Within limits e.2
  | _, @StateType.btreeSet _ _ _ value, limits, values =>
    values.map.size ≤ limits.maximumCollectionLength ∧
      ∀ e ∈ values.map.entries, value.Within limits e.1
  | _, .array length state, limits, values | _, .boxedArray length state, limits, values =>
    limits.grants length = true ∧ ∀ v ∈ values.toList, state.Within limits v
  | _, .string, limits, value => limits.Admits value.text.toByteArray.size
  | _, .runtimeState fields e, limits, value => fields.Within limits (e value)
  | _, .integer _, _, _ | _, .usize, _, _ | _, .bool, _, _ | _, .f32, _, _ | _, .f64, _, _
  | _, .noFields, _, _ | _, .runtimeStateEnum _, _, _ => True

/-- The decoder reads the encoding of every value within the limits, and is stable. -/
structure Lawful (state : StateCodec host α) (within : Limits → α → Prop) : Prop where
  reads : ∀ limits v, within limits v → Reads state.decodeState limits (state.encodeState v) v
  stable : Stable state.decodeState
  top : ∀ v, within (Limits.top host) v

/-! ### Scalars -/

lemma integer_lt (t : IntegerType) (v : BitVec (8 * t.bytes)) : v.toNat < 256 ^ t.bytes := by
  have h := v.isLt
  rwa [pow_mul] at h

lemma lawful_integer (t : IntegerType) : Lawful (integer host t) fun _ _ => True where
  reads limits v _ := by
    have h := reads_map (BitVec.ofNat (8 * t.bytes) ∘ fromLe)
      (reads_take host limits (toLe t.bytes v.toNat))
    rw [length_toLe, Function.comp_apply, fromLe_toLe_of_lt (integer_lt t v),
      BitVec.ofNat_toNat, BitVec.setWidth_eq] at h
    exact h
  stable := stable_map _ (stable_take _)
  top _ := trivial

lemma lawful_u8 : Lawful (u8 : StateCodec host _) fun _ _ => True := lawful_integer .u8

lemma reads_integer_bind (t : IntegerType) {n : ℕ} {k : BitVec (8 * t.bytes) → Decode host α}
    {limits : Limits} {bytes : List UInt8} {w : α} (h : n < 2 ^ (8 * t.bytes))
    (hk : ∀ v : BitVec (8 * t.bytes), v.toNat = n → Reads (k v) limits bytes w) :
    Reads ((integer host t).decodeState >>= k) limits
      ((integer host t).encodeState (BitVec.ofNat _ n) ++ bytes) w :=
  reads_bind ((lawful_integer t).reads limits _ trivial)
    (hk _ (by rw [BitVec.toNat_ofNat, Nat.mod_eq_of_lt h]))

lemma reads_usize (limits : Limits) (v : Fin host.usizeSize) :
    Reads usize.decodeState limits (usize.encodeState v) v := by
  have hv : v.val < 2 ^ 64 :=
    v.isLt.trans_le (Nat.pow_le_pow_right (by omega) host.usizeBits_le)
  rw [← List.append_nil (usize.encodeState v)]
  refine reads_integer_bind .u64 hv fun value hval => ?_
  have : (⟨value.toNat, hval ▸ v.isLt⟩ : Fin host.usizeSize) = v := Fin.ext hval
  rw [dif_pos (hval ▸ v.isLt), this]
  exact reads_pure limits v

lemma lawful_usize : Lawful (usize : StateCodec host _) fun _ _ => True where
  reads limits v _ := reads_usize limits v
  stable := by
    refine stable_bind (lawful_integer .u64).stable fun value => ?_
    split
    · exact stable_pure _
    · exact stable_throw _
  top _ := trivial

lemma lawful_bool : Lawful (bool : StateCodec host _) fun _ _ => True where
  reads limits v _ := by
    rw [← List.append_nil (bool.encodeState v)]
    refine reads_integer_bind .u8 (by cases v <;> decide) fun tag htag => ?_
    rw [htag]
    cases v
    · exact reads_pure limits false
    · exact reads_pure limits true
  stable := by
    refine stable_bind (lawful_integer .u8).stable fun tag => ?_
    split
    · exact stable_pure _
    · exact stable_pure _
    · exact stable_throw _
  top _ := trivial

lemma lawful_f32 : Lawful (f32 : StateCodec host _) fun _ _ => True where
  reads limits v _ := reads_map BitFloat.mk ((lawful_integer .u32).reads limits v.bits trivial)
  stable := stable_map _ (lawful_integer .u32).stable
  top _ := trivial

lemma lawful_f64 : Lawful (f64 : StateCodec host _) fun _ _ => True where
  reads limits v _ := reads_map BitFloat.mk ((lawful_integer .u64).reads limits v.bits trivial)
  stable := stable_map _ (lawful_integer .u64).stable
  top _ := trivial

/-! ### Options, pairs and structures -/

section Composite

variable {state : StateCodec host α} {within : Limits → α → Prop}
  {second : StateCodec host β} {within' : Limits → β → Prop}

lemma lawful_option (hs : Lawful state within) :
    Lawful (option state) fun limits value => ∀ v ∈ value, within limits v where
  reads limits v hv := by
    cases v with
    | none =>
      rw [← List.append_nil ((option state).encodeState none)]
      refine reads_integer_bind .u8 (by decide) fun tag htag => ?_
      rw [htag]
      exact reads_pure limits none
    | some v =>
      refine reads_integer_bind .u8 (by decide) fun tag htag => ?_
      rw [htag]
      exact reads_map some (hs.reads limits v (hv v rfl))
  stable := by
    refine stable_bind (lawful_integer .u8).stable fun tag => ?_
    split
    · exact stable_pure _
    · exact stable_map _ hs.stable
    · exact stable_throw _
  top v w _ := hs.top w

lemma lawful_pair (hs : Lawful state within) (hs' : Lawful second within') :
    Lawful (pair state second) fun limits value =>
      within limits value.1 ∧ within' limits value.2 where
  reads limits v hv := reads_bind (hs.reads limits v.1 hv.1)
    (reads_map (fun b => (v.1, b)) (hs'.reads limits v.2 hv.2))
  stable := stable_bind hs.stable fun _ => stable_map _ hs'.stable
  top v := ⟨hs.top v.1, hs'.top v.2⟩

lemma lawful_noFields : Lawful (noFields : StateCodec host Unit) fun _ _ => True where
  reads limits v _ := reads_pure limits v
  stable := stable_pure ()
  top _ := trivial

lemma lawful_runtimeState (hs : Lawful state within) (e : σ ≃ α) :
    Lawful (runtimeState state e) fun limits value => within limits (e value) where
  reads limits v hv := by
    have h := reads_map e.symm (hs.reads limits (e v) hv)
    rwa [e.symm_apply_apply] at h
  stable := stable_map _ hs.stable
  top v := hs.top (e v)

end Composite

lemma lookup_tag (tags : EnumTags ε) (e : ε) : tags.variants.lookup (tags.tag e) = some e := by
  have key : ∀ l : List (BitVec 32 × ε), (l.map Prod.fst).Nodup → (tags.tag e, e) ∈ l →
      l.lookup (tags.tag e) = some e := by
    intro l
    induction l with
    | nil => simp
    | cons a l ih =>
      intro hn hm
      rw [List.map_cons, List.nodup_cons] at hn
      rcases List.mem_cons.mp hm with rfl | hm
      · simp
      · have ha : tags.tag e ≠ a.1 := fun hc => hn.1 (hc ▸ List.mem_map_of_mem hm)
        rw [List.lookup_cons, beq_false_of_ne ha]
        exact ih hn.2 hm
  exact key _ tags.tags_nodup (tags.tag_mem e)

lemma reads_decodeTag (tags : EnumTags ε) (limits : Limits) (e : ε) :
    Reads (tags.decodeTag (tags.tag e) : Decode host ε) limits [] e := by
  rw [EnumTags.decodeTag, lookup_tag]
  exact reads_pure limits e

lemma stable_decodeTag (tags : EnumTags ε) (tag : BitVec 32) :
    Stable (tags.decodeTag tag : Decode host ε) := by
  unfold EnumTags.decodeTag
  split
  · exact stable_pure _
  · exact stable_throw _

lemma lawful_runtimeStateEnum (tags : EnumTags ε) :
    Lawful (runtimeStateEnum tags : StateCodec host ε) fun _ _ => True where
  reads limits v _ := by
    rw [← List.append_nil ((runtimeStateEnum tags).encodeState v)]
    exact reads_bind ((lawful_integer .u32).reads limits (tags.tag v) trivial)
      (reads_decodeTag tags limits v)
  stable := stable_bind (lawful_integer .u32).stable fun tag => stable_decodeTag tags tag
  top _ := trivial

/-! ### Collections -/

section Collections

variable {state : StateCodec host α} {within : Limits → α → Prop}

lemma reads_decodeN (hs : Lawful state within) (limits : Limits) (n : ℕ) (vs : List.Vector α n)
    (hv : ∀ v ∈ vs.toList, within limits v) :
    Reads (decodeN state n) limits (encodeAll state vs.toList) vs := by
  induction n with
  | zero =>
    obtain rfl : vs = List.Vector.nil := vs.eq_nil
    exact reads_pure limits _
  | succ n ih =>
    obtain ⟨v, vs, rfl⟩ := vs.exists_eq_cons
    rw [List.Vector.toList_cons] at hv ⊢
    exact reads_bind (hs.reads limits v (hv v List.mem_cons_self))
      (reads_map (v ::ᵥ ·) (ih vs fun w hw => hv w (List.mem_cons_of_mem _ hw)))

lemma stable_decodeN (hs : Lawful state within) (n : ℕ) : Stable (decodeN state n) := by
  induction n with
  | zero => exact stable_pure _
  | succ n ih => exact stable_bind hs.stable fun v => stable_map _ ih

lemma lawful_vec (hs : Lawful state within) :
    Lawful (vec state) fun limits values =>
      limits.Admits values.toList.length ∧ ∀ v ∈ values.toList, within limits v where
  reads limits values hv := by
    obtain ⟨⟨hl, hg⟩, hv⟩ := hv
    refine reads_bind (reads_usize limits _) ?_
    refine reads_bind_nil (reads_checkLength hl) ?_
    refine reads_bind_nil (reads_tryReserveExact hg) ?_
    exact reads_map _ (reads_decodeN hs limits _ ⟨values.toList, rfl⟩ hv)
  stable := by
    refine stable_bind lawful_usize.stable fun length => ?_
    refine stable_bind (stable_checkLength _) fun _ => ?_
    refine stable_bind (stable_tryReserveExact _) fun _ => ?_
    exact stable_map _ (stable_decodeN hs _)
  top values := ⟨⟨values.length_lt.le, rfl⟩, fun v _ => hs.top v⟩

lemma lawful_array (length : ℕ) (hs : Lawful state within) :
    Lawful (array length state) fun limits values =>
      limits.grants length = true ∧ ∀ v ∈ values.toList, within limits v where
  reads limits values hv :=
    reads_bind_nil (reads_tryReserveExact hv.1) (reads_decodeN hs limits length values hv.2)
  stable := stable_bind (stable_tryReserveExact _) fun _ => stable_decodeN hs length
  top _ := ⟨rfl, fun v _ => hs.top v⟩

end Collections

lemma encodeAll_bytes (bytes : List UInt8) :
    encodeAll (u8 : StateCodec host _) (bytes.map UInt8.toBitVec) = bytes := by
  induction bytes with
  | nil => rfl
  | cons b bs ih =>
    have hb : (u8 : StateCodec host _).encodeState b.toBitVec = [b] := by
      change [UInt8.ofNat b.toNat] = [b]
      rw [UInt8.ofNat_toNat]
    rw [List.map_cons, encodeAll, List.flatMap_cons, hb]
    exact congrArg (b :: ·) ih

/-- The bytes of a string, as a vector of integers. -/
def StateString.toVec (value : StateString host) : Vec host (BitVec 8) :=
  ⟨value.text.toByteArray.data.toList.map UInt8.toBitVec, by
    rw [List.length_map]
    exact value.size_lt⟩

lemma fromUtf8_toVec (value : StateString host) :
    StateString.fromUtf8 value.toVec = (pure value : Decode host _) := by
  have hdata : (⟨(value.toVec.toList.map UInt8.ofBitVec).toArray⟩ : ByteArray) =
      value.text.toByteArray := by
    simp [StateString.toVec, Function.comp_def]
  have hvalid := value.text.isValidUTF8
  unfold StateString.fromUtf8
  simp only [hdata]
  rw [dif_pos hvalid]
  rfl

lemma stable_fromUtf8 (bytes : Vec host (BitVec 8)) : Stable (StateString.fromUtf8 bytes) := by
  unfold StateString.fromUtf8
  dsimp only
  split
  · exact stable_pure _
  · exact stable_throw _

lemma lawful_string : Lawful (string : StateCodec host _) fun limits value =>
    limits.Admits value.text.toByteArray.size where
  reads limits value hv := by
    have h := (lawful_vec lawful_u8).reads limits value.toVec
      ⟨by rwa [StateString.toVec, List.length_map], fun _ _ => trivial⟩
    have henc : (vec u8).encodeState value.toVec = string.encodeState value := by
      simp only [vec, string, StateString.toVec, encodeAll_bytes, List.length_map]
      rfl
    have hr := reads_bind (k := StateString.fromUtf8) h
      (fromUtf8_toVec value ▸ reads_pure limits value)
    rwa [List.append_nil, henc] at hr
  stable := stable_bind (lawful_vec lawful_u8).stable fun bytes => stable_fromUtf8 bytes
  top value := ⟨value.size_lt.le, rfl⟩

section Maps

variable [LinearOrder κ] {key : StateCodec host κ} {within : Limits → κ → Prop}
  {value : StateCodec host β} {within' : Limits → β → Prop}

lemma reads_decodeEntries (hk : Lawful key within) (hv : Lawful value within') (limits : Limits)
    (n : ℕ) (values : BTreeMap κ β) (es : List (κ × β)) (hn : es.length = n)
    (hs : (values.entries ++ es).Pairwise (fun a b => a.1 < b.1))
    (hw : ∀ e ∈ es, within limits e.1 ∧ within' limits e.2) :
    ∃ m, m.1.entries = values.entries ++ es ∧
      Reads (decodeEntries key.decodeState value.decodeState n values) limits
        (encodeAll (pair key value) es) m := by
  induction n generalizing values es with
  | zero =>
    obtain rfl := List.eq_nil_of_length_eq_zero hn
    exact ⟨⟨values, le_rfl⟩, by simp, reads_pure limits _⟩
  | succ n ih =>
    obtain ⟨⟨k, v⟩, es, rfl⟩ := List.exists_cons_of_length_eq_add_one hn
    have hlt : ∀ e ∈ values.entries, e.1 < k := fun e he =>
      (List.pairwise_append.mp hs).2.2 e he (k, v) List.mem_cons_self
    have hnew : (values.insert k v).1 = none := BTreeMap.get_eq_none.mpr fun e he => (hlt e he).ne
    have hins : (values.insert k v).2.entries = values.entries ++ [(k, v)] := insertEntry_of_lt hlt
    obtain ⟨m, hm, hr⟩ := ih (values.insert k v).2 es (by simpa using hn)
      (by rwa [hins, List.append_assoc]) fun e he => hw e (List.mem_cons_of_mem _ he)
    have hsize := values.size_insert_le k v
    refine ⟨⟨m.1, m.2.trans (by omega)⟩, by rw [hm, hins, List.append_assoc]; rfl, ?_⟩
    have hkv := hw (k, v) List.mem_cons_self
    change Reads _ limits ((key.encodeState k ++ value.encodeState v) ++ _) _
    rw [List.append_assoc]
    refine reads_bind (hk.reads limits k hkv.1) (reads_bind (hv.reads limits v hkv.2) ?_)
    rw [hnew]
    exact reads_map _ hr

lemma stable_decodeEntries (hk : Lawful key within) (hv : Lawful value within') (n : ℕ)
    (values : BTreeMap κ β) :
    Stable (decodeEntries key.decodeState value.decodeState n values) := by
  induction n generalizing values with
  | zero => exact stable_pure _
  | succ n ih =>
    refine stable_bind hk.stable fun k => stable_bind hv.stable fun v => ?_
    split
    · exact stable_throw _
    · exact stable_map _ (ih _)

lemma lawful_entriesCodec (hk : Lawful key within) (hv : Lawful value within') :
    Lawful (entriesCodec key value) fun limits values =>
      values.map.size ≤ limits.maximumCollectionLength ∧
        ∀ e ∈ values.map.entries, within limits e.1 ∧ within' limits e.2 where
  reads limits values hw := by
    obtain ⟨m, hm, hr⟩ := reads_decodeEntries hk hv limits values.map.size BTreeMap.empty
      values.map.entries rfl values.map.sorted hw.2
    refine reads_bind (reads_usize limits _) ?_
    refine reads_bind_nil (reads_checkLength hw.1) ?_
    have hmap : m.1 = values.map := by
      obtain ⟨⟨es, _⟩, _⟩ := m
      obtain ⟨⟨es', _⟩, _⟩ := values
      simpa [BTreeMap.empty] using hm
    have h := reads_map (fun r => (⟨r.1, r.2.trans_lt (by
      simpa [BTreeMap.empty, BTreeMap.size] using values.size_lt)⟩ : StateMap host κ β)) hr
    simp only [hmap] at h
    exact h
  stable := by
    refine stable_bind lawful_usize.stable fun length => ?_
    refine stable_bind (stable_checkLength _) fun _ => ?_
    exact stable_map _ (stable_decodeEntries hk hv _ _)
  top values := ⟨values.size_lt.le, fun e _ => ⟨hk.top e.1, hv.top e.2⟩⟩

end Maps

/-! ### State types -/

lemma lawful_codec (state : StateType host α) : Lawful state.codec state.Within := by
  induction state with
  | integer t => exact lawful_integer t
  | usize => exact lawful_usize
  | bool => exact lawful_bool
  | f32 => exact lawful_f32
  | f64 => exact lawful_f64
  | option state ih => exact lawful_option ih
  | pair first second ih ih' => exact lawful_pair ih ih'
  | vec state ih => exact lawful_vec ih
  | vecDeque state ih => exact lawful_vec ih
  | boxedSlice state ih => exact lawful_vec ih
  | btreeMap key value ih ih' => exact lawful_entriesCodec ih ih'
  | btreeSet value ih =>
    have h := lawful_entriesCodec ih lawful_noFields
    exact ⟨fun limits v hv => h.reads limits v ⟨hv.1, fun e he => ⟨hv.2 e he, trivial⟩⟩,
      h.stable, fun v => ⟨(h.top v).1, fun e he => ((h.top v).2 e he).1⟩⟩
  | array length state ih => exact lawful_array length ih
  | boxedArray length state ih => exact lawful_array length ih
  | string => exact lawful_string
  | noFields => exact lawful_noFields
  | runtimeState fields e ih => exact lawful_runtimeState ih e
  | runtimeStateEnum tags => exact lawful_runtimeStateEnum tags

lemma decodeRuntimeState_ok_iff (state : StateType host α) (input : Payload host)
    (limits : Limits) (value : α) :
    decodeRuntimeState state input limits = .ok value ↔
      ∃ decoder, state.codec.decodeState (StateDecoder.new input limits) = .ok (value, decoder) ∧
        decoder.isFinished = true := by
  unfold decodeRuntimeState
  cases h : state.codec.decodeState (StateDecoder.new input limits) with
  | error e => simp [bind, Except.bind]
  | ok p =>
    obtain ⟨v, decoder⟩ := p
    cases hf : decoder.isFinished <;>
      simp [bind, Except.bind, pure, Except.pure, hf, throw, throwThe, MonadExceptOf.throw]

lemma reads_of_decodeRuntimeState {state : StateType host α} {input : Payload host}
    {limits : Limits} {value : α} (h : decodeRuntimeState state input limits = .ok value) :
    Reads state.codec.decodeState limits input.bytes value := by
  obtain ⟨decoder, hd, hf⟩ := (decodeRuntimeState_ok_iff state input limits value).mp h
  obtain ⟨bytes, rest, hb, ha, hr⟩ := (lawful_codec state).stable _ _ _ hd
  have hrest : rest = [] := by
    have hdrop := ha.drop hb
    rwa [of_decide_eq_true hf, List.drop_length, eq_comm] at hdrop
  have hbytes : input.bytes = bytes := by
    rw [hrest, List.append_nil] at hb
    exact hb
  rwa [hbytes]

/-- The limits that allow what one of two limits allows. -/
def Limits.join (a b : Limits) : Limits :=
  ⟨max a.maximumCollectionLength b.maximumCollectionLength, fun n => a.grants n || b.grants n⟩

/-- Of the byte strings that a payload starts with, a decoder reads at most one. -/
lemma reads_length_unique {dec : Decode host α} {limits limits' : Limits}
    {bytes bytes' rest rest' : List UInt8} {v v' : α} (h : Reads dec limits bytes v)
    (h' : Reads dec limits' bytes' v') (input : Payload host) (hi : input.bytes = bytes ++ rest)
    (hi' : input.bytes = bytes' ++ rest') : bytes.length = bytes'.length := by
  have hl : limits ≤ limits.join limits' := ⟨le_max_left _ _, fun n hn => by simp [Limits.join, hn]⟩
  have hl' : limits' ≤ limits.join limits' :=
    ⟨le_max_right _ _, fun n hn => by simp [Limits.join, hn]⟩
  obtain ⟨decoder, hd, ha⟩ := h (StateDecoder.new input (limits.join limits')) rest hl hi
  obtain ⟨decoder', hd', ha'⟩ := h' (StateDecoder.new input (limits.join limits')) rest' hl' hi'
  rw [hd] at hd'
  obtain ⟨-, rfl⟩ : v = v' ∧ decoder = decoder' := by simpa using hd'
  have hp := ha.2.2
  have hp' := ha'.2.2
  omega

/-- A payload that holds the encoding of a value within the limits decodes to this value. -/
lemma decodeRuntimeState_encode (state : StateType host α) {value : α} {limits : Limits}
    (hw : state.Within limits value) (payload : Payload host)
    (hp : payload.bytes = encodeRuntimeState state value) :
    decodeRuntimeState state payload limits = .ok value := by
  obtain ⟨decoder, hd, ha⟩ := (lawful_codec state).reads limits value hw
    (StateDecoder.new payload limits) [] ⟨le_rfl, fun _ => id⟩ (by rw [List.append_nil]; exact hp)
  refine (decodeRuntimeState_ok_iff state payload limits value).mpr ⟨decoder, hd, ?_⟩
  obtain ⟨hi, -, hpos⟩ := ha
  rw [StateDecoder.isFinished, decide_eq_true_eq, hpos, hi]
  have := congrArg List.length hp
  simp only [StateDecoder.new, encodeRuntimeState] at this ⊢
  omega

/-- A payload that decodes shares no start or continuation with another encoding. -/
lemma decodeRuntimeState_not_comparable (state : StateType host α) (value : α)
    {encoding other : Payload host} {limits : Limits}
    (he : encoding.bytes = encodeRuntimeState state value) (hne : other.bytes ≠ encoding.bytes)
    (hc : other.bytes <+: encoding.bytes ∨ encoding.bytes <+: other.bytes) :
    ∃ e, decodeRuntimeState state other limits = .error e := by
  cases hd : decodeRuntimeState state other limits with
  | error e => exact ⟨e, rfl⟩
  | ok value' =>
    exfalso
    have hr := reads_of_decodeRuntimeState hd
    have hr' := (lawful_codec state).reads _ value ((lawful_codec state).top value)
    change Reads _ _ (encodeRuntimeState state value) _ at hr'
    rw [← he] at hr'
    rcases hc with ⟨rest, hrest⟩ | ⟨rest, hrest⟩
    · have hlen := reads_length_unique hr hr' encoding hrest.symm (List.append_nil _).symm
      exact hne (List.IsPrefix.eq_of_length ⟨rest, hrest⟩ hlen)
    · have hlen := reads_length_unique hr hr' other (List.append_nil _).symm hrest.symm
      exact hne (List.IsPrefix.eq_of_length ⟨rest, hrest⟩ hlen.symm).symm

/-- **The save-state codec.** For every state type: a payload that holds the encoding of a
value within the limits decodes to the value; a payload that decodes is consumed entirely; a
proper prefix or extension of an encoding does not decode. -/
theorem save_state_round_trip (state : StateType host α) :
    (∀ (value : α) (limits : Limits) (payload : Payload host), state.Within limits value →
      payload.bytes = encodeRuntimeState state value →
      decodeRuntimeState state payload limits = .ok value) ∧
    (∀ (payload : Payload host) (limits : Limits) (value : α),
      decodeRuntimeState state payload limits = .ok value →
      ∃ decoder, state.codec.decodeState (StateDecoder.new payload limits) = .ok (value, decoder) ∧
        decoder.isFinished = true) ∧
    (∀ (value : α) (encoding other : Payload host) (limits : Limits),
      encoding.bytes = encodeRuntimeState state value → other.bytes ≠ encoding.bytes →
      (other.bytes <+: encoding.bytes ∨ encoding.bytes <+: other.bytes) →
      ∃ e, decodeRuntimeState state other limits = .error e) :=
  ⟨fun _ _ payload hw hp => decodeRuntimeState_encode state hw payload hp,
    fun payload limits value h => (decodeRuntimeState_ok_iff state payload limits value).mp h,
    fun value _ _ _ he hne hc => decodeRuntimeState_not_comparable state value he hne hc⟩

/-- The round trip of a vector of bytes on a 64-bit host. -/
theorem save_state_round_trip_bytes :
    decodeRuntimeState (.vec (.integer .u8) : StateType ⟨64, le_rfl⟩ _)
      ⟨[2, 0, 0, 0, 0, 0, 0, 0, 7, 255], by decide⟩ ⟨2, fun n => n ≤ 16⟩ =
      .ok ⟨[(7 : BitVec 8), (255 : BitVec 8)], by decide⟩ :=
  (save_state_round_trip (.vec (.integer .u8) : StateType ⟨64, le_rfl⟩ _)).1 _ _ _
    ⟨⟨by decide, rfl⟩, fun _ _ => trivial⟩ (by decide)

end Neetan.SaveState
