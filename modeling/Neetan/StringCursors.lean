import Neetan.HeapAllocate
import Neetan.Utf8
import Mathlib.Tactic.IntervalCases

/-!
The walk to a character of a string, from its start, from its end or from a cached position,
and the two positions a heap caches.

Every offset is relative to the span of the string. A cached position is only a hint: the
walk from any character boundary ends at the same byte.
-/

namespace Neetan.StringCursor

open Neetan.Gc
open Neetan.Utf8 (isContinuation)

/-! ### The walk -/

/-- A resolved position: the index of a character and its byte offset. -/
abbrev CursorHint := ℕ × ℕ

/-- The nearest of the two ends and the hint. -/
def anchor (bytes : List UInt8) (chars index : ℕ) (hint : Option CursorHint) : CursorHint :=
  let nearer := if chars - index < index then (chars, bytes.length) else (0, 0)
  let distance := if chars - index < index then chars - index else index
  match hint with
  | some (hintChar, hintByte) =>
    if hintChar - index + (index - hintChar) < distance then (hintChar, hintByte) else nearer
  | none => nearer

def charToByte (bytes : List UInt8) (chars index : ℕ) (hint : Option CursorHint) : ℕ :=
  let (anchorChar, anchorByte) := anchor bytes chars index hint
  if index ≥ anchorChar then (stepForward bytes)^[index - anchorChar] anchorByte
  else (stepBack bytes)^[anchorChar - index] anchorByte

/-- The character, and the position to cache. -/
def charAt (bytes : List UInt8) (chars index : ℕ) (hint : Option CursorHint) :
    Option (Char × CursorHint) :=
  if index ≥ chars then none
  else if bytes.length = chars then
    bytes[index]?.map fun byte => (Char.ofNat byte.toNat, (index, index))
  else
    let offset := charToByte bytes chars index hint
    (decodeCharAt bytes offset).map fun value => (value, (index, offset))

/-- The caller has checked `start ≤ stop ≤ chars`. -/
def charRangeToBytes (bytes : List UInt8) (chars start stop : ℕ) (hint : Option CursorHint) :
    ℕ × ℕ :=
  if bytes.length = chars then (start, stop)
  else
    let first := charToByte bytes chars start hint
    (first, charToByte bytes chars stop (some (start, first)))

/-! ### The cache -/

structure CursorEntry where
  slot : ℕ
  charIndex : ℕ
  byteOffset : ℕ
  deriving DecidableEq, Repr

namespace CursorEntry

/-- No slot has this index. -/
def empty : CursorEntry := ⟨u32Max, 0, 0⟩

def position (entry : CursorEntry) : CursorHint := (entry.charIndex, entry.byteOffset)

end CursorEntry

/-- The two entries, the newer one first unless a slot has kept its place. -/
structure StringCursors where
  first : CursorEntry
  second : CursorEntry
  deriving DecidableEq, Repr

namespace StringCursors

def new : StringCursors := ⟨.empty, .empty⟩

def lookup (cursors : StringCursors) (slot : ℕ) : Option CursorHint :=
  if cursors.first.slot = slot then some cursors.first.position
  else if cursors.second.slot = slot then some cursors.second.position
  else none

/-- A position that does not fit stays uncached; a slot that is not cached takes the place of
the older entry. -/
def store (cursors : StringCursors) (slot : ℕ) (position : CursorHint) : StringCursors :=
  if position.1 > u32Max ∨ position.2 > u32Max then cursors
  else
    let entry : CursorEntry := ⟨slot, position.1, position.2⟩
    let shifted : StringCursors :=
      if cursors.first.slot ≠ slot ∧ cursors.second.slot ≠ slot then
        { cursors with second := cursors.first }
      else cursors
    if shifted.second.slot = slot then { shifted with second := entry }
    else { shifted with first := entry }

def clear (_ : StringCursors) : StringCursors := ⟨.empty, .empty⟩

end StringCursors

/-! ### Encoded characters -/

lemma isContinuation_ofNat (k : ℕ) : isContinuation (UInt8.ofNat (k % 64 + 0x80)) = true := by
  have h : k % 64 < 64 := Nat.mod_lt _ (by decide)
  interval_cases k % 64 <;> decide

lemma isContinuation_of_lt {byte : UInt8} (h : byte.toNat < 0x80 ∨ 0xC0 ≤ byte.toNat) :
    isContinuation byte = false := by
  have hall : ∀ k : Fin 256, k.val < 0x80 ∨ 0xC0 ≤ k.val →
      isContinuation (UInt8.ofNat k.val) = false := by decide +kernel
  have hbyte := hall ⟨byte.toNat, byte.toNat_lt⟩ h
  simpa using hbyte

/-- The width the first byte of a character announces. -/
def leadWidth (lead : UInt8) : ℕ :=
  if lead ≤ 0x7F then 1
  else if 0xC2 ≤ lead ∧ lead ≤ 0xDF then 2
  else if 0xE0 ≤ lead ∧ lead ≤ 0xEF then 3
  else 4

/-- An encoded character is a first byte, which announces its width, and continuation bytes. -/
structure Encoded (lead : UInt8) (tail : List UInt8) : Prop where
  first : isContinuation lead = false
  rest : ∀ byte ∈ tail, isContinuation byte = true
  width : leadWidth lead = tail.length + 1

lemma encoded_of_toNat {lead : UInt8} {tail : List UInt8} {low high : ℕ}
    (hlow : low ≤ lead.toNat) (hhigh : lead.toNat ≤ high)
    (hrange : low = 0 ∧ high = 0x7F ∧ tail.length = 0 ∨
      low = 0xC2 ∧ high = 0xDF ∧ tail.length = 1 ∨
      low = 0xE0 ∧ high = 0xEF ∧ tail.length = 2 ∨ low = 0xF0 ∧ high = 0xF7 ∧ tail.length = 3)
    (hrest : ∀ byte ∈ tail, isContinuation byte = true) : Encoded lead tail := by
  refine ⟨isContinuation_of_lt (by omega), hrest, ?_⟩
  unfold leadWidth
  simp only [UInt8.le_iff_toNat_le, UInt8.reduceToNat]
  split_ifs <;> omega

lemma encoded_char (c : Char) :
    ∃ lead tail, String.utf8EncodeChar c = lead :: tail ∧ Encoded lead tail := by
  have hvalid : c.val.toNat < 0x110000 := by
    have := c.valid
    simp only [UInt32.isValidChar, Nat.isValidChar] at this
    omega
  unfold String.utf8EncodeChar
  generalize c.val.toNat = v at *
  simp only
  split_ifs with hone htwo hthree
  · refine ⟨_, _, rfl, encoded_of_toNat (Nat.zero_le _) ?_ (.inl ⟨rfl, rfl, rfl⟩) (by simp)⟩
    simp only [UInt8.toNat_ofNat']
    omega
  · refine ⟨_, _, rfl, encoded_of_toNat ?_ ?_ (.inr (.inl ⟨rfl, rfl, rfl⟩)) ?_⟩
    · simp only [UInt8.toNat_ofNat']
      omega
    · simp only [UInt8.toNat_ofNat']
      omega
    · simp only [List.mem_singleton, forall_eq, isContinuation_ofNat]
  · refine ⟨_, _, rfl, encoded_of_toNat ?_ ?_ (.inr (.inr (.inl ⟨rfl, rfl, rfl⟩))) ?_⟩
    · simp only [UInt8.toNat_ofNat']
      omega
    · simp only [UInt8.toNat_ofNat']
      omega
    · simp only [List.mem_cons, List.not_mem_nil, or_false, forall_eq_or_imp, forall_eq,
        isContinuation_ofNat, and_self]
  · refine ⟨_, _, rfl, encoded_of_toNat ?_ ?_ (.inr (.inr (.inr ⟨rfl, rfl, rfl⟩))) ?_⟩
    · simp only [UInt8.toNat_ofNat']
      omega
    · simp only [UInt8.toNat_ofNat']
      omega
    · simp only [List.mem_cons, List.not_mem_nil, or_false, forall_eq_or_imp, forall_eq,
        isContinuation_ofNat, and_self]

/-! ### Boundaries -/

/-- Where the character at an index begins. -/
def offset (text : List Char) (index : ℕ) : ℕ := (Utf8.encode (text.take index)).length

lemma takeWhile_rest {tail : List UInt8} (h : ∀ byte ∈ tail, isContinuation byte = true)
    {rest : List UInt8} (hrest : ∀ byte, rest.head? = some byte → isContinuation byte = false) :
    (tail ++ rest).takeWhile isContinuation = tail := by
  rw [List.takeWhile_append_of_pos h]
  cases rest with
  | nil => simp
  | cons byte rest => rw [List.takeWhile_cons_of_neg (by simp [hrest byte rfl]), List.append_nil]

lemma head_encode (text : List Char) :
    ∀ byte, (Utf8.encode text).head? = some byte → isContinuation byte = false := by
  intro byte hbyte
  cases text with
  | nil => cases hbyte
  | cons c text =>
    obtain ⟨lead, tail, hc, hencoded⟩ := encoded_char c
    rw [Utf8.encode_cons, hc] at hbyte
    obtain rfl := Option.some.inj hbyte
    exact hencoded.first

lemma stepForward_encode (before after : List Char) (c : Char) :
    stepForward (Utf8.encode (before ++ c :: after)) (Utf8.encode before).length =
      (Utf8.encode (before ++ [c])).length := by
  obtain ⟨lead, tail, hc, hencoded⟩ := encoded_char c
  have hdrop : (Utf8.encode (before ++ c :: after)).drop ((Utf8.encode before).length + 1) =
      tail ++ Utf8.encode after := by
    simp only [Utf8.encode_append, Utf8.encode_cons, hc]
    rw [← List.drop_drop, List.drop_left]
    rfl
  unfold stepForward
  rw [hdrop, takeWhile_rest hencoded.rest (head_encode after)]
  simp only [Utf8.encode_append, Utf8.encode_cons, Utf8.encode_nil, hc, List.append_nil,
    List.length_append, List.length_cons]
  omega

lemma stepBack_encode (before after : List Char) (c : Char) :
    stepBack (Utf8.encode (before ++ c :: after)) (Utf8.encode (before ++ [c])).length =
      (Utf8.encode before).length := by
  obtain ⟨lead, tail, hc, hencoded⟩ := encoded_char c
  have htake : (Utf8.encode (before ++ c :: after)).take (Utf8.encode (before ++ [c])).length =
      Utf8.encode before ++ lead :: tail := by
    have hsplit : before ++ c :: after = before ++ [c] ++ after := by simp
    rw [hsplit, Utf8.encode_append (before ++ [c]) after, List.take_left]
    simp [hc]
  have hback : ((Utf8.encode before ++ lead :: tail).reverse.takeWhile isContinuation).length =
      tail.length := by
    have hreverse : (Utf8.encode before ++ lead :: tail).reverse =
        tail.reverse ++ lead :: (Utf8.encode before).reverse := by simp
    rw [hreverse, takeWhile_rest (fun byte hbyte => hencoded.rest byte (List.mem_reverse.mp hbyte)),
      List.length_reverse]
    rintro byte hbyte
    obtain rfl := Option.some.inj hbyte
    exact hencoded.first
  unfold stepBack
  rw [htake, hback]
  simp only [Utf8.encode_append, Utf8.encode_cons, Utf8.encode_nil, hc, List.append_nil,
    List.length_append, List.length_cons]
  omega

variable {text : List Char} {index : ℕ}

lemma split_take (h : index < text.length) :
    text = text.take index ++ text[index] :: text.drop (index + 1) ∧
      text.take (index + 1) = text.take index ++ [text[index]] := by
  refine ⟨?_, (List.take_append_getElem h).symm⟩
  rw [List.getElem_cons_drop, List.take_append_drop]

lemma stepForward_offset (h : index < text.length) :
    stepForward (Utf8.encode text) (offset text index) = offset text (index + 1) := by
  obtain ⟨htext, hnext⟩ := split_take h
  have hstep := stepForward_encode (text.take index) (text.drop (index + 1)) text[index]
  rw [← htext, ← hnext] at hstep
  exact hstep

lemma stepBack_offset (h : index < text.length) :
    stepBack (Utf8.encode text) (offset text (index + 1)) = offset text index := by
  obtain ⟨htext, hnext⟩ := split_take h
  have hstep := stepBack_encode (text.take index) (text.drop (index + 1)) text[index]
  rw [← htext, ← hnext] at hstep
  exact hstep

lemma stepForward_iterate {count : ℕ} (h : index + count ≤ text.length) :
    (stepForward (Utf8.encode text))^[count] (offset text index) = offset text (index + count) := by
  induction count with
  | zero => rfl
  | succ count ih =>
    rw [Function.iterate_succ_apply', ih (by omega), stepForward_offset (by omega), Nat.add_assoc]

lemma stepBack_iterate {count : ℕ} (h : index + count ≤ text.length) :
    (stepBack (Utf8.encode text))^[count] (offset text (index + count)) = offset text index := by
  induction count with
  | zero => rfl
  | succ count ih =>
    rw [Function.iterate_succ_apply, ← Nat.add_assoc, stepBack_offset (by omega), ih (by omega)]

@[simp] lemma offset_zero (text : List Char) : offset text 0 = 0 := rfl

lemma offset_length (text : List Char) : offset text text.length = (Utf8.encode text).length := by
  rw [offset, List.take_length]

lemma decodeCharAt_offset (h : index < text.length) :
    decodeCharAt (Utf8.encode text) (offset text index) = some text[index] := by
  obtain ⟨htext, -⟩ := split_take h
  obtain ⟨lead, tail, hc, hencoded⟩ := encoded_char text[index]
  have hdrop : (Utf8.encode text).drop (offset text index) =
      lead :: (tail ++ Utf8.encode (text.drop (index + 1))) := by
    have hsplit : Utf8.encode text =
        Utf8.encode (text.take index) ++ Utf8.encode (text[index] :: text.drop (index + 1)) := by
      rw [← Utf8.encode_append, ← htext]
    rw [offset, hsplit, List.drop_left, Utf8.encode_cons, hc]
    rfl
  have hlead : (Utf8.encode text)[offset text index]? = some lead := by
    have hhead := congrArg List.head? hdrop
    rwa [List.head?_drop] at hhead
  have hlength : offset text index + (tail.length + 1) ≤ (Utf8.encode text).length := by
    have hsize := congrArg List.length hdrop
    simp only [List.length_drop, List.length_cons, List.length_append] at hsize
    omega
  have hchar : ((Utf8.encode text).drop (offset text index)).take (tail.length + 1) =
      Utf8.encode [text[index]] := by
    rw [hdrop, List.take_succ_cons, List.take_left, Utf8.encode_cons, hc]
    simp
  have hwidth : (if lead ≤ 0x7F then 1 else if 0xC2 ≤ lead ∧ lead ≤ 0xDF then 2
      else if 0xE0 ≤ lead ∧ lead ≤ 0xEF then 3 else 4) = tail.length + 1 := hencoded.width
  simp only [decodeCharAt, hlead, Option.bind_eq_bind, Option.bind_some, hwidth,
    if_neg (not_lt.mpr hlength), hchar, Utf8.fromUTF8_encode, String.toList_ofList, List.head?_cons]

/-! ### ASCII contents -/

lemma length_le_encode (text : List Char) : text.length ≤ (Utf8.encode text).length := by
  induction text with
  | nil => exact le_rfl
  | cons c text ih =>
    have hpos := c.utf8Size_pos
    simp only [Utf8.encode_cons, List.length_append, String.length_utf8EncodeChar,
      List.length_cons]
    omega

lemma utf8Size_of_ascii (h : (Utf8.encode text).length = text.length) :
    ∀ c ∈ text, c.utf8Size = 1 := by
  induction text with
  | nil => simp
  | cons c text ih =>
    have hpos := c.utf8Size_pos
    have hrest := length_le_encode text
    simp only [Utf8.encode_cons, List.length_append, String.length_utf8EncodeChar,
      List.length_cons] at h
    intro other hother
    rcases List.mem_cons.mp hother with rfl | hother
    · omega
    · exact ih (by omega) other hother

lemma encode_of_ascii (h : ∀ c ∈ text, c.utf8Size = 1) :
    Utf8.encode text = text.map fun c => c.val.toUInt8 := by
  induction text with
  | nil => rfl
  | cons c text ih =>
    rw [Utf8.encode_cons, ih fun other hother => h other (List.mem_cons_of_mem c hother),
      String.utf8EncodeChar_eq_singleton (h c List.mem_cons_self)]
    rfl

lemma offset_of_ascii (h : (Utf8.encode text).length = text.length) (hindex : index ≤ text.length) :
    offset text index = index := by
  rw [offset, encode_of_ascii fun c hc => utf8Size_of_ascii h c (List.mem_of_mem_take hc),
    List.length_map, List.length_take_of_le hindex]

lemma byte_of_ascii (h : (Utf8.encode text).length = text.length) :
    (Utf8.encode text)[index]?.map (fun byte => Char.ofNat byte.toNat) = text[index]? := by
  have hwidth := utf8Size_of_ascii h
  rw [encode_of_ascii hwidth, List.getElem?_map, Option.map_map]
  cases hc : text[index]? with
  | none => rfl
  | some c =>
    have hsize := hwidth c (List.mem_of_getElem? hc)
    have hle : c.val.toNat ≤ 127 := by
      simpa [Char.utf8Size_eq_one_iff, UInt32.le_iff_toNat_le] using hsize
    have hbyte : c.val.toUInt8.toNat = c.toNat := by
      rw [UInt32.toNat_toUInt8]
      exact Nat.mod_eq_of_lt (by omega)
    simp only [Option.map_some, Function.comp_apply, hbyte, Char.ofNat_toNat]

/-! ### From any boundary -/

/-- The position is a boundary of the text. -/
def Anchors (text : List Char) (position : CursorHint) : Prop :=
  position.1 ≤ text.length ∧ position.2 = offset text position.1

variable {hint : Option CursorHint}

lemma anchor_anchors (hhint : ∀ position, hint = some position → Anchors text position) :
    Anchors text (anchor (Utf8.encode text) text.length index hint) := by
  have hnearer : Anchors text
      (if text.length - index < index then (text.length, (Utf8.encode text).length)
        else (0, 0)) := by
    split_ifs
    · exact ⟨le_rfl, (offset_length text).symm⟩
    · exact ⟨Nat.zero_le _, rfl⟩
  unfold anchor
  cases hint with
  | none => exact hnearer
  | some position =>
    simp only
    split_ifs at hnearer ⊢
    all_goals first | exact hnearer | exact hhint position rfl

lemma charToByte_eq (hindex : index ≤ text.length)
    (hhint : ∀ position, hint = some position → Anchors text position) :
    charToByte (Utf8.encode text) text.length index hint = offset text index := by
  obtain ⟨hchar, hbyte⟩ := @anchor_anchors text index hint hhint
  unfold charToByte
  generalize anchor (Utf8.encode text) text.length index hint = position at hchar hbyte
  obtain ⟨anchorChar, anchorByte⟩ := position
  simp only at hchar hbyte ⊢
  subst hbyte
  split_ifs with hforward
  · have hwalk := @stepForward_iterate text anchorChar (index - anchorChar) (by omega)
    rwa [Nat.add_sub_cancel' hforward] at hwalk
  · have hwalk := @stepBack_iterate text index (anchorChar - index) (by omega)
    rwa [Nat.add_sub_cancel' (by omega)] at hwalk

lemma charAt_eq (hhint : ∀ position, hint = some position → Anchors text position) :
    charAt (Utf8.encode text) text.length index hint =
      text[index]?.map fun c => (c, (index, offset text index)) := by
  unfold charAt
  split_ifs with hout hascii
  · rw [List.getElem?_eq_none hout, Option.map_none]
  · rw [offset_of_ascii hascii (not_le.mp hout).le, ← byte_of_ascii hascii, Option.map_map]
    rfl
  · have hin := not_le.mp hout
    simp only [charToByte_eq hin.le hhint, decodeCharAt_offset hin, List.getElem?_eq_getElem hin,
      Option.map_some]

lemma charRangeToBytes_eq {start stop : ℕ} (hle : start ≤ stop) (hstop : stop ≤ text.length)
    (hhint : ∀ position, hint = some position → Anchors text position) :
    charRangeToBytes (Utf8.encode text) text.length start stop hint =
      (offset text start, offset text stop) := by
  have hstart := hle.trans hstop
  unfold charRangeToBytes
  split_ifs with hascii
  · rw [offset_of_ascii hascii hstart, offset_of_ascii hascii hstop]
  · -- the second walk begins where the first has ended
    have hfirst : ∀ position, some (start, offset text start) = some position →
        Anchors text position := by
      rintro position hposition
      obtain rfl := Option.some.inj hposition
      exact ⟨hstart, rfl⟩
    simp only [charToByte_eq hstart hhint, charToByte_eq hstop hfirst]

lemma offset_mono {start stop : ℕ} (hle : start ≤ stop) : offset text start ≤ offset text stop := by
  have hsplit : text.take stop = text.take start ++ (text.take stop).drop start := by
    conv_lhs => rw [← List.take_append_drop start (text.take stop)]
    rw [List.take_take, min_eq_left hle]
  rw [offset, offset, hsplit, Utf8.encode_append, List.length_append]
  exact Nat.le_add_right _ _

lemma offset_le (text : List Char) (index : ℕ) : offset text index ≤ (Utf8.encode text).length := by
  by_cases hindex : index ≤ text.length
  · rw [← offset_length]
    exact offset_mono hindex
  · rw [offset, List.take_of_length_le (not_le.mp hindex).le]

lemma encode_range {start stop : ℕ} (hle : start ≤ stop) :
    ((Utf8.encode text).drop (offset text start)).take (offset text stop - offset text start) =
      Utf8.encode ((text.drop start).take (stop - start)) := by
  have hfirst : Utf8.encode text = Utf8.encode (text.take start) ++
      (Utf8.encode ((text.drop start).take (stop - start)) ++
        Utf8.encode ((text.drop start).drop (stop - start))) := by
    rw [← Utf8.encode_append, ← Utf8.encode_append, List.take_append_drop, List.take_append_drop]
  have hsize : offset text stop = offset text start +
      (Utf8.encode ((text.drop start).take (stop - start))).length := by
    have hsplit : text.take stop = text.take start ++ (text.drop start).take (stop - start) := by
      rw [← List.take_add, Nat.add_sub_cancel' hle]
    rw [offset, offset, hsplit, Utf8.encode_append, List.length_append]
  rw [hsize, Nat.add_sub_cancel_left]
  conv_lhs => rw [hfirst]
  rw [offset, List.drop_left, List.take_left]

/-! ### What the cache holds -/

/-- The position is a boundary of the text in the slot; an unused entry is one of any text. -/
def CursorEntry.Sound (texts : ℕ → Option (List Char)) (entry : CursorEntry) : Prop :=
  entry.position = (0, 0) ∨ ∃ text, texts entry.slot = some text ∧ Anchors text entry.position

/-- Both positions are boundaries, and a slot has one entry at most. -/
structure StringCursors.Sound (texts : ℕ → Option (List Char)) (cursors : StringCursors) :
    Prop where
  first : cursors.first.Sound texts
  second : cursors.second.Sound texts
  apart : cursors.first.slot = cursors.second.slot → cursors.first.position = (0, 0)

section Cache
variable {texts texts' : ℕ → Option (List Char)} {cursors : StringCursors} {slot : ℕ}

lemma new_sound (texts : ℕ → Option (List Char)) : StringCursors.new.Sound texts :=
  ⟨.inl rfl, .inl rfl, fun _ => rfl⟩

lemma CursorEntry.Sound.anchors {entry : CursorEntry} (h : entry.Sound texts)
    (htext : texts entry.slot = some text) : Anchors text entry.position := by
  rcases h with hzero | ⟨text', htext', hanchors⟩
  · rw [hzero]
    exact ⟨Nat.zero_le _, rfl⟩
  · rwa [← Option.some.inj (htext'.symm.trans htext)]

lemma lookup_anchors (h : cursors.Sound texts) (htext : texts slot = some text) :
    ∀ position, cursors.lookup slot = some position → Anchors text position := by
  intro position hposition
  unfold StringCursors.lookup at hposition
  split_ifs at hposition with hfirst hsecond
  · rw [← Option.some.inj hposition]
    exact h.first.anchors (hfirst ▸ htext)
  · rw [← Option.some.inj hposition]
    exact h.second.anchors (hsecond ▸ htext)

lemma CursorEntry.Sound.mono {entry : CursorEntry} (h : entry.Sound texts)
    (hsame : ∀ text, texts entry.slot = some text → texts' entry.slot = some text) :
    entry.Sound texts' :=
  h.imp_right fun ⟨text, htext, hanchors⟩ => ⟨text, hsame text htext, hanchors⟩

lemma StringCursors.Sound.mono (h : cursors.Sound texts)
    (hsame : ∀ slot text, texts slot = some text → texts' slot = some text) :
    cursors.Sound texts' :=
  ⟨h.first.mono (hsame _), h.second.mono (hsame _), h.apart⟩

/-- The text of a slot has become another one, and a boundary of it is cached. -/
lemma store_sound (h : cursors.Sound texts) (hother : ∀ k, k ≠ slot → texts' k = texts k)
    {position : CursorHint} (htext : texts' slot = some text) (hposition : Anchors text position)
    (hfits : position.1 ≤ u32Max ∧ position.2 ≤ u32Max) :
    (cursors.store slot position).Sound texts' := by
  have hentry : CursorEntry.Sound texts' ⟨slot, position.1, position.2⟩ :=
    .inr ⟨text, htext, hposition⟩
  have hkeep : ∀ {entry : CursorEntry}, entry.Sound texts → entry.slot ≠ slot →
      entry.Sound texts' := fun hsound hne => hsound.mono fun text ht => (hother _ hne).trans ht
  unfold StringCursors.store
  rw [if_neg (by omega)]
  by_cases hsecond : cursors.second.slot = slot
  · -- the second entry is renewed
    simp only [hsecond, ne_eq, not_true_eq_false, and_false, if_false, if_true]
    by_cases hfirst : cursors.first.slot = slot
    · have hzero := h.apart (hfirst.trans hsecond.symm)
      exact ⟨.inl hzero, hentry, fun _ => hzero⟩
    · exact ⟨hkeep h.first hfirst, hentry, fun heq => absurd heq hfirst⟩
  · by_cases hfirst : cursors.first.slot = slot
    · -- the first entry is renewed
      simp only [hfirst, ne_eq, not_true_eq_false, false_and, if_false, if_neg hsecond]
      exact ⟨hentry, hkeep h.second hsecond, fun heq => absurd heq.symm hsecond⟩
    · -- the first entry becomes the second one
      simp only [hfirst, hsecond, ne_eq, not_false_eq_true, and_self, if_true, if_false]
      exact ⟨hentry, hkeep h.first hfirst, fun heq => absurd heq.symm hfirst⟩

end Cache

end Neetan.StringCursor
