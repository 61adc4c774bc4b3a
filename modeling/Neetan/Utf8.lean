import Mathlib.Data.List.Basic
import Mathlib.Data.Nat.Notation

/-!
Text as a list of bytes: where a character of a UTF-8 encoding begins, and bytes as text, with
what does not decode replaced.

A byte of an encoded character is a first byte exactly when it is the first one, so what
decodes at some position of a text is a character of the text.
-/

namespace Neetan.Utf8

/-- The encoding of a list of characters. -/
def encode (text : List Char) : List UInt8 := text.flatMap String.utf8EncodeChar

@[simp] lemma encode_nil : encode [] = [] := rfl

@[simp] lemma encode_cons (c : Char) (text : List Char) :
    encode (c :: text) = String.utf8EncodeChar c ++ encode text := rfl

@[simp] lemma encode_append (text text' : List Char) :
    encode (text ++ text') = encode text ++ encode text' :=
  List.flatMap_append

lemma encode_replicate (count : ℕ) (c : Char) :
    encode (List.replicate count c) = (List.replicate count (String.utf8EncodeChar c)).flatten :=
  List.flatMap_replicate

/-! ### Byte arrays -/

lemma toList_loop (bytes : ByteArray) (i : ℕ) (done : List UInt8) :
    ByteArray.toList.loop bytes i done = done.reverse ++ bytes.data.toList.drop i := by
  fun_induction ByteArray.toList.loop bytes i done with
  | case1 i done hlt ih =>
    have hdrop : bytes.data.toList.drop i = bytes.get! i :: bytes.data.toList.drop (i + 1) := by
      have hi : i < bytes.data.toList.length := by simpa using hlt
      have hget : bytes.get! i = bytes.data.toList[i] := by
        change bytes.data[i]! = _
        rw [getElem!_pos bytes.data i (by simpa using hlt), Array.getElem_toList]
      rw [List.drop_eq_getElem_cons hi, hget]
    rw [ih, hdrop]
    simp
  | case2 i done hge =>
    have hlen : bytes.data.toList.length ≤ i := by simpa using hge
    simp [List.drop_eq_nil_of_le hlen]

lemma toList_eq (bytes : ByteArray) : bytes.toList = bytes.data.toList := by
  simp [ByteArray.toList, toList_loop]

lemma toUTF8_eq (text : String) : text.toUTF8.toList = encode text.toList := by
  have h : text.toUTF8 = text.toList.utf8Encode := String.utf8Encode_toList.symm
  rw [h, toList_eq]
  exact List.toList_data_toByteArray

/-- The bytes are an encoding. -/
def IsText (bytes : List UInt8) : Prop := ∃ text, encode text = bytes

lemma isText_iff {bytes : List UInt8} :
    IsText bytes ↔ ∃ text : String, text.toUTF8.toList = bytes := by
  constructor
  · rintro ⟨text, rfl⟩
    exact ⟨String.ofList text, by rw [toUTF8_eq, String.toList_ofList]⟩
  · rintro ⟨text, rfl⟩
    exact ⟨text.toList, (toUTF8_eq text).symm⟩

lemma encode_of_fromUTF8 {bytes : List UInt8} {text : String}
    (h : String.fromUTF8? ⟨bytes.toArray⟩ = some text) : encode text.toList = bytes := by
  unfold String.fromUTF8? at h
  split at h
  · obtain rfl := Option.some.inj h
    rw [← toUTF8_eq, toList_eq]
    rfl
  · cases h

lemma fromUTF8_encode (text : List Char) :
    String.fromUTF8? ⟨(encode text).toArray⟩ = some (String.ofList text) := by
  have hbytes : (⟨(encode text).toArray⟩ : ByteArray) = text.utf8Encode := by
    have hdata : (encode text).toByteArray.data.toList = encode text := List.toList_data_toByteArray
    have hwhole : text.utf8Encode = (encode text).toByteArray := rfl
    rw [hwhole]
    generalize (encode text).toByteArray = bytes at hdata
    rw [← hdata, Array.toArray_toList]
  unfold String.fromUTF8?
  rw [dif_pos (hbytes ▸ ByteArray.isValidUTF8_utf8Encode)]
  refine congrArg some (String.toByteArray_inj.mp ?_)
  rw [String.toByteArray_ofList]
  exact hbytes

/-! ### Characters at a position -/

lemma char_of_prefix {c c' : Char} {rest rest' : List UInt8}
    (h : String.utf8EncodeChar c ++ rest = String.utf8EncodeChar c' ++ rest') : c = c' := by
  have hdecode : ∀ (c : Char) (rest : List UInt8),
      (String.utf8EncodeChar c ++ rest).toByteArray.utf8DecodeChar? 0 = some c := by
    intro c rest
    rw [List.toByteArray_append]
    exact ByteArray.utf8DecodeChar?_utf8EncodeChar_append
  have hc := hdecode c rest
  rw [h, hdecode c' rest'] at hc
  exact (Option.some.inj hc).symm

/-- An encoded character in a text, at any position, is a character of the text. -/
theorem split_at_char {text : List Char} {start : ℕ} {c : Char} {rest : List UInt8}
    (h : (encode text).drop start = String.utf8EncodeChar c ++ rest) :
    ∃ before after, text = before ++ c :: after ∧ (encode before).length = start := by
  induction text generalizing start with
  | nil =>
    have hnil : String.utf8EncodeChar c ++ rest = [] := by simpa using h.symm
    exact absurd (List.append_eq_nil_iff.mp hnil).1 String.utf8EncodeChar_ne_nil
  | cons first text ih =>
    rw [encode_cons] at h
    by_cases hzero : start = 0
    · subst hzero
      obtain rfl := char_of_prefix h
      exact ⟨[], text, rfl, rfl⟩
    by_cases hlong : (String.utf8EncodeChar first).length ≤ start
    · obtain ⟨before, after, rfl, hlen⟩ := @ih (start - (String.utf8EncodeChar first).length)
        (by rw [← h, List.drop_append, List.drop_eq_nil_of_le hlong, List.nil_append])
      exact ⟨first :: before, after, rfl, by simp only [encode_cons, List.length_append]; omega⟩
    -- in between, the byte is no first byte
    · have hin : start < (String.utf8EncodeChar first).length := Nat.lt_of_not_le hlong
      have hpos : 0 < (String.utf8EncodeChar c).length :=
        List.length_pos_iff.mpr String.utf8EncodeChar_ne_nil
      have hbyte : (String.utf8EncodeChar first)[start] = (String.utf8EncodeChar c)[0] := by
        have hget := congrArg (fun bytes => bytes[0]?) h
        simp only [List.getElem?_drop, Nat.add_zero, List.getElem?_append_left hin,
          List.getElem?_append_left hpos, List.getElem?_eq_getElem hin,
          List.getElem?_eq_getElem hpos] at hget
        exact Option.some.inj hget
      have hfirst : (String.utf8EncodeChar first)[start].IsUTF8FirstByte :=
        hbyte ▸ UInt8.isUTF8FirstByte_getElem_utf8EncodeChar.mpr rfl
      exact absurd (UInt8.isUTF8FirstByte_getElem_utf8EncodeChar.mp hfirst) hzero

/-! ### What does not decode -/

/-- The byte continues a character. -/
def isContinuation (byte : UInt8) : Bool := byte &&& 0xC0 == 0x80

/-- The second byte may follow the first of a character of three or four bytes. -/
def allowsSecond (first second : UInt8) : Bool :=
  (first == 0xE0 && 0xA0 ≤ second && second ≤ 0xBF) ||
  (0xE1 ≤ first && first ≤ 0xEC && isContinuation second) ||
  (first == 0xED && 0x80 ≤ second && second ≤ 0x9F) ||
  (0xEE ≤ first && first ≤ 0xEF && isContinuation second) ||
  (first == 0xF0 && 0x90 ≤ second && second ≤ 0xBF) ||
  (0xF1 ≤ first && first ≤ 0xF3 && isContinuation second) ||
  (first == 0xF4 && 0x80 ≤ second && second ≤ 0x8F)

/-- The length of the piece of a broken character that is replaced at once. -/
def brokenLength : List UInt8 → ℕ
  | first :: second :: third :: _ =>
    if allowsSecond first second then
      if 0xF0 ≤ first && isContinuation third then 3 else 2
    else 1
  | [first, second] => if allowsSecond first second then 2 else 1
  | _ => 1

lemma brokenLength_pos (bytes : List UInt8) : 0 < brokenLength bytes := by
  fun_cases brokenLength bytes <;> omega

def replacement : Char := '\uFFFD'

/-- The text of the bytes, each maximal broken piece replaced by one character. -/
def fromUtf8Lossy (bytes : List UInt8) : List Char :=
  if _h : bytes = [] then [] else
    match bytes.toByteArray.utf8DecodeChar? 0 with
    | some c => c :: fromUtf8Lossy (bytes.drop c.utf8Size)
    | none => replacement :: fromUtf8Lossy (bytes.drop (brokenLength bytes))
termination_by bytes.length
decreasing_by
  · have := c.utf8Size_pos
    have := List.length_pos_iff.mpr _h
    simp only [List.length_drop]
    omega
  · have := brokenLength_pos bytes
    have := List.length_pos_iff.mpr _h
    simp only [List.length_drop]
    omega

/-! ### ASCII letters -/

def toAsciiUppercase (byte : UInt8) : UInt8 :=
  if 0x61 ≤ byte ∧ byte ≤ 0x7A then byte - 0x20 else byte

def toAsciiLowercase (byte : UInt8) : UInt8 :=
  if 0x41 ≤ byte ∧ byte ≤ 0x5A then byte + 0x20 else byte

end Neetan.Utf8
