import Neetan.Environment

/-!
Setting a variable of an installed environment.

The variable, the other entries and the bytes outside the block always come out right. The count
word and the strings behind it come through where the reader finds them.
-/

namespace Neetan.Environment

open Neetan.ByteMemory Neetan.Terminated

section Laws

variable (state : DosState) (mem : Memory) (segment sizeBytes : ℕ) (c : Contents)
  (name value : List UInt8) (keepEmpty : Bool)

/-- What setting a variable is to do: on success the variable has the value, in any case of its
name, the other entries, the count word and its strings stay, and so does every byte outside the
block; on failure nothing changes. -/
def SetVarLaw : Prop :=
  match setVar state mem name value keepEmpty with
  | (.error _, mem') => mem' = mem
  | (.ok (), mem') =>
    (∀ other, eqIgnoreAsciiCase other name →
      readVar state mem' other = if keepEmpty || !value.isEmpty then some value else none) ∧
    (∃ c' : Contents, Installed state mem' segment sizeBytes c' ∧
      c'.entries.filter (fun entry => !matchesName (uppercase name) entry) =
        c.entries.filter (fun entry => !matchesName (uppercase name) entry) ∧
      c'.strings = c.strings) ∧
    ∀ a, ¬ InBlock segment sizeBytes a → mem' a = mem a

/-- The block has no room for the changed entries and what the reader takes for the trailer. -/
def NoRoom : Prop :=
  ∃ block, readBlock state mem = some block ∧
    block.sizeBytes < requiredLen (changeEntries (uppercase name) value keepEmpty block.entries)
      block.trailer

/-- The environment has no entry, or it counts no string and the byte behind the count word is
NUL; where the block ends behind the count word, it has room for a count word again. -/
def TrailerFound : Prop :=
  c.entries = [] ∨
    c.strings = [] ∧
      match (ByteMemory.readBlock mem (segment * 16) sizeBytes)[c.bytes.length]? with
      | some byte => byte = 0
      | none =>
        (entriesText (changeEntries (uppercase name) value keepEmpty c.entries)).length + 2 ≤
          sizeBytes

end Laws

section

variable {state : DosState} {mem : Memory} {segment sizeBytes : ℕ} {c : Contents}
  {name value : List UInt8} {keepEmpty : Bool}

lemma findVar_congr {other : List UInt8} (same : eqIgnoreAsciiCase other name)
    (entries : List (List UInt8)) :
    findVar (uppercase other) entries = findVar (uppercase name) entries := by
  simp only [findVar, eqIgnoreAsciiCase_uppercase same]

/-- **The count word and the strings are kept if and only if what the reader took for the trailer,
or the NULs behind it, begin with them.** -/
theorem kept_iff (installed : Installed state mem segment sizeBytes c)
    {entries : List (List UInt8)} (proper : ∀ entry ∈ entries, entry ≠ [] ∧ 0 ∉ entry)
    {p : List UInt8 → Bool} (others : entries.filter p = c.entries.filter p)
    {found : List UInt8} (fits : (entriesText entries ++ found).length ≤ sizeBytes) :
    (∃ c' : Contents,
      Installed state (written mem segment sizeBytes (entriesText entries ++ found)) segment
        sizeBytes c' ∧
      c'.entries.filter p = c.entries.filter p ∧ c'.strings = c.strings) ↔
      c.trailer <+:
        found ++ List.replicate (sizeBytes - (entriesText entries ++ found).length) 0 := by
  have block := @readBlock_written mem segment sizeBytes _ fits
  rw [List.append_assoc] at block
  constructor
  · rintro ⟨c', again, -, strings_eq⟩
    have holds := again.holds
    rw [block] at holds
    obtain ⟨rest, rest_eq⟩ := holds
    rw [Contents.bytes, List.append_assoc] at rest_eq
    have entries_eq := congrArg (fun bytes => (readEntries [] bytes).1) rest_eq
    simp only [readEntries_text c'.entries_proper, readEntries_text proper] at entries_eq
    rw [entries_eq, List.append_cancel_left_eq] at rest_eq
    have trailer_eq : c'.trailer = c.trailer := by
      rw [Contents.trailer, Contents.trailer, strings_eq]
    exact ⟨rest, trailer_eq ▸ rest_eq⟩
  · intro begins
    obtain ⟨segment_eq, size_eq⟩ := installed.written_frame fits
    refine ⟨⟨entries, c.strings, proper, c.strings_free, c.count_lt⟩,
      ⟨segment_eq, installed.segment_pos, size_eq, ?_, installed.apart⟩, others, rfl⟩
    rw [block]
    exact (List.prefix_append_right_inj _).2 begins

lemma countWord_eq_zero {count : ℕ} (count_lt : count < 2 ^ 16)
    (low : UInt8.ofNat count = 0) (high : UInt8.ofNat (count / 256) = 0) : count = 0 := by
  have value := fromBytes_countWord count_lt
  rw [low, high] at value
  exact value.symm

lemma prefix_replicate {x y : UInt8} {rest : List UInt8} {n : ℕ}
    (begins : x :: y :: rest <+: List.replicate n 0) : x = 0 ∧ y = 0 := by
  have zeros : ∀ byte ∈ x :: y :: rest, byte = 0 :=
    fun byte mem => List.eq_of_mem_replicate (begins.subset mem)
  exact ⟨zeros x (by simp), zeros y (by simp)⟩

/-- **What the reader takes for the trailer begins with the trailer, where it is found, and only
there.** -/
theorem found_iff (installed : Installed state mem segment sizeBytes c)
    {length : ℕ} (fits : length +
      (readEntries [] (ByteMemory.readBlock mem (segment * 16) sizeBytes)).2.length ≤ sizeBytes) :
    c.trailer <+:
        (readEntries [] (ByteMemory.readBlock mem (segment * 16) sizeBytes)).2 ++
          List.replicate (sizeBytes - (length +
            (readEntries [] (ByteMemory.readBlock mem (segment * 16) sizeBytes)).2.length)) 0 ↔
      (c.entries = [] ∨
        c.strings = [] ∧
          match (ByteMemory.readBlock mem (segment * 16) sizeBytes)[c.bytes.length]? with
          | some byte => byte = 0
          | none => length + 2 ≤ sizeBytes) := by
  obtain ⟨rest, rest_eq⟩ := installed.holds
  have behind : (ByteMemory.readBlock mem (segment * 16) sizeBytes)[c.bytes.length]? =
      rest.head? := by
    rw [← rest_eq, List.getElem?_append_right le_rfl, Nat.sub_self, List.head?_eq_getElem?]
  rw [behind]
  rw [Contents.bytes, List.append_assoc, entriesText_append] at rest_eq
  rw [← rest_eq, readEntries_joined c.entries_proper] at fits ⊢
  by_cases none : c.entries = []
  · -- without an entry the reader is at the count word
    rw [none] at fits ⊢
    simp only [List.isEmpty_nil, if_true, List.head?_cons, List.tail_cons, readTrailer_trailer]
      at fits ⊢
    exact iff_of_true (List.prefix_append _ _) (.inl trivial)
  have some_entry : c.entries.isEmpty = false := by
    rw [List.isEmpty_eq_false_iff]
    exact none
  rw [or_iff_right none]
  simp only [some_entry, Bool.false_eq_true, if_false, Contents.trailer, countWord,
    List.cons_append, List.nil_append, List.head?_cons, List.tail_cons, Option.some.injEq]
    at fits ⊢
  by_cases counted : c.strings = []
  · -- a count of no strings: the reader takes its high byte and the byte behind it for the count
    rw [counted] at fits ⊢
    have zero : UInt8.ofNat ([] : List (List UInt8)).length = 0 ∧
        UInt8.ofNat (([] : List (List UInt8)).length / 256) = 0 := by decide
    simp only [zero.1, zero.2, if_true, joined_nil, List.nil_append, true_and] at fits ⊢
    cases rest with
    | nil =>
      simp only [readTrailer, List.nil_append, List.length_nil, Nat.add_zero, List.head?_nil]
        at fits ⊢
      constructor
      · intro begins
        have le := begins.length_le
        rw [List.length_replicate] at le
        simp only [List.length_cons, List.length_nil] at le
        omega
      · intro room
        obtain ⟨more, more_eq⟩ := Nat.exists_eq_add_of_le
          (show 2 ≤ sizeBytes - length by omega)
        rw [more_eq, List.replicate_add]
        exact List.prefix_append [0, 0] _
    | cons byte rest =>
      simp only [readTrailer, List.cons_append, List.head?_cons, List.cons_prefix_cons, true_and,
        List.nil_prefix, and_true]
      exact eq_comm
  · -- a count that the reader does not see: its low byte is not NUL, or it reads on from the high
    refine iff_of_false ?_ fun both => counted both.1
    intro begins
    have count_ne : c.strings.length ≠ 0 := fun zero => counted (List.length_eq_zero_iff.1 zero)
    refine count_ne ?_
    split at begins
    · rename_i low
      cases later : joined 0 c.strings ++ rest with
      | nil =>
        rw [later, readTrailer] at begins
        · exact countWord_eq_zero c.count_lt low (prefix_replicate begins).2
        · simp
      | cons byte bytes =>
        rw [later, readTrailer, List.cons_append, List.cons_prefix_cons] at begins
        exact countWord_eq_zero c.count_lt low (begins.1 ▸ low)
    · exact countWord_eq_zero c.count_lt (prefix_replicate begins).1 (prefix_replicate begins).2

lemma setVar_noRoom (full : NoRoom state mem name value keepEmpty) :
    SetVarLaw state mem segment sizeBytes c name value keepEmpty := by
  obtain ⟨block, block_eq, less⟩ := full
  rw [SetVarLaw, setVar, block_eq]
  simp only [writeBlock_eq, if_pos less]

lemma setVar_room (installed : Installed state mem segment sizeBytes c)
    (name_plain : equals ∉ name) (name_free : 0 ∉ name) (value_free : 0 ∉ value)
    (room : ¬ NoRoom state mem name value keepEmpty) :
    SetVarLaw state mem segment sizeBytes c name value keepEmpty ↔
      TrailerFound mem segment sizeBytes c name value keepEmpty := by
  have plain := equals_not_mem_uppercase name_plain
  have proper := @proper_changeEntries (uppercase name) value keepEmpty c.entries
    (nul_not_mem_uppercase name_free) value_free c.entries_proper
  have found := @found_iff state mem segment sizeBytes c installed
    (entriesText (changeEntries (uppercase name) value keepEmpty c.entries)).length
  rw [NoRoom, installed.readBlock_eq] at room
  rw [SetVarLaw, TrailerFound, setVar, installed.readBlock_eq]
  generalize (readEntries [] (ByteMemory.readBlock mem (segment * 16) sizeBytes)).2 = trailer
    at found room
  simp only [Option.some.injEq, exists_eq_left'] at room
  simp only [writeBlock_eq, if_neg room]
  rw [requiredLen_eq] at room
  have fits := Nat.le_of_not_lt room
  rw [← found (by rwa [← List.length_append]), ← List.length_append,
    ← kept_iff installed proper (filter_changeEntries plain) fits]
  refine ⟨fun law => law.2.1, fun kept => ⟨fun other same => ?_, kept, fun a outside => ?_⟩⟩
  · exact (installed.readVar_written proper fits other).trans
      ((findVar_congr same _).trans (findVar_changeEntries plain))
  · exact written_outside fits outside

/-- **Setting a variable keeps to its law if and only if the block has no room, and the call fails,
or the reader finds the trailer.** -/
theorem setVar_iff (installed : Installed state mem segment sizeBytes c)
    (name_plain : equals ∉ name) (name_free : 0 ∉ name) (value_free : 0 ∉ value) :
    SetVarLaw state mem segment sizeBytes c name value keepEmpty ↔
      NoRoom state mem name value keepEmpty ∨
        TrailerFound mem segment sizeBytes c name value keepEmpty := by
  by_cases full : NoRoom state mem name value keepEmpty
  · exact iff_of_true (setVar_noRoom full) (.inl full)
  · rw [or_iff_right full]
    exact setVar_room installed name_plain name_free value_free full

/-! ### A program path behind one entry -/

/-- The entry `A=1`, one string `P` behind it. -/
def programContents : Contents where
  entries := [[0x41, 0x3D, 0x31]]
  strings := [[0x50]]
  entries_proper := by decide
  strings_free := by decide
  count_lt := by decide

/-- The prefix in paragraph 1, a block of one paragraph in paragraph 8. -/
def programMemory : Memory :=
  let prefixed := writeWord (writeWord (fun _ => 0) 60 8) 115 1
  ByteMemory.writeBlock prefixed 128 programContents.bytes

lemma programMemory_installed : Installed ⟨1⟩ programMemory 8 16 programContents where
  segment_eq := by decide
  segment_pos := by decide
  size_eq := by decide
  holds := by decide
  apart := by
    unfold InBlock
    decide

theorem setVar_iff_program :
    SetVarLaw ⟨1⟩ programMemory 8 16 programContents [0x42] [0x32] false ↔
      NoRoom ⟨1⟩ programMemory [0x42] [0x32] false ∨
        TrailerFound programMemory 8 16 programContents [0x42] [0x32] false :=
  setVar_iff programMemory_installed (by decide) (by decide) (by decide)

/-- Setting `B` to `2` drops the program path. -/
theorem setVar_drops_program :
    Installed ⟨1⟩ programMemory 8 16 programContents ∧
      ¬ SetVarLaw ⟨1⟩ programMemory 8 16 programContents [0x42] [0x32] false := by
  have room : ¬ NoRoom ⟨1⟩ programMemory [0x42] [0x32] false := by
    have block_eq : readBlock ⟨1⟩ programMemory = some ⟨8, 16, [[0x41, 0x3D, 0x31]], []⟩ := by
      decide
    rintro ⟨block, found, less⟩
    rw [block_eq] at found
    cases found
    revert less
    decide
  refine ⟨programMemory_installed, fun law => ?_⟩
  rw [setVar_room programMemory_installed (by decide) (by decide) (by decide) room] at law
  obtain no_entry | ⟨no_string, -⟩ := law
  · exact absurd no_entry (by decide)
  · exact absurd no_string (by decide)

end

end Neetan.Environment
