import Neetan.ByteMemory
import Neetan.Terminated
import Neetan.Utf8

/-!
The environment block of a DOS program: reading a variable, and rewriting the block with a
variable changed.

The block belongs to the program that runs; its segment stands in the prefix of the program and
its size in the header before it. Behind the entries stand two NULs, the second one behind the last
entry, then the count word and its strings. The reader looks for the count word one byte further,
unless there is no entry.
-/

namespace Neetan.Environment

open Neetan.ByteMemory Neetan.Utf8

def pspOffEnvSeg : ℕ := 0x2C

def mcbOffSize : ℕ := 3

/-- The byte of `=`. -/
def equals : UInt8 := 0x3D

inductive SetVarError
  | outOfSpace
  deriving DecidableEq, Repr

/-- The fields of the DOS state that the environment needs. -/
structure DosState where
  currentPsp : ℕ
  deriving Repr

structure EnvironmentBlock where
  segment : ℕ
  sizeBytes : ℕ
  entries : List (List UInt8)
  trailer : List UInt8
  deriving DecidableEq

/-! ### Names -/

def uppercase (value : List UInt8) : List UInt8 := value.map toAsciiUppercase

def eqIgnoreAsciiCase (left right : List UInt8) : Bool :=
  left.length == right.length &&
    (left.zip right).all fun (l, r) => toAsciiLowercase l == toAsciiLowercase r

/-- The name and the value of an entry, around its first `=`. -/
def splitEntry : List UInt8 → Option (List UInt8 × List UInt8)
  | [] => none
  | byte :: rest =>
    if byte = equals then some ([], rest)
    else (splitEntry rest).map fun (name, value) => (byte :: name, value)

def makeEntry (name value : List UInt8) : List UInt8 := name ++ equals :: value

/-- The entry has the name. -/
def matchesName (name entry : List UInt8) : Bool :=
  (splitEntry entry).any fun (entryName, _) => eqIgnoreAsciiCase entryName name

/-! ### Reading -/

def envSegment (state : DosState) (mem : Memory) : ℕ :=
  readWord mem (state.currentPsp * 16 + pspOffEnvSeg)

def blockSizeBytes (mem : Memory) (segment : ℕ) : ℕ :=
  readWord mem ((segment + 0xFFFF) % 0x10000 * 16 + mcbOffSize) * 16

/-- The count word at the start of the bytes, and as many strings behind it. -/
def readTrailer : List UInt8 → List UInt8
  | low :: high :: rest =>
    low :: high :: Terminated.lines 0 (low.toNat + 256 * high.toNat) rest
  | _ => []

/-- The entries of a block and its trailer, from the bytes of the block; `entry` is what has
been read of the current entry. -/
def readEntries : (entry bytes : List UInt8) → List (List UInt8) × List UInt8
  | [], [] => ([], [])
  | [], byte :: bytes =>
    if byte = 0 then
      -- the second NUL of the pair is looked for behind this one
      ([], if bytes.head? = some 0 then readTrailer bytes.tail else [])
    else readEntries [byte] bytes
  | entry, [] => ([entry], [])
  | entry, byte :: bytes =>
    if byte = 0 then
      let (entries, trailer) := readEntries [] bytes
      (entry :: entries, trailer)
    else readEntries (entry ++ [byte]) bytes

def readBlock (state : DosState) (mem : Memory) : Option EnvironmentBlock :=
  let segment := envSegment state mem
  if segment = 0 then none
  else
    let sizeBytes := blockSizeBytes mem segment
    if sizeBytes < 2 then none
    else
      let (entries, trailer) := readEntries [] (ByteMemory.readBlock mem (segment * 16) sizeBytes)
      some { segment, sizeBytes, entries, trailer }

/-- The value of the first entry that has the name. -/
def findVar (name : List UInt8) (entries : List (List UInt8)) : Option (List UInt8) :=
  entries.findSome? fun entry =>
    match splitEntry entry with
    | none => none
    | some (entryName, value) => if eqIgnoreAsciiCase entryName name then some value else none

def readVar (state : DosState) (mem : Memory) (name : List UInt8) : Option (List UInt8) :=
  match readBlock state mem with
  | none => none
  | some block => findVar (uppercase name) block.entries

/-! ### Writing -/

/-- The entries behind each other from an address on, and the address behind them. -/
def writeEntries : Memory → ℕ → List (List UInt8) → Memory × ℕ
  | mem, address, [] => (mem, address)
  | mem, address, entry :: entries =>
    let mem := writeByte (ByteMemory.writeBlock mem address entry) (address + entry.length) 0
    writeEntries mem (address + entry.length + 1) entries

def requiredLen (entries : List (List UInt8)) (trailer : List UInt8) : ℕ :=
  (entries.map fun entry => entry.length + 1).sum + (if entries.isEmpty then 2 else 1) +
    trailer.length

def writeBlock (mem : Memory) (block : EnvironmentBlock) (entries : List (List UInt8)) :
    Except SetVarError Unit × Memory :=
  if block.sizeBytes < requiredLen entries block.trailer then (.error .outOfSpace, mem)
  else
    let base := block.segment * 16
    let mem := ByteMemory.writeBlock mem base (List.replicate block.sizeBytes 0)
    let (mem, address) := writeEntries mem base entries
    let (mem, address) :=
      if entries.isEmpty then (writeByte mem address 0, address + 1) else (mem, address)
    let mem := writeByte mem address 0
    (.ok (), ByteMemory.writeBlock mem (address + 1) block.trailer)

/-- The entries with every entry of the name replaced, or with a new one behind them. -/
def changeEntries (name value : List UInt8) (keepEmpty : Bool) (entries : List (List UInt8)) :
    List (List UInt8) :=
  let keep := keepEmpty || !value.isEmpty
  let changed := entries.flatMap fun entry =>
    if matchesName name entry then (if keep then [makeEntry name value] else []) else [entry]
  if !entries.any (matchesName name) && keep then changed ++ [makeEntry name value] else changed

def setVar (state : DosState) (mem : Memory) (name value : List UInt8) (keepEmpty : Bool) :
    Except SetVarError Unit × Memory :=
  match readBlock state mem with
  | none => (.error .outOfSpace, mem)
  | some block =>
    writeBlock mem block (changeEntries (uppercase name) value keepEmpty block.entries)

/-! ### Blocks -/

open Neetan.Terminated

/-- What an environment holds: the entries, and the strings that the count word counts. -/
structure Contents where
  entries : List (List UInt8)
  strings : List (List UInt8)
  entries_proper : ∀ entry ∈ entries, entry ≠ [] ∧ 0 ∉ entry
  strings_free : ∀ s ∈ strings, 0 ∉ s
  count_lt : strings.length < 2 ^ 16

/-- The NULs that the last entry does not bring along. -/
def ending (entries : List (List UInt8)) : List UInt8 := if entries.isEmpty then [0, 0] else [0]

def entriesText (entries : List (List UInt8)) : List UInt8 := joined 0 entries ++ ending entries

def countWord (count : ℕ) : List UInt8 := [UInt8.ofNat count, UInt8.ofNat (count / 256)]

namespace Contents

variable (c : Contents)

/-- The count word and the strings behind it. -/
def trailer : List UInt8 := countWord c.strings.length ++ joined 0 c.strings

def bytes : List UInt8 := entriesText c.entries ++ c.trailer

end Contents

/-- The addresses of a block. -/
def InBlock (segment sizeBytes address : ℕ) : Prop :=
  segment * 16 ≤ address ∧ address < segment * 16 + sizeBytes

/-- The program that runs has an environment of these contents. Its prefix is not part of it. -/
structure Installed (state : DosState) (mem : Memory) (segment sizeBytes : ℕ) (c : Contents) :
    Prop where
  segment_eq : envSegment state mem = segment
  segment_pos : 0 < segment
  size_eq : blockSizeBytes mem segment = sizeBytes
  holds : c.bytes <+: ByteMemory.readBlock mem (segment * 16) sizeBytes
  apart : ¬ InBlock segment sizeBytes (state.currentPsp * 16 + pspOffEnvSeg) ∧
    ¬ InBlock segment sizeBytes (state.currentPsp * 16 + pspOffEnvSeg + 1)

/-! ### Names -/

lemma forall_byte {p : UInt8 → Prop} (small : ∀ n < 256, p (UInt8.ofNat n)) (byte : UInt8) :
    p byte := by
  have at_byte := small byte.toNat byte.toNat_lt
  rwa [UInt8.ofNat_toNat] at at_byte

lemma toAsciiLowercase_toAsciiUppercase (byte : UInt8) :
    toAsciiLowercase (toAsciiUppercase byte) = toAsciiLowercase byte := by
  revert byte
  exact forall_byte (by decide +kernel)

lemma toAsciiUppercase_plain (byte : UInt8) :
    (toAsciiUppercase byte = 0 → byte = 0) ∧
      (toAsciiUppercase byte = equals → byte = equals) := by
  revert byte
  exact forall_byte (by decide +kernel)

lemma eqIgnoreAsciiCase_iff {left right : List UInt8} :
    eqIgnoreAsciiCase left right ↔ left.map toAsciiLowercase = right.map toAsciiLowercase := by
  induction left generalizing right with
  | nil => cases right <;> simp [eqIgnoreAsciiCase]
  | cons l left ih =>
    cases right with
    | nil => simp [eqIgnoreAsciiCase]
    | cons r right =>
      rw [List.map_cons, List.map_cons, List.cons.injEq, ← ih]
      simp only [eqIgnoreAsciiCase, List.length_cons, List.zip_cons_cons, List.all_cons,
        Bool.and_eq_true, beq_iff_eq, Nat.add_right_cancel_iff]
      exact and_left_comm

lemma map_lowercase_uppercase (name : List UInt8) :
    (uppercase name).map toAsciiLowercase = name.map toAsciiLowercase := by
  rw [uppercase, List.map_map]
  exact List.map_congr_left fun byte _ => toAsciiLowercase_toAsciiUppercase byte

lemma eqIgnoreAsciiCase_uppercase {name other : List UInt8} (same : eqIgnoreAsciiCase other name)
    (left : List UInt8) :
    eqIgnoreAsciiCase left (uppercase other) = eqIgnoreAsciiCase left (uppercase name) := by
  rw [eqIgnoreAsciiCase_iff] at same
  rw [Bool.eq_iff_iff, eqIgnoreAsciiCase_iff, eqIgnoreAsciiCase_iff, map_lowercase_uppercase,
    map_lowercase_uppercase, same]

lemma splitEntry_makeEntry {name : List UInt8} (plain : equals ∉ name) (value : List UInt8) :
    splitEntry (makeEntry name value) = some (name, value) := by
  induction name with
  | nil => rw [makeEntry, List.nil_append, splitEntry, if_pos rfl]
  | cons byte name ih =>
    rw [List.mem_cons, not_or] at plain
    rw [makeEntry, List.cons_append, splitEntry, if_neg (Ne.symm plain.1)]
    rw [makeEntry] at ih
    rw [ih plain.2]
    rfl

lemma matchesName_makeEntry {name : List UInt8} (plain : equals ∉ name) (value : List UInt8) :
    matchesName name (makeEntry name value) := by
  rw [matchesName, splitEntry_makeEntry plain]
  exact eqIgnoreAsciiCase_iff.2 rfl

lemma nul_not_mem_uppercase {name : List UInt8} (free : 0 ∉ name) : 0 ∉ uppercase name := by
  intro mem
  obtain ⟨byte, byte_mem, eq⟩ := List.mem_map.1 mem
  exact free ((toAsciiUppercase_plain byte).1 eq ▸ byte_mem)

lemma equals_not_mem_uppercase {name : List UInt8} (plain : equals ∉ name) :
    equals ∉ uppercase name := by
  intro mem
  obtain ⟨byte, byte_mem, eq⟩ := List.mem_map.1 mem
  exact plain ((toAsciiUppercase_plain byte).2 eq ▸ byte_mem)

/-! ### Changing the entries -/

section Change

variable {name value : List UInt8} {keepEmpty : Bool} {entries : List (List UInt8)}

lemma findVar_cons (name entry : List UInt8) (entries : List (List UInt8)) :
    findVar name (entry :: entries) =
      if matchesName name entry then (splitEntry entry).map Prod.snd else findVar name entries := by
  unfold findVar matchesName
  rw [List.findSome?_cons]
  cases splitEntry entry with
  | none => rfl
  | some parts =>
    obtain ⟨entryName, value⟩ := parts
    by_cases same : eqIgnoreAsciiCase entryName name
    · simp [same]
    · simp [same]

/-- The entries of the name replaced, without a new one. -/
def replaceEntries (name value : List UInt8) (keep : Bool) (entries : List (List UInt8)) :
    List (List UInt8) :=
  entries.flatMap fun entry =>
    if matchesName name entry then (if keep then [makeEntry name value] else []) else [entry]

lemma replaceEntries_cons (keep : Bool) (entry : List UInt8) :
    replaceEntries name value keep (entry :: entries) =
      (if matchesName name entry then (if keep then [makeEntry name value] else []) else [entry]) ++
        replaceEntries name value keep entries := rfl

lemma findVar_replaceEntries (plain : equals ∉ name) (keep : Bool)
    (more : List (List UInt8)) :
    findVar name (replaceEntries name value keep entries ++ more) =
      if entries.any (matchesName name) ∧ keep then some value else findVar name more := by
  induction entries with
  | nil => simp [replaceEntries]
  | cons entry entries ih =>
    rw [replaceEntries_cons, List.append_assoc, List.any_cons]
    by_cases named : matchesName name entry
    · rw [if_pos named]
      cases keep with
      | true =>
        rw [if_pos rfl, List.singleton_append, findVar_cons, splitEntry_makeEntry plain,
          if_pos (matchesName_makeEntry plain value), if_pos (by simp [named])]
        rfl
      | false =>
        rw [if_neg (by simp), List.nil_append, ih, if_neg (by simp), if_neg (by simp)]
    · rw [if_neg named, List.singleton_append, findVar_cons, if_neg named, ih]
      simp [named]

/-- **The variable has its new value**, or none if it is dropped. -/
theorem findVar_changeEntries (plain : equals ∉ name) :
    findVar name (changeEntries name value keepEmpty entries) =
      if keepEmpty || !value.isEmpty then some value else none := by
  have made : findVar name [makeEntry name value] = some value := by
    rw [findVar_cons, if_pos (matchesName_makeEntry plain value), splitEntry_makeEntry plain]
    rfl
  have old := @findVar_replaceEntries name value entries plain
    (keepEmpty || !value.isEmpty)
  change findVar name (if _ then replaceEntries name value (keepEmpty || !value.isEmpty) entries ++
    [makeEntry name value] else replaceEntries name value (keepEmpty || !value.isEmpty) entries) = _
  cases named : entries.any (matchesName name) <;>
    cases keep : (keepEmpty || !value.isEmpty) <;> rw [named, keep] at old
  · simpa [findVar] using old []
  · simpa [made] using old [makeEntry name value]
  · simpa [findVar] using old []
  · simpa [findVar] using old []

lemma filter_replaceEntries (plain : equals ∉ name) (keep : Bool) :
    (replaceEntries name value keep entries).filter (fun entry => !matchesName name entry) =
      entries.filter fun entry => !matchesName name entry := by
  induction entries with
  | nil => rfl
  | cons entry entries ih =>
    rw [replaceEntries_cons, List.filter_append, ih]
    by_cases named : matchesName name entry
    · cases keep <;> simp [named, matchesName_makeEntry plain value]
    · simp [named]

/-- **The other entries stay**, in their order. -/
theorem filter_changeEntries (plain : equals ∉ name) :
    (changeEntries name value keepEmpty entries).filter (fun entry => !matchesName name entry) =
      entries.filter fun entry => !matchesName name entry := by
  have old := @filter_replaceEntries name value entries plain
    (keepEmpty || !value.isEmpty)
  change (if _ then replaceEntries name value (keepEmpty || !value.isEmpty) entries ++
    [makeEntry name value] else
      replaceEntries name value (keepEmpty || !value.isEmpty) entries).filter _ = _
  split
  · rw [List.filter_append, old]
    simp [matchesName_makeEntry plain value]
  · exact old

lemma mem_changeEntries {entry : List UInt8}
    (mem : entry ∈ changeEntries name value keepEmpty entries) :
    entry ∈ entries ∨ entry = makeEntry name value := by
  have replaced {keep : Bool} (mem : entry ∈ replaceEntries name value keep entries) :
      entry ∈ entries ∨ entry = makeEntry name value := by
    obtain ⟨old, old_mem, entry_mem⟩ := List.mem_flatMap.1 mem
    split at entry_mem
    · split at entry_mem
      · exact .inr (List.mem_singleton.1 entry_mem)
      · simp at entry_mem
    · exact .inl (List.mem_singleton.1 entry_mem ▸ old_mem)
  change entry ∈ (if _ then replaceEntries name value (keepEmpty || !value.isEmpty) entries ++
    [makeEntry name value] else
      replaceEntries name value (keepEmpty || !value.isEmpty) entries) at mem
  split at mem
  · obtain mem | mem := List.mem_append.1 mem
    · exact replaced mem
    · exact .inr (List.mem_singleton.1 mem)
  · exact replaced mem

lemma proper_changeEntries (name_free : 0 ∉ name) (value_free : 0 ∉ value)
    (proper : ∀ entry ∈ entries, entry ≠ [] ∧ 0 ∉ entry) :
    ∀ entry ∈ changeEntries name value keepEmpty entries, entry ≠ [] ∧ 0 ∉ entry := by
  intro entry mem
  obtain old | rfl := mem_changeEntries mem
  · exact proper entry old
  · refine ⟨by simp [makeEntry], ?_⟩
    rw [makeEntry, List.mem_append, List.mem_cons, not_or, not_or]
    exact ⟨name_free, by decide, value_free⟩

end Change

/-! ### Reading back -/

lemma readEntries_word (entry : List UInt8) {word : List UInt8} (free : 0 ∉ word)
    (some : entry ++ word ≠ []) (bytes : List UInt8) :
    readEntries entry (word ++ 0 :: bytes) =
      ((entry ++ word) :: (readEntries [] bytes).1, (readEntries [] bytes).2) := by
  induction word generalizing entry with
  | nil =>
    rw [List.append_nil] at some
    obtain ⟨first, rest, rfl⟩ := List.exists_cons_of_ne_nil some
    rw [List.nil_append, readEntries, if_pos rfl, List.append_nil]
    exact List.cons_ne_nil first rest
  | cons byte word ih =>
    rw [List.mem_cons, not_or] at free
    have next := ih (entry ++ [byte]) free.2 (by simp)
    rw [List.append_assoc, List.singleton_append] at next
    rw [List.cons_append, ← next]
    cases entry with
    | nil => rw [readEntries, if_neg (Ne.symm free.1), List.nil_append]
    | cons first rest =>
      rw [readEntries, if_neg (Ne.symm free.1)]
      exact List.cons_ne_nil first rest

/-- **The reader gives the entries back**, and looks for the trailer behind one more NUL. -/
theorem readEntries_joined {entries : List (List UInt8)}
    (proper : ∀ entry ∈ entries, entry ≠ [] ∧ 0 ∉ entry) (bytes : List UInt8) :
    readEntries [] (joined 0 entries ++ 0 :: bytes) =
      (entries, if bytes.head? = some 0 then readTrailer bytes.tail else []) := by
  induction entries with
  | nil => rw [joined_nil, List.nil_append, readEntries, if_pos rfl]
  | cons entry entries ih =>
    rw [List.forall_mem_cons] at proper
    rw [joined_cons, List.append_assoc, List.cons_append,
      readEntries_word [] proper.1.2 (by simpa using proper.1.1), ih proper.2, List.nil_append]

lemma fromBytes_countWord {count : ℕ} (count_lt : count < 2 ^ 16) :
    (UInt8.ofNat count).toNat + 256 * (UInt8.ofNat (count / 256)).toNat = count := by
  rw [UInt8.toNat_ofNat', UInt8.toNat_ofNat']
  omega

lemma readTrailer_trailer (c : Contents) (bytes : List UInt8) :
    readTrailer (c.trailer ++ bytes) = c.trailer := by
  rw [Contents.trailer, countWord, List.append_assoc, List.cons_append, List.cons_append,
    List.nil_append, readTrailer, fromBytes_countWord c.count_lt, lines_joined c.strings_free]
  rfl

/-- Behind the entries stand a NUL and the bytes where the reader looks for a second one. -/
lemma entriesText_append (entries : List (List UInt8)) (bytes : List UInt8) :
    entriesText entries ++ bytes =
      joined 0 entries ++ 0 :: (if entries.isEmpty then 0 :: bytes else bytes) := by
  rw [entriesText, ending, List.append_assoc]
  split <;> rfl

lemma readEntries_text {entries : List (List UInt8)}
    (proper : ∀ entry ∈ entries, entry ≠ [] ∧ 0 ∉ entry) (bytes : List UInt8) :
    (readEntries [] (entriesText entries ++ bytes)).1 = entries := by
  rw [entriesText_append, readEntries_joined proper]

/-! ### Writing -/

lemma writeEntries_eq (mem : Memory) (address : ℕ) (entries : List (List UInt8)) :
    writeEntries mem address entries =
      (ByteMemory.writeBlock mem address (joined 0 entries),
        address + (joined 0 entries).length) := by
  induction entries generalizing mem address with
  | nil => rfl
  | cons entry entries ih =>
    rw [writeEntries, ih, joined_cons, writeBlock_append, ByteMemory.writeBlock,
      List.length_append, List.length_cons]
    congr 1
    omega

lemma requiredLen_eq (entries : List (List UInt8)) (trailer : List UInt8) :
    requiredLen entries trailer = (entriesText entries ++ trailer).length := by
  rw [requiredLen, entriesText, ending, List.length_append, List.length_append, length_joined]
  split <;> rfl

/-- **What the writer does**: nothing, or the block is the new text and NULs behind it. -/
theorem writeBlock_eq (mem : Memory) (block : EnvironmentBlock) (entries : List (List UInt8)) :
    writeBlock mem block entries =
      if block.sizeBytes < requiredLen entries block.trailer then (.error .outOfSpace, mem)
      else
        (.ok (),
          ByteMemory.writeBlock
            (ByteMemory.writeBlock mem (block.segment * 16) (List.replicate block.sizeBytes 0))
            (block.segment * 16) (entriesText entries ++ block.trailer)) := by
  rw [writeBlock]
  split
  · rfl
  · cases empty : entries.isEmpty with
    | true =>
      simp only [writeEntries_eq, entriesText, ending, empty, if_true, writeBlock_append,
        ByteMemory.writeBlock, List.length_append, List.length_cons, List.length_nil]
      simp only [Nat.add_assoc]
    | false =>
      simp only [writeEntries_eq, entriesText, ending, empty, Bool.false_eq_true, if_false,
        writeBlock_append, ByteMemory.writeBlock, List.length_append, List.length_cons,
        List.length_nil]
      simp only [Nat.add_assoc, Nat.zero_add]

/-! ### A block that was written -/

section Written

variable {state : DosState} {mem : Memory} {segment sizeBytes : ℕ} {c : Contents}
  {text : List UInt8}

/-- The memory behind a write of the whole block. -/
def written (mem : Memory) (segment sizeBytes : ℕ) (text : List UInt8) : Memory :=
  ByteMemory.writeBlock
    (ByteMemory.writeBlock mem (segment * 16) (List.replicate sizeBytes 0)) (segment * 16) text

lemma readBlock_written (fits : text.length ≤ sizeBytes) :
    ByteMemory.readBlock (written mem segment sizeBytes text) (segment * 16) sizeBytes =
      text ++ List.replicate (sizeBytes - text.length) 0 := by
  have zeros := readBlock_writeBlock mem (segment * 16)
    (show (List.replicate sizeBytes (0 : UInt8)).length ≤ sizeBytes by simp)
  rw [List.length_replicate, List.drop_of_length_le (by simp), List.append_nil] at zeros
  rw [written, readBlock_writeBlock _ _ fits, zeros, List.drop_replicate]

lemma written_outside (fits : text.length ≤ sizeBytes) {a : ℕ}
    (outside : ¬ InBlock segment sizeBytes a) : written mem segment sizeBytes text a = mem a := by
  unfold InBlock at outside
  rw [written, writeBlock_outside _ _ (by omega),
    writeBlock_outside _ _ (by rw [List.length_replicate]; omega)]

lemma readWord_written (fits : text.length ≤ sizeBytes) {a : ℕ}
    (low : ¬ InBlock segment sizeBytes a) (high : ¬ InBlock segment sizeBytes (a + 1)) :
    readWord (written mem segment sizeBytes text) a = readWord mem a := by
  rw [readWord, readWord, written_outside fits low, written_outside fits high]

lemma mcb_outside {segment sizeBytes : ℕ} (segment_pos : 0 < segment)
    (segment_lt : segment < 2 ^ 16) (i : ℕ) (i_lt : i < 16) :
    ¬ InBlock segment sizeBytes ((segment + 0xFFFF) % 0x10000 * 16 + i) := by
  unfold InBlock
  omega

lemma readWord_lt (mem : Memory) (a : ℕ) : readWord mem a < 2 ^ 16 := by
  have low := (mem a).toNat_lt
  have high := (mem (a + 1)).toNat_lt
  unfold readWord
  omega

lemma Installed.segment_lt (installed : Installed state mem segment sizeBytes c) :
    segment < 2 ^ 16 := by
  rw [← installed.segment_eq]
  exact readWord_lt _ _

lemma Installed.size_ge (installed : Installed state mem segment sizeBytes c) :
    c.bytes.length ≤ sizeBytes := by
  have le := installed.holds.length_le
  rwa [length_readBlock] at le

lemma Contents.length_bytes (c : Contents) : 3 ≤ c.bytes.length := by
  have ending_pos : 1 ≤ (ending c.entries).length := by
    unfold ending
    split <;> simp
  simp only [bytes, trailer, countWord, entriesText, List.length_append, List.length_cons]
  omega

/-- What the reader finds in an installed environment. -/
theorem Installed.readBlock_eq (installed : Installed state mem segment sizeBytes c) :
    readBlock state mem = some
      { segment
        sizeBytes
        entries := c.entries
        trailer := (readEntries [] (ByteMemory.readBlock mem (segment * 16) sizeBytes)).2 } := by
  have size_ge := installed.size_ge
  have bytes_ge := c.length_bytes
  have entries_eq : (readEntries [] (ByteMemory.readBlock mem (segment * 16) sizeBytes)).1 =
      c.entries := by
    obtain ⟨rest, rest_eq⟩ := installed.holds
    rw [← rest_eq, Contents.bytes, List.append_assoc, readEntries_text c.entries_proper]
  simp only [readBlock, installed.segment_eq, installed.size_eq]
  rw [if_neg (by have := installed.segment_pos; omega), if_neg (by omega), ← entries_eq]

lemma Installed.written_frame (installed : Installed state mem segment sizeBytes c)
    (fits : text.length ≤ sizeBytes) :
    envSegment state (written mem segment sizeBytes text) = segment ∧
      blockSizeBytes (written mem segment sizeBytes text) segment = sizeBytes := by
  have outside := @mcb_outside segment sizeBytes installed.segment_pos installed.segment_lt
  have low := outside mcbOffSize (by decide)
  have high := outside (mcbOffSize + 1) (by decide)
  rw [← Nat.add_assoc] at high
  rw [envSegment, readWord_written fits installed.apart.1 installed.apart.2, blockSizeBytes,
    readWord_written fits low high]
  exact ⟨installed.segment_eq, installed.size_eq⟩

/-- **A variable of a block that was written is found among the entries that were written.** -/
theorem Installed.readVar_written (installed : Installed state mem segment sizeBytes c)
    {entries : List (List UInt8)} (proper : ∀ entry ∈ entries, entry ≠ [] ∧ 0 ∉ entry)
    {trailer : List UInt8} (fits : (entriesText entries ++ trailer).length ≤ sizeBytes)
    (name : List UInt8) :
    readVar state (written mem segment sizeBytes (entriesText entries ++ trailer)) name =
      findVar (uppercase name) entries := by
  obtain ⟨segment_eq, size_eq⟩ := installed.written_frame fits
  have size_ge := installed.size_ge
  have bytes_ge := c.length_bytes
  simp only [readVar, readBlock, segment_eq, size_eq]
  rw [if_neg (by have := installed.segment_pos; omega), if_neg (by omega)]
  simp only [readBlock_written fits, List.append_assoc, readEntries_text proper]

end Written

end Neetan.Environment
