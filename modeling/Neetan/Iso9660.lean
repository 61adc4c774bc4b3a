import Neetan.ByteReader
import Neetan.FatDir
import Mathlib.Data.List.Basic

/-!
The reader of ISO 9660 and High Sierra volumes: the walk over the records of a directory, the
search that resumes at an index, and the reading of a file in chunks.

A result is missing where a sum leaves its word or a slice leaves its bytes. A search feeds the
entries of a directory to its callback, so that searches which resume one another find the entries
that match, each once.
-/

namespace Neetan.Iso9660

open ByteReader LittleEndian MachineInt
open Fat (FcbName dotName dotDotName nameToFcb matchesPattern attrHidden attrSystem attrVolumeId
  attrDirectory)

def isoSectorSize : ℕ := 2048

def attrReadOnly : UInt8 := 0x01

/-- A CD-ROM drive: whether a disc is loaded, and the cooked sector at an address, as the number
of bytes that a read reports and the buffer that it leaves. -/
structure Cdrom where
  mediaLoaded : Bool
  readSectorCooked : ℕ → Option (ℕ × Vector UInt8 isoSectorSize)

/-- The bytes of a sector that count. -/
def Cdrom.sector (cdrom : Cdrom) (lba : ℕ) : Option (List UInt8) :=
  (cdrom.readSectorCooked lba).map fun (count, buffer) =>
    buffer.toList.take (min count isoSectorSize)

inductive VolumeFormat
  | iso9660
  | highSierra
  deriving DecidableEq, Repr

def VolumeFormat.flagsOffset : VolumeFormat → ℕ
  | iso9660 => 25
  | highSierra => 24

lemma VolumeFormat.flagsOffset_lt (format : VolumeFormat) : format.flagsOffset < 34 := by
  cases format <;> decide

structure IsoDirectory where
  startLba : UInt32
  dataLength : UInt32
  deriving DecidableEq

structure IsoVolume where
  format : VolumeFormat
  volumeLabel : List UInt8
  rootDirectory : IsoDirectory

structure IsoDirEntry where
  name : FcbName
  attr : UInt8
  time : UInt16
  date : UInt16
  startLba : UInt32
  fileSize : UInt32
  directory : Option IsoDirectory
  deriving DecidableEq

/-! ### Directory records -/

/-- The name of an identifier, without its version and the dots at its end. -/
def isoIdentifierToName (identifier : List UInt8) (isDirectory : Bool) : List UInt8 :=
  let name := if isDirectory then identifier else identifier.takeWhile (· != 0x3B)
  name.rdropWhile (· == 0x2E)

/-- The time and date of a recording date of year, month, day, hour, minute and second. -/
def isoDatetimeToDos (recordingTime : List UInt8) : UInt16 × UInt16 :=
  let year := 1900 + (recordingTime.getD 0 0).toNat
  let month := max 1 (min 12 (recordingTime.getD 1 0).toNat)
  let day := max 1 (min 31 (recordingTime.getD 2 0).toNat)
  let hour := min 23 (recordingTime.getD 3 0).toNat
  let minute := min 59 (recordingTime.getD 4 0).toNat
  let second := min 59 (recordingTime.getD 5 0).toNat
  let date := min ((year - 1980) * 512) 0xFFFF ||| month <<< 5 ||| day
  let time := hour <<< 11 ||| minute <<< 5 ||| second / 2
  (.ofNat time, .ofNat date)

/-- The entry of a record. The length is checked before each index. -/
def parseDirectoryRecord (record : List UInt8) (format : VolumeFormat) : Option IsoDirEntry :=
  if long : record.length < 34 then none
  else
    let nameLength := record[32].toNat
    if record.length < 33 + nameLength then none
    else
      let startLba := .ofNat (wordAt 4 record 2)
      let fileSize := .ofNat (wordAt 4 record 10)
      have := format.flagsOffset_lt
      let flags := record[format.flagsOffset]
      let isDirectory := flags &&& 0x02 != 0
      let identifier := (record.drop 33).take nameLength
      let name :=
        if identifier = [0] then dotName
        else if identifier = [1] then dotDotName
        else nameToFcb (isoIdentifierToName identifier isDirectory)
      let (time, date) := isoDatetimeToDos ((record.drop 18).take 6)
      some {
        name, time, date, startLba, fileSize
        attr := if isDirectory then attrDirectory else attrReadOnly
        directory := if isDirectory then some ⟨startLba, fileSize⟩ else none }

def isSelfOrParent (entry : IsoDirEntry) : Bool := entry.name = dotName ∨ entry.name = dotDotName

/-! ### The walk over a directory -/

/-- A reading of the volume; its errors are DOS error codes. -/
abbrev IsoM (α : Type) : Type := Reading ℕ α

inductive IterAction
  | cont
  | ret (entry : IsoDirEntry)

/-- What a walk leaves: the state of its callback, and the entry that it returned with its
record. -/
abbrev Walked (σ : Type) : Type := σ × Option (IsoDirEntry × List UInt8)

section Walk

variable {σ : Type} (callback : σ → IsoDirEntry → IsoM (σ × IterAction))

/-- The records of a sector from an offset on. -/
def scanRecords (format : VolumeFormat) (sector : List UInt8) (offset : ℕ) (state : σ) :
    IsoM (Walked σ) :=
  if inside : offset < sector.length then
    let recordLen := sector[offset].toNat
    if empty : recordLen = 0 then pure (state, none)
    else if sector.length < offset + recordLen then throw 0x001F
    else
      let record := (sector.drop offset).take recordLen
      match (parseDirectoryRecord record format).filter fun entry => !isSelfOrParent entry with
      | none => scanRecords format sector (offset + recordLen) state
      | some entry => do
        match ← callback state entry with
        | (state, .cont) => scanRecords format sector (offset + recordLen) state
        | (state, .ret entry) => pure (state, some (entry, record))
  else pure (state, none)
termination_by sector.length - offset

/-- The sectors from an index on. -/
def scanSectors (volume : IsoVolume) (directory : IsoDirectory) (cdrom : Cdrom) :
    ℕ → ℕ → σ → IsoM (Walked σ)
  | 0, _, state => pure (state, none)
  | n + 1, sectorIndex, state => do
    let lba ← orStop (checkedAdd 32 directory.startLba.toNat sectorIndex)
    let sector ← okOr 0x001F (cdrom.sector lba)
    match ← scanRecords callback volume.format sector 0 state with
    | (state, some found) => pure (state, some found)
    | (state, none) => scanSectors volume directory cdrom n (sectorIndex + 1) state

def sectorCount (length : UInt32) : ℕ := (length.toNat + (isoSectorSize - 1)) / isoSectorSize

def forEachEntry (volume : IsoVolume) (directory : IsoDirectory) (cdrom : Cdrom) (state : σ) :
    IsoM (Walked σ) :=
  if cdrom.mediaLoaded then
    scanSectors callback volume directory cdrom (sectorCount directory.dataLength) 0 state
  else throw 0x0015

end Walk

/-! ### Searches -/

/-- The volume label as the only entry of the root directory. -/
def volumeLabelEntry (volume : IsoVolume) (directory : IsoDirectory) (pattern : FcbName)
    (startIndex : UInt16) : Option (IsoDirEntry × UInt16) :=
  if startIndex ≠ 0 ∨ volume.volumeLabel = [] ∨
      directory.startLba ≠ volume.rootDirectory.startLba then none
  else
    let name : FcbName := Vector.ofFn fun i => volume.volumeLabel.getD i 0x20
    if matchesPattern name pattern then
      some ({
        name, attr := attrVolumeId, time := 0, date := 0, startLba := 0, fileSize := 0
        directory := none }, 1)
    else none

/-- The attributes of an entry that a search with this mask may return. -/
def matchesAttribute (attr attrMask : UInt8) : Bool :=
  if attr &&& attrHidden ≠ 0 ∧ attrMask &&& attrHidden = 0 then false
  else if attr &&& attrSystem ≠ 0 ∧ attrMask &&& attrSystem = 0 then false
  else if attr &&& attrDirectory ≠ 0 ∧ attrMask &&& attrDirectory = 0 then false
  else true

/-- The callback that counts entries and stops at the first match from a start index on. -/
def matchFrom (pattern : FcbName) (attrMask : UInt8) (startIndex currentIndex : ℕ)
    (entry : IsoDirEntry) : IsoM (ℕ × IterAction) := do
  let nextIndex ← orStop (checkedAdd 16 currentIndex 1)
  if currentIndex < startIndex then pure (nextIndex, .cont)
  else if matchesAttribute entry.attr attrMask && matchesPattern entry.name pattern then
    pure (nextIndex, .ret entry)
  else pure (nextIndex, .cont)

/-- The next match, and the index to resume from. -/
def findMatching (volume : IsoVolume) (directory : IsoDirectory) (pattern : FcbName)
    (attrMask : UInt8) (startIndex : UInt16) (cdrom : Cdrom) :
    IsoM (Option (IsoDirEntry × UInt16)) :=
  if attrMask = attrVolumeId then pure (volumeLabelEntry volume directory pattern startIndex)
  else do
    let (currentIndex, result) ←
      forEachEntry (matchFrom pattern attrMask startIndex.toNat) volume directory cdrom 0
    return result.map fun (entry, _) => (entry, .ofNat currentIndex)

/-! ### Files -/

/-- The sectors of a file from an address on. -/
def readSectors (cdrom : Cdrom) : ℕ → ℕ → IsoM (List UInt8)
  | 0, _ => pure []
  | n + 1, lba => do
    let sector ← okOr 0x001F (cdrom.sector lba)
    let sectors ← readSectors cdrom n (lba + 1)
    return sector ++ sectors

def readFileChunk (entry : IsoDirEntry) (position : UInt32) (maxBytes : ℕ) (cdrom : Cdrom) :
    IsoM (List UInt8) :=
  if entry.fileSize ≤ position ∨ maxBytes = 0 then pure []
  else do
    let bytesToRead := min (maxBytes % 2 ^ 32) (entry.fileSize.toNat - position.toNat)
    let startLba ← orStop (checkedAdd 32 entry.startLba.toNat (position.toNat / isoSectorSize))
    let endPosition := position.toNat + bytesToRead
    let endLba ← orStop (checkedAdd 32 entry.startLba.toNat
      ((endPosition + (isoSectorSize - 1)) / isoSectorSize))
    let result ← readSectors cdrom (endLba - startLba) startLba
    let offset := position.toNat % isoSectorSize
    slice result offset (offset + bytesToRead)

/-! ### Records -/

/-- The records of a sector, and the error where one of them crosses its end. -/
def records (sector : List UInt8) : List (List UInt8) × Option ℕ :=
  match sector with
  | [] => ([], none)
  | first :: rest =>
    if _empty : first.toNat = 0 then ([], none)
    else if rest.length + 1 < first.toNat then ([], some 0x001F)
    else
      let behind := records ((first :: rest).drop first.toNat)
      ((first :: rest).take first.toNat :: behind.1, behind.2)
termination_by sector.length
decreasing_by simp; omega

/-- The entries of records, without those of the directory itself and of its parent. -/
def accepted (format : VolumeFormat) (found : List (List UInt8)) : List IsoDirEntry :=
  found.filterMap fun record =>
    (parseDirectoryRecord record format).filter fun entry => !isSelfOrParent entry

/-- The entries of the sectors from an index on, up to the first error. -/
def listing (volume : IsoVolume) (directory : IsoDirectory) (cdrom : Cdrom) :
    ℕ → ℕ → List IsoDirEntry × Option ℕ
  | 0, _ => ([], none)
  | n + 1, sectorIndex =>
    match cdrom.sector (directory.startLba.toNat + sectorIndex) with
    | none => ([], some 0x001F)
    | some sector =>
      match records sector with
      | (found, some e) => (accepted volume.format found, some e)
      | (found, none) =>
        let behind := listing volume directory cdrom n (sectorIndex + 1)
        (accepted volume.format found ++ behind.1, behind.2)

/-- The entries of a directory, up to the first error. -/
def directoryListing (volume : IsoVolume) (directory : IsoDirectory) (cdrom : Cdrom) :
    List IsoDirEntry × Option ℕ :=
  if cdrom.mediaLoaded then
    listing volume directory cdrom (sectorCount directory.dataLength) 0
  else ([], some 0x0015)

/-! ### A walk feeds its callback -/

section Feed

variable {σ : Type} (callback : σ → IsoDirEntry → IsoM (σ × IterAction))

/-- A callback on entries, with the error behind them. -/
def feed (ending : Option ℕ) : List IsoDirEntry → σ → IsoM (σ × Option IsoDirEntry)
  | [], state =>
    match ending with
    | none => pure (state, none)
    | some e => throw e
  | entry :: rest, state => do
    match ← callback state entry with
    | (state, .cont) => feed ending rest state
    | (state, .ret entry) => pure (state, some entry)

/-- The result of a walk without the bytes of the record. -/
def stripped (walk : IsoM (Walked σ)) : IsoM (σ × Option IsoDirEntry) :=
  walk >>= fun found => pure (found.1, found.2.map Prod.fst)

/-- What goes on behind a walk that returned no entry. -/
def goOn (next : σ → IsoM (σ × Option IsoDirEntry)) :
    σ × Option IsoDirEntry → IsoM (σ × Option IsoDirEntry)
  | (state, none) => next state
  | (state, some entry) => pure (state, some entry)

variable {callback}

lemma feed_append (ending : Option ℕ) (first second : List IsoDirEntry) (state : σ) :
    feed callback ending (first ++ second) state =
      feed callback none first state >>= goOn (feed callback ending second) := by
  induction first generalizing state with
  | nil => exact (pure_bind _ _).symm
  | cons entry rest ih =>
    rw [List.cons_append, feed, feed, bind_assoc]
    refine congrArg _ (funext fun step => ?_)
    obtain ⟨state, _ | found⟩ := step
    · exact ih state
    · exact (pure_bind _ _).symm

lemma feed_error (e : ℕ) (entries : List IsoDirEntry) (next : σ → IsoM (σ × Option IsoDirEntry))
    (state : σ) :
    feed callback (some e) entries state >>= goOn next = feed callback (some e) entries state := by
  induction entries generalizing state with
  | nil => rfl
  | cons entry rest ih =>
    rw [feed, bind_assoc]
    refine congrArg _ (funext fun step => ?_)
    obtain ⟨state, _ | found⟩ := step
    · exact ih state
    · exact pure_bind _ _

lemma records_drop {sector : List UInt8} {offset : ℕ} (inside : offset < sector.length) :
    records (sector.drop offset) =
      if sector[offset].toNat = 0 then ([], none)
      else if sector.length < offset + sector[offset].toNat then ([], some 0x001F)
      else
        let behind := records (sector.drop (offset + sector[offset].toNat))
        ((sector.drop offset).take sector[offset].toNat :: behind.1, behind.2) := by
  have rest := List.drop_eq_getElem_cons inside
  have length : (sector.drop (offset + 1)).length + 1 = sector.length - offset := by
    rw [List.length_drop]
    omega
  rw [rest, records, ← rest, List.drop_drop, length]
  simp only [dite_eq_ite]
  congr 2
  exact propext ⟨fun cross => by omega, fun cross => by omega⟩

lemma accepted_cons (format : VolumeFormat) (record : List UInt8) (rest : List (List UInt8)) :
    accepted format (record :: rest) =
      match (parseDirectoryRecord record format).filter fun entry => !isSelfOrParent entry with
      | none => accepted format rest
      | some entry => entry :: accepted format rest := by
  cases kept : (parseDirectoryRecord record format).filter fun entry => !isSelfOrParent entry with
  | none => exact List.filterMap_cons_none kept
  | some entry => exact List.filterMap_cons_some kept

/-- **A walk over the records of a sector feeds their entries.** -/
theorem stripped_scanRecords (format : VolumeFormat) (sector : List UInt8) (offset : ℕ)
    (state : σ) :
    stripped (scanRecords callback format sector offset state) =
      feed callback (records (sector.drop offset)).2
        (accepted format (records (sector.drop offset)).1) state := by
  obtain ⟨left, remains⟩ : ∃ left, sector.length - offset = left := ⟨_, rfl⟩
  induction left using Nat.strong_induction_on generalizing offset state with
  | _ left ih =>
    rw [scanRecords]
    by_cases inside : offset < sector.length
    · rw [dif_pos inside, records_drop inside]
      simp only [dite_eq_ite]
      split_ifs with empty cross
      · exact pure_bind _ _
      · rfl
      · have ih := fun state => ih (sector.length - (offset + sector[offset].toNat)) (by omega)
          (offset + sector[offset].toNat) state rfl
        rw [accepted_cons]
        cases (parseDirectoryRecord ((sector.drop offset).take sector[offset].toNat) format).filter
          fun entry => !isSelfOrParent entry with
        | none => exact ih state
        | some entry =>
          refine (bind_assoc _ _ _).trans (congrArg _ (funext fun step => ?_))
          obtain ⟨state, _ | found⟩ := step
          · exact ih state
          · exact pure_bind _ _
    · rw [dif_neg inside, List.drop_eq_nil_of_le (Nat.not_lt.mp inside), records]
      exact pure_bind _ _

/-- **A walk over sectors feeds the entries of their listing**, when the numbers of the sectors
stay in their word. -/
theorem stripped_scanSectors {volume : IsoVolume} {directory : IsoDirectory} {cdrom : Cdrom}
    {n sectorIndex : ℕ} (fits : directory.startLba.toNat + sectorIndex + n ≤ 2 ^ 32) (state : σ) :
    stripped (scanSectors callback volume directory cdrom n sectorIndex state) =
      feed callback (listing volume directory cdrom n sectorIndex).2
        (listing volume directory cdrom n sectorIndex).1 state := by
  induction n generalizing sectorIndex state with
  | zero => exact pure_bind _ _
  | succ n ih =>
    have word : checkedAdd 32 directory.startLba.toNat sectorIndex =
        some (directory.startLba.toNat + sectorIndex) := if_pos (by omega)
    have start : scanSectors callback volume directory cdrom (n + 1) sectorIndex state =
        (do
          let sector ← okOr 0x001F (cdrom.sector (directory.startLba.toNat + sectorIndex))
          match ← scanRecords callback volume.format sector 0 state with
          | (state, some found) => pure (state, some found)
          | (state, none) =>
            scanSectors callback volume directory cdrom n (sectorIndex + 1) state) := by
      rw [scanSectors, word]
      exact pure_bind _ _
    rw [start, listing]
    cases read : cdrom.sector (directory.startLba.toNat + sectorIndex) with
    | none => rfl
    | some sector =>
      have walk := @stripped_scanRecords σ callback volume.format sector 0 state
      rw [List.drop_zero] at walk
      have run : stripped (do
          match ← scanRecords callback volume.format sector 0 state with
          | (state, some found) => pure (state, some found)
          | (state, none) =>
            scanSectors callback volume directory cdrom n (sectorIndex + 1) state) =
          stripped (scanRecords callback volume.format sector 0 state) >>=
            goOn fun state =>
              stripped (scanSectors callback volume directory cdrom n (sectorIndex + 1) state) := by
        rw [stripped, stripped, bind_assoc, bind_assoc]
        refine congrArg _ (funext fun found => ?_)
        obtain ⟨state, _ | found⟩ := found
        · exact (pure_bind _ _).symm
        · exact (pure_bind _ _).trans (pure_bind _ _).symm
      refine (congrArg stripped (pure_bind sector _)).trans (run.trans ?_)
      have fits' : directory.startLba.toNat + (sectorIndex + 1) + n ≤ 2 ^ 32 := by omega
      rw [walk, funext (ih fits')]
      rcases split : records sector with ⟨found, _ | e⟩
      · simp only [split]
        exact (feed_append _ _ _ _).symm
      · simp only [split]
        exact feed_error _ _ _ _

end Feed

/-! ### Searches that resume one another -/

section Search

variable {volume : IsoVolume} {directory : IsoDirectory} {pattern : FcbName} {attrMask : UInt8}
  {cdrom : Cdrom}

/-- The pattern and the attributes match. -/
def wanted (pattern : FcbName) (attrMask : UInt8) (entry : IsoDirEntry) : Bool :=
  matchesAttribute entry.attr attrMask && matchesPattern entry.name pattern

/-- What searches find from an index on, each from the index that the one before it returned, and
the error that ends them. -/
inductive Enumerates (volume : IsoVolume) (directory : IsoDirectory) (pattern : FcbName)
    (attrMask : UInt8) (cdrom : Cdrom) : UInt16 → List IsoDirEntry → Option ℕ → Prop
  | noMore {start : UInt16}
      (ended : findMatching volume directory pattern attrMask start cdrom = pure none) :
      Enumerates volume directory pattern attrMask cdrom start [] none
  | fails {start : UInt16} {e : ℕ}
      (error : findMatching volume directory pattern attrMask start cdrom = throw e) :
      Enumerates volume directory pattern attrMask cdrom start [] (some e)
  | finds {start next : UInt16} {entry : IsoDirEntry} {rest : List IsoDirEntry} {ending : Option ℕ}
      (found : findMatching volume directory pattern attrMask start cdrom =
        pure (some (entry, next)))
      (others : Enumerates volume directory pattern attrMask cdrom next rest ending) :
      Enumerates volume directory pattern attrMask cdrom start (entry :: rest) ending

/-- The callback steps over the entries before the start and those that do not match. -/
lemma feed_pass {ending : Option ℕ} {start current : ℕ} {passed rest : List IsoDirEntry}
    (few : current + passed.length < 2 ^ 16)
    (pass : ∀ i entry, passed[i]? = some entry →
      current + i < start ∨ wanted pattern attrMask entry = false) :
    feed (matchFrom pattern attrMask start) ending (passed ++ rest) current =
      feed (matchFrom pattern attrMask start) ending rest (current + passed.length) := by
  induction passed generalizing current with
  | nil => rfl
  | cons entry passed ih =>
    rw [List.length_cons] at few
    have word : checkedAdd 16 current 1 = some (current + 1) := if_pos (by omega)
    have step : matchFrom pattern attrMask start current entry = pure (current + 1, .cont) := by
      rw [matchFrom, word]
      refine (pure_bind _ _).trans ?_
      split_ifs with before matching
      · rfl
      · exact absurd matching (by
          rw [Bool.not_eq_true]
          exact (pass 0 entry rfl).resolve_left before)
      · rfl
    rw [List.cons_append, feed, step, pure_bind, List.length_cons, Nat.add_comm passed.length,
      ← Nat.add_assoc]
    refine ih (by omega) fun i other here => ?_
    have := pass (i + 1) other here
    rwa [← Nat.add_assoc, Nat.add_right_comm] at this

lemma findMatching_eq (ordinary : attrMask ≠ attrVolumeId)
    (fits : directory.startLba.toNat + sectorCount directory.dataLength ≤ 2 ^ 32)
    (start : UInt16) :
    findMatching volume directory pattern attrMask start cdrom =
      (do
        let (currentIndex, found) ← feed (matchFrom pattern attrMask start.toNat)
          (directoryListing volume directory cdrom).2 (directoryListing volume directory cdrom).1 0
        pure (found.map fun entry => (entry, .ofNat currentIndex))) := by
  rw [findMatching, if_neg ordinary, forEachEntry, directoryListing]
  split_ifs with loaded
  · rw [← stripped_scanSectors fits, stripped, bind_assoc]
    refine congrArg _ (funext fun walked => ?_)
    obtain ⟨index, _ | found⟩ := walked
    · exact (pure_bind _ _).symm
    · exact (pure_bind _ _).symm
  · rfl

lemma enumerates_from (ordinary : attrMask ≠ attrVolumeId)
    (fits : directory.startLba.toNat + sectorCount directory.dataLength ≤ 2 ^ 32)
    (few : (directoryListing volume directory cdrom).1.length < 2 ^ 16) {start : ℕ}
    (le : start ≤ (directoryListing volume directory cdrom).1.length) :
    Enumerates volume directory pattern attrMask cdrom (.ofNat start)
      (((directoryListing volume directory cdrom).1.drop start).filter (wanted pattern attrMask))
      (directoryListing volume directory cdrom).2 := by
  have search := @findMatching_eq volume directory pattern attrMask cdrom ordinary fits
  generalize directoryListing volume directory cdrom = listed at *
  obtain ⟨entries, ending⟩ := listed
  replace few : entries.length < 2 ^ 16 := few
  replace le : start ≤ entries.length := le
  obtain ⟨left, remains⟩ : ∃ left, entries.length - start = left := ⟨_, rfl⟩
  induction left using Nat.strong_induction_on generalizing start with
  | _ left ih =>
    have index : (UInt16.ofNat start).toNat = start :=
      UInt16.toNat_ofNat_of_lt' (Nat.lt_of_le_of_lt le few)
    have search := search (.ofNat start)
    rw [index] at search
    have before : (entries.take start).length = start := List.length_take_of_le le
    have pass (skipped : List IsoDirEntry)
        (none : ∀ entry ∈ skipped, wanted pattern attrMask entry = false) :
        ∀ i entry, (entries.take start ++ skipped)[i]? = some entry →
          0 + i < start ∨ wanted pattern attrMask entry = false := by
      intro i entry here
      refine or_iff_not_imp_left.2 fun behind => none entry ?_
      rw [List.getElem?_append_right (by omega)] at here
      exact List.mem_of_getElem? here
    cases some : (entries.drop start).filter (wanted pattern attrMask) with
    | nil =>
      have none (entry : IsoDirEntry) (mem : entry ∈ entries.drop start) :
          wanted pattern attrMask entry = false :=
        Bool.not_eq_true _ ▸ List.filter_eq_nil_iff.1 some entry mem
      have short : 0 + (entries.take start ++ entries.drop start).length < 2 ^ 16 := by
        rw [List.take_append_drop]
        omega
      have all := @feed_pass _ _ ending start 0 _ [] short (pass _ none)
      rw [List.append_nil, List.take_append_drop] at all
      rw [all] at search
      cases ending with
      | none => exact .noMore search
      | some e => exact .fails search
    | cons entry rest =>
      obtain ⟨skipped, behind, split, none, matching, rfl⟩ := List.filter_eq_cons_iff.1 some
      have whole : entries = (entries.take start ++ skipped) ++ entry :: behind := by
        rw [List.append_assoc, ← split, List.take_append_drop]
      have length : (entries.take start ++ skipped).length = start + skipped.length := by
        rw [List.length_append, before]
      have total : entries.length = start + skipped.length + (behind.length + 1) := by
        rw [congrArg List.length whole, List.length_append, length, List.length_cons]
      have behind_eq : entries.drop (start + skipped.length + 1) = behind := by
        rw [congrArg (List.drop _) whole, ← List.drop_drop, ← length, List.drop_left']
        · rfl
        · rfl
      have step : matchFrom pattern attrMask start (start + skipped.length) entry =
          pure (start + skipped.length + 1, .ret entry) := by
        have word : checkedAdd 16 (start + skipped.length) 1 =
            Option.some (start + skipped.length + 1) := if_pos (by omega)
        rw [matchFrom, word]
        refine (pure_bind _ _).trans ?_
        rw [if_neg (by omega)]
        exact if_pos matching
      have found : findMatching volume directory pattern attrMask (.ofNat start) cdrom =
          pure (Option.some (entry, .ofNat (start + skipped.length + 1))) := by
        have short : 0 + (entries.take start ++ skipped).length < 2 ^ 16 := by
          rw [length]
          omega
        have walk := @feed_pass _ _ ending start 0 _ (entry :: behind) short
          (pass skipped fun entry mem => by simpa using none entry mem)
        rw [← whole, length, Nat.zero_add, feed, step] at walk
        rw [search, walk]
        rfl
      have next_le : start + skipped.length + 1 ≤ entries.length := by omega
      have others := ih (entries.length - (start + skipped.length + 1)) (by omega) next_le rfl
      rw [behind_eq] at others
      exact .finds found others

/-- **Searches that resume one another find what matches**, in the order of the directory and each
once, up to the first sector that cannot be read and the first record that crosses its end. -/
theorem enumerates (ordinary : attrMask ≠ attrVolumeId)
    (fits : directory.startLba.toNat + sectorCount directory.dataLength ≤ 2 ^ 32)
    (few : (directoryListing volume directory cdrom).1.length < 2 ^ 16) :
    Enumerates volume directory pattern attrMask cdrom 0
      ((directoryListing volume directory cdrom).1.filter (wanted pattern attrMask))
      (directoryListing volume directory cdrom).2 :=
  enumerates_from ordinary fits few (Nat.zero_le _)

end Search

end Neetan.Iso9660
