import Neetan.FatDir
import Neetan.FatEntries

/-!
Listing a directory: when it comes to an end, and what it returns.

The listing searches the directory anew for each entry and resumes by the number of entries so
far, a number of 16 bits.
-/

namespace Neetan.Fat

open Disk Fallible MachineInt

/-! ### The Slots of a Directory -/

/-- The bytes of a slot, with its place on disk. -/
structure Slot where
  sector : ℕ
  offset : ℕ
  bytes : List UInt8

/-- The slot ends the directory. -/
def Slot.isEnd (slot : Slot) : Bool := slot.bytes.head? == some 0

/-- The slot is in use no longer, or none of its bytes is missing. -/
def Slot.Whole (slot : Slot) : Prop :=
  slot.bytes.head? = some deletedEntryMarker ∨ slot.bytes.length = dirEntrySize

instance (slot : Slot) : Decidable slot.Whole :=
  inferInstanceAs (Decidable (_ ∨ _))

def Slot.entry (human68k : Bool) (slot : Slot) : Option DirEntry :=
  parseEntry slot.bytes slot.sector slot.offset human68k

def slotAt (sector : ℕ) (data : List UInt8) (i : ℕ) : Slot :=
  ⟨sector, i * dirEntrySize, (data.drop (i * dirEntrySize)).take dirEntrySize⟩

def sectorSlots (vol : FatVolume) (sector : ℕ) (data : List UInt8) : List Slot :=
  (List.range vol.entriesPerSector).map (slotAt sector data)

/-- The slots before the first one that ends the directory, or the status of a read. -/
def liveSlots {δ : Type} [DiskIo δ] (vol : FatVolume) (disk : δ) :
    List ℕ → Except ℕ (List Slot)
  | [] => .ok []
  | sector :: rest =>
    match sectorsOf disk vol.deviceId sector vol.sectorRatio with
    | .error status => .error status
    | .ok data =>
      let slots := sectorSlots vol sector data
      if slots.any Slot.isEnd then .ok (slots.takeWhile fun slot => !slot.isEnd)
      else (liveSlots vol disk rest).map (slots ++ ·)

/-- The entries of a directory with these slots. -/
def acceptedEntries (vol : FatVolume) (slots : List Slot) : List DirEntry :=
  slots.filterMap (Slot.entry vol.human68k)

/-! ### One Search -/

/-- The callback, on one entry after the other. -/
def feed {σ : Type} (callback : σ → DirEntry → σ × IterAction) :
    σ → List DirEntry → σ × Option DirEntry
  | state, [] => (state, none)
  | state, entry :: rest =>
    match callback state entry with
    | (state, .cont) => feed callback state rest
    | (state, .ret entry) => (state, some entry)

section

variable {σ : Type} {callback : σ → DirEntry → σ × IterAction}

lemma feed_append (state : σ) (first second : List DirEntry) :
    feed callback state (first ++ second) =
      match feed callback state first with
      | (state, none) => feed callback state second
      | (state, some entry) => (state, some entry) := by
  induction first generalizing state with
  | nil => rfl
  | cons entry rest ih =>
    simp only [List.cons_append, feed]
    cases hstep : callback state entry with
    | mk state' action =>
      cases action with
      | cont => exact ih state'
      | ret entry => rfl

/-- How the search of a sector ends when the callback saw its entries. -/
def scanOf (slots : List Slot) (result : σ × Option DirEntry) : Scan σ :=
  match result with
  | (state, some entry) => .found state entry
  | (state, none) => if slots.any Slot.isEnd then .ended state else .going state

lemma scanOf_cons {slot : Slot} (h : slot.isEnd = false) (rest : List Slot)
    (result : σ × Option DirEntry) : scanOf (slot :: rest) result = scanOf rest result := by
  unfold scanOf
  rw [List.any_cons, h, Bool.false_or]

lemma parseEntry_deleted {data : List UInt8} {sector offset : ℕ} {human68k : Bool}
    (h : data.head? = some deletedEntryMarker) : parseEntry data sector offset human68k = none := by
  have hfirst : data.getD 0 0 = deletedEntryMarker := by
    rw [List.getD_eq_getElem?_getD, ← List.head?_eq_getElem?, h]
    rfl
  unfold parseEntry
  dsimp only
  split_ifs with hlen hmark
  · rfl
  · rfl
  · exact absurd (.inr hfirst) hmark
  · exact absurd (.inr hfirst) hmark
  · exact absurd (.inr hfirst) hmark

lemma slice?_dirEntry (data : List UInt8) (offset : ℕ) :
    slice? data offset dirEntrySize =
      if ((data.drop offset).take dirEntrySize).length = dirEntrySize then
        some ((data.drop offset).take dirEntrySize) else none := by
  have hiff : offset + dirEntrySize ≤ data.length ↔
      ((data.drop offset).take dirEntrySize).length = dirEntrySize := by
    rw [List.length_take, List.length_drop]
    unfold dirEntrySize
    omega
  exact if_congr hiff rfl rfl

lemma scanSlots_cons (callback : σ → DirEntry → σ × IterAction) (human68k : Bool) (sector : ℕ)
    (data : List UInt8) (i : ℕ) (rest : List ℕ) (state : σ) :
    scanSlots human68k sector data callback (i :: rest) state =
      if (slotAt sector data i).isEnd then .ended state
      else if (slotAt sector data i).Whole then
        match (slotAt sector data i).entry human68k with
        | none => scanSlots human68k sector data callback rest state
        | some entry =>
          match callback state entry with
          | (state, .cont) => scanSlots human68k sector data callback rest state
          | (state, .ret entry) => .found state entry
      else .panicked := by
  have hhead : (slotAt sector data i).bytes.head? = data[i * dirEntrySize]? := by
    change ((data.drop (i * dirEntrySize)).take dirEntrySize).head? = _
    rw [List.head?_take, if_neg (by decide), List.head?_drop]
  have hend : (slotAt sector data i).isEnd = true ↔ data[i * dirEntrySize]? = some 0 := by
    rw [← hhead]
    exact beq_iff_eq
  rw [scanSlots]
  cases hbyte : data[i * dirEntrySize]? with
  | none =>
    -- the slot is outside the data
    have hlen : (slotAt sector data i).bytes.length ≠ dirEntrySize := by
      have hle := List.getElem?_eq_none_iff.mp hbyte
      change ((data.drop (i * dirEntrySize)).take dirEntrySize).length ≠ _
      rw [List.drop_of_length_le hle]
      decide
    have hmissing : ¬ (slotAt sector data i).Whole := by
      rintro (h | h)
      · rw [hhead, hbyte] at h
        cases h
      · exact hlen h
    rw [if_neg (by rw [hend, hbyte]; simp), if_neg hmissing]
  | some byte =>
    by_cases hzero : byte = 0
    · dsimp only
      rw [if_pos hzero, if_pos (hend.mpr (by rw [hbyte, hzero]))]
    rw [if_neg (by rw [hend, hbyte]; simpa using hzero)]
    dsimp only
    rw [if_neg hzero]
    by_cases hdeleted : byte = deletedEntryMarker
    · have hmark := hhead.trans (hbyte.trans (congrArg some hdeleted))
      have hnone : (slotAt sector data i).entry human68k = none := parseEntry_deleted hmark
      rw [if_pos hdeleted, if_pos (.inl hmark), hnone]
    have hwhole : (slotAt sector data i).Whole ↔
        ((data.drop (i * dirEntrySize)).take dirEntrySize).length = dirEntrySize := by
      refine or_iff_right fun h => hdeleted ?_
      rw [hhead, hbyte] at h
      exact Option.some.inj h
    rw [if_neg hdeleted, slice?_dirEntry]
    by_cases hlen : ((data.drop (i * dirEntrySize)).take dirEntrySize).length = dirEntrySize
    · rw [if_pos hlen, if_pos (hwhole.mpr hlen)]
      rfl
    · rw [if_neg hlen, if_neg (fun h => hlen (hwhole.mp h))]

lemma scanSlots_eq (callback : σ → DirEntry → σ × IterAction) (human68k : Bool) (sector : ℕ)
    {data : List UInt8} (indices : List ℕ) (state : σ)
    (hwhole : ∀ slot ∈ (indices.map (slotAt sector data)).takeWhile fun slot => !slot.isEnd,
      slot.Whole) :
    scanSlots human68k sector data callback indices state =
      let slots := indices.map (slotAt sector data)
      scanOf slots (feed callback state
        ((slots.takeWhile fun slot => !slot.isEnd).filterMap (Slot.entry human68k))) := by
  induction indices generalizing state with
  | nil => rfl
  | cons i rest ih =>
    rw [scanSlots_cons]
    dsimp only
    rw [List.map_cons] at hwhole ⊢
    by_cases hend : (slotAt sector data i).isEnd = true
    · rw [if_pos hend, List.takeWhile_cons_of_neg (by rw [hend]; simp)]
      unfold scanOf
      simp [feed, hend]
    have hlive : (slotAt sector data i).isEnd = false := Bool.not_eq_true _ ▸ hend
    rw [List.takeWhile_cons_of_pos (by rw [hlive]; rfl)] at hwhole ⊢
    have hrest := fun state => ih state fun slot hslot =>
      hwhole slot (List.mem_cons_of_mem _ hslot)
    rw [if_neg hend, if_pos (hwhole _ List.mem_cons_self), scanOf_cons hlive]
    cases hparse : (slotAt sector data i).entry human68k with
    | none =>
      rw [List.filterMap_cons_none hparse]
      exact hrest state
    | some entry =>
      rw [List.filterMap_cons_some hparse]
      unfold feed
      dsimp only
      cases hstep : callback state entry with
      | mk state' action =>
        cases action with
        | cont => exact hrest state'
        | ret entry => rfl

/-- A search that comes to the end of the sector found nothing missing. -/
lemma whole_of_scanSlots {human68k : Bool} {sector : ℕ} {data : List UInt8} {indices : List ℕ}
    {state : σ} (hpanic : scanSlots human68k sector data callback indices state ≠ .panicked)
    (hfound : ∀ state' entry,
      scanSlots human68k sector data callback indices state ≠ .found state' entry) :
    ∀ slot ∈ (indices.map (slotAt sector data)).takeWhile fun slot => !slot.isEnd,
      slot.Whole := by
  induction indices generalizing state with
  | nil => simp
  | cons i rest ih =>
    rw [scanSlots_cons] at hpanic hfound
    rw [List.map_cons]
    by_cases hend : (slotAt sector data i).isEnd = true
    · rw [List.takeWhile_cons_of_neg (by rw [hend]; simp)]
      simp
    have hlive : (slotAt sector data i).isEnd = false := Bool.not_eq_true _ ▸ hend
    rw [List.takeWhile_cons_of_pos (by rw [hlive]; rfl), List.forall_mem_cons]
    rw [if_neg hend] at hpanic hfound
    by_cases hwhole : (slotAt sector data i).Whole
    · rw [if_pos hwhole] at hpanic hfound
      refine ⟨hwhole, ?_⟩
      cases hparse : (slotAt sector data i).entry human68k with
      | none =>
        simp only [hparse] at hpanic hfound
        exact ih hpanic hfound
      | some entry =>
        simp only [hparse] at hpanic hfound
        cases hstep : callback state entry with
        | mk state' action =>
          simp only [hstep] at hpanic hfound
          cases action with
          | cont => exact ih hpanic hfound
          | ret entry => exact absurd rfl (hfound state' entry)
    · rw [if_neg hwhole] at hpanic
      exact absurd rfl hpanic

end

section

variable {δ : Type} [DiskIo δ] {vol : FatVolume} {disk disk' : δ} {sectors : List ℕ}
  {slots : List Slot} {σ : Type} {callback : σ → DirEntry → σ × IterAction}

lemma readSectorAbs_ends [LawfulDisk δ] {sector : ℕ} {data : List UInt8}
    (hsame : SameDisk disk disk')
    (h : sectorsOf disk vol.deviceId sector vol.sectorRatio = .ok data) :
    (vol.readSectorAbs sector).Ends disk' fun r disk'' => r = .ok data ∧ SameDisk disk disk'' := by
  refine (readSectors_ends disk' _ _ _).mono ?_
  rintro r disk'' ⟨hsame', rfl⟩
  rw [hsame.sectors, h]
  exact ⟨rfl, hsame.trans hsame'⟩

lemma takeWhile_of_not_any {slots : List Slot} (h : ¬ slots.any Slot.isEnd = true) :
    (slots.takeWhile fun slot => !slot.isEnd) = slots := by
  rw [List.takeWhile_eq_self_iff]
  intro slot hslot
  rw [Bool.not_eq_eq_eq_not, Bool.not_true, ← Bool.not_eq_true]
  exact fun htrue => h (List.any_eq_true.mpr ⟨slot, hslot, htrue⟩)

/-- The directory ends in the sector that is read, or goes on in the sectors behind it. -/
lemma liveSlots_cons {sector : ℕ} {rest : List ℕ}
    (h : liveSlots vol disk (sector :: rest) = .ok slots) :
    ∃ data, sectorsOf disk vol.deviceId sector vol.sectorRatio = .ok data ∧
      ((sectorSlots vol sector data).any Slot.isEnd = true ∧
          slots = (sectorSlots vol sector data).takeWhile (fun slot => !slot.isEnd) ∨
        ¬ (sectorSlots vol sector data).any Slot.isEnd = true ∧
          ∃ behind, liveSlots vol disk rest = .ok behind ∧
            slots = sectorSlots vol sector data ++ behind) := by
  unfold liveSlots at h
  cases hread : sectorsOf disk vol.deviceId sector vol.sectorRatio with
  | error e =>
    rw [hread] at h
    cases h
  | ok data =>
    simp only [hread] at h
    refine ⟨data, rfl, ?_⟩
    by_cases hend : (sectorSlots vol sector data).any Slot.isEnd = true
    · rw [if_pos hend] at h
      exact .inl ⟨hend, (Except.ok.inj h).symm⟩
    · rw [if_neg hend] at h
      cases hrest : liveSlots vol disk rest with
      | error e =>
        rw [hrest] at h
        cases h
      | ok behind =>
        rw [hrest] at h
        exact .inr ⟨hend, behind, rfl, (Except.ok.inj h).symm⟩

/-- The search of the sectors feeds the entries of the live slots to the callback. -/
lemma scanSectors_ends [LawfulDisk δ] (callback : σ → DirEntry → σ × IterAction)
    (hslots : liveSlots vol disk sectors = .ok slots) (hwhole : ∀ slot ∈ slots, slot.Whole)
    (hsame : SameDisk disk disk') (state : σ) :
    (scanSectors vol callback sectors state).Ends disk' fun r disk'' =>
      r = .ok (feed callback state (acceptedEntries vol slots)) ∧ SameDisk disk disk'' := by
  induction sectors generalizing slots disk' state with
  | nil =>
    cases hslots
    exact ends_pure ⟨rfl, hsame⟩
  | cons sector rest ih =>
    obtain ⟨data, hread, hlive⟩ := liveSlots_cons hslots
    refine (readSectorAbs_ends hsame hread).bind_value fun disk₁ hsame₁ => ?_
    have hscan (hlive : ∀ slot ∈ (sectorSlots vol sector data).takeWhile fun slot =>
          !slot.isEnd, slot.Whole) :
        scanSlots vol.human68k sector data callback (List.range vol.entriesPerSector)
        state = scanOf (sectorSlots vol sector data) (feed callback state
          (acceptedEntries vol
            ((sectorSlots vol sector data).takeWhile fun slot => !slot.isEnd))) :=
      scanSlots_eq callback vol.human68k sector (List.range vol.entriesPerSector) state hlive
    obtain ⟨hend, rfl⟩ | ⟨hend, behind, hrest, rfl⟩ := hlive
    · -- the directory ends in this sector
      rw [hscan hwhole]
      cases hfeed : feed callback state (acceptedEntries vol
          ((sectorSlots vol sector data).takeWhile fun slot => !slot.isEnd)) with
      | mk state' result =>
        cases result with
        | some entry => exact ends_pure ⟨rfl, hsame₁⟩
        | none =>
          unfold scanOf
          simp only [if_pos hend]
          exact ends_pure ⟨rfl, hsame₁⟩
    · -- it goes on in the sectors behind
      have hall := takeWhile_of_not_any hend
      have hentries : acceptedEntries vol (sectorSlots vol sector data ++ behind) =
          acceptedEntries vol (sectorSlots vol sector data) ++ acceptedEntries vol behind :=
        List.filterMap_append
      rw [List.forall_mem_append] at hwhole
      rw [hscan (hall.symm ▸ hwhole.1), hall, hentries, feed_append]
      cases hfeed : feed callback state (acceptedEntries vol (sectorSlots vol sector data)) with
      | mk state' result =>
        cases result with
        | some entry => exact ends_pure ⟨rfl, hsame₁⟩
        | none =>
          unfold scanOf
          simp only [if_neg hend]
          exact ih hrest hwhole.2 hsame₁ state'

/-- A search that returns nothing went through all live slots. -/
lemma whole_of_scanSectors [LawfulDisk δ] {state : σ} {result : σ × Option DirEntry}
    {disk'' : δ} (hslots : liveSlots vol disk sectors = .ok slots) (hsame : SameDisk disk disk')
    (h : scanSectors vol callback sectors state disk' = some (.ok result, disk''))
    (hnone : result.2 = none) : ∀ slot ∈ slots, slot.Whole := by
  induction sectors generalizing slots disk' state with
  | nil =>
    cases hslots
    simp
  | cons sector rest ih =>
    obtain ⟨data, hread, hlive⟩ := liveSlots_cons hslots
    obtain ⟨r, disk₁, hrun, rfl, hsame₁⟩ := readSectorAbs_ends hsame hread
    unfold scanSectors at h
    rw [bind_of_ok hrun] at h
    have hpassed : ∃ state', scanSlots vol.human68k sector data callback
        (List.range vol.entriesPerSector) state = .ended state' ∨
        scanSlots vol.human68k sector data callback (List.range vol.entriesPerSector) state =
          .going state' := by
      cases hscan : scanSlots vol.human68k sector data callback
          (List.range vol.entriesPerSector) state with
      | panicked =>
        rw [hscan] at h
        cases h
      | found state' entry =>
        rw [hscan] at h
        cases h
        cases hnone
      | ended state' => exact ⟨state', .inl rfl⟩
      | going state' => exact ⟨state', .inr rfl⟩
    have hwhole : ∀ slot ∈ (sectorSlots vol sector data).takeWhile fun slot => !slot.isEnd,
        slot.Whole := by
      obtain ⟨state', hscan | hscan⟩ := hpassed
      · exact whole_of_scanSlots (by rw [hscan]; simp) (by rw [hscan]; simp)
      · exact whole_of_scanSlots (by rw [hscan]; simp) (by rw [hscan]; simp)
    obtain ⟨hend, rfl⟩ | ⟨hend, behind, hrest, rfl⟩ := hlive
    · exact hwhole
    · rw [List.forall_mem_append]
      obtain ⟨state', hscan | hscan⟩ := hpassed
      · -- no slot of the sector ended the directory
        have heq : .ended state' = scanOf (sectorSlots vol sector data) _ :=
          hscan.symm.trans (scanSlots_eq callback vol.human68k sector _ state hwhole)
        unfold scanOf at heq
        split at heq
        · cases heq
        · rw [if_neg hend] at heq
          cases heq
      · rw [hscan] at h
        exact ⟨takeWhile_of_not_any hend ▸ hwhole, ih hrest hsame₁ h⟩

/-! ### The Next Entry -/

lemma matchesAttribute_listMask (attr : UInt8) : matchesAttribute attr listMask = true := by
  have hvolume : listMask &&& attrVolumeId ≠ 0 := by decide
  have hhidden : listMask &&& attrHidden ≠ 0 := by decide
  have hsystem : listMask &&& attrSystem ≠ 0 := by decide
  have hdirectory : listMask &&& attrDirectory ≠ 0 := by decide
  have hother : listMask ≠ attrVolumeId := by decide
  unfold matchesAttribute
  rw [if_neg fun h => hvolume h.2, if_neg fun h => hother h.1, if_neg fun h => hhidden h.2,
    if_neg fun h => hsystem h.2, if_neg fun h => hdirectory h.2]

lemma matchesPattern_anyPattern (name : FcbName) : matchesPattern name anyPattern = true := by
  unfold matchesPattern
  rw [List.all_eq_true]
  rintro ⟨byte, wanted⟩ hmem
  have hwanted : wanted ∈ List.replicate 11 (0x3F : UInt8) := (List.of_mem_zip hmem).2
  rw [List.eq_of_mem_replicate hwanted]
  rfl

lemma matchFrom_of_lt {index current : ℕ} (h : current < index) (entry : DirEntry) :
    matchFrom anyPattern listMask index current entry = (wrappingAdd 16 current 1, .cont) :=
  if_pos h

lemma matchFrom_self (index : ℕ) (entry : DirEntry) :
    matchFrom anyPattern listMask index index entry = (wrappingAdd 16 index 1, .ret entry) := by
  unfold matchFrom
  simp only [if_neg (Nat.lt_irrefl index), matchesAttribute_listMask, matchesPattern_anyPattern,
    Bool.and_self, if_true]

lemma feed_matchFrom {index current : ℕ} (entries : List DirEntry) (hle : current ≤ index)
    (hword : index < 2 ^ 16) :
    feed (matchFrom anyPattern listMask index) current entries =
      match entries[index - current]? with
      | some entry => (wrappingAdd 16 index 1, some entry)
      | none => (current + entries.length, none) := by
  induction entries generalizing current with
  | nil => rfl
  | cons entry rest ih =>
    rcases hle.lt_or_eq with hlt | rfl
    · have hnext : wrappingAdd 16 current 1 = current + 1 := wrappingAdd_of_lt (by omega)
      have hindex : index - current = index - (current + 1) + 1 := by omega
      rw [feed, matchFrom_of_lt hlt, hnext]
      dsimp only
      have hcount : current.succ + rest.length = current + (rest.length + 1) := by omega
      rw [ih hlt, hindex, List.getElem?_cons_succ, List.length_cons, hcount]
    · rw [feed, matchFrom_self, Nat.sub_self, List.getElem?_cons_zero]

lemma findMatching_ends [LawfulDisk δ] {dirCluster index : ℕ}
    (hsectors : vol.dirSectors dirCluster = .ok sectors)
    (hslots : liveSlots vol disk sectors = .ok slots) (hwhole : ∀ slot ∈ slots, slot.Whole)
    (hsame : SameDisk disk disk')
    (hword : index < 2 ^ 16) :
    (mapped (findMatching vol dirCluster anyPattern listMask index)).Ends disk' fun r disk'' =>
      r = .ok ((acceptedEntries vol slots)[index]?.map fun entry =>
        (entry, wrappingAdd 16 index 1)) ∧ SameDisk disk disk'' := by
  obtain ⟨r, disk'', hrun, rfl, hsame'⟩ :=
    scanSectors_ends (matchFrom anyPattern listMask index) hslots hwhole hsame 0
  rw [feed_matchFrom _ (Nat.zero_le _) hword] at hrun
  refine ⟨_, disk'', ?_, rfl, hsame'⟩
  unfold mapped findMatching forEachEntry
  rw [hsectors]
  have hrun' : (Fallible.ofExcept (Except.ok sectors) >>= fun sectors =>
      scanSectors vol (matchFrom anyPattern listMask index) sectors 0) disk' = some _ := hrun
  rw [bind_of_ok hrun']
  cases (acceptedEntries vol slots)[index]? with
  | some entry => rfl
  | none => rfl

/-! ### The Whole Listing -/

/-- What a listing of these entries returns. -/
def listing (vol : FatVolume) (entries : List DirEntry) : List Metadata :=
  (entries.filter isListed).map (metadataFromEntry vol)

lemma listing_cons (vol : FatVolume) (entry : DirEntry) (rest : List DirEntry) :
    listing vol (entry :: rest) =
      (if isListed entry then [metadataFromEntry vol entry] else []) ++ listing vol rest := by
  unfold listing
  rw [List.filter_cons]
  split_ifs <;> rfl

lemma listClusterDirLoop_ends [LawfulDisk δ] {dirCluster fuel index : ℕ} (out : List Metadata)
    (hsectors : vol.dirSectors dirCluster = .ok sectors)
    (hslots : liveSlots vol disk sectors = .ok slots) (hwhole : ∀ slot ∈ slots, slot.Whole)
    (hsame : SameDisk disk disk')
    (hfew : (acceptedEntries vol slots).length < 2 ^ 16)
    (hindex : index ≤ (acceptedEntries vol slots).length)
    (hfuel : (acceptedEntries vol slots).length < fuel + index) :
    (listClusterDirLoop vol dirCluster fuel index out).Ends disk' fun r disk'' =>
      r = .ok (out ++ listing vol ((acceptedEntries vol slots).drop index)) ∧
        SameDisk disk disk'' := by
  induction fuel generalizing index out disk' with
  | zero => omega
  | succ fuel ih =>
    unfold listClusterDirLoop
    refine (findMatching_ends hsectors hslots hwhole hsame
      (hindex.trans_lt hfew)).bind_value fun disk₁ hsame₁ => ?_
    rcases Nat.lt_or_ge index (acceptedEntries vol slots).length with hlt | hge
    · -- the entry at the index, then the rest from the next one on
      have hone : wrappingAdd 16 index 1 = index + 1 := wrappingAdd_of_lt (by omega)
      rw [List.getElem?_eq_getElem hlt, Option.map_some, hone]
      refine (ih _ hsame₁ hlt (by omega)).mono ?_
      rintro r disk₂ ⟨rfl, hsame₂⟩
      refine ⟨?_, hsame₂⟩
      rw [List.drop_eq_getElem_cons hlt, listing_cons]
      split_ifs <;> simp
    · rw [List.getElem?_eq_none hge, Option.map_none, List.drop_of_length_le hge]
      exact ends_pure ⟨by simp [listing], hsame₁⟩

/-- With 65536 entries the index comes back to the start, and the listing goes on forever. -/
lemma listClusterDirLoop_eq_none [LawfulDisk δ] {dirCluster fuel index : ℕ} {out : List Metadata}
    (hsectors : vol.dirSectors dirCluster = .ok sectors)
    (hslots : liveSlots vol disk sectors = .ok slots) (hwhole : ∀ slot ∈ slots, slot.Whole)
    (hsame : SameDisk disk disk')
    (hmany : 2 ^ 16 ≤ (acceptedEntries vol slots).length) (hword : index < 2 ^ 16) :
    listClusterDirLoop vol dirCluster fuel index out disk' = none := by
  induction fuel generalizing index out disk' with
  | zero => rfl
  | succ fuel ih =>
    obtain ⟨r, disk₁, hrun, rfl, hsame₁⟩ :=
      findMatching_ends hsectors hslots hwhole hsame hword
    unfold listClusterDirLoop
    rw [bind_of_ok hrun, List.getElem?_eq_getElem (hword.trans_le hmany)]
    exact ih hsame₁ (wrappingAdd_lt 16 index 1)

/-! ### Paths -/

/-- The computation only reads the disk. -/
def Keeps {ε α : Type} (m : Fallible δ ε α) : Prop :=
  ∀ disk r disk', m disk = some (r, disk') → SameDisk disk disk'

section

variable {ε α β : Type}

lemma keeps_pure (a : α) : Keeps (pure a : Fallible δ ε α) := by
  rintro disk r disk' h
  cases h
  exact .refl disk

lemma keeps_fail (e : ε) : Keeps (fail e : Fallible δ ε α) := by
  rintro disk r disk' h
  cases h
  exact .refl disk

lemma keeps_diverge : Keeps (diverge : Fallible δ ε α) := by
  rintro disk r disk' h
  cases h

lemma keeps_ofExcept (x : Except ε α) : Keeps (Fallible.ofExcept x : Fallible δ ε α) := by
  cases x with
  | ok a => exact keeps_pure a
  | error e => exact keeps_fail e

lemma keeps_okOr (e : ε) (o : Option α) : Keeps (okOr e o : Fallible δ ε α) := by
  cases o with
  | some a => exact keeps_pure a
  | none => exact keeps_fail e

lemma Keeps.bind {m : Fallible δ ε α} {f : α → Fallible δ ε β} (hm : Keeps m)
    (hf : ∀ a, Keeps (f a)) : Keeps (m >>= f) := by
  intro disk r disk' h
  cases hrun : m disk with
  | none =>
    rw [Fallible.bind_of_none hrun] at h
    cases h
  | some result =>
    obtain ⟨e | a, disk₁⟩ := result
    · rw [Fallible.bind_of_error hrun] at h
      cases h
      exact hm _ _ _ hrun
    · rw [Fallible.bind_of_ok hrun] at h
      exact (hm _ _ _ hrun).trans (hf _ _ _ _ h)

lemma Keeps.mapped {m : DiskM δ α} (hm : Keeps m) : Keeps (mapped m) := by
  rintro disk r disk' h
  unfold Fat.mapped at h
  obtain ⟨⟨r₀, disk₀⟩, hrun, heq⟩ := Option.map_eq_some_iff.mp h
  cases heq
  exact hm _ _ _ hrun

end

lemma keeps_readSectors [LawfulDisk δ] (device lba count : ℕ) :
    Keeps (readSectors device lba count : DiskM δ (List UInt8)) := by
  rintro disk r disk' h
  exact ((readSectors_ends disk device lba count).of_eq h).1

lemma keeps_scanSectors [LawfulDisk δ] (vol : FatVolume) (callback : σ → DirEntry → σ × IterAction)
    (sectors : List ℕ) (state : σ) :
    Keeps (scanSectors vol callback sectors state : DiskM δ _) := by
  induction sectors generalizing state with
  | nil => exact keeps_pure _
  | cons sector rest ih =>
    unfold scanSectors
    refine (keeps_readSectors _ _ _).bind fun data => ?_
    split
    · exact keeps_pure _
    · exact keeps_pure _
    · exact ih _
    · exact keeps_diverge

lemma keeps_findEntry [LawfulDisk δ] (vol : FatVolume) (dirCluster : ℕ) (name : FcbName) :
    Keeps (findEntry vol dirCluster name : DiskM δ _) :=
  ((keeps_ofExcept _).bind fun _ => keeps_scanSectors _ _ _ _).bind fun _ => keeps_pure _

lemma keeps_findMatching [LawfulDisk δ] (vol : FatVolume) (dirCluster index : ℕ) :
    Keeps (mapped (findMatching vol dirCluster anyPattern listMask index) : FatM δ _) :=
  (((keeps_ofExcept _).bind fun _ => keeps_scanSectors _ _ _ _).bind fun _ => keeps_pure _).mapped

lemma keeps_walkDirParts [LawfulDisk δ] (vol : FatVolume) (parts : List (List UInt8))
    (cluster : ℕ) : Keeps (walkDirParts vol parts cluster : FatM δ ℕ) := by
  induction parts generalizing cluster with
  | nil => exact keeps_pure _
  | cons part rest ih =>
    refine (keeps_findEntry _ _ _).mapped.bind fun found => (keeps_okOr _ _).bind fun entry => ?_
    split_ifs
    · exact ih _
    · exact keeps_fail _

lemma keeps_resolveDirCluster [LawfulDisk δ] (vol : FatVolume) (path : List UInt8) :
    Keeps (resolveDirCluster vol path : FatM δ ℕ) :=
  (keeps_ofExcept _).bind fun _ => keeps_walkDirParts _ _ _

/-! ### The Listing of a Volume -/

/-- A listing that comes to an end went through all live slots. -/
lemma whole_of_listClusterDirLoop [LawfulDisk δ] {dirCluster fuel index : ℕ}
    {out result : List Metadata} {disk'' : δ} (hsectors : vol.dirSectors dirCluster = .ok sectors)
    (hslots : liveSlots vol disk sectors = .ok slots) (hsame : SameDisk disk disk')
    (h : listClusterDirLoop vol dirCluster fuel index out disk' = some (.ok result, disk'')) :
    ∀ slot ∈ slots, slot.Whole := by
  induction fuel generalizing index out disk' with
  | zero => cases h
  | succ fuel ih =>
    unfold listClusterDirLoop at h
    obtain ⟨next, disk₁, hnext, h⟩ := bind_ok h
    cases next with
    | some next => exact ih (hsame.trans (keeps_findMatching _ _ _ _ _ _ hnext)) h
    | none =>
      unfold mapped at hnext
      obtain ⟨⟨e | found, _⟩, hfind, heq⟩ := Option.map_eq_some_iff.mp hnext
      · cases heq
      obtain rfl : found = none := Except.ok.inj (Prod.mk.inj heq).1
      obtain ⟨⟨current, entry⟩, _, heach, hpure⟩ := bind_ok hfind
      obtain ⟨_, _, hexcept, hscan⟩ := bind_ok heach
      obtain ⟨hlist, rfl⟩ := ofExcept_ok hexcept
      obtain rfl := Except.ok.inj (hsectors.symm.trans hlist)
      exact whole_of_scanSectors hslots hsame hscan
        (Option.map_eq_none_iff.mp (pure_ok hpure).1)

end

/-- **Listing a directory** comes to an end and returns the accepted entries of the slots before
the first zero one, in their order, each once and without the two of the directory itself,
exactly if there are fewer than 65536 of these entries and the data of the sectors has the bytes
of each slot that it goes through. -/
theorem listDir_lists_iff {δ : Type} [DiskIo δ] [LawfulDisk δ] {disk disk' : δ}
    {vol : FatVolume} {path : List UInt8} {dirCluster : ℕ} {sectors : List ℕ} {slots : List Slot}
    (hpath : resolveDirCluster vol path disk = some (.ok dirCluster, disk'))
    (hsectors : vol.dirSectors dirCluster = .ok sectors)
    (hslots : liveSlots vol disk sectors = .ok slots) :
    (∃ fuel disk'', listDir vol fuel path disk =
        some (.ok (listing vol (acceptedEntries vol slots)), disk'')) ↔
      (∀ slot ∈ slots, slot.Whole) ∧ (acceptedEntries vol slots).length < 2 ^ 16 := by
  have hsame : SameDisk disk disk' := keeps_resolveDirCluster vol path disk _ disk' hpath
  have hlist : ∀ fuel, listDir vol fuel path disk = listClusterDir vol fuel dirCluster disk' :=
    fun fuel => bind_of_ok hpath
  constructor
  · rintro ⟨fuel, disk'', h⟩
    rw [hlist, listClusterDir] at h
    have hwhole := whole_of_listClusterDirLoop hsectors hslots hsame h
    refine ⟨hwhole, ?_⟩
    by_contra hmany
    rw [listClusterDirLoop_eq_none hsectors hslots hwhole hsame (Nat.not_lt.mp hmany)
      (Nat.two_pow_pos 16)] at h
    cases h
  · rintro ⟨hwhole, hfew⟩
    obtain ⟨r, disk'', hrun, rfl, -⟩ := listClusterDirLoop_ends [] hsectors hslots hwhole hsame
      hfew (Nat.zero_le _) (Nat.lt_succ_self _)
    exact ⟨_, disk'', (hlist _).trans hrun⟩

/-- The bytes of a slot of a file without data, after its first byte. -/
def slotByte (first : UInt8) (i : ℕ) : UInt8 := if i = 0 then first else if i < 11 then 0x20 else 0

def listGeometry : DriveGeometry where
  bpbSource := .bootRecord
  defaultBpb := FmTowns.floppyBpb
  bpb := FmTowns.floppyBpb

/-- A volume whose root directory has two entries with a free slot between them. -/
def pairDisk : Image where
  size := 512
  bytes := fun address =>
    if 1024 ≤ address then
      match [(0x41 : UInt8), 0xE5, 0x42][(address - 1024) / 32]? with
      | some first => slotByte first (address % 32)
      | none => 0
    else [(12, 2), (13, 1), (14, 1), (16, 1), (17, 16), (19, 10), (22, 1)].lookup address |>.getD 0
  reads := 0

/-- The listing of a root directory of two entries. -/
theorem listDir_lists_pair :
    ∃ (vol : FatVolume) (slots : List Slot), (acceptedEntries vol slots).length = 2 ∧
      ∃ fuel disk, listDir vol fuel [] pairDisk =
        some (.ok (listing vol (acceptedEntries vol slots)), disk) := by
  have hrun : Fallible.passes (fun vol => Fallible.holds (vol.dirSectors 0) fun sectors =>
      Fallible.holds (liveSlots vol pairDisk sectors) fun slots =>
        (acceptedEntries vol slots).length == 2 && slots.all fun slot => slot.Whole)
      (mount 0x80 0 listGeometry pairDisk) = true := by decide +kernel
  obtain ⟨vol, disk, hmount, hdir⟩ := Fallible.passes_iff.mp hrun
  obtain ⟨sectors, hsectors, hlive⟩ := Fallible.holds_iff.mp hdir
  obtain ⟨slots, hslots, hcount⟩ := Fallible.holds_iff.mp hlive
  rw [Bool.and_eq_true, beq_iff_eq, List.all_eq_true] at hcount
  refine ⟨vol, slots, hcount.1, (listDir_lists_iff rfl hsectors hslots).mpr ⟨?_, ?_⟩⟩
  · exact fun slot hslot => of_decide_eq_true (hcount.2 slot hslot)
  · rw [hcount.1]
    norm_num

/-- A volume with a root directory of 4096 sectors, where all 65536 slots hold a file. -/
def fullDisk : Image where
  size := 512
  bytes := fun address =>
    if 1024 ≤ address then slotByte 0x41 (address % 32)
    else [(12, 2), (13, 1), (14, 1), (16, 1), (17, 0xFF), (18, 0xFF), (19, 0x88), (20, 0x13),
      (22, 1)].lookup address |>.getD 0
  reads := 0

/-- A sector of the full directory. -/
def fullSector : List UInt8 := (List.range 512).map fun i => slotByte 0x41 (i % 32)

lemma sectorsOf_fullDisk {device sector : ℕ} (h : 2 ≤ sector) :
    sectorsOf fullDisk device sector 1 = .ok fullSector := by
  rw [Image.sectorsOf_image]
  refine congrArg Except.ok (List.map_congr_left fun i hi => ?_)
  have haddress : 1024 ≤ sector * 512 + i := by omega
  have hmod : (sector * 512 + i) % 32 = i % 32 := by omega
  change (if 1024 ≤ sector * 512 + i then slotByte 0x41 ((sector * 512 + i) % 32) else _) = _
  rw [if_pos haddress, hmod]

lemma isSome_parseEntry (data : List UInt8) (sector offset : ℕ) (human68k : Bool) :
    (parseEntry data sector offset human68k).isSome = (parseEntry data 0 0 human68k).isSome := by
  unfold parseEntry
  dsimp only
  split_ifs <;> rfl

section

variable {vol : FatVolume} (hbytes : vol.bpb.bytesPerSector = 512) (hratio : vol.sectorRatio = 1)
  (hname : vol.human68k = false)

include hbytes in
lemma sectorSlots_full (sector : ℕ) :
    sectorSlots vol sector fullSector = (List.range 16).map (slotAt sector fullSector) := by
  unfold sectorSlots FatVolume.entriesPerSector dirEntrySize
  rw [hbytes]

include hbytes in
lemma any_isEnd_full (sector : ℕ) : (sectorSlots vol sector fullSector).any Slot.isEnd = false := by
  rw [sectorSlots_full hbytes, List.any_map]
  change ((List.range 16).any fun i => ((fullSector.drop (i * dirEntrySize)).take
    dirEntrySize).head? == some 0) = false
  decide +kernel

include hbytes in
lemma whole_full (sector : ℕ) : ∀ slot ∈ sectorSlots vol sector fullSector, slot.Whole := by
  rw [sectorSlots_full hbytes]
  intro slot hslot
  obtain ⟨i, hi, rfl⟩ := List.mem_map.mp hslot
  refine .inr ?_
  change ((fullSector.drop (i * dirEntrySize)).take dirEntrySize).length = _
  have hlt := List.mem_range.mp hi
  simp only [fullSector, List.length_take, List.length_drop, List.length_map, List.length_range]
  unfold dirEntrySize
  omega

include hbytes hname in
lemma length_acceptedEntries_full (sector : ℕ) :
    (acceptedEntries vol (sectorSlots vol sector fullSector)).length = 16 := by
  rw [acceptedEntries, sectorSlots_full hbytes, hname, List.length_filterMap_eq_countP,
    List.countP_map]
  have hsome : ((fun slot => (Slot.entry false slot).isSome) ∘ slotAt sector fullSector) =
      fun i => (parseEntry ((fullSector.drop (i * dirEntrySize)).take dirEntrySize) 0 0
        false).isSome := by
    funext i
    exact isSome_parseEntry _ _ _ _
  rw [hsome]
  decide +kernel

include hbytes hratio hname in
lemma liveSlots_full {sectors : List ℕ} (h : ∀ sector ∈ sectors, 2 ≤ sector) :
    ∃ slots, liveSlots vol fullDisk sectors = .ok slots ∧ (∀ slot ∈ slots, slot.Whole) ∧
      (acceptedEntries vol slots).length = sectors.length * 16 := by
  induction sectors with
  | nil => exact ⟨[], rfl, by simp, rfl⟩
  | cons sector rest ih =>
    obtain ⟨slots, hslots, hwhole, hlength⟩ := ih fun s hs => h s (List.mem_cons_of_mem _ hs)
    refine ⟨sectorSlots vol sector fullSector ++ slots, ?_,
      List.forall_mem_append.mpr ⟨whole_full hbytes sector, hwhole⟩, ?_⟩
    · unfold liveSlots
      rw [hratio, sectorsOf_fullDisk (h sector List.mem_cons_self)]
      simp only [any_isEnd_full hbytes, Bool.false_eq_true, if_false, hslots]
      rfl
    · rw [acceptedEntries, List.filterMap_append, List.length_append]
      change (acceptedEntries vol (sectorSlots vol sector fullSector)).length +
        (acceptedEntries vol slots).length = _
      rw [length_acceptedEntries_full hbytes hname, hlength, List.length_cons]
      ring

end

/-- The root directory with 65536 entries is accepted, and its listing does not come to an
end. -/
theorem listDir_full_diverges :
    ∃ (vol : FatVolume) (disk : Image) (sectors : List ℕ) (slots : List Slot),
      mount 0x80 0 listGeometry fullDisk = some (.ok vol, disk) ∧
      vol.dirSectors 0 = .ok sectors ∧ liveSlots vol fullDisk sectors = .ok slots ∧
      (acceptedEntries vol slots).length = 65536 ∧
      ∀ fuel, listDir vol fuel [] fullDisk = none := by
  have hrun : Fallible.passes (fun vol => vol.bpb.bytesPerSector == 512 && vol.sectorRatio == 1 &&
      !vol.human68k && vol.rootDirLba == 2 && vol.bpb.rootDirSectors == 4096)
      (mount 0x80 0 listGeometry fullDisk) = true := by decide +kernel
  obtain ⟨vol, disk, hmount, hboot⟩ := Fallible.passes_iff.mp hrun
  simp only [Bool.and_eq_true, beq_iff_eq, Bool.not_eq_true'] at hboot
  obtain ⟨⟨⟨⟨hbytes, hratio⟩, hname⟩, hroot⟩, hcount⟩ := hboot
  have hsectors : vol.dirSectors 0 = .ok (vol.sectorsFrom 2 4096) := by
    unfold FatVolume.dirSectors
    rw [if_pos rfl, hroot, hcount]
  have hbehind : ∀ sector ∈ vol.sectorsFrom 2 4096, 2 ≤ sector := by
    intro sector hmem
    obtain ⟨i, hi, rfl⟩ := List.mem_map.mp hmem
    rw [hratio, wrappingAdd_of_lt (by have := List.mem_range.mp hi; omega)]
    omega
  obtain ⟨slots, hslots, hwhole, hlength⟩ := liveSlots_full hbytes hratio hname hbehind
  have hmany : (acceptedEntries vol slots).length = 65536 := by
    rw [hlength]
    simp [FatVolume.sectorsFrom]
  refine ⟨vol, disk, _, slots, hmount, hsectors, hslots, hmany, fun fuel => ?_⟩
  exact listClusterDirLoop_eq_none hsectors hslots hwhole (.refl fullDisk)
    (by rw [hmany]; norm_num) (Nat.two_pow_pos 16)

end Neetan.Fat
