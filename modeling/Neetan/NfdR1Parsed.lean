import Neetan.NfdR0Parsed

/-!
Reading an NFD R1 file takes the room of its entries, and when an NFD file is parsed safely.

The first sector of the file shows the media type, and an unknown one is refused after its data
was taken: the walk over the entries has the refusal behind the sector. A size code from 64 on
stops the parser, and one from 57 to 63 gives a sector without data: the file must end an attempt
at reading before the parser comes to such an entry, or behind it.
-/

namespace Neetan.Floppy.Nfd

open ByteReader

variable {data : List UInt8}

/-- A product of words that is added to a word: what leaves the word stops either way. -/
lemma times_plus {ε β : Type} {a b offset : ℕ} {f : ℕ → Reading ε β} :
    (times a b >>= fun total => plus offset total >>= f) = plus offset (a * b) >>= f := by
  by_cases h : a * b < 2 ^ 64
  · rw [times_of_lt h, pure_bind]
  · rw [times_of_le (by omega), plus_of_le (by omega)]
    rfl

lemma exists_readRetries {offset size last : ℕ} {copies : List ℕ}
    (h : ∀ copy ∈ copies, copy < last) (hlast : offset + size * last ≤ data.length) :
    ∃ retries, readRetries data offset size copies = pure retries := by
  induction copies with
  | nil => exact ⟨[], rfl⟩
  | cons copy copies ih =>
    obtain ⟨hcopy, hcopies⟩ := List.forall_mem_cons.mp h
    obtain ⟨retries, hretries⟩ := ih hcopies
    have hroom : copy * size + size ≤ size * last := by
      rw [← Nat.succ_mul, Nat.mul_comm]
      exact Nat.mul_le_mul_left size hcopy
    rw [readRetries, slice_of_le (by omega) (by omega), pure_bind, hretries, pure_bind]
    exact ⟨_, rfl⟩

/-! ### One block -/

lemma mediaWith_cases (known : Option D88MediaType) (pda sizeCode : UInt8) :
    ((known.isSome || knowsMedia pda sizeCode) = true ∧
      ∃ media, mediaTypeWith known pda sizeCode = .ok media) ∨
    ((known.isSome || knowsMedia pda sizeCode) = false ∧
      ∃ e, mediaTypeWith known pda sizeCode = .error e) := by
  cases known with
  | some media => exact .inl ⟨rfl, media, rfl⟩
  | none => exact media_cases pda sizeCode

/-- The entry of an R1 sector. -/
def r1Request (data : List UInt8) (entryOffset : ℕ) : Request :=
  .sector (sizeCodeAt data entryOffset).toNat (1 + (data.getD (entryOffset + 10) 0).toNat)

lemma readR1Sector_agree (track count entryOffset : ℕ) (place : R1Place)
    (h : entryOffset + sectorEntrySize ≤ data.length) :
    Agree (fun found next => found.2.dataOffset = next ∧ next ≤ data.length ∧
        (place.mediaType.isSome ||
          knowsMedia (data.getD (entryOffset + 11) 0) (sizeCodeAt data entryOffset)) = true ∧
        found.2.mediaType.isSome = true ∧ Taken data [r1Request data entryOffset] [found.1.1])
      (readR1Sector data track count entryOffset place)
      ((r1Request data entryOffset).take data.length place.dataOffset >>= fun next =>
        if place.mediaType.isSome ||
            knowsMedia (data.getD (entryOffset + 11) 0) (sizeCodeAt data entryOffset) then
          pure next
        else throw ()) := by
  simp only [sectorEntrySize] at h
  simp (disch := omega) only [readR1Sector, byte_of_lt, array_of_le, pure_bind]
  rw [sectorSize]
  by_cases hcode : (data.getD (entryOffset + 3) 0).toNat < 64
  · rw [if_pos hcode, pure_bind, times_plus]
    refine agree_take (Request.sector_ne_refused _ _) (Nat.not_le.mpr hcode) rfl fun hfits => ?_
    have hsector : sectorBytes (data.getD (entryOffset + 3) 0).toNat ≤
        sectorBytes (data.getD (entryOffset + 3) 0).toNat *
          (1 + (data.getD (entryOffset + 10) 0).toNat) := Nat.le_mul_of_pos_right _ (by omega)
    obtain ⟨retries, hretries⟩ := exists_readRetries
      (fun copy (hcopy : copy ∈ List.range' 1 (data.getD (entryOffset + 10) 0).toNat) =>
        (List.mem_range'_1.mp hcopy).2) hfits
    rcases mediaWith_cases place.mediaType (data.getD (entryOffset + 11) 0)
        (sizeCodeAt data entryOffset) with ⟨hknown, media, hmedia⟩ | ⟨hunknown, e, hmedia⟩
    · rw [sizeCodeAt] at hknown hmedia
      simp only [sizeCodeAt, hknown, hmedia, if_true, decided_ok, pure_bind, hretries]
      rw [slice_of_le (by omega) (by omega), pure_bind]
      refine .gives ⟨rfl, hfits, trivial, rfl, ⟨rfl, List.forall_mem_singleton.mpr ⟨?_, ?_⟩⟩⟩
      · exact ⟨place.dataOffset, rfl, standsAt_slice (by omega) (by omega)⟩
      · rw [length_slice (by omega), Nat.add_sub_cancel_left]
    · rw [sizeCodeAt] at hunknown hmedia
      simp only [sizeCodeAt, hunknown, hmedia, Bool.false_eq_true, if_false]
      exact .fails _ _
  · have hfaults : (r1Request data entryOffset).Faults := Nat.not_lt.mp hcode
    rw [if_neg hcode, take_of_faults hfaults]
    exact .stops

lemma readR1Sectors_agree {track count n entryOffset : ℕ} {place : R1Place}
    (h : entryOffset + n * sectorEntrySize ≤ data.length)
    (hplace : place.dataOffset ≤ data.length) :
    Agree (fun found next => found.2.dataOffset = next ∧ next ≤ data.length ∧
        found.2.mediaType.isSome = (place.mediaType.isSome || n != 0) ∧
        Taken data (r1Sectors data n entryOffset place.mediaType.isSome) (found.1.map Prod.fst))
      (readR1Sectors data track count n entryOffset place)
      (walk data.length place.dataOffset
        (r1Sectors data n entryOffset place.mediaType.isSome)) := by
  induction n generalizing entryOffset place with
  | zero => exact .gives ⟨rfl, hplace, (Bool.or_false _).symm, taken_nil⟩
  | succ n ih =>
    rw [Nat.succ_mul] at h
    have hsector := readR1Sector_agree track count entryOffset place
      (by omega : entryOffset + sectorEntrySize ≤ data.length)
    rw [readR1Sectors, r1Sectors, walk]
    cases hknown : place.mediaType.isSome ||
        knowsMedia (data.getD (entryOffset + 11) 0) (sizeCodeAt data entryOffset) with
    | true =>
      simp only [hknown, if_true, bind_pure] at hsector ⊢
      refine hsector.bind ?_
      rintro ⟨sector, place'⟩ next ⟨rfl, hnext, -, hsome, htaken⟩
      have hrest := @ih (entryOffset + sectorEntrySize) place' (by omega) hnext
      rw [hsome] at hrest
      refine hrest.bind_end ?_
      rintro ⟨sectors, place''⟩ next ⟨rfl, hnext, hsome, hothers⟩
      refine .gives ⟨rfl, hnext, ?_, htaken.cons hothers⟩
      rw [hsome, Bool.true_or]
      exact (Bool.or_true _).symm
    | false =>
      simp only [hknown, Bool.false_eq_true, if_false] at hsector ⊢
      exact hsector.bind_end fun _ _ hfound => absurd hfound.2.2.1 (by decide)

lemma sizeCodes_payloads (n diagOffset : ℕ) : sizeCodes (r1Payloads data n diagOffset) = [] := by
  induction n generalizing diagOffset with
  | zero => rfl
  | succ n ih => exact ih (diagOffset + diagEntrySize)

lemma readDiag_agree {track n diagOffset offset : ℕ}
    (h : diagOffset + n * diagEntrySize ≤ data.length) (hoffset : offset ≤ data.length) :
    Agree (fun found next => found.2 = next ∧ next ≤ data.length)
      (readDiag data track n diagOffset offset)
      (walk data.length offset (r1Payloads data n diagOffset)) := by
  induction n generalizing diagOffset offset with
  | zero => exact .gives ⟨rfl, hoffset⟩
  | succ n ih =>
    rw [Nat.succ_mul] at h
    simp only [diagEntrySize] at h
    rw [readDiag, r1Payloads, walk]
    simp (disch := omega) only [diagEntrySize, byte_of_lt, array_of_le, word_of_le, pure_bind]
    rw [times_plus]
    refine agree_take (Request.payload_ne_refused _) not_false rfl fun hfits => ?_
    rw [slice_of_le (by omega) hfits, pure_bind]
    refine (ih (by simp only [diagEntrySize]; omega) hfits).bind_end ?_
    rintro ⟨diag, offset⟩ next ⟨rfl, hnext⟩
    exact .gives ⟨rfl, hnext⟩

/-! ### The blocks -/

/-- The entries of a block behind its header. -/
def r1Block (data : List UInt8) (trackMeta : ℕ) (detected : Bool) : List Request :=
  let entriesStart := trackMeta + r1TrackHeaderSize
  let sectorCount := wordAt 2 data trackMeta
  r1Sectors data sectorCount entriesStart detected ++
    r1Payloads data (wordAt 2 data (trackMeta + 2)) (entriesStart + sectorCount * sectorEntrySize)

/-- The block lies inside the file. -/
def BlockFits (data : List UInt8) (trackMeta : ℕ) : Prop :=
  trackMeta + r1TrackHeaderSize ≤ data.length ∧
  trackMeta + r1TrackHeaderSize + wordAt 2 data trackMeta * sectorEntrySize +
    wordAt 2 data (trackMeta + 2) * diagEntrySize ≤ data.length

lemma readR1Track_agree {track trackMeta : ℕ} {state : R1State} (hmeta : trackMeta < 2 ^ 32)
    (hexpected : state.expectedMetadataOffset + 2 ^ 22 < 2 ^ 64)
    (hplace : state.place.dataOffset ≤ data.length) (hfits : BlockFits data trackMeta) :
    Agree (fun found next => found.2.place.dataOffset = next ∧ next ≤ data.length ∧
        found.2.place.mediaType.isSome =
          (state.place.mediaType.isSome || wordAt 2 data trackMeta != 0) ∧
        found.2.expectedMetadataOffset ≤ state.expectedMetadataOffset + 2 ^ 22 ∧
        Taken data (r1Block data trackMeta state.place.mediaType.isSome)
          (found.1.1.map Prod.fst))
      (readR1Track data track trackMeta state)
      (walk data.length state.place.dataOffset
        (r1Block data trackMeta state.place.mediaType.isSome)) := by
  obtain ⟨hheader, hblock⟩ := hfits
  have hsectors : wordAt 2 data trackMeta < 2 ^ 16 := wordAt_lt 2 data _
  have hdiags : wordAt 2 data (trackMeta + 2) < 2 ^ 16 := wordAt_lt 2 data _
  simp only [r1TrackHeaderSize, sectorEntrySize, diagEntrySize] at hheader hblock
  rw [readR1Track, r1Block, walk_append]
  simp only [r1TrackHeaderSize, sectorEntrySize, diagEntrySize]
  rw [plus_of_lt (by omega), pure_bind, if_neg (by omega)]
  simp (disch := omega) only [word_of_le, array_of_le, pure_bind, plus_of_lt]
  rw [if_neg (by omega)]
  refine (readR1Sectors_agree (by simp only [sectorEntrySize]; omega) hplace).bind ?_
  rintro ⟨sectors, place⟩ next ⟨rfl, hnext, hsome, htaken⟩
  refine (readDiag_agree (by simp only [diagEntrySize]; omega) hnext).bind_end ?_
  rintro ⟨diag, offset⟩ next ⟨rfl, hnext⟩
  refine .gives ⟨rfl, hnext, hsome, by simp only; omega, ?_⟩
  have hpayloads : Taken data (r1Payloads data (wordAt 2 data (trackMeta + 2))
      (trackMeta + 16 + wordAt 2 data trackMeta * 16)) [] :=
    ⟨(sizeCodes_payloads _ _).symm, fun _ h => absurd h List.not_mem_nil⟩
  have hboth := htaken.append hpayloads
  rwa [List.append_nil] at hboth

lemma readR1Track_refused (track : ℕ) {trackMeta : ℕ} (state : R1State) (hmeta : trackMeta < 2 ^ 32)
    (h : ¬ BlockFits data trackMeta) : ∃ e, readR1Track data track trackMeta state = throw e := by
  have hsectors : wordAt 2 data trackMeta < 2 ^ 16 := wordAt_lt 2 data _
  have hdiags : wordAt 2 data (trackMeta + 2) < 2 ^ 16 := wordAt_lt 2 data _
  simp only [BlockFits, r1TrackHeaderSize, sectorEntrySize, diagEntrySize] at h
  rw [readR1Track]
  simp only [r1TrackHeaderSize, sectorEntrySize, diagEntrySize]
  rw [plus_of_lt (by omega), pure_bind]
  split
  · exact ⟨_, rfl⟩
  · simp (disch := omega) only [word_of_le, array_of_le, pure_bind, plus_of_lt]
    rw [if_pos (by omega)]
    exact ⟨_, rfl⟩

lemma r1Blocks_cons {trackMeta : ℕ} {offsets : List ℕ} {detected : Bool} (h : trackMeta ≠ 0) :
    r1Blocks data (trackMeta :: offsets) detected = (open Classical in
      if BlockFits data trackMeta then
        r1Block data trackMeta detected ++
          r1Blocks data offsets (detected || wordAt 2 data trackMeta != 0)
      else [.refused]) := by
  rw [r1Blocks, if_neg h, BlockFits, r1Block]
  by_cases hheader : data.length < trackMeta + r1TrackHeaderSize
  · rw [if_pos hheader, if_neg (by omega)]
  · rw [if_neg hheader]
    by_cases hblock : data.length < trackMeta + r1TrackHeaderSize +
        wordAt 2 data trackMeta * sectorEntrySize + wordAt 2 data (trackMeta + 2) * diagEntrySize
    · rw [if_pos hblock, if_neg (by omega)]
    · rw [if_neg hblock, if_pos (by omega)]

/-- The sectors of a track of the file. -/
def sectorsOf (track : R1Track) : List D88Sector :=
  (track.bind fun found => trackOf found.1).getD []

lemma readR1Tracks_agree {track : ℕ} {offsets : List ℕ} (state : R1State)
    (hoffsets : ∀ trackMeta ∈ offsets, trackMeta < 2 ^ 32)
    (hexpected : state.expectedMetadataOffset + 2 ^ 22 * offsets.length < 2 ^ 64)
    (hplace : state.place.dataOffset ≤ data.length) :
    Agree (fun found next => found.2.place.dataOffset = next ∧ next ≤ data.length ∧
        Taken data (r1Blocks data offsets state.place.mediaType.isSome)
          (found.1.flatMap sectorsOf))
      (readR1Tracks data track offsets state)
      (walk data.length state.place.dataOffset
        (r1Blocks data offsets state.place.mediaType.isSome)) := by
  induction offsets generalizing track state with
  | nil => exact .gives ⟨rfl, hplace, taken_nil⟩
  | cons trackMeta offsets ih =>
    obtain ⟨hmeta, hoffsets⟩ := List.forall_mem_cons.mp hoffsets
    rw [List.length_cons, Nat.mul_succ] at hexpected
    have hroom : state.expectedMetadataOffset + 2 ^ 22 < 2 ^ 64 :=
      lt_of_le_of_lt (Nat.add_le_add_left (Nat.le_add_left _ _) _) hexpected
    rw [readR1Tracks]
    by_cases hzero : trackMeta = 0
    · rw [if_pos hzero, r1Blocks, if_pos hzero]
      refine (ih state hoffsets (by omega) hplace).bind_end ?_
      rintro ⟨tracks, state'⟩ next ⟨rfl, hnext, htaken⟩
      exact .gives ⟨rfl, hnext, htaken⟩
    rw [if_neg hzero, r1Blocks_cons hzero]
    by_cases hfits : BlockFits data trackMeta
    · rw [if_pos hfits, walk_append]
      refine (readR1Track_agree hmeta hroom hplace hfits).bind ?_
      rintro ⟨found, state'⟩ next ⟨rfl, hnext, hsome, hmetadata, htaken⟩
      simp only at hsome hmetadata hnext
      have hexpected' : state'.expectedMetadataOffset + 2 ^ 22 * offsets.length < 2 ^ 64 := by omega
      rw [← hsome]
      refine (ih state' hoffsets hexpected' hnext).bind_end ?_
      rintro ⟨tracks, state''⟩ next ⟨rfl, hnext, hothers⟩
      refine .gives ⟨rfl, hnext, ?_⟩
      have hboth := htaken.append hothers
      rwa [← getD_trackOf] at hboth
    · obtain ⟨e, he⟩ := readR1Track_refused track state hmeta hfits
      rw [if_neg hfits, he, walk_singleton, Request.take, if_pos rfl]
      exact .fails e ()

/-! ### The file -/

/-- The parser of the blocks takes the room of their entries, and gives their sectors. -/
lemma parseR1_agree (h : commonHeaderSize ≤ data.length) (hlen : data.length < 2 ^ 63) :
    Agree (fun found _ => Taken data (r1Layout data) found.1.sectors) (parseR1 data)
      (walk data.length (dataStart data) (r1Layout data)) := by
  simp only [commonHeaderSize] at h
  simp (disch := omega) only [parseR1, word_of_le, byte_of_lt, pure_bind, r1Layout]
  by_cases hheader : data.length < wordAt 4 data 0x110 ∨ wordAt 4 data 0x110 < r1FixedHeaderEnd
  · rw [if_pos hheader, if_pos (by omega)]
    exact .fails _ _
  obtain ⟨hstart, htable⟩ := not_or.mp hheader
  rw [Nat.not_lt] at hstart htable
  have hdata : r1FixedHeaderEnd ≤ data.length := htable.trans hstart
  have hwords : commonHeaderSize + 4 * r1TrackMax ≤ data.length := by
    simp only [commonHeaderSize, r1TrackMax, r1FixedHeaderEnd] at hdata ⊢
    omega
  have hheader' : ¬ (data.length < wordAt 4 data 0x110 ∨ data.length < r1FixedHeaderEnd ∨
      wordAt 4 data 0x110 < r1FixedHeaderEnd) := by omega
  rw [if_neg hheader, if_neg hheader', words_of_le hwords, pure_bind, ← r1TrackOffsets]
  generalize firstBlockOffset (r1TrackOffsets data) (wordAt 4 data 0x110) = firstBlock
  by_cases hblock : firstBlock < r1FixedHeaderEnd ∨ data.length < firstBlock
  · rw [if_pos hblock, if_pos hblock]
    exact .fails _ _
  obtain ⟨hfirst, hinside⟩ := not_or.mp hblock
  rw [Nat.not_lt] at hfirst hinside
  rw [if_neg hblock, if_neg hblock, slice_of_le hfirst hinside, pure_bind, length_slice hinside,
    plus_of_lt (by omega), pure_bind]
  have hoffsets : ∀ trackMeta ∈ r1TrackOffsets data, trackMeta < 2 ^ 32 := by
    intro trackMeta hmem
    obtain ⟨i, -, rfl⟩ := List.mem_map.mp hmem
    exact wordAt_lt 4 data _
  have hexpected : r1FixedHeaderEnd + (firstBlock - r1FixedHeaderEnd) +
      2 ^ 22 * (r1TrackOffsets data).length < 2 ^ 64 := by
    rw [r1TrackOffsets, List.length_map, List.length_range, r1TrackMax]
    omega
  refine (readR1Tracks_agree ⟨⟨wordAt 4 data 0x110, none⟩, true, _⟩ hoffsets hexpected
    hstart).bind_end ?_
  rintro ⟨tracks, state⟩ next ⟨rfl, hnext, htaken⟩
  rw [slice_of_le hnext le_rfl, pure_bind]
  obtain ⟨extra, hextra⟩ := exists_extra h
    ((data.drop state.place.dataOffset).take (data.length - state.place.dataOffset)) _
  rw [hextra, pure_bind]
  refine .gives ?_
  rw [D88Disk.sectors, List.flatMap_map]
  exact htaken

/-! ### Both revisions -/

lemma sectorBytes_eq_iff {sizeCode : ℕ} :
    sectorBytes sizeCode = 128 <<< sizeCode ↔ sizeCode < 57 := by
  have hshift : 128 <<< sizeCode = 2 ^ (sizeCode + 7) := by
    rw [Nat.shiftLeft_eq, pow_add, Nat.mul_comm]
    rfl
  rw [sectorBytes, hshift]
  constructor
  · intro h
    by_contra hlarge
    have hpow : 2 ^ 64 ≤ 2 ^ (sizeCode + 7) := Nat.pow_le_pow_right (by norm_num) (by omega)
    have hmod := Nat.mod_lt (2 ^ (sizeCode + 7)) (by norm_num : 0 < 2 ^ 64)
    exact absurd (h ▸ hmod) (Nat.not_lt.mpr hpow)
  · intro h
    exact Nat.mod_eq_of_lt (Nat.pow_lt_pow_right (by norm_num) (by omega))

/-- The sectors have the sizes that their codes say when no code leaves the word. -/
lemma Taken.sized_iff {requests : List Request} {sectors : List D88Sector}
    (h : Taken data requests sectors) :
    (∀ sector ∈ sectors, sector.FromFile data ∧ sector.Sized) ↔
      ∀ sizeCode ∈ sizeCodes requests, sizeCode < 57 := by
  rw [← h.codes, List.forall_mem_map]
  refine forall₂_congr fun sector hsector => ?_
  obtain ⟨hfile, hlength⟩ := h.fromFile sector hsector
  rw [D88Sector.Sized, hlength, sectorBytes_eq_iff]
  exact and_iff_right hfile

/-- **The parser takes the room of the entries.** It stops where the walk over the entries of
the file stops, fails where the walk fails, and else gives the sectors that the entries
describe. -/
theorem fromBytes_agree (hlen : data.length < 2 ^ 63) :
    Agree (fun found _ => Taken data (layout data) found.1.sectors) (fromBytes data)
      (walk data.length (dataStart data) (layout data)) := by
  have hrefused : walk data.length (dataStart data) [.refused] = throw () := by
    rw [walk_singleton, Request.take, if_pos rfl]
  rw [fromBytes, layout]
  by_cases hheader : data.length < commonHeaderSize
  · rw [if_pos hheader, if_pos hheader, hrefused]
    exact .fails _ _
  rw [if_neg hheader, if_neg hheader]
  rw [Nat.not_lt] at hheader
  have hmagic : 15 ≤ data.length := le_trans (by decide) hheader
  rw [slice_of_le (Nat.zero_le 15) hmagic, pure_bind, List.drop_zero]
  by_cases h0 : data.take 15 = r0Magic
  · rw [if_pos h0, if_pos h0]
    exact parseR0_agree hheader
  rw [if_neg h0, if_neg h0]
  by_cases h1 : data.take 15 = r1Magic
  · rw [if_pos h1, if_pos h1]
    exact parseR1_agree hheader hlen
  · rw [if_neg h1, if_neg h1, hrefused]
    exact .fails _ _

lemma layout_of_lt (h : data.length < dataStart data) : layout data = [.refused] := by
  have h0 : r0Layout data = [.refused] := if_pos (.inl h)
  have h1 : r1Layout data = [.refused] := if_pos (.inl h)
  rw [layout, h0, h1, ite_self, ite_self, ite_self]

/-- **When NFD files are parsed safely.** The parser ends, with sectors that are the bytes of
the file and as many as their size codes say, when the sizes that the file gives are machine
words. -/
theorem fromBytes_ends_iff (hlen : data.length < 2 ^ 63) :
    Ends (fromBytes data) (fun found => ∀ sector ∈ found.1.sectors,
      sector.FromFile data ∧ sector.Sized) ↔ SizesFit data := by
  rw [(fromBytes_agree hlen).ends_iff fun found next htaken => htaken.sized_iff]
  by_cases hstart : dataStart data ≤ data.length
  · exact ends_walk_iff hstart (by omega)
  · rw [Nat.not_le] at hstart
    rw [SizesFit, layout_of_lt hstart, walk_singleton, Request.take, if_pos rfl]
    refine iff_of_true ends_throw ⟨?_, fun h => absurd h (not_reaches hstart)⟩
    exact fun before request after _ hbefore => absurd hbefore (not_reaches hstart)

end Neetan.Floppy.Nfd
