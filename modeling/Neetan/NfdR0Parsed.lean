import Neetan.Nfd

/-!
What an NFD file asks for: the entries of its map or of its blocks, in the order in which
they are read; and that reading an R0 file takes the room of its entries.

Each entry takes room in the file behind what the entries before it have taken. An entry is
reached when everything before it was accepted and fits. The parser of the map and the walk over
its entries stop together, fail together, or end at the same offset with the sectors that the
entries describe.
-/

namespace Neetan.Floppy.Nfd

open ByteReader

/-- One entry: a sector with the copies of it, the data of a further read, or something that
is refused whatever the file holds behind its header. -/
inductive Request
  | sector (sizeCode copies : ℕ)
  | payload (size : ℕ)
  | refused
  deriving DecidableEq, Repr

namespace Request

lemma sector_ne_refused (sizeCode copies : ℕ) : sector sizeCode copies ≠ refused :=
  Request.noConfusion

lemma payload_ne_refused (size : ℕ) : payload size ≠ refused := Request.noConfusion

/-- The bytes that the entry takes. -/
def room : Request → ℕ
  | sector sizeCode copies => sectorBytes sizeCode * copies
  | payload size => size
  | refused => 0

/-- The size of the entry is no machine word. -/
def Faults : Request → Prop
  | sector sizeCode _ => 64 ≤ sizeCode
  | _ => False

instance : (request : Request) → Decidable request.Faults
  | sector sizeCode _ => inferInstanceAs (Decidable (64 ≤ sizeCode))
  | payload _ => inferInstanceAs (Decidable False)
  | refused => inferInstanceAs (Decidable False)

/-- Takes the room of the entry from `offset` on. -/
def take (fileSize offset : ℕ) (request : Request) : Reading Unit ℕ :=
  if request = refused then throw ()
  else if request.Faults ∨ 2 ^ 64 ≤ offset + request.room then stop
  else if fileSize < offset + request.room then throw ()
  else pure (offset + request.room)

end Request

/-- Takes the room of all entries, one behind the other. -/
def walk (fileSize : ℕ) : ℕ → List Request → Reading Unit ℕ
  | offset, [] => pure offset
  | offset, request :: requests => do
    let offset ← request.take fileSize offset
    walk fileSize offset requests

/-- The size codes of the sectors. -/
def sizeCodes (requests : List Request) : List ℕ :=
  requests.filterMap fun request => match request with
    | .sector sizeCode _ => some sizeCode
    | _ => none

/-- All the entries are accepted, and fit in the file from `offset` on. -/
def Reaches (fileSize offset : ℕ) (requests : List Request) : Prop :=
  (∀ request ∈ requests, request ≠ .refused ∧ ¬ request.Faults) ∧
  offset + (requests.map Request.room).sum ≤ fileSize

/-- Every entry that is reached has a size below 64 bits, and so has the offset behind it. -/
def Computes (fileSize offset : ℕ) (requests : List Request) : Prop :=
  ∀ before request after, requests = before ++ request :: after →
    Reaches fileSize offset before →
    ¬ request.Faults ∧ offset + (before.map Request.room).sum + request.room < 2 ^ 64

/-! ### The walk over the entries -/

section Walk

variable {fileSize offset : ℕ} {request : Request} {requests others : List Request}

lemma walk_singleton : walk fileSize offset [request] = request.take fileSize offset :=
  bind_pure _

lemma walk_append : walk fileSize offset (requests ++ others) =
    walk fileSize offset requests >>= fun offset => walk fileSize offset others := by
  induction requests generalizing offset with
  | nil => exact (pure_bind _ _).symm
  | cons request requests ih =>
    rw [List.cons_append, walk, walk, bind_assoc]
    exact congrArg _ (funext fun _ => ih)

lemma reaches_cons : Reaches fileSize offset (request :: requests) ↔
    (request ≠ .refused ∧ ¬ request.Faults) ∧
      Reaches fileSize (offset + request.room) requests := by
  rw [Reaches, Reaches, List.forall_mem_cons, List.map_cons, List.sum_cons, Nat.add_assoc,
    and_assoc]

lemma computes_cons (h : offset ≤ fileSize) : Computes fileSize offset (request :: requests) ↔
    (¬ request.Faults ∧ offset + request.room < 2 ^ 64) ∧
      (request ≠ .refused → ¬ request.Faults →
        Computes fileSize (offset + request.room) requests) := by
  constructor
  · intro hall
    refine ⟨hall [] request requests rfl ⟨fun _ h => (nomatch h), h⟩, fun hne hfault => ?_⟩
    rintro before next after rfl hbefore
    have hnext := hall (request :: before) next after rfl
      (reaches_cons.mpr ⟨⟨hne, hfault⟩, hbefore⟩)
    rwa [List.map_cons, List.sum_cons, ← Nat.add_assoc] at hnext
  · rintro ⟨hfirst, hrest⟩ before next after heq hbefore
    cases before with
    | nil =>
      obtain ⟨rfl, rfl⟩ := List.cons.inj heq
      exact hfirst
    | cons first before =>
      obtain ⟨rfl, rfl⟩ := List.cons.inj heq
      obtain ⟨⟨hne, hfault⟩, hbefore⟩ := reaches_cons.mp hbefore
      have hnext := hrest hne hfault before next after rfl hbefore
      rwa [List.map_cons, List.sum_cons, ← Nat.add_assoc]

lemma not_reaches (h : fileSize < offset) : ¬ Reaches fileSize offset requests := fun h' => by
  have := h'.2
  omega

/-- An entry that is refused, or does not fit, is the last one that is reached. -/
lemma computes_of_last (hsize : offset + request.room < 2 ^ 64) (hfault : ¬ request.Faults)
    (h : request = .refused ∨ fileSize < offset + request.room) :
    Computes fileSize offset (request :: requests) := by
  rintro before next after heq hbefore
  cases before with
  | nil =>
    obtain ⟨rfl, rfl⟩ := List.cons.inj heq
    exact ⟨hfault, hsize⟩
  | cons first before =>
    obtain ⟨rfl, rfl⟩ := List.cons.inj heq
    obtain ⟨⟨hne, -⟩, hbefore⟩ := reaches_cons.mp hbefore
    exact absurd hbefore (not_reaches (h.resolve_left hne))

/-- **What decides a walk.** It ends with the property when all entries that are reached
compute, and the property holds if all of them are reached. -/
theorem ends_walk_iff {P : Prop} (h : offset ≤ fileSize) (hsize : fileSize < 2 ^ 64) :
    Ends (walk fileSize offset requests) (fun _ => P) ↔
      Computes fileSize offset requests ∧ (Reaches fileSize offset requests → P) := by
  induction requests generalizing offset with
  | nil =>
    have hcomputes : Computes fileSize offset [] := by
      rintro before request after heq
      exact absurd heq.symm (List.append_ne_nil_of_right_ne_nil _ (List.cons_ne_nil _ _))
    have hreaches : Reaches fileSize offset [] := ⟨fun _ h => (nomatch h), h⟩
    rw [walk, ends_pure_iff]
    exact ⟨fun hP => ⟨hcomputes, fun _ => hP⟩, fun hP => hP.2 hreaches⟩
  | cons request requests ih =>
    rw [walk, Request.take]
    split
    · rename_i hrefused
      have hcomputes : Computes fileSize offset (request :: requests) := by
        subst hrefused
        exact computes_of_last (lt_of_le_of_lt h hsize) not_false (.inl rfl)
      refine iff_of_true ends_throw ⟨hcomputes, fun hall => ?_⟩
      exact absurd hrefused (reaches_cons.mp hall).1.1
    rename_i hne
    split
    · -- the size of the entry, or the offset behind it, is no machine word
      rename_i hover
      refine iff_of_false not_ends_stop fun hall => ?_
      obtain ⟨hfault, hword⟩ := ((computes_cons h).mp hall.1).1
      exact hover.elim hfault (Nat.not_le.mpr hword)
    rename_i hover
    obtain ⟨hfault, hover⟩ := not_or.mp hover
    rw [Nat.not_le] at hover
    split
    · rename_i hlong
      refine iff_of_true ends_throw ⟨computes_of_last hover hfault (.inr hlong), fun hall => ?_⟩
      exact absurd (reaches_cons.mp hall).2 (not_reaches hlong)
    · rename_i hfits
      rw [pure_bind, ih (Nat.not_lt.mp hfits), computes_cons h, reaches_cons]
      simp only [hfault, hover, hne, not_false_eq_true, ne_eq, true_and, and_true, true_implies]

end Walk

/-! ### The entries of a file -/

def sizeCodeAt (data : List UInt8) (entryOffset : ℕ) : UInt8 := data.getD (entryOffset + 3) 0

/-- The PDA byte and the size code name a media type. -/
def knowsMedia (pda sizeCode : UInt8) : Bool := (mediaTypeFromPda pda sizeCode).isOk

/-- The entries of the R0 map that hold a sector, among the ones of a track. -/
def r0Held (data : List UInt8) (track : ℕ) (slots : List ℕ) : List ℕ :=
  (slots.map (r0EntryOffset track)).filter fun entryOffset => data.getD entryOffset 0 ≠ 0xFF

def r0Request (data : List UInt8) (entryOffset : ℕ) : Request :=
  .sector (sizeCodeAt data entryOffset).toNat 1

/-- All entries of the R0 map that hold a sector. -/
def r0Entries (data : List UInt8) : List ℕ :=
  (List.range r0TrackMax).flatMap fun track => r0Held data track (List.range sectorsPerTrack)

/-- The first entry of the R0 map shows the media type before any data is taken. -/
def r0Layout (data : List UInt8) : List Request :=
  let headSize := wordAt 4 data 0x110
  if data.length < headSize ∨ headSize < r0SectorMapEnd then [.refused]
  else match (r0Entries data).head? with
    | none => []
    | some first =>
      if knowsMedia (data.getD (first + 10) 0) (sizeCodeAt data first) then
        (r0Entries data).map (r0Request data)
      else [.refused]

/-- The sectors of a block of an R1 file. The first one of the file shows the media type after
its data was taken. -/
def r1Sectors (data : List UInt8) : ℕ → ℕ → Bool → List Request
  | 0, _, _ => []
  | n + 1, entryOffset, detected =>
    let sizeCode := sizeCodeAt data entryOffset
    let byRetry := data.getD (entryOffset + 10) 0
    let pda := data.getD (entryOffset + 11) 0
    .sector sizeCode.toNat (1 + byRetry.toNat) ::
      if detected || knowsMedia pda sizeCode then
        r1Sectors data n (entryOffset + sectorEntrySize) true
      else [.refused]

/-- The further reads of a block of an R1 file. -/
def r1Payloads (data : List UInt8) : ℕ → ℕ → List Request
  | 0, _ => []
  | n + 1, diagOffset =>
    .payload (wordAt 4 data (diagOffset + 10) * (1 + (data.getD (diagOffset + 9) 0).toNat)) ::
      r1Payloads data n (diagOffset + diagEntrySize)

/-- The blocks that the pointers of an R1 file name. -/
def r1Blocks (data : List UInt8) : List ℕ → Bool → List Request
  | [], _ => []
  | trackMeta :: offsets, detected =>
    let entriesStart := trackMeta + r1TrackHeaderSize
    let sectorCount := wordAt 2 data trackMeta
    let diagCount := wordAt 2 data (trackMeta + 2)
    let entriesEnd := entriesStart + sectorCount * sectorEntrySize
    if trackMeta = 0 then r1Blocks data offsets detected
    else if data.length < entriesStart then [.refused]
    else if data.length < entriesEnd + diagCount * diagEntrySize then [.refused]
    else
      r1Sectors data sectorCount entriesStart detected ++ r1Payloads data diagCount entriesEnd ++
        r1Blocks data offsets (detected || sectorCount != 0)

def r1TrackOffsets (data : List UInt8) : List ℕ :=
  (List.range r1TrackMax).map fun i => wordAt 4 data (commonHeaderSize + 4 * i)

def r1Layout (data : List UInt8) : List Request :=
  let headSize := wordAt 4 data 0x110
  let firstBlock := firstBlockOffset (r1TrackOffsets data) headSize
  if data.length < headSize ∨ headSize < r1FixedHeaderEnd then [.refused]
  else if firstBlock < r1FixedHeaderEnd ∨ data.length < firstBlock then [.refused]
  else r1Blocks data (r1TrackOffsets data) false

/-- The entries of a file of either revision. -/
def layout (data : List UInt8) : List Request :=
  if data.length < commonHeaderSize then [.refused]
  else if data.take 15 = r0Magic then r0Layout data
  else if data.take 15 = r1Magic then r1Layout data
  else [.refused]

/-- Where the data of the first entry stands. -/
def dataStart (data : List UInt8) : ℕ := wordAt 4 data 0x110

/-- The sizes that a file gives are machine words: the ones of the entries that are reached,
with the offsets behind them, and when all entries are reached, no size code moves the 128
out of the word. -/
def SizesFit (data : List UInt8) : Prop :=
  Computes data.length (dataStart data) (layout data) ∧
  (Reaches data.length (dataStart data) (layout data) →
    ∀ sizeCode ∈ sizeCodes (layout data), sizeCode < 57)

/-! ### The R0 parser -/

variable {data : List UInt8}

/-- The sectors are the ones the entries ask for: with their size codes, and with as many bytes
of the file as the shift of the size code gives. -/
structure Taken (data : List UInt8) (requests : List Request) (sectors : List D88Sector) :
    Prop where
  codes : sectors.map (fun sector => sector.sizeCode.toNat) = sizeCodes requests
  fromFile : ∀ sector ∈ sectors,
    sector.FromFile data ∧ sector.data.length = sectorBytes sector.sizeCode.toNat

lemma taken_nil : Taken data [] [] := ⟨rfl, fun _ h => nomatch h⟩

lemma Taken.append {requests others : List Request} {sectors behind : List D88Sector}
    (h : Taken data requests sectors) (h' : Taken data others behind) :
    Taken data (requests ++ others) (sectors ++ behind) where
  codes := by
    rw [List.map_append, h.codes, h'.codes, sizeCodes, sizeCodes, sizeCodes, List.filterMap_append]
  fromFile := List.forall_mem_append.mpr ⟨h.fromFile, h'.fromFile⟩

lemma Taken.cons {request : Request} {requests : List Request} {sector : D88Sector}
    {sectors : List D88Sector} (h : Taken data [request] [sector])
    (h' : Taken data requests sectors) : Taken data (request :: requests) (sector :: sectors) :=
  h.append h'

lemma agree_take {α β ε : Type} {S : α → β → Prop} {request : Request} {offset room : ℕ}
    {e : ε} {rest : ℕ → Reading ε α} {next : ℕ → Reading Unit β} (hne : request ≠ .refused)
    (hfault : ¬ request.Faults) (hroom : request.room = room)
    (h : offset + room ≤ data.length → Agree S (rest (offset + room)) (next (offset + room))) :
    Agree S
      (plus offset room >>= fun dataEnd =>
        if data.length < dataEnd then throw e else rest dataEnd)
      (request.take data.length offset >>= next) := by
  rw [Request.take, if_neg hne, hroom]
  by_cases hword : 2 ^ 64 ≤ offset + room
  · rw [if_pos (.inr hword), plus_of_le hword]
    exact .stops
  · rw [if_neg (not_or.mpr ⟨hfault, hword⟩), plus_of_lt (Nat.not_le.mp hword), pure_bind]
    split
    · exact .fails e ()
    · exact h (by omega)

lemma take_of_faults {request : Request} {offset : ℕ} (h : request.Faults) :
    request.take data.length offset = stop := by
  have hne : request ≠ .refused := fun hrefused => by subst hrefused; exact h
  rw [Request.take, if_neg hne, if_pos (.inl h)]

lemma media_cases (pda sizeCode : UInt8) :
    (knowsMedia pda sizeCode = true ∧ ∃ media, mediaTypeFromPda pda sizeCode = .ok media) ∨
    (knowsMedia pda sizeCode = false ∧ ∃ e, mediaTypeFromPda pda sizeCode = .error e) := by
  rw [knowsMedia]
  cases mediaTypeFromPda pda sizeCode with
  | ok media => exact .inl ⟨rfl, media, rfl⟩
  | error e => exact .inr ⟨rfl, e, rfl⟩

/-! ### The map -/

lemma r0EntryOffset_le {track slot : ℕ} (ht : track < r0TrackMax) (hs : slot < sectorsPerTrack) :
    r0EntryOffset track slot + 16 ≤ r0SectorMapEnd := by
  simp only [r0EntryOffset, r0SectorMapEnd, commonHeaderSize, r0TrackMax, sectorsPerTrack,
    sectorEntrySize] at *
  omega

lemma exists_countSlots {track : ℕ} {slots : List ℕ}
    (h : ∀ slot ∈ slots, r0EntryOffset track slot + 16 ≤ data.length) :
    ∃ count, countSlots data track slots = pure count := by
  induction slots with
  | nil => exact ⟨0, rfl⟩
  | cons slot slots ih =>
    obtain ⟨hslot, hslots⟩ := List.forall_mem_cons.mp h
    obtain ⟨count, hcount⟩ := ih hslots
    rw [countSlots, byte_of_lt (by omega), pure_bind, hcount, pure_bind]
    exact ⟨_, rfl⟩

lemma exists_countTracks {tracks : List ℕ} (h : ∀ track ∈ tracks, track < r0TrackMax)
    (hdata : r0SectorMapEnd ≤ data.length) :
    ∃ counts, countTracks data tracks = pure counts ∧ counts.length = tracks.length := by
  induction tracks with
  | nil => exact ⟨[], rfl, rfl⟩
  | cons track tracks ih =>
    obtain ⟨htrack, htracks⟩ := List.forall_mem_cons.mp h
    obtain ⟨counts, hcounts, hlen⟩ := ih htracks
    obtain ⟨count, hcount⟩ : ∃ count,
        countSlots data track (List.range sectorsPerTrack) = pure count := by
      refine exists_countSlots fun slot hslot => ?_
      exact (r0EntryOffset_le htrack (List.mem_range.mp hslot)).trans hdata
    rw [countTracks, hcount, pure_bind, hcounts, pure_bind]
    exact ⟨count :: counts, rfl, by rw [List.length_cons, List.length_cons, hlen]⟩

/-- The media type that the first entry with a sector shows. -/
def mediaOf (data : List UInt8) (entries : List ℕ) : Except NfdError D88MediaType :=
  match entries.head? with
  | none => .ok .disk2HD
  | some first => mediaTypeFromPda (data.getD (first + 10) 0) (sizeCodeAt data first)

lemma detectMedia_eq {places : List (ℕ × ℕ)}
    (h : ∀ place ∈ places, r0EntryOffset place.1 place.2 + 16 ≤ data.length) :
    detectMedia data places = decided (mediaOf data
      ((places.map fun place => r0EntryOffset place.1 place.2).filter fun entryOffset =>
        data.getD entryOffset 0 ≠ 0xFF)) := by
  induction places with
  | nil => rfl
  | cons place places ih =>
    obtain ⟨track, slot⟩ := place
    obtain ⟨hplace, hplaces⟩ := List.forall_mem_cons.mp h
    simp only at hplace
    rw [detectMedia, byte_of_lt (by omega), pure_bind, List.map_cons, List.filter_cons]
    by_cases hheld : data.getD (r0EntryOffset track slot) 0 = 0xFF
    · simp only [hheld, ih hplaces, ne_eq, not_true_eq_false, decide_false, if_true,
        Bool.false_eq_true, if_false]
    · simp (disch := omega) only [hheld, if_false, byte_of_lt, pure_bind, ne_eq,
        not_false_eq_true, decide_true, if_true]
      rfl

lemma filter_r0Places : ((r0Places.map fun place => r0EntryOffset place.1 place.2).filter
    fun entryOffset => data.getD entryOffset 0 ≠ 0xFF) = r0Entries data := by
  rw [r0Places, List.product, List.map_flatMap, List.filter_flatMap]
  simp only [List.map_map, Function.comp_def]
  rfl

/-! ### The sectors -/

lemma readR0Sector_agree {track slot count offset : ℕ}
    (h : r0EntryOffset track slot + 16 ≤ data.length) :
    Agree (fun found next => found.2 = next ∧ next ≤ data.length ∧
        Taken data [r0Request data (r0EntryOffset track slot)] [found.1.1])
      (readR0Sector data track slot count offset)
      ((r0Request data (r0EntryOffset track slot)).take data.length offset) := by
  simp (disch := omega) only [readR0Sector, byte_of_lt, array_of_le, pure_bind]
  rw [sectorSize]
  by_cases hcode : (data.getD (r0EntryOffset track slot + 3) 0).toNat < 64
  · rw [if_pos hcode, pure_bind, ← bind_pure ((r0Request data _).take _ _)]
    refine agree_take (fun h => nomatch h) (Nat.not_le.mpr hcode) (Nat.mul_one _) fun hfits => ?_
    rw [slice_of_le (by omega) hfits, pure_bind]
    refine .gives ⟨rfl, hfits, ⟨rfl, List.forall_mem_singleton.mpr ⟨?_, ?_⟩⟩⟩
    · exact ⟨offset, rfl, standsAt_slice (by omega) hfits⟩
    · rw [length_slice hfits, Nat.add_sub_cancel_left]
  · have hfaults : (r0Request data (r0EntryOffset track slot)).Faults := Nat.not_lt.mp hcode
    rw [if_neg hcode, take_of_faults hfaults]
    exact .stops

lemma readR0Slots_agree {track count offset : ℕ} {slots : List ℕ}
    (hslots : ∀ slot ∈ slots, r0EntryOffset track slot + 16 ≤ data.length)
    (h : offset ≤ data.length) :
    Agree (fun found next => found.2 = next ∧ next ≤ data.length ∧
        Taken data ((r0Held data track slots).map (r0Request data)) (found.1.map Prod.fst))
      (readR0Slots data track count slots offset)
      (walk data.length offset ((r0Held data track slots).map (r0Request data))) := by
  induction slots generalizing offset with
  | nil => exact .gives ⟨rfl, h, taken_nil⟩
  | cons slot slots ih =>
    obtain ⟨hslot, hslots⟩ := List.forall_mem_cons.mp hslots
    rw [readR0Slots, byte_of_lt (by omega), pure_bind, r0Held, List.map_cons, List.filter_cons]
    by_cases hheld : data.getD (r0EntryOffset track slot) 0 = 0xFF
    · simp only [hheld, ne_eq, not_true_eq_false, decide_false, if_true, Bool.false_eq_true,
        if_false]
      exact ih hslots h
    · simp only [hheld, if_false, ne_eq, not_false_eq_true, decide_true, if_true, List.map_cons]
      refine (readR0Sector_agree hslot).bind ?_
      rintro ⟨sector, offset⟩ next ⟨rfl, hnext, hsector⟩
      refine (ih hslots hnext).bind_end ?_
      rintro ⟨sectors, offset⟩ next ⟨rfl, hnext, hsectors⟩
      exact .gives ⟨rfl, hnext, hsector.cons hsectors⟩

lemma readR0Tracks_agree {offset : ℕ} {tracks : List (ℕ × ℕ)}
    (htracks : ∀ track ∈ tracks, track.1 < r0TrackMax) (hdata : r0SectorMapEnd ≤ data.length)
    (h : offset ≤ data.length) :
    Agree (fun found next => found.2 = next ∧ next ≤ data.length ∧
        Taken data ((tracks.flatMap fun track => r0Held data track.1
          (List.range sectorsPerTrack)).map (r0Request data))
          (found.1.flatMap (List.map Prod.fst)))
      (readR0Tracks data tracks offset)
      (walk data.length offset ((tracks.flatMap fun track => r0Held data track.1
        (List.range sectorsPerTrack)).map (r0Request data))) := by
  induction tracks generalizing offset with
  | nil => exact .gives ⟨rfl, h, taken_nil⟩
  | cons track tracks ih =>
    obtain ⟨track, count⟩ := track
    obtain ⟨htrack, htracks⟩ := List.forall_mem_cons.mp htracks
    have hslots : ∀ slot ∈ List.range sectorsPerTrack,
        r0EntryOffset track slot + 16 ≤ data.length := fun slot hslot =>
      (r0EntryOffset_le htrack (List.mem_range.mp hslot)).trans hdata
    rw [readR0Tracks, List.flatMap_cons, List.map_append, walk_append]
    refine (readR0Slots_agree hslots h).bind ?_
    rintro ⟨sectors, offset⟩ next ⟨rfl, hnext, hsectors⟩
    refine (ih htracks hnext).bind_end ?_
    rintro ⟨others, offset⟩ next ⟨rfl, hnext, hothers⟩
    exact .gives ⟨rfl, hnext, hsectors.append hothers⟩

/-! ### The file -/

lemma getD_trackOf {α : Type} (sectors : List (D88Sector × α)) :
    (trackOf sectors).getD [] = sectors.map Prod.fst := by
  cases sectors with
  | nil => rfl
  | cons sector sectors => rfl

lemma exists_extra (h : commonHeaderSize ≤ data.length) (trailing : List UInt8)
    (revision : NfdRevisionExtra) :
    ∃ extra, readExtra data trailing revision = pure extra := by
  simp only [commonHeaderSize] at h
  simp (disch := omega) only [readExtra, byte_of_lt, array_of_le, pure_bind]
  exact ⟨_, rfl⟩

lemma r0Layout_cases
    (h : ¬ (data.length < wordAt 4 data 0x110 ∨ wordAt 4 data 0x110 < r0SectorMapEnd)) :
    (∃ media, mediaOf data (r0Entries data) = .ok media ∧
      r0Layout data = (r0Entries data).map (r0Request data)) ∨
    (∃ e, mediaOf data (r0Entries data) = .error e ∧ r0Layout data = [.refused]) := by
  rw [r0Layout, mediaOf]
  simp only [h, if_false]
  cases hfirst : (r0Entries data).head? with
  | none =>
    rw [List.head?_eq_none_iff.mp hfirst]
    exact .inl ⟨_, rfl, rfl⟩
  | some first =>
    rcases media_cases (data.getD (first + 10) 0) (sizeCodeAt data first) with
      ⟨hknown, media, hmedia⟩ | ⟨hunknown, e, hmedia⟩
    · exact .inl ⟨media, hmedia, if_pos hknown⟩
    · exact .inr ⟨e, hmedia, if_neg (Bool.eq_false_iff.mp hunknown)⟩

/-- The parser of the map takes the room of the entries, and gives their sectors. -/
lemma parseR0_agree (h : commonHeaderSize ≤ data.length) :
    Agree (fun found _ => Taken data (r0Layout data) found.1.sectors) (parseR0 data)
      (walk data.length (dataStart data) (r0Layout data)) := by
  simp only [commonHeaderSize] at h
  simp (disch := omega) only [parseR0, word_of_le, byte_of_lt, pure_bind]
  by_cases hheader : data.length < wordAt 4 data 0x110 ∨ wordAt 4 data 0x110 < r0SectorMapEnd
  · have hlayout : r0Layout data = [.refused] := if_pos hheader
    rw [if_pos (by omega), hlayout, walk_singleton, Request.take, if_pos rfl]
    exact .fails _ _
  have hentries := r0Layout_cases hheader
  obtain ⟨hstart, hmap⟩ := not_or.mp hheader
  rw [Nat.not_lt] at hstart hmap
  have hdata : r0SectorMapEnd ≤ data.length := hmap.trans hstart
  obtain ⟨counts, hcounts, hlen⟩ := exists_countTracks
    (fun track htrack => List.mem_range.mp htrack) hdata
  have hplaces : ∀ place ∈ r0Places, r0EntryOffset place.1 place.2 + 16 ≤ data.length := by
    rintro ⟨track, slot⟩ hplace
    obtain ⟨htrack, hslot⟩ := List.pair_mem_product.mp hplace
    exact (r0EntryOffset_le (List.mem_range.mp htrack) (List.mem_range.mp hslot)).trans hdata
  rw [if_neg (by omega), hcounts, pure_bind, detectMedia_eq hplaces, filter_r0Places]
  rcases hentries with ⟨media, hmedia, hlayout⟩ | ⟨e, hmedia, hlayout⟩
  · have hzip : ((List.range r0TrackMax).zip counts).map Prod.fst = List.range r0TrackMax :=
      List.map_fst_zip hlen.ge
    have htracks : ∀ track ∈ (List.range r0TrackMax).zip counts, track.1 < r0TrackMax :=
      fun track htrack => List.mem_range.mp (List.of_mem_zip htrack).1
    have hflat : (((List.range r0TrackMax).zip counts).flatMap fun track =>
        r0Held data track.1 (List.range sectorsPerTrack)) = r0Entries data := by
      rw [r0Entries]
      conv_rhs => rw [← hzip, List.flatMap_map]
    have hagree := readR0Tracks_agree htracks hdata hstart
    rw [hflat] at hagree
    rw [hmedia, decided_ok, pure_bind, hlayout]
    refine hagree.bind_end ?_
    rintro ⟨tracks, offset⟩ next ⟨rfl, hnext, htaken⟩
    obtain ⟨extra, hextra⟩ := exists_extra h ((data.drop offset).take (data.length - offset))
      (.r0 ⟨(data.drop r0SectorMapEnd).take (wordAt 4 data 0x110 - r0SectorMapEnd),
        tracks.map (List.map Prod.snd)⟩)
    simp only [slice_of_le hmap hstart, slice_of_le hnext le_rfl, pure_bind, hextra]
    refine .gives ?_
    simpa only [D88Disk.sectors, List.flatMap_map, getD_trackOf] using htaken
  · rw [hmedia, hlayout, walk_singleton, Request.take, if_pos rfl]
    exact .fails _ _

end Neetan.Floppy.Nfd
