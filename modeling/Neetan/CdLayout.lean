import Neetan.CdRom
import Mathlib.Data.List.Chain
import Mathlib.Algebra.BigOperators.Group.List.Basic

/-!
The layout of a disc: where the tracks of a sheet belong, on the disc and in their files.

A track begins in its file where the one before it ends, and on the disc where the one before it
ends. The image puts it at the frame of its index times its own sector size, which is the same
place if the tracks before it in the file have that sector size as well.
-/

namespace Neetan.CdRom

/-! ### Parsed Sheets -/

def SectorLayout.size : SectorLayout → ℕ
  | .cooked => sectorSizeCooked
  | _ => sectorSizeRaw

/-- The track's mode is one of those a sheet can name, and its times are in 32 bits. -/
structure CueTrack.Parsed (ct : CueTrack) : Prop where
  sectorSize : ct.sectorSize = ct.sectorLayout.size
  trackType : ct.trackType = .data ↔ ct.sectorLayout ≠ .audio
  index00 : ∀ lba, ct.index00Lba = some lba → lba < 2 ^ 32
  index01 : ∀ lba, ct.index01Lba = some lba → lba < 2 ^ 32

/-- What holds of the tracks parsed so far. -/
structure CueState.Valid (state : CueState) : Prop where
  parsed : ∀ ct ∈ state.tracks, ct.Parsed
  current : ∀ k, state.currentFileIndex = some k → k + 1 = state.fileNames.length
  files : ∀ ct ∈ state.tracks, ct.fileIndex < state.fileNames.length
  order : (state.tracks.map CueTrack.fileIndex).Pairwise (· ≤ ·)

namespace CueState

lemma modeOf_spec {mode : Text} {trackType : TrackType} {size : ℕ} {layout : SectorLayout}
    (h : modeOf mode = some (trackType, size, layout)) :
    size = layout.size ∧ (trackType = .data ↔ layout ≠ .audio) := by
  unfold modeOf at h
  split_ifs at h <;> cases h <;> exact ⟨rfl, by decide⟩

variable {state after : CueState} {prev : Option (CueTrack × Track)} {tokens : List Text} {lba : ℕ}

lemma parseMsf_lt {s : Text} (h : parseMsf s = .ok lba) : lba < 2 ^ 32 := by
  unfold parseMsf at h
  dsimp only at h
  split at h <;> try cases h
  split at h <;> try cases h
  split at h <;> try cases h
  split at h <;> try cases h
  exact Nat.mod_lt _ (Nat.two_pow_pos 32)

lemma Valid.modifyLast (h : state.Valid) {change : CueTrack → CueTrack}
    (hfile : ∀ ct, (change ct).fileIndex = ct.fileIndex)
    (hparsed : ∀ ct, ct.Parsed → (change ct).Parsed) : (state.modifyLast change).Valid := by
  obtain hnil | ⟨init, last, hconcat⟩ := List.eq_nil_or_concat state.tracks
  · have hsame : (state.modifyLast change).tracks = state.tracks := by
      unfold CueState.modifyLast
      simp [hnil]
    exact ⟨hsame ▸ h.parsed, h.current, hsame ▸ h.files, hsame ▸ h.order⟩
  · rw [List.concat_eq_append] at hconcat
    have htracks : (state.modifyLast change).tracks = init ++ [change last] := by
      unfold CueState.modifyLast
      simp [hconcat]
    have hmap : (state.modifyLast change).tracks.map CueTrack.fileIndex =
        state.tracks.map CueTrack.fileIndex := by
      rw [htracks, hconcat]
      simp [hfile]
    have hmem : ∀ ct ∈ (state.modifyLast change).tracks,
        ct ∈ state.tracks ∨ ∃ old ∈ state.tracks, ct = change old := by
      intro ct hct
      rw [htracks] at hct
      rw [hconcat]
      obtain hi | hl := List.mem_append.mp hct
      · exact .inl (List.mem_append.mpr (.inl hi))
      · exact .inr ⟨last, by simp, List.mem_singleton.mp hl⟩
    refine ⟨fun ct hct => ?_, h.current, fun ct hct => ?_, hmap ▸ h.order⟩
    · obtain hold | ⟨old, hold, rfl⟩ := hmem ct hct
      · exact h.parsed ct hold
      · exact hparsed old (h.parsed old hold)
    · obtain hold | ⟨old, hold, rfl⟩ := hmem ct hct
      · exact h.files ct hold
      · rw [hfile]
        exact h.files old hold

lemma Valid.file (h : state.Valid) {line first : Text}
    (hrun : state.file line first tokens = .ok after) : after.Valid := by
  unfold CueState.file at hrun
  split at hrun <;> try cases hrun
  dsimp only at hrun
  split_ifs at hrun
  cases hrun
  refine ⟨h.parsed, fun k hk => ?_, fun ct hct => ?_, h.order⟩
  · have hk' := Option.some.inj hk
    dsimp only
    rw [← hk', List.length_append, List.length_singleton]
    rfl
  · have hlt := h.files ct hct
    dsimp only
    rw [List.length_append]
    omega

lemma Valid.track (h : state.Valid) (hrun : state.track tokens = .ok after) : after.Valid := by
  unfold CueState.track at hrun
  split at hrun <;> try cases hrun
  rename_i fileIndex hfile
  split at hrun <;> try cases hrun
  split at hrun <;> try cases hrun
  dsimp only at hrun
  split at hrun <;> try cases hrun
  rename_i number hnumber trackType size layout hmode
  have hcurrent := h.current fileIndex hfile
  obtain ⟨hsize, htype⟩ := modeOf_spec hmode
  refine ⟨fun ct hct => ?_, h.current, fun ct hct => ?_, ?_⟩
  · obtain hold | hnew := List.mem_append.mp hct
    · exact h.parsed ct hold
    · obtain rfl := List.mem_singleton.mp hnew
      exact ⟨hsize, htype, fun lba hlba => absurd hlba.symm (Option.some_ne_none lba),
        fun lba hlba => absurd hlba.symm (Option.some_ne_none lba)⟩
  · obtain hold | hnew := List.mem_append.mp hct
    · exact h.files ct hold
    · obtain rfl := List.mem_singleton.mp hnew
      dsimp only
      omega
  · -- the file is the last one, and no track has a later one
    rw [List.map_append, List.pairwise_append]
    refine ⟨h.order, List.pairwise_singleton _ _, fun a ha b hb => ?_⟩
    obtain ⟨ct, hct, rfl⟩ := List.mem_map.mp ha
    obtain rfl := List.mem_singleton.mp hb
    have hlt := h.files ct hct
    omega

lemma Valid.index (h : state.Valid) (hrun : state.index tokens = .ok after) : after.Valid := by
  unfold CueState.index at hrun
  split at hrun <;> try cases hrun
  split_ifs at hrun
  split at hrun <;> try cases hrun
  split at hrun <;> try cases hrun
  rename_i hlba
  have hlt := parseMsf_lt hlba
  split_ifs at hrun <;> cases hrun
  · refine h.modifyLast (fun _ => rfl) fun ct hct => ⟨hct.sectorSize, hct.trackType, ?_, hct.index01⟩
    rintro lba ⟨⟩
    exact hlt
  · refine h.modifyLast (fun _ => rfl) fun ct hct => ⟨hct.sectorSize, hct.trackType, hct.index00, ?_⟩
    rintro lba ⟨⟩
    exact hlt
  · exact h

lemma Valid.pregap (h : state.Valid) (hrun : state.pregap tokens = .ok after) : after.Valid := by
  unfold CueState.pregap at hrun
  split at hrun <;> try cases hrun
  split_ifs at hrun
  split at hrun <;> try cases hrun
  exact h.modifyLast (fun _ => rfl) fun ct hct =>
    ⟨hct.sectorSize, hct.trackType, hct.index00, hct.index01⟩

lemma Valid.parseLine (h : state.Valid) {line : Text} (hrun : state.parseLine line = .ok after) :
    after.Valid := by
  unfold CueState.parseLine at hrun
  dsimp only at hrun
  split at hrun
  · cases hrun
    exact h
  · split_ifs at hrun
    · exact h.file hrun
    · exact h.track hrun
    · exact h.index hrun
    · exact h.pregap hrun
    · cases hrun
      exact h

lemma Valid.parseLines {lines : List Text} (h : state.Valid)
    (hrun : state.parseLines lines = .ok after) : after.Valid := by
  induction lines generalizing state with
  | nil =>
    cases hrun
    exact h
  | cons line rest ih =>
    rw [CueState.parseLines] at hrun
    split at hrun <;> try cases hrun
    rename_i hline
    exact ih (h.parseLine hline) hrun

end CueState

/-- What holds of a sheet that was parsed. -/
structure CueSheet.Valid (sheet : CueSheet) : Prop where
  parsed : ∀ ct ∈ sheet.tracks, ct.Parsed
  files : ∀ ct ∈ sheet.tracks, ct.fileIndex < sheet.fileNames.length
  order : (sheet.tracks.map CueTrack.fileIndex).Pairwise (· ≤ ·)

lemma valid_of_parseCueSheet {cueContent : Text} {sheet : CueSheet}
    (h : parseCueSheet cueContent = .ok sheet) : sheet.Valid := by
  unfold parseCueSheet at h
  split at h <;> try cases h
  rename_i state hstate
  split_ifs at h
  split at h <;> cases h
  have hvalid : state.Valid := by
    refine CueState.Valid.parseLines ?_ hstate
    exact ⟨fun _ hct => (nomatch hct), fun _ hk => (nomatch hk), fun _ hct => (nomatch hct),
      List.Pairwise.nil⟩
  exact ⟨hvalid.parsed, hvalid.files, hvalid.order⟩

/-! ### The Layout -/

/-- The frames of the pregap that are in the file. -/
def CueTrack.stored (ct : CueTrack) : ℕ := ct.index01 - ct.fileStartLba

/-- The sectors of a pregap that is not in the file, if they are counted. -/
def virtualSectors (counted : Bool) (ct : CueTrack) : ℕ := if counted then ct.pregapSectors else 0

/-- The byte behind the last sector. -/
def Track.stop (t : Track) : ℕ := t.fileOffset + t.sectorCount * t.sectorSize

/-- The byte a track begins at, with its pregap: behind the track before it in the file. -/
def begins (files : List BinFile) (prev : Option (CueTrack × Track)) (ct : CueTrack) : ℕ :=
  match prev with
  | some (pct, pt) =>
    if pct.fileIndex = ct.fileIndex then pt.stop
    else fileStart files ct.fileIndex + ct.fileStartLba * ct.sectorSize
  | none => fileStart files ct.fileIndex + ct.fileStartLba * ct.sectorSize

/-- The sectors of a track at a byte: up to the next one in the file, or all whole ones to the end
of the file. -/
def reaches (files : List BinFile) (ct : CueTrack) (next : Option CueTrack) (offset : ℕ) : ℕ :=
  match next with
  | some next =>
    if next.fileIndex = ct.fileIndex then next.fileStartLba - ct.index01
    else (fileStart files ct.fileIndex + fileLength files ct.fileIndex - offset) / ct.sectorSize
  | none => (fileStart files ct.fileIndex + fileLength files ct.fileIndex - offset) / ct.sectorSize

/-- The track is where it belongs, behind the one before it. -/
structure LaidTrack (files : List BinFile) (counted : Bool) (prev : Option (CueTrack × Track))
    (lba : ℕ) (ct : CueTrack) (next : Option CueTrack) (t : Track) : Prop where
  number : t.number = ct.number
  trackType : t.trackType = ct.trackType
  sectorSize : t.sectorSize = ct.sectorSize
  sectorLayout : t.sectorLayout = ct.sectorLayout
  pregapLba : t.pregapLba = lba
  startLba : t.startLba = lba + virtualSectors counted ct + ct.stored
  fileOffset : t.fileOffset = begins files prev ct + ct.stored * ct.sectorSize
  sectorCount : t.sectorCount = reaches files ct next t.fileOffset

/-- The tracks are where they belong, and the disc ends behind the last one. -/
def Laid (files : List BinFile) (counted : Bool) :
    Option (CueTrack × Track) → ℕ → List CueTrack → List Track → ℕ → Prop
  | _, lba, [], [], total => total = lba
  | prev, lba, ct :: cts, t :: ts, total =>
    LaidTrack files counted prev lba ct cts.head? t ∧
      Laid files counted (some (ct, t)) (t.startLba + t.sectorCount) cts ts total
  | _, _, _, _, _ => False

/-- The indices are in increasing order, in each track and from track to track of a file. -/
def Ordered : List CueTrack → Prop
  | [] => True
  | ct :: cts => ct.fileStartLba ≤ ct.index01 ∧
    (∀ next, cts.head? = some next → next.fileIndex = ct.fileIndex →
      ct.index01 ≤ next.fileStartLba) ∧ Ordered cts

/-- The byte of its file a track starts at, behind the track before it. -/
def startIn (prev : Option (ℕ × ℕ)) (ct : CueTrack) : ℕ :=
  match prev with
  | some (file, stop) => if file = ct.fileIndex then stop else ct.fileStartLba * ct.sectorSize
  | none => ct.fileStartLba * ct.sectorSize

/-- Every track's INDEX 01 is within its file, where the tracks before it in the file put it. -/
def Fits (files : List BinFile) : Option (ℕ × ℕ) → List CueTrack → Prop
  | _, [] => True
  | prev, ct :: cts =>
    let index := startIn prev ct + ct.stored * ct.sectorSize
    let frames := match cts.head? with
      | some next => next.fileStartLba - ct.index01
      | none => 0
    index ≤ fileLength files ct.fileIndex ∧
      Fits files (some (ct.fileIndex, index + frames * ct.sectorSize)) cts

/-- The sectors of a track, if all of its file has its sector size. -/
def sectorsOf (files : List BinFile) (ct : CueTrack) (next : Option CueTrack) : ℕ :=
  match next with
  | some next =>
    if next.fileIndex = ct.fileIndex then next.fileStartLba - ct.index01
    else fileLength files ct.fileIndex / ct.sectorSize - ct.index01
  | none => fileLength files ct.fileIndex / ct.sectorSize - ct.index01

/-- The track is the last one of its file. -/
def LastOfFile (ct : CueTrack) (next : Option CueTrack) : Prop :=
  ∀ n, next = some n → n.fileIndex ≠ ct.fileIndex

/-- No pregap outside the files is counted, neighbours in a file have one sector size or the later
one starts at the first frame, and the sectors of the disc and of the files fit in 32 bits. -/
def Plain (files : List BinFile) (counted : Bool) : Option CueTrack → ℕ → List CueTrack → Prop
  | _, _, [] => True
  | prev, lba, ct :: cts =>
    virtualSectors counted ct = 0 ∧
    (∀ p, prev = some p → p.fileIndex = ct.fileIndex →
      p.sectorSize = ct.sectorSize ∨ ct.fileStartLba = 0) ∧
    (LastOfFile ct cts.head? → fileLength files ct.fileIndex / ct.sectorSize < 2 ^ 32) ∧
    lba + ct.stored + sectorsOf files ct cts.head? < 2 ^ 32 ∧
    Plain files counted (some ct) (lba + ct.stored + sectorsOf files ct cts.head?) cts

/-! ### The Image's Layout -/

section

variable {files : List BinFile} {counted : Bool}

lemma Laid.lt {lba' : ℕ} {cts : List CueTrack}
    (h : Laid files counted prev lba cts (buildTracks files (lba' % 2 ^ 32) cts).1
      (buildTracks files (lba' % 2 ^ 32) cts).2) : lba < 2 ^ 32 := by
  have hlt : lba' % 2 ^ 32 < 2 ^ 32 := Nat.mod_lt _ (Nat.two_pow_pos 32)
  cases cts with
  | nil =>
    have he : lba' % 2 ^ 32 = lba := h
    omega
  | cons ct cts =>
    have he : lba' % 2 ^ 32 = lba := h.1.pregapLba
    omega

/-- Where the track before ends, if all of its file up to there has its sector size. -/
def StopsAt (files : List BinFile) (prev : Option (CueTrack × Track)) (ct : CueTrack) : Prop :=
  ∀ pct pt, prev = some (pct, pt) → pct.fileIndex = ct.fileIndex →
    pt.stop = fileStart files ct.fileIndex + ct.fileStartLba * pct.sectorSize

/-- A built track is at the right byte when the one before it has its sector size. -/
lemma offset_iff {ct : CueTrack} (hstored : ct.fileStartLba ≤ ct.index01)
    (hstop : StopsAt files prev ct) :
    fileStart files ct.fileIndex + ct.index01 * ct.sectorSize =
        begins files prev ct + ct.stored * ct.sectorSize ↔
      ∀ p, prev.map Prod.fst = some p → p.fileIndex = ct.fileIndex →
        p.sectorSize = ct.sectorSize ∨ ct.fileStartLba = 0 := by
  have hindex : ct.index01 * ct.sectorSize =
      ct.fileStartLba * ct.sectorSize + ct.stored * ct.sectorSize := by
    rw [← Nat.add_mul, CueTrack.stored, Nat.add_sub_cancel' hstored]
  rw [hindex, ← Nat.add_assoc, Nat.add_right_cancel_iff]
  unfold begins
  rcases prev with _ | ⟨pct, pt⟩
  · exact iff_of_true rfl fun p hp => nomatch hp
  · simp only [Option.map_some, Option.some.injEq, forall_eq']
    split_ifs with hfile
    · rw [hstop pct pt rfl hfile, Nat.add_left_cancel_iff]
      constructor
      · intro he _
        by_cases hzero : ct.fileStartLba = 0
        · exact .inr hzero
        · exact .inl (Nat.eq_of_mul_eq_mul_left (Nat.pos_of_ne_zero hzero) he).symm
      · intro h
        obtain he | hzero := h hfile
        · rw [he]
        · rw [hzero, Nat.zero_mul, Nat.zero_mul]
    · exact iff_of_true rfl fun hf => absurd hf hfile

lemma reaches_eq {ct : CueTrack} (next : Option CueTrack) :
    reaches files ct next (fileStart files ct.fileIndex + ct.index01 * ct.sectorSize) =
      sectorsOf files ct next := by
  have hdiv : (fileStart files ct.fileIndex + fileLength files ct.fileIndex -
      (fileStart files ct.fileIndex + ct.index01 * ct.sectorSize)) / ct.sectorSize =
        fileLength files ct.fileIndex / ct.sectorSize - ct.index01 := by
    rw [Nat.add_sub_add_left, Nat.mul_comm, Nat.sub_mul_div]
  unfold reaches sectorsOf
  rw [hdiv]

/-- A built track has the right sectors when its file is not too large, if it is the last one. -/
lemma count_iff {ct : CueTrack} (next : Option CueTrack) (hindex : ct.index01 < 2 ^ 32) :
    sectorCountOf files ct next = sectorsOf files ct next ↔
      (LastOfFile ct next → fileLength files ct.fileIndex / ct.sectorSize < 2 ^ 32) := by
  have hlast : fileSectorCount files ct - ct.index01 =
      fileLength files ct.fileIndex / ct.sectorSize - ct.index01 ↔
        fileLength files ct.fileIndex / ct.sectorSize < 2 ^ 32 := by
    unfold fileSectorCount
    generalize fileLength files ct.fileIndex / ct.sectorSize = sectors
    have hmod := Nat.mod_lt sectors (Nat.two_pow_pos 32)
    constructor
    · intro he
      by_contra hge
      omega
    · intro hlt
      rw [Nat.mod_eq_of_lt hlt]
  unfold sectorCountOf sectorsOf LastOfFile
  cases next with
  | none => exact hlast.trans ⟨fun h _ => h, fun h => h fun n hn => nomatch hn⟩
  | some next =>
    simp only [Option.some.injEq, forall_eq']
    split_ifs with hfile
    · exact iff_of_true rfl fun hn => absurd hfile hn
    · exact hlast.trans ⟨fun h _ => h, fun h => h hfile⟩

lemma laidTrack_iff {ct : CueTrack} {next : Option CueTrack} (hparsed : ct.Parsed)
    (hstored : ct.fileStartLba ≤ ct.index01) (hstop : StopsAt files prev ct) :
    LaidTrack files counted prev lba ct next (buildTrack files lba ct next) ↔
      virtualSectors counted ct = 0 ∧
      (∀ p, prev.map Prod.fst = some p → p.fileIndex = ct.fileIndex →
        p.sectorSize = ct.sectorSize ∨ ct.fileStartLba = 0) ∧
      (LastOfFile ct next → fileLength files ct.fileIndex / ct.sectorSize < 2 ^ 32) ∧
      lba + ct.stored < 2 ^ 32 := by
  have hindex : ct.index01 < 2 ^ 32 := by
    unfold CueTrack.index01
    cases h : ct.index01Lba with
    | none => exact Nat.two_pow_pos 32
    | some lba => exact hparsed.index01 lba h
  have hstart : (lba + ct.stored) % 2 ^ 32 = lba + virtualSectors counted ct + ct.stored ↔
      virtualSectors counted ct = 0 ∧ lba + ct.stored < 2 ^ 32 := by
    have hmod := Nat.mod_lt (lba + ct.stored) (Nat.two_pow_pos 32)
    have hle := Nat.mod_le (lba + ct.stored) (2 ^ 32)
    constructor
    · intro he
      omega
    · rintro ⟨hzero, hlt⟩
      rw [hzero, Nat.mod_eq_of_lt hlt, Nat.add_zero]
  constructor
  · intro h
    obtain ⟨hzero, hlt⟩ := hstart.mp h.startLba
    refine ⟨hzero, (offset_iff hstored hstop).mp h.fileOffset, ?_, hlt⟩
    exact (count_iff next hindex).mp (h.sectorCount.trans (reaches_eq next))
  · rintro ⟨hzero, hsizes, hlast, hlt⟩
    refine ⟨rfl, rfl, rfl, rfl, rfl, hstart.mpr ⟨hzero, hlt⟩, ?_, ?_⟩
    · exact (offset_iff hstored hstop).mpr hsizes
    · exact ((count_iff next hindex).mpr hlast).trans (reaches_eq next).symm

/-- **The image's layout is right exactly when the sheet is plain.** -/
theorem laid_iff {cts : List CueTrack} (hparsed : ∀ ct ∈ cts, ct.Parsed) (hordered : Ordered cts)
    (hstop : ∀ ct, cts.head? = some ct → StopsAt files prev ct) :
    Laid files counted prev lba cts (buildTracks files lba cts).1 (buildTracks files lba cts).2 ↔
      Plain files counted (prev.map Prod.fst) lba cts := by
  induction cts generalizing prev lba with
  | nil => exact iff_of_true rfl trivial
  | cons ct cts ih =>
    have hct := hparsed ct List.mem_cons_self
    have hiff := @laidTrack_iff files counted prev lba ct cts.head? hct hordered.1 (hstop ct rfl)
    have hrest : ∀ next ∈ cts, next.Parsed := fun next hnext =>
      hparsed next (List.mem_cons_of_mem _ hnext)
    -- the track in front of the next one ends where that one begins
    have hnext : ∀ next, cts.head? = some next →
        StopsAt files (some (ct, buildTrack files lba ct cts.head?)) next := by
      rintro next hhead pct pt hsome hfile
      cases hsome
      have hle := hordered.2.1 next hhead hfile.symm
      have hcount : (buildTrack files lba ct cts.head?).sectorCount =
          next.fileStartLba - ct.index01 := by
        unfold buildTrack sectorCountOf
        rw [hhead]
        exact if_pos hfile.symm
      unfold Track.stop
      rw [hcount]
      unfold buildTrack
      dsimp only
      rw [hfile, Nat.add_assoc, ← Nat.add_mul, Nat.add_sub_cancel' hle]
    -- the sector behind a track that is where it belongs
    have hbehind :
        LaidTrack files counted prev lba ct cts.head? (buildTrack files lba ct cts.head?) →
        (buildTrack files lba ct cts.head?).startLba +
          (buildTrack files lba ct cts.head?).sectorCount =
            lba + ct.stored + sectorsOf files ct cts.head? := by
      intro hlaid
      have hstart := hlaid.startLba
      rw [(hiff.mp hlaid).1, Nat.add_zero] at hstart
      rw [hstart, hlaid.sectorCount.trans (reaches_eq cts.head?)]
    change LaidTrack files counted prev lba ct cts.head? (buildTrack files lba ct cts.head?) ∧
      Laid files counted (some (ct, buildTrack files lba ct cts.head?))
        ((buildTrack files lba ct cts.head?).startLba +
          (buildTrack files lba ct cts.head?).sectorCount) cts _ _ ↔ _
    dsimp only [buildTracks]
    generalize buildTrack files lba ct cts.head? = t at hiff hnext hbehind ⊢
    constructor
    · rintro ⟨htrack, htail⟩
      have hlt := htail.lt
      obtain ⟨hzero, hsizes, hlast, -⟩ := hiff.mp htrack
      rw [Nat.mod_eq_of_lt hlt] at htail
      rw [hbehind htrack] at htail hlt
      exact ⟨hzero, hsizes, hlast, hlt, (ih hrest hordered.2.2 hnext).mp htail⟩
    · rintro ⟨hzero, hsizes, hlast, hlt, hplain⟩
      have htrack := hiff.mpr ⟨hzero, hsizes, hlast, by omega⟩
      rw [hbehind htrack, Nat.mod_eq_of_lt hlt]
      exact ⟨htrack, (ih hrest hordered.2.2 hnext).mpr hplain⟩

end

end Neetan.CdRom
