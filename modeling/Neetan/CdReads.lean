import Neetan.CdLayout

/-!
Sectors of a disc: distinct ones are distinct bytes of the data, and every one of a data track can
be read, cooked and raw.
-/

namespace Neetan.CdRom

open SectorFrame

/-! ### Files -/

lemma fileStart_succ (files : List BinFile) (i : ℕ) :
    fileStart files (i + 1) = fileStart files i + fileLength files i := by
  unfold fileStart fileLength
  rw [List.take_add_one, List.map_append, List.sum_append]
  cases files[i]? with
  | none => rfl
  | some file => simp

lemma fileStart_mono (files : List BinFile) {i j : ℕ} (h : i ≤ j) :
    fileStart files i ≤ fileStart files j := by
  induction h with
  | refl => exact le_rfl
  | step _ ih =>
    refine ih.trans ?_
    rw [fileStart_succ]
    exact Nat.le_add_right _ _

lemma fileEnd_le_start (files : List BinFile) {i j : ℕ} (h : i < j) :
    fileStart files i + fileLength files i ≤ fileStart files j := by
  rw [← fileStart_succ]
  exact fileStart_mono files h

lemma fileEnd_le_data (files : List BinFile) (i : ℕ) :
    fileStart files i + fileLength files i ≤ files.flatten.length := by
  rw [← fileStart_succ, List.length_flatten]
  unfold fileStart
  have hsum : files.map List.length = (files.take (i + 1)).map List.length ++
      (files.drop (i + 1)).map List.length := by
    rw [← List.map_append, List.take_append_drop]
  rw [hsum, List.sum_append]
  exact Nat.le_add_right _ _

/-! ### Places -/

/-- The later track is behind the other, on the disc and in the data. -/
def Behind (t t' : Track) : Prop :=
  t.stop ≤ t'.fileOffset ∧ t.startLba + t.sectorCount ≤ t'.startLba

instance : Trans Behind Behind Behind where
  trans h h' := ⟨h.1.trans ((Nat.le_add_right _ _).trans h'.1),
    h.2.trans ((Nat.le_add_right _ _).trans h'.2)⟩

section

variable {files : List BinFile} {counted : Bool}

/-- The two ways to follow the tracks of a file agree. -/
def InSync (files : List BinFile) (prev : Option (CueTrack × Track)) (fit : Option (ℕ × ℕ))
    (ct : CueTrack) : Prop := begins files prev ct = fileStart files ct.fileIndex + startIn fit ct

lemma inSync_next {prev : Option (CueTrack × Track)} {fit : Option (ℕ × ℕ)} {lba : ℕ}
    {ct next : CueTrack} {t : Track} (hsync : InSync files prev fit ct)
    (h : LaidTrack files counted prev lba ct (some next) t) :
    InSync files (some (ct, t)) (some (ct.fileIndex, startIn fit ct + ct.stored * ct.sectorSize +
      (next.fileStartLba - ct.index01) * ct.sectorSize)) next := by
  have houter : ∀ stop, startIn (some (ct.fileIndex, stop)) next =
      if ct.fileIndex = next.fileIndex then stop else next.fileStartLba * next.sectorSize :=
    fun _ => rfl
  unfold InSync
  rw [houter]
  unfold begins
  dsimp only
  split_ifs with hfile
  · have hcount : t.sectorCount = next.fileStartLba - ct.index01 := by
      rw [h.sectorCount]
      exact if_pos hfile.symm
    rw [Track.stop, hcount, h.fileOffset, h.sectorSize, hsync, hfile, Nat.add_assoc, Nat.add_assoc,
      Nat.add_assoc]
  · rfl

lemma offset_in_file {prev : Option (CueTrack × Track)} {fit : Option (ℕ × ℕ)} {lba : ℕ}
    {ct : CueTrack} {cts : List CueTrack} {t : Track} (hsync : InSync files prev fit ct)
    (hfits : Fits files fit (ct :: cts)) (h : LaidTrack files counted prev lba ct cts.head? t) :
    fileStart files ct.fileIndex ≤ t.fileOffset ∧ begins files prev ct ≤ t.fileOffset ∧
      t.fileOffset ≤ fileStart files ct.fileIndex + fileLength files ct.fileIndex := by
  have hindex := hfits.1
  have hoffset := h.fileOffset
  rw [hsync] at hoffset ⊢
  omega

lemma inSync_tail {prev : Option (CueTrack × Track)} {fit : Option (ℕ × ℕ)} {lba : ℕ}
    {ct : CueTrack} {cts : List CueTrack} {t : Track} (hsync : InSync files prev fit ct)
    (hfits : Fits files fit (ct :: cts)) (h : LaidTrack files counted prev lba ct cts.head? t) :
    ∃ fit', Fits files fit' cts ∧
      ∀ next, cts.head? = some next → InSync files (some (ct, t)) fit' next := by
  refine ⟨_, hfits.2, fun next hhead => ?_⟩
  rw [hhead] at h ⊢
  exact inSync_next hsync h

/-- Tracks that are where they belong are one behind the other, and in the data. -/
lemma laid_behind {prev : Option (CueTrack × Track)} {fit : Option (ℕ × ℕ)} {lba total : ℕ}
    {cts : List CueTrack} {ts : List Track} (h : Laid files counted prev lba cts ts total)
    (hsync : ∀ ct, cts.head? = some ct → InSync files prev fit ct) (hfits : Fits files fit cts)
    (horder : (cts.map CueTrack.fileIndex).Pairwise (· ≤ ·)) :
    ts.IsChain Behind ∧ ∀ t ∈ ts, t.stop ≤ files.flatten.length := by
  induction cts generalizing prev fit lba ts with
  | nil =>
    cases ts with
    | nil => exact ⟨List.isChain_nil, fun t ht => absurd ht List.not_mem_nil⟩
    | cons t ts => cases h
  | cons ct cts ih =>
    cases ts with
    | nil => cases h
    | cons t ts =>
      obtain ⟨htrack, htail⟩ := h
      have hoffset := offset_in_file (hsync ct rfl) hfits htrack
      obtain ⟨fit', hfits', hnext⟩ := inSync_tail (hsync ct rfl) hfits htrack
      rw [List.map_cons, List.pairwise_cons] at horder
      obtain ⟨hchain, hinside⟩ := ih htail hnext hfits' horder.2
      -- the track ends in its file, and in front of the next one
      have hlast : LastOfFile ct cts.head? →
          t.stop ≤ fileStart files ct.fileIndex + fileLength files ct.fileIndex := by
        intro hlast
        have hcount : t.sectorCount = (fileStart files ct.fileIndex +
            fileLength files ct.fileIndex - t.fileOffset) / ct.sectorSize := by
          rw [htrack.sectorCount]
          unfold reaches
          cases hhead : cts.head? with
          | none => rfl
          | some next => exact if_neg (hlast next hhead)
        have hmul := Nat.div_mul_le_self (fileStart files ct.fileIndex +
          fileLength files ct.fileIndex - t.fileOffset) ct.sectorSize
        rw [Track.stop, htrack.sectorSize, hcount]
        omega
      cases cts with
      | nil =>
        cases ts with
        | cons t' ts => cases htail
        | nil =>
          refine ⟨List.isChain_singleton _, fun t' ht' => ?_⟩
          obtain rfl := List.mem_singleton.mp ht'
          have hlast' := hlast fun n hn => absurd hn.symm (Option.some_ne_none n)
          exact hlast'.trans (fileEnd_le_data files _)
      | cons next cts =>
        cases ts with
        | nil => cases htail
        | cons t' ts =>
          have hoffset' := offset_in_file (hnext next rfl) hfits' htail.1
          have hstop : t.stop ≤ t'.fileOffset := by
            by_cases hfile : next.fileIndex = ct.fileIndex
            · refine le_trans (le_of_eq ?_) hoffset'.2.1
              unfold begins
              exact (if_pos hfile.symm).symm
            · refine (hlast fun n hn => ?_).trans ((fileEnd_le_start files ?_).trans hoffset'.1)
              · rwa [← Option.some.inj hn]
              · refine lt_of_le_of_ne (horder.1 _ (List.mem_cons_self)) fun he => hfile he.symm
          have hstart : t.startLba + t.sectorCount ≤ t'.startLba := by
            rw [htail.1.startLba, Nat.add_assoc]
            exact Nat.le_add_right _ _
          refine ⟨List.isChain_cons_cons.mpr ⟨⟨hstop, hstart⟩, hchain⟩, fun u hu => ?_⟩
          obtain rfl | hu := List.mem_cons.mp hu
          · refine hstop.trans (le_trans ?_ (hinside t' List.mem_cons_self))
            exact Nat.le_add_right _ _
          · exact hinside u hu

end

/-! ### Sectors -/

def Track.Covers (t : Track) (lba : ℕ) : Prop := t.startLba ≤ lba ∧ lba < t.startLba + t.sectorCount

variable {prev : Option (CueTrack × Track)} {t : Track} {lba : ℕ} {cts : List CueTrack}
  {fit : Option (ℕ × ℕ)}

lemma Track.Covers.within (h : t.Covers lba) :
    t.fileOffset ≤ CdImage.byteOffset t lba ∧
      CdImage.byteOffset t lba + t.sectorSize ≤ t.stop := by
  have hle : (lba - t.startLba + 1) * t.sectorSize ≤ t.sectorCount * t.sectorSize :=
    Nat.mul_le_mul_right _ (by have h1 := h.1; have h2 := h.2; omega)
  rw [Nat.add_mul, Nat.one_mul] at hle
  unfold CdImage.byteOffset Track.stop
  omega

lemma byteOffset_lt {lba' : ℕ} (h : t.Covers lba) (hlt : lba < lba') :
    CdImage.byteOffset t lba + t.sectorSize ≤ CdImage.byteOffset t lba' := by
  have hle : (lba - t.startLba + 1) * t.sectorSize ≤ (lba' - t.startLba) * t.sectorSize :=
    Nat.mul_le_mul_right _ (by have h1 := h.1; omega)
  rw [Nat.add_mul, Nat.one_mul] at hle
  unfold CdImage.byteOffset
  omega

/-- The bytes of the sectors do not overlap. -/
def Apart (t t' : Track) : Prop := ∀ lba lba', t.Covers lba → t'.Covers lba' → lba ≠ lba' →
  CdImage.byteOffset t lba + t.sectorSize ≤ CdImage.byteOffset t' lba' ∨
    CdImage.byteOffset t' lba' + t'.sectorSize ≤ CdImage.byteOffset t lba

lemma apart_self (t : Track) : Apart t t := by
  intro lba lba' h h' hne
  obtain hlt | hlt := Nat.lt_or_gt_of_ne hne
  · exact .inl (byteOffset_lt h hlt)
  · exact .inr (byteOffset_lt h' hlt)

lemma Apart.symm {t' : Track} (h : Apart t t') : Apart t' t :=
  fun lba lba' hc hc' hne => (h lba' lba hc' hc hne.symm).symm

instance : Std.Symm Apart := ⟨fun _ _ => Apart.symm⟩

lemma Behind.apart {t' : Track} (h : Behind t t') : Apart t t' := fun _ _ hc hc' _ =>
  .inl (hc.within.2.trans (h.1.trans hc'.within.1))

lemma apart_of_chain {ts : List Track} (h : ts.IsChain Behind) {t' : Track} (ht : t ∈ ts)
    (ht' : t' ∈ ts) : Apart t t' := by
  have hpairwise := (List.isChain_iff_pairwise.mp h).imp Behind.apart
  exact hpairwise.forall_of_forall (fun t _ => apart_self t) ht ht'

lemma trackForLba_eq {image : CdImage} (h : image.tracks.IsChain Behind) (ht : t ∈ image.tracks)
    (hc : t.Covers lba) (hlt : t.startLba + t.sectorCount < 2 ^ 32) :
    image.trackForLba lba = some t := by
  obtain ⟨before, after, hsplit⟩ := List.append_of_mem ht
  have hafter : ∀ u ∈ after, ¬ lba ≥ u.startLba := by
    intro u hu
    have hpairwise := List.isChain_iff_pairwise.mp h
    rw [hsplit, List.pairwise_append, List.pairwise_cons] at hpairwise
    exact Nat.not_le.mpr (lt_of_lt_of_le hc.2 (hpairwise.2.1.1 u hu).2)
  have hfind :
      image.tracks.reverse.find? (fun track => decide (lba ≥ track.startLba)) = some t := by
    rw [hsplit, List.reverse_append, List.reverse_cons, List.append_assoc, List.find?_append,
      List.find?_eq_none.mpr]
    · simp [hc.1]
    · intro u hu
      rw [decide_eq_true_eq]
      exact hafter u (List.mem_reverse.mp hu)
  unfold CdImage.trackForLba
  rw [hfind]
  dsimp only
  rw [Nat.mod_eq_of_lt hlt, if_pos hc.2]

/-! ### Reads -/

/-- Where the user data of a frame is. -/
def userDataOffset : SectorLayout → ℕ
  | .rawMode2 => rawMode2DataOffset
  | _ => rawMode1DataOffset

/-- The user data of a frame. -/
def userDataPart (layout : SectorLayout) (frame : Frame) : List UInt8 :=
  (frame.toList.drop (userDataOffset layout)).take userDataSize

lemma slice_eq {image : CdImage} {start length : ℕ} (h : start + length ≤ image.data.length) :
    image.slice start length = some ((image.data.drop start).take length) := if_pos h

lemma userDataPart_eq {layout : SectorLayout} {frame : Frame} {user : List UInt8}
    (hlength : user.length = userDataSize)
    (h : ∀ i < userDataSize, byteAt frame (userDataOffset layout + i) = user[i]?.getD 0) :
    user = userDataPart layout frame := by
  have hoff : userDataOffset layout + userDataSize ≤ frameSize := by
    cases layout <;> decide
  refine List.ext_getElem? fun i => ?_
  unfold userDataPart
  rw [List.getElem?_take, List.getElem?_drop]
  split_ifs with hi
  · have hbyte := h i hi
    have hlt : userDataOffset layout + i < frameSize := by omega
    have hlt' : i < user.length := by omega
    unfold byteAt at hbyte
    rw [Vector.getElem?_toList, Vector.getElem?_eq_getElem hlt, List.getElem?_eq_getElem hlt']
    rw [Vector.getElem?_eq_getElem hlt, List.getElem?_eq_getElem hlt'] at hbyte
    exact congrArg some hbyte.symm
  · exact List.getElem?_eq_none (by omega)

/-- A read of a sector of a data track, cooked and raw. -/
def ReadsRight (image : CdImage) (t : Track) (lba : ℕ) : Prop :=
  ∀ bufLength rawLength : ℕ, ∀ buf : Frame, sectorSizeCooked ≤ bufLength → frameSize ≤ rawLength →
    ∃ user frame, image.readSector lba bufLength = some user ∧
      image.readSectorRaw lba rawLength buf = some frame ∧
      user = userDataPart t.sectorLayout frame

lemma readsRight {image : CdImage} (hfind : image.trackForLba lba = some t)
    (hinside : CdImage.byteOffset t lba + t.sectorSize ≤ image.data.length)
    (hsize : t.sectorSize = t.sectorLayout.size) (hlayout : t.sectorLayout ≠ .audio) :
    ReadsRight image t lba := by
  intro bufLength rawLength buf hbuf hraw
  have hcooked : sectorSizeCooked = userDataSize := rfl
  -- the bytes of the sector
  have hstored := slice_eq hinside
  generalize hbytes : (image.data.drop (CdImage.byteOffset t lba)).take t.sectorSize = stored
    at hstored
  have hlength : stored.length = t.sectorSize := by
    rw [← hbytes, List.length_take, List.length_drop]
    omega
  have hpart : ∀ offset, offset + userDataSize ≤ t.sectorSize →
      image.slice (CdImage.byteOffset t lba + offset) sectorSizeCooked =
        some ((stored.drop offset).take userDataSize) := by
    intro offset hoffset
    rw [slice_eq (by omega), ← hbytes, List.drop_take, List.drop_drop, List.take_take, hcooked,
      Nat.min_eq_left (by omega)]
  unfold CdImage.readSector CdImage.readSectorRaw
  rw [hfind]
  dsimp only
  rw [if_neg (Nat.not_lt.mpr hbuf), if_neg (Nat.not_lt.mpr hraw), hstored]
  -- a raw frame is copied, from the frame on
  have hcopied : ∀ offset, offset + userDataSize ≤ frameSize →
      userDataOffset t.sectorLayout = offset → stored.length = frameSize →
      (stored.drop offset).take userDataSize =
        userDataPart t.sectorLayout (copyAt buf 0 (stored.take frameSize)) := by
    intro offset hoffset hlay hfull
    refine userDataPart_eq ?_ fun i hi => ?_
    · rw [List.length_take, List.length_drop]
      omega
    · have hlt : offset + i < frameSize := by omega
      have hcopy : 0 + (stored.take frameSize).length = frameSize := by
        rw [List.length_take]
        omega
      rw [hlay, byteAt_copyAt hlt, if_pos ⟨Nat.zero_le _, by omega⟩, Nat.sub_zero,
        List.getElem?_take, if_pos hlt, List.getElem?_take, if_pos hi, List.getElem?_drop]
  cases hl : t.sectorLayout with
  | audio => exact absurd hl hlayout
  | cooked =>
    have hcooked' : t.sectorSize = userDataSize := by
      rw [hsize, hl]
      rfl
    have h0 := hpart 0 (by omega)
    rw [Nat.add_zero] at h0
    refine ⟨_, _, h0, if_neg (by omega), userDataPart_eq ?_ fun i hi => ?_⟩
    · rw [List.length_take, List.length_drop]
      omega
    · rw [List.drop_zero]
      refine byteAt_buildMode1Frame ?_ hi
      rw [List.length_take]
      omega
  | rawMode1 =>
    have hraw' : t.sectorSize = frameSize := by
      rw [hsize, hl]
      rfl
    have hcopy := hcopied rawMode1DataOffset (by decide) (by rw [hl]; rfl) (hlength.trans hraw')
    rw [hl] at hcopy
    exact ⟨_, _, hpart rawMode1DataOffset (by rw [hraw']; decide), if_neg (by omega), hcopy⟩
  | rawMode2 =>
    have hraw' : t.sectorSize = frameSize := by
      rw [hsize, hl]
      rfl
    have hcopy := hcopied rawMode2DataOffset (by decide) (by rw [hl]; rfl) (hlength.trans hraw')
    rw [hl] at hcopy
    exact ⟨_, _, hpart rawMode2DataOffset (by rw [hraw']; decide), if_neg (by omega), hcopy⟩

/-! ### Discs -/

/-- The disc of a sheet: the tracks are where they belong, distinct sectors are apart and in the
data, and the sectors of data tracks can be read. -/
structure DiscRight (files : List BinFile) (counted : Bool) (sheet : CueSheet) (image : CdImage) :
    Prop where
  laid : Laid files counted none 0 sheet.tracks image.tracks image.totalSectors
  inside : ∀ t ∈ image.tracks, ∀ lba, t.Covers lba →
    CdImage.byteOffset t lba + t.sectorSize ≤ image.data.length
  apart : ∀ t ∈ image.tracks, ∀ t' ∈ image.tracks, Apart t t'
  found : ∀ t ∈ image.tracks, ∀ lba, t.Covers lba → image.trackForLba lba = some t
  reads : ∀ t ∈ image.tracks, t.trackType = .data → ∀ lba, t.Covers lba → ReadsRight image t lba

lemma built_parsed {files : List BinFile} (h : ∀ ct ∈ cts, ct.Parsed) :
    ∀ t ∈ (buildTracks files lba cts).1,
      t.sectorSize = t.sectorLayout.size ∧ (t.trackType = .data ↔ t.sectorLayout ≠ .audio) := by
  induction cts generalizing lba with
  | nil => exact fun t ht => nomatch ht
  | cons ct cts ih =>
    intro t ht
    have hct := h ct List.mem_cons_self
    obtain rfl | ht := List.mem_cons.mp ht
    · exact ⟨hct.sectorSize, hct.trackType⟩
    · exact ih (fun ct hmem => h ct (List.mem_cons_of_mem _ hmem)) t ht

lemma built_lt {files : List BinFile} {counted : Bool}
    (hlaid : Laid files counted prev lba cts (buildTracks files lba cts).1
      (buildTracks files lba cts).2) :
    ∀ t ∈ (buildTracks files lba cts).1, t.startLba + t.sectorCount < 2 ^ 32 := by
  induction cts generalizing lba prev with
  | nil => exact fun t ht => nomatch ht
  | cons ct cts ih =>
    intro t ht
    have htail := hlaid.2
    have hlt := Laid.lt htail
    obtain rfl | ht := List.mem_cons.mp ht
    · exact hlt
    · change Laid files counted _ _ cts (buildTracks files (_ % 2 ^ 32) cts).1
        (buildTracks files (_ % 2 ^ 32) cts).2 at htail
      rw [Nat.mod_eq_of_lt hlt] at htail
      refine ih htail t ?_
      change t ∈ (buildTracks files (_ % 2 ^ 32) cts).1 at ht
      rw [Nat.mod_eq_of_lt hlt] at ht
      exact ht

/-- **The disc of a sheet is right exactly when the sheet is plain.** -/
theorem fromCueFiles_right_iff {cueContent : Text} {sheet : CueSheet} {files : List BinFile}
    (hparse : parseCueSheet cueContent = .ok sheet)
    (hfiles : files.length = sheet.fileNames.length) (hordered : Ordered sheet.tracks)
    (hfits : Fits files none sheet.tracks) (counted : Bool) :
    ∃ image, fromCueFiles cueContent files = .ok image ∧
      (DiscRight files counted sheet image ↔ Plain files counted none 0 sheet.tracks) := by
  have hvalid := valid_of_parseCueSheet hparse
  have hiff := @laid_iff files counted none 0 sheet.tracks hvalid.parsed hordered
    (fun _ _ _ _ hnone => nomatch hnone)
  refine ⟨⟨(buildTracks files 0 sheet.tracks).1, files.flatten,
      (buildTracks files 0 sheet.tracks).2⟩,
    ?_, fun h => hiff.mp h.laid, fun hplain => ?_⟩
  · unfold fromCueFiles buildFromSheet
    rw [hparse]
    exact if_neg (not_not.mpr hfiles.symm)
  · have hlaid := hiff.mpr hplain
    obtain ⟨hchain, hstop⟩ := @laid_behind files counted none none 0 _ sheet.tracks _ hlaid
      (fun _ _ => rfl) hfits hvalid.order
    have hinside : ∀ t ∈ (buildTracks files 0 sheet.tracks).1, ∀ lba, t.Covers lba →
        CdImage.byteOffset t lba + t.sectorSize ≤ files.flatten.length := fun t ht lba hc =>
      hc.within.2.trans (hstop t ht)
    refine ⟨hlaid, hinside, fun t ht t' ht' => apart_of_chain hchain ht ht', ?_, ?_⟩
    · exact fun t ht lba hc => trackForLba_eq hchain ht hc (built_lt hlaid t ht)
    · intro t ht hdata lba hc
      obtain ⟨hsize, htype⟩ := built_parsed hvalid.parsed t ht
      exact readsRight (trackForLba_eq hchain ht hc (built_lt hlaid t ht)) (hinside t ht lba hc)
        hsize (htype.mp hdata)

/-! ### Two Sheets -/

/-- A data and an audio track in one file, and an audio track in another. -/
def plainSheet : CueSheet where
  fileNames := ["a".toList, "b".toList]
  tracks := [⟨1, .data, 2352, .rawMode1, 0, none, some 0, 0⟩,
    ⟨2, .audio, 2352, .audio, 0, none, some 2, 0⟩, ⟨3, .audio, 2352, .audio, 1, none, some 0, 0⟩]

def plainText : Text :=
  ("FILE \"a\" BINARY\nTRACK 01 MODE1/2352\nINDEX 01 00:00:00\n" ++
    "TRACK 02 AUDIO\nINDEX 01 00:00:02\nFILE \"b\" BINARY\nTRACK 03 AUDIO\n" ++
    "INDEX 01 00:00:00").toList

def firstFile : BinFile := List.replicate 9408 0

def secondFile : BinFile := List.replicate 7056 0

def plainFiles : List BinFile := [firstFile, secondFile]

theorem discRight_plain : ∃ image, fromCueFiles plainText plainFiles = .ok image ∧
    DiscRight plainFiles true plainSheet image := by
  have hparse : parseCueSheet plainText = .ok plainSheet := by decide +kernel
  have hfirst : fileLength plainFiles 0 = 9408 := List.length_replicate
  have hsecond : fileLength plainFiles 1 = 7056 := List.length_replicate
  have hordered : Ordered plainSheet.tracks := by
    refine ⟨le_rfl, fun next hnext _ => ?_, le_rfl, fun next hnext hfile => ?_, le_rfl,
      fun _ hnone => (nomatch hnone), trivial⟩
    · obtain rfl := Option.some.inj hnext
      exact Nat.zero_le _
    · obtain rfl := Option.some.inj hnext
      cases hfile
  have hfits : Fits plainFiles none plainSheet.tracks :=
    ⟨Nat.zero_le _, hfirst.symm ▸ (by decide : 2 * 2352 ≤ 9408), Nat.zero_le _, trivial⟩
  have hplain : ∀ files : List BinFile, fileLength files 0 = 9408 → fileLength files 1 = 7056 →
      Plain files true none 0 plainSheet.tracks := by
    intro files hfirst hsecond
    refine ⟨rfl, fun _ hnone => (nomatch hnone), fun _ => ?_,
      (by decide : 0 + 0 + (2 - 0) < 2 ^ 32), rfl,
      fun p hp _ => .inl ?_, fun _ => ?_, ?_, rfl, fun p hp hfile => ?_, fun _ => ?_, ?_, trivial⟩
    · change fileLength files 0 / 2352 < 2 ^ 32
      omega
    · obtain rfl := Option.some.inj hp
      rfl
    · change fileLength files 0 / 2352 < 2 ^ 32
      omega
    · change 2 + 0 + (fileLength files 0 / 2352 - 2) < 2 ^ 32
      omega
    · obtain rfl := Option.some.inj hp
      cases hfile
    · change fileLength files 1 / 2352 < 2 ^ 32
      omega
    · change 2 + 0 + (fileLength files 0 / 2352 - 2) + 0 +
        (fileLength files 1 / 2352 - 0) < 2 ^ 32
      omega
  obtain ⟨image, himage, hiff⟩ :=
    @fromCueFiles_right_iff _ _ plainFiles hparse rfl hordered hfits true
  exact ⟨image, himage, hiff.mpr (hplain plainFiles hfirst hsecond)⟩

/-- An audio track behind a data track of cooked sectors in one file. -/
def mixedSheet : CueSheet where
  fileNames := ["a".toList]
  tracks := [⟨1, .data, 2048, .cooked, 0, none, some 0, 0⟩,
    ⟨2, .audio, 2352, .audio, 0, none, some 1, 0⟩]

def mixedText : Text :=
  ("FILE \"a\" BINARY\nTRACK 01 MODE1/2048\nINDEX 01 00:00:00\n" ++
    "TRACK 02 AUDIO\nINDEX 01 00:00:01").toList

def mixedFile : BinFile := List.replicate 4400 0

/-- **A track is not behind one of another sector size in its file.** -/
theorem not_discRight_mixed : parseCueSheet mixedText = .ok mixedSheet ∧
    Ordered mixedSheet.tracks ∧ Fits [mixedFile] none mixedSheet.tracks ∧
    ∀ counted image, fromCueFiles mixedText [mixedFile] = .ok image →
      ¬ DiscRight [mixedFile] counted mixedSheet image := by
  have hparse : parseCueSheet mixedText = .ok mixedSheet := rfl
  have hvalid := valid_of_parseCueSheet hparse
  have hordered : Ordered mixedSheet.tracks := by
    refine ⟨le_rfl, fun next hnext _ => ?_, le_rfl, fun _ hnone => (nomatch hnone), trivial⟩
    exact Nat.zero_le _
  have hlength : fileLength [mixedFile] 0 = 4400 := List.length_replicate
  refine ⟨hparse, hordered, ⟨Nat.zero_le _, ?_, trivial⟩, fun counted image himage hright => ?_⟩
  · -- the second track is at byte 2048 of the file
    change 2048 ≤ fileLength [mixedFile] 0
    omega
  · have hbuilt : fromCueFiles mixedText [mixedFile] =
        .ok ⟨(buildTracks [mixedFile] 0 mixedSheet.tracks).1, [mixedFile].flatten,
          (buildTracks [mixedFile] 0 mixedSheet.tracks).2⟩ := by
      unfold fromCueFiles buildFromSheet
      rw [hparse]
      rfl
    obtain rfl := Except.ok.inj (hbuilt.symm.trans himage)
    have hiff := @laid_iff [mixedFile] counted none 0 mixedSheet.tracks hvalid.parsed hordered
      (fun _ _ _ _ hnone => (nomatch hnone))
    obtain ⟨-, -, -, -, -, hsizes, -⟩ := hiff.mp hright.laid
    rcases hsizes _ rfl rfl with hsize | hfirst
    · exact absurd hsize (by decide)
    · exact absurd hfirst (by decide)

end Neetan.CdRom
