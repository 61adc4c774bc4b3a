import Neetan.SectorFrame

/-!
CUE sheets and the disc images built from them.

A sheet is parsed line by line into tracks with their file and the frames of their indices; the
image lays the tracks out one behind the other and reads sectors through them.
-/

namespace Neetan.CdRom

open SectorFrame

def sectorSizeCooked : ℕ := 2048
def sectorSizeRaw : ℕ := 2352
def rawMode1DataOffset : ℕ := 16
def rawMode2DataOffset : ℕ := 24

inductive TrackType where
  | data
  | audio
  deriving DecidableEq, Repr

inductive SectorLayout where
  | cooked
  | rawMode1
  | rawMode2
  | audio
  deriving DecidableEq, Repr

structure Track where
  number : ℕ
  trackType : TrackType
  sectorSize : ℕ
  /-- The sector of INDEX 01. -/
  startLba : ℕ
  /-- The sector of INDEX 00, or of INDEX 01 if no pregap is in the image. -/
  pregapLba : ℕ
  /-- The sectors from INDEX 01 on. -/
  sectorCount : ℕ
  fileOffset : ℕ
  sectorLayout : SectorLayout
  deriving DecidableEq, Repr

structure CdImage where
  tracks : List Track
  data : List UInt8
  totalSectors : ℕ
  deriving DecidableEq, Repr

inductive CdError where
  | parseError (message : String)
  | unsupportedFormat (message : String)
  deriving DecidableEq, Repr

/-- A track of a sheet that is being parsed. -/
structure CueTrack where
  number : ℕ
  trackType : TrackType
  sectorSize : ℕ
  sectorLayout : SectorLayout
  fileIndex : ℕ
  index00Lba : Option ℕ
  index01Lba : Option ℕ
  pregapSectors : ℕ
  deriving DecidableEq, Repr

structure CueSheet where
  fileNames : List (List Char)
  tracks : List CueTrack
  deriving DecidableEq, Repr

/-! ### Text -/

abbrev Text : Type := List Char

/-- White space as Unicode has it. -/
def isWhitespace (c : Char) : Bool :=
  let n := c.toNat
  (9 ≤ n && n ≤ 13) || n == 0x20 || n == 0x85 || n == 0xA0 || n == 0x1680 ||
    (0x2000 ≤ n && n ≤ 0x200A) || n == 0x2028 || n == 0x2029 || n == 0x202F || n == 0x205F ||
    n == 0x3000

/-- The upper case of a character whose upper case is ASCII, as that of ten other characters is.
`to_uppercase` maps the rest as well, which no keyword has and only the texts of errors show. -/
def upperChar (c : Char) : Text :=
  if c.toNat = 0xDF then ['S', 'S']
  else if c.toNat = 0x131 then ['I']
  else if c.toNat = 0x17F then ['S']
  else if c.toNat = 0xFB00 then ['F', 'F']
  else if c.toNat = 0xFB01 then ['F', 'I']
  else if c.toNat = 0xFB02 then ['F', 'L']
  else if c.toNat = 0xFB03 then ['F', 'F', 'I']
  else if c.toNat = 0xFB04 then ['F', 'F', 'L']
  else if c.toNat = 0xFB05 then ['S', 'T']
  else if c.toNat = 0xFB06 then ['S', 'T']
  else [c.toUpper]

def toUppercase (text : Text) : Text := text.flatMap upperChar

def trim (text : Text) : Text :=
  ((text.dropWhile isWhitespace).reverse.dropWhile isWhitespace).reverse

/-- The parts between the characters that separate. -/
def splitBy (separates : Char → Bool) : Text → List Text
  | [] => [[]]
  | c :: cs =>
    if separates c then [] :: splitBy separates cs
    else match splitBy separates cs with
      | [] => [[c]]
      | part :: parts => (c :: part) :: parts

def splitWhitespace (text : Text) : List Text :=
  (splitBy isWhitespace text).filter fun part => !part.isEmpty

/-- The lines, without their ends; the last one may be unended. -/
def lines (text : Text) : List Text :=
  let parts := splitBy (· == '\n') text
  let parts := if parts.getLast? = some [] then parts.dropLast else parts
  parts.map fun line => if line.getLast? = some '\r' then line.dropLast else line

/-- A decimal number below a bound, with a plus sign or not. -/
def parseUnsigned (bound : ℕ) (text : Text) : Option ℕ :=
  let digits := match text with
    | '+' :: cs => cs
    | cs => cs
  if digits.isEmpty || !digits.all Char.isDigit then none
  else
    let value := digits.foldl (fun n c => 10 * n + (c.toNat - 48)) 0
    if value < bound then some value else none

/-! ### The Sheet -/

/-- Frames of a time, in 32 bits. -/
def msfToLba (minutes seconds frames : ℕ) : ℕ :=
  (minutes * secondsPerMinute * framesPerSecond + seconds * framesPerSecond + frames) % 2 ^ 32

def parseMsf (s : Text) : Except CdError ℕ :=
  let text := String.ofList s
  match splitBy (· == ':') s with
  | [m, sec, f] =>
    match parseUnsigned (2 ^ 32) m with
    | none => .error (.parseError ("invalid minutes in MSF: " ++ text))
    | some minutes =>
      match parseUnsigned (2 ^ 32) sec with
      | none => .error (.parseError ("invalid seconds in MSF: " ++ text))
      | some seconds =>
        match parseUnsigned (2 ^ 32) f with
        | none => .error (.parseError ("invalid frames in MSF: " ++ text))
        | some frames => .ok (msfToLba minutes seconds frames)
  | _ => .error (.parseError ("invalid MSF timestamp: " ++ text))

/-- What has been parsed so far. -/
structure CueState where
  tracks : List CueTrack
  fileNames : List (List Char)
  currentFileIndex : Option ℕ

def CueState.start : CueState := ⟨[], [], none⟩

/-- What a mode stands for. -/
def modeOf (mode : Text) : Option (TrackType × ℕ × SectorLayout) :=
  if mode = "MODE1/2352".toList then some (.data, sectorSizeRaw, .rawMode1)
  else if mode = "MODE1/2048".toList then some (.data, sectorSizeCooked, .cooked)
  else if mode = "MODE2/2352".toList then some (.data, sectorSizeRaw, .rawMode2)
  else if mode = "MODE2/2048".toList then some (.data, sectorSizeCooked, .cooked)
  else if mode = "AUDIO".toList then some (.audio, sectorSizeRaw, .audio)
  else none

/-- The name in a FILE line, quoted or not. -/
def fileName (rest second : Text) : Text :=
  match rest with
  | '"' :: stripped => (splitBy (· == '"') stripped).head?.getD []
  | _ => second

namespace CueState

def file (self : CueState) (line first : Text) (tokens : List Text) : Except CdError CueState :=
  match tokens with
  | _ :: second :: _ :: _ =>
    let fileType := toUppercase (tokens.getLast?.getD [])
    if fileType ≠ "BINARY".toList then
      .error (.unsupportedFormat
        ("only BINARY file type is supported, got " ++ String.ofList fileType))
    else
      let rest := trim (line.drop first.length)
      let fileNames := self.fileNames ++ [fileName rest second]
      .ok { self with fileNames, currentFileIndex := some (fileNames.length - 1) }
  | _ => .error (.parseError "FILE directive missing arguments")

def track (self : CueState) (tokens : List Text) : Except CdError CueState :=
  match self.currentFileIndex with
  | none => .error (.parseError "TRACK before FILE directive")
  | some fileIndex =>
    match tokens with
    | _ :: second :: third :: _ =>
      match parseUnsigned (2 ^ 8) second with
      | none => .error (.parseError ("invalid track number: " ++ String.ofList second))
      | some number =>
        let mode := toUppercase third
        match modeOf mode with
        | none => .error (.unsupportedFormat ("unsupported track mode: " ++ String.ofList mode))
        | some (trackType, sectorSize, sectorLayout) =>
          .ok { self with tracks := self.tracks ++ [{
            number, trackType, sectorSize, sectorLayout, fileIndex
            index00Lba := none
            index01Lba := none
            pregapSectors := 0 }] }
    | _ => .error (.parseError "TRACK directive missing arguments")

/-- The last track is changed. -/
def modifyLast (self : CueState) (change : CueTrack → CueTrack) : CueState :=
  { self with tracks := self.tracks.dropLast ++ (self.tracks.getLast?.map change).toList }

def index (self : CueState) (tokens : List Text) : Except CdError CueState :=
  match tokens with
  | _ :: second :: third :: _ =>
    if self.tracks.isEmpty then .error (.parseError "INDEX before TRACK")
    else match parseUnsigned (2 ^ 8) second with
      | none => .error (.parseError ("invalid index number: " ++ String.ofList second))
      | some indexNumber =>
        match parseMsf third with
        | .error e => .error e
        | .ok lba =>
          if indexNumber = 0 then .ok (self.modifyLast fun t => { t with index00Lba := some lba })
          else if indexNumber = 1 then
            .ok (self.modifyLast fun t => { t with index01Lba := some lba })
          else .ok self
  | _ => .error (.parseError "INDEX directive missing arguments")

def pregap (self : CueState) (tokens : List Text) : Except CdError CueState :=
  match tokens with
  | _ :: second :: _ =>
    if self.tracks.isEmpty then .error (.parseError "PREGAP before TRACK")
    else match parseMsf second with
      | .error e => .error e
      | .ok lba => .ok (self.modifyLast fun t => { t with pregapSectors := lba })
  | _ => .error (.parseError "PREGAP directive missing argument")

def parseLine (self : CueState) (line : Text) : Except CdError CueState :=
  let line := trim line
  let tokens := splitWhitespace line
  match tokens with
  | [] => .ok self
  | first :: _ =>
    let directive := toUppercase first
    if directive = "FILE".toList then self.file line first tokens
    else if directive = "TRACK".toList then self.track tokens
    else if directive = "INDEX".toList then self.index tokens
    else if directive = "PREGAP".toList then self.pregap tokens
    else .ok self

def parseLines : CueState → List Text → Except CdError CueState
  | self, [] => .ok self
  | self, line :: rest =>
    match self.parseLine line with
    | .error e => .error e
    | .ok self => parseLines self rest

end CueState

def parseCueSheet (cueContent : Text) : Except CdError CueSheet :=
  match CueState.start.parseLines (lines cueContent) with
  | .error e => .error e
  | .ok state =>
    if state.tracks.isEmpty then .error (.parseError "no tracks found in CUE sheet")
    else match state.tracks.find? fun track => track.index01Lba.isNone with
      | some track =>
        .error (.parseError ("track " ++ toString track.number ++ " missing INDEX 01"))
      | none => .ok ⟨state.fileNames, state.tracks⟩

/-! ### The Image -/

abbrev BinFile : Type := List UInt8

/-- Where a file starts in the data of all of them. -/
def fileStart (files : List BinFile) (index : ℕ) : ℕ := ((files.take index).map List.length).sum

def fileLength (files : List BinFile) (index : ℕ) : ℕ := (files[index]?.getD []).length

/-- The frame of INDEX 01. -/
def CueTrack.index01 (self : CueTrack) : ℕ := self.index01Lba.getD 0

/-- The frame the track starts at in its file. -/
def CueTrack.fileStartLba (self : CueTrack) : ℕ := self.index00Lba.getD self.index01

/-- The whole sectors of the track's file, in 32 bits. -/
def fileSectorCount (files : List BinFile) (ct : CueTrack) : ℕ :=
  fileLength files ct.fileIndex / ct.sectorSize % 2 ^ 32

/-- The sectors of a track with the one behind it. -/
def sectorCountOf (files : List BinFile) (ct : CueTrack) (next : Option CueTrack) : ℕ :=
  match next with
  | some next =>
    if next.fileIndex = ct.fileIndex then next.fileStartLba - ct.index01
    else fileSectorCount files ct - ct.index01
  | none => fileSectorCount files ct - ct.index01

def buildTrack (files : List BinFile) (nextDiscLba : ℕ) (ct : CueTrack) (next : Option CueTrack) :
    Track where
  number := ct.number
  trackType := ct.trackType
  sectorSize := ct.sectorSize
  startLba := (nextDiscLba + (ct.index01 - ct.fileStartLba)) % 2 ^ 32
  pregapLba := nextDiscLba
  sectorCount := sectorCountOf files ct next
  fileOffset := fileStart files ct.fileIndex + ct.index01 * ct.sectorSize
  sectorLayout := ct.sectorLayout

/-- The tracks from a sector of the disc on, and the sector behind them. -/
def buildTracks (files : List BinFile) : ℕ → List CueTrack → List Track × ℕ
  | nextDiscLba, [] => ([], nextDiscLba)
  | nextDiscLba, ct :: cts =>
    let track := buildTrack files nextDiscLba ct cts.head?
    let (tracks, total) := buildTracks files ((track.startLba + track.sectorCount) % 2 ^ 32) cts
    (track :: tracks, total)

def buildFromSheet (sheet : CueSheet) (files : List BinFile) : Except CdError CdImage :=
  if sheet.fileNames.length ≠ files.length then
    .error (.parseError ("sheet references " ++ toString sheet.fileNames.length ++ " files, but " ++
      toString files.length ++ " were provided"))
  else
    let (tracks, totalSectors) := buildTracks files 0 sheet.tracks
    .ok { tracks, data := files.flatten, totalSectors }

def fromCueFiles (cueContent : Text) (files : List BinFile) : Except CdError CdImage :=
  match parseCueSheet cueContent with
  | .error e => .error e
  | .ok sheet => buildFromSheet sheet files

namespace CdImage

/-- The last track that starts at the sector or before it, if it reaches it. -/
def trackForLba (self : CdImage) (lba : ℕ) : Option Track :=
  match self.tracks.reverse.find? fun track => decide (lba ≥ track.startLba) with
  | none => none
  | some track => if lba < (track.startLba + track.sectorCount) % 2 ^ 32 then some track else none

/-- Bytes of the data, if they are all there. -/
def slice (self : CdImage) (start length : ℕ) : Option (List UInt8) :=
  if start + length ≤ self.data.length then some ((self.data.drop start).take length) else none

/-- The place of the sector in the data. -/
def byteOffset (track : Track) (lba : ℕ) : ℕ :=
  track.fileOffset + (lba - track.startLba) * track.sectorSize

/-- The bytes that are copied into a buffer of a length. -/
def readSector (self : CdImage) (lba bufLength : ℕ) : Option (List UInt8) :=
  match self.trackForLba lba with
  | none => none
  | some track =>
    if bufLength < sectorSizeCooked then none
    else match track.sectorLayout with
      | .cooked => self.slice (byteOffset track lba) sectorSizeCooked
      | .rawMode1 => self.slice (byteOffset track lba + rawMode1DataOffset) sectorSizeCooked
      | .rawMode2 => self.slice (byteOffset track lba + rawMode2DataOffset) sectorSizeCooked
      | .audio => none

/-- The frame that is written over the first bytes of a buffer. -/
def readSectorRaw (self : CdImage) (lba bufLength : ℕ) (buf : Frame) : Option Frame :=
  match self.trackForLba lba with
  | none => none
  | some track =>
    if bufLength < frameSize then none
    else match self.slice (byteOffset track lba) track.sectorSize with
      | none => none
      | some stored =>
        match track.sectorLayout with
        | .cooked =>
          if stored.length < userDataSize then none
          else some (buildMode1Frame lba (stored.take userDataSize) buf)
        | _ =>
          if stored.length < frameSize then none else some (copyAt buf 0 (stored.take frameSize))

end CdImage

end Neetan.CdRom
