import Neetan.Dim
import Neetan.Fdi
import Neetan.NfdR1Parsed

/-!
What the floppy parsers do with an untrusted file.

D88, FDI and DIM files are parsed safely, whatever they hold. An NFD file is parsed safely when
the sizes it gives are machine words, since its size codes go into a shift unchecked.
-/

namespace Neetan.Floppy

open LittleEndian ByteReader

/-- The bytes of a slice, which has fewer than 2⁶³ of them. -/
abbrev ByteSlice := { data : List UInt8 // data.length < 2 ^ 63 }

/-- Each parser ends on the file with an error or a disk. The sectors of a disk are the bytes of the
file at the offsets they record, and all but the ones of a D88 file have the size of their
code. The parser of a DIM file gives no offset to a sector that is not in the file. -/
structure KeepsToFile (data : List UInt8) : Prop where
  d88 : Ends (D88Disk.fromBytes data) fun disk => ∀ sector ∈ disk.sectors, sector.FromFile data
  nfd : Ends (Nfd.fromBytes data) fun found => ∀ sector ∈ found.1.sectors,
    sector.FromFile data ∧ sector.Sized
  fdi : Ends (Fdi.fromBytes data) fun found => ∀ sector ∈ found.1.sectors,
    sector.FromFile data ∧ sector.Sized
  dim : Ends (Dim.fromBytes data) fun found => ∀ sector ∈ found.1.sectors,
    (sector.sourceOffset ≠ none → sector.FromFile data) ∧ sector.Sized

/-- **When the floppy parsers keep to the file.** They do when the sizes that it gives as an NFD
file are machine words, and only then. -/
theorem keepsToFile_iff (file : ByteSlice) : KeepsToFile file.val ↔ Nfd.SizesFit file.val := by
  obtain ⟨data, hlen⟩ := file
  constructor
  · exact fun h => (Nfd.fromBytes_ends_iff hlen).mp h.nfd
  · intro h
    refine ⟨D88Disk.fromBytes_ends hlen, (Nfd.fromBytes_ends_iff hlen).mpr h,
      Fdi.fromBytes_ends hlen, ?_⟩
    refine (Dim.fromBytes_ends hlen).mono fun found hfound sector hsector => ?_
    obtain ⟨hsized, hfile⟩ := hfound sector hsector
    exact ⟨fun hne => hfile.resolve_right fun hnone => hne hnone.1, hsized⟩

/-- An R1 file with one track, whose one sector has the size code 64. -/
def oversizedFile : ByteSlice :=
  ⟨Nfd.r1Magic ++ List.replicate 0x101 0 ++ toLe 4 976 ++ List.replicate 12 0 ++
    toLe 4 944 ++ List.replicate (163 * 4) 0 ++
    toLe 2 1 ++ List.replicate 14 0 ++
    [0, 0, 1, 64] ++ List.replicate 12 0, by decide +kernel⟩

lemma oversizedFile_split : oversizedFile.val =
    (Nfd.r1Magic ++ List.replicate 0x101 0 ++ toLe 4 976 ++ List.replicate 12 0) ++
      (toLe 4 944 ++ (List.replicate 652 0 ++
        (toLe 2 1 ++ List.replicate 14 0 ++ [0, 0, 1, 64] ++ List.replicate 12 0))) := by
  simp only [oversizedFile, List.append_assoc]

lemma wordAt_zeros {width n offset : ℕ} (rest : List UInt8) (h : offset + width ≤ n) :
    wordAt width (List.replicate n 0 ++ rest) offset = 0 := by
  have hzeros : ∀ k, fromLe (List.replicate k 0) = 0 := fun k => by
    induction k with
    | zero => rfl
    | succ k ih => rw [List.replicate_succ, fromLe, ih]; rfl
  rw [wordAt, List.drop_append_of_le_length (by rw [List.length_replicate]; omega),
    List.drop_replicate, List.take_append_of_le_length (by rw [List.length_replicate]; omega),
    List.take_replicate, hzeros]

lemma oversizedFile_offsets :
    Nfd.r1TrackOffsets oversizedFile.val = 944 :: List.replicate 163 0 := by
  have hfirst : wordAt 4 oversizedFile.val Nfd.commonHeaderSize = 944 := by decide +kernel
  have hothers : ∀ i < 163,
      wordAt 4 oversizedFile.val (Nfd.commonHeaderSize + 4 * (i + 1)) = 0 := by
    intro i hi
    have hbehind : Nfd.commonHeaderSize + 4 * (i + 1) = 288 + (4 + 4 * i) := by
      rw [show Nfd.commonHeaderSize = 288 from rfl]
      omega
    rw [oversizedFile_split, hbehind, wordAt, ← List.drop_drop, List.drop_left' (by decide +kernel),
      ← List.drop_drop, List.drop_left' (by decide)]
    exact wordAt_zeros _ (by omega)
  rw [Nfd.r1TrackOffsets, show Nfd.r1TrackMax = 163 + 1 from rfl, List.range_succ_eq_map,
    List.map_cons, List.map_map, Nat.mul_zero, Nat.add_zero, hfirst]
  refine congrArg _ (List.eq_replicate_iff.mpr ⟨by simp, fun word hword => ?_⟩)
  obtain ⟨i, hi, rfl⟩ := List.mem_map.mp hword
  exact hothers i (List.mem_range.mp hi)

lemma oversizedFile_layout :
    ∃ others, Nfd.layout oversizedFile.val = .sector 64 1 :: others := by
  have hlength : oversizedFile.val.length = 976 := by decide +kernel
  have hblock : Nfd.firstBlockOffset (944 :: List.replicate 163 0) 976 = 944 := by decide
  have hhead : wordAt 4 oversizedFile.val 0x110 = 976 := by decide +kernel
  have hone : wordAt 2 oversizedFile.val 944 = 1 := by decide +kernel
  have hnone : wordAt 2 oversizedFile.val (944 + 2) = 0 := by decide +kernel
  have hcode : Nfd.sizeCodeAt oversizedFile.val (944 + Nfd.r1TrackHeaderSize) = 64 := by
    decide +kernel
  have hretry : oversizedFile.val.getD (944 + Nfd.r1TrackHeaderSize + 10) 0 = 0 := by
    decide +kernel
  have hmagic : oversizedFile.val.take 15 = Nfd.r1Magic := rfl
  have hlayout : Nfd.layout oversizedFile.val = Nfd.r1Layout oversizedFile.val := by
    rw [Nfd.layout, if_neg (by rw [hlength]; decide), hmagic, if_neg (by decide), if_pos rfl]
  rw [hlayout, Nfd.r1Layout, oversizedFile_offsets]
  simp only [hhead, hlength, hblock]
  rw [if_neg (by decide), if_neg (by decide), Nfd.r1Blocks]
  simp only [hone, hnone, hlength]
  rw [if_neg (by decide), if_neg (by decide), if_neg (by decide), Nfd.r1Sectors]
  simp only [hcode, hretry]
  exact ⟨_, rfl⟩

/-- The parser stops at the shift of the size code. -/
theorem not_keepsToFile : ¬ KeepsToFile oversizedFile.val := by
  intro h
  obtain ⟨hcomputes, -⟩ := (Nfd.fromBytes_ends_iff oversizedFile.property).mp h.nfd
  obtain ⟨others, hlayout⟩ := oversizedFile_layout
  have hstart : Nfd.dataStart oversizedFile.val ≤ oversizedFile.val.length := by decide +kernel
  rw [hlayout, Nfd.computes_cons hstart] at hcomputes
  exact hcomputes.1.1 (by decide)

end Neetan.Floppy
