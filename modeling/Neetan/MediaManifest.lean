import Mathlib.Data.String.Basic
import Neetan.SortedDifferences

/-!
The media manifest of a save state, its validation, and its comparison with the mounted media.

The comparison walks both binding lists with one cursor each. On validated manifests it finds
the identifiers at which the two differ as finite maps.
-/

namespace Neetan.SaveState

open SortedDifferences

/-- Why a decoded state is not valid. -/
structure StateValidationError where
  message : String
  deriving DecidableEq, Repr

abbrev Validated := Except StateValidationError

structure MediaBindingId where
  identifier : String
  deriving Repr

/-- Identifiers are ordered as their texts are. -/
instance : LinearOrder MediaBindingId :=
  LinearOrder.lift' MediaBindingId.identifier fun ⟨_⟩ ⟨_⟩ h => congrArg MediaBindingId.mk h

inductive MediaKind
  | floppy
  | hardDisk
  | cdRom
  | cassette
  deriving DecidableEq, Repr

structure MediaSlot where
  kind : MediaKind
  index : UInt32
  deriving DecidableEq, Repr

structure MediaSourcePath where
  pathPrefix : Option String
  rooted : Bool
  components : List String
  deriving DecidableEq, Repr

structure ResourceIdentity where
  digest : Vector UInt8 32
  byteLength : UInt64
  deriving DecidableEq, Repr

structure MediaGeometry where
  cylinders : UInt32
  heads : UInt32
  sectorsPerTrack : UInt32
  bytesPerSector : UInt32
  deriving DecidableEq, Repr

structure MediaBinding where
  identifier : MediaBindingId
  slot : MediaSlot
  sourcePath : Option MediaSourcePath
  mediaType : String
  identity : ResourceIdentity
  geometry : Option MediaGeometry
  writeProtected : Bool
  backendGeneration : Option UInt64
  deriving DecidableEq, Repr

structure MediaManifest where
  bindings : List MediaBinding
  deriving DecidableEq, Repr

structure MediaBindingMismatch where
  expected : Option MediaBinding
  active : Option MediaBinding
  deriving DecidableEq, Repr

/-- A set of differences that is not empty. -/
structure MediaMismatch where
  entries : List MediaBindingMismatch
  entries_ne_nil : entries ≠ []

/-! ### Validation -/

/-- The checks of path components, after some of which a normal one may have been seen. -/
def MediaSourcePath.validateComponents (rooted : Bool) : Bool → List String → Validated Unit
  | _, [] => .ok ()
  | normalComponentSeen, component :: rest =>
    if component = "" ∨ component = "." then
      .error ⟨"media source path contains an invalid component"⟩
    else if component = ".." then
      if rooted ∨ normalComponentSeen then
        .error ⟨"media source path is not lexically normalized"⟩
      else validateComponents rooted normalComponentSeen rest
    else validateComponents rooted true rest

def MediaSourcePath.validateState (path : MediaSourcePath) : Validated Unit :=
  if path.pathPrefix = some "" then .error ⟨"media source path prefix must not be empty"⟩
  else validateComponents path.rooted false path.components

def validateGeometry (geometry : MediaGeometry) : Validated Unit :=
  if geometry.cylinders = 0 ∨ geometry.heads = 0 ∨ geometry.sectorsPerTrack = 0 ∨
      geometry.bytesPerSector = 0 then .error ⟨"media geometry values must not be zero"⟩
  else .ok ()

/-- The checks of one binding in the loop of the manifest's validation. -/
def validateBinding (binding : MediaBinding) : Validated Unit :=
  if binding.identifier.identifier = "" then
    .error ⟨"media binding identifier must not be empty"⟩
  else if binding.mediaType = "" then .error ⟨"media type identifier must not be empty"⟩
  else do
    binding.sourcePath.forM MediaSourcePath.validateState
    binding.geometry.forM validateGeometry

/-- Two neighbours are out of order or equal. -/
def anyUnsorted : List MediaBinding → Bool
  | first :: second :: rest =>
    decide (second.identifier ≤ first.identifier) || anyUnsorted (second :: rest)
  | _ => false

def MediaManifest.validateState (manifest : MediaManifest) : Validated Unit := do
  manifest.bindings.forM validateBinding
  if anyUnsorted manifest.bindings then
    throw ⟨"media manifest bindings must be unique and sorted"⟩

/-! ### Comparison -/

/-- The loop over both binding lists, each with its index. -/
def compareLoop (bindings current : List MediaBinding) (savedIndex activeIndex : ℕ)
    (entries : List MediaBindingMismatch) : List MediaBindingMismatch :=
  match _hs : bindings[savedIndex]?, _ha : current[activeIndex]? with
  | some saved, some active =>
    if saved.identifier = active.identifier then
      compareLoop bindings current (savedIndex + 1) (activeIndex + 1)
        (if saved ≠ active then entries ++ [⟨some saved, some active⟩] else entries)
    else if saved.identifier < active.identifier then
      compareLoop bindings current (savedIndex + 1) activeIndex (entries ++ [⟨some saved, none⟩])
    else
      compareLoop bindings current savedIndex (activeIndex + 1) (entries ++ [⟨none, some active⟩])
  | some saved, none =>
    compareLoop bindings current (savedIndex + 1) activeIndex (entries ++ [⟨some saved, none⟩])
  | none, some active =>
    compareLoop bindings current savedIndex (activeIndex + 1) (entries ++ [⟨none, some active⟩])
  | none, none => entries
termination_by (bindings.length - savedIndex) + (current.length - activeIndex)
decreasing_by all_goals grind

def MediaManifest.compareCurrent (manifest current : MediaManifest) :
    Validated (Option MediaMismatch) := do
  manifest.validateState
  current.validateState
  let entries := compareLoop manifest.bindings current.bindings 0 0 []
  return if h : entries ≠ [] then some ⟨entries, h⟩ else none

/-- The binding of an identifier. -/
def MediaManifest.binding (manifest : MediaManifest) (identifier : MediaBindingId) :
    Option MediaBinding :=
  lookup MediaBinding.identifier manifest.bindings identifier

lemma ascending_of_anyUnsorted {bindings : List MediaBinding} (h : anyUnsorted bindings = false) :
    Ascending MediaBinding.identifier bindings := by
  have hchain : (bindings.map MediaBinding.identifier).IsChain (· < ·) := by
    induction bindings using anyUnsorted.induct with
    | case1 first second rest ih =>
      rw [anyUnsorted, Bool.or_eq_false_iff, decide_eq_false_iff_not, not_le] at h
      exact .cons_cons h.1 (ih h.2)
    | case2 bindings hshort =>
      match bindings, hshort with
      | [], _ => exact .nil
      | [binding], _ => exact .singleton binding.identifier
      | first :: second :: rest, hshort => exact absurd rfl (hshort first second rest)
  exact List.pairwise_map.mp (List.isChain_iff_pairwise.mp hchain)

lemma MediaManifest.ascending (manifest : MediaManifest) (h : manifest.validateState = .ok ()) :
    Ascending MediaBinding.identifier manifest.bindings := by
  rw [validateState] at h
  cases hbindings : manifest.bindings.forM validateBinding with
  | error e => rw [hbindings] at h; cases h
  | ok =>
    refine ascending_of_anyUnsorted (Bool.eq_false_iff.mpr fun hunsorted => ?_)
    rw [hbindings, hunsorted] at h
    cases h

/-- What the loop pushes for two sides of a difference. -/
def mismatchOf (sides : Option MediaBinding × Option MediaBinding) : MediaBindingMismatch :=
  ⟨sides.1, sides.2⟩

lemma drop_of_get {l : List MediaBinding} {i : ℕ} {binding : MediaBinding}
    (h : l[i]? = some binding) : l.drop i = binding :: l.drop (i + 1) := by
  obtain ⟨hi, rfl⟩ := List.getElem?_eq_some_iff.mp h
  exact List.drop_eq_getElem_cons hi

lemma drop_of_get_none {l : List MediaBinding} {i : ℕ} (h : l[i]? = none) : l.drop i = [] :=
  List.drop_eq_nil_of_le (List.getElem?_eq_none_iff.mp h)

/-- The loop adds the differences of the bindings that its cursors have not passed. -/
lemma compareLoop_eq (bindings current : List MediaBinding) (savedIndex activeIndex : ℕ)
    (entries : List MediaBindingMismatch) :
    compareLoop bindings current savedIndex activeIndex entries =
      entries ++ (differences MediaBinding.identifier (bindings.drop savedIndex)
        (current.drop activeIndex)).map mismatchOf := by
  fun_induction compareLoop bindings current savedIndex activeIndex entries with
  | case1 i j entries saved active hs ha heq ih =>
    rw [dite_eq_ite] at ih
    rw [ih, drop_of_get hs, drop_of_get ha, differences, if_pos heq]
    split_ifs with hne
    · rw [List.map_cons, List.append_assoc, List.singleton_append, mismatchOf]
    · rfl
  | case2 i j entries saved active hs ha hne hlt ih =>
    rw [ih, drop_of_get hs, drop_of_get ha, differences, if_neg hne, if_pos hlt,
      List.map_cons, List.append_assoc, List.singleton_append, mismatchOf]
  | case3 i j entries saved active hs ha hne hlt ih =>
    rw [ih, drop_of_get hs, drop_of_get ha, differences, if_neg hne, if_neg hlt,
      List.map_cons, List.append_assoc, List.singleton_append, mismatchOf]
  | case4 i j entries saved hs ha ih =>
    rw [ih, drop_of_get hs, drop_of_get_none ha, differences, List.map_cons, List.append_assoc,
      List.singleton_append, mismatchOf]
  | case5 i j entries active hs ha ih =>
    rw [ih, drop_of_get_none hs, drop_of_get ha, differences, List.map_cons, List.append_assoc,
      List.singleton_append, mismatchOf]
  | case6 i j entries hs ha =>
    rw [drop_of_get_none hs, drop_of_get_none ha, differences, List.map_nil, List.append_nil]

lemma MediaManifest.compareCurrent_ok {manifest current : MediaManifest}
    (hm : manifest.validateState = .ok ()) (hc : current.validateState = .ok ()) :
    manifest.compareCurrent current =
      .ok (if h : compareLoop manifest.bindings current.bindings 0 0 [] ≠ [] then
        some ⟨_, h⟩ else none) := by
  rw [compareCurrent, hm, hc]
  rfl

/-- **What the comparison reports**: nothing when the bindings are equal, and otherwise every
identifier at which the manifests differ, once and in ascending order, with what each of them
binds there. -/
theorem MediaManifest.compareCurrent_differences {manifest current : MediaManifest}
    (hm : manifest.validateState = .ok ()) (hc : current.validateState = .ok ()) :
    ∃ result, manifest.compareCurrent current = .ok result ∧
      (result = none ↔ manifest.bindings = current.bindings) ∧
      ∀ mismatch, result = some mismatch → ∃ identifiers : List MediaBindingId,
        identifiers.Pairwise (· < ·) ∧
        (∀ id, id ∈ identifiers ↔ manifest.binding id ≠ current.binding id) ∧
        mismatch.entries = identifiers.map fun id => ⟨manifest.binding id, current.binding id⟩ := by
  have hloop : compareLoop manifest.bindings current.bindings 0 0 [] =
      (differences MediaBinding.identifier manifest.bindings current.bindings).map mismatchOf :=
    compareLoop_eq _ _ 0 0 []
  have hnil : compareLoop manifest.bindings current.bindings 0 0 [] = [] ↔
      manifest.bindings = current.bindings := by
    rw [hloop, List.map_eq_nil_iff, differences_eq_nil]
  refine ⟨_, compareCurrent_ok hm hc, ?_, fun mismatch hmismatch => ?_⟩
  · rw [← hnil, dite_eq_right_iff]
    exact ⟨fun h => not_not.mp fun hne => Option.some_ne_none _ (h hne), fun h hne => absurd h hne⟩
  · obtain ⟨identifiers, hsorted, hmem, hentries⟩ :=
      differences_differAt (manifest.ascending hm) (current.ascending hc)
    obtain ⟨_, hsome⟩ := Option.dite_none_right_eq_some.mp hmismatch
    obtain rfl := Option.some.inj hsome
    refine ⟨identifiers, hsorted, hmem, ?_⟩
    refine hloop.trans ?_
    rw [hentries, List.map_map]
    rfl

/-- A floppy binding without a source path. -/
def floppyBinding (identifier : String) (writeProtected : Bool) : MediaBinding where
  identifier := ⟨identifier⟩
  slot := ⟨.floppy, 0⟩
  sourcePath := none
  mediaType := "d88"
  identity := ⟨Vector.replicate 32 0, 1261568⟩
  geometry := some ⟨77, 2, 8, 1024⟩
  writeProtected
  backendGeneration := none

theorem MediaManifest.compareCurrent_differences_floppies :
    let manifest : MediaManifest := ⟨[floppyBinding "a" false, floppyBinding "b" false]⟩
    let current : MediaManifest := ⟨[floppyBinding "b" true, floppyBinding "c" false]⟩
    ∃ result, manifest.compareCurrent current = .ok result ∧
      (result = none ↔ manifest.bindings = current.bindings) ∧
      ∀ mismatch, result = some mismatch → ∃ identifiers : List MediaBindingId,
        identifiers.Pairwise (· < ·) ∧
        (∀ id, id ∈ identifiers ↔ manifest.binding id ≠ current.binding id) ∧
        mismatch.entries = identifiers.map fun id => ⟨manifest.binding id, current.binding id⟩ :=
  compareCurrent_differences (by decide +kernel) (by decide +kernel)

end Neetan.SaveState
