import Neetan.EmsMoves

/-!
Moves and exchanges in the states a manager reaches.

Between regions of which one is expanded, a move or an exchange that succeeds does what it should.
Between conventional regions there is no check for an overlap: what comes out is right only as
long as no byte of memory was to take two different values.
-/

namespace Neetan.Ems

open Neetan.MachineInt Neetan.BestFit Neetan.EmulatedMemory MemoryAccess
open MemoryManager CellMemory

variable {σ : Type} [MemoryAccess σ] [CellMemory σ]

/-! ### What a Transfer Should Do -/

/-- The destination holds what the source held; all other bytes are as before. -/
structure Moved (m : MemoryManager) (mem : σ) (srcRegion dstRegion : EmsTransferRegion) (n : ℕ)
    (mem' : σ) : Prop where
  location : location mem' = location mem
  destination : ∀ k < n,
    byteAt mem' (m.regionAddress dstRegion k) = byteAt mem (m.regionAddress srcRegion k)
  others : ∀ x, (∀ k < n, CellMemory.location mem (m.regionAddress dstRegion k) ≠ x) →
    cell mem' x = cell mem x

/-- Each region holds what the other held; all other bytes are as before. -/
structure Exchanged (m : MemoryManager) (mem : σ) (srcRegion dstRegion : EmsTransferRegion) (n : ℕ)
    (mem' : σ) : Prop where
  location : location mem' = location mem
  source : ∀ k < n,
    byteAt mem' (m.regionAddress srcRegion k) = byteAt mem (m.regionAddress dstRegion k)
  destination : ∀ k < n,
    byteAt mem' (m.regionAddress dstRegion k) = byteAt mem (m.regionAddress srcRegion k)
  others : ∀ x, (∀ k < n, CellMemory.location mem (m.regionAddress srcRegion k) ≠ x) →
    (∀ k < n, CellMemory.location mem (m.regionAddress dstRegion k) ≠ x) → cell mem' x = cell mem x

/-- A move that reports success, or an overlap, has moved; any other leaves memory as it was. -/
def MoveKeeps (m : MemoryManager) (mem : σ) (params : EmsMoveParams) : Prop :=
  ∃ status mem', m.emsMoveMemory params mem = some (status, mem') ∧
    (status = 0x00 ∨ status = 0x92 →
      Moved m mem params.srcRegion params.dstRegion params.regionLength mem') ∧
    (status ≠ 0x00 → status ≠ 0x92 → mem' = mem)

/-- An exchange that reports success has exchanged; any other leaves memory as it was. -/
def ExchangeKeeps (m : MemoryManager) (mem : σ) (params : EmsMoveParams) : Prop :=
  ∃ status mem', m.emsExchangeMemory params mem = some (status, mem') ∧
    (status = 0x00 → Exchanged m mem params.srcRegion params.dstRegion params.regionLength mem') ∧
    (status ≠ 0x00 → mem' = mem)

/-! ### When Conventional Regions Agree -/

/-- Both regions are conventional, and pass the checks. -/
structure EmsMoveParams.Conventional (params : EmsMoveParams) : Prop where
  srcType : params.srcType = 0
  dstType : params.dstType = 0
  length : params.regionLength ≤ 0x100000
  srcEnd : params.srcSegPage * 16 + params.srcOffset + params.regionLength ≤ 0x100000
  dstEnd : params.dstSegPage * 16 + params.dstOffset + params.regionLength ≤ 0x100000

/-- Where two addresses of a region show one byte, the bytes to be written there are equal. -/
def Agrees (mem : σ) (target source n : ℕ) : Prop :=
  ∀ j < n, ∀ k < n, location mem (target + j) = location mem (target + k) →
    byteAt mem (source + j) = byteAt mem (source + k)

/-- Where two addresses of either region show one byte, the bytes to be written there are equal. -/
def ExchangeAgrees (mem : σ) (source target n : ℕ) : Prop :=
  Agrees mem target source n ∧ Agrees mem source target n ∧
    ∀ j < n, ∀ k < n, location mem (target + j) = location mem (source + k) →
      byteAt mem (source + j) = byteAt mem (target + k)

/-! ### One Transfer -/

section Transfer

variable {setup : Setup} {m : MemoryManager} {mem mem' mem₁ : σ} {params : EmsMoveParams}
variable {srcRegion dstRegion : EmsTransferRegion} {n : ℕ}

/-- The cases of a transfer: nothing to do, a failure, or the copy between the regions named. -/
inductive TransferCase (m : MemoryManager) (params : EmsMoveParams) (exchange : Bool) (mem : σ) :
    Run (ℕ × σ) → Prop
  | nothing (hlen : params.regionLength = 0) : TransferCase m params exchange mem (some (0x00, mem))
  | refused {code : ℕ} (hzero : code ≠ 0x00) (hoverlap : code ≠ 0x92)
      (hkind : ¬ params.Conventional) : TransferCase m params exchange mem (some (code, mem))
  | copied {status : ℕ} (hstatus : status = 0x00 ∨ status = 0x92)
      (hexchange : exchange = true → status = 0x00 ∧
        sameHandleOverlap params.srcRegion params.dstRegion params.regionLength = false)
      (hpos : 0 < params.regionLength)
      (hsrc : Resolved m params.regionLength params.srcRegion)
      (hdst : Resolved m params.regionLength params.dstRegion)
      (hframe : m.emsRegionsOverlapPageFrame params.srcRegion params.dstRegion
        params.regionLength = false) :
      TransferCase m params exchange mem
        ((m.transferRegions params.srcRegion params.dstRegion params.regionLength exchange mem).bind
          fun mem' => some (status, mem'))

omit [CellMemory σ] in
lemma EmsMoveParams.Conventional.regions (h : params.Conventional) :
    params.srcRegion = .conventional (params.srcSegPage * 16 + params.srcOffset) ∧
      params.dstRegion = .conventional (params.dstSegPage * 16 + params.dstOffset) :=
  ⟨if_pos h.srcType, if_pos h.dstType⟩

omit [CellMemory σ] in
lemma emsTransferMemory_cases (h : Owned setup m) (params : EmsMoveParams) (exchange : Bool)
    (mem : σ) : TransferCase m params exchange mem (m.emsTransferMemory params exchange mem) := by
  unfold emsTransferMemory
  dsimp only
  by_cases hlen : params.regionLength = 0
  · rw [if_pos hlen]
    exact .nothing hlen
  rw [if_neg hlen]
  by_cases hlong : params.regionLength > 0x100000
  · rw [if_pos hlong]
    exact .refused (by decide) (by decide) fun hc => absurd hc.length (by omega)
  rw [if_neg hlong]
  have hsrc := resolveEmsTransferRegion_resolves h params.srcType params.srcHandle params.srcOffset
    params.srcSegPage params.regionLength
  have hdst := resolveEmsTransferRegion_resolves h params.dstType params.dstHandle params.dstOffset
    params.dstSegPage params.regionLength
  -- a request that is refused is not a conventional one that passes the checks
  have hsrcOk : params.Conventional → m.resolveEmsTransferRegion params.srcType params.srcHandle
      params.srcOffset params.srcSegPage params.regionLength = .ok params.srcRegion := fun hc => by
    rw [hc.regions.1, hc.srcType]
    exact resolveEmsTransferRegion_conventional hc.srcEnd
  have hdstOk : params.Conventional → m.resolveEmsTransferRegion params.dstType params.dstHandle
      params.dstOffset params.dstSegPage params.regionLength = .ok params.dstRegion := fun hc => by
    rw [hc.regions.2, hc.dstType]
    exact resolveEmsTransferRegion_conventional hc.dstEnd
  cases hs : m.resolveEmsTransferRegion params.srcType params.srcHandle params.srcOffset
    params.srcSegPage params.regionLength with
  | error code =>
    rw [hs] at hsrc
    exact .refused hsrc.1 hsrc.2 fun hc => by cases hs.symm.trans (hsrcOk hc)
  | ok srcRegion =>
  rw [hs] at hsrc
  obtain ⟨hsrc, hnamed⟩ := hsrc
  change srcRegion = params.srcRegion at hnamed
  subst hnamed
  cases hd : m.resolveEmsTransferRegion params.dstType params.dstHandle params.dstOffset
    params.dstSegPage params.regionLength with
  | error code =>
    rw [hd] at hdst
    exact .refused hdst.1 hdst.2 fun hc => by cases hd.symm.trans (hdstOk hc)
  | ok dstRegion =>
  rw [hd] at hdst
  obtain ⟨hdst, hnamed⟩ := hdst
  change dstRegion = params.dstRegion at hnamed
  subst hnamed
  dsimp only
  by_cases hframe : m.emsRegionsOverlapPageFrame params.srcRegion params.dstRegion
    params.regionLength = true
  · rw [if_pos hframe]
    refine .refused (by decide) (by decide) fun hc => ?_
    rw [hc.regions.1, hc.regions.2, emsRegionsOverlapPageFrame] at hframe
    cases hwindow : m.emsWindow with
    | none => simp [hwindow] at hframe
    | some window => simp [hwindow] at hframe
  rw [if_neg hframe]
  have hframe' := Bool.eq_false_iff.mpr hframe
  cases hoverlap : sameHandleOverlap params.srcRegion params.dstRegion params.regionLength with
  | false =>
    rw [Bool.false_and, if_neg Bool.false_ne_true]
    exact .copied (Or.inl (if_neg Bool.false_ne_true))
      (fun _ => ⟨if_neg Bool.false_ne_true, hoverlap⟩) (by omega) hsrc hdst hframe'
  | true =>
    cases exchange with
    | false =>
      rw [Bool.and_false, if_neg Bool.false_ne_true]
      exact .copied (Or.inr (if_pos rfl)) (by rintro ⟨⟩) (by omega) hsrc hdst
        hframe'
    | true =>
      rw [Bool.and_true, if_pos rfl]
      refine .refused (by decide) (by decide) fun hc => ?_
      rw [hc.regions.1, hc.regions.2] at hoverlap
      cases hoverlap

omit [CellMemory σ] in
lemma EmsMoveParams.conventional_of_regions
    (hsrc : Resolved m params.regionLength params.srcRegion)
    (hdst : Resolved m params.regionLength params.dstRegion)
    (hkind : BothConventional params.srcRegion params.dstRegion) : params.Conventional := by
  obtain ⟨a, b, ha, hb⟩ := hkind
  have hsrcType : params.srcType = 0 := by
    by_contra hc
    rw [EmsMoveParams.srcRegion, requestedRegion, if_neg hc] at ha
    cases ha
  have hdstType : params.dstType = 0 := by
    by_contra hc
    rw [EmsMoveParams.dstRegion, requestedRegion, if_neg hc] at hb
    cases hb
  rw [EmsMoveParams.srcRegion, requestedRegion, if_pos hsrcType] at hsrc
  rw [EmsMoveParams.dstRegion, requestedRegion, if_pos hdstType] at hdst
  have hsrcEnd : params.srcSegPage * 16 + params.srcOffset + params.regionLength ≤ 0x100000 := hsrc
  exact ⟨hsrcType, hdstType, by omega, hsrcEnd, hdst⟩

section Keeps

variable [DirectCells σ extendedRamBase setup.extendedMemorySize]
variable (hsize : extendedRamBase + setup.extendedMemorySize ≤ 2 ^ 32) (h : Owned setup m)
  (hout : Outside setup mem)
  (hwindow : ∀ window, m.emsWindow = some window → window.pageFrameSegment = 0xC000)
include hsize h hout hwindow

/-- A move is right unless two bytes of a conventional region are one, and were to differ. -/
lemma moveKeeps_iff : MoveKeeps m mem params ↔ (params.Conventional →
    Agrees mem (params.dstSegPage * 16 + params.dstOffset)
      (params.srcSegPage * 16 + params.srcOffset) params.regionLength) := by
  unfold MoveKeeps emsMoveMemory
  have hcases := emsTransferMemory_cases h params false mem
  generalize m.emsTransferMemory params false mem = run at hcases ⊢
  cases hcases with
  | nothing hlen =>
    refine ⟨fun _ _ j hj => absurd hj (by omega), fun _ => ⟨_, mem, rfl, fun _ => ?_, fun hc =>
      absurd rfl hc⟩⟩
    exact ⟨rfl, fun k hk => absurd hk (by omega), fun _ _ => rfl⟩
  | refused hzero hoverlap hkind =>
    refine ⟨fun _ hc => absurd hc hkind, fun _ => ⟨_, mem, rfl, fun hc => ?_, fun _ _ => rfl⟩⟩
    exact absurd hc (by omega)
  | @copied status hstatus hexchange hpos hsrc hdst hframe =>
    obtain ⟨mem', hmem', hwritten⟩ := transferRegions_move hsize h hsrc hdst mem
    have hmoved : Moved m mem params.srcRegion params.dstRegion params.regionLength mem' ↔
        ∀ k < params.regionLength, cell mem' (location mem (m.regionAddress params.dstRegion k)) =
          byteAt mem (m.regionAddress params.srcRegion k) := by
      refine ⟨fun hm k hk => ?_, fun hall => ⟨hwritten.location, fun k hk => ?_, fun x hx => ?_⟩⟩
      · rw [← hm.destination k hk, byteAt, hm.location]
      · rw [byteAt, hwritten.location]
        exact hall k hk
      · exact hwritten.outside hx
    have hkeeps : (∃ status' mem'', ((m.transferRegions params.srcRegion params.dstRegion
        params.regionLength false mem).bind fun mem' => some (status, mem')) =
          some (status', mem'') ∧ (status' = 0x00 ∨ status' = 0x92 →
          Moved m mem params.srcRegion params.dstRegion params.regionLength mem'') ∧
        (status' ≠ 0x00 → status' ≠ 0x92 → mem'' = mem)) ↔
        Moved m mem params.srcRegion params.dstRegion params.regionLength mem' := by
      rw [hmem', Option.bind_some]
      refine ⟨?_, fun hm => ⟨status, mem', rfl, fun _ => hm, fun h0 h1 => ?_⟩⟩
      · rintro ⟨status', mem'', hrun, hm, -⟩
        cases hrun
        exact hm hstatus
      · rcases hstatus with hc | hc
        · exact absurd hc h0
        · exact absurd hc h1
    rw [hkeeps, hmoved, hwritten.inside_iff]
    by_cases hkind : BothConventional params.srcRegion params.dstRegion
    · have hc := EmsMoveParams.conventional_of_regions hsrc hdst hkind
      rw [hc.regions.1, hc.regions.2]
      exact ⟨fun hall _ => hall, fun hall => hall hc⟩
    · obtain ⟨-, hclear⟩ := clearOfFrame h hwindow hsrc hdst hpos hkind hframe
      refine ⟨fun _ hc => absurd ⟨_, _, hc.regions⟩ hkind, fun _ j hj k hk hsame => ?_⟩
      rw [region_injective hsize h hout hdst hclear hj hk hsame]

/-- An exchange is right unless two bytes of conventional regions are one, and were to differ. -/
lemma exchangeKeeps_iff : ExchangeKeeps m mem params ↔ (params.Conventional →
    ExchangeAgrees mem (params.srcSegPage * 16 + params.srcOffset)
      (params.dstSegPage * 16 + params.dstOffset) params.regionLength) := by
  unfold ExchangeKeeps emsExchangeMemory
  have hcases := emsTransferMemory_cases h params true mem
  generalize m.emsTransferMemory params true mem = run at hcases ⊢
  cases hcases with
  | nothing hlen =>
    refine ⟨fun _ _ => ⟨fun j hj => absurd hj (by omega), fun j hj => absurd hj (by omega),
      fun j hj => absurd hj (by omega)⟩,
      fun _ => ⟨_, mem, rfl, fun _ => ?_, fun hc => absurd rfl hc⟩⟩
    exact ⟨rfl, fun k hk => absurd hk (by omega), fun k hk => absurd hk (by omega),
      fun _ _ _ => rfl⟩
  | refused hzero hoverlap hkind =>
    exact ⟨fun _ hc => absurd hc hkind,
      fun _ => ⟨_, mem, rfl, fun hc => absurd hc hzero, fun _ => rfl⟩⟩
  | @copied status hstatus hexchange hpos hsrc hdst hframe =>
    obtain ⟨rfl, hoverlap⟩ := hexchange rfl
    obtain ⟨mem₁, mem', hmem', hfirst, hsecond⟩ := transferRegions_exchange hsize h hsrc hdst mem
    have hlocation := hsecond.location.trans hfirst.location
    have hexchanged :
        Exchanged m mem params.srcRegion params.dstRegion params.regionLength mem' ↔
        (∀ k < params.regionLength, cell mem' (location mem (m.regionAddress params.srcRegion k)) =
          byteAt mem (m.regionAddress params.dstRegion k)) ∧
        ∀ k < params.regionLength, cell mem' (location mem (m.regionAddress params.dstRegion k)) =
          byteAt mem (m.regionAddress params.srcRegion k) := by
      refine ⟨fun hx => ⟨fun k hk => ?_, fun k hk => ?_⟩, fun ⟨hsource, hdestination⟩ =>
        ⟨hlocation, fun k hk => ?_, fun k hk => ?_, fun x hx hx' => ?_⟩⟩
      · rw [← hx.source k hk, byteAt, hx.location]
      · rw [← hx.destination k hk, byteAt, hx.location]
      · rw [byteAt, hlocation]
        exact hsource k hk
      · rw [byteAt, hlocation]
        exact hdestination k hk
      · exact (hsecond.outside hx').trans (hfirst.outside hx)
    have hkeeps : (∃ status' mem'', ((m.transferRegions params.srcRegion params.dstRegion
        params.regionLength true mem).bind fun mem' => some (0x00, mem')) =
          some (status', mem'') ∧ (status' = 0x00 →
          Exchanged m mem params.srcRegion params.dstRegion params.regionLength mem'') ∧
        (status' ≠ 0x00 → mem'' = mem)) ↔
        Exchanged m mem params.srcRegion params.dstRegion params.regionLength mem' := by
      rw [hmem', Option.bind_some]
      refine ⟨?_, fun hx => ⟨0x00, mem', rfl, fun _ => hx, fun hc => absurd rfl hc⟩⟩
      rintro ⟨status', mem'', hrun, hx, -⟩
      cases hrun
      exact hx rfl
    rw [hkeeps, hexchanged]
    refine (Written.exchange_iff hfirst hsecond).trans ?_
    by_cases hkind : BothConventional params.srcRegion params.dstRegion
    · have hc := EmsMoveParams.conventional_of_regions hsrc hdst hkind
      rw [hc.regions.1, hc.regions.2]
      exact ⟨fun hall _ => hall, fun hall => hall hc⟩
    · obtain ⟨hclear, hclear'⟩ := clearOfFrame h hwindow hsrc hdst hpos hkind hframe
      refine ⟨fun _ hc => absurd ⟨_, _, hc.regions⟩ hkind, fun _ =>
        ⟨fun j hj k hk hsame => ?_, fun j hj k hk hsame => ?_, fun j hj k hk hsame => ?_⟩⟩
      · rw [region_injective hsize h hout hdst hclear' hj hk hsame]
      · rw [region_injective hsize h hout hsrc hclear hj hk hsame]
      · exact absurd hsame
          (regions_apart hsize h hout hsrc hdst hclear hclear' hkind hoverlap hj hk)

end Keeps

end Transfer

/-! ### Runs -/

lemma Outside.congr {setup : Setup} {mem mem' : σ} (h : Outside setup mem)
    (hsame : SameOutside mem mem') : Outside setup mem' := by
  intro a ha hframe
  rw [hsame a hframe]
  exact h a ha hframe

/-- **Moves and exchanges of memory.** In every state that a new manager reaches, and for whatever
memory holds, a move and an exchange do what their status says, and nothing else, just when no
byte that conventional regions show twice was to take two different values. -/
theorem ems_transfers_keep_iff (extendedMemorySize : ℕ)
    [DirectCells σ extendedRamBase extendedMemorySize] [FrameCells σ]
    (hsize : extendedRamBase + extendedMemorySize ≤ 2 ^ 32) (emsWindow : Option EmsWindow)
    (hwindow : ∀ window, emsWindow = some window → window.pageFrameSegment = 0xC000)
    (xmsEnabled : Bool) (umbWindow : Option UmbWindow) (mem : σ)
    (hmem : ∀ a < extendedRamBase, ¬ InFrame a → location mem a = a) :
    ∃ m₀ mem₀, new extendedMemorySize emsWindow xmsEnabled umbWindow mem = some (m₀, mem₀) ∧
      ∀ calls, (∀ call ∈ calls, Issued xmsEnabled call) →
        ∃ m mem₁, run m₀ mem₀ calls = some (m, mem₁) ∧
          ∀ mem' : σ, location mem' = location mem₁ → ∀ params : EmsMoveParams,
            (MoveKeeps m mem' params ↔ (params.Conventional →
              Agrees mem' (params.dstSegPage * 16 + params.dstOffset)
                (params.srcSegPage * 16 + params.srcOffset) params.regionLength)) ∧
            (ExchangeKeeps m mem' params ↔ (params.Conventional →
              ExchangeAgrees mem' (params.srcSegPage * 16 + params.srcOffset)
                (params.dstSegPage * 16 + params.dstOffset) params.regionLength)) := by
  have hlt : extendedMemorySize < 2 ^ 32 := by
    simp only [extendedRamBase] at hsize
    omega
  obtain ⟨m₀, mem₀, hnew, ht₀⟩ := new_tidy hlt emsWindow xmsEnabled umbWindow mem
  obtain ⟨m₀', mem₀', base, reserved, hnew', h₀, hprepared⟩ :=
    new_owned hlt emsWindow xmsEnabled umbWindow mem
  obtain ⟨rfl, rfl⟩ := Prod.mk.inj (Option.some.inj (hnew.symm.trans hnew'))
  refine ⟨m₀, mem₀, hnew, fun calls hcalls => ?_⟩
  obtain ⟨m, mem₁, hrun, h⟩ := run_owned ht₀ h₀ mem₀ calls hcalls
  have hout₁ := (outside_new hsize h₀ hprepared hmem).congr
    (run_sameOutside ht₀ h₀ mem₀ calls hcalls hrun)
  refine ⟨m, mem₁, hrun, fun mem' hlocation params => ?_⟩
  have hout := hout₁.congr (fun a _ => congrFun hlocation a)
  have hframe : ∀ window, m.emsWindow = some window → window.pageFrameSegment = 0xC000 :=
    fun window hw => hwindow window (h.window.symm.trans hw)
  exact ⟨moveKeeps_iff hsize h hout hframe, exchangeKeeps_iff hsize h hout hframe⟩

/-- A run that maps a page into two slots of the frame. -/
theorem ems_transfers_keep_iff_small : ∃ m₀ mem₀,
    new 0x40000 (some ⟨0xC000⟩) true none Machine.new = some (m₀, mem₀) ∧
      ∃ m mem₁, run m₀ mem₀ [.emsAllocatePages 2, .emsMapPage 1 0 0, .emsMapPage 1 0 1] =
        some (m, mem₁) ∧
      ∀ mem' : Machine, location mem' = location mem₁ → ∀ params : EmsMoveParams,
        (MoveKeeps m mem' params ↔ (params.Conventional →
          Agrees mem' (params.dstSegPage * 16 + params.dstOffset)
            (params.srcSegPage * 16 + params.srcOffset) params.regionLength)) ∧
        (ExchangeKeeps m mem' params ↔ (params.Conventional →
          ExchangeAgrees mem' (params.srcSegPage * 16 + params.srcOffset)
            (params.dstSegPage * 16 + params.dstOffset) params.regionLength)) := by
  obtain ⟨m₀, mem₀, hnew, hruns⟩ := ems_transfers_keep_iff 0x40000 (by decide) (some ⟨0xC000⟩)
    (fun window hw => by cases hw; rfl) true none Machine.new fun a _ _ =>
      Machine.translate_new a
  refine ⟨m₀, mem₀, hnew, hruns _ ?_⟩
  simp [Issued]

/-- Two bytes at `1000` and the two at `1001`. -/
def overlappingExchange : EmsMoveParams := ⟨2, 0, 0, 0, 0x100, 0, 0, 1, 0x100⟩

/-- The exchange reports success, but the source keeps a byte of its own. -/
theorem ems_exchange_overlapping_conventional : ∃ m₀ mem₀,
    new 0x40000 (some ⟨0xC000⟩) true none Machine.new = some (m₀, mem₀) ∧
      ∃ m mem, run m₀ mem₀ [.store 0x1000 [1, 2, 3]] = some (m, mem) ∧
        (∃ mem', m.emsExchangeMemory overlappingExchange mem = some (0x00, mem') ∧
          readBlock mem' 0x1000 3 = [2, 1, 2]) ∧
        ¬ ExchangeKeeps m mem overlappingExchange := by
  refine ⟨_, _, rfl, _, _, rfl, ⟨_, rfl, by decide⟩, ?_⟩
  rintro ⟨status, mem', hrun, hkeeps, -⟩
  cases hrun
  exact absurd ((hkeeps rfl).source 1 (by decide)) (by decide)

end Neetan.Ems
