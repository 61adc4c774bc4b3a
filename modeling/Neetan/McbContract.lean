import Neetan.McbAllocate

/-!
What an allocation answers, against the free runs of the chain.

The answer is right for the runs that the walk gets to see. Two things keep it from being
right for the chain: a stale block type at the end, and runs behind the length limit.
-/

namespace Neetan.Mcb

open Neetan.ByteMemory Neetan.MachineInt

/-- The maximal runs of adjacent free blocks: segment and merged size. -/
def freeRuns (s : ℕ) (bs : List Header) : List (ℕ × ℕ) := freeBlocks s (merged bs)

/-- A block at a data segment lies in a run. -/
def LiesIn (data paragraphs : ℕ) (run : ℕ × ℕ) : Prop :=
  run.1 + 1 ≤ data ∧ data + paragraphs ≤ run.1 + 1 + run.2

/-- First fit prefers the lowest run, best fit the smallest, last fit the highest. -/
def Prefers (strategy : ℕ) (run other : ℕ × ℕ) : Prop :=
  match strategy with
  | 0 => run.1 ≤ other.1
  | 1 => run.2 ≤ other.2
  | _ => other.1 ≤ run.1

/-- The run to use among those that fit. -/
def Chosen (paragraphs strategy : ℕ) (runs : List (ℕ × ℕ)) (run : ℕ × ℕ) : Prop :=
  run ∈ runs ∧ paragraphs ≤ run.2 ∧
    ∀ other ∈ runs, paragraphs ≤ other.2 → Prefers strategy run other

/-- A block in the run to use, or error 8 with the largest size when no run fits. -/
def MeetsContract (paragraphs strategy : ℕ) (runs : List (ℕ × ℕ)) : AllocateResult → Prop
  | .ok data => ∃ run, Chosen paragraphs strategy runs run ∧ LiesIn data paragraphs run
  | .error e => (∀ run ∈ runs, run.2 < paragraphs) ∧ e = (errInsufficientMemory, largestOf runs)

/-- A run behind the length limit that does not change the answer. -/
def Harmless (paragraphs strategy : ℕ) (seen : List (ℕ × ℕ)) (hidden : ℕ × ℕ) : Prop :=
  if paragraphs ≤ hidden.2 then
    strategy = 1 ∧ ∃ run ∈ seen, paragraphs ≤ run.2 ∧ run.2 ≤ hidden.2
  else hidden.2 ≤ largestOf seen

/-- The walk does what it is for: first fit meets a run that fits, or the walk does not leave
the chain and the runs it does not see do not matter. -/
def WalkSuffices (paragraphs strategy s : ℕ) (bs : List Header) : Prop :=
  let seen := freeBlocks s ((merged bs).take maxChainWalk)
  (strategy = 0 ∧ ∃ run ∈ seen, paragraphs ≤ run.2) ∨
    (¬ (endsInFreePair bs ∧ (merged bs).length < maxChainWalk) ∧
      ∀ run ∈ freeRuns s bs, run ∉ seen → Harmless paragraphs strategy seen run)

variable {mem mem' : Memory} {s paragraphs owner strategy : ℕ} {bs : List Header}

/-! ### The scan -/

/-- The candidate is the run to use among those passed. -/
def ChosenFrom (paragraphs strategy : ℕ) (runs : List (ℕ × ℕ)) : Option (ℕ × ℕ) → Prop
  | some run => Chosen paragraphs strategy runs run
  | none => ∀ run ∈ runs, run.2 < paragraphs

variable {r : ℕ × ℕ} {seen : List (ℕ × ℕ)}

lemma Chosen.snoc_keep {ps : List (ℕ × ℕ)} {c : ℕ × ℕ} (hmem : c ∈ ps) (hfit : paragraphs ≤ c.2)
    (hpref : ∀ q ∈ ps, paragraphs ≤ q.2 → Prefers strategy c q) (hcr : Prefers strategy c r) :
    Chosen paragraphs strategy (ps ++ [r]) c := by
  refine ⟨List.mem_append_left _ hmem, hfit, fun q hq hqfit => ?_⟩
  rcases List.mem_append.mp hq with hq | hq
  · exact hpref q hq hqfit
  · rwa [List.mem_singleton.mp hq]

lemma Chosen.snoc_take {ps : List (ℕ × ℕ)} (hfit : paragraphs ≤ r.2)
    (hpref : ∀ q ∈ ps, paragraphs ≤ q.2 → Prefers strategy r q) :
    Chosen paragraphs strategy (ps ++ [r]) r := by
  refine ⟨List.mem_append_right _ List.mem_cons_self, hfit, fun q hq hqfit => ?_⟩
  rcases List.mem_append.mp hq with hq | hq
  · exact hpref q hq hqfit
  · rw [List.mem_singleton.mp hq]
    unfold Prefers
    split <;> exact le_rfl

lemma scan_chosen {ps rs : List (ℕ × ℕ)} {candidate : Option (ℕ × ℕ)} (hst : strategy ≤ 2)
    (hsorted : (ps ++ rs).Pairwise fun p q => p.1 < q.1)
    (hc : ChosenFrom paragraphs strategy ps candidate) :
    ChosenFrom paragraphs strategy (ps ++ rs) (scan paragraphs strategy rs candidate) := by
  induction rs generalizing ps candidate with
  | nil => rwa [List.append_nil]
  | cons r rs ih =>
    rw [List.append_cons] at hsorted ⊢
    refine ih hsorted ?_
    have hlt : ∀ p ∈ ps, p.1 < r.1 := by
      have h := (List.pairwise_append.mp (List.pairwise_append.mp hsorted).1).2.2
      exact fun p hp => h p hp r List.mem_cons_self
    by_cases hfit : paragraphs ≤ r.2
    · cases candidate with
      | none =>
        have huse : useThis strategy none r.2 = true := by
          unfold useThis
          split <;> rfl
        rw [if_pos ⟨hfit, huse⟩]
        exact Chosen.snoc_take hfit fun q hq hqfit => absurd (hc q hq) (by omega)
      | some c =>
        obtain ⟨hmem, hcfit, hpref⟩ := hc
        have hcr := hlt c hmem
        obtain rfl | rfl | rfl : strategy = 0 ∨ strategy = 1 ∨ strategy = 2 := by omega
        · rw [if_neg fun h => Bool.false_ne_true h.2]
          exact Chosen.snoc_keep hmem hcfit hpref hcr.le
        · by_cases hsmall : r.2 < c.2
          · rw [if_pos ⟨hfit, decide_eq_true hsmall⟩]
            exact Chosen.snoc_take hfit fun q hq hqfit => hsmall.le.trans (hpref q hq hqfit)
          · rw [if_neg fun h => hsmall (of_decide_eq_true h.2)]
            exact Chosen.snoc_keep hmem hcfit hpref (Nat.le_of_not_lt hsmall)
        · rw [if_pos ⟨hfit, rfl⟩]
          exact Chosen.snoc_take hfit fun q hq _ => (hlt q hq).le
    · rw [if_neg fun h => hfit h.1]
      cases candidate with
      | none =>
        intro q hq
        rcases List.mem_append.mp hq with hq | hq
        · exact hc q hq
        · obtain rfl := List.mem_singleton.mp hq
          omega
      | some c =>
        refine ⟨List.mem_append_left _ hc.1, hc.2.1, fun q hq hqfit => ?_⟩
        rcases List.mem_append.mp hq with hq | hq
        · exact hc.2.2 q hq hqfit
        · exact absurd (List.mem_singleton.mp hq ▸ hqfit) hfit

lemma freeBlocks_sorted (s : ℕ) (bs : List Header) :
    (freeBlocks s bs).Pairwise fun p q => p.1 < q.1 := by
  induction bs generalizing s with
  | nil => exact List.Pairwise.nil
  | cons b bs ih =>
    by_cases hb : b.owner = ownerFree
    · rw [freeBlocks_free hb, List.pairwise_cons]
      refine ⟨fun q hq => ?_, ih _⟩
      obtain ⟨x, hx, -, rfl⟩ := mem_freeBlocks.mp hq
      have := (located_range hx).1
      dsimp only
      omega
    · rw [freeBlocks_owned hb]
      exact ih _

lemma freeBlocks_range (h : r ∈ freeBlocks s bs) :
    s ≤ r.1 ∧ r.1 + r.2 + 1 ≤ s + extent bs := by
  obtain ⟨x, hx, -, rfl⟩ := mem_freeBlocks.mp h
  exact located_range hx

lemma LiesIn.unique {data : ℕ} {q : ℕ × ℕ} (hr : r ∈ freeBlocks s bs) (hq : q ∈ freeBlocks s bs)
    (h : LiesIn data paragraphs r) (h' : LiesIn data paragraphs q) : r = q := by
  obtain ⟨x, hx, -, rfl⟩ := mem_freeBlocks.mp hr
  obtain ⟨y, hy, -, rfl⟩ := mem_freeBlocks.mp hq
  unfold LiesIn at h h'
  rcases located_disjoint hx hy with rfl | hlt | hlt
  · rfl
  · omega
  · omega

lemma le_largestOf {rs : List (ℕ × ℕ)} (h : r ∈ rs) : r.2 ≤ largestOf rs := by
  induction rs with
  | nil => cases h
  | cons q rs ih =>
    rcases List.mem_cons.mp h with rfl | h
    · exact Nat.le_max_left _ _
    · exact (ih h).trans (Nat.le_max_right _ _)

lemma largestOf_le {rs : List (ℕ × ℕ)} {n : ℕ} (h : ∀ r ∈ rs, r.2 ≤ n) : largestOf rs ≤ n := by
  induction rs with
  | nil => exact Nat.zero_le n
  | cons q rs ih =>
    exact Nat.max_le.mpr ⟨h q List.mem_cons_self, ih fun r hr => h r (List.mem_cons_of_mem _ hr)⟩

/-! ### The answer -/

lemma commitAllocation_liesIn (hfit : paragraphs ≤ r.2) (hlt : r.1 + r.2 + 1 < 2 ^ 16)
    (fromHigh : Bool) :
    LiesIn (commitAllocation mem r.1 r.2 paragraphs owner fromHigh).1 paragraphs r := by
  have hnext : wrappingAdd 16 paragraphs 1 = paragraphs + 1 := wrappingAdd_of_lt (by omega)
  have hdata : wrappingAdd 16 r.1 1 = r.1 + 1 := wrappingAdd_of_lt (by omega)
  unfold commitAllocation LiesIn
  rw [hnext]
  split_ifs with hhigh hsplit
  · have hremaining := remainderSize_eq hhigh.2.le (show r.2 < 2 ^ 16 by omega)
    dsimp only
    rw [hremaining, nextSegment_of_lt (by omega), wrappingAdd_of_lt (by omega)]
    omega
  · dsimp only
    rw [hdata]
    omega
  · dsimp only
    rw [hdata]
    omega

lemma finishAllocate_meets (mem : Memory) (owner : ℕ) {last : Option (ℕ × ℕ)}
    (h : ChosenFrom paragraphs strategy seen last) (hlt : ∀ r ∈ seen, r.1 + r.2 + 1 < 2 ^ 16) :
    MeetsContract paragraphs strategy seen
      (finishAllocate mem paragraphs owner strategy (largestOf seen) last).1 := by
  cases last with
  | none => exact ⟨h, rfl⟩
  | some r => exact ⟨r, h, commitAllocation_liesIn h.2.1 (hlt r h.1) _⟩

/-- The answer is right for the runs the walk sees, unless it leaves the chain; then it is
error 7, or what the bytes behind the chain make of it. -/
lemma allocate_answer (paragraphs owner : ℕ) (hch : Chain mem s bs) (hs : Sealed bs)
    (hlt : s + extent bs < 2 ^ 16) (hst : strategy ≤ 2)
    (hseen : freeBlocks s ((merged bs).take maxChainWalk) = seen) :
    ((strategy = 0 ∧ ∃ r ∈ seen, paragraphs ≤ r.2) ∨
        ¬ (endsInFreePair bs ∧ (merged bs).length < maxChainWalk) →
      ∃ result mem', allocate mem s paragraphs owner strategy = some (result, mem') ∧
        MeetsContract paragraphs strategy seen result) ∧
    (¬ (strategy = 0 ∧ ∃ r ∈ seen, paragraphs ≤ r.2) →
      endsInFreePair bs ∧ (merged bs).length < maxChainWalk →
      isValidMcbType (readMcbType mem (s + extent bs)) = false →
      ∃ mem', allocate mem s paragraphs owner strategy =
        some (.error (errMcbDestroyed, largestOf seen), mem')) := by
  obtain ⟨mem', ds, last, hscan, -, -, hco, -, hwalk⟩ :=
    allocateWithLimit_spec paragraphs owner strategy (by rwa [List.append_nil])
      (by rwa [List.append_nil]) (by rwa [List.append_nil]) hs.ne_nil (Or.inl ⟨rfl, rfl⟩) hseen
  have hlast : ChosenFrom paragraphs strategy seen last := by
    rw [← hscan]
    have hnil : ChosenFrom paragraphs strategy [] none := fun r hr => absurd hr (List.not_mem_nil)
    exact scan_chosen hst (hseen ▸ freeBlocks_sorted _ _) hnil
  have hbound : ∀ r ∈ seen, r.1 + r.2 + 1 < 2 ^ 16 := fun r hr => by
    have hr' := (freeBlocks_range (hseen ▸ hr)).2
    have htake : extent ((merged bs).take maxChainWalk) ≤ extent bs := by
      conv_rhs => rw [← extent_merged, ← List.take_append_drop maxChainWalk (merged bs),
        extent_append]
      exact Nat.le_add_right _ _
    omega
  have hgo : ¬ (strategy = 0 ∧ ∃ r ∈ seen, paragraphs ≤ r.2) → ∀ k,
      takeFirst paragraphs owner strategy mem' last k = k := fun hfirst k => by
    cases last with
    | none => rfl
    | some r => exact if_neg fun h0 => hfirst ⟨h0, r, hlast.1, hlast.2.1⟩
  rw [allocate, hwalk]
  refine ⟨fun h => ?_, fun h hover hbehind => ?_⟩
  · by_cases hfirst : strategy = 0 ∧ ∃ r ∈ seen, paragraphs ≤ r.2
    · obtain ⟨rfl, r, hr, hfit⟩ := hfirst
      cases last with
      | none => exact absurd (hlast r hr) (by omega)
      | some q =>
        refine ⟨_, _, rfl, q, hlast, le_rfl, ?_⟩
        have := hlast.2.1
        omega
    · have hmeets := finishAllocate_meets mem' owner hlast hbound
      rw [hgo hfirst, if_neg fun hn => (h.resolve_left hfirst) hn.2]
      exact ⟨_, _, rfl, hmeets⟩
  · have htop : header mem' (s + extent bs) = header mem (s + extent bs) :=
      header_of_changesOnly hco fun hp => Nat.lt_irrefl _ (freeRange_range hp).2
    obtain ⟨n, hn⟩ := Nat.exists_eq_succ_of_ne_zero (Nat.sub_ne_zero_of_lt hover.2)
    refine ⟨mem', ?_⟩
    rw [hgo h, if_pos ⟨rfl, hover⟩, hn, allocateWalk]
    rw [readMcbType_eq, htop, ← readMcbType_eq, hbehind]
    rfl

/-! ### The chain's runs -/

/-- The answer for the runs seen is the answer for all runs exactly when the hidden ones are
harmless. -/
lemma meets_append_iff {hidden : List (ℕ × ℕ)} {result : AllocateResult} (hst : strategy ≤ 2)
    (hall : seen ++ hidden = freeRuns s bs) (hseen : MeetsContract paragraphs strategy seen result)
    (hfirst : ¬ (strategy = 0 ∧ ∃ r ∈ seen, paragraphs ≤ r.2)) :
    MeetsContract paragraphs strategy (freeRuns s bs) result ↔
      ∀ h ∈ hidden, Harmless paragraphs strategy seen h := by
  have hsorted : (seen ++ hidden).Pairwise fun p q => p.1 < q.1 := hall ▸ freeBlocks_sorted _ _
  have hlater : ∀ r ∈ seen, ∀ h ∈ hidden, r.1 < h.1 := (List.pairwise_append.mp hsorted).2.2
  have hleft : ∀ r ∈ seen, r ∈ freeRuns s bs := fun r h => hall ▸ List.mem_append_left _ h
  have hright : ∀ r ∈ hidden, r ∈ freeRuns s bs := fun r h => hall ▸ List.mem_append_right _ h
  have hmem : ∀ r ∈ freeRuns s bs, r ∈ seen ∨ r ∈ hidden := fun r h =>
    List.mem_append.mp (hall ▸ h)
  cases result with
  | ok data =>
    obtain ⟨run, ⟨hrun, hfit, hpref⟩, hlies⟩ := hseen
    have hchosen : MeetsContract paragraphs strategy (freeRuns s bs) (.ok data) ↔
        ∀ h ∈ hidden, paragraphs ≤ h.2 → Prefers strategy run h := by
      constructor
      · rintro ⟨other, ⟨hother, -, hbest⟩, hlies'⟩
        obtain rfl := hlies.unique (hleft run hrun) hother hlies'
        exact fun h hh => hbest h (hright h hh)
      · refine fun h => ⟨run, ⟨hleft run hrun, hfit, fun q hq hqfit => ?_⟩, hlies⟩
        rcases hmem q hq with hq | hq
        · exact hpref q hq hqfit
        · exact h q hq hqfit
    rw [hchosen]
    refine forall₂_congr fun h hh => ?_
    unfold Harmless
    split_ifs with hh'
    · simp only [hh', forall_const]
      obtain rfl | rfl : strategy = 1 ∨ strategy = 2 := by
        have : strategy ≠ 0 := fun h0 => hfirst ⟨h0, run, hrun, hfit⟩
        omega
      · refine ⟨fun hle => ⟨rfl, run, hrun, hfit, hle⟩, ?_⟩
        rintro ⟨-, r, hr, hrfit, hle⟩
        exact (hpref r hr hrfit).trans hle
      · refine ⟨fun hle => ?_, fun hfalse => absurd hfalse.1 (by decide)⟩
        exact absurd (hlater run hrun h hh) (Nat.not_lt.mpr hle)
    · refine iff_of_true (fun hc => absurd hc hh') ?_
      have := le_largestOf hrun
      omega
  | error e =>
    obtain ⟨hnone, rfl⟩ := hseen
    have hlarge : largestOf (freeRuns s bs) = max (largestOf seen) (largestOf hidden) := by
      rw [← hall, largestOf_append]
    constructor
    · rintro ⟨hall', heq⟩ h hh
      rw [Prod.mk.injEq, hlarge] at heq
      have := hall' h (hright h hh)
      have := le_largestOf hh
      unfold Harmless
      rw [if_neg (by omega)]
      omega
    · intro hharm
      have hsmall : ∀ h ∈ hidden, h.2 < paragraphs ∧ h.2 ≤ largestOf seen := fun h hh => by
        have hh' := hharm h hh
        unfold Harmless at hh'
        split_ifs at hh' with hfit
        · obtain ⟨-, r, hr, hrfit, -⟩ := hh'
          exact absurd (hnone r hr) (Nat.not_lt.mpr hrfit)
        · exact ⟨Nat.lt_of_not_le hfit, hh'⟩
      refine ⟨fun q hq => (hmem q hq).elim (hnone q) fun hq => (hsmall q hq).1, ?_⟩
      rw [hlarge, max_eq_left (largestOf_le fun h hh => (hsmall h hh).2)]

lemma meets_append_first {hidden : List (ℕ × ℕ)} {result : AllocateResult}
    (hall : seen ++ hidden = freeRuns s bs) (hseen : MeetsContract paragraphs 0 seen result)
    (hfit : ∃ r ∈ seen, paragraphs ≤ r.2) :
    MeetsContract paragraphs 0 (freeRuns s bs) result := by
  have hsorted : (seen ++ hidden).Pairwise fun p q => p.1 < q.1 := hall ▸ freeBlocks_sorted _ _
  have hlater := (List.pairwise_append.mp hsorted).2.2
  cases result with
  | ok data =>
    obtain ⟨run, ⟨hrun, hfits, hpref⟩, hlies⟩ := hseen
    refine ⟨run, ⟨hall ▸ List.mem_append_left _ hrun, hfits, fun q hq hqfit => ?_⟩, hlies⟩
    rcases List.mem_append.mp (hall ▸ hq : q ∈ seen ++ hidden) with hq | hq
    · exact hpref q hq hqfit
    · exact (hlater run hrun q hq).le
  | error e =>
    obtain ⟨r, hr, hrfit⟩ := hfit
    exact absurd (hseen.1 r hr) (Nat.not_lt.mpr hrfit)

/-- **An allocation on a chain without a limit meets its contract when the walk suffices, and
only then if the byte behind the chain is not a block type.** -/
theorem allocate_meets_iff (hch : Chain mem s bs) (hs : Sealed bs) (htop : s + extent bs < 2 ^ 16)
    (hst : strategy ≤ 2) :
    (WalkSuffices paragraphs strategy s bs →
      ∃ result mem', allocate mem s paragraphs owner strategy = some (result, mem') ∧
        MeetsContract paragraphs strategy (freeRuns s bs) result) ∧
    (isValidMcbType (readMcbType mem (s + extent bs)) = false →
      (∃ result mem', allocate mem s paragraphs owner strategy = some (result, mem') ∧
        MeetsContract paragraphs strategy (freeRuns s bs) result) →
      WalkSuffices paragraphs strategy s bs) := by
  obtain ⟨seen, hseen⟩ : ∃ seen, freeBlocks s ((merged bs).take maxChainWalk) = seen := ⟨_, rfl⟩
  obtain ⟨hidden, hall⟩ : ∃ hidden, seen ++ hidden = freeRuns s bs := by
    rw [freeRuns, ← List.take_append_drop maxChainWalk (merged bs), freeBlocks_append, hseen]
    exact ⟨_, rfl⟩
  have hhidden : ∀ r, r ∈ hidden ↔ r ∈ freeRuns s bs ∧ r ∉ seen := fun r => by
    have hsorted : (seen ++ hidden).Pairwise fun p q => p.1 < q.1 := hall ▸ freeBlocks_sorted _ _
    have hlater := (List.pairwise_append.mp hsorted).2.2
    rw [← hall, List.mem_append]
    exact ⟨fun h => ⟨Or.inr h, fun h' => Nat.lt_irrefl _ (hlater r h' r h)⟩,
      fun h => h.1.resolve_left h.2⟩
  have hharm : (∀ h ∈ hidden, Harmless paragraphs strategy seen h) ↔
      ∀ h ∈ freeRuns s bs, h ∉ seen → Harmless paragraphs strategy seen h :=
    forall_congr' fun h => by rw [hhidden, and_imp]
  obtain ⟨hgood, hbad⟩ :=
    allocate_answer paragraphs owner hch hs htop hst hseen
  unfold WalkSuffices
  dsimp only
  rw [hseen, ← hharm]
  by_cases hfirst : strategy = 0 ∧ ∃ r ∈ seen, paragraphs ≤ r.2
  · refine ⟨fun _ => ?_, fun _ _ => Or.inl hfirst⟩
    obtain ⟨result, mem', hrun, hmeets⟩ := hgood (Or.inl hfirst)
    obtain ⟨rfl, hfit⟩ := hfirst
    exact ⟨result, mem', hrun, meets_append_first hall hmeets hfit⟩
  · constructor
    · intro h
      obtain ⟨hstays, hh⟩ := h.resolve_left hfirst
      obtain ⟨result, mem', hrun, hmeets⟩ := hgood (Or.inr hstays)
      exact ⟨result, mem', hrun, (meets_append_iff hst hall hmeets hfirst).mpr hh⟩
    · rintro hbehind ⟨result, mem', hrun, hmeets⟩
      have hstays : ¬ (endsInFreePair bs ∧ (merged bs).length < maxChainWalk) := fun hover => by
        obtain ⟨mem'', hrun'⟩ := hbad hfirst hover hbehind
        obtain ⟨rfl, -⟩ := Prod.mk.inj (Option.some.inj (hrun.symm.trans hrun'))
        have hcode : errMcbDestroyed = errInsufficientMemory := congrArg Prod.fst hmeets.2
        exact absurd hcode (by decide)
      obtain ⟨result', mem'', hrun', hmeets'⟩ := hgood (Or.inr hstays)
      obtain ⟨rfl, -⟩ := Prod.mk.inj (Option.some.inj (hrun.symm.trans hrun'))
      exact Or.inr ⟨hstays, (meets_append_iff hst hall hmeets' hfirst).mp hmeets⟩

/-- A free M block and a free Z block, each of one paragraph, with nothing behind them. -/
def freePairMemory : Memory :=
  writeMcb (writeMcb (fun _ => 0) 1 typeM ownerFree 1 (List.replicate 8 0)) 3 typeZ ownerFree 1
    (List.replicate 8 0)

def freePair : List Header := [⟨typeM, ownerFree, 1⟩, ⟨typeZ, ownerFree, 1⟩]

lemma freePair_chain : Chain freePairMemory 1 freePair ∧ Sealed freePair :=
  ⟨⟨by decide, by decide, trivial⟩, rfl, rfl⟩

theorem allocate_meets_iff_single : ∃ result mem',
    allocate freePairMemory 1 3 ownerDos 0 = some (result, mem') ∧
      MeetsContract 3 0 (freeRuns 1 freePair) result :=
  (allocate_meets_iff freePair_chain.1 freePair_chain.2 (by decide) (by decide)).1
    (Or.inl ⟨rfl, (1, 3), by decide, by decide⟩)

/-- A best fit for two paragraphs, which the merged run of three would hold, reports error 7. -/
theorem allocate_best_fit_fails : Chain freePairMemory 1 freePair ∧ Sealed freePair ∧
    1 + extent freePair < 2 ^ 16 ∧ ∃ mem',
      allocate freePairMemory 1 2 ownerDos 1 = some (.error (errMcbDestroyed, 3), mem') ∧
      ¬ MeetsContract 2 1 (freeRuns 1 freePair) (.error (errMcbDestroyed, 3)) := by
  refine ⟨freePair_chain.1, freePair_chain.2, by decide, ?_⟩
  have hrun : (allocate freePairMemory 1 2 ownerDos 1).map Prod.fst =
      some (.error (errMcbDestroyed, 3)) := by decide +kernel
  obtain ⟨⟨result, mem'⟩, hsome, hfst⟩ := Option.map_eq_some_iff.mp hrun
  obtain rfl : result = _ := hfst
  exact ⟨mem', hsome, fun h => absurd (congrArg Prod.fst h.2) (by decide)⟩

end Neetan.Mcb
