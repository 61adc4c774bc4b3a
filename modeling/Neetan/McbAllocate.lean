import Neetan.Mcb

/-!
Merging the free blocks of a chain, on lists of headers, and the allocation walk, which merges free
runs as it meets them and scans the merged blocks.

A merged list has the same paragraphs and the same owned blocks; each run of adjacent free
blocks has become one block. Where the last run of a chain without a limit takes up the last block,
the remembered type of the run is stale and the walk goes on behind the chain.
-/

namespace Neetan.Mcb

section

/-! ### Blocks and their segments -/

/-- The blocks of a list with their segments. -/
def located : ℕ → List Header → List (ℕ × Header)
  | _, [] => []
  | s, b :: bs => (s, b) :: located (s + b.size + 1) bs

/-- Segment and size of each free block. -/
def freeBlocks (s : ℕ) (bs : List Header) : List (ℕ × ℕ) :=
  (located s bs).filterMap fun x => if x.2.owner = ownerFree then some (x.1, x.2.size) else none

/-- The paragraphs of the free blocks, headers included. -/
def freeRange (s : ℕ) (bs : List Header) : Set ℕ :=
  {p | ∃ x ∈ located s bs, x.2.owner = ownerFree ∧ x.1 ≤ p ∧ p ≤ x.1 + x.2.size}

variable {s : ℕ} {b c : Header} {bs cs ds : List Header}

lemma located_append (s : ℕ) (bs cs : List Header) :
    located s (bs ++ cs) = located s bs ++ located (s + extent bs) cs := by
  induction bs generalizing s with
  | nil => rfl
  | cons b bs ih =>
    simp only [List.cons_append, located, extent, ih]
    rw [show s + b.size + 1 + extent bs = s + (b.size + 1 + extent bs) by omega]

lemma located_range {x : ℕ × Header} (h : x ∈ located s bs) :
    s ≤ x.1 ∧ x.1 + x.2.size + 1 ≤ s + extent bs := by
  induction bs generalizing s with
  | nil => cases h
  | cons b bs ih =>
    simp only [extent]
    rcases List.mem_cons.mp h with rfl | h
    · dsimp only
      omega
    · obtain ⟨h1, h2⟩ := ih h
      omega

lemma located_disjoint {x y : ℕ × Header} (hx : x ∈ located s bs) (hy : y ∈ located s bs) :
    x = y ∨ x.1 + x.2.size < y.1 ∨ y.1 + y.2.size < x.1 := by
  induction bs generalizing s with
  | nil => cases hx
  | cons b bs ih =>
    rcases List.mem_cons.mp hx with rfl | hx <;> rcases List.mem_cons.mp hy with rfl | hy
    · exact Or.inl rfl
    · have := located_range hy
      dsimp only
      omega
    · have := located_range hx
      dsimp only
      omega
    · exact ih hx hy

lemma mem_located_split {x : ℕ × Header} (h : x ∈ located s bs) :
    ∃ pre post, bs = pre ++ x.2 :: post ∧ x.1 = s + extent pre := by
  induction bs generalizing s with
  | nil => cases h
  | cons b bs ih =>
    rcases List.mem_cons.mp h with rfl | h
    · exact ⟨[], bs, rfl, rfl⟩
    · obtain ⟨pre, post, rfl, hx⟩ := ih h
      refine ⟨b :: pre, post, rfl, ?_⟩
      simp only [extent]
      omega

lemma mem_freeBlocks {r : ℕ × ℕ} : r ∈ freeBlocks s bs ↔
    ∃ x ∈ located s bs, x.2.owner = ownerFree ∧ (x.1, x.2.size) = r := by
  simp [freeBlocks]

lemma freeBlocks_free (h : b.owner = ownerFree) :
    freeBlocks s (b :: bs) = (s, b.size) :: freeBlocks (s + b.size + 1) bs := by
  simp [freeBlocks, located, h]

lemma freeBlocks_owned (h : b.owner ≠ ownerFree) :
    freeBlocks s (b :: bs) = freeBlocks (s + b.size + 1) bs := by
  simp [freeBlocks, located, h]

lemma freeBlocks_append (s : ℕ) (bs cs : List Header) :
    freeBlocks s (bs ++ cs) = freeBlocks s bs ++ freeBlocks (s + extent bs) cs := by
  simp [freeBlocks, located_append]

lemma mem_freeRange_cons {p : ℕ} : p ∈ freeRange s (b :: bs) ↔
    (b.owner = ownerFree ∧ s ≤ p ∧ p ≤ s + b.size) ∨ p ∈ freeRange (s + b.size + 1) bs := by
  simp [freeRange, located]

lemma mem_freeRange_append {p : ℕ} : p ∈ freeRange s (bs ++ cs) ↔
    p ∈ freeRange s bs ∨ p ∈ freeRange (s + extent bs) cs := by
  simp only [freeRange, located_append, Set.mem_ofPred_eq, List.mem_append, or_and_right, exists_or]

lemma freeRange_range {p : ℕ} (h : p ∈ freeRange s bs) : s ≤ p ∧ p < s + extent bs := by
  obtain ⟨x, hx, -, h1, h2⟩ := h
  have := located_range hx
  omega

lemma not_mem_freeRange {x : ℕ × Header} (hx : x ∈ located s bs) (ho : x.2.owner ≠ ownerFree)
    {p : ℕ} (h1 : x.1 ≤ p) (h2 : p ≤ x.1 + x.2.size) : p ∉ freeRange s bs := by
  rintro ⟨y, hy, hf, h3, h4⟩
  rcases located_disjoint hx hy with rfl | h | h
  · exact ho hf
  · omega
  · omega

/-! ### Merged lists -/

/-- Every run of adjacent free blocks as one block. -/
def merged : List Header → List Header
  | [] => []
  | b :: bs =>
    match merged bs with
    | [] => [b]
    | c :: cs => if b.owner = ownerFree ∧ c.owner = ownerFree then join b c :: cs else b :: c :: cs

/-- The last two blocks are free. -/
def endsInFreePair : List Header → Bool
  | [] => false
  | [_] => false
  | [b, c] => b.owner = ownerFree ∧ c.owner = ownerFree
  | _ :: bs => endsInFreePair bs

lemma join_join (b c d : Header) : join (join b c) d = join b (join c d) := by
  simp only [join, Header.mk.injEq, true_and]
  omega

lemma merged_head (c : Header) (cs : List Header) :
    ∃ d ds, merged (c :: cs) = d :: ds ∧ d.owner = c.owner := by
  rw [merged]
  cases merged cs with
  | nil => exact ⟨c, [], rfl, rfl⟩
  | cons d ds =>
    dsimp only
    split_ifs
    · exact ⟨join c d, ds, rfl, rfl⟩
    · exact ⟨c, d :: ds, rfl, rfl⟩

lemma merged_owned (h : b.owner ≠ ownerFree) : merged (b :: bs) = b :: merged bs := by
  rw [merged]
  cases merged bs with
  | nil => rfl
  | cons c cs => exact if_neg fun hc => h hc.1

lemma extent_merged (bs : List Header) : extent (merged bs) = extent bs := by
  induction bs with
  | nil => rfl
  | cons b bs ih =>
    rw [merged, extent, ← ih]
    cases merged bs with
    | nil => rfl
    | cons c cs =>
      dsimp only
      split_ifs
      · simp only [extent, join]
        omega
      · rfl

lemma merged_join (h : b.owner = ownerFree) (hc : c.owner = ownerFree) :
    merged (b :: c :: cs) = merged (join b c :: cs) := by
  rw [merged, merged, merged]
  cases merged cs with
  | nil => exact if_pos ⟨h, hc⟩
  | cons d ds =>
    dsimp only
    by_cases hd : d.owner = ownerFree
    · rw [if_pos ⟨hc, hd⟩, if_pos ⟨h, hd⟩, join_join]
      exact if_pos ⟨h, hc⟩
    · rw [if_neg fun hn => hd hn.2, if_neg fun hn => hd hn.2]
      exact if_pos ⟨h, hc⟩

lemma merged_free (h : b.owner = ownerFree) :
    merged (b :: bs) = (absorb b bs).1 :: merged (absorb b bs).2 := by
  induction bs generalizing b with
  | nil => rfl
  | cons c cs ih =>
    unfold absorb
    by_cases hc : c.owner = ownerFree
    · rw [if_pos hc, ← ih (b := join b c) h, merged_join h hc]
    · obtain ⟨d, ds, hm, hd⟩ := merged_head c cs
      rw [if_neg hc, merged, hm]
      exact if_neg fun hn => hc (hd ▸ hn.2)

lemma absorb_split (b : Header) (bs : List Header) :
    ∃ pre, bs = pre ++ (absorb b bs).2 ∧ (∀ c ∈ pre, c.owner = ownerFree) ∧
      (absorb b bs).1.size + 1 = extent (b :: pre) ∧
      ∀ c ∈ (absorb b bs).2.head?, c.owner ≠ ownerFree := by
  induction bs generalizing b with
  | nil => exact ⟨[], rfl, nofun, rfl, nofun⟩
  | cons c cs ih =>
    unfold absorb
    by_cases hc : c.owner = ownerFree
    · obtain ⟨pre, h1, h2, h3, h4⟩ := ih (join b c)
      rw [if_pos hc]
      refine ⟨c :: pre, congrArg (c :: ·) h1, ?_, ?_, h4⟩
      · rintro d (_ | ⟨_, hd⟩)
        · exact hc
        · exact h2 d hd
      · rw [h3]
        simp only [extent, join]
        omega
    · rw [if_neg hc]
      refine ⟨[], rfl, nofun, rfl, fun d hd => ?_⟩
      obtain rfl : c = d := by simpa using hd
      exact hc

lemma absorb_append (b : Header) (bs : List Header) (h : ∀ c ∈ cs.head?, c.owner ≠ ownerFree) :
    absorb b (bs ++ cs) = ((absorb b bs).1, (absorb b bs).2 ++ cs) := by
  induction bs generalizing b with
  | nil =>
    cases cs with
    | nil => rfl
    | cons c cs => exact if_neg (h c rfl)
  | cons c bs ih =>
    rw [List.cons_append]
    unfold absorb
    split_ifs
    · exact ih _
    · rfl

lemma endsInFreePair_owned (h : b.owner ≠ ownerFree) :
    endsInFreePair (b :: bs) = endsInFreePair bs := by
  match bs with
  | [] => rfl
  | [c] => simp [endsInFreePair, h]
  | _ :: _ :: _ => rfl

lemma endsInFreePair_free (h : b.owner = ownerFree) (hne : bs ≠ []) :
    endsInFreePair (b :: bs) =
      if (absorb b bs).2 = [] then true else endsInFreePair (absorb b bs).2 := by
  induction bs generalizing b with
  | nil => exact absurd rfl hne
  | cons c cs ih =>
    unfold absorb
    by_cases hc : c.owner = ownerFree
    · rw [if_pos hc]
      cases cs with
      | nil => simp [endsInFreePair, absorb, h, hc]
      | cons d ds =>
        rw [← ih (b := join b c) h (List.cons_ne_nil d ds)]
        cases ds with
        | nil => simp [endsInFreePair, h, hc, join]
        | cons e es => rfl
    · rw [if_neg hc, if_neg (List.cons_ne_nil c cs)]
      cases cs with
      | nil => simp [endsInFreePair, hc]
      | cons d ds => rfl

/-! ### Partly merged lists -/

/-- The second list is the first one with some runs of free blocks merged. -/
inductive Merges : List Header → List Header → Prop
  | refl (bs : List Header) : Merges bs bs
  | keep {b : Header} {bs ds : List Header} : Merges bs ds → Merges (b :: bs) (b :: ds)
  | merge {b : Header} {bs ds : List Header} : b.owner = ownerFree → Merges (absorb b bs).2 ds →
      Merges (b :: bs) ((absorb b bs).1 :: ds)

lemma Merges.append_left (h : Merges bs ds) (cs : List Header) : Merges (cs ++ bs) (cs ++ ds) := by
  induction cs with
  | nil => exact h
  | cons c cs ih => exact Merges.keep ih

lemma Merges.append_right (h : Merges bs ds) (hcs : ∀ c ∈ cs.head?, c.owner ≠ ownerFree) :
    Merges (bs ++ cs) (ds ++ cs) := by
  induction h with
  | refl => exact Merges.refl _
  | keep _ ih => exact Merges.keep ih
  | @merge b bs ds hb _ ih =>
    have h : Merges (absorb b (bs ++ cs)).2 (ds ++ cs) := by
      rw [absorb_append b bs hcs]
      exact ih
    have hm := Merges.merge hb h
    rwa [absorb_append b bs hcs] at hm

lemma Merges.extent_eq (h : Merges bs ds) : extent ds = extent bs := by
  induction h with
  | refl => rfl
  | keep _ ih => simp only [extent, ih]
  | @merge b bs ds _ _ ih =>
    rw [← extent_absorb b bs]
    simp only [extent, ih]

lemma Merges.located_owned (h : Merges bs ds) {x : ℕ × Header} (ho : x.2.owner ≠ ownerFree) :
    x ∈ located s ds ↔ x ∈ located s bs := by
  induction h generalizing s with
  | refl => rfl
  | keep _ ih => simp only [located, List.mem_cons, ih]
  | @merge b bs ds hb _ ih =>
    obtain ⟨pre, h1, h2, h3, -⟩ := absorb_split b bs
    have hfree : ∀ y ∈ located (s + b.size + 1) pre, y.2.owner = ownerFree := fun y hy => by
      obtain ⟨p, q, hp, -⟩ := mem_located_split hy
      exact h2 _ (hp ▸ List.mem_append_right p List.mem_cons_self)
    have hseg : s + b.size + 1 + extent pre = s + (absorb b bs).1.size + 1 := by
      simp only [extent] at h3
      omega
    have hbs : x ∈ located (s + b.size + 1) bs ↔
        x ∈ located (s + (absorb b bs).1.size + 1) (absorb b bs).2 := by
      conv_lhs => rw [h1]
      rw [located_append, hseg, List.mem_append]
      exact or_iff_right fun hx => ho (hfree x hx)
    simp only [located, List.mem_cons, hbs, ih]
    constructor
    · rintro (rfl | hx)
      · exact absurd ((owner_absorb b bs).trans hb) ho
      · exact Or.inr hx
    · rintro (rfl | hx)
      · exact absurd hb ho
      · exact Or.inr hx

lemma freeRange_all (h : ∀ c ∈ bs, c.owner = ownerFree) (p : ℕ) :
    p ∈ freeRange s bs ↔ s ≤ p ∧ p < s + extent bs := by
  induction bs generalizing s with
  | nil => simp [freeRange, located, extent]
  | cons b bs ih =>
    rw [mem_freeRange_cons, ih fun c hc => h c (List.mem_cons_of_mem _ hc)]
    simp only [h b List.mem_cons_self, true_and, extent]
    omega

lemma Merges.freeRange_eq (h : Merges bs ds) : freeRange s ds = freeRange s bs := by
  ext p
  induction h generalizing s with
  | refl => rfl
  | keep _ ih => rw [mem_freeRange_cons, mem_freeRange_cons, ih]
  | @merge b bs ds hb _ ih =>
    obtain ⟨pre, h1, h2, h3, -⟩ := absorb_split b bs
    have hfree : ∀ c ∈ b :: pre, c.owner = ownerFree := by
      rintro c (_ | ⟨_, hc⟩)
      · exact hb
      · exact h2 c hc
    have hall := freeRange_all (s := s) hfree p
    have hbs : b :: bs = (b :: pre) ++ (absorb b bs).2 := congrArg (b :: ·) h1
    have hseg : s + extent (b :: pre) = s + (absorb b bs).1.size + 1 := by omega
    rw [hbs, mem_freeRange_append, hall, hseg, mem_freeRange_cons, ih, owner_absorb]
    simp only [hb, true_and]
    refine or_congr_left ⟨fun h => ⟨h.1, ?_⟩, fun h => ⟨h.1, ?_⟩⟩ <;> omega

end

/-! ### The allocation walk -/

section

open Neetan.ByteMemory Neetan.MachineInt

/-- The candidate after a list of free blocks. -/
def scan (paragraphs strategy : ℕ) : List (ℕ × ℕ) → Option (ℕ × ℕ) → Option (ℕ × ℕ)
  | [], candidate => candidate
  | r :: rs, candidate =>
    scan paragraphs strategy rs
      (if paragraphs ≤ r.2 ∧ useThis strategy candidate r.2 then some r else candidate)

/-- The size of the largest of the free blocks. -/
def largestOf : List (ℕ × ℕ) → ℕ
  | [] => 0
  | r :: rs => max r.2 (largestOf rs)

/-- A limit is the segment of an owned block that follows the walked ones. -/
def Limits (stopBefore : Option ℕ) (s : ℕ) (bs rest : List Header) : Prop :=
  (rest = [] ∧ stopBefore = none) ∨
    (stopBefore = some (s + extent bs) ∧ rest ≠ [] ∧ ∀ c ∈ rest.head?, c.owner ≠ ownerFree)

variable {mem mem' : Memory} {s n largest paragraphs owner strategy : ℕ} {b : Header}
  {bs rest : List Header} {stopBefore : Option ℕ} {candidate : Option (ℕ × ℕ)}

/-! ### One iteration -/

lemma allocateWalk_owned (hb : header mem s = b) (hv : isValidMcbType b.blockType = true)
    (ho : b.owner ≠ ownerFree) (hlt : s + b.size + 1 < 2 ^ 16) :
    allocateWalk stopBefore paragraphs owner strategy (n + 1) mem s largest candidate =
      if b.blockType = typeZ ∨ stopBefore = some (s + b.size + 1) then
        some (finishAllocate mem paragraphs owner strategy largest candidate)
      else allocateWalk stopBefore paragraphs owner strategy n mem (s + b.size + 1) largest
        candidate := by
  rw [allocateWalk]
  simp only [readMcbType_eq, readMcbOwner_eq, readMcbSize_eq, hb, hv, ho, if_false,
    Option.bind_eq_bind, Option.bind_some, nextSegment_of_lt hlt, false_and]
  simp

lemma allocateWalk_free (hb : header mem s = b) (hv : isValidMcbType b.blockType = true)
    (ho : b.owner = ownerFree) {d : Header} (hm : absorbFree s loopFuel mem = some mem')
    (hd : header mem' s = d) (hlt : s + d.size + 1 < 2 ^ 16) :
    allocateWalk stopBefore paragraphs owner strategy (n + 1) mem s largest candidate =
      if (paragraphs ≤ d.size ∧ useThis strategy candidate d.size) ∧ strategy = 0 then
        some (.ok (s + 1), (commitAllocation mem' s d.size paragraphs owner false).2)
      else if b.blockType = typeZ ∨ stopBefore = some (s + d.size + 1) then
        some (finishAllocate mem' paragraphs owner strategy (max largest d.size)
          (scan paragraphs strategy [(s, d.size)] candidate))
      else allocateWalk stopBefore paragraphs owner strategy n mem' (s + d.size + 1)
        (max largest d.size) (scan paragraphs strategy [(s, d.size)] candidate) := by
  have hmax : (if d.size > largest then d.size else largest) = max largest d.size := by
    split_ifs <;> omega
  rw [allocateWalk]
  simp only [readMcbType_eq, readMcbOwner_eq, readMcbSize_eq, hb, hv, ho, hm, hd,
    nextSegment_of_lt hlt, wrappingAdd_of_lt (show s + 1 < 2 ^ 16 by omega), if_true,
    Option.bind_eq_bind, Option.bind_some, true_and, hmax, scan, ge_iff_le]
  simp

/-! ### The walk -/

/-- First fit does not look further once it has a block. -/
def takeFirst (paragraphs owner strategy : ℕ) (mem : Memory) (candidate : Option (ℕ × ℕ))
    (goOn : Run (AllocateResult × Memory)) : Run (AllocateResult × Memory) :=
  match candidate with
  | some r =>
    if strategy = 0 then
      some (.ok (r.1 + 1), (commitAllocation mem r.1 r.2 paragraphs owner false).2)
    else goOn
  | none => goOn

lemma scan_append (rs qs : List (ℕ × ℕ)) :
    scan paragraphs strategy (rs ++ qs) candidate =
      scan paragraphs strategy qs (scan paragraphs strategy rs candidate) := by
  induction rs generalizing candidate with
  | nil => rfl
  | cons r rs ih => exact ih

lemma scan_first (r : ℕ × ℕ) (rs : List (ℕ × ℕ)) : scan paragraphs 0 rs (some r) = some r := by
  induction rs with
  | nil => rfl
  | cons q rs ih =>
    rw [scan, if_neg (by simp [useThis]), ih]

lemma largestOf_append (rs qs : List (ℕ × ℕ)) :
    largestOf (rs ++ qs) = max (largestOf rs) (largestOf qs) := by
  induction rs with
  | nil => simp [largestOf]
  | cons r rs ih => rw [List.cons_append, largestOf, largestOf, ih, max_assoc]

lemma scan_mem {rs : List (ℕ × ℕ)} {r : ℕ × ℕ}
    (h : scan paragraphs strategy rs candidate = some r) :
    candidate = some r ∨ r ∈ rs ∧ paragraphs ≤ r.2 := by
  induction rs generalizing candidate with
  | nil => exact Or.inl h
  | cons q rs ih =>
    rcases ih h with hq | ⟨hr, hfit⟩
    · split_ifs at hq with huse
      · obtain rfl := Option.some.inj hq
        exact Or.inr ⟨List.mem_cons_self, huse.1⟩
      · exact Or.inl hq
    · exact Or.inr ⟨List.mem_cons_of_mem _ hr, hfit⟩

/-- The walk ends at a block when nothing is left before the limit or behind a Z block. -/
lemma stops_iff (hs : Sealed (b :: bs ++ rest)) (hlim : Limits stopBefore s (b :: bs) rest)
    {d : Header} {tail : List Header} (hext : d.size + extent tail = b.size + extent bs)
    (htail : bs = [] → tail = []) :
    (b.blockType = typeZ ∨ stopBefore = some (s + d.size + 1)) ↔
      tail = [] ∧ (bs = [] ∨ rest ≠ []) := by
  have hempty : extent tail = 0 ↔ tail = [] := by
    cases tail with
    | nil => simp [extent]
    | cons c cs => simp [extent]
  have hz : bs ++ rest ≠ [] → b.blockType ≠ typeZ := by
    intro hne
    cases h : bs ++ rest with
    | nil => exact absurd h hne
    | cons c cs =>
      rw [List.cons_append, h] at hs
      rw [hs.1]
      exact Ne.symm typeZ_ne_typeM
  rcases hlim with ⟨rfl, rfl⟩ | ⟨rfl, hr, -⟩
  · simp only [reduceCtorEq, or_false, ne_eq, not_true_eq_false]
    constructor
    · intro h
      by_contra hne
      refine hz (fun hbs => hne ?_) h
      have hbs : bs = [] := by simpa using hbs
      exact ⟨htail hbs, hbs⟩
    · rintro ⟨-, rfl⟩
      exact hs
  · simp only [extent, Option.some.injEq, hr, ne_eq, not_false_eq_true, or_true, and_true, ← hempty]
    rw [or_iff_right (hz (by simp [hr]))]
    omega

lemma allocateWalk_block (stopBefore : Option ℕ) (paragraphs owner n largest : ℕ)
    (hch : Chain mem s (b :: bs ++ rest)) (hs : Sealed (b :: bs ++ rest))
    (hlt : s + extent (b :: bs ++ rest) < 2 ^ 16) (hrest : ∀ c ∈ rest.head?, c.owner ≠ ownerFree)
    (hc : strategy = 0 → candidate = none) :
    ∃ mem' d tail new, Chain mem' s (d :: tail ++ rest) ∧ Sealed (d :: tail ++ rest) ∧
      ChangesOnly mem mem' (freeRange s (b :: bs)) ∧ merged (b :: bs) = d :: merged tail ∧
      (∀ cs, freeBlocks s (d :: cs) = new ++ freeBlocks (s + d.size + 1) cs) ∧
      (∀ ds, Merges tail ds → Merges (b :: bs) (d :: ds)) ∧
      d.size + extent tail = b.size + extent bs ∧ (bs = [] → tail = []) ∧
      endsInFreePair (b :: bs) = (if tail = [] then decide (bs ≠ []) else endsInFreePair tail) ∧
      allocateWalk stopBefore paragraphs owner strategy (n + 1) mem s largest candidate =
        takeFirst paragraphs owner strategy mem' (scan paragraphs strategy new candidate)
          (if b.blockType = typeZ ∨ stopBefore = some (s + d.size + 1) then
            some (finishAllocate mem' paragraphs owner strategy (max largest (largestOf new))
              (scan paragraphs strategy new candidate))
          else allocateWalk stopBefore paragraphs owner strategy n mem' (s + d.size + 1)
            (max largest (largestOf new)) (scan paragraphs strategy new candidate)) := by
  have hv : isValidMcbType b.blockType = true := isValidMcbType_iff.mpr hs.head_valid
  by_cases ho : b.owner = ownerFree
  · have hfuel : (bs ++ rest).length < loopFuel := by
      have := length_le_extent (b :: (bs ++ rest))
      rw [List.length_cons] at this
      rw [List.cons_append] at hlt
      unfold loopFuel
      omega
    rw [List.cons_append] at hch hs
    obtain ⟨mem', hm, hch', hco⟩ := absorbFree_spec hch hs hlt hfuel
    have hext := extent_absorb b bs
    have hlt' : s + (absorb b bs).1.size + 1 < 2 ^ 16 := by
      rw [extent_append] at hlt
      simp only [extent] at hext hlt
      omega
    rw [absorb_append b bs hrest] at hch'
    have hs' := sealed_absorb hs
    rw [absorb_append b bs hrest] at hs'
    refine ⟨mem', (absorb b bs).1, (absorb b bs).2, [(s, (absorb b bs).1.size)], hch', hs',
      hco.mono ?_, merged_free ho, fun cs => ?_, fun ds hds => Merges.merge ho hds, ?_, ?_, ?_, ?_⟩
    · rintro _ rfl
      exact mem_freeRange_cons.mpr (Or.inl ⟨ho, le_rfl, by omega⟩)
    · exact freeBlocks_free ((owner_absorb b bs).trans ho)
    · simp only [extent] at hext
      omega
    · rintro rfl
      rfl
    · by_cases hbs : bs = []
      · subst hbs
        rfl
      · rw [endsInFreePair_free ho hbs]
        simp [hbs]
    · rw [allocateWalk_free hch.1 hv ho hm hch'.1 hlt']
      simp only [largestOf, Nat.max_zero]
      by_cases h0 : strategy = 0
      · subst h0
        obtain rfl := hc rfl
        by_cases hp : paragraphs ≤ (absorb b bs).1.size
        · simp [scan, useThis, hp, takeFirst]
        · simp [scan, hp, takeFirst]
      · rw [if_neg fun h => h0 h.2]
        cases scan paragraphs strategy [(s, (absorb b bs).1.size)] candidate with
        | none => rfl
        | some r => simp only [takeFirst, h0, if_false]
  · refine ⟨mem, b, bs, [], hch, hs, ChangesOnly.refl _ _, merged_owned ho, fun cs => ?_,
      fun ds hds => Merges.keep hds, rfl, id, ?_, ?_⟩
    · exact freeBlocks_owned ho
    · rw [endsInFreePair_owned ho]
      split_ifs with hbs
      · subst hbs
        rfl
      · rfl
    · have hlt' : s + b.size + 1 < 2 ^ 16 := by
        simp only [List.cons_append, extent] at hlt
        omega
      rw [allocateWalk_owned hch.1 hv ho hlt']
      simp only [scan, largestOf, Nat.max_zero]
      cases candidate with
      | none => rfl
      | some r =>
        have h0 : strategy ≠ 0 := fun h => absurd (hc h) (Option.some_ne_none r)
        simp only [takeFirst, h0, if_false]

/-- The walk over a part of a chain: it merges free runs, scans the merged blocks it gets to
see, and goes on behind a chain whose last block it has merged away. -/
lemma allocateWalk_spec (paragraphs owner strategy n largest : ℕ)
    (hch : Chain mem s (bs ++ rest)) (hs : Sealed (bs ++ rest))
    (hlt : s + extent (bs ++ rest) < 2 ^ 16) (hne : bs ≠ []) (hlim : Limits stopBefore s bs rest)
    (hc : strategy = 0 → candidate = none) {seen : List (ℕ × ℕ)}
    (hseen : freeBlocks s ((merged bs).take n) = seen) {last : Option (ℕ × ℕ)}
    (hlast : scan paragraphs strategy seen candidate = last) :
    ∃ mem' ds, Merges bs ds ∧ Chain mem' s (ds ++ rest) ∧ ChangesOnly mem mem' (freeRange s bs) ∧
      (∀ r, last = some r → candidate = some r ∨ r ∈ freeBlocks s ds) ∧
      allocateWalk stopBefore paragraphs owner strategy n mem s largest candidate =
        takeFirst paragraphs owner strategy mem' last
          (if rest = [] ∧ endsInFreePair bs ∧ (merged bs).length < n then
            allocateWalk stopBefore paragraphs owner strategy (n - (merged bs).length) mem'
              (s + extent bs) (max largest (largestOf seen)) last
          else some (finishAllocate mem' paragraphs owner strategy (max largest (largestOf seen))
            last)) := by
  subst hseen hlast
  induction n generalizing mem s bs largest candidate with
  | zero =>
    refine ⟨mem, bs, Merges.refl bs, hch, ChangesOnly.refl _ _, fun r hr => Or.inl hr, ?_⟩
    rw [List.take_zero, if_neg (fun h => Nat.not_lt_zero _ h.2.2)]
    cases candidate with
    | none => simp [allocateWalk, scan, freeBlocks, located, largestOf, takeFirst]
    | some r =>
      have h0 : strategy ≠ 0 := fun h => absurd (hc h) (Option.some_ne_none r)
      simp [allocateWalk, scan, freeBlocks, located, largestOf, takeFirst, h0]
  | succ n ih =>
    obtain ⟨b, bs, rfl⟩ := List.exists_cons_of_ne_nil hne
    have hrest : ∀ c ∈ rest.head?, c.owner ≠ ownerFree := by
      rcases hlim with ⟨rfl, -⟩ | ⟨-, -, h⟩
      · exact fun c hc => absurd hc (Option.not_mem_none c)
      · exact h
    obtain ⟨mem₁, d, tail, new, hch₁, hs₁, hco₁, hmerged, hnew, hmerges, hext, htail, hpair,
      hwalk⟩ :=
      allocateWalk_block stopBefore paragraphs owner n largest hch hs hlt hrest hc
    have hstops := stops_iff hs hlim hext htail
    rw [hmerged, List.take_succ_cons, hnew, scan_append, largestOf_append, ← max_assoc]
    rw [List.cons_append, Chain] at hch₁
    set now := scan paragraphs strategy new candidate with hnow
    by_cases hfirst : strategy = 0 ∧ now.isSome
    · obtain ⟨rfl, hsome⟩ := hfirst
      obtain ⟨r, hr⟩ := Option.isSome_iff_exists.mp hsome
      refine ⟨mem₁, d :: tail, hmerges tail (Merges.refl tail), hch₁, hco₁, fun q hq => ?_, ?_⟩
      · rw [hr, scan_first] at hq
        rw [hnew, ← Option.some.inj hq]
        exact (scan_mem (hnow.symm.trans hr)).imp_right fun h => List.mem_append_left _ h.1
      · rw [hwalk, hr, scan_first]
        rfl
    have hgo : ∀ k, takeFirst paragraphs owner strategy mem₁ now k = k := fun k => by
      cases h : now with
      | none => rfl
      | some r => exact if_neg fun h0 => hfirst ⟨h0, by rw [h]; rfl⟩
    rw [hgo] at hwalk
    rw [hwalk]
    by_cases htail' : tail = []
    · subst htail'
      refine ⟨mem₁, [d], hmerges [] (Merges.refl []), hch₁, hco₁, fun q hq => ?_, ?_⟩
      · rw [show merged [] = [] from rfl, List.take_nil] at hq
        rw [hnew]
        exact (scan_mem (hnow.symm.trans hq)).imp_right fun h => List.mem_append_left _ h.1
      · rw [show merged [] = [] from rfl, List.take_nil, hpair]
        simp only [freeBlocks, located, List.filterMap_nil, scan, largestOf, Nat.max_zero, hgo]
        by_cases hstop : bs = [] ∨ rest ≠ []
        · rw [if_pos (hstops.mpr ⟨rfl, hstop⟩), if_neg]
          simp only [if_true, decide_eq_true_eq]
          exact fun hall => hstop.elim hall.2.1 fun hne => hne hall.1
        · push Not at hstop
          rw [if_neg fun h => (hstops.mp h).2.elim hstop.1 fun hr => hr hstop.2]
          cases n with
          | zero => simp [allocateWalk]
          | succ n =>
            simp only [extent, Nat.add_zero] at hext
            rw [if_pos (by simp [hstop])]
            have htop : s + extent (b :: bs) = s + d.size + 1 := by
              simp only [extent]
              omega
            rw [htop]
            rfl
    · have hne₁ : tail ++ rest ≠ [] := by simp [htail']
      have hlt₁ : s + d.size + 1 + extent (tail ++ rest) < 2 ^ 16 := by
        rw [extent_append] at hlt ⊢
        simp only [extent] at hlt
        omega
      have hlim₁ : Limits stopBefore (s + d.size + 1) tail rest := by
        rw [Limits, show s + d.size + 1 + extent tail = s + extent (b :: bs) by
          simp only [extent]; omega]
        exact hlim
      have hc₁ : strategy = 0 → now = none := fun h0 =>
        Option.not_isSome_iff_eq_none.mp fun h => hfirst ⟨h0, h⟩
      obtain ⟨mem₂, ds, hds, hch₂, hco₂, hlast, hwalk₂⟩ :=
        ih _ hch₁.2 (hs₁.tail hne₁) hlt₁ htail' hlim₁ hc₁
      have hsub : ∀ p ∈ freeRange (s + d.size + 1) tail, p ∈ freeRange s (b :: bs) := fun p hp => by
        rw [← (hmerges tail (Merges.refl tail)).freeRange_eq]
        exact mem_freeRange_cons.mpr (Or.inr hp)
      refine ⟨mem₂, d :: ds, hmerges ds hds, ⟨?_, ?_⟩, hco₁.trans (hco₂.mono hsub),
        fun q hq => ?_, ?_⟩
      · rw [header_of_changesOnly hco₂ fun h => ?_, hch₁.1]
        have := freeRange_range h
        omega
      · exact hch₂
      · rw [hnew]
        rcases hlast q hq with h | h
        · exact (scan_mem (hnow.symm.trans h)).imp_right fun h => List.mem_append_left _ h.1
        · exact Or.inr (List.mem_append_right _ h)
      · rw [if_neg fun h => htail' (hstops.mp h).1, hwalk₂, hpair, if_neg htail']
        simp only [List.length_cons, Nat.add_lt_add_iff_right, Nat.add_sub_add_right]
        rw [show s + d.size + 1 + extent tail = s + extent (b :: bs) by
          simp only [extent]; omega]

lemma allocateWithLimit_spec (paragraphs owner strategy : ℕ) (hch : Chain mem s (bs ++ rest))
    (hs : Sealed (bs ++ rest)) (hlt : s + extent (bs ++ rest) < 2 ^ 16) (hne : bs ≠ [])
    (hlim : Limits stopBefore s bs rest) {seen : List (ℕ × ℕ)}
    (hseen : freeBlocks s ((merged bs).take maxChainWalk) = seen) :
    ∃ mem' ds last, scan paragraphs strategy seen none = last ∧ Merges bs ds ∧
      Chain mem' s (ds ++ rest) ∧ ChangesOnly mem mem' (freeRange s bs) ∧
      (∀ r, last = some r → r ∈ freeBlocks s ds) ∧
      allocateWithLimit mem s stopBefore paragraphs owner strategy =
        takeFirst paragraphs owner strategy mem' last
          (if rest = [] ∧ endsInFreePair bs ∧ (merged bs).length < maxChainWalk then
            allocateWalk stopBefore paragraphs owner strategy
              (maxChainWalk - (merged bs).length) mem' (s + extent bs) (largestOf seen) last
          else some (finishAllocate mem' paragraphs owner strategy (largestOf seen) last)) := by
  obtain ⟨mem', ds, hds, hch', hco, hlast, hwalk⟩ :=
    allocateWalk_spec paragraphs owner strategy maxChainWalk 0 hch hs hlt hne hlim
      (fun _ => rfl) hseen rfl
  rw [Nat.zero_max] at hwalk
  exact ⟨mem', ds, _, rfl, hds, hch', hco, fun r hr => (hlast r hr).resolve_left nofun, hwalk⟩

end

end Neetan.Mcb
