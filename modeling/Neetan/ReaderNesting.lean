import Neetan.LexerProgress
import Neetan.Reader

/-!
How deep the datum reader recurses.

Lists, vectors, bytevectors and abbreviations count themselves before they parse what they
contain. Label definitions do not, and neither do datum comments where a datum is expected: a
read that enters none of those has one activation more than the limit at most. A smaller limit
changes nothing but that it may be exceeded.
-/

namespace Neetan.Reader

open Neetan.Fallible

variable {N : Type}

/-! ### What a step keeps -/

/-- Between two steps of an activation at this level, in this depth. As long as every form has
counted itself, the level is at most one more than the depth. -/
structure Kept (limits : Limits) (level depth : ℕ) (parser : Parser N) : Prop where
  depth_eq : parser.depth = depth
  level_le : parser.uncounted = 0 → level ≤ depth + 1
  deepest_le : parser.uncounted = 0 → parser.deepest ≤ limits.maxNesting + 1

/-- The result of a step at this level and depth, which leaves at most so much text. -/
def Stays {α : Type} (limits : Limits) (level depth length : ℕ) (result : Except ReadError α)
    (parser : Parser N) : Prop :=
  match result with
  | .ok _ => Kept limits level depth parser ∧ parser.lexer.rest.length ≤ length
  | .error _ => parser.uncounted = 0 → parser.deepest ≤ limits.maxNesting + 1

/-- What is assumed of the activations below, at this level and depth and with less text than
that. -/
def Parses (limits : Limits) (parse : Token → ParseM N ℕ) (level depth fuel : ℕ) : Prop :=
  ∀ token (parser : Parser N), Kept limits level depth parser →
    parser.lexer.rest.length < fuel →
    (parse token).Ends parser (Stays limits level depth parser.lexer.rest.length)

variable {limits : Limits} {unicode : Unicode} {numbers : Numbers N} {α β : Type}
  {level depth length fuel : ℕ} {parser : Parser N}

lemma Stays.mono {length' : ℕ} (hle : length ≤ length') {result : Except ReadError α}
    (h : Stays limits level depth length result parser) :
    Stays limits level depth length' result parser := by
  cases result with
  | ok a => exact ⟨h.1, h.2.trans hle⟩
  | error e => exact h

lemma ends_stays_bind {m : ParseM N α} {f : α → ParseM N β}
    (h : m.Ends parser (Stays limits level depth length))
    (hf : ∀ a parser', Kept limits level depth parser' → parser'.lexer.rest.length ≤ length →
      (f a).Ends parser' (Stays limits level depth length)) :
    (m >>= f).Ends parser (Stays limits level depth length) :=
  Ends.bind h (fun a parser' hs => hf a parser' hs.1 hs.2) fun _ _ hs => hs

lemma stays_pure (h : Kept limits level depth parser) (a : α) :
    (pure a : ParseM N α).Ends parser (Stays limits level depth parser.lexer.rest.length) :=
  ends_pure ⟨h, le_rfl⟩

lemma stays_fail (h : Kept limits level depth parser) (e : ReadError) :
    (fail e : ParseM N α).Ends parser (Stays limits level depth length) :=
  ends_fail h.deepest_le

lemma stays_add (h : Kept limits level depth parser) (kind : NodeKind N) (span : Span) :
    (add kind span).Ends parser (Stays limits level depth parser.lexer.rest.length) :=
  ⟨_, _, rfl, ⟨h.depth_eq, h.level_le, h.deepest_le⟩, le_rfl⟩

lemma required_ends (h : Kept limits level depth parser) (message : String) (span : Span) :
    (required limits unicode message span).Ends parser fun result parser' =>
      match result with
      | .ok _ => Kept limits level depth parser' ∧
          parser'.lexer.rest.length < parser.lexer.rest.length
      | .error _ => parser'.uncounted = 0 → parser'.deepest ≤ limits.maxNesting + 1 := by
  obtain ⟨result, lexer, hnext, -, hlt⟩ := nextToken_ends limits unicode parser.lexer
  have hstep : (next limits unicode).Ends parser fun result' parser' =>
      result' = result ∧ parser' = { parser with lexer } :=
    ⟨result, { parser with lexer }, by rw [next, hnext]; rfl, rfl, rfl⟩
  refine Ends.bind hstep ?_ ?_
  · rintro token parser' ⟨rfl, rfl⟩
    refine ends_okOr (fun token' htoken => ?_) fun _ => h.deepest_le
    subst htoken
    exact ⟨⟨h.depth_eq, h.level_le, h.deepest_le⟩, hlt token' rfl⟩
  · rintro e parser' ⟨-, rfl⟩
    exact h.deepest_le

/-! ### Forms -/

section
variable {parse : Token → ParseM N ℕ}

lemma parseIgnoredDatum_stays (hparse : Parses limits parse level depth fuel)
    (h : Kept limits level depth parser) (hfuel : parser.lexer.rest.length < fuel)
    (token : Token) :
    (parseIgnoredDatum parse token).Ends parser
      (Stays limits level depth parser.lexer.rest.length) := by
  obtain ⟨result, parser', hrun, hstays⟩ := hparse token parser h hfuel
  refine ⟨result.map fun _ => (), { parser' with labels := parser.labels }, ?_, ?_⟩
  · rw [parseIgnoredDatum, hrun]
    rfl
  · cases result with
    | ok a => exact ⟨⟨hstays.1.depth_eq, hstays.1.level_le, hstays.1.deepest_le⟩, hstays.2⟩
    | error e => exact hstays

lemma requiredSkippingComments_ends (hparse : Parses limits parse level depth fuel)
    (expected : String) (after : Span) (loopFuel : ℕ) (parser : Parser N)
    (h : Kept limits level depth parser) (hfuel : parser.lexer.rest.length ≤ fuel)
    (hloop : parser.lexer.rest.length < loopFuel) :
    (requiredSkippingComments limits unicode parse expected after loopFuel).Ends parser
      fun result parser' =>
        match result with
        | .ok _ => Kept limits level depth parser' ∧
            parser'.lexer.rest.length < parser.lexer.rest.length
        | .error _ => parser'.uncounted = 0 → parser'.deepest ≤ limits.maxNesting + 1 := by
  induction loopFuel generalizing parser with
  | zero => exact absurd hloop (Nat.not_lt_zero _)
  | succ loopFuel ih =>
    unfold requiredSkippingComments
    refine Ends.bind (required_ends h expected after) ?_ fun _ _ hdeepest => hdeepest
    rintro token parser₁ ⟨h₁, hlt₁⟩
    split
    · refine Ends.bind (required_ends h₁ _ _) ?_ fun _ _ hdeepest => hdeepest
      rintro ignored parser₂ ⟨h₂, hlt₂⟩
      refine Ends.bind (parseIgnoredDatum_stays hparse h₂ (by omega) ignored) ?_
        fun _ _ hdeepest => hdeepest
      rintro - parser₃ ⟨h₃, hle₃⟩
      refine Ends.mono (ih parser₃ h₃ (by omega) (by omega)) fun result parser' hresult => ?_
      cases result with
      | ok token => exact ⟨hresult.1, by omega⟩
      | error e => exact hresult
    · exact ends_pure ⟨h₁, hlt₁⟩

lemma chain_stays (tail : ℕ) (span : Span) (values : List ℕ) (parser : Parser N)
    (h : Kept limits level depth parser) :
    (chain tail span values).Ends parser
      (Stays limits level depth parser.lexer.rest.length) := by
  induction values generalizing parser with
  | nil => exact stays_pure h tail
  | cons value values ih =>
    refine ends_stays_bind (ih parser h) fun rest parser' h' hle => ?_
    exact Ends.mono (stays_add h' _ _) fun _ _ => Stays.mono hle

lemma dottedTail_stays (hparse : Parses limits parse level depth fuel)
    (opening dot : Span) {loopFuel : ℕ} (values : List ℕ) (h : Kept limits level depth parser)
    (hfuel : loopFuel ≤ fuel + 1) (hloop : parser.lexer.rest.length < loopFuel) :
    (dottedTail limits unicode parse opening dot loopFuel values).Ends parser
      (Stays limits level depth parser.lexer.rest.length) := by
  refine Ends.bind (requiredSkippingComments_ends hparse _ _ _ parser h (by omega) hloop) ?_
    fun _ _ hdeepest => hdeepest
  rintro token parser₁ ⟨h₁, hlt₁⟩
  refine Ends.bind (hparse token parser₁ h₁ (by omega)) ?_
    fun _ _ hdeepest => hdeepest
  rintro tail parser₂ ⟨h₂, hle₂⟩
  refine Ends.bind (requiredSkippingComments_ends hparse _ _ _ parser₂ h₂ (by omega) (by omega)) ?_
    fun _ _ hdeepest => hdeepest
  rintro closing parser₃ ⟨h₃, hlt₃⟩
  split
  · refine Ends.bind (chain_stays tail opening values parser₃ h₃) ?_ fun _ _ hdeepest => hdeepest
    rintro list parser₄ ⟨h₄, hle₄⟩
    exact ends_pure ⟨h₄, by omega⟩
  · exact ends_pure ⟨h₃, by omega⟩

lemma listLoop_stays (hparse : Parses limits parse level depth fuel) (opening : Span)
    (loopFuel : ℕ) (values : List ℕ) (parser : Parser N) (h : Kept limits level depth parser)
    (hfuel : loopFuel ≤ fuel + 1) (hloop : parser.lexer.rest.length < loopFuel) :
    (listLoop limits unicode parse opening loopFuel values).Ends parser
      (Stays limits level depth parser.lexer.rest.length) := by
  induction loopFuel generalizing values parser with
  | zero => exact absurd hloop (Nat.not_lt_zero _)
  | succ loopFuel ih =>
    unfold listLoop
    refine Ends.bind (requiredSkippingComments_ends hparse _ _ _ parser h (by omega) hloop) ?_
      fun _ _ hdeepest => hdeepest
    rintro token parser₁ ⟨h₁, hlt₁⟩
    split
    · refine Ends.bind (stays_add h₁ .nil token.span) ?_ fun _ _ hdeepest => hdeepest
      rintro nil parser₂ ⟨h₂, hle₂⟩
      refine Ends.bind (chain_stays nil opening values parser₂ h₂) ?_ fun _ _ hdeepest => hdeepest
      rintro list parser₃ ⟨h₃, hle₃⟩
      exact ends_pure ⟨h₃, by omega⟩
    · split
      · split
        · exact ends_pure ⟨h₁, hlt₁.le⟩
        · exact Ends.mono (dottedTail_stays hparse opening token.span values h₁ hfuel (by omega))
            fun _ _ => Stays.mono hlt₁.le
      · refine Ends.bind (hparse token parser₁ h₁ (by omega)) ?_
          fun _ _ hdeepest => hdeepest
        rintro value parser₂ ⟨h₂, hle₂⟩
        exact Ends.mono (ih _ parser₂ h₂ (by omega) (by omega)) fun _ _ =>
          Stays.mono (by omega)

lemma vectorLoop_stays (hparse : Parses limits parse level depth fuel) (opening : Span)
    (loopFuel : ℕ) (values : List ℕ) (parser : Parser N) (h : Kept limits level depth parser)
    (hfuel : loopFuel ≤ fuel + 1) (hloop : parser.lexer.rest.length < loopFuel) :
    (vectorLoop limits unicode parse opening loopFuel values).Ends parser
      (Stays limits level depth parser.lexer.rest.length) := by
  induction loopFuel generalizing values parser with
  | zero => exact absurd hloop (Nat.not_lt_zero _)
  | succ loopFuel ih =>
    unfold vectorLoop
    refine Ends.bind (requiredSkippingComments_ends hparse _ _ _ parser h (by omega) hloop) ?_
      fun _ _ hdeepest => hdeepest
    rintro token parser₁ ⟨h₁, hlt₁⟩
    split
    · refine Ends.bind (stays_add h₁ (.vector values) opening) ?_ fun _ _ hdeepest => hdeepest
      rintro vector parser₂ ⟨h₂, hle₂⟩
      exact ends_pure ⟨h₂, by omega⟩
    · refine Ends.bind (hparse token parser₁ h₁ (by omega)) ?_
        fun _ _ hdeepest => hdeepest
      rintro value parser₂ ⟨h₂, hle₂⟩
      exact Ends.mono (ih _ parser₂ h₂ (by omega) (by omega)) fun _ _ => Stays.mono (by omega)

lemma bytevectorLoop_stays (hparse : Parses limits parse level depth fuel) (opening : Span)
    (loopFuel : ℕ) (values : List UInt8) (parser : Parser N)
    (h : Kept limits level depth parser) (hfuel : loopFuel ≤ fuel + 1)
    (hloop : parser.lexer.rest.length < loopFuel) :
    (bytevectorLoop limits unicode numbers parse opening loopFuel values).Ends parser
      (Stays limits level depth parser.lexer.rest.length) := by
  induction loopFuel generalizing values parser with
  | zero => exact absurd hloop (Nat.not_lt_zero _)
  | succ loopFuel ih =>
    unfold bytevectorLoop
    refine Ends.bind (requiredSkippingComments_ends hparse _ _ _ parser h (by omega) hloop) ?_
      fun _ _ hdeepest => hdeepest
    rintro token parser₁ ⟨h₁, hlt₁⟩
    split
    · refine Ends.bind (stays_add h₁ (.bytevector values) opening) ?_ fun _ _ hdeepest => hdeepest
      rintro vector parser₂ ⟨h₂, hle₂⟩
      exact ends_pure ⟨h₂, by omega⟩
    · refine Ends.bind (hparse token parser₁ h₁ (by omega)) ?_
        fun _ _ hdeepest => hdeepest
      rintro reference parser₂ ⟨h₂, hle₂⟩
      refine ends_reads_bind ?_
      split
      · exact Ends.mono (ih _ parser₂ h₂ (by omega) (by omega)) fun _ _ => Stays.mono (by omega)
      · exact ends_pure ⟨h₂, by omega⟩

lemma descend_ends (h : Kept limits level depth parser) (span : Span) :
    (descend limits span).Ends parser fun result parser' =>
      match result with
      | .ok _ => Kept limits (level + 1) (depth + 1) parser' ∧
          parser'.lexer = parser.lexer ∧ depth + 1 ≤ limits.maxNesting
      | .error _ => parser'.uncounted = 0 → parser'.deepest ≤ limits.maxNesting + 1 := by
  refine ends_modify_bind (ends_reads_bind ?_)
  have hkept : Kept limits (level + 1) (depth + 1) { parser with depth := parser.depth + 1 } :=
    ⟨congrArg (· + 1) h.depth_eq, fun hnone => Nat.succ_le_succ (h.level_le hnone), h.deepest_le⟩
  split
  · exact ends_fail h.deepest_le
  · next hle => exact ends_pure ⟨hkept, rfl, by have := h.depth_eq; dsimp only at hle; omega⟩

lemma Kept.ascend (h : Kept limits (level + 1) (depth + 1) parser) :
    Kept limits level depth { parser with depth := parser.depth - 1 } :=
  ⟨by have := h.depth_eq; dsimp only; omega, fun hnone => Nat.le_of_succ_le_succ (h.level_le hnone),
    h.deepest_le⟩

/-- What the forms assume of the activations below them, which they count. -/
def Below (limits : Limits) (parse : Token → ParseM N ℕ) (level depth fuel : ℕ) : Prop :=
  depth + 1 ≤ limits.maxNesting → Parses limits parse (level + 1) (depth + 1) fuel

lemma enclosed_stays {loop : ParseM N (Except ReadError ℕ)} (opening : Span)
    (hloop : ∀ parser' : Parser N, Kept limits (level + 1) (depth + 1) parser' →
      parser'.lexer = parser.lexer → depth + 1 ≤ limits.maxNesting →
      loop.Ends parser' (Stays limits (level + 1) (depth + 1) parser.lexer.rest.length))
    (h : Kept limits level depth parser) :
    (enclosed limits opening loop).Ends parser
      (Stays limits level depth parser.lexer.rest.length) := by
  refine Ends.bind (descend_ends h opening) ?_ fun _ _ hdeepest => hdeepest
  rintro - parser₁ ⟨h₁, hlexer, hlimit⟩
  refine Ends.bind (hloop parser₁ h₁ hlexer hlimit) ?_ fun _ _ hdeepest => hdeepest
  rintro result parser₂ ⟨h₂, hle₂⟩
  refine ends_modify_bind (ends_ofExcept ?_)
  cases result with
  | ok list => exact ⟨h₂.ascend, hle₂⟩
  | error e => exact h₂.deepest_le

lemma abbreviation_stays (hbelow : Below limits parse level depth fuel) (name : String)
    (span : Span) (h : Kept limits level depth parser)
    (hfuel : parser.lexer.rest.length ≤ fuel) :
    (abbreviation limits unicode parse name span).Ends parser
      (Stays limits level depth parser.lexer.rest.length) := by
  refine Ends.bind (descend_ends h span) ?_ fun _ _ hdeepest => hdeepest
  rintro - parser₁ ⟨h₁, hlexer, hlimit⟩
  refine Ends.bind (required_ends h₁ _ _) ?_ fun _ _ hdeepest => hdeepest
  rintro token parser₂ ⟨h₂, hlt₂⟩
  rw [hlexer] at hlt₂
  refine Ends.bind (hbelow hlimit token parser₂ h₂ (by omega)) ?_ fun _ _ hdeepest => hdeepest
  rintro datum parser₃ ⟨h₃, hle₃⟩
  refine ends_modify_bind ?_
  have hle : parser₃.lexer.rest.length ≤ parser.lexer.rest.length := by omega
  refine ends_stays_bind (Ends.mono (stays_add h₃.ascend _ _) fun _ _ => Stays.mono hle)
    fun symbol parser₄ h₄ hle₄ => ?_
  refine ends_stays_bind (Ends.mono (stays_add h₄ _ _) fun _ _ => Stays.mono hle₄)
    fun nil parser₅ h₅ hle₅ => ?_
  refine ends_stays_bind (Ends.mono (stays_add h₅ _ _) fun _ _ => Stays.mono hle₅)
    fun tail parser₆ h₆ hle₆ => ?_
  exact Ends.mono (stays_add h₆ _ _) fun _ _ => Stays.mono hle₆

/-! ### Forms that are not counted -/

lemma Kept.outer (h : Kept limits (level + 1) depth parser) : Kept limits level depth parser :=
  ⟨h.depth_eq, fun hnone => Nat.le_of_succ_le (h.level_le hnone), h.deepest_le⟩

lemma Stays.outer {result : Except ReadError α}
    (h : Stays limits (level + 1) depth length result parser) :
    Stays limits level depth length result parser := by
  cases result with
  | ok a => exact ⟨h.1.outer, h.2⟩
  | error e => exact h

lemma uncounted_stays {m : ParseM N ℕ}
    (hm : ∀ parser' : Parser N, Kept limits (level + 1) depth parser' →
      parser'.lexer = parser.lexer →
      m.Ends parser' (Stays limits (level + 1) depth parser.lexer.rest.length))
    (h : Kept limits level depth parser) :
    (uncounted m).Ends parser (Stays limits level depth parser.lexer.rest.length) := by
  refine ends_modify_bind (Ends.mono (hm _ ⟨h.depth_eq, ?_, ?_⟩ rfl) fun _ _ => Stays.outer)
  · exact fun hnone => absurd hnone (Nat.succ_ne_zero _)
  · exact fun hnone => absurd hnone (Nat.succ_ne_zero _)

lemma commented_stays (hparse : Parses limits parse level depth fuel) (span : Span)
    (h : Kept limits level depth parser) (hfuel : parser.lexer.rest.length ≤ fuel) :
    (commented limits unicode parse span).Ends parser
      (Stays limits level depth parser.lexer.rest.length) := by
  refine Ends.bind (required_ends h _ _) ?_ fun _ _ hdeepest => hdeepest
  rintro ignored parser₁ ⟨h₁, hlt₁⟩
  refine Ends.bind (parseIgnoredDatum_stays hparse h₁ (by omega) ignored) ?_
    fun _ _ hdeepest => hdeepest
  rintro - parser₂ ⟨h₂, hle₂⟩
  refine Ends.bind (required_ends h₂ _ _) ?_ fun _ _ hdeepest => hdeepest
  rintro token parser₃ ⟨h₃, hlt₃⟩
  exact Ends.mono (hparse token parser₃ h₃ (by omega)) fun _ _ => Stays.mono (by omega)

lemma label_stays (hparse : Parses limits parse level depth fuel) (name : ℕ) (span : Span)
    (h : Kept limits level depth parser) (hfuel : parser.lexer.rest.length ≤ fuel) :
    (label limits unicode parse name span).Ends parser
      (Stays limits level depth parser.lexer.rest.length) := by
  refine ends_reads_bind ?_
  split
  · exact stays_fail h _
  · refine ends_stays_bind (stays_add h _ _) fun placeholder parser₁ h₁ hle₁ => ?_
    refine ends_modify_bind ?_
    have hkept : Kept limits level depth { parser₁ with
        labels := Function.update parser₁.labels name (some placeholder) } :=
      ⟨h₁.depth_eq, h₁.level_le, h₁.deepest_le⟩
    refine Ends.bind (required_ends hkept _ _) ?_ fun _ _ hdeepest => hdeepest
    rintro token parser₂ ⟨h₂, hlt₂⟩
    have hlt : parser₂.lexer.rest.length < parser.lexer.rest.length := hlt₂.trans_le hle₁
    refine Ends.bind (hparse token parser₂ h₂ (by omega)) ?_ fun _ _ hdeepest => hdeepest
    rintro target parser₃ ⟨h₃, hle₃⟩
    split
    · exact stays_fail h₃ _
    · exact ends_modify_bind (ends_pure ⟨⟨h₃.depth_eq, h₃.level_le, h₃.deepest_le⟩,
        hle₃.trans hlt.le⟩)

/-! ### Atoms -/

lemma number_stays (text : String) (span : Span) (h : Kept limits level depth parser) :
    (number unicode numbers text span).Ends parser
      (Stays limits level depth parser.lexer.rest.length) := by
  unfold number
  split
  · exact stays_add h _ _
  · exact stays_fail h _
  · split
    · exact stays_add h _ _
    · exact stays_fail h _

lemma atom_stays (text : String) (span : Span) (h : Kept limits level depth parser) :
    (atom unicode numbers text span).Ends parser
      (Stays limits level depth parser.lexer.rest.length) := by
  unfold atom
  split
  · exact stays_fail h _
  · split
    · exact stays_add h _ _
    · split
      · exact stays_add h _ _
      · split
        · unfold character
          split
          · exact stays_add h _ _
          · exact stays_fail h _
        · split
          · exact number_stays text span h
          · exact stays_fail h _
        · exact number_stays text span h

lemma labelRef_stays (name : ℕ) (span : Span) (h : Kept limits level depth parser) :
    (labelRef name span).Ends parser
      (Stays limits level depth parser.lexer.rest.length) :=
  ends_reads_bind (ends_okOr (fun _ _ => ⟨h, le_rfl⟩) fun _ => h.deepest_le)

/-! ### Activations -/

lemma form_stays (hbelow : Below limits parse level depth fuel)
    (hsame : Parses limits parse (level + 1) depth fuel) {token : Token}
    (h : Kept limits level depth parser) (hfuel : parser.lexer.rest.length ≤ fuel) :
    (form limits unicode numbers parse (fuel + 1) token).Ends parser
      (Stays limits level depth parser.lexer.rest.length) := by
  have habbreviation : ∀ name, (abbreviation limits unicode parse name token.span).Ends parser
      (Stays limits level depth parser.lexer.rest.length) := fun name =>
    abbreviation_stays hbelow name token.span h hfuel
  unfold form
  split
  · exact atom_stays _ _ h
  · exact stays_add h _ _
  · exact stays_add h _ _
  · exact habbreviation _
  · exact habbreviation _
  · exact habbreviation _
  · exact habbreviation _
  · refine enclosed_stays token.span (fun parser' h' hlexer hlimit => ?_) h
    rw [← hlexer]
    exact listLoop_stays (hbelow hlimit) _ _ _ parser' h' le_rfl (by rw [hlexer]; omega)
  · refine enclosed_stays token.span (fun parser' h' hlexer hlimit => ?_) h
    rw [← hlexer]
    exact vectorLoop_stays (hbelow hlimit) _ _ _ parser' h' le_rfl (by rw [hlexer]; omega)
  · refine enclosed_stays token.span (fun parser' h' hlexer hlimit => ?_) h
    rw [← hlexer]
    exact bytevectorLoop_stays (hbelow hlimit) _ _ _ parser' h' le_rfl (by rw [hlexer]; omega)
  · refine uncounted_stays (fun parser' h' hlexer => ?_) h
    rw [← hlexer]
    exact commented_stays hsame _ h' (by rw [hlexer]; exact hfuel)
  · refine uncounted_stays (fun parser' h' hlexer => ?_) h
    rw [← hlexer]
    exact label_stays hsame _ _ h' (by rw [hlexer]; exact hfuel)
  · exact labelRef_stays _ _ h
  · exact stays_fail h _

end

lemma parseDatumFrom_parses (fuel : ℕ) : ∀ level depth, depth ≤ limits.maxNesting →
    Parses limits (parseDatumFrom limits unicode numbers fuel level) level depth fuel := by
  induction fuel with
  | zero => exact fun _ _ _ _ _ _ hfuel => absurd hfuel (Nat.not_lt_zero _)
  | succ fuel ih =>
    intro level depth hdepth token parser h hfuel
    refine ends_modify_bind ?_
    have hkept : Kept limits level depth { parser with deepest := max parser.deepest level } :=
      ⟨h.depth_eq, h.level_le, fun hnone => max_le (h.deepest_le hnone)
        ((h.level_le hnone).trans (Nat.succ_le_succ hdepth))⟩
    exact form_stays (fun hlimit => ih (level + 1) (depth + 1) hlimit)
      (ih (level + 1) depth hdepth) hkept (Nat.lt_succ_iff.mp hfuel)

variable (limits unicode numbers) in
/-- A read that enters no form without a count has one activation more than the limit at most. -/
lemma readNext_ends (lexer : Lexer) :
    (readNext limits unicode numbers).Ends (Parser.start lexer) fun _ parser =>
      parser.uncounted = 0 → parser.deepest ≤ limits.maxNesting + 1 := by
  obtain ⟨result, lexer', hnext, -, -⟩ := nextToken_ends limits unicode lexer
  have hstep : (next limits unicode).Ends (Parser.start lexer : Parser N) fun result' parser' =>
      result' = result ∧ parser' = { Parser.start lexer with lexer := lexer' } :=
    ⟨result, _, by rw [next]; change Option.map _ (nextToken limits unicode lexer) = _
                   rw [hnext]; rfl, rfl, rfl⟩
  refine Ends.bind hstep ?_ ?_
  · rintro first parser ⟨rfl, rfl⟩
    cases first with
    | none => exact ends_pure fun _ => Nat.zero_le _
    | some token =>
      refine ends_reads_bind ?_
      refine Ends.bind (parseDatumFrom_parses _ 1 0 (Nat.zero_le _) token _
        ⟨rfl, fun _ => le_rfl, fun _ => Nat.zero_le _⟩ (Nat.lt_succ_self _)) ?_
        fun _ _ hdeepest => hdeepest
      rintro root parser ⟨h, -⟩
      exact ends_pure h.deepest_le
  · rintro e parser ⟨-, rfl⟩
    exact fun _ => Nat.zero_le _

/-- The tables of ASCII. -/
def ascii : Unicode :=
  ⟨Char.isWhitespace, Char.isAlpha, Char.isAlphanum, fun c => c.toNat < 32, fun c => [c.toLower]⟩

def noNumbers : Numbers ℤ := ⟨fun _ => none, some⟩

/-- So many openings of datum comments. -/
def openings : ℕ → List Char
  | 0 => []
  | n + 1 => '#' :: ';' :: openings n

lemma nextToken_opening (limits : Limits) (rest : List Char) (offset : ℕ) :
    nextToken limits ascii ⟨'#' :: ';' :: rest, offset, false⟩ =
      some (.ok (some ⟨.datumComment, ⟨offset, offset + 2⟩⟩), ⟨rest, offset + 2, false⟩) := by
  rfl

lemma nextToken_end (limits : Limits) (offset : ℕ) :
    nextToken limits ascii ⟨[], offset, false⟩ = some (.ok none, ⟨[], offset, false⟩) := by
  rfl

variable (limits parser) in
lemma required_opening (message : String) (span : Span) {rest : List Char} {offset : ℕ}
    (hlexer : parser.lexer = ⟨'#' :: ';' :: rest, offset, false⟩) :
    required limits ascii message span parser =
      some (.ok ⟨.datumComment, ⟨offset, offset + 2⟩⟩,
        { parser with lexer := ⟨rest, offset + 2, false⟩ }) := by
  have hstep : next limits ascii parser =
      some (.ok (some ⟨.datumComment, ⟨offset, offset + 2⟩⟩),
        { parser with lexer := ⟨rest, offset + 2, false⟩ }) := by
    rw [next, hlexer, nextToken_opening]
    rfl
  rw [required, bind_of_ok hstep]
  rfl

lemma required_end (message : String) (span : Span) {offset : ℕ}
    (hlexer : parser.lexer = ⟨[], offset, false⟩) :
    required limits ascii message span parser =
      some (.error ⟨.unexpectedEof, message, span⟩, parser) := by
  have hstep : next limits ascii parser = some (.ok none, parser) := by
    rw [next, hlexer, nextToken_end, ← hlexer]
    rfl
  rw [required, bind_of_ok hstep]
  rfl

lemma parseDatumFrom_comment (fuel level : ℕ) (span : Span) (parser : Parser N) :
    parseDatumFrom limits unicode numbers (fuel + 1) level ⟨.datumComment, span⟩ parser =
      commented limits unicode (parseDatumFrom limits unicode numbers fuel (level + 1)) span
        { parser with deepest := max parser.deepest level, uncounted := parser.uncounted + 1 } :=
  rfl

variable (limits numbers) in
lemma openings_nest (n : ℕ) : ∀ (fuel level offset : ℕ) (span : Span) (parser : Parser N),
    n < fuel → parser.lexer = ⟨openings n, offset, false⟩ →
    ∃ e parser', parseDatumFrom limits ascii numbers fuel level ⟨.datumComment, span⟩ parser =
      some (.error e, parser') ∧ level + n ≤ parser'.deepest := by
  induction n with
  | zero =>
    intro fuel level offset span parser hfuel hlexer
    obtain ⟨fuel, rfl⟩ := Nat.exists_eq_succ_of_ne_zero (Nat.ne_of_gt hfuel)
    refine ⟨⟨.unexpectedEof, "a datum after #;", span⟩,
      { parser with deepest := max parser.deepest level, uncounted := parser.uncounted + 1 }, ?_,
      le_max_right _ _⟩
    rw [parseDatumFrom_comment]
    exact bind_of_error (required_end _ _ hlexer)
  | succ n ih =>
    intro fuel level offset span parser hfuel hlexer
    obtain ⟨fuel, rfl⟩ := Nat.exists_eq_succ_of_ne_zero (Nat.ne_of_gt (Nat.zero_lt_of_lt hfuel))
    let entered : Parser N :=
      { parser with deepest := max parser.deepest level, uncounted := parser.uncounted + 1 }
    have hrequired := required_opening limits entered "a datum after #;" span hlexer
    obtain ⟨e, parser', hrun, hdeep⟩ := ih fuel (level + 1) (offset + 2) ⟨offset, offset + 2⟩
      { entered with lexer := ⟨openings n, offset + 2, false⟩ } (by omega) rfl
    have hignored : parseIgnoredDatum (parseDatumFrom limits ascii numbers fuel (level + 1))
        ⟨.datumComment, ⟨offset, offset + 2⟩⟩
        { entered with lexer := ⟨openings n, offset + 2, false⟩ } =
        some (.error e, { parser' with labels := parser.labels }) := by
      rw [parseIgnoredDatum, hrun]
      rfl
    refine ⟨e, { parser' with labels := parser.labels }, ?_, by dsimp only; omega⟩
    rw [parseDatumFrom_comment]
    exact (bind_of_ok hrequired).trans (bind_of_error hignored)

end Neetan.Reader
