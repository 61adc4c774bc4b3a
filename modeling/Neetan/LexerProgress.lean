import Mathlib.Data.List.Basic
import Mathlib.Order.Nat
import Neetan.Lexer

/-!
The lexer comes to an end at every token, and takes the token off its text.

It also has few uses for its limits: with a smaller limit on nesting it gives the same tokens,
up to the first nested comment that is refused.
-/

namespace Neetan.Reader

open Neetan.Fallible

variable {α β : Type}

/-! ### What is left of the text -/

/-- The computation ends, with no more text than before. -/
def Shrinks (m : LexM α) (lexer : Lexer) : Prop :=
  m.Ends lexer fun _ lexer' => lexer'.rest.length ≤ lexer.rest.length

variable {lexer : Lexer}

lemma Shrinks.bind {m : LexM α} {f : α → LexM β} (h : Shrinks m lexer)
    (hf : ∀ a lexer', lexer'.rest.length ≤ lexer.rest.length → Shrinks (f a) lexer') :
    Shrinks (m >>= f) lexer :=
  Ends.bind h (fun a lexer' hle => Ends.mono (hf a lexer' hle) fun _ _ hle' => hle'.trans hle)
    fun _ _ hle => hle

lemma shrinks_pure (a : α) (lexer : Lexer) : Shrinks (pure a) lexer := ends_pure le_rfl

lemma shrinks_failAt (kind : ErrorKind) (message : String) (start stop : ℕ) (lexer : Lexer) :
    Shrinks (failAt kind message start stop : LexM α) lexer := ends_fail le_rfl

lemma length_advance_le (lexer : Lexer) (count : ℕ) :
    (lexer.advance count).rest.length ≤ lexer.rest.length := by
  simp [Lexer.advance]

lemma length_advance_lt {count : ℕ} (hcount : 0 < count) (hrest : lexer.rest ≠ []) :
    (lexer.advance count).rest.length < lexer.rest.length := by
  have hpos := List.length_pos_iff.mpr hrest
  simp only [Lexer.advance, List.length_drop]
  omega

lemma shrinks_advance (count : ℕ) (lexer : Lexer) :
    Shrinks (modify fun lexer => lexer.advance count) lexer :=
  ends_modify (length_advance_le lexer count)

lemma shrinks_bump (lexer : Lexer) : Shrinks bump lexer := shrinks_advance 1 lexer

lemma shrinks_bumpWhile (p : Char → Bool) (lexer : Lexer) : Shrinks (bumpWhile p) lexer :=
  ends_modify (length_advance_le lexer _)

/-- The computation ends, with less text than before. -/
def Consumes (m : LexM α) (lexer : Lexer) : Prop :=
  m.Ends lexer fun _ lexer' => lexer'.rest.length < lexer.rest.length

lemma Consumes.bind {m : LexM α} {f : α → LexM β} (h : Consumes m lexer)
    (hf : ∀ a lexer', lexer'.rest.length < lexer.rest.length → Shrinks (f a) lexer') :
    Consumes (m >>= f) lexer :=
  Ends.bind h (fun a lexer' hlt => Ends.mono (hf a lexer' hlt) fun _ _ hle => hle.trans_lt hlt)
    fun _ _ hlt => hlt

lemma Consumes.shrinks {m : LexM α} (h : Consumes m lexer) : Shrinks m lexer :=
  Ends.mono h fun _ _ => le_of_lt

lemma advance_consumes {count : ℕ} (hcount : 0 < count) (hrest : lexer.rest ≠ []) :
    Consumes (modify fun lexer => lexer.advance count) lexer :=
  ends_modify (length_advance_lt hcount hrest)

lemma bump_consumes (hrest : lexer.rest ≠ []) : Consumes bump lexer :=
  advance_consumes Nat.one_pos hrest

variable (limits : Limits) (unicode : Unicode)

lemma blockCommentLoop_shrinks (start : ℕ) (fuel depth : ℕ) (lexer : Lexer)
    (hfuel : lexer.rest.length < fuel) :
    Shrinks (blockCommentLoop limits start fuel depth) lexer := by
  induction fuel generalizing depth lexer with
  | zero => exact absurd hfuel (Nat.not_lt_zero _)
  | succ fuel ih =>
    have hnext : ∀ depth count, 0 < count → lexer.rest ≠ [] →
        Shrinks (blockCommentLoop limits start fuel depth) (lexer.advance count) :=
      fun depth count hcount hrest =>
        ih depth _ ((length_advance_lt hcount hrest).trans_le (Nat.lt_succ_iff.mp hfuel))
    unfold blockCommentLoop
    refine ends_reads_bind (ends_reads_bind ?_)
    split
    · next heq =>
      have hrest : lexer.rest ≠ [] := by simp [heq]
      split
      · exact shrinks_failAt _ _ _ _ _
      · exact Ends.mono (ends_modify_bind (hnext _ 2 (by omega) hrest)) fun _ _ hle =>
          hle.trans (length_advance_le lexer 2)
    · next heq =>
      have hrest : lexer.rest ≠ [] := by simp [heq]
      refine ends_modify_bind ?_
      split
      · exact ends_pure (length_advance_le lexer 2)
      · exact Ends.mono (hnext _ 2 (by omega) hrest) fun _ _ hle =>
          hle.trans (length_advance_le lexer 2)
    · next heq =>
      have hrest : lexer.rest ≠ [] := by simp [heq]
      exact Ends.mono (ends_modify_bind (hnext _ 1 (by omega) hrest)) fun _ _ hle =>
        hle.trans (length_advance_le lexer 1)
    · exact shrinks_failAt _ _ _ _ _

lemma blockComment_consumes (lexer : Lexer) (hrest : lexer.rest ≠ []) :
    Consumes (blockComment limits) lexer := by
  have hlt := length_advance_lt (Nat.zero_lt_two) hrest
  refine ends_reads_bind (ends_reads_bind (ends_modify_bind ?_))
  exact Ends.mono (blockCommentLoop_shrinks limits _ _ 1 _ hlt) fun _ _ hle => hle.trans_lt hlt

lemma spaceLoop_shrinks (fuel : ℕ) (lexer : Lexer) (hfuel : lexer.rest.length < fuel) :
    Shrinks (spaceLoop limits unicode fuel) lexer := by
  induction fuel generalizing lexer with
  | zero => exact absurd hfuel (Nat.not_lt_zero _)
  | succ fuel ih =>
    unfold spaceLoop
    refine Shrinks.bind (shrinks_bumpWhile _ lexer) fun _ lexer hle => ?_
    -- whatever is skipped, the loop goes on with less text
    have hloop : ∀ lexer' : Lexer, lexer'.rest.length < lexer.rest.length →
        (spaceLoop limits unicode fuel).Ends lexer' fun _ lexer'' =>
          lexer''.rest.length ≤ lexer.rest.length := fun lexer' hlt =>
      Ends.mono (ih lexer' (by omega)) fun _ _ hle' => by omega
    refine ends_reads_bind ?_
    split
    · next hsemicolon =>
      have htake : 0 < (lexer.rest.takeWhile fun c => c != '\n' && c != '\r').length := by
        obtain ⟨rest, hrest⟩ := List.isPrefixOf_iff_prefix.mp hsemicolon
        simp [← hrest]
      refine ends_modify_bind (hloop _ (length_advance_lt htake ?_))
      intro hnil
      simp [hnil] at hsemicolon
    · split
      · next hcomment =>
        have hrest : lexer.rest ≠ [] := by
          intro hnil
          simp [hnil] at hcomment
        exact Ends.bind (blockComment_consumes limits lexer hrest) (fun _ lexer' => hloop lexer')
          fun _ _ => le_of_lt
      · split
        · next hmark =>
          have hrest : lexer.rest ≠ [] := by
            intro hnil
            simp [hnil, foldCaseMark] at hmark
          exact ends_modify_bind (hloop _ (length_advance_lt (Nat.succ_pos 10) hrest))
        · split
          · next hmark =>
            have hrest : lexer.rest ≠ [] := by
              intro hnil
              simp [hnil, noFoldCaseMark] at hmark
            exact ends_modify_bind (hloop _ (length_advance_lt (Nat.succ_pos 13) hrest))
          · exact shrinks_pure () lexer

lemma space_shrinks (lexer : Lexer) : Shrinks (space limits unicode) lexer :=
  ends_reads_bind (spaceLoop_shrinks limits unicode _ lexer (Nat.lt_succ_self _))

/-! ### Tokens -/

lemma checkToken_shrinks (start : ℕ) (lexer : Lexer) : Shrinks (checkToken limits start) lexer := by
  refine ends_reads_bind ?_
  split
  · exact shrinks_failAt _ _ _ _ _
  · exact shrinks_pure () lexer

lemma characterName_shrinks (lexer : Lexer) : Shrinks (characterName unicode) lexer := by
  refine ends_reads_bind ?_
  split
  · refine Shrinks.bind (shrinks_bump lexer) fun _ lexer _ => ?_
    split
    · exact shrinks_bumpWhile _ lexer
    · exact shrinks_pure () lexer
  · exact shrinks_pure () lexer

lemma characterToken_consumes (start : ℕ) (lexer : Lexer) (hrest : lexer.rest ≠ []) :
    Consumes (characterToken limits unicode start) lexer := by
  refine ends_reads_bind (Consumes.bind (bump_consumes hrest) fun _ lexer _ => ?_)
  refine Shrinks.bind (shrinks_bump lexer) fun _ lexer _ => ?_
  refine Shrinks.bind (characterName_shrinks unicode lexer) fun _ lexer _ => ?_
  refine Shrinks.bind (checkToken_shrinks limits start lexer) fun _ lexer _ => ?_
  exact ends_reads_bind (ends_reads_bind (shrinks_pure _ lexer))

lemma labelToken_shrinks (start : ℕ) (label : List Char) (kind : ℕ → TokenKind) (lexer : Lexer) :
    Shrinks (labelToken start label kind) lexer := by
  refine ends_reads_bind ?_
  split
  · exact shrinks_pure _ lexer
  · exact shrinks_failAt _ _ _ _ lexer

lemma atomToken_consumes (start : ℕ) (lexer : Lexer) (hrest : lexer.rest ≠ []) :
    Consumes (atomToken limits unicode start) lexer := by
  refine ends_reads_bind ?_
  by_cases htext : (lexer.rest.takeWhile fun c => !isDelimiter unicode c) = []
  · simp only [htext, List.length_nil]
    refine ends_modify_bind ?_
    have hbump : Consumes bump (lexer.advance 0) := bump_consumes hrest
    exact Consumes.bind hbump fun _ lexer _ =>
      ends_reads_bind (shrinks_failAt _ _ _ _ lexer)
  · refine Consumes.bind (advance_consumes (List.length_pos_iff.mpr htext) hrest)
      fun _ lexer _ => ?_
    rw [if_neg htext]
    refine Shrinks.bind (checkToken_shrinks limits start lexer) fun _ lexer _ =>
      ends_reads_bind ?_
    dsimp only
    split
    · exact labelToken_shrinks _ _ _ lexer
    · split
      · exact labelToken_shrinks _ _ _ lexer
      · exact shrinks_pure _ lexer

lemma hexEscape_shrinks (lexer : Lexer) : Shrinks hexEscape lexer := by
  refine ends_reads_bind (ends_reads_bind ?_)
  refine Shrinks.bind (shrinks_advance _ lexer) fun _ lexer _ =>
    ends_reads_bind (ends_reads_bind ?_)
  split
  · split
    · exact shrinks_failAt _ _ _ _ lexer
    · exact Shrinks.bind (shrinks_bump lexer) fun _ lexer _ => shrinks_pure _ lexer
  · exact shrinks_failAt _ _ _ _ lexer

lemma escape_shrinks (start : ℕ) (lexer : Lexer) : Shrinks (escape start) lexer := by
  refine ends_reads_bind ?_
  split
  · exact ends_reads_bind (shrinks_failAt _ _ _ _ lexer)
  · refine Shrinks.bind (shrinks_bump lexer) fun _ lexer _ => ?_
    split
    all_goals first
      | exact shrinks_pure _ lexer
      | exact hexEscape_shrinks lexer
      | exact ends_reads_bind (shrinks_failAt _ _ _ _ lexer)

lemma quotedLoop_shrinks (start : ℕ) (closing : Char) (continues : Bool) (unterminated : String)
    (fuel : ℕ) (output : List Char) (lexer : Lexer) (hfuel : lexer.rest.length < fuel) :
    Shrinks (quotedLoop start closing continues unterminated fuel output) lexer := by
  induction fuel generalizing output lexer with
  | zero => exact absurd hfuel (Nat.not_lt_zero _)
  | succ fuel ih =>
    unfold quotedLoop
    refine ends_reads_bind ?_
    split
    · exact ends_reads_bind (shrinks_failAt _ _ _ _ lexer)
    · next heq =>
      have hrest : lexer.rest ≠ [] := by simp [heq]
      refine Consumes.shrinks (Consumes.bind (bump_consumes hrest) fun _ lexer' hlt => ?_)
      split
      · exact shrinks_pure _ lexer'
      · split
        · split
          · exact Shrinks.bind (shrinks_advance _ lexer') fun _ lexer'' hle =>
              ih _ lexer'' (by omega)
          · exact Shrinks.bind (escape_shrinks start lexer') fun _ lexer'' hle =>
              ih _ lexer'' (by omega)
        · exact ih _ lexer' (by omega)

lemma escapedIdentifier_consumes (start : ℕ) (lexer : Lexer) (hrest : lexer.rest ≠ []) :
    Consumes (escapedIdentifier limits unicode start) lexer := by
  refine Consumes.bind (bump_consumes hrest) fun _ lexer _ => ends_reads_bind ?_
  refine Shrinks.bind (quotedLoop_shrinks _ _ _ _ _ _ lexer (Nat.lt_succ_self _))
    fun _ lexer _ => ?_
  refine Shrinks.bind (checkToken_shrinks limits start lexer) fun _ lexer _ => ?_
  exact ends_reads_bind (shrinks_pure _ lexer)

lemma stringToken_consumes (start : ℕ) (lexer : Lexer) (hrest : lexer.rest ≠ []) :
    Consumes (stringToken limits start) lexer := by
  refine Consumes.bind (bump_consumes hrest) fun _ lexer _ => ends_reads_bind ?_
  refine Shrinks.bind (quotedLoop_shrinks _ _ _ _ _ _ lexer (Nat.lt_succ_self _))
    fun _ lexer _ => ?_
  exact Shrinks.bind (checkToken_shrinks limits start lexer) fun _ lexer _ =>
    shrinks_pure _ lexer

lemma mark_consumes {count : ℕ} (hcount : 0 < count) (kind : TokenKind) (hrest : lexer.rest ≠ []) :
    Consumes (mark count kind) lexer :=
  Consumes.bind (advance_consumes hcount hrest) fun _ lexer _ => shrinks_pure _ lexer

lemma tokenKind_consumes (start : ℕ) (lexer : Lexer) (hrest : lexer.rest ≠ []) :
    Consumes (tokenKind limits unicode start lexer.rest) lexer := by
  unfold tokenKind
  split
  all_goals first
    | exact mark_consumes (by decide) _ hrest
    | exact Consumes.bind (stringToken_consumes limits start lexer hrest) fun _ lexer _ =>
        shrinks_pure _ lexer
    | exact Consumes.bind (escapedIdentifier_consumes limits unicode start lexer hrest)
        fun _ lexer _ => shrinks_pure _ lexer
    | exact characterToken_consumes limits unicode start lexer hrest
    | exact atomToken_consumes limits unicode start lexer hrest

/-- **The next token.** The lexer comes to an end, and a token is taken off the text. -/
theorem nextToken_ends (lexer : Lexer) : (nextToken limits unicode).Ends lexer fun result lexer' =>
    lexer'.rest.length ≤ lexer.rest.length ∧
    ∀ token, result = .ok (some token) → lexer'.rest.length < lexer.rest.length := by
  refine Ends.bind (space_shrinks limits unicode lexer) (fun _ lexer₁ hle => ?_)
    fun _ _ hle => ⟨hle, fun _ hok => (by cases hok)⟩
  refine ends_reads_bind (ends_reads_bind ?_)
  split
  · exact ends_pure ⟨hle, fun _ hok => (by cases hok)⟩
  · next hrest =>
    refine Ends.bind (tokenKind_consumes limits unicode _ lexer₁ hrest) (fun kind lexer₂ hlt => ?_)
      fun _ _ hlt => ⟨hlt.le.trans hle, fun _ hok => (by cases hok)⟩
    exact ends_reads_bind (ends_pure ⟨hlt.le.trans hle, fun _ _ => hlt.trans_le hle⟩)

end Neetan.Reader
