import Mathlib.Tactic.Common

/-!
Computations on a state that may fail with an error, and a calculus of their results.

A failed step ends the computation; the state keeps what was done before. A loop that does
not come to an end is reported as `none`.
-/

namespace Neetan

/-- A value or an error, with the state after it. -/
def Fallible (σ ε α : Type) : Type := σ → Option (Except ε α × σ)

namespace Fallible

variable {σ ε α β : Type}

instance : Monad (Fallible σ ε) where
  pure a := fun s => some (.ok a, s)
  bind m f := fun s =>
    match m s with
    | none => none
    | some (.ok a, s') => f a s'
    | some (.error e, s') => some (.error e, s')

def fail (e : ε) : Fallible σ ε α := fun s => some (.error e, s)

def diverge : Fallible σ ε α := fun _ => none

/-- A value read off the state. -/
def reads (f : σ → α) : Fallible σ ε α := fun s => some (.ok (f s), s)

def modify (f : σ → σ) : Fallible σ ε Unit := fun s => some (.ok (), f s)

/-- The value, or the error if there is none. -/
def okOr (e : ε) : Option α → Fallible σ ε α
  | some a => pure a
  | none => fail e

def ofExcept : Except ε α → Fallible σ ε α
  | .ok a => pure a
  | .error e => fail e

/-- The result of a computation, failed or not, as a value. -/
def attempt (m : Fallible σ ε α) : Fallible σ ε (Except ε α) := fun s =>
  (m s).map fun r => (.ok r.1, r.2)

variable {f : α → Fallible σ ε β}

lemma bind_ok {m : Fallible σ ε α} {s s'' : σ} {b : β} (h : (m >>= f) s = some (.ok b, s'')) :
    ∃ a s', m s = some (.ok a, s') ∧ f a s' = some (.ok b, s'') := by
  change (match m s with
    | none => none
    | some (.ok a, s') => f a s'
    | some (.error e, s') => some (.error e, s')) = _ at h
  split at h
  · cases h
  · exact ⟨_, _, ‹_›, h⟩
  · cases h

lemma bind_of_ok {m : Fallible σ ε α} {s s' : σ} {a : α} (h : m s = some (.ok a, s')) :
    (m >>= f) s = f a s' := by
  change (match m s with
    | none => none
    | some (.ok a, s') => f a s'
    | some (.error e, s') => some (.error e, s')) = _
  rw [h]

lemma bind_of_error {m : Fallible σ ε α} {s s' : σ} {e : ε} (h : m s = some (.error e, s')) :
    (m >>= f) s = some (.error e, s') := by
  change (match m s with
    | none => none
    | some (.ok a, s') => f a s'
    | some (.error e, s') => some (.error e, s')) = _
  rw [h]

lemma bind_of_none {m : Fallible σ ε α} {s : σ} (h : m s = none) :
    (m >>= f) s = none := by
  change (match m s with
    | none => none
    | some (.ok a, s') => f a s'
    | some (.error e, s') => some (.error e, s')) = _
  rw [h]

instance : LawfulMonad (Fallible σ ε) := LawfulMonad.mk' _
  (fun m => by
    funext s
    rcases h : m s with _ | ⟨e | a, s'⟩
    · exact bind_of_none h
    · exact bind_of_error h
    · exact bind_of_ok h)
  (fun _ _ => rfl)
  (fun m f g => by
    funext s
    rcases h : m s with _ | ⟨e | a, s'⟩
    · rw [bind_of_none (bind_of_none h), bind_of_none h]
    · rw [bind_of_error (bind_of_error h), bind_of_error h]
    · rw [bind_of_ok h]
      rcases h' : f a s' with _ | ⟨e | b, s''⟩
      · rw [bind_of_none ((bind_of_ok h).trans h'), bind_of_none h']
      · rw [bind_of_error ((bind_of_ok h).trans h'), bind_of_error h']
      · rw [bind_of_ok ((bind_of_ok h).trans h'), bind_of_ok h'])

/-- Whether a run ends with a value that passes a test. -/
def passes (p : α → Bool) : Option (Except ε α × σ) → Bool
  | some (.ok a, _) => p a
  | _ => false

lemma passes_iff {p : α → Bool} {run : Option (Except ε α × σ)} :
    passes p run = true ↔ ∃ a s, run = some (.ok a, s) ∧ p a = true := by
  constructor
  · intro h
    unfold passes at h
    split at h
    · exact ⟨_, _, rfl, h⟩
    · cases h
  · rintro ⟨a, s, rfl, h⟩
    exact h

/-- Whether there is a value, and it passes a test. -/
def holds (x : Except ε α) (p : α → Bool) : Bool :=
  match x with
  | .ok a => p a
  | .error _ => false

lemma holds_iff {x : Except ε α} {p : α → Bool} :
    holds x p = true ↔ ∃ a, x = .ok a ∧ p a = true := by
  cases x with
  | ok a => exact ⟨fun h => ⟨a, rfl, h⟩, fun ⟨_, ha, h⟩ => Except.ok.inj ha ▸ h⟩
  | error e => exact ⟨fun h => absurd h Bool.false_ne_true, fun ⟨_, ha, _⟩ => by cases ha⟩

lemma pure_ok {a b : α} {s s' : σ} (h : (pure a : Fallible σ ε α) s = some (.ok b, s')) :
    a = b ∧ s = s' := by
  cases h
  exact ⟨rfl, rfl⟩

lemma reads_ok {f : σ → α} {a : α} {s s' : σ}
    (h : (reads f : Fallible σ ε α) s = some (.ok a, s')) : f s = a ∧ s = s' := by
  cases h
  exact ⟨rfl, rfl⟩

lemma okOr_ok {o : Option α} {e : ε} {a : α} {s s' : σ}
    (h : okOr e o s = some (.ok a, s')) : o = some a ∧ s = s' := by
  cases o with
  | none => cases h
  | some b =>
    cases h
    exact ⟨rfl, rfl⟩

lemma ofExcept_ok {x : Except ε α} {a : α} {s s' : σ}
    (h : ofExcept x s = some (.ok a, s')) : x = .ok a ∧ s = s' := by
  cases x with
  | error e => cases h
  | ok b =>
    cases h
    exact ⟨rfl, rfl⟩

/-- From this state the computation comes to an end, with such a result. -/
def Ends (m : Fallible σ ε α) (s : σ) (Q : Except ε α → σ → Prop) : Prop :=
  ∃ r s', m s = some (r, s') ∧ Q r s'

variable {m : Fallible σ ε α} {s s' : σ} {Q R : Except ε α → σ → Prop}

lemma Ends.mono (h : m.Ends s R) (hq : ∀ r s', R r s' → Q r s') : m.Ends s Q := by
  obtain ⟨r, s', hm, hr⟩ := h
  exact ⟨r, s', hm, hq r s' hr⟩

lemma Ends.of_eq {r : Except ε α} (h : m.Ends s Q) (hm : m s = some (r, s')) : Q r s' := by
  obtain ⟨r', s'', hm', hr⟩ := h
  rw [hm] at hm'
  cases hm'
  exact hr

lemma ends_pure {a : α} (h : Q (.ok a) s) : (pure a : Fallible σ ε α).Ends s Q :=
  ⟨.ok a, s, rfl, h⟩

lemma ends_fail {e : ε} (h : Q (.error e) s) : (fail e : Fallible σ ε α).Ends s Q :=
  ⟨.error e, s, rfl, h⟩

lemma ends_modify {f : σ → σ} {Q : Except ε Unit → σ → Prop} (h : Q (.ok ()) (f s)) :
    (modify f : Fallible σ ε Unit).Ends s Q :=
  ⟨.ok (), f s, rfl, h⟩

lemma ends_okOr {o : Option α} {e : ε} (hsome : ∀ a, o = some a → Q (.ok a) s)
    (hnone : o = none → Q (.error e) s) : (okOr e o : Fallible σ ε α).Ends s Q := by
  cases o with
  | some a => exact ends_pure (hsome a rfl)
  | none => exact ends_fail (hnone rfl)

lemma ends_ofExcept {x : Except ε α} (h : Q x s) : (ofExcept x : Fallible σ ε α).Ends s Q := by
  cases x with
  | ok a => exact ends_pure h
  | error e => exact ends_fail h

lemma Ends.bind {Q : Except ε β → σ → Prop} (h : m.Ends s R)
    (hok : ∀ a s', R (.ok a) s' → (f a).Ends s' Q)
    (herror : ∀ e s', R (.error e) s' → Q (.error e) s') : (m >>= f).Ends s Q := by
  obtain ⟨r, s', hm, hr⟩ := h
  cases r with
  | ok a =>
    obtain ⟨r', s'', hf, hq⟩ := hok a s' hr
    refine ⟨r', s'', ?_, hq⟩
    change (match m s with
      | none => none
      | some (.ok a, s') => f a s'
      | some (.error e, s') => some (.error e, s')) = _
    rw [hm]
    exact hf
  | error e =>
    refine ⟨.error e, s', ?_, herror e s' hr⟩
    change (match m s with
      | none => none
      | some (.ok a, s') => f a s'
      | some (.error e, s') => some (.error e, s')) = _
    rw [hm]

/-- What ends with a known value goes on with it. -/
lemma Ends.bind_value {a : α} {P : σ → Prop} {Q : Except ε β → σ → Prop}
    (h : m.Ends s fun r s' => r = .ok a ∧ P s') (hf : ∀ s', P s' → (f a).Ends s' Q) :
    (m >>= f).Ends s Q := by
  refine h.bind ?_ ?_
  · rintro _ s' ⟨hr, hs'⟩
    obtain rfl := Except.ok.inj hr
    exact hf s' hs'
  · rintro e s' ⟨he, -⟩
    cases he

lemma ends_reads_bind {f : σ → β} {g : β → Fallible σ ε α} (h : (g (f s)).Ends s Q) :
    (reads f >>= g).Ends s Q := h

lemma ends_pure_bind {a : β} {g : β → Fallible σ ε α} (h : (g a).Ends s Q) :
    ((pure a : Fallible σ ε β) >>= g).Ends s Q := h

lemma ends_modify_bind {f : σ → σ} {g : Unit → Fallible σ ε α} (h : (g ()).Ends (f s) Q) :
    (modify f >>= g).Ends s Q := h

end Fallible

end Neetan
