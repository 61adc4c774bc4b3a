import Neetan.Prefixes
import Mathlib.Logic.Function.Iterate
import Mathlib.Data.Nat.Find

/-!
The decoding of prefixes over a stream of code bytes, and the look-ahead behind a branch.

The first loop counts its prefixes, the one behind a repeat prefix does not. The decoding fetches
more than fifteen bytes exactly when all of the first fifteen are prefixes, with a repeat prefix
before any lock, and the sixteenth can be fetched. A repeat that is resumed decodes only where its
saved opcode is a repeat prefix. The look-ahead has no count of its own. It ends
exactly when one of the bytes that its offsets reach, before they wrap, is no prefix.
-/

namespace Neetan.Prefixes

/-! ### The stream -/

namespace Code

/-- The byte of a fetch, counted from the start of the instruction, and what is left. -/
def nth (bus : Bus) (c : Code) : ℕ → Option (Byte × Code)
  | 0 => c.fetch bus
  | n + 1 => (c.nth bus n).bind fun p => p.2.fetch bus

variable (bus : Bus) (c : Code)

def byteAt (n : ℕ) : Option Byte := (c.nth bus n).map Prod.fst

variable {bus c}

variable {b : Byte} {n : ℕ} {p : Byte × Code}

lemma byteAt_eq {code : Code} (here : c.nth bus n = some (b, code)) :
    c.byteAt bus n = some b := by
  rw [byteAt, here]
  rfl

lemma nth_succ {code : Code} (here : c.nth bus n = some (b, code)) :
    c.nth bus (n + 1) = code.fetch bus := by
  rw [nth, here]
  rfl

lemma isSome_of_le {m : ℕ} (le : m ≤ n) (there : (c.nth bus n).isSome) :
    (c.nth bus m).isSome := by
  induction n with
  | zero => rwa [Nat.le_zero.1 le]
  | succ n ih =>
    obtain rfl | less := Nat.eq_or_lt_of_le le
    · exact there
    · refine ih (by omega) ?_
      cases here : c.nth bus n with
      | none => simp [nth, here] at there
      | some p => rfl

end Code

/-! ### Kinds of bytes -/

def isRepeat (b : Byte) : Bool := b = 0xF2 ∨ b = 0xF3

lemma isPrefix_of_isRepeat (again : isRepeat b) : isPrefix b := by
  obtain rfl | rfl : b = 0xF2 ∨ b = 0xF3 := by simpa [isRepeat] using again
  · rfl
  · rfl

lemma repeat_opcode (again : isRepeat b) :
    isRepStringOpcode b = false ∧ isLockable b = false ∧ b ≠ 0x0F := by
  obtain rfl | rfl : b = 0xF2 ∨ b = 0xF3 := by simpa [isRepeat] using again
  · decide
  · decide

lemma takeRepPrefix_isSome (cpu : I386) (b : Byte) :
    (cpu.takeRepPrefix b).isSome = (isPrefix b && !isRepeat b) := by
  unfold I386.takeRepPrefix
  split_ifs
  case neg =>
    simp_all only [isPrefix, isRepeat, List.mem_cons, List.not_mem_nil, or_false, false_or]
    grind
  all_goals
    subst_vars
    rfl

lemma takePrefix_isSome (cpu : I386) (b : Byte) :
    (cpu.takePrefix b).isSome = (isPrefix b && !isRepeat b) := by
  unfold I386.takePrefix
  split_ifs with lock
  · rw [lock]
    rfl
  · exact takeRepPrefix_isSome cpu b

lemma takeRepPrefix_code {cpu cpu' : I386} (taken : cpu.takeRepPrefix b = some cpu') :
    cpu'.code = cpu.code ∧ cpu'.lockPrefix = cpu.lockPrefix := by
  unfold I386.takeRepPrefix at taken
  split_ifs at taken <;> (cases taken; exact ⟨rfl, rfl⟩)

lemma takePrefix_code {cpu cpu' : I386} (taken : cpu.takePrefix b = some cpu') :
    cpu'.code = cpu.code ∧ cpu'.lockPrefix = (cpu.lockPrefix || b == 0xF0) := by
  unfold I386.takePrefix at taken
  split_ifs at taken with lock
  · cases taken
    rw [lock]
    exact ⟨rfl, (Bool.or_true _).symm⟩
  · have both := takeRepPrefix_code taken
    rw [beq_false_of_ne lock, Bool.or_false]
    exact both

/-! ### One round -/

namespace Run

variable (bus : Bus) (r : Run)

def isDone : Bool :=
  match r.phase with
  | .done _ => true
  | _ => false

lemma fetchThen_cases (phase : Byte → Phase) :
    (r.cpu.code.fetch bus = none ∧ r.fetchThen bus phase = { r with phase := .done .fault }) ∨
    ∃ b code, r.cpu.code.fetch bus = some (b, code) ∧
      r.fetchThen bus phase =
        { r with phase := phase b, cpu := { r.cpu with code }, fetched := r.fetched + 1 } := by
  unfold fetchThen
  cases fetch : r.cpu.code.fetch bus with
  | none => exact .inl ⟨rfl, rfl⟩
  | some p => exact .inr ⟨p.1, p.2, rfl, rfl⟩

/-- A dispatch ends the decoding, or fetches the byte behind a repeat prefix. -/
lemma dispatch_cases (opcode : Byte) :
    (isRepeat opcode = false ∧ r.dispatch bus opcode =
      { r with phase := .done (.instruction opcode), dispatches := r.dispatches + 1 }) ∨
    (isRepeat opcode ∧
      r.dispatch bus opcode =
        { r with dispatches := r.dispatches + 1 : Run }.fetchThen bus .rep) := by
  unfold dispatch
  by_cases again : opcode = 0xF2 ∨ opcode = 0xF3
  · exact .inr ⟨decide_eq_true again, if_pos again⟩
  · exact .inl ⟨decide_eq_false again, if_neg again⟩

lemma doRep_cases (next : Byte) :
    ((r.cpu.repCount = 0 ∨ isRepStringOpcode next) ∧
      ∃ outcome, r.doRep bus next = { r with phase := .done outcome }) ∨
    (r.cpu.repCount ≠ 0 ∧ isRepStringOpcode next = false ∧
      r.doRep bus next = r.dispatch bus next) := by
  unfold doRep
  split_ifs with zero string
  · exact .inl ⟨.inl zero, _, rfl⟩
  · exact .inl ⟨.inr string, _, rfl⟩
  · exact .inr ⟨zero, Bool.of_not_eq_true string, rfl⟩

/-- A string instruction is never dispatched. -/
lemma doRep_string {next : Byte} (string : isRepStringOpcode next) :
    ∃ outcome, r.doRep bus next = { r with phase := .done outcome } := by
  obtain ⟨-, ends⟩ | ⟨-, other, -⟩ := r.doRep_cases bus next
  · exact ends
  · simp [string] at other

/-- Behind a lock the opcode may be invalid, or its operand not there; otherwise it is dispatched,
with no lock where it is a repeat prefix. -/
lemma opcodeAt_cases (opcode : Byte) :
    (r.cpu.lockPrefix ∧ ∃ outcome, r.opcodeAt bus opcode = { r with phase := .done outcome }) ∨
    ((isRepeat opcode → r.cpu.lockPrefix = false) ∧
      r.opcodeAt bus opcode = r.dispatch bus opcode) := by
  cases lock : r.cpu.lockPrefix with
  | false => exact .inr ⟨fun _ => rfl, by simp [opcodeAt, lock]⟩
  | true =>
    cases lockable : isLockable opcode with
    | false =>
      by_cases long : opcode = 0x0F
      · refine .inr ⟨fun again => absurd long (repeat_opcode again).2.2, ?_⟩
        subst long
        simp only [opcodeAt, lock, lockable, bne_self_eq_false, Bool.and_false, Bool.false_and,
          Bool.false_eq_true, if_false]
      · refine .inl ⟨rfl, .invalidOpcode, ?_⟩
        have other : (opcode != 0x0F) = true := bne_iff_ne.2 long
        simp only [opcodeAt, lock, lockable, other, Bool.and_true, Bool.not_false, if_true]
    | true =>
      have once : isRepeat opcode → true = false := fun again =>
        lockable.symm.trans (repeat_opcode again).2.1
      cases peek : r.cpu.code.peekByte bus with
      | none => exact .inl ⟨rfl, .fault, by simp [opcodeAt, lock, lockable, peek]⟩
      | some modrm =>
        by_cases register : lockableModrmIsRegister modrm
        · exact .inl ⟨rfl, .invalidOpcode, by simp [opcodeAt, lock, lockable, peek, register]⟩
        · exact .inr ⟨once, by simp [opcodeAt, lock, lockable, peek, register]⟩

variable {r}

lemma step_prefixes {count : ℕ} {opcode : Byte} (phase : r.phase = .prefixes count opcode) :
    (∃ cpu, r.cpu.takePrefix opcode = some cpu ∧
      r.step bus = if 14 ≤ count then { r with phase := .done .generalProtection }
        else { r with cpu : Run }.fetchThen bus (.prefixes (count + 1))) ∨
    (r.cpu.takePrefix opcode = none ∧ r.step bus = r.opcodeAt bus opcode) := by
  unfold step
  rw [phase]
  cases taken : r.cpu.takePrefix opcode with
  | none => exact .inr ⟨rfl, by simp only [taken]⟩
  | some cpu => exact .inl ⟨cpu, rfl, by simp only [taken]⟩

lemma step_rep {next : Byte} (phase : r.phase = .rep next) :
    (∃ cpu, r.cpu.takeRepPrefix next = some cpu ∧
      r.step bus = { r with cpu : Run }.fetchThen bus .rep) ∨
    (r.cpu.takeRepPrefix next = none ∧ isRepStringOpcode next ∧
      ∃ outcome, r.step bus = { r with phase := .done outcome }) ∨
    (r.cpu.takeRepPrefix next = none ∧ isRepStringOpcode next = false ∧
      r.step bus = r.dispatch bus next) := by
  unfold step
  rw [phase]
  cases taken : r.cpu.takeRepPrefix next with
  | some cpu => exact .inl ⟨cpu, rfl, by simp only [taken]⟩
  | none =>
    cases string : isRepStringOpcode next with
    | true =>
      obtain ⟨outcome, ends⟩ := r.doRep_string bus string
      exact .inr (.inl ⟨rfl, rfl, outcome, by simp only [taken, string, if_true, ends]⟩)
    | false => exact .inr (.inr ⟨rfl, rfl, by simp [taken, string]⟩)

lemma step_done {outcome : Outcome} (phase : r.phase = .done outcome) : r.step bus = r := by
  unfold step
  rw [phase]

lemma step_grows (r : Run) : (r.step bus).isDone ∨ (r.step bus).fetched = r.fetched + 1 := by
  have grows (s : Run) (phase : Byte → Phase) :
      (s.fetchThen bus phase).isDone ∨ (s.fetchThen bus phase).fetched = s.fetched + 1 := by
    obtain ⟨-, faults⟩ | ⟨b, code, -, goes⟩ := s.fetchThen_cases bus phase
    · rw [faults]
      exact .inl rfl
    · rw [goes]
      exact .inr rfl
  have dispatched (opcode : Byte) :
      (r.dispatch bus opcode).isDone ∨ (r.dispatch bus opcode).fetched = r.fetched + 1 := by
    obtain ⟨-, ends⟩ | ⟨-, goes⟩ := r.dispatch_cases bus opcode
    · rw [ends]
      exact .inl rfl
    · rw [goes]
      exact grows _ _
  cases phase : r.phase with
  | prefixes count opcode =>
    obtain ⟨cpu, -, step⟩ | ⟨-, step⟩ := step_prefixes bus phase
    · rw [step]
      split_ifs
      · exact .inl rfl
      · exact grows _ _
    · rw [step]
      obtain ⟨-, outcome, ends⟩ | ⟨-, goes⟩ := r.opcodeAt_cases bus opcode
      · rw [ends]
        exact .inl rfl
      · rw [goes]
        exact dispatched opcode
  | rep next =>
    obtain ⟨cpu, -, step⟩ | ⟨-, -, outcome, step⟩ | ⟨-, -, step⟩ := step_rep bus phase <;>
      rw [step]
    · exact grows _ _
    · exact .inl rfl
    · exact dispatched next
  | done outcome =>
    rw [step_done bus phase]
    exact .inl (by rw [isDone, phase])

end Run

/-! ### Long instructions -/

section Runs

variable (bus : Bus) (cpu : I386)

/-- The bytes of the instruction: those at the saved offset where a repeat is resumed. -/
def stream : Code :=
  if cpu.repActive then cpu.resumeRep.code else cpu.code

/-- The repeat that is resumed has a count, and a repeat prefix for its opcode. -/
def ResumesPrefix : Prop := cpu.resumeRep.repCount ≠ 0 ∧ isRepeat cpu.repOpcode

/-- The first `i` bytes are prefixes without a repeat, and none is a lock where `unlocked`. -/
def Plain (unlocked : Prop) (i : ℕ) : Prop :=
  ∀ j < i, ∃ b, (stream cpu).byteAt bus j = some b ∧ isPrefix b ∧ isRepeat b = false ∧
    (unlocked → b ≠ 0xF0)

/-- Byte `i` is a repeat prefix among the first fifteen, with no lock before it. -/
def RepeatAt (i : ℕ) : Prop :=
  i ≤ 14 ∧ (∃ b, (stream cpu).byteAt bus i = some b ∧ isRepeat b) ∧ Plain bus cpu True i

/-- The first `m` bytes are prefixes, and one of the first fifteen is a repeat with no lock before
it, unless a repeat prefix is resumed. -/
def Repeated (m : ℕ) : Prop :=
  (∀ j < m, ∃ b, (stream cpu).byteAt bus j = some b ∧ isPrefix b) ∧
    if cpu.repActive then ResumesPrefix cpu else ∃ i < m, RepeatAt bus cpu i

/-- The first fifteen bytes are prefixes, with a repeat before any lock or resumed, and there is a
sixteenth. -/
def Overlong : Prop := Repeated bus cpu 15 ∧ ((stream cpu).nth bus 15).isSome

/-- The decoding after a number of rounds. -/
def after (n : ℕ) : Run := (Run.step bus)^[n] (Run.start bus cpu)

lemma after_succ (n : ℕ) : after bus cpu (n + 1) = (after bus cpu n).step bus :=
  Function.iterate_succ_apply' _ n _

/-- What holds in every round. -/
def Holds (r : Run) : Prop :=
  match r.phase with
  | .prefixes count opcode =>
    cpu.repActive = false ∧ r.fetched = count + 1 ∧ count ≤ 14 ∧ r.dispatches = 0 ∧
      (stream cpu).nth bus count = some (opcode, r.cpu.code) ∧
      Plain bus cpu (r.cpu.lockPrefix = false) count
  | .rep next =>
    ∃ m, r.fetched = m + 1 ∧ r.dispatches ≤ m + 1 ∧
      (stream cpu).nth bus m = some (next, r.cpu.code) ∧ Repeated bus cpu m
  | .done _ => (r.fetched ≤ 15 ∧ r.dispatches ≤ r.fetched + 1) ∨ Overlong bus cpu

variable {bus cpu}

lemma Plain.succ {p q : Prop} {i : ℕ} (plain : Plain bus cpu p i) (imp : q → p)
    (here : (stream cpu).byteAt bus i = some b) (is : isPrefix b) (once : isRepeat b = false)
    (unlocked : q → b ≠ 0xF0) : Plain bus cpu q (i + 1) := by
  intro j less
  obtain rfl | less := Nat.eq_or_lt_of_le (Nat.lt_succ_iff.1 less)
  · exact ⟨b, here, is, once, unlocked⟩
  · obtain ⟨b', at_j, is', once', unlocked'⟩ := plain j less
    exact ⟨b', at_j, is', once', fun hq => unlocked' (imp hq)⟩

lemma Repeated.succ {m : ℕ} (repeated : Repeated bus cpu m)
    (here : (stream cpu).byteAt bus m = some b) (is : isPrefix b) :
    Repeated bus cpu (m + 1) := by
  obtain ⟨all, behind⟩ := repeated
  constructor
  · intro j less
    obtain rfl | less := Nat.eq_or_lt_of_le (Nat.lt_succ_iff.1 less)
    · exact ⟨b, here, is⟩
    · exact all j less
  · split_ifs at behind ⊢
    · exact behind
    · obtain ⟨i, less, first⟩ := behind
      exact ⟨i, Nat.lt_succ_of_lt less, first⟩

lemma Plain.repeated {i : ℕ} (plain : Plain bus cpu True i) (le : i ≤ 14)
    (fresh : cpu.repActive = false) (here : (stream cpu).byteAt bus i = some b)
    (again : isRepeat b) :
    Repeated bus cpu (i + 1) := by
  constructor
  · intro j less
    obtain rfl | less := Nat.eq_or_lt_of_le (Nat.lt_succ_iff.1 less)
    · exact ⟨b, here, isPrefix_of_isRepeat again⟩
    · obtain ⟨b', at_j, is', -, -⟩ := plain j less
      exact ⟨b', at_j, is'⟩
  · rw [if_neg (Bool.not_eq_true _ ▸ fresh)]
    exact ⟨i, Nat.lt_succ_self i, le, ⟨b, here, again⟩, plain⟩

lemma Repeated.short {m : ℕ} (repeated : Repeated bus cpu m)
    (here : (stream cpu).nth bus m = some p) : m ≤ 14 ∨ Overlong bus cpu := by
  refine or_iff_not_imp_left.2 fun long => ?_
  obtain ⟨all, behind⟩ := repeated
  refine ⟨⟨fun j less => all j (by omega), ?_⟩, ?_⟩
  · split_ifs at behind ⊢
    · exact behind
    · obtain ⟨i, -, first⟩ := behind
      exact ⟨i, Nat.lt_succ_of_le first.1, first⟩
  · exact Code.isSome_of_le (n := m) (by omega) (by rw [here]; rfl)

lemma stream_fresh (fresh : cpu.repActive = false) : stream cpu = cpu.code := by
  rw [stream, fresh]
  exact if_neg Bool.false_ne_true

lemma stream_resumed (resumed : cpu.repActive) : stream cpu = cpu.resumeRep.code := by
  rw [stream, if_pos resumed]

variable (bus cpu) in
/-- The first byte is fetched by the first loop, or by the one behind a repeat prefix that is
resumed. -/
lemma start_cases :
    (cpu.repActive = false ∧
      Run.start bus cpu = (Run.initial cpu).fetchThen bus (.prefixes 0)) ∨
    (cpu.repActive ∧ ¬ ResumesPrefix cpu ∧ ∃ outcome dispatches, dispatches ≤ 1 ∧
      Run.start bus cpu =
        { Run.initial cpu with
          cpu := cpu.beginInstruction.resumeRep, phase := .done outcome, dispatches }) ∨
    (cpu.repActive ∧ ResumesPrefix cpu ∧ Run.start bus cpu =
      { Run.initial cpu with
        cpu := cpu.beginInstruction.resumeRep, dispatches := 1 : Run }.fetchThen bus .rep) := by
  unfold Run.start
  cases resumed : cpu.repActive with
  | false => exact .inl ⟨rfl, if_neg Bool.false_ne_true⟩
  | true =>
    right
    rw [if_pos rfl, Run.continueRep]
    obtain ⟨why, outcome, ends⟩ | ⟨count, -, goes⟩ := Run.doRep_cases bus
      { Run.initial cpu with cpu := cpu.beginInstruction.resumeRep } cpu.repOpcode
    · refine .inl ⟨rfl, ?_, outcome, 0, Nat.zero_le 1, ends⟩
      rintro ⟨count, again⟩
      obtain zero | string := why
      · exact count zero
      · simp [(repeat_opcode again).1] at string
    · obtain ⟨once, ends⟩ | ⟨again, dispatched⟩ := Run.dispatch_cases bus
        { Run.initial cpu with cpu := cpu.beginInstruction.resumeRep } cpu.repOpcode
      · refine .inl ⟨rfl, ?_, _, 1, Nat.le_refl 1, goes.trans ends⟩
        rintro ⟨-, again⟩
        simp [once] at again
      · exact .inr ⟨rfl, ⟨count, again⟩, goes.trans dispatched⟩

lemma holds_start : Holds bus cpu (Run.start bus cpu) := by
  obtain ⟨fresh, start⟩ | ⟨-, -, outcome, dispatches, le, start⟩ | ⟨resumed, again, start⟩ :=
    start_cases bus cpu <;> rw [start]
  · obtain ⟨fetch, faults⟩ | ⟨b, code, fetch, goes⟩ :=
      (Run.initial cpu).fetchThen_cases bus (.prefixes 0)
    · rw [faults]
      exact .inl ⟨Nat.zero_le _, Nat.zero_le _⟩
    · rw [goes]
      have here : (stream cpu).nth bus 0 = some (b, code) := stream_fresh fresh ▸ fetch
      exact ⟨fresh, rfl, Nat.zero_le _, rfl, here, fun j less => absurd less (Nat.not_lt_zero j)⟩
  · exact .inl ⟨Nat.zero_le _, le⟩
  · obtain ⟨fetch, faults⟩ | ⟨b, code, fetch, goes⟩ := Run.fetchThen_cases bus
      { Run.initial cpu with cpu := cpu.beginInstruction.resumeRep, dispatches := 1 } .rep
    · rw [faults]
      exact .inl ⟨Nat.zero_le _, Nat.le_refl _⟩
    · rw [goes]
      have here : (stream cpu).nth bus 0 = some (b, code) := stream_resumed resumed ▸ fetch
      refine ⟨0, rfl, Nat.le_refl _, here, fun j less => absurd less (Nat.not_lt_zero j), ?_⟩
      rwa [if_pos resumed]

lemma holds_fetchRep {r : Run} {m : ℕ} (fetched : r.fetched = m + 1)
    (dispatches : r.dispatches ≤ m + 2) (here : (stream cpu).nth bus m = some (b, r.cpu.code))
    (repeated : Repeated bus cpu (m + 1)) (short : m ≤ 14 ∨ Overlong bus cpu) :
    Holds bus cpu (r.fetchThen bus .rep) := by
  obtain ⟨fetch, faults⟩ | ⟨b', code, fetch, goes⟩ := r.fetchThen_cases bus .rep
  · rw [faults]
    refine short.imp_left fun short => ?_
    change r.fetched ≤ 15 ∧ r.dispatches ≤ r.fetched + 1
    omega
  · rw [goes]
    exact ⟨m + 1, congrArg (· + 1) fetched, dispatches, (Code.nth_succ here).trans fetch, repeated⟩

/-- **A round keeps what holds in every round.** -/
theorem Holds.step {r : Run} (holds : Holds bus cpu r) : Holds bus cpu (r.step bus) := by
  cases phase : r.phase with
  | prefixes count opcode =>
    have now := holds
    rw [Holds, phase] at now
    obtain ⟨fresh, fetched, le, dispatches, here, plain⟩ := now
    have is := takePrefix_isSome r.cpu opcode
    obtain ⟨next, taken, step⟩ | ⟨taken, step⟩ := Run.step_prefixes bus phase
    · rw [taken] at is
      obtain ⟨is, once⟩ : isPrefix opcode = true ∧ isRepeat opcode = false := by
        simpa using is.symm
      obtain ⟨same, lock⟩ := takePrefix_code taken
      rw [step]
      split_ifs with many
      · refine .inl ?_
        change r.fetched ≤ 15 ∧ r.dispatches ≤ r.fetched + 1
        omega
      · obtain ⟨fetch, faults⟩ | ⟨b, code, fetch, goes⟩ := Run.fetchThen_cases bus
          { r with cpu := next } (.prefixes (count + 1))
        · rw [faults]
          refine .inl ?_
          change r.fetched ≤ 15 ∧ r.dispatches ≤ r.fetched + 1
          omega
        · rw [goes]
          rw [← same] at here
          refine ⟨fresh, congrArg (· + 1) fetched, by omega, dispatches,
            (Code.nth_succ here).trans fetch, ?_⟩
          change Plain bus cpu (next.lockPrefix = false) (count + 1)
          rw [lock, Bool.or_eq_false_iff]
          exact plain.succ And.left (Code.byteAt_eq here) is once fun no => ne_of_beq_false no.2
    · rw [step]
      obtain ⟨-, outcome, ends⟩ | ⟨unlocked, goes⟩ := r.opcodeAt_cases bus opcode
      · rw [ends]
        refine .inl ?_
        change r.fetched ≤ 15 ∧ r.dispatches ≤ r.fetched + 1
        omega
      · rw [goes]
        obtain ⟨-, ends⟩ | ⟨again, goes⟩ := r.dispatch_cases bus opcode
        · rw [ends]
          refine .inl ?_
          change r.fetched ≤ 15 ∧ r.dispatches + 1 ≤ r.fetched + 1
          omega
        · rw [goes]
          have none : Plain bus cpu True count := fun j less => by
            obtain ⟨b, at_j, is, once, no⟩ := plain j less
            exact ⟨b, at_j, is, once, fun _ => no (unlocked again)⟩
          exact holds_fetchRep fetched (by change r.dispatches + 1 ≤ count + 2; omega) here
            (none.repeated le fresh (Code.byteAt_eq here) again) (.inl le)
  | rep next =>
    have now := holds
    rw [Holds, phase] at now
    obtain ⟨m, fetched, dispatches, here, repeated⟩ := now
    have short := repeated.short here
    have is := takeRepPrefix_isSome r.cpu next
    have ends (outcome : Outcome) (k : ℕ) (le : k ≤ 1) :
        Holds bus cpu { r with phase := .done outcome, dispatches := r.dispatches + k } := by
      refine short.imp_left fun short => ?_
      change r.fetched ≤ 15 ∧ r.dispatches + k ≤ r.fetched + 1
      omega
    obtain ⟨taken', taken, step⟩ | ⟨taken, string, outcome, step⟩ |
        ⟨taken, string, step⟩ := Run.step_rep bus phase <;> rw [step]
    · rw [taken] at is
      obtain ⟨is, -⟩ : isPrefix next = true ∧ isRepeat next = false := by simpa using is.symm
      rw [← (takeRepPrefix_code taken).1] at here
      exact holds_fetchRep fetched (Nat.le_succ_of_le dispatches) here
        (repeated.succ (Code.byteAt_eq here) is) short
    · exact ends _ 0 (Nat.zero_le 1)
    · obtain ⟨-, dispatched⟩ | ⟨again, goes⟩ := r.dispatch_cases bus next
      · rw [dispatched]
        exact ends _ 1 (Nat.le_refl 1)
      · rw [goes]
        exact holds_fetchRep fetched (Nat.succ_le_succ dispatches) here
          (repeated.succ (Code.byteAt_eq here) (isPrefix_of_isRepeat again)) short
  | done outcome =>
    rw [Run.step_done bus phase]
    exact holds

/-- **It holds in every round.** -/
theorem holds_after (n : ℕ) : Holds bus cpu (after bus cpu n) := by
  induction n with
  | zero => exact holds_start
  | succ n ih =>
    rw [after_succ]
    exact ih.step

/-! ### Both directions -/

/-- Behind as many rounds as a byte has before it, the decoding has ended or has that byte. -/
lemma after_grows (n : ℕ) :
    (after bus cpu n).isDone ∨ (after bus cpu n).fetched = n + 1 := by
  induction n with
  | zero =>
    have first (r : Run) (phase : Byte → Phase) (none : r.fetched = 0) :
        (r.fetchThen bus phase).isDone ∨ (r.fetchThen bus phase).fetched = 1 := by
      obtain ⟨-, faults⟩ | ⟨b, code, -, goes⟩ := r.fetchThen_cases bus phase
      · rw [faults]
        exact .inl rfl
      · rw [goes]
        exact .inr (congrArg (· + 1) none)
    change (Run.start bus cpu).isDone ∨ (Run.start bus cpu).fetched = 1
    obtain ⟨-, start⟩ | ⟨-, -, outcome, dispatches, -, start⟩ | ⟨-, -, start⟩ :=
      start_cases bus cpu <;> rw [start]
    · exact first _ _ rfl
    · exact .inl rfl
    · exact first _ _ rfl
  | succ n ih =>
    rw [after_succ]
    obtain done | fetched := ih
    · left
      cases phase : (after bus cpu n).phase with
      | done outcome => rwa [Run.step_done bus phase]
      | _ => simp [Run.isDone, phase] at done
    · rw [← fetched]
      exact Run.step_grows bus _

lemma Holds.fetched_le {r : Run} (holds : Holds bus cpu r) (short : ¬ Overlong bus cpu) :
    r.fetched ≤ 15 ∧ r.dispatches ≤ 16 := by
  unfold Holds at holds
  split at holds
  · omega
  · obtain ⟨m, fetched, dispatches, here, repeated⟩ := holds
    have le := (repeated.short here).resolve_right short
    omega
  · have := holds.resolve_right short
    omega

/-- Behind `n` rounds of an overlong decoding whose first `i` bytes the first loop takes. -/
def Going (bus : Bus) (cpu : I386) (i n : ℕ) (r : Run) : Prop :=
  r.fetched = n + 1 ∧ ∃ b, (stream cpu).nth bus n = some (b, r.cpu.code) ∧
    (n < i ∧ r.phase = .prefixes n b ∧ r.cpu.lockPrefix = false ∨ i ≤ n ∧ r.phase = .rep b)

lemma fetchThen_of_nth {r : Run} {c : Code} (phase : Byte → Phase)
    (here : c.nth bus n = some (b, r.cpu.code)) (next : c.nth bus (n + 1) = some p) :
    r.fetchThen bus phase =
      { r with
        phase := phase p.1, cpu := { r.cpu with code := p.2 }, fetched := r.fetched + 1 } := by
  rw [Run.fetchThen, ← Code.nth_succ here, next]

lemma Going.prefixes {i : ℕ} {r : Run} (fetched : r.fetched = n + 1)
    (here : (stream cpu).nth bus n = some (b, r.cpu.code)) (le : n ≤ i)
    (phase : r.phase = .prefixes n b) (unlocked : r.cpu.lockPrefix = false)
    (next : (stream cpu).nth bus (n + 1) = some p) (first : RepeatAt bus cpu i) :
    Going bus cpu (i + 1) (n + 1) (r.step bus) := by
  obtain ⟨le_i, first, plain⟩ := first
  have is := takePrefix_isSome r.cpu b
  obtain rfl | less := Nat.eq_or_lt_of_le le
  · obtain ⟨b', at_n, again⟩ := first
    obtain rfl : b = b' := Option.some.inj ((Code.byteAt_eq here).symm.trans at_n)
    rw [again, Bool.not_true, Bool.and_false] at is
    obtain ⟨taken', taken, -⟩ | ⟨-, step⟩ := Run.step_prefixes bus phase
    · simp [taken] at is
    · obtain ⟨lock, -⟩ | ⟨-, goes⟩ := r.opcodeAt_cases bus b
      · simp [lock] at unlocked
      · obtain ⟨once, -⟩ | ⟨-, dispatched⟩ := r.dispatch_cases bus b
        · simp [once] at again
        · rw [step, goes, dispatched,
            fetchThen_of_nth (r := { r with dispatches := r.dispatches + 1 }) _ here next]
          exact ⟨congrArg (· + 1) fetched, p.1, next, .inr ⟨Nat.le_refl _, rfl⟩⟩
  · obtain ⟨b', at_n, pre, once, no⟩ := plain n less
    obtain rfl : b = b' := Option.some.inj ((Code.byteAt_eq here).symm.trans at_n)
    rw [pre, once] at is
    obtain ⟨taken', taken, step⟩ | ⟨taken, -⟩ := Run.step_prefixes bus phase
    · obtain ⟨same, lock⟩ := takePrefix_code taken
      rw [← same] at here
      rw [step, if_neg (by omega), fetchThen_of_nth (r := { r with cpu := taken' }) _ here next]
      refine ⟨congrArg (· + 1) fetched, p.1, next, .inl ⟨Nat.succ_lt_succ less, rfl, ?_⟩⟩
      change taken'.lockPrefix = false
      rw [lock, unlocked, beq_false_of_ne (no trivial)]
      rfl
    · simp [taken] at is

lemma Going.rep {i : ℕ} {r : Run} (fetched : r.fetched = n + 1)
    (here : (stream cpu).nth bus n = some (b, r.cpu.code)) (behind : i ≤ n)
    (phase : r.phase = .rep b) (next : (stream cpu).nth bus (n + 1) = some p) (pre : isPrefix b) :
    Going bus cpu i (n + 1) (r.step bus) := by
  have again (taken : r.cpu.takeRepPrefix b = none) : isRepeat b := by
    have is := takeRepPrefix_isSome r.cpu b
    rw [taken, pre] at is
    simpa using is.symm
  obtain ⟨taken', taken, step⟩ | ⟨taken, string, -⟩ | ⟨taken, -, step⟩ := Run.step_rep bus phase
  · rw [← (takeRepPrefix_code taken).1] at here
    rw [step, fetchThen_of_nth (r := { r with cpu := taken' }) _ here next]
    exact ⟨congrArg (· + 1) fetched, p.1, next, .inr ⟨Nat.le_succ_of_le behind, rfl⟩⟩
  · simp [(repeat_opcode (again taken)).1] at string
  · obtain ⟨once, -⟩ | ⟨-, dispatched⟩ := r.dispatch_cases bus b
    · simp [again taken] at once
    · rw [step, dispatched,
        fetchThen_of_nth (r := { r with dispatches := r.dispatches + 1 }) _ here next]
      exact ⟨congrArg (· + 1) fetched, p.1, next, .inr ⟨Nat.le_succ_of_le behind, rfl⟩⟩

/-- An overlong decoding starts in the first loop, or in the one behind a repeat prefix. -/
lemma Overlong.going (long : Overlong bus cpu) :
    ∃ i, Going bus cpu i 0 (Run.start bus cpu) ∧ ∀ k, i = k + 1 → RepeatAt bus cpu k := by
  obtain ⟨⟨-, behind⟩, there⟩ := long
  obtain ⟨p, here⟩ : ∃ p, (stream cpu).nth bus 0 = some p :=
    Option.isSome_iff_exists.1 (Code.isSome_of_le (Nat.zero_le 15) there)
  obtain ⟨fresh, start⟩ | ⟨resumed, other, -⟩ | ⟨resumed, -, start⟩ :=
    start_cases bus cpu
  · rw [if_neg (Bool.not_eq_true _ ▸ fresh)] at behind
    obtain ⟨i, -, first⟩ := behind
    refine ⟨i + 1, ?_, fun k eq => Nat.succ.inj eq ▸ first⟩
    have fetch : (Run.initial cpu).cpu.code.fetch bus = some p := stream_fresh fresh ▸ here
    rw [start, Run.fetchThen, fetch]
    exact ⟨rfl, p.1, here, .inl ⟨Nat.succ_pos i, rfl, rfl⟩⟩
  · rw [if_pos resumed] at behind
    exact absurd behind other
  · have fetch : cpu.beginInstruction.resumeRep.code.fetch bus = some p :=
      stream_resumed resumed ▸ here
    refine ⟨0, ?_, fun k eq => absurd eq.symm (Nat.succ_ne_zero k)⟩
    rw [start, Run.fetchThen, fetch]
    exact ⟨rfl, p.1, here, .inr ⟨Nat.le_refl 0, rfl⟩⟩

lemma Overlong.fetched (long : Overlong bus cpu) (le : n ≤ 15) :
    (after bus cpu n).fetched = n + 1 := by
  obtain ⟨i, start, first⟩ := long.going
  obtain ⟨⟨all, -⟩, there⟩ := long
  suffices going : Going bus cpu i n (after bus cpu n) from going.1
  induction n with
  | zero => exact start
  | succ n ih =>
    obtain ⟨fetched, b, here, ⟨less, phase, unlocked⟩ | ⟨behind, phase⟩⟩ := ih (by omega)
    all_goals
      obtain ⟨p, there⟩ : ∃ p, (stream cpu).nth bus (n + 1) = some p :=
        Option.isSome_iff_exists.1 (Code.isSome_of_le le there)
      rw [after_succ]
    · obtain ⟨k, rfl⟩ := Nat.exists_eq_succ_of_ne_zero (Nat.ne_zero_of_lt less)
      exact .prefixes fetched here (Nat.lt_succ_iff.1 less) phase unlocked there (first k rfl)
    · obtain ⟨b', at_n, pre⟩ := all n le
      obtain rfl : b = b' := Option.some.inj ((Code.byteAt_eq here).symm.trans at_n)
      exact .rep fetched here behind phase there pre

variable (bus cpu) in
/-- At most fifteen bytes are fetched and at most sixteen opcodes dispatched in any round, and the
decoding ends. -/
def DecodeBounded : Prop :=
  (∀ n, (after bus cpu n).fetched ≤ 15 ∧ (after bus cpu n).dispatches ≤ 16) ∧
    ∃ n, (after bus cpu n).isDone

/-- **The decoding is bounded unless it is overlong.** -/
lemma decodeBounded_iff : DecodeBounded bus cpu ↔ ¬ Overlong bus cpu := by
  refine ⟨fun bounded long => ?_, fun short => ⟨fun n => holds_after n |>.fetched_le short, 15, ?_⟩⟩
  · have fetched := long.fetched (Nat.le_refl 15)
    have le := (bounded.1 15).1
    omega
  · refine (after_grows 15).resolve_right fun fetched => ?_
    have le := ((holds_after 15).fetched_le short).1
    omega

end Runs

/-! ### The look-ahead -/

namespace Look

variable (bus : Bus) (csBase : Dword) (code32bit : Bool) (eip : Dword)

/-- The look-ahead after a number of rounds. -/
def after (n : ℕ) : Look := (step bus csBase code32bit)^[n] (scanning eip 0 0)

/-- The offset of a round. -/
def eipAt (n : ℕ) : Dword := (nextEip code32bit)^[n] eip

/-- The byte of a round is a prefix. -/
def prefixAt (n : ℕ) : Bool := isPrefix (bus.memory (address csBase (eipAt code32bit eip n)))

lemma after_succ (n : ℕ) :
    after bus csBase code32bit eip (n + 1) =
      step bus csBase code32bit (after bus csBase code32bit eip n) :=
  Function.iterate_succ_apply' _ n _

lemma eipAt_succ (n : ℕ) :
    eipAt code32bit eip (n + 1) = nextEip code32bit (eipAt code32bit eip n) :=
  Function.iterate_succ_apply' _ n _

lemma eipAt_32 (n : ℕ) : eipAt true eip n = eip + BitVec.ofNat 32 n := by
  induction n with
  | zero => exact (BitVec.add_zero eip).symm
  | succ n ih =>
    rw [eipAt_succ, ih, nextEip, if_pos rfl, BitVec.add_assoc, BitVec.ofNat_add]
    rfl

lemma eipAt_16 (n : ℕ) :
    eipAt false eip (n + 1) = (eip.setWidth 16 + BitVec.ofNat 16 (n + 1)).setWidth 32 := by
  induction n with
  | zero => rfl
  | succ n ih =>
    rw [eipAt_succ, ih, nextEip, if_neg Bool.false_ne_true,
      BitVec.setWidth_setWidth_of_le _ (by omega : 16 ≤ 32), BitVec.setWidth_eq, BitVec.add_assoc,
      BitVec.ofNat_add (n + 1)]
    rfl

lemma after_of_prefixes (all : ∀ k < n, prefixAt bus csBase code32bit eip k) :
    after bus csBase code32bit eip n = scanning (eipAt code32bit eip n) n n := by
  induction n with
  | zero => rfl
  | succ n ih =>
    rw [after_succ, ih fun k less => all k (Nat.lt_succ_of_lt less), step, eipAt_succ]
    exact if_pos (all n (Nat.lt_succ_self n))

lemma opcodeLength_found (length inspected : ℕ) :
    ∃ length' inspected', opcodeLength bus csBase eip length inspected = found length' inspected' ∧
      inspected' ≤ inspected + 2 := by
  simp only [opcodeLength]
  split_ifs
  all_goals
    refine ⟨_, _, rfl, ?_⟩
    omega

/-- Some byte that the look-ahead reaches is no prefix: of the address space in a code segment of
32 bits, else of the first offset and of the 64 KiB of the segment. -/
def Stops : Prop :=
  if code32bit then ∃ addr, isPrefix (bus.memory (addr &&& 0xFFFFFF)) = false
  else isPrefix (bus.memory (address csBase eip)) = false ∨
    ∃ offset : Word, isPrefix (bus.memory (address csBase (offset.setWidth 32))) = false

/-- The look-ahead ends, with at most 16 Mi bytes and the opcode inspected. -/
def Bounded : Prop :=
  ∃ n length inspected, after bus csBase code32bit eip n = found length inspected ∧
    inspected ≤ 2 ^ 24 + 2

variable {bus csBase code32bit eip}

lemma toNat_and_low (x : Dword) : (x &&& 0xFFFFFF).toNat = x.toNat % 2 ^ 24 :=
  (BitVec.toNat_and x _).trans (Nat.and_two_pow_sub_one_eq_mod x.toNat 24)

lemma add_and_low (x d : Dword) :
    (x + BitVec.ofNat 32 (d.toNat % 2 ^ 24)) &&& 0xFFFFFF = (x + d) &&& 0xFFFFFF := by
  apply BitVec.eq_of_toNat_eq
  rw [toNat_and_low, toNat_and_low, BitVec.toNat_add, BitVec.toNat_add, BitVec.toNat_ofNat]
  omega

lemma Stops.exists (stops : Stops bus csBase code32bit eip) :
    ∃ n < 2 ^ 24, prefixAt bus csBase code32bit eip n = false := by
  unfold Stops at stops
  cases code32bit with
  | true =>
    obtain ⟨addr, ends⟩ := stops
    refine ⟨(addr - (csBase + eip)).toNat % 2 ^ 24, Nat.mod_lt _ (by decide), ?_⟩
    rwa [prefixAt, eipAt_32, address, ← BitVec.add_assoc, add_and_low, BitVec.add_comm _ (addr - _),
      BitVec.sub_add_cancel]
  | false =>
    obtain first | ⟨offset, ends⟩ := stops
    · exact ⟨0, by decide, first⟩
    · have less := (offset - eip.setWidth 16 - 1).isLt
      have last : offset - eip.setWidth 16 - 1 + 1#16 = offset - eip.setWidth 16 :=
        BitVec.sub_add_cancel _ _
      refine ⟨(offset - eip.setWidth 16 - 1).toNat + 1, by omega, ?_⟩
      rwa [prefixAt, eipAt_16, BitVec.ofNat_add, BitVec.ofNat_toNat, BitVec.setWidth_eq, last,
        BitVec.add_comm, BitVec.sub_add_cancel]

lemma stops_of_exists (ends : prefixAt bus csBase code32bit eip n = false) :
    Stops bus csBase code32bit eip := by
  unfold Stops
  cases code32bit with
  | true => exact ⟨_, ends⟩
  | false =>
    cases n with
    | zero => exact .inl ends
    | succ n =>
      rw [prefixAt, eipAt_16] at ends
      exact .inr ⟨_, ends⟩

/-- **The look-ahead is bounded exactly when it reaches a byte that is no prefix.** -/
lemma bounded_iff_stops : Bounded bus csBase code32bit eip ↔ Stops bus csBase code32bit eip := by
  constructor
  · rintro ⟨n, length, inspected, found, -⟩
    by_contra endless
    have all (k : ℕ) : prefixAt bus csBase code32bit eip k :=
      Bool.of_not_eq_false fun ends => endless (stops_of_exists ends)
    simp [after_of_prefixes bus csBase code32bit eip fun k (_ : k < n) => all k] at found
  · intro stops
    obtain ⟨n, less, ends⟩ := stops.exists
    have some : ∃ n, prefixAt bus csBase code32bit eip n = false := ⟨n, ends⟩
    have before := after_of_prefixes bus csBase code32bit eip fun k (less : k < Nat.find some) =>
      Bool.of_not_eq_false (Nat.find_min some less)
    obtain ⟨length, inspected, found, le⟩ := opcodeLength_found bus csBase
      (eipAt code32bit eip (Nat.find some)) (Nat.find some) (Nat.find some + 1)
    have here := Nat.find_spec some
    rw [prefixAt] at here
    refine ⟨Nat.find some + 1, length, inspected, ?_, ?_⟩
    · rw [after_succ, before, step, here]
      exact found
    · have := Nat.find_min' some ends
      omega

end Look

/-! ### Bounded instructions -/

section Bounded

variable (bus : Bus) (cpu : I386)

/-- The look-ahead at the next instruction ends. -/
def LookAheadBounded : Prop :=
  Look.Bounded bus cpu.code.csBase cpu.codeSegment32 cpu.code.effectiveEip

def LookAheadStops : Prop :=
  Look.Stops bus cpu.code.csBase cpu.codeSegment32 cpu.code.effectiveEip

end Bounded

/-- A processor at the start of a flat code segment. -/
def flat : I386 where
  code :=
    { ip := 0, ipUpper := 0, csBase := 0, csLimit := 0xFFFFFFFF, faultPending := false
      prefetchValid := false, prefetchAddr := 0, prefetchByte := 0 }
  codeSegment32 := true
  segPrefix := none
  operandSizeOverride := true
  addressSizeOverride := true
  lockPrefix := false
  ecx := 0
  repActive := false
  repIp := 0
  repIpUpper := 0
  repSegPrefix := none
  repOpcode := 0
  repOperandSizeOverride := false
  repAddressSizeOverride := false

/-- Memory filled with repeat prefixes. -/
def repeats : Bus where
  memory _ := 0xF3
  translateLinear := some

end Neetan.Prefixes
