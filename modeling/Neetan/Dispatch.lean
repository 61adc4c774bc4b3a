import Neetan.BytecodeVerify

/-!
What the dispatch loop fetches and reads of a chunk, one instruction at a time.

The fetches are unchecked: beyond the end of the code they would read a foreign word. An
instruction with a test goes on in one of two ways; which one is the outcome `taken` of
the test, whatever the registers hold.
-/

namespace Neetan.Bytecode

open Neetan.MachineInt

def fetchWord (code : List Word) (pc : ℕ) : Word := code.getD pc ⟨0⟩

/-- One pass of the dispatch loop: the positions of the words it fetches, the constants
and global operands it reads, and the program counter after it. -/
structure Arm where
  fetched : List ℕ
  constants : List ℕ
  globals : List ℕ
  next : ℕ
  deriving DecidableEq, Repr

/-- The constant index of the operand RK(C), if it is one. -/
def rkConstants (word : Word) : List ℕ := if word.k then [word.c] else []

/-- An instruction of one word that goes on behind it. -/
def straightArm (pc : ℕ) (constants globals : List ℕ) : Arm :=
  ⟨[pc], constants, globals, pc + 1⟩

/-- An instruction that consumes the `jump` behind it and takes it or not. -/
def testArm (chunk : Chunk) (pc : ℕ) (constants : List ℕ) (taken : Bool) : Arm :=
  let jumpWord := fetchWord chunk.code (pc + 1)
  ⟨[pc, pc + 1], constants, [],
    if taken then wrappingAddSigned 64 (pc + 2) jumpWord.signedJump else pc + 2⟩

/-- An instruction that consumes the `extraArg` behind it. -/
def extraArm (pc : ℕ) (constants : List ℕ) : Arm := ⟨[pc, pc + 1], constants, [], pc + 2⟩

/-- The instruction `word` at `pc`. A control transfer leaves the chunk with the program
counter behind it saved in its frame. -/
def arm (chunk : Chunk) (pc : ℕ) (word : Word) (taken : Bool) : Opcode → Arm
  | .loadK => straightArm pc [word.bx] []
  | .loadKx => extraArm pc [(fetchWord chunk.code (pc + 1)).axValue]
  | .getGlobal | .setGlobal => straightArm pc [] [word.bx]
  | .jump => ⟨[pc], [], [], wrappingAddSigned 64 (pc + 1) word.signedJump⟩
  | .jumpFalse =>
    ⟨[pc], [], [], if taken then wrappingAddSigned 64 (pc + 1) word.sbx else pc + 1⟩
  | .add | .subtract | .multiply | .divide
  | .numericEqual | .numericLess | .numericLessEqual | .numericGreater | .numericGreaterEqual
  | .addMul | .subMul => straightArm pc (rkConstants word) []
  | .testEqual | .testLess | .testLessEqual | .testGreater | .testGreaterEqual =>
    testArm chunk pc (rkConstants word) taken
  | .testNull | .testPair | .testVectorRef => testArm chunk pc [] taken
  | .loopBack => testArm chunk pc [] true
  | .loopBackWhileNotEqual | .loopBackWhileNotLess | .loopBackWhileNotLessEqual
  | .loopBackStepWhileLess | .loopBackStepWhileLessEqual =>
    testArm chunk pc (rkConstants word) taken
  | .addMulVectorRef | .vectorRefVectorRef => extraArm pc []
  | .addFixnumK | .subtractFixnumK => straightArm pc [word.c] []
  | .addSubFixnumK => straightArm pc [word.b, word.c] []
  | .testLessFixnum | .testLessEqualFixnum | .testEqualFixnum
  | .loopBackWhileNotEqualFixnum => testArm chunk pc [word.c] taken
  | .move | .extraArg | .getCapture | .setCapture | .getCaptureValue
  | .getLocalBox | .setLocalBox | .boxLocal | .closure | .caseLambda
  | .call | .tailCall | .return | .cold
  | .cons | .car | .cdr | .nullP | .pairP | .vectorRef | .vectorSet
  | .stringRef | .stringLength | .charToInteger
  | .addVectorRef | .addCar | .addStringRefCode => straightArm pc [] []

/-- The opcodes that leave the running chunk, or come back to it, through the frames. -/
def transfers : Opcode → Bool
  | .call | .tailCall | .return | .cold => true
  | _ => false

/-! ### Safe positions -/

/-- A position whose word can be dispatched. -/
def Dispatchable (chunk : Chunk) (pc : ℕ) : Prop :=
  ∃ word op, chunk.code[pc]? = some word ∧ word.opcode? = some op ∧ op ≠ .extraArg

lemma fetchWord_eq {code : List Word} {pc : ℕ} {word : Word} (h : code[pc]? = some word) :
    fetchWord code pc = word := by
  rw [fetchWord, List.getD_eq_getElem?_getD, h, Option.getD_some]

lemma Accepted.consumer_of_extraArg {chunk : Chunk} (h : Accepted chunk) {pc : ℕ} {word : Word}
    (hw : chunk.code[pc]? = some word) (ho : word.opcode? = some .extraArg) :
    ∃ prior op, pc ≠ 0 ∧ chunk.code[pc - 1]? = some prior ∧ prior.opcode? = some op ∧
      consumesExtraArg op = true := by
  obtain ⟨op, ho', -, hv⟩ := h.word hw
  obtain rfl := Option.some.inj (ho.symm.trans ho')
  simp only [verifyOperands, require_ok] at hv
  by_cases hpc : pc = 0
  · simp [hpc] at hv
  · rw [if_neg hpc] at hv
    cases hp : chunk.code[pc - 1]? with
    | none => simp [hp] at hv
    | some prior =>
      cases hop : prior.opcode? with
      | none => simp [hp, hop] at hv
      | some op => exact ⟨prior, op, hpc, rfl, hop, by simpa [hp, hop] using hv⟩

/-- Behind an instruction that consumes no `extraArg` the next one can be dispatched. -/
lemma Accepted.dispatchable_succ {chunk : Chunk} (h : Accepted chunk) {pc : ℕ} {word : Word}
    {op : Opcode} (hw : chunk.code[pc]? = some word) (ho : word.opcode? = some op)
    (hc : consumesExtraArg op = false) (hlt : pc + 1 < chunk.code.length) :
    Dispatchable chunk (pc + 1) := by
  have hn : chunk.code[pc + 1]? = some chunk.code[pc + 1] := List.getElem?_eq_getElem hlt
  obtain ⟨op', ho', -⟩ := h.word hn
  refine ⟨_, op', hn, ho', ?_⟩
  rintro rfl
  obtain ⟨prior, op'', -, hp, hop, hc'⟩ := h.consumer_of_extraArg hn ho'
  rw [Nat.add_sub_cancel, hw] at hp
  cases hp
  rw [ho] at hop
  cases hop
  rw [hc] at hc'
  cases hc'

lemma Accepted.dispatchable_zero {chunk : Chunk} (h : Accepted chunk) :
    Dispatchable chunk 0 := by
  have hlt : 0 < chunk.code.length := List.length_pos_iff.mpr h.code_ne_nil
  have hn : chunk.code[0]? = some chunk.code[0] := List.getElem?_eq_getElem hlt
  obtain ⟨op, ho, -⟩ := h.word hn
  refine ⟨_, op, hn, ho, ?_⟩
  rintro rfl
  obtain ⟨_, _, hne, -⟩ := h.consumer_of_extraArg hn ho
  exact hne rfl

/-! ### Safe passes -/

/-- All that a pass fetches and reads is in the chunk. -/
structure Arm.InBounds (chunk : Chunk) (pass : Arm) : Prop where
  fetched : ∀ pc ∈ pass.fetched, pc < chunk.code.length
  constants : ∀ index ∈ pass.constants, index < chunk.constants.length
  globals : ∀ index ∈ pass.globals, index < chunk.globalOperands.length

variable {chunk : Chunk} {pc : ℕ} {word : Word} {op : Opcode}

variable {constants : List ℕ}

lemma oneWord_inBounds {globals : List ℕ} (next : ℕ) (hw : chunk.code[pc]? = some word)
    (hc : ∀ index ∈ constants, index < chunk.constants.length)
    (hg : ∀ index ∈ globals, index < chunk.globalOperands.length) :
    (⟨[pc], constants, globals, next⟩ : Arm).InBounds chunk :=
  ⟨by simpa using (List.getElem?_eq_some_iff.mp hw).1, hc, hg⟩

lemma rkConstants_lt (h : registerOrConstant chunk word = .ok ()) :
    ∀ index ∈ rkConstants word, index < chunk.constants.length := by
  intro index hi
  unfold rkConstants at hi
  split_ifs at hi with hk
  · rw [List.mem_singleton] at hi
    subst hi
    simpa [registerOrConstant, hk, constant] using h
  · cases hi

lemma fixnumConstant_lt {index : ℕ} {message : String}
    (h : fixnumConstant chunk index message = .ok ()) : index < chunk.constants.length := by
  simp only [fixnumConstant, constant, bind_ok, require_ok, exists_unit] at h
  exact h.1

lemma Accepted.testArm_safe (h : Accepted chunk) {message : String} {jumpWord : Word} {taken : Bool}
    (hs : successor chunk pc .jump message = .ok jumpWord)
    (hf : taken = false → pc + 2 < chunk.code.length)
    (hc : ∀ index ∈ constants, index < chunk.constants.length) :
    (testArm chunk pc constants taken).InBounds chunk ∧
      Dispatchable chunk (testArm chunk pc constants taken).next := by
  obtain ⟨hn, hj⟩ := successor_ok.mp hs
  have hlt := (List.getElem?_eq_some_iff.mp hn).1
  refine ⟨⟨?_, hc, by simp [testArm]⟩, ?_⟩
  · intro q hq
    simp only [testArm, List.mem_cons, List.not_mem_nil, or_false] at hq
    omega
  · obtain ⟨op, ho, -, hv⟩ := h.word hn
    obtain rfl := Option.some.inj (hj.symm.trans ho)
    cases taken with
    | true =>
      simp only [testArm, if_true, fetchWord_eq hn]
      exact jumpTarget_ok hv
    | false =>
      exact h.dispatchable_succ hn hj rfl (hf rfl)

/-- A consumed `extraArg` is in the chunk, and the word behind it can be dispatched. -/
lemma Accepted.extraArm_safe (h : Accepted chunk) {message : String} {extra : Word}
    (hs : successor chunk pc .extraArg message = .ok extra) (hf : pc + 2 < chunk.code.length)
    (hc : ∀ index ∈ constants, index < chunk.constants.length) :
    (extraArm pc constants).InBounds chunk ∧
      Dispatchable chunk (extraArm pc constants).next := by
  obtain ⟨hn, hx⟩ := successor_ok.mp hs
  refine ⟨⟨?_, hc, by simp [extraArm]⟩, h.dispatchable_succ hn hx rfl hf⟩
  intro q hq
  simp only [extraArm, List.mem_cons, List.not_mem_nil, or_false] at hq
  omega

/-- A straight instruction stays in the chunk and goes on where dispatch can. -/
lemma Accepted.straightArm_safe (h : Accepted chunk) {globals : List ℕ}
    (hw : chunk.code[pc]? = some word) (ho : word.opcode? = some op)
    (hf : fallThrough op pc = some (pc + 1)) (hx : consumesExtraArg op = false)
    (hc : ∀ index ∈ constants, index < chunk.constants.length)
    (hg : ∀ index ∈ globals, index < chunk.globalOperands.length) :
    (straightArm pc constants globals).InBounds chunk ∧
      Dispatchable chunk (straightArm pc constants globals).next := by
  obtain ⟨op', ho', hlt, -⟩ := h.word hw
  obtain rfl := Option.some.inj (ho.symm.trans ho')
  exact ⟨oneWord_inBounds _ hw hc hg, h.dispatchable_succ hw ho hx (hlt _ (by rw [hf]; rfl))⟩

/-- The opcodes behind which the running frame does not go on. -/
def leaves : Opcode → Bool
  | .return | .tailCall => true
  | _ => false

/-- **A pass over an instruction of accepted code stays in the chunk**, and goes on where
the next pass can, unless it leaves the frame. -/
theorem Accepted.arm_safe (h : Accepted chunk) (hw : chunk.code[pc]? = some word)
    (ho : word.opcode? = some op) (hx : op ≠ .extraArg) (taken : Bool) :
    (arm chunk pc word taken op).InBounds chunk ∧
      (leaves op = false → Dispatchable chunk (arm chunk pc word taken op).next) := by
  obtain ⟨op', ho', hlt, hv⟩ := h.word hw
  obtain rfl := Option.some.inj (ho.symm.trans ho')
  have hnil : ∀ index ∈ ([] : List ℕ), index < chunk.constants.length := by simp
  have hnil' : ∀ index ∈ ([] : List ℕ), index < chunk.globalOperands.length := by simp
  have straight : ∀ {constants : List ℕ}, fallThrough op pc = some (pc + 1) →
      consumesExtraArg op = false → (∀ index ∈ constants, index < chunk.constants.length) →
      (straightArm pc constants []).InBounds chunk ∧
        (leaves op = false → Dispatchable chunk (straightArm pc constants []).next) :=
    fun hf hc hi => (h.straightArm_safe hw ho hf hc hi hnil').imp id fun hd _ => hd
  have test : ∀ {message : String} {jumpWord : Word} {constants : List ℕ} {taken : Bool},
      successor chunk pc .jump message = .ok jumpWord →
      (taken = false → fallThrough op pc = some (pc + 2)) →
      (∀ index ∈ constants, index < chunk.constants.length) →
      (testArm chunk pc constants taken).InBounds chunk ∧
        (leaves op = false → Dispatchable chunk (testArm chunk pc constants taken).next) :=
    fun hs hf hi =>
      (h.testArm_safe hs (fun ht => hlt _ (by rw [hf ht]; rfl)) hi).imp id fun hd _ => hd
  have extra : ∀ {message : String} {word' : Word} {constants : List ℕ},
      successor chunk pc .extraArg message = .ok word' →
      fallThrough op pc = some (pc + 2) →
      (∀ index ∈ constants, index < chunk.constants.length) →
      (extraArm pc constants).InBounds chunk ∧
        (leaves op = false → Dispatchable chunk (extraArm pc constants).next) :=
    fun hs hf hi => (h.extraArm_safe hs (hlt _ (by rw [hf]; rfl)) hi).imp id fun hd _ => hd
  cases op
  case extraArg => exact absurd rfl hx
  case «return» | tailCall => exact ⟨oneWord_inBounds _ hw hnil hnil', fun hl => by cases hl⟩
  case loadK =>
    simp only [verifyOperands, constant, bind_ok, require_ok, exists_unit] at hv
    exact straight rfl rfl (by simpa using hv.2)
  case loadKx =>
    simp only [verifyOperands, constant, bind_ok, require_ok, exists_unit] at hv
    obtain ⟨-, word', hs, hi⟩ := hv
    refine extra hs rfl ?_
    rw [fetchWord_eq (successor_ok.mp hs).1]
    simpa using hi
  case getGlobal | setGlobal =>
    simp only [verifyOperands, global, bind_ok, require_ok, exists_unit] at hv
    exact (h.straightArm_safe hw ho rfl rfl hnil (by simpa using hv.2)).imp id fun hd _ => hd
  case jump =>
    refine ⟨oneWord_inBounds _ hw hnil hnil', fun _ => ?_⟩
    exact jumpTarget_ok hv
  case jumpFalse =>
    simp only [verifyOperands, bind_ok, exists_unit] at hv
    refine ⟨oneWord_inBounds _ hw hnil hnil', fun _ => ?_⟩
    cases taken with
    | true => exact jumpTarget_ok hv.2
    | false => exact h.dispatchable_succ hw ho rfl (hlt _ rfl)
  case add | subtract | multiply | divide | numericEqual | numericLess | numericLessEqual
      | numericGreater | numericGreaterEqual | addMul | subMul =>
    simp only [verifyOperands, bind_ok, exists_unit] at hv
    exact straight rfl rfl (rkConstants_lt hv.2.2)
  case testEqual | testLess | testLessEqual | testGreater | testGreaterEqual =>
    simp only [verifyOperands, testSuccessor, bind_ok, exists_unit] at hv
    obtain ⟨-, -, hrk, word', hs, -⟩ := hv
    exact test hs (fun _ => rfl) (rkConstants_lt hrk)
  case testNull | testPair =>
    simp only [verifyOperands, testSuccessor, bind_ok, exists_unit] at hv
    obtain ⟨-, -, word', hs, -⟩ := hv
    exact test hs (fun _ => rfl) hnil
  case testVectorRef =>
    simp only [verifyOperands, testSuccessor, bind_ok, exists_unit] at hv
    obtain ⟨-, -, -, word', hs, -⟩ := hv
    exact test hs (fun _ => rfl) hnil
  case loopBack =>
    simp only [verifyOperands, loopBackSuccessor, bind_ok, exists_unit] at hv
    obtain ⟨-, word', hs, -⟩ := hv
    exact test hs (fun ht => by cases ht) hnil
  case loopBackWhileNotEqual | loopBackWhileNotLess | loopBackWhileNotLessEqual
      | loopBackStepWhileLess | loopBackStepWhileLessEqual =>
    simp only [verifyOperands, loopBackSuccessor, bind_ok, exists_unit] at hv
    obtain ⟨-, -, hrk, word', hs, -⟩ := hv
    exact test hs (fun _ => rfl) (rkConstants_lt hrk)
  case addMulVectorRef | vectorRefVectorRef =>
    simp only [verifyOperands, bind_ok, exists_unit] at hv
    obtain ⟨-, -, -, word', hs, -⟩ := hv
    exact extra hs rfl hnil
  case addFixnumK | subtractFixnumK =>
    simp only [verifyOperands, bind_ok, exists_unit] at hv
    exact straight rfl rfl (by simpa using fixnumConstant_lt hv.2.2.2)
  case addSubFixnumK =>
    simp only [verifyOperands, bind_ok, exists_unit] at hv
    exact straight rfl rfl
      (by simpa using ⟨fixnumConstant_lt hv.2.2.1, fixnumConstant_lt hv.2.2.2⟩)
  case testLessFixnum | testLessEqualFixnum | testEqualFixnum =>
    simp only [verifyOperands, testSuccessor, bind_ok, exists_unit] at hv
    obtain ⟨-, -, -, hk, word', hs, -⟩ := hv
    exact test hs (fun _ => rfl) (by simpa using fixnumConstant_lt hk)
  case loopBackWhileNotEqualFixnum =>
    simp only [verifyOperands, loopBackSuccessor, bind_ok, exists_unit] at hv
    obtain ⟨-, -, -, hk, word', hs, -⟩ := hv
    exact test hs (fun _ => rfl) (by simpa using fixnumConstant_lt hk)
  all_goals exact straight rfl rfl hnil

end Neetan.Bytecode
