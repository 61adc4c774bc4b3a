import Neetan.Bytecode

/-!
The bytecode verifier.

Every chunk is checked before it runs: word by word, then its boxed parameters, then the
captures and the chunks of its closures. A chunk that several closures share is checked
once for each of them.
-/

namespace Neetan.Bytecode

open Neetan.MachineInt

/-- The outcome of a check: nothing, or the message of the `InvalidBytecode` error. -/
abbrev Verdict := Except String Unit

def require (p : Prop) [Decidable p] (message : String) : Verdict :=
  if p then pure () else throw message

def okOr {α : Type} (value : Option α) (message : String) : Except String α :=
  match value with
  | some a => pure a
  | none => throw message

/-- One check for every element, in order. -/
def forEach {α : Type} (check : α → Verdict) : List α → Verdict
  | [] => pure ()
  | a :: l => do
    check a
    forEach check l

def Word.opcode (w : Word) : Except String Opcode := okOr w.opcode? "unknown register opcode"

/-! ### Operands -/

def register (chunk : Chunk) (value : ℕ) : Verdict :=
  require (value < chunk.maxRegisters.toNat) "register operand is out of bounds"

def capture (chunk : Chunk) (index : ℕ) (kind : CaptureKind) : Verdict :=
  match chunk.captureKinds[index]? with
  | some actual => require (actual = kind) "capture opcode does not match the slot's kind"
  | none => throw "capture operand is out of bounds"

def registerRange (chunk : Chunk) (first encodedCount : ℕ) : Verdict :=
  require (first + max (encodedCount - 1) 1 ≤ chunk.maxRegisters.toNat)
    "register range is out of bounds"

def registerCount (chunk : Chunk) (first count : ℕ) : Verdict :=
  require (first + count ≤ chunk.maxRegisters.toNat) "register range is out of bounds"

def constant (chunk : Chunk) (index : ℕ) : Verdict :=
  require (index < chunk.constants.length) "constant operand is out of bounds"

def global (chunk : Chunk) (index : ℕ) : Verdict :=
  require (index < chunk.globalOperands.length) "global operand is out of bounds"

def closure (chunk : Chunk) (index : ℕ) : Verdict :=
  require (index < chunk.closures.length) "closure operand is out of bounds"

/-- The operand RK(C). -/
def registerOrConstant (chunk : Chunk) (word : Word) : Verdict :=
  if word.k then constant chunk word.c else register chunk word.c

/-- A constant operand that must hold an inline fixnum. -/
def fixnumConstant (chunk : Chunk) (index : ℕ) (message : String) : Verdict := do
  constant chunk index
  require ((chunk.constants[index]?.bind Value.asFixnum).isSome) message

def jumpTarget (chunk : Chunk) (pc : ℕ) (offset : ℤ) : Verdict := do
  let target ← okOr (checkedAddSigned 64 (pc + 1) offset) "jump target is out of bounds"
  let word ← okOr chunk.code[target]? "jump target is out of bounds"
  let opcode ← word.opcode
  require (opcode ≠ .extraArg) "jump target is out of bounds"

/-- The word behind an instruction, which must have the given opcode. -/
def successor (chunk : Chunk) (pc : ℕ) (opcode : Opcode) (message : String) :
    Except String Word := do
  let word ← okOr chunk.code[pc + 1]? message
  let actual ← word.opcode
  require (actual = opcode) message
  return word

def testSuccessor (chunk : Chunk) (pc : ℕ) : Verdict := do
  let _ ← successor chunk pc .jump "test opcode must be followed by a jump"

def loopBackSuccessor (chunk : Chunk) (pc : ℕ) : Verdict := do
  let _ ← successor chunk pc .jump "loop-back opcode must be followed by a jump"

def polarity (word : Word) : Verdict :=
  require (word.a ≤ 1) "test opcode polarity must be 0 or 1"

/-! ### Cold instructions -/

def verifyCold (chunk : Chunk) : ColdInstruction → Verdict
  | .valueCountError _ _ | .popHandler => pure ()
  | .callWithValues destination producer consumer _ => do
    register chunk destination.toNat
    register chunk producer.toNat
    register chunk consumer.toNat
  | .makePromise destination thunk _ => do
    register chunk destination.toNat
    register chunk thunk.toNat
  | .force destination promise _ => do
    register chunk destination.toNat
    register chunk promise.toNat
  | .pushHandler handler => register chunk handler.toNat
  | .raise destination object _ _ => do
    register chunk destination.toNat
    register chunk object.toNat
  | .captureContinuation destination procedure _ => do
    register chunk destination.toNat
    register chunk procedure.toNat
  | .dynamicWind destination before thunk after _ => do
    register chunk destination.toNat
    register chunk before.toNat
    register chunk thunk.toNat
    register chunk after.toNat
  | .callWithPort destination port procedure _ => do
    register chunk destination.toNat
    register chunk port.toNat
    register chunk procedure.toNat
  | .callWithFile destination path procedure _ _ => do
    register chunk destination.toNat
    register chunk path.toNat
    register chunk procedure.toNat
  | .withFile destination path thunk _ _ => do
    register chunk destination.toNat
    register chunk path.toNat
    register chunk thunk.toNat
  | .load destination path environment _ => do
    register chunk destination.toNat
    register chunk path.toNat
    forEach (fun value : UInt8 => register chunk value.toNat) environment.toList
  | .pushParameters first count => registerCount chunk first.toNat (min (count.toNat * 2) 255)
  | .popParameters _ => pure ()
  | .makeParameter destination initial converter => do
    register chunk destination.toNat
    register chunk initial.toNat
    forEach (fun value : UInt8 => register chunk value.toNat) converter.toList
  | .makeError destination message firstIrritant count => do
    register chunk destination.toNat
    register chunk message.toNat
    registerCount chunk firstIrritant.toNat count.toNat
  | .loadNumber destination => register chunk destination.toNat

/-! ### Words -/

/-- Where an instruction goes on if it does not branch; nothing for one that never does. -/
def fallThrough (opcode : Opcode) (pc : ℕ) : Option ℕ :=
  match opcode with
  | .return | .tailCall | .jump | .loopBack => none
  | .loadKx | .addMulVectorRef | .vectorRefVectorRef
  | .testLess | .testLessEqual | .testEqual | .testGreater | .testGreaterEqual
  | .testNull | .testPair | .testVectorRef
  | .testLessFixnum | .testLessEqualFixnum | .testEqualFixnum
  | .loopBackWhileNotEqual | .loopBackWhileNotEqualFixnum
  | .loopBackWhileNotLess | .loopBackWhileNotLessEqual
  | .loopBackStepWhileLessEqual | .loopBackStepWhileLess => some (pc + 2)
  | .extraArg => none
  | _ => some (pc + 1)

/-- The opcodes whose following word is an `extraArg`. -/
def consumesExtraArg : Opcode → Bool
  | .loadKx | .addMulVectorRef | .vectorRefVectorRef => true
  | _ => false

/-- The operands of one instruction. -/
def verifyOperands (chunk : Chunk) (pc : ℕ) (word : Word) : Opcode → Verdict
  | .move => do
    register chunk word.a
    register chunk word.b
  | .getCapture | .setCapture => do
    register chunk word.a
    capture chunk word.b .cell
  | .getCaptureValue => do
    register chunk word.a
    capture chunk word.b .value
  | .getLocalBox | .setLocalBox => do
    register chunk word.a
    register chunk word.b
  | .boxLocal => register chunk word.a
  | .loadK => do
    register chunk word.a
    constant chunk word.bx
  | .loadKx => do
    register chunk word.a
    let extra ← successor chunk pc .extraArg "LOADKX lacks EXTRAARG"
    constant chunk extra.axValue
  | .extraArg =>
    -- nothing stands before the first word
    let prior := if pc = 0 then none else chunk.code[pc - 1]?
    require (((prior.bind Word.opcode?).map consumesExtraArg).getD false) "orphan EXTRAARG"
  | .getGlobal | .setGlobal => do
    register chunk word.a
    global chunk word.bx
  | .closure => do
    register chunk word.a
    closure chunk word.bx
  | .caseLambda => do
    register chunk word.a
    registerCount chunk word.b word.c
  | .jump => jumpTarget chunk pc word.signedJump
  | .jumpFalse => do
    register chunk word.a
    jumpTarget chunk pc word.sbx
  | .call => do
    registerRange chunk word.a word.b
    require (word.c ≤ 2) "unsupported result-count encoding"
  | .tailCall | .return => registerRange chunk word.a word.b
  | .add | .subtract | .multiply | .divide
  | .numericEqual | .numericLess | .numericGreater | .numericLessEqual | .numericGreaterEqual
  | .vectorRef | .addMul | .subMul => do
    register chunk word.a
    register chunk word.b
    registerOrConstant chunk word
  | .vectorSet => do
    register chunk word.a
    register chunk word.b
    registerCount chunk word.c 2
  | .car | .cdr | .nullP | .pairP | .stringLength | .charToInteger | .addCar => do
    register chunk word.a
    register chunk word.b
  | .cons | .stringRef | .addVectorRef | .addStringRefCode => do
    register chunk word.a
    register chunk word.b
    register chunk word.c
  | .addMulVectorRef => do
    register chunk word.a
    register chunk word.b
    register chunk word.c
    let extra ← successor chunk pc .extraArg "fused vector fetch lacks EXTRAARG"
    require (extra.axValue < 2 ^ 16) "packed register operands exceed two bytes"
    register chunk (extra.axValue / 2 ^ 8)
    register chunk (extra.axValue % 2 ^ 8)
  | .vectorRefVectorRef => do
    register chunk word.a
    register chunk word.b
    register chunk word.c
    let extra ← successor chunk pc .extraArg "fused vector fetch lacks EXTRAARG"
    require (extra.axValue < 2 ^ 8) "packed register operand exceeds one byte"
    register chunk extra.axValue
  | .testLess | .testLessEqual | .testEqual | .testGreater | .testGreaterEqual => do
    polarity word
    register chunk word.b
    registerOrConstant chunk word
    testSuccessor chunk pc
  | .testNull | .testPair => do
    polarity word
    register chunk word.b
    testSuccessor chunk pc
  | .loopBack => do
    register chunk word.a
    loopBackSuccessor chunk pc
  | .loopBackWhileNotEqual | .loopBackWhileNotLess | .loopBackWhileNotLessEqual
  | .loopBackStepWhileLessEqual | .loopBackStepWhileLess => do
    register chunk word.a
    register chunk word.b
    registerOrConstant chunk word
    loopBackSuccessor chunk pc
  | .testLessFixnum | .testLessEqualFixnum | .testEqualFixnum => do
    polarity word
    register chunk word.b
    require word.k "fixnum test requires a constant operand"
    fixnumConstant chunk word.c "fixnum test requires a fixnum constant"
    testSuccessor chunk pc
  | .addFixnumK | .subtractFixnumK => do
    register chunk word.a
    register chunk word.b
    require word.k "fixnum arithmetic requires a constant operand"
    fixnumConstant chunk word.c "fixnum arithmetic requires a fixnum constant"
  | .addSubFixnumK => do
    register chunk word.a
    require word.k "fixnum arithmetic requires a constant operand"
    fixnumConstant chunk word.b "fixnum arithmetic requires a fixnum constant"
    fixnumConstant chunk word.c "fixnum arithmetic requires a fixnum constant"
  | .loopBackWhileNotEqualFixnum => do
    register chunk word.a
    register chunk word.b
    require word.k "fixnum loop-back requires a constant operand"
    fixnumConstant chunk word.c "fixnum loop-back requires a fixnum constant"
    loopBackSuccessor chunk pc
  | .testVectorRef => do
    polarity word
    register chunk word.b
    register chunk word.c
    testSuccessor chunk pc
  | .cold => do
    let instruction ← okOr chunk.cold[word.bx]? "cold operand is out of bounds"
    verifyCold chunk instruction

def verifyWord (chunk : Chunk) (pc : ℕ) (word : Word) : Verdict := do
  let opcode ← word.opcode
  require (∀ target ∈ fallThrough opcode pc, target < chunk.code.length)
    "instruction falls off the end of the chunk"
  verifyOperands chunk pc word opcode

/-! ### Chunks -/

/-- A chunk without the chunks of its closures. -/
def verifyBody (chunk : Chunk) : Verdict := do
  require (chunk.code ≠ [] ∧ chunk.maxRegisters ≠ 0) "empty register chunk"
  require (∀ value ∈ chunk.constants, value.heapRef = none) "constant holds a heap reference"
  forEach (fun entry : Word × ℕ => verifyWord chunk entry.2 entry.1) chunk.code.zipIdx
  forEach (fun index : UInt8 => register chunk index.toNat) chunk.boxedLocals

/-- One capture of a closure of `chunk`, whose own chunk holds it with this kind. -/
def verifyCapture (chunk : Chunk) (childKind : CaptureKind) : CaptureSource → Verdict
  | .localSlot index => register chunk index.toNat
  | .capture index =>
    match chunk.captureKinds[index.toNat]? with
    | some parentKind =>
      require (parentKind = childKind) "capture chain changes the capture's kind"
    | none => throw "capture source is out of bounds"

def verifyCaptures (chunk : Chunk) (captures : List CaptureSource) (child : Chunk) :
    Verdict := do
  require (captures.length = child.captureKinds.length)
    "closure capture count does not match child chunk"
  forEach (fun entry : CaptureSource × CaptureKind => verifyCapture chunk entry.2 entry.1)
    (captures.zip child.captureKinds)

mutual

def verifyChunk : Chunk → Verdict
  | ⟨code, constants, globals, closures, cold, arity, registers, kinds, boxed⟩ => do
    verifyBody ⟨code, constants, globals, closures, cold, arity, registers, kinds, boxed⟩
    verifyPrototypes
      ⟨code, constants, globals, closures, cold, arity, registers, kinds, boxed⟩ closures

def verifyPrototypes (parent : Chunk) : List (ClosurePrototype Chunk) → Verdict
  | [] => pure ()
  | prototype :: rest => do
    verifyPrototype parent prototype
    verifyPrototypes parent rest

def verifyPrototype (parent : Chunk) : ClosurePrototype Chunk → Verdict
  | ⟨child, captures⟩ => do
    verifyCaptures parent captures child
    verifyChunk child

end

/-- The check that `CompiledModule::new` makes of a module's entry chunk. -/
def verify (entry : Chunk) : Verdict := verifyChunk entry

/-- The chunks that the verifier accepts. -/
def Accepted (chunk : Chunk) : Prop := verify chunk = .ok ()

/-! ### What an accepted check says -/

@[simp] lemma require_ok {p : Prop} [Decidable p] {message : String} :
    require p message = .ok () ↔ p := by
  unfold require
  split_ifs with h
  · simp only [h, iff_true]
    rfl
  · simp [h]

@[simp] lemma okOr_ok {α : Type} {value : Option α} {message : String} {a : α} :
    okOr value message = .ok a ↔ value = some a := by
  cases value with
  | none => simp [okOr]
  | some b =>
    change Except.ok b = .ok a ↔ _
    simp

@[simp] lemma bind_ok {α β : Type} {x : Except String α} {f : α → Except String β} {b : β} :
    (x >>= f) = .ok b ↔ ∃ a, x = .ok a ∧ f a = .ok b := by
  cases x with
  | error e =>
    change Except.error e = .ok b ↔ _
    simp
  | ok a =>
    change f a = .ok b ↔ _
    simp

@[simp] lemma exists_unit {p : Unit → Prop} : (∃ u, p u) ↔ p () :=
  ⟨fun ⟨_, h⟩ => h, fun h => ⟨(), h⟩⟩

@[simp] lemma forEach_ok {α : Type} {check : α → Verdict} {l : List α} :
    forEach check l = .ok () ↔ ∀ a ∈ l, check a = .ok () := by
  induction l with
  | nil => simp [forEach, pure, Except.pure]
  | cons a l ih => simp [forEach, ih]

lemma successor_ok {chunk : Chunk} {pc : ℕ} {op : Opcode} {message : String} {word : Word} :
    successor chunk pc op message = .ok word ↔
      chunk.code[pc + 1]? = some word ∧ word.opcode? = some op := by
  simp only [successor, Word.opcode, bind_ok, okOr_ok, require_ok, exists_unit]
  constructor
  · rintro ⟨w, hw, op', ho, rfl, h⟩
    cases h
    exact ⟨hw, ho⟩
  · rintro ⟨hw, ho⟩
    exact ⟨word, hw, op, ho, rfl, rfl⟩

lemma jumpTarget_ok {chunk : Chunk} {pc : ℕ} {offset : ℤ}
    (h : jumpTarget chunk pc offset = .ok ()) :
    ∃ word op, chunk.code[wrappingAddSigned 64 (pc + 1) offset]? = some word ∧
      word.opcode? = some op ∧ op ≠ .extraArg := by
  simp only [jumpTarget, Word.opcode, bind_ok, okOr_ok, require_ok] at h
  obtain ⟨target, ht, word, hw, op, ho, hne⟩ := h
  exact ⟨word, op, by rw [wrappingAddSigned_of_checked ht, hw], ho, hne⟩

lemma verifyPrototypes_ok {parent : Chunk} {closures : List (ClosurePrototype Chunk)}
    (h : verifyPrototypes parent closures = .ok ()) :
    ∀ prototype ∈ closures, Accepted prototype.chunk ∧
      verifyCaptures parent prototype.captures prototype.chunk = .ok () := by
  induction closures with
  | nil => simp
  | cons prototype rest ih =>
    simp only [verifyPrototypes, bind_ok, exists_unit] at h
    intro p hp
    rcases List.mem_cons.mp hp with rfl | hp
    · obtain ⟨child, captures⟩ := p
      simp only [verifyPrototype, bind_ok, exists_unit] at h
      exact ⟨h.1.2, h.1.1⟩
    · exact ih h.2 p hp

/-- A slot of the parent's frame that a closure captures is one of its registers. -/
lemma verifyCaptures_localSlot {parent child : Chunk} {captures : List CaptureSource}
    (h : verifyCaptures parent captures child = .ok ()) {index : UInt8}
    (hm : .localSlot index ∈ captures) : index.toNat < parent.maxRegisters.toNat := by
  simp only [verifyCaptures, bind_ok, require_ok, exists_unit, forEach_ok] at h
  obtain ⟨i, hi, he⟩ := List.getElem_of_mem hm
  have hk : i < child.captureKinds.length := by omega
  have hz : (CaptureSource.localSlot index, child.captureKinds[i]) ∈
      captures.zip child.captureKinds :=
    List.mem_iff_getElem.mpr ⟨i, by rw [List.length_zip]; omega, by simp [he]⟩
  simpa only [verifyCapture, register, require_ok] using h.2 _ hz

variable {chunk : Chunk}

lemma Accepted.body (h : Accepted chunk) : verifyBody chunk = .ok () := by
  obtain ⟨code, constants, globals, closures, cold, arity, registers, kinds, boxed⟩ := chunk
  simp only [Accepted, verify, verifyChunk, bind_ok, exists_unit] at h
  exact h.1

/-- The chunks of the closures of an accepted chunk are accepted, and so are their captures. -/
lemma Accepted.prototype (h : Accepted chunk) {prototype : ClosurePrototype Chunk}
    (hp : prototype ∈ chunk.closures) : Accepted prototype.chunk ∧
      verifyCaptures chunk prototype.captures prototype.chunk = .ok () := by
  obtain ⟨code, constants, globals, closures, cold, arity, registers, kinds, boxed⟩ := chunk
  simp only [Accepted, verify, verifyChunk, bind_ok, exists_unit] at h
  exact verifyPrototypes_ok h.2 prototype hp

lemma Accepted.code_ne_nil (h : Accepted chunk) : chunk.code ≠ [] := by
  have hb := h.body
  simp only [verifyBody, bind_ok, require_ok, exists_unit] at hb
  exact hb.1.1

/-- Every word of an accepted chunk has an opcode, does not fall off the end, and names
operands that exist. -/
lemma Accepted.word (h : Accepted chunk) {pc : ℕ} {word : Word}
    (hw : chunk.code[pc]? = some word) :
    ∃ op, word.opcode? = some op ∧
      (∀ target ∈ fallThrough op pc, target < chunk.code.length) ∧
      verifyOperands chunk pc word op = .ok () := by
  have hb := h.body
  simp only [verifyBody, bind_ok, exists_unit, forEach_ok] at hb
  have hm : (word, pc) ∈ chunk.code.zipIdx := by
    rw [List.mem_iff_getElem?]
    exact ⟨pc, by simp [List.getElem?_zipIdx, hw]⟩
  have hv := hb.2.2.1 (word, pc) hm
  simpa only [verifyWord, Word.opcode, bind_ok, okOr_ok, require_ok, exists_unit] using hv

end Neetan.Bytecode
