import Neetan.Dispatch

/-!
The registers that an instruction reads and writes.

Registers are numbered from the base of the running frame. Counted are the accesses an
instruction makes itself, up to the call it may start: the callee's own frame, and the
results it delivers later, are not. The call may be one of an exception handler, which takes the
error of the call or of the file that the instruction was for.
-/

namespace Neetan.Bytecode

inductive Access
  | read (register : ℕ)
  | write (register : ℕ)
  deriving DecidableEq, Repr

def Access.register : Access → ℕ
  | .read register | .write register => register

/-- The operand RK(C), where it is a register. -/
def rkReads (word : Word) : List Access := if word.k then [] else [.read word.c]

def readRange (first count : ℕ) : List Access :=
  (List.range count).map fun offset => .read (first + offset)

def writeRange (first count : ℕ) : List Access :=
  (List.range count).map fun offset => .write (first + offset)

/-- The captures of a closure that are slots of the running frame. -/
def captureReads (captures : List CaptureSource) : List Access :=
  captures.filterMap fun source =>
    match source with
    | .localSlot index => some (.read index.toNat)
    | .capture _ => none

/-- A callee with one argument, placed from `destination` on: a handler and its condition, too. -/
def stageCall (destination : ℕ) : List Access := [.write destination, .write (destination + 1)]

def coldAccesses (handled : Bool) : ColdInstruction → List Access
  | .valueCountError _ _ | .popHandler | .popParameters _ => []
  | .callWithValues destination producer consumer _ =>
    [.read producer.toNat, .read consumer.toNat, .write destination.toNat]
  | .makePromise destination thunk _ => [.read thunk.toNat, .write destination.toNat]
  | .force destination promise _ => [.read promise.toNat, .write destination.toNat]
  | .pushHandler handler => [.read handler.toNat]
  | .raise destination object _ _ => .read object.toNat :: stageCall destination.toNat
  | .captureContinuation destination procedure _ =>
    .read procedure.toNat :: stageCall destination.toNat
  | .dynamicWind destination before thunk after _ =>
    [.read before.toNat, .read thunk.toNat, .read after.toNat, .write destination.toNat]
  | .callWithPort destination port procedure _ =>
    [.read port.toNat, .read procedure.toNat] ++ stageCall destination.toNat
  | .callWithFile destination path procedure _ _ =>
    [.read path.toNat, .read procedure.toNat] ++ stageCall destination.toNat
  | .withFile destination path thunk _ _ =>
    [.read path.toNat, .read thunk.toNat] ++
      if handled then stageCall destination.toNat else [.write destination.toNat]
  | .load _ path environment _ =>
    .read path.toNat :: environment.toList.map fun value => .read value.toNat
  | .pushParameters first count =>
    -- a converter is called from the first of the pairs on
    readRange first.toNat (2 * count.toNat) ++
      if count = 0 then [] else stageCall first.toNat
  | .makeParameter destination initial none => [.read initial.toNat, .write destination.toNat]
  | .makeParameter destination initial (some converter) =>
    [.read initial.toNat, .read converter.toNat] ++ stageCall destination.toNat
  | .makeError destination message firstIrritant count =>
    .read message.toNat :: readRange firstIrritant.toNat count.toNat ++
      [.write destination.toNat]
  | .loadNumber destination => [.write destination.toNat]

/-- The accesses of the instruction `word` at `pc`; `top` is the top of the running frame,
where a `return` without a count ends, and `handled` says that a handler takes the error of the
call that the instruction starts or of the file that it opens: `invoke_error_handler`. -/
def accesses (chunk : Chunk) (pc : ℕ) (word : Word) (top : ℕ) (handled : Bool) :
    Opcode → List Access
  | .move => [.read word.b, .write word.a]
  | .loadK | .loadKx => [.write word.a]
  | .extraArg => []
  | .getGlobal => [.write word.a]
  | .setGlobal => [.read word.a]
  | .getCapture => [.write word.a]
  | .setCapture => [.read word.a]
  | .getCaptureValue => [.write word.a]
  | .getLocalBox => [.read word.b, .write word.a]
  | .setLocalBox => [.read word.b, .read word.a]
  | .boxLocal => [.read word.a, .write word.a]
  | .closure =>
    ((chunk.closures[word.bx]?.map fun prototype =>
      captureReads prototype.captures).getD []) ++ [.write word.a]
  | .caseLambda => readRange word.b word.c ++ [.write word.a]
  | .jump => []
  | .jumpFalse => [.read word.a]
  | .call =>
    .read word.a :: readRange (word.a + 1) (word.b - 1) ++
      if handled then stageCall word.a else [.write word.a]
  | .tailCall =>
    -- the arguments move down to the start of the frame
    .read word.a :: readRange (word.a + 1) (word.b - 1) ++ writeRange 0 (word.b - 1) ++
      if handled then stageCall word.a else []
  | .return => readRange word.a (if word.b = 0 then top - word.a else word.b - 1)
  | .cold => (chunk.cold[word.bx]?.map (coldAccesses handled)).getD []
  | .add | .subtract | .multiply | .divide
  | .numericEqual | .numericLess | .numericLessEqual | .numericGreater
  | .numericGreaterEqual => .read word.b :: rkReads word ++ [.write word.a]
  | .cons => [.read word.b, .read word.c, .write word.a]
  | .car | .cdr | .nullP | .pairP => [.read word.b, .write word.a]
  | .vectorRef => [.read word.b, .read word.c, .write word.a]
  | .vectorSet => [.read word.b, .read word.c, .read (word.c + 1), .write word.a]
  | .stringRef => [.read word.b, .read word.c, .write word.a]
  | .stringLength | .charToInteger => [.read word.b, .write word.a]
  | .testEqual | .testLess | .testLessEqual | .testGreater | .testGreaterEqual =>
    .read word.b :: rkReads word
  | .testNull | .testPair => [.read word.b]
  | .testVectorRef => [.read word.b, .read word.c]
  | .loopBack => [.read word.a, .write word.a]
  | .loopBackWhileNotEqual | .loopBackWhileNotLess | .loopBackWhileNotLessEqual =>
    [.read word.a, .write word.a, .read word.b] ++ rkReads word
  | .loopBackStepWhileLess | .loopBackStepWhileLessEqual =>
    [.read word.a, .read word.b, .write word.a] ++ rkReads word
  | .addVectorRef | .addStringRefCode =>
    [.read word.b, .read word.c, .read word.a, .write word.a]
  | .addCar => [.read word.b, .read word.a, .write word.a]
  | .addMul | .subMul => .read word.b :: rkReads word ++ [.read word.a, .write word.a]
  | .addMulVectorRef =>
    let packed := (fetchWord chunk.code (pc + 1)).axValue
    [.read word.b, .read word.c, .read (packed / 2 ^ 8), .read (packed % 2 ^ 8),
      .read word.a, .write word.a]
  | .vectorRefVectorRef =>
    [.read word.b, .read word.c, .read (fetchWord chunk.code (pc + 1)).axValue, .write word.a]
  | .addFixnumK | .subtractFixnumK => [.read word.b, .write word.a]
  | .addSubFixnumK => [.read word.a, .write word.a]
  | .testLessFixnum | .testLessEqualFixnum | .testEqualFixnum => [.read word.b]
  | .loopBackWhileNotEqualFixnum => [.read word.a, .write word.a, .read word.b]

/-! ### What the verifier leaves open -/

def coldStaysInside (chunk : Chunk) (handled : Bool) : ColdInstruction → Prop
  | .raise destination _ _ _ | .captureContinuation destination _ _
  | .callWithPort destination _ _ _ | .callWithFile destination _ _ _ _
  | .makeParameter destination _ (some _) =>
    destination.toNat + 1 < chunk.maxRegisters.toNat
  | .withFile destination _ _ _ _ =>
    handled = true → destination.toNat + 1 < chunk.maxRegisters.toNat
  | .pushParameters first count =>
    count = 0 ∨ first.toNat + 2 * count.toNat ≤ chunk.maxRegisters.toNat
  | _ => True

/-- The conditions under which an accepted instruction stays in its window. -/
def StaysInside (chunk : Chunk) (word : Word) (top : ℕ) (handled : Bool) : Opcode → Prop
  | .call | .tailCall =>
    (word.b ≤ 1 ∨ word.a + (word.b - 1) < chunk.maxRegisters.toNat) ∧
      (handled = true → word.a + 1 < chunk.maxRegisters.toNat)
  | .return => word.b ≠ 0 ∨ top ≤ word.a ∨ top ≤ chunk.maxRegisters.toNat
  | .vectorRef => word.k = false ∨ word.c < chunk.maxRegisters.toNat
  | .cold => ∀ instruction ∈ chunk.cold[word.bx]?, coldStaysInside chunk handled instruction
  | _ => True

variable {chunk : Chunk} {pc : ℕ} {word : Word} {op : Opcode} {handled : Bool}

/-- All of these accesses are below the number of registers. -/
def Inside (chunk : Chunk) (l : List Access) : Prop :=
  ∀ access ∈ l, access.register < chunk.maxRegisters.toNat

@[simp] lemma inside_nil : Inside chunk [] := fun _ h => by cases h

@[simp] lemma inside_cons {access : Access} {l : List Access} :
    Inside chunk (access :: l) ↔
      access.register < chunk.maxRegisters.toNat ∧ Inside chunk l :=
  List.forall_mem_cons

@[simp] lemma inside_append {l l' : List Access} :
    Inside chunk (l ++ l') ↔ Inside chunk l ∧ Inside chunk l' :=
  List.forall_mem_append

@[simp] lemma register_read {r : ℕ} : (Access.read r).register = r := rfl

@[simp] lemma register_write {r : ℕ} : (Access.write r).register = r := rfl

@[simp] lemma inside_readRange {first count : ℕ} :
    Inside chunk (readRange first count) ↔
      count = 0 ∨ first + count ≤ chunk.maxRegisters.toNat := by
  simp only [Inside, readRange, List.mem_map, List.mem_range]
  constructor
  · intro h
    by_contra hc
    have := h (.read (first + (count - 1))) ⟨count - 1, by omega, rfl⟩
    rw [register_read] at this
    omega
  · rintro h _ ⟨offset, ho, rfl⟩
    rw [register_read]
    omega

@[simp] lemma inside_writeRange {first count : ℕ} :
    Inside chunk (writeRange first count) ↔
      count = 0 ∨ first + count ≤ chunk.maxRegisters.toNat := by
  have h : Inside chunk (writeRange first count) ↔ Inside chunk (readRange first count) := by
    simp [Inside, writeRange, readRange]
  rw [h, inside_readRange]

lemma inside_rkReads (h : registerOrConstant chunk word = .ok ()) :
    Inside chunk (rkReads word) := by
  unfold rkReads
  split_ifs with hk
  · exact inside_nil
  · simpa [registerOrConstant, hk, register] using h

lemma inside_captureReads {captures : List CaptureSource} {child : Chunk}
    (h : verifyCaptures chunk captures child = .ok ()) :
    Inside chunk (captureReads captures) := by
  intro access ha
  obtain ⟨source, hs, he⟩ := List.mem_filterMap.mp ha
  cases source with
  | localSlot index =>
    cases he
    exact verifyCaptures_localSlot h hs
  | capture index => cases he

lemma inside_cold {instruction : ColdInstruction} (h : verifyCold chunk instruction = .ok ()) :
    Inside chunk (coldAccesses handled instruction) ↔
      coldStaysInside chunk handled instruction := by
  cases instruction
  case withFile destination path thunk input expected =>
    cases handled <;>
      simp_all [verifyCold, register, coldAccesses, coldStaysInside, stageCall]
  case makeParameter destination initial converter =>
    cases converter <;>
      simp_all [verifyCold, register, coldAccesses, coldStaysInside, stageCall]
  case pushParameters first count =>
    simp only [verifyCold, registerCount, require_ok] at h
    simp only [coldAccesses, inside_append, inside_readRange, coldStaysInside]
    by_cases hc : count = 0
    · simp [hc]
    · have hpos : count.toNat ≠ 0 := fun h0 => hc (UInt8.toNat_inj.mp (by simpa using h0))
      simp only [hc, if_false, stageCall, inside_cons, register_write, inside_nil, and_true,
        false_or]
      omega
  case load destination path environment expected =>
    cases environment <;>
      simp_all [verifyCold, register, coldAccesses, coldStaysInside]
  case makeError destination message firstIrritant count =>
    simp only [verifyCold, register, registerCount, require_ok, bind_ok, exists_unit] at h
    simp only [coldAccesses, coldStaysInside, inside_append, inside_cons, inside_readRange,
      inside_nil, register_read, register_write, and_true, iff_true]
    omega
  all_goals
    simp_all [verifyCold, register, coldAccesses, coldStaysInside, stageCall]

/-- Calls its register with an argument that is no register of its frame. -/
def callBeyond : Chunk where
  code := [.abc .call 0 2 0 false, .abc .tailCall 0 1 0 false]
  constants := []
  globalOperands := []
  closures := []
  cold := []
  arity := .exact 0
  maxRegisters := 1
  captureKinds := []
  boxedLocals := []

end Neetan.Bytecode
