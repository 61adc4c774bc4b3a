import Neetan.NumberNatives
import Neetan.NumericArms

/-!
Fused instructions and the sequences of simple instructions they replace.

Each fused arm computes what the simple arms compute in order, through the same natives. From
this a pass over the fused word and a run of the sequence come to the same registers, up to
the scratch registers of the sequence, the same store, and the same place in the code. The base
library's sums and differences stand in the engine, and numbers are in normal form.
-/

namespace Neetan.Primitive

open Neetan.Bytecode Neetan.Gc Neetan.MachineInt Neetan.NumericTower

variable (engine : Engine)

/-! ### Steps with a fixnum constant -/

variable {constants : List Value} {code rest : List Word} {word : Word} {value : Value}
  {op : Opcode} {m : Machine} {a c b : ℕ}

lemma numericFixnumK_eq (h : op = .add ∨ op = .subtract) (left : Value) (constant : Int64) :
    numericFixnumK engine op left constant = numeric engine op left (.fixnum constant) := by
  rw [numeric_eq_slow]
  unfold numericFixnumK
  cases left with
  | fixnum value =>
    rcases h with rfl | rfl
    · simp only [Value.asFixnum, Option.bind_some, if_true]
      cases hc : checkedFixnum (value.toInt + constant.toInt) with
      | none => rfl
      | some sum =>
        have hr : registerNumeric .add (.fixnum value) (.fixnum constant) = _ :=
          registerNumeric_arithmetic rfl (.fixnum value) (.fixnum constant)
        simp [numericSlow, hr, immediateArithmetic, fixnumArithmetic, hc]
    · simp only [Value.asFixnum, Option.bind_some, reduceCtorEq, if_false]
      cases hc : checkedFixnum (value.toInt - constant.toInt) with
      | none => rfl
      | some difference =>
        have hr : registerNumeric .subtract (.fixnum value) (.fixnum constant) = _ :=
          registerNumeric_arithmetic rfl (.fixnum value) (.fixnum constant)
        simp [numericSlow, hr, immediateArithmetic, fixnumArithmetic, hc]
  | _ => rfl

lemma testFixnum_eq (h : op = .numericEqual ∨ op = .numericLess ∨ op = .numericLessEqual)
    (left : Value) (constant : Int64) :
    testFixnum engine op left constant = (do
      let truth ← numeric engine op left (.fixnum constant)
      pure (isTrue truth)) := by
  cases left with
  | fixnum value =>
    rcases h with rfl | rfl | rfl <;>
      simp [testFixnum, Value.asFixnum, numeric, numericFast, isTrue]
  | _ => simp [testFixnum, Value.asFixnum, numeric_eq_slow]

lemma stepCounter_eq (counter : Value) (constant : Int64) :
    stepCounter engine counter constant = numeric engine .add counter (.fixnum constant) := by
  rw [← numericFixnumK_eq engine (.inl rfl)]
  unfold stepCounter numericFixnumK
  rw [numericSlow_eq_operation engine rfl]
  simp

lemma toInt_ofInt_of_checked {v sum : ℤ} (h : checked 64 v = some sum) :
    (Int64.ofInt sum).toInt = sum := by
  obtain ⟨⟨hl, hu⟩, rfl⟩ := checked_eq_some.mp h
  exact Int64.toInt_ofInt_of_le (by simpa using hl) (by simpa using hu)

lemma addSubFixnumK_eq (value : Value) (add subtract : Int64) :
    addSubFixnumK engine value add subtract = (do
      let sum ← numeric engine .add value (.fixnum add)
      numeric engine .subtract sum (.fixnum subtract)) := by
  rw [← numericFixnumK_eq engine (.inl rfl)]
  simp only [← numericFixnumK_eq engine (.inr rfl : Opcode.subtract = .add ∨ _)]
  unfold addSubFixnumK
  cases value with
  | fixnum current =>
    cases hc : checked 64 (current.toInt + add.toInt) with
    | none => simp [Value.asFixnum, hc]
    | some sum =>
      have hs := toInt_ofInt_of_checked hc
      have hf : checkedFixnum (current.toInt + add.toInt) = some (.fixnum (Int64.ofInt sum)) := by
        simp [checkedFixnum, hc]
      cases hd : checkedFixnum (sum - subtract.toInt) with
      | none => simp [Value.asFixnum, hc, hd]
      | some difference => simp [Value.asFixnum, hc, hd, numericFixnumK, hf, hs]
  | _ => simp [Value.asFixnum]

/-! ### Chains -/

lemma floatChain_eq_some {step : Opcode} {left right accumulator : Value}
    (h : floatChain step left right accumulator = some value) :
    ∃ l r acc, left = .float l ∧ right = .float r ∧ accumulator = .float acc ∧
      value = .float (if step = .add then acc + l * r else acc - l * r) := by
  unfold floatChain at h
  split at h
  case h_1 l r acc => exact ⟨l, r, acc, rfl, rfl, rfl, (Option.some.inj h).symm⟩
  case h_2 => cases h

lemma fixnumChain_eq_some {step : Opcode} {left right accumulator : Value}
    (h : fixnumChain step left right accumulator = some value) :
    ∃ l r acc product, left = .fixnum l ∧ right = .fixnum r ∧ accumulator = .fixnum acc ∧
      checked 64 (l.toInt * r.toInt) = some product ∧
      checkedFixnum (if step = .add then acc.toInt + product else acc.toInt - product) =
        some value := by
  unfold fixnumChain at h
  split at h
  case h_1 l r acc =>
    obtain ⟨product, hp, hc⟩ := Option.bind_eq_some_iff.mp h
    exact ⟨l, r, acc, product, rfl, rfl, rfl, hp, hc⟩
  case h_2 => cases h

lemma fusedMulStep_eq {step : Opcode} (h : step = .add ∨ step = .subtract)
    (left right accumulator : Value) :
    fusedMulStep engine step left right accumulator = (do
      let product ← numeric engine .multiply left right
      numeric engine step accumulator product) := by
  unfold fusedMulStep
  cases hc : floatChain step left right accumulator with
  | none => rfl
  | some value =>
    obtain ⟨l, r, acc, rfl, rfl, rfl, rfl⟩ := floatChain_eq_some hc
    rcases h with rfl | rfl <;>
      simp [numeric, numericFast, f64Numeric, isComparison, floatArithmetic]

lemma numericFast_of_fixnumChain {step : Opcode} (h : step = .add ∨ step = .subtract)
    {l r acc : Int64} {product : ℤ} (hp : checked 64 (l.toInt * r.toInt) = some product)
    (hc : checkedFixnum (if step = .add then acc.toInt + product else acc.toInt - product) =
      some value) :
    numericFast .multiply (.fixnum l) (.fixnum r) = some (.fixnum (Int64.ofInt product)) ∧
      numericFast step (.fixnum acc) (.fixnum (Int64.ofInt product)) = some value := by
  have ht := toInt_ofInt_of_checked hp
  refine ⟨by simp [numericFast, fixnumArithmetic, checkedFixnum, hp], ?_⟩
  rcases h with rfl | rfl <;>
    simpa [numericFast, fixnumArithmetic, ht, -Int64.toInt_ofInt] using hc

lemma mulArm_eq {step : Opcode} (h : step = .add ∨ step = .subtract)
    (left right accumulator : Value) :
    mulArm engine step left right accumulator = (do
      let product ← numeric engine .multiply left right
      numeric engine step accumulator product) := by
  rw [← fusedMulStep_eq engine h]
  unfold mulArm
  cases hf : floatChain step left right accumulator with
  | some value => simp [fusedMulStep, hf]
  | none =>
    cases hc : fixnumChain step left right accumulator with
    | none => rfl
    | some value =>
      rw [fusedMulStep_eq engine h]
      obtain ⟨l, r, acc, product, rfl, rfl, rfl, hp, hc⟩ := fixnumChain_eq_some hc
      obtain ⟨hm, hs⟩ := numericFast_of_fixnumChain h hp hc
      simp [numeric, hm, hs]

lemma addMulInline_eq {accumulator first second : Value}
    (h : addMulInline accumulator first second = some value) :
    fusedMulStep engine .add first second accumulator = pure value := by
  unfold addMulInline at h
  cases hf : floatChain .add first second accumulator with
  | some chained =>
    rw [hf] at h
    have hv : chained = value := by simpa using h
    simp [fusedMulStep, hf, hv]
  | none =>
    rw [hf] at h
    have hb : (numericFast .multiply first second).bind (numericFast .add accumulator) =
        some value := by simpa using h
    obtain ⟨product, hp, hs⟩ := Option.bind_eq_some_iff.mp hb
    simp [fusedMulStep, hf, numeric, hp, hs]

/-! ### Fetches -/

lemma fetchVectorElement_hit {vector index : Value} {store : Store}
    (h : (asIndex index).bind (store.heap.vectorRef vector) = some value) :
    fetchVectorElement engine vector index store = .ok (value, store) := by
  unfold fetchVectorElement
  rw [get_bind, h]
  rfl

lemma addMulVectorRef_eq (accumulator vector index vector2 index2 : Value) :
    addMulVectorRef engine accumulator vector index vector2 index2 = (do
      let first ← fetchVectorElement engine vector index
      let second ← fetchVectorElement engine vector2 index2
      let product ← numeric engine .multiply first second
      numeric engine .add accumulator product) := by
  simp only [← fusedMulStep_eq engine (.inl rfl)]
  funext store
  unfold addMulVectorRef
  rw [get_bind]
  generalize h : ((asIndex index).bind fun i => (asIndex index2).bind fun j =>
    (store.heap.vectorRef vector i).bind fun first =>
      (store.heap.vectorRef vector2 j).bind (addMulInline accumulator first)) = value
  cases value with
  | some value =>
    -- both elements are there and the product and the sum are inline
    obtain ⟨i, hi, h⟩ := Option.bind_eq_some_iff.mp h
    obtain ⟨j, hj, h⟩ := Option.bind_eq_some_iff.mp h
    obtain ⟨first, hf, h⟩ := Option.bind_eq_some_iff.mp h
    obtain ⟨second, hs, h⟩ := Option.bind_eq_some_iff.mp h
    have hfirst : (asIndex index).bind (store.heap.vectorRef vector) = some first := by
      simp [hi, hf]
    have hsecond : (asIndex index2).bind (store.heap.vectorRef vector2) = some second := by
      simp [hj, hs]
    rw [bind_ok (fetchVectorElement_hit engine hfirst),
      bind_ok (fetchVectorElement_hit engine hsecond), addMulInline_eq engine h]
  | none => rfl

lemma vectorRefVectorRef_eq (vector index outerIndex : Value) :
    vectorRefVectorRef engine vector index outerIndex = (do
      let inner ← fetchVectorElement engine vector index
      fetchVectorElement engine inner outerIndex) := by
  funext store
  unfold vectorRefVectorRef
  rw [get_bind]
  generalize h : ((asIndex index).bind fun i => (asIndex outerIndex).bind fun j =>
    (store.heap.vectorRef vector i).bind fun row => store.heap.vectorRef row j) = value
  cases value with
  | some value =>
    obtain ⟨i, hi, h⟩ := Option.bind_eq_some_iff.mp h
    obtain ⟨j, hj, h⟩ := Option.bind_eq_some_iff.mp h
    obtain ⟨row, hr, h⟩ := Option.bind_eq_some_iff.mp h
    have hrow : (asIndex index).bind (store.heap.vectorRef vector) = some row := by simp [hi, hr]
    have helement : (asIndex outerIndex).bind (store.heap.vectorRef row) = some value := by
      simp [hj, h]
    rw [bind_ok (fetchVectorElement_hit engine hrow), fetchVectorElement_hit engine helement]
    rfl
  | none => rfl

lemma addStringRefCode_eq (accumulator string index : Value) :
    addStringRefCode engine accumulator string index = (do
      let character ← fetchCharacter engine string index
      let code ← charToInteger engine character
      numeric engine .add accumulator code) := by
  funext store
  unfold addStringRefCode fetchCharacter
  simp only [bind_assoc]
  rw [get_bind, get_bind]
  cases (asIndex index).bind (store.heap.stringRef string) with
  | some character => simp [charToInteger, characterCode]
  | none =>
    refine congrFun (congrArg (invokeRegisterOperation engine .stringRef [string, index] >>= ·)
      (funext fun character => ?_)) store
    cases character <;> simp [charToInteger, characterCode]

/-! ### What replaces what -/

/-- The fields of an instruction word. -/
structure Has (word : Word) (op : Opcode) (a b c : ℕ) (k : Bool) : Prop where
  opcode : opcodeVerified word = op
  a : word.a = a
  b : word.b = b
  c : word.c = c
  k : word.k = k

/-- A word that loads a constant into register `a`. -/
structure Loads (constants : List Value) (word : Word) (a : ℕ) (value : Value) : Prop where
  opcode : opcodeVerified word = .loadK
  a : word.a = a
  value : constants[word.bx]? = some value

/-- The step of a fused multiply. -/
inductive MulSteps : Opcode → Opcode → Prop
  | add : MulSteps .addMul .add
  | subtract : MulSteps .subMul .subtract

/-- The arithmetic of an instruction with a fixnum constant. -/
inductive FixnumSteps : Opcode → Opcode → Prop
  | add : FixnumSteps .addFixnumK .add
  | subtract : FixnumSteps .subtractFixnumK .subtract

/-- The fused words on the left replace the words in the middle, which use the scratch
registers on the right. -/
inductive Replaces (constants : List Value) : List Word → List Word → List ℕ → Prop
  | addVectorRef {w u s : Word} {a b c t : ℕ} :
    Has w .addVectorRef a b c false →
    Has u .vectorRef t b c false → Has s .add a a t false → t ≠ a →
    Replaces constants [w] [u, s] [t]
  | addCar {w u s : Word} {a b t : ℕ} :
    Has w .addCar a b 0 false →
    Has u .car t b 0 false → Has s .add a a t false → t ≠ a →
    Replaces constants [w] [u, s] [t]
  | addStringRefCode {w u v s : Word} {a b c t t' : ℕ} :
    Has w .addStringRefCode a b c false →
    Has u .stringRef t b c false → Has v .charToInteger t' t 0 false →
    Has s .add a a t' false → t ≠ a → t' ≠ a →
    Replaces constants [w] [u, v, s] [t, t']
  | mul {w u s : Word} {op step : Opcode} {a b c t : ℕ} {k : Bool} :
    MulSteps op step → Has w op a b c k →
    Has u .multiply t b c k → Has s step a a t false → t ≠ a →
    Replaces constants [w] [u, s] [t]
  | addMulVectorRef {w x u v p s : Word} {a b c b' c' t t' t'' : ℕ} :
    Has w .addMulVectorRef a b c false → x.axValue = b' * 2 ^ 8 + c' → c' < 2 ^ 8 →
    Has u .vectorRef t b c false → Has v .vectorRef t' b' c' false →
    Has p .multiply t'' t t' false → Has s .add a a t'' false →
    t ≠ a → t' ≠ a → t'' ≠ a → t ≠ b' → t ≠ c' → t ≠ t' →
    Replaces constants [w, x] [u, v, p, s] [t, t', t'']
  | vectorRefVectorRef {w x u v : Word} {a b c j t : ℕ} :
    Has w .vectorRefVectorRef a b c false → x.axValue = j →
    Has u .vectorRef t b c false → Has v .vectorRef a t j false → t ≠ j →
    Replaces constants [w, x] [u, v] [t]
  | fixnumK {w s : Word} {op step : Opcode} {a b c : ℕ} {n : Int64} :
    FixnumSteps op step → Has w op a b c true → constants[c]? = some (.fixnum n) →
    Has s step a b c true → Replaces constants [w] [s] []
  | addSubFixnumK {w u s : Word} {a b c t : ℕ} {n n' : Int64} :
    Has w .addSubFixnumK a b c true →
    constants[b]? = some (.fixnum n) → constants[c]? = some (.fixnum n') →
    Has u .add t a b true → Has s .subtract a t c true →
    Replaces constants [w] [u, s] [t]
  | addSubFixnumKLeft {w l u s : Word} {a b c t t' : ℕ} {n n' : Int64} :
    Has w .addSubFixnumK a b c true →
    constants[b]? = some (.fixnum n) → constants[c]? = some (.fixnum n') →
    Loads constants l t (.fixnum n) → Has u .add t' t a false → Has s .subtract a t' c true →
    t ≠ a → Replaces constants [w] [l, u, s] [t, t']
  | test {w s j : Word} {op op' cmp : Opcode} {a b c : ℕ} {n : Int64} :
    comparisonOf op = some (cmp, true) → comparisonOf op' = some (cmp, false) →
    Has w op a b c true → constants[c]? = some (.fixnum n) → Has s op' a b c true →
    Replaces constants [w, j] [s, j] []

/-- The base library stands in the engine, and every number is in normal form. -/
structure Sound (m : Machine) : Prop where
  sums : Sums engine m.store.heap
  normal : ∀ i, NormalValue m.store.heap (m.registers i)

/-- Two outcomes agree: the same error and store, or the same store, the same registers but
for the scratch registers, and program counters at the same distance from the ends of two
sequences of `len` and `len'` words with one beginning. -/
inductive Agrees (scratch : List ℕ) (len len' : ℕ) : Outcome → Outcome → Prop
  | raised (failure : Error × Store) : Agrees scratch len len' (.error failure) (.error failure)
  | done {m m' : Machine} : m.pc + len' = m'.pc + len → m.store = m'.store →
    (∀ i, i ∉ scratch → m.registers i = m'.registers i) →
    Agrees scratch len len' (.ok m) (.ok m')

/-! ### Straight-line code -/

/-- What a sequence of computing instructions does to the registers. -/
def chain (constants : List Value) : List Word → Registers → Eval Registers
  | [], r => pure r
  | word :: words, r => do
    let value ← straightValue engine constants word r
    chain constants words (Function.update r word.a value)

lemma fetchWord_of_drop {pc : ℕ} (h : code.drop pc = word :: rest) : fetchWord code pc = word := by
  have hg : code[pc]? = some word := by
    rw [← List.head?_drop, h]
    rfl
  simp [fetchWord, List.getD_eq_getElem?_getD, hg]

lemma drop_succ_of_drop {pc : ℕ} (h : code.drop pc = word :: rest) : code.drop (pc + 1) = rest := by
  rw [← List.drop_drop, h]
  rfl

lemma step_straight (h : isStraight (opcodeVerified (fetchWord code m.pc)) = true) :
    step engine constants code m =
      some (finish m (fetchWord code m.pc).a (m.pc + 1)
        (straightValue engine constants (fetchWord code m.pc) m.registers)) := by
  simp [step, h]

lemma run_chain :
    ∀ {words : List Word} {m : Machine},
      (∀ word ∈ words, isStraight (opcodeVerified word) = true) →
      code.drop m.pc = words ++ rest →
      run engine constants code words.length m =
        some (match chain engine constants words m.registers m.store with
          | .ok (registers, store) => .ok ⟨m.pc + words.length, registers, store⟩
          | .error failure => .error failure)
  | [], m, _, _ => rfl
  | word :: words, m, hs, hd => by
    have hw := fetchWord_of_drop hd
    have hstep : step engine constants code m = _ := step_straight engine
      (by rw [hw]; exact hs word (by simp))
    rw [hw] at hstep
    simp only [List.length_cons, run, hstep, finish]
    cases hv : straightValue engine constants word m.registers m.store with
    | error failure =>
      simp only [chain]
      rw [bind_error hv]
    | ok result =>
      let next : Machine := ⟨m.pc + 1, Function.update m.registers word.a result.1, result.2⟩
      have hrest : run engine constants code words.length next = _ := run_chain
        (fun w hw => hs w (by simp [hw])) (drop_succ_of_drop hd)
      simp only [chain]
      rw [bind_ok hv]
      refine Eq.trans hrest ?_
      simp only [next, Nat.add_assoc, Nat.add_comm 1]

lemma chain_frame :
    ∀ {words : List Word} {r r' : Registers} {store store' : Store},
      chain engine constants words r store = .ok (r', store') →
      ∀ i, (∀ word ∈ words, word.a ≠ i) → r' i = r i
  | [], r, r', store, store', h, i, _ => by
    cases h
    rfl
  | word :: words, r, r', store, store', h, i, hi => by
    cases hv : straightValue engine constants word r store with
    | error failure =>
      rw [chain, bind_error hv] at h
      cases h
    | ok result =>
      rw [chain, bind_ok hv] at h
      rw [chain_frame h i (fun w hw => hi w (by simp [hw])),
        Function.update_of_ne (Ne.symm (hi word (by simp)))]

lemma agrees_of_chain {simple : List Word} {scratch : List ℕ} {len : ℕ} {value : Eval Value}
    (h : value m.store = (do
      let r ← chain engine constants simple m.registers
      pure (r a) : Eval Value) m.store) (hw : ∀ word ∈ simple, word.a = a ∨ word.a ∈ scratch) :
    Agrees scratch len simple.length (finish m a (m.pc + len) value)
      (match chain engine constants simple m.registers m.store with
        | .ok (registers, store) => .ok ⟨m.pc + simple.length, registers, store⟩
        | .error failure => .error failure) := by
  unfold finish
  rw [h]
  cases hc : chain engine constants simple m.registers m.store with
  | error failure =>
    rw [bind_error hc]
    exact .raised failure
  | ok result =>
    rw [bind_ok hc]
    refine .done (by simp only; omega) rfl fun i hi => ?_
    by_cases hia : i = a
    · subst hia
      simp
    · have hframe := chain_frame engine hc i fun word hword heq =>
        (hw word hword).elim (fun ha => hia (heq.symm.trans ha)) fun hs => hi (heq ▸ hs)
      simp [Function.update_of_ne hia, hframe]

/-! ### The straight-line forms -/

lemma straightValue_numeric (hop : opcodeVerified word = op) (hn : isNumeric op = true)
    (r : Registers) :
    straightValue engine constants word r =
      numeric engine op (r word.b) (rkOperand constants r word) := by
  unfold straightValue
  rw [hop]
  cases op <;> simp [isNumeric, isArithmetic, isComparison] at hn <;> rfl

lemma readConstant_of_getElem? {i : ℕ} (h : constants[i]? = some value) :
    readConstant constants i = value := by
  simp [readConstant, List.getD_eq_getElem?_getD, h]

lemma agrees_straight {code' rest' fused simple : List Word} {scratch : List ℕ} {value : Eval Value}
    (hstep : step engine constants code m = some (finish m a (m.pc + fused.length) value))
    (hd' : code'.drop m.pc = simple ++ rest')
    (hs : ∀ word ∈ simple, isStraight (opcodeVerified word) = true) (h : value m.store = (do
      let r ← chain engine constants simple m.registers
      pure (r a) : Eval Value) m.store) (hw : ∀ word ∈ simple, word.a = a ∨ word.a ∈ scratch)
    (hlen : 0 < simple.length) :
    ∃ n x y, 0 < n ∧ n ≤ simple.length ∧ step engine constants code m = some x ∧
      run engine constants code' n m = some y ∧ Agrees scratch fused.length simple.length x y :=
  ⟨_, _, _, hlen, le_rfl, hstep, run_chain engine hs hd', agrees_of_chain engine h hw⟩

lemma Has.straight {k : Bool} (h : Has word op a b c k) (ho : isStraight op = true) :
    isStraight (opcodeVerified word) = true := by
  rw [h.opcode, ho]

lemma Has.step {k : Bool} (h : Has word op a b c k) (ho : isStraight op = true)
    (hd : code.drop m.pc = word :: rest) :
    Primitive.step engine constants code m =
      some (finish m a (m.pc + 1) (straightValue engine constants word m.registers)) := by
  have hf := fetchWord_of_drop hd
  rw [step_straight engine (by rw [hf]; exact h.straight ho), hf, h.a]

lemma Has.numeric (h : Has word op a b c false) (hn : isNumeric op = true) (r : Registers) :
    straightValue engine constants word r = Primitive.numeric engine op (r b) (r c) := by
  rw [straightValue_numeric engine h.opcode hn]
  simp [rkOperand, h.b, h.c, h.k]

lemma Has.numericConstant (h : Has word op a b c true) (hn : isNumeric op = true)
    (hc : constants[c]? = some value) (r : Registers) :
    straightValue engine constants word r = Primitive.numeric engine op (r b) value := by
  rw [straightValue_numeric engine h.opcode hn]
  simp [rkOperand, h.b, h.c, h.k, readConstant_of_getElem? hc]

lemma Loads.straight (h : Loads constants word a value) :
    isStraight (opcodeVerified word) = true := by
  rw [h.opcode]
  rfl

lemma Loads.load (h : Loads constants word a value) (r : Registers) :
    straightValue engine constants word r = pure value := by
  simp [straightValue, h.opcode, readConstant_of_getElem? h.value]

lemma Has.vectorRef {k : Bool} (h : Has word .vectorRef a b c k) (r : Registers) :
    straightValue engine constants word r = fetchVectorElement engine (r b) (r c) := by
  simp [straightValue, h.opcode, h.b, h.c]

lemma Has.addSubFixnumK {n n' : Int64} (h : Has word .addSubFixnumK a b c true)
    (hn : constants[b]? = some (.fixnum n)) (hn' : constants[c]? = some (.fixnum n'))
    (r : Registers) :
    straightValue engine constants word r = Primitive.addSubFixnumK engine (r a) n n' := by
  simp [straightValue, h.opcode, h.a, h.b, h.c, readConstant_of_getElem? hn,
    readConstant_of_getElem? hn', fixnumPayload]

/-! ### Tests and jumps -/

lemma step_test {comparison : Opcode × Bool}
    (h : comparisonOf (opcodeVerified (fetchWord code m.pc)) = some comparison) :
    step engine constants code m =
      some (branch code m m.pc ((fetchWord code m.pc).a ≠ 0)
        (truthOf engine constants comparison (fetchWord code m.pc)
          (m.registers (fetchWord code m.pc).b) m.registers)) := by
  have hs : isStraight (opcodeVerified (fetchWord code m.pc)) = false := by
    generalize opcodeVerified (fetchWord code m.pc) = op at h
    cases op <;> simp [comparisonOf] at h <;> rfl
  simp [step, hs, h]

lemma step_jump (h : opcodeVerified (fetchWord code m.pc) = .jump) :
    step engine constants code m =
      some (.ok { m with
        pc := wrappingAddSigned 64 (m.pc + 1) (fetchWord code m.pc).signedJump }) := by
  simp [step, h, isStraight, comparisonOf, exitTestOf, guardOf]

lemma truthOf_fixnum {cmp : Opcode}
    (h : cmp = .numericEqual ∨ cmp = .numericLess ∨ cmp = .numericLessEqual) (hk : word.k = true)
    {n : Int64} (hn : constants[word.c]? = some (.fixnum n)) (left : Value) (r : Registers) :
    truthOf engine constants (cmp, true) word left r =
      truthOf engine constants (cmp, false) word left r := by
  simp [truthOf, testFixnum_eq engine h, rkOperand, hk, readConstant_of_getElem? hn,
    fixnumPayload]

lemma comparisonOf_fixnum {cmp : Opcode} (h : comparisonOf op = some (cmp, true)) :
    cmp = .numericEqual ∨ cmp = .numericLess ∨ cmp = .numericLessEqual := by
  cases op <;> simp [comparisonOf] at h <;> simp [← h]

lemma agrees_refl (scratch : List ℕ) (len : ℕ) (x : Outcome) : Agrees scratch len len x x := by
  cases x with
  | error failure => exact .raised failure
  | ok m => exact .done rfl rfl fun _ _ => rfl

lemma run_one {x : Outcome} (h : step engine constants code m = some x) :
    run engine constants code 1 m = some x := by
  cases x <;> simp [run, h]

/-! ### Every replacement -/

lemma replaces_agrees {fused simple : List Word} {scratch : List ℕ}
    (h : Replaces constants fused simple scratch) {code' rest' : List Word} (hm : Sound engine m)
    (hd : code.drop m.pc = fused ++ rest) (hd' : code'.drop m.pc = simple ++ rest') :
    ∃ n x y, 0 < n ∧ n ≤ simple.length ∧ step engine constants code m = some x ∧
      run engine constants code' n m = some y ∧ Agrees scratch fused.length simple.length x y := by
  cases h with
  | @addVectorRef w u s a b c t hw hu hs ht =>
    have hval : straightValue engine constants w m.registers =
        addVectorRef engine (m.registers a) (m.registers b) (m.registers c) := by
      simp [straightValue, hw.opcode, hw.a, hw.b, hw.c]
    refine agrees_straight engine (hw.step engine rfl hd) hd' ?_ ?_ (by simp [hu.a, hs.a]) (by simp)
    · simp [hu.straight rfl, hs.straight rfl]
    · rw [hval]
      simp [chain, hu.vectorRef engine, hs.numeric engine rfl, hu.a, hs.a,
        Function.update_of_ne ht.symm, addVectorRef]
  | @addCar w u s a b t hw hu hs ht =>
    have hval : straightValue engine constants w m.registers =
        addCar engine (m.registers a) (m.registers b) := by
      simp [straightValue, hw.opcode, hw.a, hw.b]
    have hcar : straightValue engine constants u m.registers =
        fetchCar engine (m.registers b) := by
      simp [straightValue, hu.opcode, hu.b]
    refine agrees_straight engine (hw.step engine rfl hd) hd' ?_ ?_ (by simp [hu.a, hs.a]) (by simp)
    · simp [hu.straight rfl, hs.straight rfl]
    · rw [hval]
      simp [chain, hcar, hs.numeric engine rfl, hu.a, hs.a, Function.update_of_ne ht.symm, addCar]
  | @addStringRefCode w u v s a b c t t' hw hu hv hs ht ht' =>
    have hval : straightValue engine constants w m.registers =
        addStringRefCode engine (m.registers a) (m.registers b) (m.registers c) := by
      simp [straightValue, hw.opcode, hw.a, hw.b, hw.c]
    have hchar : straightValue engine constants u m.registers =
        fetchCharacter engine (m.registers b) (m.registers c) := by
      simp [straightValue, hu.opcode, hu.b, hu.c]
    have hcode : ∀ r : Registers, straightValue engine constants v r =
        charToInteger engine (r t) := by
      intro r
      simp [straightValue, hv.opcode, hv.b]
    refine agrees_straight engine (hw.step engine rfl hd) hd' ?_ ?_ (by simp [hu.a, hv.a, hs.a])
      (by simp)
    · simp [hu.straight rfl, hv.straight rfl, hs.straight rfl]
    · rw [hval, addStringRefCode_eq]
      simp [chain, hchar, hcode, hs.numeric engine rfl, hu.a, hv.a, hs.a,
        Function.update_of_ne ht.symm, Function.update_of_ne ht'.symm]
  | @mul w u s op step a b c t k hop hw hu hs ht =>
    have hval : straightValue engine constants w m.registers =
        mulArm engine step (m.registers b) (rkOperand constants m.registers w) (m.registers a) := by
      cases hop <;> simp [straightValue, hw.opcode, hw.a, hw.b, mulStep]
    have hrk : rkOperand constants m.registers u = rkOperand constants m.registers w := by
      simp [rkOperand, hu.k, hu.c, hw.k, hw.c]
    have hproduct : straightValue engine constants u m.registers =
        numeric engine .multiply (m.registers b) (rkOperand constants m.registers w) := by
      rw [straightValue_numeric engine hu.opcode rfl, hu.b, hrk]
    have hsum : isNumeric step = true ∧ isStraight step = true ∧
        (step = .add ∨ step = .subtract) ∧ isStraight op = true := by
      cases hop <;> simp [isNumeric, isArithmetic, isStraight]
    obtain ⟨hn, hst, hstep, ho⟩ := hsum
    refine agrees_straight engine (hw.step engine ho hd) hd' ?_ ?_ (by simp [hu.a, hs.a]) (by simp)
    · simp [hu.straight rfl, hs.straight hst]
    · rw [hval, mulArm_eq engine hstep]
      simp [chain, hproduct, hs.numeric engine hn, hu.a, hs.a, Function.update_of_ne ht.symm]
  | @addMulVectorRef w x u v p s a b c b' c' t t' t'' hw hx hc' hu hv hp hs ht ht' ht'' hb hc htt =>
    have hf := fetchWord_of_drop hd
    have hf' := fetchWord_of_drop (drop_succ_of_drop hd)
    have hb8 : (b' * 2 ^ 8 + c') / 2 ^ 8 = b' := by omega
    have hc8 : (b' * 2 ^ 8 + c') % 2 ^ 8 = c' := by omega
    have hstep : step engine constants code m = some (finish m a (m.pc + 2)
        (addMulVectorRef engine (m.registers a) (m.registers b) (m.registers c)
          (m.registers b') (m.registers c'))) := by
      simp only [step, hf, hf', hw.opcode, hw.a, hw.b, hw.c, hx, hb8, hc8]
      rfl
    refine agrees_straight engine hstep hd' ?_ ?_ (by simp [hu.a, hv.a, hp.a, hs.a]) (by simp)
    · simp [hu.straight rfl, hv.straight rfl, hp.straight rfl, hs.straight rfl]
    · rw [addMulVectorRef_eq]
      simp [chain, hu.vectorRef engine, hv.vectorRef engine, hp.numeric engine rfl,
        hs.numeric engine rfl, hu.a, hv.a, hp.a, hs.a, Function.update_of_ne ht.symm,
        Function.update_of_ne ht'.symm, Function.update_of_ne ht''.symm,
        Function.update_of_ne hb.symm, Function.update_of_ne hc.symm, Function.update_of_ne htt]
  | @vectorRefVectorRef w x u v a b c j t hw hx hu hv ht =>
    have hf := fetchWord_of_drop hd
    have hf' := fetchWord_of_drop (drop_succ_of_drop hd)
    have hstep : step engine constants code m = some (finish m a (m.pc + 2)
        (vectorRefVectorRef engine (m.registers b) (m.registers c) (m.registers j))) := by
      simp only [step, hf, hf', hw.opcode, hw.a, hw.b, hw.c, hx]
      rfl
    refine agrees_straight engine hstep hd' ?_ ?_ (by simp [hu.a, hv.a]) (by simp)
    · simp [hu.straight rfl, hv.straight rfl]
    · rw [vectorRefVectorRef_eq]
      simp [chain, hu.vectorRef engine, hv.vectorRef engine, hu.a, hv.a,
        Function.update_of_ne ht.symm]
  | @fixnumK w s op step a b c n hop hw hn hs =>
    have hstep : (step = .add ∨ step = .subtract) ∧ isNumeric step = true ∧
        isStraight step = true ∧ isStraight op = true := by
      cases hop <;> simp [isNumeric, isArithmetic, isStraight]
    obtain ⟨hstep, hnum, hst, ho⟩ := hstep
    have hval : straightValue engine constants w m.registers =
        numericFixnumK engine step (m.registers b) n := by
      cases hop <;> simp [straightValue, hw.opcode, hw.b, hw.c, readConstant_of_getElem? hn,
        fixnumPayload]
    refine agrees_straight engine (hw.step engine ho hd) hd' ?_ ?_ (by simp [hs.a]) (by simp)
    · simp [hs.straight hst]
    · rw [hval, numericFixnumK_eq engine hstep]
      simp [chain, hs.numericConstant engine hnum hn, hs.a]
  | @addSubFixnumK w u s a b c t n n' hw hn hn' hu hs =>
    refine agrees_straight engine (hw.step engine rfl hd) hd' ?_ ?_ (by simp [hu.a, hs.a]) (by simp)
    · simp [hu.straight rfl, hs.straight rfl]
    · rw [hw.addSubFixnumK engine hn hn', addSubFixnumK_eq]
      simp [chain, hu.numericConstant engine rfl hn, hs.numericConstant engine rfl hn', hu.a, hs.a]
  | @addSubFixnumKLeft w l u s a b c t t' n n' hw hn hn' hl hu hs ht =>
    refine agrees_straight engine (hw.step engine rfl hd) hd' ?_ ?_ (by simp [hl.a, hu.a, hs.a])
      (by simp)
    · simp [hl.straight, hu.straight rfl, hs.straight rfl]
    · rw [hw.addSubFixnumK engine hn hn', addSubFixnumK_eq]
      simp [chain, hl.load engine, hu.numeric engine rfl, hs.numericConstant engine rfl hn', hl.a,
        hu.a, hs.a, Function.update_of_ne ht.symm]
      exact (bind_congr (numeric_add_comm hm.sums (hm.normal a) n)).symm
  | @test w s j op op' cmp a b c n hop hop' hw hn hs =>
    have hf := fetchWord_of_drop hd
    have hf' := fetchWord_of_drop hd'
    have hjump : jumpBehind code m.pc = jumpBehind code' m.pc := by
      simp [jumpBehind, fetchWord_of_drop (drop_succ_of_drop hd),
        fetchWord_of_drop (drop_succ_of_drop hd')]
    have hstep : step engine constants code m = _ := step_test engine
      (by rw [hf, hw.opcode]; exact hop)
    have hstep' : step engine constants code' m = _ := step_test engine
      (by rw [hf', hs.opcode]; exact hop')
    have htruth : truthOf engine constants (cmp, true) w (m.registers b) m.registers =
        truthOf engine constants (cmp, false) s (m.registers b) m.registers := by
      rw [truthOf_fixnum engine (comparisonOf_fixnum hop) hw.k (hw.c ▸ hn)]
      simp [truthOf, rkOperand, hw.c, hw.k, hs.c, hs.k]
    rw [hf, hw.a, hw.b, htruth] at hstep
    rw [hf', hs.a, hs.b] at hstep'
    have hbranch : ∀ taken truth,
        branch code m m.pc taken truth = branch code' m m.pc taken truth := by
      intro taken truth
      simp [branch, hjump]
    rw [hbranch] at hstep
    exact ⟨1, _, _, by simp, by simp, hstep, run_one engine hstep', agrees_refl _ _ _⟩

end Neetan.Primitive
