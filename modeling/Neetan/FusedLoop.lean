import Neetan.FusedRun

/-!
Back-edges that step the counter in the word itself, against the instruction that computes the
step, the jump and the test at the loop header.

The compiler steps a counter `p` so for `(+ p K)`, `(+ K p)` and `(- p K)`. The word always adds;
where the literal is a zero to be subtracted, the negative zero becomes a zero.
-/

namespace Neetan.Primitive

open Neetan.Bytecode Neetan.Gc Neetan.MachineInt Neetan.NumericTower

variable (engine : Engine)

/-! ### The step of a counter -/

/-- The words that compute the next value of the counter `a` in register `d`. -/
inductive Counts (constants : List Value) (a : ℕ) (step : ℤ) : ℕ → List Word → List ℕ → Prop
  | add {s : Word} {d i : ℕ} :
    constants[i]? = some (.fixnum (Int64.ofInt step)) → Has s .add d a i true →
    Counts constants a step d [s] []
  | addLeft {l s : Word} {d t : ℕ} :
    Loads constants l t (.fixnum (Int64.ofInt step)) → Has s .add d t a false → t ≠ a →
    Counts constants a step d [l, s] [t]
  | subtract {s : Word} {d i : ℕ} :
    constants[i]? = some (.fixnum (Int64.ofInt (-step))) → Has s .subtract d a i true →
    Counts constants a step d [s] []

/-- The words that step the counter: in place, or in a register that is then moved. -/
inductive CounterStep (constants : List Value) (a : ℕ) (step : ℤ) : List Word → List ℕ → Prop
  | inPlace {words : List Word} {scratch : List ℕ} :
    Counts constants a step a words scratch → CounterStep constants a step words scratch
  | moved {words : List Word} {scratch : List ℕ} {mv : Word} {d : ℕ} :
    Counts constants a step d words scratch → Has mv .move a d 0 false →
    CounterStep constants a step (words ++ [mv]) (d :: scratch)

/-- A zero is subtracted from the negative zero. -/
def SubtractsZero (words : List Word) (step : ℤ) (counter : Value) : Prop :=
  (∃ word ∈ words, opcodeVerified word = .subtract) ∧ step = 0 ∧ counter = .float (-0.0)

variable {constants : List Value} {scratch : List ℕ} {code code' : List Word} {m : Machine}
  {cmp op : Opcode} {a h c : ℕ}

lemma chain_append : ∀ (words words' : List Word) (r : Registers),
    chain engine constants (words ++ words') r =
      chain engine constants words r >>= chain engine constants words'
  | [], words', r => by simp [chain]
  | word :: words, words', r => by
    simp only [List.cons_append, chain, bind_assoc]
    exact congrArg _ (funext fun value => chain_append words words' _)

lemma run_add :
    ∀ (n k : ℕ) (m : Machine),
      run engine constants code (n + k) m =
        match run engine constants code n m with
        | some (.ok m) => run engine constants code k m
        | outcome => outcome
  | 0, k, m => by rw [Nat.zero_add]; rfl
  | n + 1, k, m => by
    rw [Nat.add_right_comm, run, run]
    cases step engine constants code m with
    | none => rfl
    | some outcome =>
      cases outcome with
      | error failure => rfl
      | ok m => exact run_add n k m

lemma toInt_ofInt_small {k : ℤ} (h : -128 ≤ k ∧ k ≤ 128) : (Int64.ofInt k).toInt = k :=
  Int64.toInt_ofInt_of_le (by simp; omega) (by simp; omega)

/-- The sum a step amounts to. -/
lemma Counts.value {d : ℕ} {step : ℤ} {words : List Word}
    (h : Counts constants a step d words scratch) (hstep : -128 ≤ step ∧ step ≤ 127)
    (hm : Sound engine m) (hzero : ¬ SubtractsZero words step (m.registers a)) :
    (do
      let r ← chain engine constants words m.registers
      pure (r d) : Eval Value) m.store =
      numeric engine .add (m.registers a) (.fixnum (Int64.ofInt step)) m.store := by
  cases h with
  | @add s d i hi hs =>
    simp [chain, hs.numericConstant engine rfl hi, hs.a]
  | @addLeft l s d t hl hs ht =>
    simp [chain, hl.load engine, hs.numeric engine rfl, hl.a, hs.a, Function.update_of_ne ht.symm]
    exact numeric_add_comm hm.sums (hm.normal a) _
  | @subtract s d i hi hs =>
    have hj : (Int64.ofInt (-step)).toInt = -step := toInt_ofInt_small ⟨by omega, by omega⟩
    have hopposite : Opposed (Int64.ofInt (-step)) (Int64.ofInt step) := by
      rw [Opposed, hj, toInt_ofInt_small ⟨hstep.1, by omega⟩, neg_neg]
    have hcounter : (Int64.ofInt (-step)).toInt ≠ 0 ∨ m.registers a ≠ .float (-0.0) := by
      rw [hj, ← not_and_or]
      rintro ⟨hk, hp⟩
      exact hzero ⟨⟨s, by simp, hs.opcode⟩, by omega, hp⟩
    generalize Int64.ofInt (-step) = j at hi hopposite hcounter
    simp [chain, hs.numericConstant engine rfl hi, hs.a]
    exact numeric_subtract hm.sums (hm.normal a) hopposite hcounter

lemma CounterStep.value {step : ℤ} {words : List Word}
    (h : CounterStep constants a step words scratch) (hstep : -128 ≤ step ∧ step ≤ 127)
    (hm : Sound engine m) (hzero : ¬ SubtractsZero words step (m.registers a)) :
    numeric engine .add (m.registers a) (.fixnum (Int64.ofInt step)) m.store = (do
      let r ← chain engine constants words m.registers
      pure (r a) : Eval Value) m.store := by
  cases h with
  | inPlace h => exact (h.value engine hstep hm hzero).symm
  | @moved words scratch mv d h hmv =>
    have hwords : ¬ SubtractsZero words step (m.registers a) := fun hs =>
      hzero ⟨hs.1.imp fun word hw => ⟨List.mem_append_left _ hw.1, hw.2⟩, hs.2⟩
    rw [← h.value engine hstep hm hwords, chain_append]
    simp [chain, straightValue, hmv.opcode, hmv.a, hmv.b]

/-- The difference a step amounts to where a word subtracts. -/
lemma CounterStep.difference {step : ℤ} {words : List Word}
    (h : CounterStep constants a step words scratch)
    (hsubtract : ∃ word ∈ words, opcodeVerified word = .subtract) (registers : Registers) :
    (do
      let r ← chain engine constants words registers
      pure (r a)) =
      numeric engine .subtract (registers a) (.fixnum (Int64.ofInt (-step))) := by
  have hcounts : ∀ {d : ℕ} {words : List Word} {scratch : List ℕ},
      Counts constants a step d words scratch →
      (∃ word ∈ words, opcodeVerified word = .subtract) →
      (do
        let r ← chain engine constants words registers
        pure (r d)) =
        numeric engine .subtract (registers a) (.fixnum (Int64.ofInt (-step))) := by
    intro d words scratch h hsubtract
    cases h with
    | add hi hs => simp [hs.opcode] at hsubtract
    | addLeft hl hs ht => simp [hl.opcode, hs.opcode] at hsubtract
    | subtract hi hs =>
      generalize Int64.ofInt (-step) = j at hi ⊢
      simp [chain, hs.numericConstant engine rfl hi, hs.a]
  cases h with
  | inPlace h => exact hcounts h hsubtract
  | @moved words scratch mv d h hmv =>
    rw [← hcounts h (by simpa [hmv.opcode] using hsubtract), chain_append]
    simp [chain, straightValue, hmv.opcode, hmv.a, hmv.b]

lemma CounterStep.straight {step : ℤ} {words : List Word}
    (h : CounterStep constants a step words scratch) :
    (∀ word ∈ words, isStraight (opcodeVerified word) = true) ∧
      ∀ word ∈ words, word.a = a ∨ word.a ∈ scratch := by
  have hcounts : ∀ {d : ℕ} {words : List Word} {scratch : List ℕ},
      Counts constants a step d words scratch →
      (∀ word ∈ words, isStraight (opcodeVerified word) = true) ∧
        ∀ word ∈ words, word.a = d ∨ word.a ∈ scratch := by
    intro d words scratch h
    cases h with
    | add hi hs => simp [hs.straight rfl, hs.a]
    | addLeft hl hs ht => simp [hl.straight, hs.straight rfl, hl.a, hs.a]
    | subtract hi hs => simp [hs.straight rfl, hs.a]
  cases h with
  | inPlace h => exact hcounts h
  | @moved words scratch mv d h hmv =>
    obtain ⟨hs, ha⟩ := hcounts h
    refine ⟨fun word hword => ?_, fun word hword => ?_⟩
    all_goals rcases List.mem_append.mp hword with hw | hw
    · exact hs word hw
    · exact List.mem_singleton.mp hw ▸ hmv.straight rfl
    · exact .inr (List.mem_cons.mpr (ha word hw))
    · exact .inl (List.mem_singleton.mp hw ▸ hmv.a)

/-- What the words do: the counter has the sum, and only scratch registers change beside it. -/
lemma CounterStep.run {step : ℤ} {words : List Word}
    (h : CounterStep constants a step words scratch) (hstep : -128 ≤ step ∧ step ≤ 127)
    (hm : Sound engine m) (hzero : ¬ SubtractsZero words step (m.registers a))
    (hcode : words <+: code'.drop m.pc) (len : ℕ) :
    ∃ y, run engine constants code' words.length m = some y ∧
      Agrees scratch len words.length (finish m a (m.pc + len)
        (numeric engine .add (m.registers a) (.fixnum (Int64.ofInt step)))) y := by
  obtain ⟨hstraight, hwrites⟩ := h.straight
  obtain ⟨rest, hrest⟩ := hcode
  exact ⟨_, run_chain engine hstraight hrest.symm,
    agrees_of_chain engine (h.value engine hstep hm hzero) hwrites⟩

/-! ### Looping back -/

/-- At `p` the code `code` loops back to `h` in one word and its jump, where `code'` steps the
counter and jumps. -/
structure LoopsBack (constants : List Value) (code code' : List Word) (p h a c : ℕ)
    (steps : List Word) (scratch : List ℕ) : Prop where
  fused : Has (fetchWord code p) .loopBack a 0 c false
  back : jumpBehind code p = h
  step : CounterStep constants a (signedByte c) steps scratch
  words : steps <+: code'.drop p
  jump : opcodeVerified (fetchWord code' (p + steps.length)) = .jump
  back' : wrappingAddSigned 64 (p + steps.length + 1)
    (fetchWord code' (p + steps.length)).signedJump = h
  kept : a ∉ scratch

lemma signedByte_bounds (c : ℕ) : -128 ≤ signedByte c ∧ signedByte c ≤ 127 := by
  unfold signedByte castSigned
  split_ifs <;> omega

lemma step_loopBack (h : Has (fetchWord code m.pc) .loopBack a 0 c false) :
    step engine constants code m = some (finish m a (jumpBehind code m.pc)
      (numeric engine .add (m.registers a) (.fixnum (Int64.ofInt (signedByte c))))) := by
  simp only [step, h.opcode, h.a, h.c, ← stepCounter_eq]
  rfl

/-- The jump behind the step of the counter. -/
lemma jump_back {n : ℕ} {value : Eval Value} {y : Outcome}
    (hy : run engine constants code' n m = some y)
    (hagrees : Agrees scratch n n (finish m a (m.pc + n) value) y)
    (hjump : opcodeVerified (fetchWord code' (m.pc + n)) = .jump)
    (hback : wrappingAddSigned 64 (m.pc + n + 1) (fetchWord code' (m.pc + n)).signedJump = h) :
    ∃ y', run engine constants code' (n + 1) m = some y' ∧
      Agrees scratch 0 0 (finish m a h value) y' := by
  rw [run_add, hy]
  unfold finish at hagrees ⊢
  cases hv : value m.store with
  | error failure =>
    rw [hv] at hagrees
    cases hagrees with
    | raised => exact ⟨_, rfl, .raised failure⟩
  | ok result =>
    rw [hv] at hagrees
    cases hagrees with
    | @done _ m' hpc hstore hregisters =>
      have hat : m'.pc = m.pc + n := by simp only at hpc; omega
      have hnext : step engine constants code' m' = _ := step_jump engine (by rw [hat]; exact hjump)
      rw [hat, hback] at hnext
      exact ⟨_, run_one engine hnext, .done rfl hstore hregisters⟩

lemma loopsBack_agrees {steps : List Word} (hm : Sound engine m)
    (hloop : LoopsBack constants code code' m.pc h a c steps scratch)
    (hzero : ¬ SubtractsZero steps (signedByte c) (m.registers a)) :
    ∃ x y, step engine constants code m = some x ∧
      run engine constants code' (steps.length + 1) m = some y ∧ Agrees scratch 0 0 x y := by
  obtain ⟨y, hy, hagrees⟩ := hloop.step.run engine (signedByte_bounds c) hm hzero hloop.words
    steps.length
  obtain ⟨y', hy', hagrees'⟩ := jump_back engine hy hagrees hloop.jump hloop.back'
  exact ⟨_, y', step_loopBack engine hloop.fused, hy', hloop.back ▸ hagrees'⟩

/-- Where a zero is subtracted from the negative zero, the counter differs. -/
lemma loopsBack_differs {steps : List Word}
    (hloop : LoopsBack constants code code' m.pc h a c steps scratch)
    (hzero : SubtractsZero steps (signedByte c) (m.registers a)) {x y : Outcome}
    (hx : step engine constants code m = some x)
    (hy : run engine constants code' (steps.length + 1) m = some y) :
    ¬ Agrees scratch 0 0 x y := by
  obtain ⟨hsubtract, hstep, hcounter⟩ := hzero
  obtain ⟨hstraight, hwrites⟩ := hloop.step.straight
  obtain ⟨rest, hrest⟩ := hloop.words
  have hvalue := congrFun (hloop.step.difference engine hsubtract m.registers) m.store
  have hagrees : Agrees scratch steps.length steps.length (finish m a (m.pc + steps.length) _) _ :=
    agrees_of_chain engine hvalue.symm hwrites
  obtain ⟨y', hy', hagrees'⟩ := jump_back engine (run_chain engine hstraight hrest.symm) hagrees
    hloop.jump hloop.back'
  obtain rfl := Option.some.inj (hy.symm.trans hy')
  have hsum : numeric engine .add (.float (-0.0)) (.fixnum (Int64.ofInt 0)) =
      pure (.float (-0.0 + asF64 (Int64.ofInt 0))) := rfl
  have hdifference : numeric engine .subtract (.float (-0.0)) (.fixnum (Int64.ofInt (-0))) =
      pure (.float (-0.0 - asF64 (Int64.ofInt (-0)))) := rfl
  have hne : (-0.0 : Float) + asF64 (Int64.ofInt 0) ≠ -0.0 - asF64 (Int64.ofInt (-0)) := by
    decide +kernel
  rw [step_loopBack engine hloop.fused, hcounter, hstep, hsum] at hx
  rw [hcounter, hstep, hdifference] at hagrees'
  obtain rfl := Option.some.inj hx
  intro hclaim
  cases hagrees' with
  | done _ _ hregisters' =>
    cases hclaim with
    | done _ _ hregisters =>
      have heq := (hregisters a hloop.kept).trans (hregisters' a hloop.kept).symm
      simp only [Function.update_self] at heq
      exact hne (Value.float.inj heq)

/-! ### Back-edges with the exit test -/

/-- Comparing numbers only reads the store, as the base natives do. -/
def Engine.ComparesPurely (engine : Engine) : Prop :=
  ∀ op arguments store value store', isComparison op = true →
    invokeRegisterOperation engine op arguments store = .ok (value, store') → store' = store

/-- At `p` the code `code` has a fused back-edge where `code'` steps the counter and jumps to
the loop header at `h`, which both have. A step by a register is the addition that the compiler
emits where it does not fuse the header. -/
inductive BackEdge (constants : List Value) (code code' : List Word) (p h : ℕ) :
    List Word → List ℕ → Prop
  | whileNot {op cmp test : Opcode} {fixnum fixnum' : Bool} {a b c : ℕ} {k : Bool}
    {steps : List Word} {scratch : List ℕ} :
    exitTestOf op = some (cmp, fixnum) → comparisonOf test = some (cmp, fixnum') →
    (fixnum = true ∨ fixnum' = true → k = true ∧ ∃ n, constants[c]? = some (.fixnum n)) →
    Has (fetchWord code p) op a b c k →
    opcodeVerified (fetchWord code (p + 2)) = .jump →
    wrappingAddSigned 64 (p + 3) (fetchWord code (p + 2)).signedJump = h →
    jumpBehind code p = jumpBehind code h →
    CounterStep constants a 1 steps scratch → steps <+: code'.drop p →
    opcodeVerified (fetchWord code' (p + steps.length)) = .jump →
    wrappingAddSigned 64 (p + steps.length + 1)
      (fetchWord code' (p + steps.length)).signedJump = h →
    b ∉ scratch → (k = false → c ∉ scratch) →
    Has (fetchWord code h) test 0 b c k → fetchWord code' h = fetchWord code h →
    jumpBehind code' h = jumpBehind code h → BackEdge constants code code' p h steps scratch
  | stepWhile {op cmp test : Opcode} {fixnum : Bool} {a b c : ℕ} {k : Bool} {s : Word} :
    guardOf op = some cmp → comparisonOf test = some (cmp, fixnum) →
    (fixnum = true → k = true ∧ ∃ n, constants[c]? = some (.fixnum n)) →
    Has (fetchWord code p) op a b c k →
    opcodeVerified (fetchWord code (p + 2)) = .jump →
    wrappingAddSigned 64 (p + 3) (fetchWord code (p + 2)).signedJump = h →
    jumpBehind code p = h + 2 →
    Has s .add a a b false → [s] <+: code'.drop p →
    opcodeVerified (fetchWord code' (p + 1)) = .jump →
    wrappingAddSigned 64 (p + 1 + 1) (fetchWord code' (p + 1)).signedJump = h →
    Has (fetchWord code h) test 0 a c k → fetchWord code' h = fetchWord code h →
    jumpBehind code' h = jumpBehind code h → BackEdge constants code code' p h [s] []

lemma comparisonOf_isComparison {fixnum : Bool} (h : comparisonOf op = some (cmp, fixnum)) :
    isComparison cmp = true := by
  cases op <;> simp [comparisonOf] at h <;> simp [← h, isComparison]

lemma truthOf_pure (hpure : engine.ComparesPurely) (hc : isComparison cmp = true) {word : Word}
    {left : Value} {r : Registers} {store store' : Store} {truth : Bool}
    (h : truthOf engine constants (cmp, false) word left r store = .ok (truth, store')) :
    store' = store := by
  have hn : isNumeric cmp = true := by simp [isNumeric, hc]
  simp only [truthOf, Bool.false_eq_true, if_false, numeric_eq_slow,
    numericSlow_eq_operation engine hn] at h
  cases hv : invokeRegisterOperation engine cmp [left, rkOperand constants r word] store with
  | error failure =>
    rw [bind_error hv] at h
    cases h
  | ok result =>
    rw [bind_ok hv] at h
    cases h
    exact hpure cmp _ store result.1 result.2 hc hv

/-- A fused back-edge goes on where the header test would, and where the loop ends it jumps
to the header, which tests once more with the same outcome. -/
lemma back_edge_agrees {n : ℕ} {counter : Eval Value} (taken : Bool) (truth : Registers → Eval Bool)
    (hstep : step engine constants code m = some ((finish m a m.pc counter).bind fun m =>
      branch code m m.pc taken (truth m.registers)))
    (hsteps : ∃ y, run engine constants code' (n + 1) m = some y ∧
      Agrees scratch 0 0 (finish m a h counter) y)
    (hj : opcodeVerified (fetchWord code (m.pc + 2)) = .jump)
    (hback : wrappingAddSigned 64 (m.pc + 3) (fetchWord code (m.pc + 2)).signedJump = h)
    (hheader : ∀ r store, step engine constants code ⟨h, r, store⟩ =
      some (branch code ⟨h, r, store⟩ h false (truth r)))
    (hheader' : ∀ r store, step engine constants code' ⟨h, r, store⟩ =
      some (branch code' ⟨h, r, store⟩ h false (truth r)))
    (hkeep : ∀ r r' : Registers, (∀ i, i ∉ scratch → r i = r' i) → truth r = truth r')
    (hexit : jumpBehind code' h = jumpBehind code h)
    (hbody : jumpBehind code m.pc = if taken then h + 2 else jumpBehind code h)
    (hpure : ∀ r store value store', truth r store = .ok (value, store') → store' = store) :
    ∃ n' x y, (n' = 1 ∨ n' = 3) ∧ run engine constants code n' m = some x ∧
      run engine constants code' (n + 2) m = some y ∧ Agrees scratch 0 0 x y := by
  obtain ⟨y, hy, hagrees⟩ := hsteps
  rw [show n + 2 = n + 1 + 1 from rfl]
  simp only [run_add engine (n + 1) 1, hy]
  unfold finish at hstep hagrees
  cases hv : counter m.store with
  | error failure =>
    simp only [hv] at hstep hagrees
    cases hagrees with
    | raised => exact ⟨1, _, _, .inl rfl, run_one engine hstep, rfl, .raised failure⟩
  | ok result =>
    obtain ⟨value, store⟩ := result
    simp only [hv] at hstep hagrees
    generalize Function.update m.registers a value = r at hstep hagrees
    cases hagrees with
    | @done _ m' hpc hstore hregisters =>
      obtain ⟨pc', r', store'⟩ := m'
      obtain rfl : store = store' := hstore
      obtain rfl : h = pc' := hpc
      have hsame := hkeep r r' hregisters
      simp only [run_one engine (hheader' r' store), ← hsame]
      cases ht : truth r store with
      | error failure =>
        have hx : step engine constants code m = some (.error failure) := by
          rw [hstep]
          simp [Except.bind, branch, ht]
        refine ⟨1, _, _, .inl rfl, run_one engine hx, rfl, ?_⟩
        simp only [branch, ht]
        exact .raised failure
      | ok outcome =>
        obtain ⟨truthValue, store'⟩ := outcome
        obtain rfl := hpure r store truthValue store' ht
        have hx : step engine constants code m = some (.ok ⟨if truthValue = taken then
            jumpBehind code m.pc else m.pc + 2, r, store'⟩) := by
          rw [hstep]
          simp [Except.bind, branch, ht]
        by_cases hgo : truthValue = taken
        · -- the loop goes on
          rw [if_pos hgo, hbody] at hx
          refine ⟨1, _, _, .inl rfl, run_one engine hx, rfl, ?_⟩
          simp only [branch, ht, hexit]
          refine .done ?_ rfl hregisters
          subst hgo
          cases truthValue <;> simp
        · -- the loop ends
          rw [if_neg hgo] at hx
          have hjump : step engine constants code ⟨m.pc + 2, r, store'⟩ = _ :=
            step_jump engine hj
          simp only [Nat.add_assoc, Nat.reduceAdd, hback] at hjump
          have hrun : run engine constants code 3 m =
              some (branch code ⟨h, r, store'⟩ h false (truth r)) := by
            simp only [run, hx, hjump, hheader]
            cases branch code ⟨h, r, store'⟩ h false (truth r) <;> rfl
          refine ⟨3, _, _, .inr rfl, hrun, rfl, ?_⟩
          simp only [branch, ht, hexit]
          exact .done rfl rfl hregisters

lemma exitTestOf_fixnum (h : exitTestOf op = some (cmp, true)) :
    cmp = .numericEqual := by
  cases op <;> simp [exitTestOf] at h
  exact h.symm

/-- Two words that name the same right operand decide a comparison alike, whether or not they
know it to be a fixnum. -/
lemma truthOf_word {fixnum : Bool} {word word' : Word} {k : Bool} (hc : word.c = c)
    (hk : word.k = k) (hc' : word'.c = c) (hk' : word'.k = k)
    (hcmp : fixnum = true → cmp = .numericEqual ∨ cmp = .numericLess ∨ cmp = .numericLessEqual)
    (hconstant : fixnum = true → k = true ∧ ∃ n, constants[c]? = some (.fixnum n)) (left : Value)
    (r : Registers) :
    truthOf engine constants (cmp, fixnum) word left r =
      truthOf engine constants (cmp, false) word' left r := by
  have hplain : truthOf engine constants (cmp, false) word left r =
      truthOf engine constants (cmp, false) word' left r := by
    simp [truthOf, rkOperand, hc, hk, hc', hk']
  cases fixnum with
  | false => exact hplain
  | true =>
    obtain ⟨hkt, n, hn⟩ := hconstant rfl
    rw [truthOf_fixnum engine (hcmp rfl) (hk.trans hkt) (hc ▸ hn), hplain]

/-- A comparison reads the registers its word names. -/
lemma truthOf_congr {test : Opcode} {word : Word} {b : ℕ} {k : Bool} {r r' : Registers}
    (hword : Has word test 0 b c k) (h : ∀ i, i ∉ scratch → r i = r' i) (hb : b ∉ scratch)
    (hc : k = false → c ∉ scratch) :
    truthOf engine constants (cmp, false) word (r b) r =
      truthOf engine constants (cmp, false) word (r' b) r' := by
  have hright : rkOperand constants r word = rkOperand constants r' word := by
    unfold rkOperand
    rw [hword.k, hword.c]
    cases k with
    | false => exact h c (hc rfl)
    | true => rfl
  simp only [truthOf, hright, h b hb]

lemma not_straight_of_comparison {comparison : Opcode × Bool}
    (h : exitTestOf op = some comparison) :
    isStraight op = false ∧ comparisonOf op = none := by
  cases op <;> simp [exitTestOf] at h <;> exact ⟨rfl, rfl⟩

lemma not_straight_of_guard (h : guardOf op = some cmp) :
    isStraight op = false ∧ comparisonOf op = none ∧ exitTestOf op = none := by
  cases op <;> simp [guardOf] at h <;> exact ⟨rfl, rfl, rfl⟩

lemma step_exit {comparison : Opcode × Bool}
    (h : exitTestOf (opcodeVerified (fetchWord code m.pc)) = some comparison) :
    step engine constants code m =
      some ((finish m (fetchWord code m.pc).a m.pc
        (numeric engine .add (m.registers (fetchWord code m.pc).a) (.fixnum 1))).bind fun m' =>
          branch code m' m'.pc false (truthOf engine constants comparison (fetchWord code m.pc)
            (m'.registers (fetchWord code m.pc).b) m'.registers)) := by
  obtain ⟨hs, hc⟩ := not_straight_of_comparison h
  rw [← stepCounter_eq]
  simp only [step, hs, hc, h, Bool.false_eq_true, if_false]

lemma step_guard (h : guardOf (opcodeVerified (fetchWord code m.pc)) = some cmp) :
    step engine constants code m =
      some ((finish m (fetchWord code m.pc).a m.pc
        (numeric engine .add (m.registers (fetchWord code m.pc).a)
          (m.registers (fetchWord code m.pc).b))).bind fun m' =>
          branch code m' m'.pc true (truthOf engine constants (cmp, false) (fetchWord code m.pc)
            (m'.registers (fetchWord code m.pc).a) m'.registers)) := by
  obtain ⟨hs, hc, he⟩ := not_straight_of_guard h
  simp only [step, hs, hc, he, h, Bool.false_eq_true, if_false]

/-- The header of a loop: a test that leaves the loop when its comparison says so. -/
lemma step_header {b : ℕ} {k fixnum : Bool} {test : Opcode}
    (hword : Has (fetchWord code h) test 0 b c k) (hop : comparisonOf test = some (cmp, fixnum))
    (hconstant : fixnum = true → k = true ∧ ∃ n, constants[c]? = some (.fixnum n)) (r : Registers)
    (store : Store) :
    step engine constants code ⟨h, r, store⟩ =
      some (branch code ⟨h, r, store⟩ h false
        (truthOf engine constants (cmp, false) (fetchWord code h) (r b) r)) := by
  have hstep : step engine constants code ⟨h, r, store⟩ = _ := step_test engine
    (by rw [hword.opcode]; exact hop)
  rw [hstep]
  simp only [hword.a, hword.b]
  rw [truthOf_word engine hword.c hword.k hword.c hword.k
    (fun hf => comparisonOf_fixnum (hf ▸ hop)) hconstant]
  rfl

lemma backEdge_agrees {steps : List Word} (hpure : engine.ComparesPurely) (hm : Sound engine m)
    (hedge : BackEdge constants code code' m.pc h steps scratch) :
    ∃ n x y, (n = 1 ∨ n = 3) ∧ run engine constants code n m = some x ∧
      run engine constants code' (steps.length + 2) m = some y ∧ Agrees scratch 0 0 x y := by
  cases hedge with
  | @whileNot op cmp test fixnum fixnum' a b c k _ _ hop htest hfix hw hj hback hexit hcounter
      hwords hj' hback' hb hc hheader hsame hexit' =>
    have hstep : step engine constants code m = _ := step_exit engine
      (by rw [hw.opcode]; exact hop)
    simp only [hw.a, hw.b] at hstep
    have htruth : ∀ r : Registers, truthOf engine constants (cmp, fixnum) (fetchWord code m.pc)
        (r b) r = truthOf engine constants (cmp, false) (fetchWord code h) (r b) r := fun r =>
      truthOf_word engine hw.c hw.k hheader.c hheader.k
        (fun hf => .inl (exitTestOf_fixnum (hf ▸ hop))) (fun hf => hfix (.inl hf)) (r b) r
    simp only [htruth] at hstep
    have hhead : ∀ r store, step engine constants code ⟨h, r, store⟩ = _ := fun r store =>
      step_header engine hheader htest (fun hf => hfix (.inr hf)) r store
    have hhead' : ∀ r store, step engine constants code' ⟨h, r, store⟩ = _ := fun r store =>
      step_header engine (hsame ▸ hheader) htest (fun hf => hfix (.inr hf)) r store
    rw [hsame] at hhead'
    obtain ⟨y, hy, hagrees⟩ := hcounter.run engine (by decide) hm
      (fun hz => absurd hz.2.1 (by decide)) hwords steps.length
    exact back_edge_agrees engine false (fun r => truthOf engine constants (cmp, false)
      (fetchWord code h) (r b) r) hstep (jump_back engine hy hagrees hj' hback') hj hback hhead
      hhead' (fun r r' hr => truthOf_congr engine hheader hr hb hc) hexit' (by simpa using hexit)
      fun r store value store' ht =>
        truthOf_pure engine hpure (comparisonOf_isComparison htest) ht
  | @stepWhile op cmp test fixnum a b c k s hop htest hfix hw hj hback hbody hs hwords hj' hback'
      hheader hsame hexit' =>
    have hstep : step engine constants code m = _ := step_guard engine
      (by rw [hw.opcode]; exact hop)
    simp only [hw.a, hw.b] at hstep
    have htruth : ∀ r : Registers, truthOf engine constants (cmp, false) (fetchWord code m.pc)
        (r a) r = truthOf engine constants (cmp, false) (fetchWord code h) (r a) r := fun r =>
      truthOf_word engine hw.c hw.k hheader.c hheader.k (by simp) (by simp) (r a) r
    simp only [htruth] at hstep
    have hhead : ∀ r store, step engine constants code ⟨h, r, store⟩ = _ := fun r store =>
      step_header engine hheader htest hfix r store
    have hhead' : ∀ r store, step engine constants code' ⟨h, r, store⟩ = _ := fun r store =>
      step_header engine (hsame ▸ hheader) htest hfix r store
    rw [hsame] at hhead'
    have hsum : numeric engine .add (m.registers a) (m.registers b) m.store = (do
        let r ← chain engine constants [s] m.registers
        pure (r a) : Eval Value) m.store := by
      simp [chain, hs.numeric engine rfl, hs.a]
    obtain ⟨rest, hrest⟩ := hwords
    have hy : run engine constants code' 1 m = _ :=
      run_chain engine (by simp [hs.straight rfl]) hrest.symm
    have hagrees : Agrees [] 1 1 (finish m a (m.pc + 1) _) _ :=
      agrees_of_chain engine hsum (by simp [hs.a])
    exact back_edge_agrees engine true (fun r => truthOf engine constants (cmp, false)
      (fetchWord code h) (r a) r) hstep (jump_back engine hy hagrees hj' hback') hj hback hhead
      hhead' (fun r r' hr => truthOf_congr engine hheader hr (by simp) (by simp)) hexit'
      (by simpa using hbody) fun r store value store' ht =>
        truthOf_pure engine hpure (comparisonOf_isComparison htest) ht

/-- Where no library global stands for a comparison, one that the tower does not decide inline is
an error. -/
lemma comparesPurely_of_none (h : ∀ op procedure, isComparison op = true →
    fastOf op = some procedure → engine.globals (libraryName procedure) = none) :
    engine.ComparesPurely := by
  intro op arguments store value store' hop hv
  obtain ⟨procedure, hp, hread⟩ : ∃ procedure, fastOf op = some procedure ∧
      ∀ heap : Heap, FastProcedure.invoke engine procedure arguments heap =
        (fastRead heap procedure arguments, heap) := by
    cases op <;> simp [isComparison] at hop <;> exact ⟨_, rfl, fun _ => rfl⟩
  unfold invokeRegisterOperation at hv
  simp only [hp] at hv
  have hfast : tryFast engine (some procedure) arguments store =
      .ok (fastRead store.heap procedure arguments, store) := by
    simp [tryFast, hread]
  rw [bind_ok hfast, h op procedure hop hp] at hv
  cases hr : fastRead store.heap procedure arguments with
  | some fast =>
    rw [hr] at hv
    cases hv
    rfl
  | none =>
    rw [hr] at hv
    cases hv

/-- **A fused instruction has the outcome of the instructions it replaces**: the same
registers but for the scratch registers, the same store, the same place to go on or the same
error, whatever the operands are; but for a counter that is the negative zero, from which a
zero is subtracted. -/
theorem fused_agrees_iff (constants : List Value) :
    (∀ fused simple scratch code code' rest rest' m,
      Sound engine m → Replaces constants fused simple scratch →
      code.drop m.pc = fused ++ rest → code'.drop m.pc = simple ++ rest' →
        ∃ n x y, 0 < n ∧ n ≤ simple.length ∧ step engine constants code m = some x ∧
          run engine constants code' n m = some y ∧
          Agrees scratch fused.length simple.length x y) ∧
    (∀ code code' steps scratch h a c m,
      Sound engine m → LoopsBack constants code code' m.pc h a c steps scratch →
        ((∃ x y, step engine constants code m = some x ∧
          run engine constants code' (steps.length + 1) m = some y ∧ Agrees scratch 0 0 x y) ↔
          ¬ SubtractsZero steps (signedByte c) (m.registers a))) ∧
    (engine.ComparesPurely → ∀ code code' steps scratch h m,
      Sound engine m → BackEdge constants code code' m.pc h steps scratch →
        ∃ n x y, (n = 1 ∨ n = 3) ∧ run engine constants code n m = some x ∧
          run engine constants code' (steps.length + 2) m = some y ∧ Agrees scratch 0 0 x y) := by
  refine ⟨fun _ _ _ _ _ _ _ _ hm h hd hd' => replaces_agrees engine h hm hd hd',
    fun _ _ _ _ _ _ _ _ hm hloop => ⟨?_, loopsBack_agrees engine hm hloop⟩,
    fun hpure _ _ _ _ _ _ hm h => backEdge_agrees engine hpure hm h⟩
  rintro ⟨x, y, hx, hy, hagrees⟩ hzero
  exact loopsBack_differs engine hloop hzero hx hy hagrees

/-- An engine whose library has sums and differences. -/
def sumEngine : Engine :=
  let owned : Object → ℕ := fun _ => 0
  { globals := fun name =>
      if name = libraryName .add then some (.heap 0)
      else if name = libraryName .subtract then some (.heap 1) else none
    natives := [⟨"+", 0, 2 ^ 64 - 1, .one fun _ => numericAdd owned, some .add⟩,
      ⟨"-", 1, 2 ^ 64 - 1, .one fun _ => numericSubtract owned, some .subtract⟩]
    scan := fun _ _ heap => (none, heap)
    owned }

/-- Their two procedures. -/
def sumHeap : Heap :=
  { cells := [⟨some (.native 0 (some .add) true false), 1⟩,
      ⟨some (.native 1 (some .subtract) true false), 1⟩]
    valueArena := [], byteArena := [], holes := [], cursor := 0, limit := 0
    regionEnd := 0, authStart := 0, currentMark := .a, liveBase := 0, dynamicBytes := 0
    slotThreshold := 8, byteThreshold := 8, minimumSlotHeadroom := 1, minimumByteHeadroom := 1
    maxSlots := 8, maxBytes := 1024, temporaryRoots := [], hostRoots := [], engineRoots := []
    rootedRegionDepth := 0, pendingCollection := false, vmActive := true }

lemma sumEngine_sound (pc : ℕ) (value : Value) (h : NormalValue sumHeap value) :
    Sound sumEngine ⟨pc, fun _ => value, ⟨sumHeap, []⟩⟩ where
  sums :=
    { add := ⟨.heap 0, 0, _, _, rfl, rfl, rfl, rfl, by decide, by decide, rfl, rfl⟩
      subtract := ⟨.heap 1, 1, _, _, rfl, rfl, rfl, rfl, by decide, by decide, rfl, rfl⟩ }
  normal := fun _ => h

lemma sumEngine_comparesPurely : sumEngine.ComparesPurely := by
  refine comparesPurely_of_none _ fun op procedure hop hp => ?_
  cases op <;> simp [isComparison] at hop <;> (obtain rfl := Option.some.inj hp; decide)

/-- A counted loop: the header leaves it when register 2 equals register 3. -/
def countedLoop : List Word :=
  [.abc .testEqual 0 2 3 false, .sj .jump 4,
    .abc .loopBackWhileNotEqual 2 2 3 false, .sj .jump 2, .sj .jump (-5)]

/-- The same loop, whose counter is stepped by a subtraction and moved before the jump. -/
def countedLoopSimple : List Word :=
  [.abc .testEqual 0 2 3 false, .sj .jump 4,
    .abc .subtract 4 2 0 true, .abc .move 2 4 0 false, .sj .jump (-5)]

lemma countedLoop_backEdge : BackEdge [.fixnum (-1)] countedLoop countedLoopSimple 2 0
    ([.abc .subtract 4 2 0 true] ++ [.abc .move 2 4 0 false]) [4] := by
  have hw : Has (fetchWord countedLoop 2) .loopBackWhileNotEqual 2 2 3 false := by
    constructor <;> decide
  have hs : Has (.abc .subtract 4 2 0 true) .subtract 4 2 0 true := by constructor <;> decide
  have hmv : Has (.abc .move 2 4 0 false) .move 2 4 0 false := by constructor <;> decide
  have hheader : Has (fetchWord countedLoop 0) .testEqual 0 2 3 false := by
    constructor <;> decide
  exact .whileNot rfl rfl (by simp) hw (by decide) (by decide) (by decide)
    (.moved (.subtract rfl hs) hmv) ⟨_, rfl⟩ (by decide) (by decide) (by decide) (by decide) hheader
    rfl (by decide)

lemma addCar_replaces (constants : List Value) : Replaces constants [.abc .addCar 2 3 0 false]
    [.abc .car 4 3 0 false, .abc .add 2 2 4 false] [4] := by
  have hw : Has (.abc .addCar 2 3 0 false) .addCar 2 3 0 false := by constructor <;> decide
  have hu : Has (.abc .car 4 3 0 false) .car 4 3 0 false := by constructor <;> decide
  have hs : Has (.abc .add 2 2 4 false) .add 2 2 4 false := by constructor <;> decide
  exact .addCar hw hu hs (by decide)

/-- A loop that takes a zero from its counter. -/
lemma zeroLoop_loopsBack : LoopsBack [.fixnum 0] [.abc .loopBack 2 0 0 false, .sj .jump (-2)]
    [.abc .subtract 2 2 0 true, .sj .jump (-2)] 0 0 2 0 [.abc .subtract 2 2 0 true] [] where
  fused := by constructor <;> decide
  back := by decide
  step := by
    have hs : Has (.abc .subtract 2 2 0 true) .subtract 2 2 0 true := by constructor <;> decide
    exact .inPlace (.subtract rfl hs)
  words := ⟨_, rfl⟩
  jump := by decide
  back' := by decide
  kept := by decide

lemma normal_fixnum (v : Int64) : NormalValue sumHeap (.fixnum v) := by
  rintro number ⟨⟩
  exact ⟨normal_integer (fits128_of_int64 v), normal_integer (by decide)⟩

lemma normal_float (x : Float) : NormalValue sumHeap (.float x) := by
  rintro number ⟨⟩
  exact ⟨trivial, normal_integer (by decide)⟩

theorem fused_agrees_loop :
    (∃ n x y, 0 < n ∧ n ≤ 2 ∧
      step sumEngine [] [.abc .addCar 2 3 0 false] ⟨0, fun _ => .fixnum 1, ⟨sumHeap, []⟩⟩ =
        some x ∧
      run sumEngine [] [.abc .car 4 3 0 false, .abc .add 2 2 4 false] n
        ⟨0, fun _ => .fixnum 1, ⟨sumHeap, []⟩⟩ = some y ∧ Agrees [4] 1 2 x y) ∧
    ((∃ x y, step sumEngine [.fixnum 0] [.abc .loopBack 2 0 0 false, .sj .jump (-2)]
        ⟨0, fun _ => .fixnum 7, ⟨sumHeap, []⟩⟩ = some x ∧
      run sumEngine [.fixnum 0] [.abc .subtract 2 2 0 true, .sj .jump (-2)] 2
        ⟨0, fun _ => .fixnum 7, ⟨sumHeap, []⟩⟩ = some y ∧ Agrees [] 0 0 x y) ↔
      ¬ SubtractsZero [.abc .subtract 2 2 0 true] (signedByte 0) (.fixnum 7)) ∧
    ∃ n x y, (n = 1 ∨ n = 3) ∧
      run sumEngine [.fixnum (-1)] countedLoop n ⟨2, fun _ => .fixnum 7, ⟨sumHeap, []⟩⟩ = some x ∧
      run sumEngine [.fixnum (-1)] countedLoopSimple 4 ⟨2, fun _ => .fixnum 7, ⟨sumHeap, []⟩⟩ =
        some y ∧ Agrees [4] 0 0 x y :=
  have hsound : ∀ pc v, Sound sumEngine ⟨pc, fun _ => .fixnum v, ⟨sumHeap, []⟩⟩ := fun pc v =>
    sumEngine_sound pc _ (normal_fixnum v)
  ⟨(fused_agrees_iff sumEngine []).1 _ _ _ _ _ [] [] _ (hsound 0 1) (addCar_replaces []) rfl rfl,
    (fused_agrees_iff sumEngine [.fixnum 0]).2.1 _ _ _ _ 0 2 0 _ (hsound 0 7) zeroLoop_loopsBack,
    (fused_agrees_iff sumEngine [.fixnum (-1)]).2.2 sumEngine_comparesPurely _ _ _ _ 0 _
      (hsound 2 7) countedLoop_backEdge⟩

/-- With the counter at the negative zero the fused word adds a zero and gives a zero, where the
subtraction keeps the negative zero. -/
theorem loopBack_loses_sign :
    Sound sumEngine ⟨0, fun _ => .float (-0.0), ⟨sumHeap, []⟩⟩ ∧
    LoopsBack [.fixnum 0] [.abc .loopBack 2 0 0 false, .sj .jump (-2)]
      [.abc .subtract 2 2 0 true, .sj .jump (-2)] 0 0 2 0 [.abc .subtract 2 2 0 true] [] ∧
    ¬ ∃ x y, step sumEngine [.fixnum 0] [.abc .loopBack 2 0 0 false, .sj .jump (-2)]
        ⟨0, fun _ => .float (-0.0), ⟨sumHeap, []⟩⟩ = some x ∧
      run sumEngine [.fixnum 0] [.abc .subtract 2 2 0 true, .sj .jump (-2)] 2
        ⟨0, fun _ => .float (-0.0), ⟨sumHeap, []⟩⟩ = some y ∧ Agrees [] 0 0 x y := by
  refine ⟨sumEngine_sound 0 _ (normal_float _), zeroLoop_loopsBack, ?_⟩
  rintro ⟨x, y, hx, hy, hagrees⟩
  have hsubtract : opcodeVerified (.abc .subtract 2 2 0 true) = .subtract := by decide
  exact loopsBack_differs sumEngine zeroLoop_loopsBack
    ⟨⟨_, by simp, hsubtract⟩, by decide, rfl⟩ hx hy hagrees

end Neetan.Primitive
