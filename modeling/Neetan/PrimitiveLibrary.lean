import Neetan.PrimitiveCalls

/-!
The library of primitives: opcodes and calls answer as the natives.

An opcode's arm answers as the native that has no view of the registers, up to the store an
error leaves; a call of the procedure answers as the native, with the view it is given.
-/

namespace Neetan.Primitive

open Neetan.Bytecode Neetan.Gc Neetan.MachineInt

/-! ### Equal up to the store of an error -/

/-- The same value and store, or the same error. -/
def SameAnswer {α : Type} (first second : Eval α) (store : Store) : Prop :=
  match first store, second store with
  | .ok result, .ok result' => result = result'
  | .error (error, _), .error (error', _) => error = error'
  | _, _ => False

lemma SameAnswer.of_eq {α : Type} {first second : Eval α} {store : Store}
    (h : first store = second store) : SameAnswer first second store := by
  unfold SameAnswer
  rw [h]
  cases second store <;> rfl

lemma SameAnswer.bind {α β : Type} {first second : Eval α} {next next' : α → Eval β}
    {store : Store} (h : SameAnswer first second store)
    (hnext : ∀ value store', second store = .ok (value, store') →
      SameAnswer (next value) (next' value) store') :
    SameAnswer (first >>= next) (second >>= next') store := by
  unfold SameAnswer at h
  cases hf : first store with
  | error failure =>
    cases hs : second store with
    | error failure' =>
      rw [hf, hs] at h
      unfold SameAnswer
      rw [bind_error hf, bind_error hs]
      exact h
    | ok result =>
      rw [hf, hs] at h
      exact h.elim
  | ok result =>
    cases hs : second store with
    | error failure =>
      rw [hf, hs] at h
      exact h.elim
    | ok result' =>
      rw [hf, hs] at h
      obtain rfl : result = result' := h
      have hcont := hnext _ _ hs
      unfold SameAnswer at hcont ⊢
      rwa [bind_ok hf, bind_ok hs]

section
variable (engine : Engine)

/-! ### Fast paths -/

lemma tryFast_some (procedure : FastProcedure) (arguments : List Value) (store : Store) :
    tryFast engine (some procedure) arguments store =
      .ok ((FastProcedure.invoke engine procedure arguments store.heap).1,
        { store with
          heap := (FastProcedure.invoke engine procedure arguments store.heap).2 }) := rfl

lemma primitiveOf_cases {op : Opcode} {procedure : FastProcedure}
    (h : primitiveOf op = some procedure) :
    op = .cons ∧ procedure = .cons ∨ op = .nullP ∧ procedure = .nullP ∨
      op = .pairP ∧ procedure = .pairP ∨ fastOf op = some procedure := by
  cases op
  case cons | nullP | pairP => cases h; simp
  all_goals exact .inr (.inr (.inr h))

lemma invoke_miss {op : Opcode} {procedure : FastProcedure} (hp : fastOf op = some procedure)
    {arguments : List Value} {heap : Heap}
    (h : (FastProcedure.invoke engine procedure arguments heap).1 = none) :
    FastProcedure.invoke engine procedure arguments heap = (none, heap) := by
  by_cases hset : op = .vectorSet
  · subst hset
    obtain rfl : FastProcedure.vectorSet = procedure := Option.some.inj hp
    unfold FastProcedure.invoke at h ⊢
    split at h <;> try cases ‹FastProcedure.vectorSet = _›
    · split at h
      · cases h
      · rfl
    · simp_all
  · have hread : FastProcedure.invoke engine procedure arguments heap =
        (fastRead heap procedure arguments, heap) := by
      cases op <;> simp [fastOf] at hp <;> subst hp <;> first | rfl | exact absurd rfl hset
    rw [hread] at h ⊢
    rw [show fastRead heap procedure arguments = none from h]

lemma operation_hit {op : Opcode} {procedure : FastProcedure} (hp : fastOf op = some procedure)
    {arguments : List Value} {store : Store} {value : Value} {heap : Heap}
    (h : FastProcedure.invoke engine procedure arguments store.heap = (some value, heap)) :
    invokeRegisterOperation engine op arguments store = .ok (value, { store with heap }) := by
  have hfast : tryFast engine (some procedure) arguments store =
      .ok (some value, { store with heap }) := by
    rw [tryFast_some, h]
  simp only [invokeRegisterOperation, hp]
  rw [bind_ok hfast]
  rfl

/-! ### Every arm is its operation -/

/-- An arm that reads inline what the fast path reads, and otherwise runs the operation, is the
operation. -/
lemma arm_eq {op : Opcode} {procedure : FastProcedure} (hp : fastOf op = some procedure)
    {arguments : List Value} {arm : Eval Value} {read : Heap → Option Value}
    (hread : ∀ heap, FastProcedure.invoke engine procedure arguments heap = (read heap, heap))
    (hit : ∀ store value, read store.heap = some value → arm store = .ok (value, store))
    (miss : ∀ store, read store.heap = none →
      arm store = invokeRegisterOperation engine op arguments store) :
    arm = invokeRegisterOperation engine op arguments := by
  funext store
  cases h : read store.heap with
  | none => exact miss store h
  | some value => rw [hit store value h, operation_hit engine hp (by rw [hread, h])]

lemma fetchVectorElement_eq (vector index : Value) :
    fetchVectorElement engine vector index =
      invokeRegisterOperation engine .vectorRef [vector, index] := by
  refine @arm_eq engine .vectorRef _ rfl _ _ _ (fun _ => rfl) ?_ ?_
  · exact fun store value h => fetchVectorElement_hit engine h
  · intro store h
    replace h : (asIndex index).bind (store.heap.vectorRef vector) = none := h
    unfold fetchVectorElement
    rw [get_bind, h]

lemma fetchCar_eq (pair : Value) :
    fetchCar engine pair = invokeRegisterOperation engine .car [pair] := by
  refine @arm_eq engine .car _ rfl _ _ _ (fun _ => rfl) ?_ ?_
  · intro store value h
    obtain ⟨⟨car, cdr⟩, hpair, rfl⟩ := Option.map_eq_some_iff.mp h
    unfold fetchCar
    rw [get_bind, hpair]
    rfl
  · intro store h
    replace h : store.heap.pair pair = none := Option.map_eq_none_iff.mp h
    unfold fetchCar
    rw [get_bind, h]

lemma fetchCdr_eq (pair : Value) :
    fetchCdr engine pair = invokeRegisterOperation engine .cdr [pair] := by
  refine @arm_eq engine .cdr _ rfl _ _ _ (fun _ => rfl) ?_ ?_
  · intro store value h
    obtain ⟨⟨car, cdr⟩, hpair, rfl⟩ := Option.map_eq_some_iff.mp h
    unfold fetchCdr
    rw [get_bind, hpair]
    rfl
  · intro store h
    replace h : store.heap.pair pair = none := Option.map_eq_none_iff.mp h
    unfold fetchCdr
    rw [get_bind, h]

lemma fetchCharacter_eq (string index : Value) :
    fetchCharacter engine string index =
      invokeRegisterOperation engine .stringRef [string, index] := by
  have hread : ∀ heap, FastProcedure.invoke engine .stringRef [string, index] heap =
      (((asIndex index).bind (heap.stringRef string)).map .character, heap) := by
    intro heap
    show ((asIndex index).bind fun i => (heap.stringRef string i).map Value.character, heap) = _
    cases asIndex index <;> rfl
  refine @arm_eq engine .stringRef _ rfl _ _ _ hread ?_ ?_
  · intro store value h
    obtain ⟨character, hchar, rfl⟩ := Option.map_eq_some_iff.mp h
    unfold fetchCharacter
    rw [get_bind, hchar]
    rfl
  · intro store h
    replace h := Option.map_eq_none_iff.mp h
    unfold fetchCharacter
    rw [get_bind, h]

lemma fetchStringLength_eq (target : Value) :
    fetchStringLength engine target = invokeRegisterOperation engine .stringLength [target] := by
  refine @arm_eq engine .stringLength _ rfl _ _ _ (fun _ => rfl) ?_ ?_
  · intro store value h
    replace h : stringLength store.heap target = some value := h
    unfold fetchStringLength
    rw [get_bind, h]
    rfl
  · intro store h
    replace h : stringLength store.heap target = none := h
    unfold fetchStringLength
    rw [get_bind, h]

lemma charToInteger_eq (target : Value) :
    charToInteger engine target = invokeRegisterOperation engine .charToInteger [target] := by
  refine @arm_eq engine .charToInteger _ rfl _ _ _ (fun _ => rfl) ?_ ?_
  · intro store value h
    replace h : characterCode target = some value := h
    unfold charToInteger
    rw [h]
    rfl
  · intro store h
    replace h : characterCode target = none := h
    unfold charToInteger
    rw [h]

lemma storeVectorElement_eq (vector index value : Value) :
    storeVectorElement engine vector index value =
      invokeRegisterOperation engine .vectorSet [vector, index, value] := by
  funext store
  unfold storeVectorElement
  cases h : (asIndex index).bind fun index => store.heap.vectorSet vector index value with
  | none => rfl
  | some heap =>
    have hinvoke : FastProcedure.invoke engine .vectorSet [vector, index, value] store.heap =
        (some .unspecified, heap) := by
      simp [FastProcedure.invoke, h]
    exact (@operation_hit engine .vectorSet _ rfl _ _ _ _ hinvoke).symm

lemma opcodePrimitive_eq {op : Opcode} {procedure : FastProcedure}
    (hp : fastOf op = some procedure) {operands : List Value}
    (hfits : operands.length = operandCount op) :
    opcodePrimitive engine op operands = invokeRegisterOperation engine op operands := by
  have htower : isNumeric op = true →
      opcodePrimitive engine op operands = invokeRegisterOperation engine op operands := by
    intro hn
    obtain ⟨left, right, rfl⟩ : ∃ left right, operands = [left, right] := by
      cases op <;> simp [isNumeric, isArithmetic, isComparison] at hn <;>
        exact List.length_eq_two.mp hfits
    rw [← numericSlow_eq_operation engine hn, ← numeric_eq_slow]
    cases op <;> simp [isNumeric, isArithmetic, isComparison] at hn <;> rfl
  cases op <;> try (first | exact htower rfl | (simp [fastOf] at hp; done))
  case car =>
    obtain ⟨pair, rfl⟩ := List.length_eq_one_iff.mp hfits
    exact fetchCar_eq engine pair
  case cdr =>
    obtain ⟨pair, rfl⟩ := List.length_eq_one_iff.mp hfits
    exact fetchCdr_eq engine pair
  case vectorRef =>
    obtain ⟨vector, index, rfl⟩ := List.length_eq_two.mp hfits
    exact fetchVectorElement_eq engine vector index
  case vectorSet =>
    obtain ⟨vector, index, value, rfl⟩ := List.length_eq_three.mp hfits
    exact storeVectorElement_eq engine vector index value
  case stringRef =>
    obtain ⟨string, index, rfl⟩ := List.length_eq_two.mp hfits
    exact fetchCharacter_eq engine string index
  case stringLength =>
    obtain ⟨target, rfl⟩ := List.length_eq_one_iff.mp hfits
    exact fetchStringLength_eq engine target
  case charToInteger =>
    obtain ⟨target, rfl⟩ := List.length_eq_one_iff.mp hfits
    exact charToInteger_eq engine target

end

/-! ### The library -/

/-- The primitives `ops` are the procedures of the base library in every store that `Holds`,
and calling them keeps it so. -/
structure Library (engine : Engine) (ops : List Opcode) (Holds : Store → Prop) : Prop where
  active : ∀ store, Holds store → store.heap.vmActive = true
  ready : ∀ store, Holds store → store.heap.Ready
  installed : ∀ store op procedure, Holds store → op ∈ ops → primitiveOf op = some procedure →
    ∃ value id native, engine.globals (libraryName procedure) = some value ∧
      store.heap.object value = some (.native id (some procedure) true false) ∧
      engine.natives[id]? = some native ∧ native.fast = some procedure
  kept : ∀ view op arguments store value store', Holds store → op ∈ ops →
    nativeAnswer engine view op arguments store = .ok (value, store') → Holds store'
  /-- A comparison answers with a boolean. -/
  boolean : ∀ op left right store value store', Holds store → op ∈ ops →
    isComparison op = true →
    nativeAnswer engine none op [left, right] store = .ok (value, store') →
    ∃ truth, value = .boolean truth
  /-- The native of `cons` takes two arguments and is refused what the heap refuses. -/
  refuses : ∀ (id : ℕ) (native : NativeProcedure), .cons ∈ ops → engine.natives[id]? = some native →
    native.fast = some .cons → native.least ≤ 2 ∧ 2 ≤ native.most ∧
      ∃ run, native.callback = .one run ∧ ∀ car cdr store error heap,
        allocPair engine.owned car cdr store.heap = .error (error, heap) →
        ∃ store', run none [car, cdr] store = .error (error, store')

section
variable {engine : Engine} {ops : List Opcode} {Holds : Store → Prop}

lemma invoke_again {heap : Heap} (ha : heap.vmActive = true) (hr : heap.Ready) {op : Opcode}
    {procedure : FastProcedure} (hp : primitiveOf op = some procedure) {arguments : List Value}
    (h : (FastProcedure.invoke engine procedure arguments heap).1 = none) :
    FastProcedure.invoke engine procedure arguments
        (FastProcedure.invoke engine procedure arguments heap).2 =
      (none, (FastProcedure.invoke engine procedure arguments heap).2) := by
  rcases primitiveOf_cases hp with ⟨-, rfl⟩ | ⟨-, rfl⟩ | ⟨-, rfl⟩ | hfast
  · -- a pair was refused, and it is refused again
    unfold FastProcedure.invoke at h ⊢
    split at h <;> try cases ‹FastProcedure.cons = _›
    · cases halloc : allocPair engine.owned _ _ heap with
      | ok result =>
        rw [halloc] at h
        cases h
      | error failure =>
        obtain ⟨-, -, hagain⟩ := allocPair_refused engine.owned ha hr halloc
        simp [halloc, hagain]
    · simp_all
  · exact Prod.ext h rfl
  · exact Prod.ext h rfl
  · rw [invoke_miss engine hfast h]
    exact invoke_miss engine hfast h

lemma tryFast_again {store store' : Store} (ha : store.heap.vmActive = true)
    (hr : store.heap.Ready) {op : Opcode} {procedure : FastProcedure}
    (hp : primitiveOf op = some procedure) {arguments : List Value}
    (h : tryFast engine (some procedure) arguments store = .ok (none, store')) :
    tryFast engine (some procedure) arguments store' = .ok (none, store') := by
  rw [tryFast_some] at h
  obtain ⟨hmiss, rfl⟩ := Prod.mk.inj (Except.ok.inj h)
  rw [tryFast_some]
  simp only [invoke_again ha hr hp hmiss]

/-- After a miss of the fast path the native runs as if it had not been tried. -/
lemma invokeOne_again {store store' : Store} (ha : store.heap.vmActive = true)
    (hr : store.heap.Ready) {op : Opcode} {procedure : FastProcedure}
    (hp : primitiveOf op = some procedure) {id : ℕ} {native : NativeProcedure}
    (hid : engine.natives[id]? = some native) (hfast : native.fast = some procedure)
    {arguments : List Value} (view : View)
    (h : tryFast engine (some procedure) arguments store = .ok (none, store')) :
    invokeOne engine id view arguments store' = invokeOne engine id view arguments store := by
  have hagain := tryFast_again ha hr hp h
  unfold invokeOne
  rw [hid]
  dsimp only
  rw [hfast, bind_ok h, bind_ok hagain]

/-- So it makes no difference to a native whether its fast path is tried before. -/
lemma fast_then_invokeOne {store : Store} (ha : store.heap.vmActive = true)
    (hr : store.heap.Ready) {op : Opcode} {procedure : FastProcedure}
    (hp : primitiveOf op = some procedure) {id : ℕ} {native : NativeProcedure}
    (hid : engine.natives[id]? = some native) (hfast : native.fast = some procedure)
    (view : View) (arguments : List Value) :
    callNativeInline engine id (some procedure) view arguments store =
      invokeOne engine id view arguments store := by
  unfold callNativeInline
  cases h : FastProcedure.invoke engine procedure arguments store.heap with
  | mk value heap =>
    have htry : tryFast engine (some procedure) arguments store =
        .ok (value, { store with heap }) := by
      rw [tryFast_some, h]
    rw [bind_ok htry]
    cases value with
    | none => exact invokeOne_again ha hr hp hid hfast view htry
    | some value =>
      unfold invokeOne
      rw [hid]
      dsimp only
      rw [hfast, bind_ok htry]

lemma Library.native (library : Library engine ops Holds) {store : Store} (hs : Holds store)
    {op : Opcode} (hop : op ∈ ops) {procedure : FastProcedure}
    (hp : primitiveOf op = some procedure) :
    ∃ id native, engine.natives[id]? = some native ∧ native.fast = some procedure ∧
      (∀ view arguments, nativeAnswer engine view op arguments store =
        invokeOne engine id view arguments store) ∧
      ∀ view arguments, callPrimitive engine view op arguments store =
        callNativeInline engine id (some procedure) view arguments store := by
  obtain ⟨value, id, native, hglobal, hobject, hid, hfast⟩ :=
    library.installed store op procedure hs hop hp
  have hvalue : procedureOf engine op = some value := by simp [procedureOf, hp, hglobal]
  have hnative : store.heap.native value = some id := by simp [Heap.native, hobject]
  refine ⟨id, native, hid, hfast, fun view arguments => ?_, fun view arguments => ?_⟩
  · unfold nativeAnswer
    rw [get_bind, hvalue]
    simp only [Option.bind_some, hnative]
  · unfold callPrimitive
    rw [get_bind, hvalue]
    simp only [Option.bind_some, hobject]

lemma Library.callPrimitive_eq (library : Library engine ops Holds) {store : Store}
    (hs : Holds store) {op : Opcode} (hop : op ∈ ops) {procedure : FastProcedure}
    (hp : primitiveOf op = some procedure) (view : View) (arguments : List Value) :
    callPrimitive engine view op arguments store =
      nativeAnswer engine view op arguments store := by
  obtain ⟨id, native, hid, hfast, hanswer, hcall⟩ := library.native hs hop hp
  rw [hanswer, hcall]
  exact fast_then_invokeOne (library.active store hs) (library.ready store hs) hp hid hfast view
    arguments

lemma Library.nativeAnswer_hit (library : Library engine ops Holds) {store : Store}
    (hs : Holds store) {op : Opcode} (hop : op ∈ ops) {procedure : FastProcedure}
    (hp : primitiveOf op = some procedure) (view : View) {arguments : List Value}
    {value : Value} {heap : Heap}
    (h : FastProcedure.invoke engine procedure arguments store.heap = (some value, heap)) :
    nativeAnswer engine view op arguments store = .ok (value, { store with heap }) := by
  obtain ⟨id, native, hid, hfast, hanswer, -⟩ := library.native hs hop hp
  have htry : tryFast engine (some procedure) arguments store =
      .ok (some value, { store with heap }) := by
    rw [tryFast_some, h]
  rw [hanswer]
  unfold invokeOne
  rw [hid]
  dsimp only
  rw [hfast, bind_ok htry]
  rfl

lemma Library.operation_eq (library : Library engine ops Holds) {store : Store}
    (hs : Holds store) {op : Opcode} (hop : op ∈ ops) {procedure : FastProcedure}
    (hp : fastOf op = some procedure) (arguments : List Value) :
    invokeRegisterOperation engine op arguments store =
      nativeAnswer engine none op arguments store := by
  have hprimitive : primitiveOf op = some procedure := by
    cases op <;> simp [fastOf] at hp <;> exact congrArg some hp
  obtain ⟨value, id, native, hglobal, hobject, hid, hfast⟩ :=
    library.installed store op procedure hs hop hprimitive
  have hnative : store.heap.native value = some id := by simp [Heap.native, hobject]
  cases h : FastProcedure.invoke engine procedure arguments store.heap with
  | mk result heap =>
    cases result with
    | some value =>
      rw [operation_hit engine hp h, library.nativeAnswer_hit hs hop hprimitive none h]
    | none =>
      -- nothing has changed, and the native behind the global runs
      have hmiss := invoke_miss engine hp (congrArg Prod.fst h)
      have htry : tryFast engine (some procedure) arguments store = .ok (none, store) := by
        rw [tryFast_some, hmiss]
      have hvalue : procedureOf engine op = some value := by
        simp [procedureOf, hprimitive, hglobal]
      unfold nativeAnswer
      rw [get_bind, hvalue]
      simp only [Option.bind_some, hnative, invokeRegisterOperation, hp]
      rw [bind_ok htry]
      simp only [hglobal]
      rw [get_bind]
      simp only [hnative]

lemma inRootedRegion_error {α : Type} {run : Eval α} {store store' : Store} {error : Error}
    (h : run { store with
      heap := { store.heap with rootedRegionDepth := store.heap.rootedRegionDepth + 1 } } =
      .error (error, store')) : ∃ after, inRootedRegion run store = .error (error, after) := by
  unfold inRootedRegion
  dsimp only
  rw [h]
  exact ⟨_, rfl⟩

/-- A pair that the heap refuses is refused by the native of `cons`, with the same error. -/
lemma Library.cons_sameAnswer (library : Library engine ops Holds) {store : Store}
    (hs : Holds store) (hop : .cons ∈ ops) (car cdr : Value) :
    SameAnswer (cons engine car cdr) (nativeAnswer engine none .cons [car, cdr]) store := by
  cases halloc : allocPair engine.owned car cdr store.heap with
  | ok result =>
    have hinvoke : FastProcedure.invoke engine .cons [car, cdr] store.heap =
        (some result.1, result.2) := by
      simp [FastProcedure.invoke, halloc]
    apply SameAnswer.of_eq
    rw [library.nativeAnswer_hit hs hop rfl none hinvoke]
    show onHeap (allocPair engine.owned car cdr) store = _
    simp only [onHeap, halloc]
  | error failure =>
    obtain ⟨error, heap⟩ := failure
    obtain ⟨id, native, hid, hfast, hanswer, -⟩ :=
      library.native hs hop (rfl : primitiveOf .cons = some .cons)
    obtain ⟨hleast, hmost, run, hcallback, hrun⟩ := library.refuses id native hop hid hfast
    obtain ⟨hactive, hexhausted, -⟩ := allocPair_refused engine.owned (library.active store hs)
      (library.ready store hs) halloc
    -- the callback finds the heap as it was refused, but for the region it has entered
    let entered : Heap := { heap with rootedRegionDepth := heap.rootedRegionDepth + 1 }
    have hentered : entered.Exhausted error := ⟨hexhausted.used, hexhausted.refuses⟩
    have hagain : entered.vmActive = true := hactive
    obtain ⟨store', hfail⟩ := hrun car cdr { store with heap := entered } error _
      (allocPair_exhausted engine.owned hagain hentered car cdr)
    have htry : tryFast engine (some .cons) [car, cdr] store = .ok (none, { store with heap }) := by
      rw [tryFast_some]
      simp [FastProcedure.invoke, halloc]
    have harity : ¬ ([car, cdr].length < native.least ∨ native.most < [car, cdr].length) := by
      simp only [List.length_cons, List.length_nil]
      omega
    obtain ⟨after, hregion⟩ :
        ∃ after, inRootedRegion (run none [car, cdr]) { store with heap } = .error (error, after) :=
      inRootedRegion_error hfail
    have hnative : nativeAnswer engine none .cons [car, cdr] store = .error (error, after) := by
      rw [hanswer]
      unfold invokeOne
      rw [hid]
      dsimp only
      rw [hfast, bind_ok htry]
      dsimp only
      rw [if_neg harity, hcallback]
      exact hregion
    have hopcode : cons engine car cdr store = .error (error, { store with heap }) := by
      show onHeap (allocPair engine.owned car cdr) store = _
      simp only [onHeap, halloc]
    unfold SameAnswer
    rw [hopcode, hnative]

lemma Library.primitive_sameAnswer (library : Library engine ops Holds) {store : Store}
    (hs : Holds store) (op : Opcode) (operands : List Value) (hop : op ∈ ops)
    (h : (primitiveOf op).isSome = true) (hfits : operands.length = operandCount op) :
    SameAnswer (opcodePrimitive engine op operands) (nativeAnswer engine none op operands)
      store := by
  obtain ⟨procedure, hp⟩ := Option.isSome_iff_exists.mp h
  rcases primitiveOf_cases hp with ⟨rfl, rfl⟩ | ⟨rfl, rfl⟩ | ⟨rfl, rfl⟩ | hfast
  · obtain ⟨car, cdr, rfl⟩ := List.length_eq_two.mp hfits
    exact library.cons_sameAnswer hs hop car cdr
  · obtain ⟨target, rfl⟩ := List.length_eq_one_iff.mp hfits
    apply SameAnswer.of_eq
    rw [library.nativeAnswer_hit hs hop hp none rfl]
    rfl
  · obtain ⟨target, rfl⟩ := List.length_eq_one_iff.mp hfits
    apply SameAnswer.of_eq
    rw [library.nativeAnswer_hit hs hop hp none rfl]
    rfl
  · apply SameAnswer.of_eq
    rw [opcodePrimitive_eq engine hfast hfits]
    exact library.operation_eq hs hop hfast operands

/-! ### Instructions -/

lemma SameAnswer.writes {first second : Eval Value} {store : Store}
    (h : SameAnswer first second store) : SameAnswer (writes first) (writes second) store :=
  h.bind fun _ _ _ => .of_eq rfl

lemma SameAnswer.branches {first second : Eval Bool} {store : Store}
    (h : SameAnswer first second store) : SameAnswer (branches first) (branches second) store :=
  h.bind fun _ _ _ => .of_eq rfl

lemma Library.numeric_sameAnswer (library : Library engine ops Holds) {store : Store}
    (hs : Holds store) {op : Opcode} (hop : op ∈ ops) (hn : isNumeric op = true)
    (left right : Value) :
    SameAnswer (numeric engine op left right) (nativeAnswer engine none op [left, right])
      store := by
  have hp : (primitiveOf op).isSome = true ∧ [left, right].length = operandCount op ∧
      opcodePrimitive engine op [left, right] = numeric engine op left right := by
    cases op <;> simp [isNumeric, isArithmetic, isComparison] at hn <;> exact ⟨rfl, rfl, rfl⟩
  rw [← hp.2.2]
  exact library.primitive_sameAnswer hs op _ hop hp.1 hp.2.1

/-- A comparison answers with a boolean, so the two tests of its truth agree. -/
lemma Library.comparison_sameAnswer (library : Library engine ops Holds) {store : Store}
    (hs : Holds store) {op : Opcode} (hop : op ∈ ops) (h : isComparison op = true)
    (left right : Value) {α : Type} (next : Bool → α) :
    SameAnswer
      (do
        let truth ← numeric engine op left right
        pure (next (isTrue truth)))
      (do
        let truth ← nativeAnswer engine none op [left, right]
        pure (next (truthy truth))) store := by
  have hn : isNumeric op = true := by simp [isNumeric, h]
  refine (library.numeric_sameAnswer hs hop hn left right).bind fun value store' hv => ?_
  obtain ⟨truth, rfl⟩ := library.boolean op left right store value store' hs hop h hv
  exact .of_eq rfl

lemma Library.opcode_sameAnswer {form : Form} (library : Library engine form.ops Holds)
    {store : Store} (hs : Holds store) :
    SameAnswer (opcodeAnswer engine form) (form.run (nativeAnswer engine none)) store := by
  have comparison_of : ∀ {op : Opcode},
      op = .numericEqual ∨ op = .numericLess ∨ op = .numericLessEqual →
        isComparison op = true := by
    rintro op (rfl | rfl | rfl) <;> rfl
  have numeric_of : ∀ {op : Opcode}, op = .add ∨ op = .subtract → isNumeric op = true := by
    rintro op (rfl | rfl) <;> rfl
  -- each constructor is its primitives in order; a later one starts where the one before ended
  cases form with
  | primitive op operands h fits =>
    exact (library.primitive_sameAnswer hs op operands (by simp [Form.ops]) h fits).writes
  | test op left right h =>
    exact (library.comparison_sameAnswer hs (by simp [Form.ops]) h left right id).branches
  | testFixnum op left constant h =>
    simp only [opcodeAnswer, testFixnum_eq engine h]
    exact (library.comparison_sameAnswer hs (by simp [Form.ops]) (comparison_of h) _ _ id).branches
  | testNull target =>
    have hit := library.nativeAnswer_hit hs (by simp [Form.ops])
      (rfl : primitiveOf .nullP = some .nullP) none
      (rfl : FastProcedure.invoke engine .nullP [target] store.heap = _)
    refine SameAnswer.branches (.of_eq ?_)
    rw [bind_ok hit]
    rfl
  | testPair target =>
    have hit := library.nativeAnswer_hit hs (by simp [Form.ops])
      (rfl : primitiveOf .pairP = some .pairP) none
      (rfl : FastProcedure.invoke engine .pairP [target] store.heap = _)
    refine SameAnswer.branches (.of_eq ?_)
    rw [bind_ok hit]
    rfl
  | testVectorRef vector index =>
    have helement := library.primitive_sameAnswer hs .vectorRef [vector, index]
      (by simp [Form.ops]) rfl rfl
    exact (helement.bind fun _ _ _ => .of_eq rfl).branches
  | addVectorRef accumulator vector index =>
    have helement := library.primitive_sameAnswer hs .vectorRef [vector, index]
      (by simp [Form.ops]) rfl rfl
    refine (helement.bind fun element store' h => ?_).writes
    have hs' := library.kept _ _ _ _ _ _ hs (by simp [Form.ops]) h
    exact library.numeric_sameAnswer hs' (by simp [Form.ops]) rfl accumulator element
  | addCar accumulator pair =>
    have helement := library.primitive_sameAnswer hs .car [pair] (by simp [Form.ops]) rfl rfl
    refine (helement.bind fun element store' h => ?_).writes
    have hs' := library.kept _ _ _ _ _ _ hs (by simp [Form.ops]) h
    exact library.numeric_sameAnswer hs' (by simp [Form.ops]) rfl accumulator element
  | addStringRefCode accumulator string index =>
    simp only [opcodeAnswer, addStringRefCode_eq]
    have hcharacter := library.primitive_sameAnswer hs .stringRef [string, index]
      (by simp [Form.ops]) rfl rfl
    refine (hcharacter.bind fun character store' h => ?_).writes
    have hs' := library.kept _ _ _ _ _ _ hs (by simp [Form.ops]) h
    have hcode := library.primitive_sameAnswer hs' .charToInteger [character]
      (by simp [Form.ops]) rfl rfl
    refine hcode.bind fun code store'' h => ?_
    have hs'' := library.kept _ _ _ _ _ _ hs' (by simp [Form.ops]) h
    exact library.numeric_sameAnswer hs'' (by simp [Form.ops]) rfl accumulator code
  | mul step left right accumulator hstep =>
    simp only [opcodeAnswer, mulArm_eq engine hstep]
    have hproduct := library.numeric_sameAnswer hs (by simp [Form.ops])
      (rfl : isNumeric .multiply = true) left right
    refine (hproduct.bind fun product store' h => ?_).writes
    have hs' := library.kept _ _ _ _ _ _ hs (by simp [Form.ops]) h
    exact library.numeric_sameAnswer hs' (by simp [Form.ops]) (numeric_of hstep) accumulator
      product
  | addMulVectorRef accumulator vector index vector2 index2 =>
    simp only [opcodeAnswer, addMulVectorRef_eq]
    have hfirst := library.primitive_sameAnswer hs .vectorRef [vector, index]
      (by simp [Form.ops]) rfl rfl
    refine (hfirst.bind fun first store' h => ?_).writes
    have hs' := library.kept _ _ _ _ _ _ hs (by simp [Form.ops]) h
    have hsecond := library.primitive_sameAnswer hs' .vectorRef [vector2, index2]
      (by simp [Form.ops]) rfl rfl
    refine hsecond.bind fun second mid h => ?_
    have hmid := library.kept _ _ _ _ _ _ hs' (by simp [Form.ops]) h
    have hproduct := library.numeric_sameAnswer hmid (by simp [Form.ops])
      (rfl : isNumeric .multiply = true) first second
    refine hproduct.bind fun product last h => ?_
    have hlast := library.kept _ _ _ _ _ _ hmid (by simp [Form.ops]) h
    exact library.numeric_sameAnswer hlast (by simp [Form.ops]) rfl accumulator product
  | vectorRefVectorRef vector index outerIndex =>
    simp only [opcodeAnswer, vectorRefVectorRef_eq]
    have hinner := library.primitive_sameAnswer hs .vectorRef [vector, index]
      (by simp [Form.ops]) rfl rfl
    refine (hinner.bind fun inner store' h => ?_).writes
    have hs' := library.kept _ _ _ _ _ _ hs (by simp [Form.ops]) h
    exact library.primitive_sameAnswer hs' .vectorRef [inner, outerIndex] (by simp [Form.ops])
      rfl rfl
  | fixnumK op left constant h =>
    simp only [opcodeAnswer, numericFixnumK_eq engine h]
    exact (library.numeric_sameAnswer hs (by simp [Form.ops]) (numeric_of h) _ _).writes
  | addSubFixnumK value add subtract =>
    simp only [opcodeAnswer, addSubFixnumK_eq]
    have hsum := library.numeric_sameAnswer hs (by simp [Form.ops])
      (rfl : isNumeric .add = true) value (.fixnum add)
    refine (hsum.bind fun sum store' h => ?_).writes
    have hs' := library.kept _ _ _ _ _ _ hs (by simp [Form.ops]) h
    exact library.numeric_sameAnswer hs' (by simp [Form.ops]) rfl sum (.fixnum subtract)
  | loopBack counter step =>
    simp only [opcodeAnswer, stepCounter_eq]
    exact (library.numeric_sameAnswer hs (by simp [Form.ops]) rfl counter (.fixnum step)).writes
  | loopBackWhileNot op counter left right h =>
    simp only [opcodeAnswer, stepCounter_eq]
    have hnext := library.numeric_sameAnswer hs (by simp [Form.ops])
      (rfl : isNumeric .add = true) counter (.fixnum 1)
    refine hnext.bind fun next store' hv => ?_
    have hs' := library.kept _ _ _ _ _ _ hs (by simp [Form.ops]) hv
    exact library.comparison_sameAnswer hs' (by simp [Form.ops]) h _ _
      fun truth => (⟨some next, some truth⟩ : Effect)
  | loopBackWhileNotFixnum op counter left constant h =>
    simp only [opcodeAnswer, stepCounter_eq, testFixnum_eq engine h]
    have hnext := library.numeric_sameAnswer hs (by simp [Form.ops])
      (rfl : isNumeric .add = true) counter (.fixnum 1)
    refine hnext.bind fun next store' hv => ?_
    have hs' := library.kept _ _ _ _ _ _ hs (by simp [Form.ops]) hv
    simpa only [bind_assoc, pure_bind] using
      library.comparison_sameAnswer hs' (by simp [Form.ops]) (comparison_of h) (left next)
        (.fixnum constant) fun truth => (⟨some next, some truth⟩ : Effect)
  | loopBackStepWhile op counter step bound h =>
    have hnext := library.numeric_sameAnswer hs (by simp [Form.ops])
      (rfl : isNumeric .add = true) counter step
    refine hnext.bind fun next store' hv => ?_
    have hs' := library.kept _ _ _ _ _ _ hs (by simp [Form.ops]) hv
    exact library.comparison_sameAnswer hs' (by simp [Form.ops]) h _ _
      fun truth => (⟨some next, some truth⟩ : Effect)

/-! ### Calls -/

lemma bind_congr_at {α β : Type} {first second : Eval α} {next next' : α → Eval β}
    {store : Store} (h : first store = second store)
    (hnext : ∀ value store', second store = .ok (value, store') →
      next value store' = next' value store') :
    (first >>= next) store = (second >>= next') store := by
  cases hs : second store with
  | error failure => rw [bind_error (h.trans hs), bind_error hs]
  | ok result => rw [bind_ok (h.trans hs), bind_ok hs, hnext _ _ hs]

/-- Calls that answer alike come to the same when they are made one after the other. -/
lemma Form.run_congr {form : Form} {call call' : Opcode → List Value → Eval Value}
    (h : ∀ op arguments store, Holds store → op ∈ form.ops →
      call op arguments store = call' op arguments store)
    (hkept : ∀ op arguments store value store', Holds store → op ∈ form.ops →
      call' op arguments store = .ok (value, store') → Holds store')
    {store : Store} (hs : Holds store) : form.run call store = form.run call' store := by
  have one : ∀ {α : Type} {op : Opcode} {arguments : List Value} {next next' : Value → Eval α}
      {store : Store}, Holds store → op ∈ form.ops →
      (∀ value store', Holds store' → next value store' = next' value store') →
      (call op arguments >>= next) store = (call' op arguments >>= next') store := by
    intro α op arguments next next' store hs hop hnext
    exact bind_congr_at (h op arguments store hs hop) fun value store' hv =>
      hnext value store' (hkept op arguments store value store' hs hop hv)
  cases form <;> simp only [Form.run, writes, branches, bind_assoc] <;>
    repeat first
      | rfl
      | refine one (by assumption) (by simp [Form.ops]) fun _ _ _ => ?_

lemma Form.ops_primitive (form : Form) : ∀ op ∈ form.ops, (primitiveOf op).isSome = true := by
  have hcomparison : ∀ {op : Opcode}, isComparison op = true → (primitiveOf op).isSome = true := by
    intro op h
    cases op <;> simp [isComparison] at h <;> rfl
  have hequal : ∀ {op : Opcode}, op = .numericEqual ∨ op = .numericLess ∨ op = .numericLessEqual →
      (primitiveOf op).isSome = true := by
    rintro op (rfl | rfl | rfl) <;> rfl
  have hstep : ∀ {op : Opcode}, op = .add ∨ op = .subtract → (primitiveOf op).isSome = true := by
    rintro op (rfl | rfl) <;> rfl
  cases form <;>
    simp only [Form.ops, List.forall_mem_cons, List.not_mem_nil, false_imp_iff, implies_true,
      and_true]
  case primitive h _ => exact h
  case test h => exact hcomparison h
  case testFixnum h => exact hequal h
  case fixnumK h => exact hstep h
  case mul h => exact ⟨rfl, hstep h⟩
  case loopBackWhileNot h | loopBackStepWhile h => exact ⟨rfl, hcomparison h⟩
  case loopBackWhileNotFixnum h => exact ⟨rfl, hequal h⟩
  all_goals simp [primitiveOf, fastOf]

lemma Library.call_eq {form : Form} (library : Library engine form.ops Holds) {store : Store}
    (hs : Holds store) (view : View) :
    form.run (callPrimitive engine view) store = form.run (nativeAnswer engine view) store := by
  refine @Form.run_congr Holds form _ _ ?_ ?_ store hs
  · intro op arguments store hs hop
    obtain ⟨procedure, hp⟩ := Option.isSome_iff_exists.mp (form.ops_primitive op hop)
    exact library.callPrimitive_eq hs hop hp view arguments
  · exact fun op arguments store value store' => library.kept view op arguments store value store'

end

end Neetan.Primitive
