import Neetan.PrimitiveLibrary

/-!
Opcodes of primitives against calls of the same procedures: when they have the same outcome.
-/

namespace Neetan.Primitive

open Neetan.Bytecode Neetan.Gc Neetan.MachineInt

section
variable (engine : Engine)

/-- What the natives of the primitives come to. -/
def nativeDelivery (view : View) (form : Form) (store : Store) : Delivery × Store :=
  match form.run (nativeAnswer engine view) store with
  | .ok (effect, store) => (.completes effect, store)
  | .error (error, store) => (.leaves error, store)

/-- The natives do not depend on the view of the registers: a collection that falls due in them
makes no difference. -/
def Unswayed (view : View) (form : Form) (store : Store) : Prop :=
  SameDelivery (nativeDelivery engine none form store) (nativeDelivery engine view form store)

/-- The natives raise no error on these operands. -/
def Accepts (form : Form) (store : Store) : Prop :=
  ∃ effect store', form.run (nativeAnswer engine none) store = .ok (effect, store')

/-- The natives raise an error, and the condition for the handler cannot be made because of
the same error. -/
def Unhandled (view : View) (handlers : List Value) (form : Form) (store : Store) : Prop :=
  ∃ error raised store' store'' last,
    form.run (nativeAnswer engine none) store = .error (error, store') ∧
    form.run (nativeAnswer engine view) store = .error (raised, store'') ∧
    invokeErrorHandler engine handlers raised store'' = .error (error, last)

lemma invokeErrorHandler_handles {handlers : List Value} {error : Error} {store store' : Store}
    {delivery : Delivery}
    (h : invokeErrorHandler engine handlers error store = .ok (delivery, store')) :
    ∃ handler condition rest, delivery = .handles handler condition rest := by
  cases handlers with
  | nil => cases h
  | cons handler rest =>
    unfold invokeErrorHandler at h
    dsimp only at h
    cases hm : onHeap (allocString engine.owned error.message) store with
    | error failure =>
      rw [bind_error hm] at h
      cases h
    | ok message =>
      rw [bind_ok hm] at h
      cases ho : onHeap (alloc engine.owned (.error message.1 [] (conditionKind error.kind)))
          message.2 with
      | error failure =>
        rw [bind_error ho] at h
        cases h
      | ok object =>
        rw [bind_ok ho] at h
        cases h
        exact ⟨_, _, _, rfl⟩

lemma not_completes_of_error (handlers : List Value) (effect : Effect) (store : Store)
    (failure : Error × Store) :
    ¬ SameDelivery (.completes effect, store)
      (match invokeErrorHandler engine handlers failure.1 failure.2 with
        | .ok result => result
        | .error (error, store) => (.leaves error, store)) := by
  intro h
  cases hh : invokeErrorHandler engine handlers failure.1 failure.2 with
  | error last =>
    rw [hh] at h
    exact h
  | ok result =>
    obtain ⟨delivery, store'⟩ := result
    obtain ⟨handler, condition, rest, rfl⟩ := invokeErrorHandler_handles engine hh
    rw [hh] at h
    exact h

end

/-- A heap that holds the procedure `car` and a handler. -/
def carHeap : Heap :=
  { cells := [⟨some (.native 0 (some .car) true false), metaYoung⟩,
      ⟨some (.native 1 none true false), metaYoung⟩]
    valueArena := [], byteArena := [], holes := [], cursor := 2, limit := 2, regionEnd := 2
    authStart := 0, currentMark := .a, liveBase := 0, dynamicBytes := 0, slotThreshold := 64
    byteThreshold := 65536, minimumSlotHeadroom := 1, minimumByteHeadroom := 1, maxSlots := 64
    maxBytes := 65536, temporaryRoots := [], hostRoots := [], engineRoots := [.heap 0]
    rootedRegionDepth := 0, pendingCollection := false, vmActive := true }

/-- An engine with the native of `car`, which refuses a fixnum. -/
def carEngine : Engine where
  globals name := if name = libraryName .car then some (.heap 0) else none
  natives := [⟨"car", 1, 1, .one fun _ _ =>
    fail ⟨.typeError, "expected pair, received Fixnum"⟩, some .car⟩]
  scan _ _ := pure none
  owned _ := 0

def Delivery.isHandled : Delivery → Bool
  | .handles .. => true
  | _ => false

def carOfFixnum : Form := .primitive .car [.fixnum 5] rfl rfl

lemma carEngine_answer {view : View} {arguments : List Value} {value : Value} {store : Store}
    (h : nativeAnswer carEngine view .car arguments ⟨carHeap, []⟩ = .ok (value, store)) :
    store = ⟨carHeap, []⟩ := by
  have hglobal : procedureOf carEngine .car = some (.heap 0) := by
    simp [procedureOf, primitiveOf, fastOf, carEngine]
  have hnative : carHeap.native (.heap 0) = some 0 := rfl
  have htry : tryFast carEngine (some .car) arguments ⟨carHeap, []⟩ =
      .ok (fastRead carHeap .car arguments, ⟨carHeap, []⟩) := rfl
  unfold nativeAnswer at h
  rw [get_bind, hglobal] at h
  simp only [Option.bind_some, hnative] at h
  unfold invokeOne at h
  simp only [carEngine, List.getElem?_cons_zero] at h
  rw [← carEngine, bind_ok htry] at h
  cases hread : fastRead carHeap .car arguments with
  | some found =>
    rw [hread] at h
    cases h
    rfl
  | none =>
    rw [hread] at h
    dsimp only at h
    split_ifs at h <;> cases h

lemma carLibrary : Library carEngine carOfFixnum.ops (· = ⟨carHeap, []⟩) := by
  have hops : ∀ op ∈ carOfFixnum.ops, op = .car := fun op h => List.mem_singleton.mp h
  constructor
  · rintro _ rfl
    rfl
  · rintro _ rfl
    refine ⟨⟨le_rfl, ?_, by simp [carHeap], by simp [carHeap], by simp [carHeap]⟩,
      ⟨by simp [carHeap], by simp [carHeap], by simp [carHeap]⟩⟩
    intro k hk hk'
    exact absurd hk' (not_lt.mpr hk)
  · rintro _ op procedure rfl hop hp
    obtain rfl := hops op hop
    obtain rfl : FastProcedure.car = procedure := Option.some.inj hp
    exact ⟨.heap 0, 0, _, by simp [carEngine], rfl, rfl, rfl⟩
  · rintro view op arguments _ value store' rfl hop h
    obtain rfl := hops op hop
    exact carEngine_answer h
  · rintro op left right _ value store' rfl hop h
    obtain rfl := hops op hop
    cases h
  · intro id native hop
    cases hops _ hop

end Neetan.Primitive
