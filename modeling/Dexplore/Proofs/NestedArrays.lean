import Dexplore.Proofs.ArrayStores

/-!
# Stores through an array of another array

Arrays lie inside each other by value.  An array that is taken out of another one is a copy, and
a store into the copy makes the path forget the arrays of its type that it finds in registers and
static fields, but looks into none of them.  So the outer array still holds the old contents of
the inner one, and a path that takes the inner array out again reads what was there before the
store (`Instruction.reads_after_nested_store`).  Only an outer array of the very type of the inner
one is forgotten as a whole.
-/

set_option autoImplicit false

namespace Dexplore

namespace Value

theorem elementAt_forgetArrayOf (value index : Value) (type : TypeDescriptor) :
    value.elementAt (Frame.forgetArrayOf type index) = value.elementAt index := by
  unfold Frame.forgetArrayOf
  split
  · next isArray =>
      cases index with
      | array => rfl
      | unknown | scalar => cases isArray
  · rfl

/-- What a path finds in an outer array after the arrays of the inner type were forgotten. -/
theorem elementAt_elementAt_forgetArrayOf {outerType innerType : TypeDescriptor}
    {outer inner : List Value} {place : Value}
    (isInner : (array outerType outer).elementAt place = array innerType inner) (offset : Value) :
    ((Frame.forgetArrayOf innerType (array outerType outer)).elementAt place).elementAt offset =
      if outerType = innerType then unknown outerType.component.component
      else (array innerType inner).elementAt offset := by
  rw [Frame.forgetArrayOf_eq]
  by_cases same : outerType = innerType
  · subst same
    have isArray : (array outerType outer).isArrayOf outerType = true := by
      simp [isArrayOf, isMutable, elements?, type]
    rw [if_pos isArray, if_pos rfl]
    rfl
  · have notArray : ¬(array outerType outer).isArrayOf innerType = true := by
      simp [isArrayOf, type, same]
    rw [if_neg notArray, if_neg same, isInner]

end Value

namespace Instruction

variable {setup : Setup} {calls : Calls} {method : String} {instruction : Instruction}
  {scene : Scene} {dest src array index : Register} {value place stored : Value}

theorem exists_after_arrayGet (setup : Setup) (calls : Calls) (method : String)
    (isGet : instruction.op = .arrayGet dest array index)
    (readArray : scene.frame.read array = .ok value)
    (readIndex : scene.frame.read index = .ok place)
    (inside : dest < scene.frame.registerCount) :
    ∃ after, instruction.execute setup calls method scene =
        .ok [instruction.next] after ∧
      after.frame.registerCount = scene.frame.registerCount ∧
      after.frame.read dest = .ok (value.elementAt place) ∧
      ∀ register held, register ≠ dest → scene.frame.read register = .ok held →
        after.frame.read register = .ok held := by
  obtain ⟨frame, written⟩ : ∃ frame,
      scene.frame.write dest (value.elementAt place) = .ok frame := ⟨_, if_pos inside⟩
  have reads := Frame.read_write written
  refine ⟨{ scene with frame }, ?_, Frame.registerCount_write written, ?_, ?_⟩
  · unfold execute
    rw [isGet]
    refine Step.bind_eq_ok.mpr ⟨(), _, ?_, rfl⟩
    refine Step.bind_eq_ok.mpr ⟨value, scene, Step.read_eq_ok.mpr ⟨readArray, rfl⟩, ?_⟩
    refine Step.bind_eq_ok.mpr ⟨place, scene, Step.read_eq_ok.mpr ⟨readIndex, rfl⟩, ?_⟩
    exact Step.write_eq_ok.mpr ⟨frame, written, rfl⟩
  · rw [reads, if_pos rfl]
  · intro register held other isRead
    rw [reads, if_neg other, isRead]

theorem exists_after_arrayPut (setup : Setup) (calls : Calls) (method : String)
    (isStore : instruction.op = .arrayPut src array index)
    (readSrc : scene.frame.read src = .ok stored)
    (readArray : scene.frame.read array = .ok value)
    (readIndex : scene.frame.read index = .ok place) :
    ∃ after, instruction.execute setup calls method scene =
        .ok [instruction.next] after ∧
      after.frame.registerCount = scene.frame.registerCount ∧
      after.frame.read array = .ok (value.storeElement place stored) ∧
      ∀ register held, register ≠ array → scene.frame.read register = .ok held →
        after.frame.read register = .ok (Frame.forgetArrayOf value.type held) := by
  have registers := scene.world.statics.getElem?_afterStore scene.frame array value place stored
  refine ⟨⟨scene.world.statics.afterStore scene.frame array value place stored, scene.world⟩,
    ?_, ?_, ?_, ?_⟩
  · unfold execute
    rw [isStore]
    exact Step.bind_eq_ok.mpr ⟨(), _, Step.arrayPut_eq readSrc readArray readIndex, rfl⟩
  · exact scene.world.statics.registerCount_afterStore scene.frame array value place stored
  · rw [Frame.read_eq_ok_iff, registers, Frame.read_eq_ok_iff.mp readArray]
    simp
  · intro register held other isRead
    rw [Frame.read_eq_ok_iff, registers, Frame.read_eq_ok_iff.mp isRead]
    simp [other]

def executeAll (setup : Setup) (calls : Calls) (method : String) : List Instruction → Step Unit
  | [] => pure ()
  | first :: rest => do
    let _ ← first.execute setup calls method
    executeAll setup calls method rest

theorem executeAll_cons {first : Instruction} {rest : List Instruction} {middle after : Scene}
    {ways : List Address} (run : first.execute setup calls method scene = .ok ways middle)
    (others : executeAll setup calls method rest middle = .ok () after) :
    executeAll setup calls method (first :: rest) scene = .ok () after :=
  Step.bind_eq_ok.mpr ⟨ways, middle, run, others⟩

/-- A store through an array that was taken out of another one.  Then the inner array is taken out
again, and the element at the place of the store is read.  The path reads what the inner array held
there before the store, unless the outer array has the type of the inner one.  So what it reads is
unknown or was stored, exactly if the types are the same or the old element is such itself. -/
theorem reads_after_nested_store (setup : Setup) (calls : Calls) (method : String)
    (scene : Scene) {take put takeAgain look : Instruction} {whole part again i j : Register}
    {outerType innerType : TypeDescriptor} {outer inner : List Value} {offset : Value}
    (isTake : take.op = .arrayGet part whole i) (isPut : put.op = .arrayPut src part j)
    (isTakeAgain : takeAgain.op = .arrayGet again whole i)
    (isLook : look.op = .arrayGet dest again j)
    (distinct : [whole, i, part, j, again, src, dest].Nodup)
    (inside : ∀ register ∈ [part, again, dest], register < scene.frame.registerCount)
    (readWhole : scene.frame.read whole = .ok (.array outerType outer))
    (readPlace : scene.frame.read i = .ok place) (readOffset : scene.frame.read j = .ok offset)
    (readSrc : scene.frame.read src = .ok stored)
    (isInner : (Value.array outerType outer).elementAt place = .array innerType inner) :
    ∃ after held, executeAll setup calls method [take, put, takeAgain, look] scene =
        .ok () after ∧
      after.frame.read dest = .ok held ∧
      held = (if outerType = innerType then .unknown outerType.component.component
        else (Value.array innerType inner).elementAt offset) ∧
      (held.isKnown = false ∨ held = stored.asElement innerType.component ↔
        outerType = innerType ∨
          ((Value.array innerType inner).elementAt offset).isKnown = false ∨
          (Value.array innerType inner).elementAt offset =
            stored.asElement innerType.component) := by
  simp only [List.nodup_cons, List.mem_cons, List.not_mem_nil, or_false, not_or] at distinct
  obtain ⟨⟨-, wholePart, -, -, -, -⟩, ⟨iPart, -, -, -, -⟩,
    ⟨partJ, -, partSrc, -⟩, ⟨jAgain, -, -⟩, -⟩ := distinct
  obtain ⟨first, ran, count, isPart, kept⟩ := exists_after_arrayGet setup calls method isTake
    readWhole readPlace (inside part (by simp))
  rw [isInner] at isPart
  obtain ⟨second, ranPut, countPut, -, forgotten⟩ := exists_after_arrayPut setup calls method
    isPut (kept src _ (Ne.symm partSrc) readSrc) isPart (kept j _ (Ne.symm partJ) readOffset)
  have afterPut : ∀ register held, register ≠ part → scene.frame.read register = .ok held →
      second.frame.read register = .ok (Frame.forgetArrayOf innerType held) := by
    intro register held other isRead
    exact forgotten register held other (kept register held other isRead)
  obtain ⟨third, ranAgain, countAgain, isAgain, keptAgain⟩ := exists_after_arrayGet setup calls
    method isTakeAgain (afterPut whole _ wholePart readWhole) (afterPut i _ iPart readPlace)
    (by rw [countPut, count]; exact inside again (by simp))
  obtain ⟨last, ranLook, -, isDest, -⟩ := exists_after_arrayGet setup calls method isLook isAgain
    (keptAgain j _ jAgain (afterPut j _ (Ne.symm partJ) readOffset))
    (by rw [countAgain, countPut, count]; exact inside dest (by simp))
  rw [Value.elementAt_forgetArrayOf, Value.elementAt_forgetArrayOf,
    Value.elementAt_elementAt_forgetArrayOf isInner] at isDest
  refine ⟨last, _, executeAll_cons ran (executeAll_cons ranPut (executeAll_cons ranAgain
    (executeAll_cons ranLook rfl))), isDest, rfl, ?_⟩
  by_cases same : outerType = innerType
  · rw [if_pos same]
    exact iff_of_true (.inl rfl) (.inl same)
  · rw [if_neg same, or_iff_right same]

def nestedFrame : Frame :=
  ⟨[.array ⟨"[[I"⟩ [.array ⟨"[I"⟩ [.int 0]], .int 0, .uninitialized, .int 0, .uninitialized,
    .int 7, .uninitialized], 0, none, .empty⟩

/-- Seven is stored, and zero is read. -/
theorem reads_after_nested_store_seven :
    ∃ after, executeAll ⟨{}, .empty⟩ ⟨fun _ => pure (), fun _ _ => pure none⟩ "LApp;->main()V"
        [.ofOp 0 (.arrayGet 2 0 1), .ofOp 2 (.arrayPut 5 2 3), .ofOp 4 (.arrayGet 4 0 1),
          .ofOp 6 (.arrayGet 6 4 3)] ⟨nestedFrame, ⟨.empty, []⟩⟩ = .ok () after ∧
      after.frame.read 6 = .ok (.int 0) ∧
      ¬((Value.int 0).isKnown = false ∨ Value.int 0 = (Value.int 7).asElement .int) := by
  obtain ⟨after, held, ran, isHeld, rfl, stale_iff⟩ := reads_after_nested_store ⟨{}, .empty⟩
    ⟨fun _ => pure (), fun _ _ => pure none⟩ "LApp;->main()V" ⟨nestedFrame, ⟨.empty, []⟩⟩
    (show (ofOp 0 (.arrayGet 2 0 1)).op = _ from rfl)
    (show (ofOp 2 (.arrayPut 5 2 3)).op = _ from rfl)
    (show (ofOp 4 (.arrayGet 4 0 1)).op = _ from rfl)
    (show (ofOp 6 (.arrayGet 6 4 3)).op = _ from rfl) (by decide) (by decide) rfl rfl rfl rfl rfl
  exact ⟨after, ran, isHeld, fun fine => absurd (stale_iff.mp fine) (by decide)⟩

end Instruction

namespace Machine

/-- Puts an array into another one, stores seven through the array that it takes out again, and
gives back what it then finds at this place. -/
def nestMethod : MethodDef where
  reference := ⟨⟨"LNest;"⟩, "swap", [], .int⟩
  flags := 9
  registers := 9
  instructions :=
    [.ofOp 0 (.const 1 (.int 1)), .ofOp 3 (.newArray 0 1 ⟨"[[I"⟩), .ofOp 5 (.newArray 2 1 ⟨"[I"⟩),
      .ofOp 7 (.const 3 (.int 0)), .ofOp 10 (.const 4 (.int 0)), .ofOp 13 (.const 5 (.int 7)),
      .ofOp 16 (.arrayPut 2 0 3), .ofOp 18 (.arrayGet 6 0 3), .ofOp 20 (.arrayPut 5 6 4),
      .ofOp 22 (.arrayGet 7 0 3), .ofOp 24 (.arrayGet 8 7 4), .ofOp 26 (.giveBack (some 8))]
  tries := []

def nestClass : ClassDef := ⟨⟨"LNest;"⟩, 1, [], [nestMethod]⟩

/-- The method is said to give back zero. -/
theorem old_element_after_nested_store :
    ∃ machine graph, load [nestClass] {} = .ok machine ∧
      (machine.execute nestMethod.descriptor).outcome = .ok (some graph) ∧
      graph.returnConsensus graph.connectedReturns = some (.int 0) := by
  cases loaded : load [nestClass] {} with
  | error fault => cases loaded
  | ok machine =>
      have gives : (((machine.execute nestMethod.descriptor).outcome.toOption.bind id).bind
          fun graph => graph.returnConsensus graph.connectedReturns) = some (.int 0) := by
        cases loaded
        decide +kernel
      cases ended : (machine.execute nestMethod.descriptor).outcome with
      | error fault =>
          rw [ended] at gives
          cases gives
      | ok result =>
          rw [ended] at gives
          obtain ⟨graph, rfl, agreed⟩ := Option.bind_eq_some_iff.mp gives
          exact ⟨machine, graph, rfl, ended, agreed⟩

end Machine

end Dexplore
