import Dexplore.Proofs.ArrayStores
import Dexplore.Proofs.Calculations

/-!
# What a store into an array does

A store is told from its three values: the one that is stored, the one in the register of the array
and the one that gives the place.  The register of the array then holds the array with one element
replaced, or nothing but its type (`Value.IsStored`); wherever else the path finds a known array of
that type, it finds it unknown (`Value.IsForgotten`).  For the arrays that only classes hold, the
path gets writes of its own that hide them (`Statics.HasArray`).  The rules say on their own what is
stored and what is forgotten, and `Frame.StoreEffect` says it of everything that a path has and
reads.
-/

set_option autoImplicit false

namespace Dexplore

/-! ## Elements -/

/-- What a variable of an integer type of at most 32 bits keeps of an integer: its low bits, and
for a truth value whether one of 32 low bits is set. -/
inductive Primitive.Narrows (integer : Int) : Primitive → Scalar → Prop
  | boolean {bit : Bool} (low : bit = true ↔ integer % 4294967296 ≠ 0) :
      Narrows integer .boolean (.boolean bit)
  | byte {value : Int8} (low : value.toInt = integer.bmod 256) : Narrows integer .byte (.byte value)
  | short {value : Int16} (low : value.toInt = integer.bmod 65536) :
      Narrows integer .short (.short value)
  | char {unit : UInt16} (low : unit.toNat = integer % 65536) : Narrows integer .char (.char unit)
  | int {value : Int32} (low : value.toInt = integer.bmod 4294967296) :
      Narrows integer .int (.int value)

theorem Primitive.narrows_narrowed? {primitive : Primitive} (isNarrow : primitive.isNarrow = true)
    (integer : Int64) :
    ∃ contents, Value.narrowed? integer.toInt32 primitive = some contents ∧
      primitive.Narrows integer.toInt contents := by
  have half : integer.toInt32.toInt = integer.toInt.bmod 4294967296 := integer.toInt_toInt32
  have sameLow : integer.toInt32.toInt % 4294967296 = integer.toInt % 4294967296 := by
    rw [half]
    exact Int.bmod_emod
  cases primitive with
  | boolean =>
      refine ⟨_, rfl, .boolean ?_⟩
      -- The half lies between the bounds of its type, where only zero is zero in all its bits.
      have least := integer.toInt32.le_toInt
      have most := integer.toInt32.toInt_lt
      rw [decide_eq_true_iff, ne_eq, ← Int32.toInt_inj, Int32.toInt_zero]
      omega
  | byte =>
      refine ⟨_, rfl, .byte ?_⟩
      rw [Int32.toInt_toInt8, half]
      exact Int.bmod_bmod_of_dvd (by decide)
  | short =>
      refine ⟨_, rfl, .short ?_⟩
      rw [Int32.toInt_toInt16, half]
      exact Int.bmod_bmod_of_dvd (by decide)
  | char =>
      refine ⟨_, rfl, .char ?_⟩
      rw [toNat_toUInt16_toUInt32]
      omega
  | int => exact ⟨_, rfl, .int half⟩
  | long | float | double => cases isNarrow

namespace Value

/-- What an array with elements of a type holds of a value that is stored into it. -/
inductive IsElement (component : TypeDescriptor) (value : Value) : Value → Prop
  | narrowed {primitive : Primitive} {integer : Int64} {contents : Scalar}
      (isPrimitive : component.primitive? = some primitive)
      (isInteger : value.integer? = some integer) (other : value.type ≠ component)
      (narrows : primitive.Narrows integer.toInt contents) :
      IsElement component value (.scalar component contents)
  | same
      (fits : value.integer? = none ∨ value.type = component ∨
        ∀ primitive, component.primitive? = some primitive →
          primitive ∈ [Primitive.long, .float, .double]) :
      IsElement component value value

theorem ofLiteralTyped_int {component : TypeDescriptor} {primitive : Primitive} {value : Int32}
    {contents : Scalar} (isPrimitive : component.primitive? = some primitive)
    (isContents : narrowed? value primitive = some contents) :
    ofLiteralTyped (.int value) component = .scalar component contents := by
  have isHeld : contents? (.int value) component = some contents := by
    unfold contents?
    rw [isPrimitive]
    exact isContents
  unfold ofLiteralTyped
  rw [isHeld]

theorem isElement_asElement (value : Value) (component : TypeDescriptor) :
    IsElement component value (value.asElement component) := by
  unfold asElement
  cases isInteger : value.integer? with
  | none => exact .same (.inl isInteger)
  | some integer =>
      cases isPrimitive : component.primitive? with
      | none => exact .same (.inr (.inr (by simp [isPrimitive])))
      | some primitive =>
          simp only
          split
          · next cut =>
              obtain ⟨isNarrow, other⟩ : primitive.isNarrow = true ∧ value.type ≠ component := by
                simpa using cut
              obtain ⟨contents, isContents, narrows⟩ :=
                Primitive.narrows_narrowed? isNarrow integer
              rw [ofLiteralTyped_int isPrimitive isContents]
              exact .narrowed isPrimitive isInteger other narrows
          · next whole =>
              refine .same (.inr ?_)
              by_cases sameType : value.type = component
              · exact .inl sameType
              · refine .inr fun other isOther => ?_
                cases isPrimitive.symm.trans isOther
                cases primitive <;> simp [Primitive.isNarrow, sameType] at whole ⊢

/-- What the register of an array holds after a store: the array with the element in its place, or
nothing but the type. -/
inductive IsStored (target place stored : Value) : Value → Prop
  | inside {type : TypeDescriptor} {elements : List Value} {view : Int32} {index : Nat}
      {element : Value} (isArray : target = .array type elements)
      (isPlace : place.int? = some view) (points : view.toInt = index)
      (inRange : index < elements.length) (isElement : IsElement type.component stored element) :
      IsStored target place stored (.array type (elements.set index element))
  | outside
      (nowhere : ∀ type elements view (index : Nat), target = .array type elements →
        place.int? = some view → view.toInt = index → elements.length ≤ index) :
      IsStored target place stored (.unknown target.type)

theorem isStored_storeElement (target place stored : Value) :
    IsStored target place stored (target.storeElement place stored) := by
  cases target with
  | unknown type => exact .outside nofun
  | scalar type contents => exact .outside nofun
  | array type elements =>
      simp only [storeElement, elements?]
      cases isIndex : place.index? elements.length with
      | some index =>
          obtain ⟨view, isView, points, inRange⟩ := index?_eq_some_iff.mp isIndex
          exact .inside rfl isView points inRange (isElement_asElement _ _)
      | none =>
          refine .outside ?_
          rintro _ _ view index ⟨⟩ isView points
          apply Nat.le_of_not_lt
          intro inRange
          cases isIndex.symm.trans (index?_eq_some_iff.mpr ⟨view, isView, points, inRange⟩)

/-- What is left of a value, outside the register of the array, after a store into an array of a
type. -/
inductive IsForgotten (type : TypeDescriptor) : Value → Value → Prop
  | array (elements : List Value) : IsForgotten type (.array type elements) (.unknown type)
  | other {value : Value} (isOther : ∀ elements, value ≠ .array type elements) :
      IsForgotten type value value

theorem isArrayOf_iff {type : TypeDescriptor} {value : Value} :
    value.isArrayOf type = true ↔ ∃ elements, value = .array type elements := by
  rw [isArrayOf, Bool.and_eq_true, decide_eq_true_eq]
  cases value <;> simp [isMutable, elements?, Value.type]

theorem isForgotten_forgetArrayOf (type : TypeDescriptor) (value : Value) :
    IsForgotten type value (Frame.forgetArrayOf type value) := by
  rw [Frame.forgetArrayOf_eq]
  split
  · next isArray =>
      obtain ⟨elements, rfl⟩ := isArrayOf_iff.mp isArray
      exact .array elements
  · next isOther => exact .other fun elements same => isOther (isArrayOf_iff.mpr ⟨elements, same⟩)

end Value

/-! ## Paths -/

/-- A class holds an array of a type in a field. The field is named with the type that the class
declares for it, or with the type of the array if the class declares none. -/
def Statics.HasArray (statics : Statics) (type : TypeDescriptor) (field : FieldRef) : Prop :=
  ∃ state held elements, statics.find? field.owner = some state ∧
    state.fields.find? field.name = some held ∧ held.value = .array type elements ∧
    held.declared.getD type = field.type

theorem Statics.holdsArray_iff {statics : Statics} {type : TypeDescriptor} {field : FieldRef} :
    statics.holdsArray type field = true ↔ statics.HasArray type field := by
  simp only [holdsArray, HasArray, Option.any_eq_true, Option.bind_eq_some_iff, Bool.and_eq_true,
    Value.isArrayOf_iff, decide_eq_true_eq]
  constructor
  · rintro ⟨held, ⟨state, isState, isHeld⟩, ⟨elements, isArray⟩, declared⟩
    exact ⟨state, held, elements, isState, isHeld, isArray, declared⟩
  · rintro ⟨state, held, elements, isState, isHeld, isArray, declared⟩
    exact ⟨held, ⟨state, isState, isHeld⟩, ⟨elements, isArray⟩, declared⟩

/-- What a store into the array in a register has done to a path and to what the path reads. -/
structure Frame.StoreEffect (statics : Statics) (before after : Frame) (array : Register)
    (target place stored : Value) : Prop where
  replaced : ∃ value, after.read array = .ok value ∧ target.IsStored place stored value
  registers : ∀ register value, register ≠ array → before.read register = .ok value →
    ∃ left, after.read register = .ok left ∧ value.IsForgotten target.type left
  registerCount : after.registerCount = before.registerCount
  parameterCount : after.parameterCount = before.parameterCount
  result : after.result = before.result
  written : ∀ field value, before.static? field = some value →
    ∃ left, after.static? field = some left ∧ value.IsForgotten target.type left
  hidden : ∀ field value, before.static? field = none →
    (after.static? field = some value ↔
      value = .unknown target.type ∧ statics.HasArray target.type field)
  /-- The fields of a class, each under its declared type, show no known array of the type. -/
  cleared : ∀ field state, statics.find? field.owner = some state →
    (state.declared? field.name).getD target.type = field.type →
      ∀ elements, statics.valueOn after field ≠ .array target.type elements
  kept : ∀ field, (∀ elements, statics.valueOn before field ≠ .array target.type elements) →
    statics.valueOn after field = statics.valueOn before field

namespace Statics

variable {statics : Statics} {frame : Frame} {array : Register} {target : Value}

theorem showsArray_of_valueOn {type : TypeDescriptor} {field : FieldRef} {state : ClassState}
    {elements : List Value} (isState : statics.find? field.owner = some state)
    (declared : (state.declared? field.name).getD type = field.type)
    (isArray : statics.valueOn frame field = .array type elements) :
    statics.showsArray frame type field = true := by
  unfold valueOn at isArray
  unfold showsArray
  cases written : frame.static? field with
  | some value =>
      rw [written, Option.getD_some] at isArray
      exact Value.isArrayOf_iff.mpr ⟨elements, isArray⟩
  | none =>
      rw [written, Option.getD_none, Statics.stored, isState, Option.bind_some,
        ClassState.value?] at isArray
      rw [ClassState.declared?] at declared
      cases isHeld : state.fields.find? field.name with
      | none =>
          rw [isHeld] at isArray
          cases isArray
      | some held =>
          rw [isHeld] at isArray declared
          exact holdsArray_iff.mpr ⟨state, held, elements, isState, isHeld, isArray, declared⟩

theorem storeEffect_afterStore (readArray : frame.read array = .ok target) (place stored : Value) :
    frame.StoreEffect statics (statics.afterStore frame array target place stored) array target
      place stored where
  replaced := by
    refine ⟨target.storeElement place stored, ?_, target.isStored_storeElement place stored⟩
    rw [Frame.read_eq_ok_iff, getElem?_afterStore, Frame.read_eq_ok_iff.mp readArray,
      Option.map_some, if_pos rfl]
  registers register value other isRead := by
    refine ⟨_, ?_, Value.isForgotten_forgetArrayOf target.type value⟩
    rw [Frame.read_eq_ok_iff, getElem?_afterStore, Frame.read_eq_ok_iff.mp isRead,
      Option.map_some, if_neg other]
  registerCount := registerCount_afterStore ..
  parameterCount := by
    obtain ⟨own, stores⟩ := statics.afterStore_eq frame array target place stored
    rw [stores]
  result := by
    obtain ⟨own, stores⟩ := statics.afterStore_eq frame array target place stored
    rw [stores]
  written field value isWritten := by
    refine ⟨_, ?_, Value.isForgotten_forgetArrayOf target.type value⟩
    rw [static?_afterStore, static?_forgetArrays, isWritten]
    rfl
  -- What the path had not written, it has written now only to hide an array of a class.
  hidden field value fresh := by
    rw [static?_afterStore, static?_forgetArrays, fresh, Option.map_none, Option.none_or,
      Option.ite_none_right_eq_some, Option.some.injEq, holdsArray_iff, and_comm, eq_comm]
  cleared field state isState declared elements isArray := by
    rw [valueOn_afterStore] at isArray
    split at isArray
    · cases isArray
    · next hides => exact hides (showsArray_of_valueOn isState declared isArray)
  kept field isOther := by
    rw [valueOn_afterStore, if_neg]
    intro shows
    obtain ⟨elements, isArray⟩ := Value.isArrayOf_iff.mp (isArrayOf_of_showsArray shows)
    exact isOther elements isArray

end Statics

namespace Instruction

variable {setup : Setup} {calls : Calls} {method : String} {instruction : Instruction}
  {src array index : Register} {scene : Scene}

theorem execute_arrayPut {stored target place : Value}
    (isStore : instruction.op = .arrayPut src array index)
    (readSrc : scene.frame.read src = .ok stored)
    (readArray : scene.frame.read array = .ok target)
    (readIndex : scene.frame.read index = .ok place) :
    instruction.execute setup calls method scene =
      .ok [instruction.next]
        ⟨scene.world.statics.afterStore scene.frame array target place stored, scene.world⟩ := by
  unfold execute
  rw [isStore]
  exact Step.bind_eq_ok.mpr ⟨(), _, Step.arrayPut_eq readSrc readArray readIndex, rfl⟩

/-- A store whose registers the frame has goes on to the next instruction, leaves the classes as
they are, and does to the path what is said of the values in its registers. The registers may be
the same. -/
theorem store_effect (setup : Setup) (calls : Calls) (method : String) (scene : Scene)
    (isStore : instruction.op = .arrayPut src array index)
    (srcInside : src < scene.frame.registerCount) (arrayInside : array < scene.frame.registerCount)
    (indexInside : index < scene.frame.registerCount) :
    ∃ stored target place after, scene.frame.read src = .ok stored ∧
      scene.frame.read array = .ok target ∧ scene.frame.read index = .ok place ∧
      instruction.execute setup calls method scene = .ok [instruction.next] ⟨after, scene.world⟩ ∧
      scene.frame.StoreEffect scene.world.statics after array target place stored := by
  obtain ⟨stored, readSrc⟩ := (scene.frame.read_isOk_iff src).mpr srcInside
  obtain ⟨target, readArray⟩ := (scene.frame.read_isOk_iff array).mpr arrayInside
  obtain ⟨place, readIndex⟩ := (scene.frame.read_isOk_iff index).mpr indexInside
  exact ⟨stored, target, place, _, readSrc, readArray, readIndex,
    execute_arrayPut isStore readSrc readArray readIndex,
    Statics.storeEffect_afterStore readArray place stored⟩

def bufferStatics : Statics :=
  OrdMap.empty.insert ⟨"LApp;"⟩
    { name := ⟨"LApp;"⟩
      fields := .ofList
        [("buffer", ⟨some ⟨"[B"⟩, .array ⟨"[B"⟩ [.scalar .byte (.byte 7)]⟩),
          ("count", ⟨none, .int 1⟩)]
      initialized := true }

/-- Two registers that may hold one array of bytes, an array of integers, a place and a value that
is no byte. -/
def bufferFrame : Frame :=
  ⟨[.array ⟨"[B"⟩ [.scalar .byte (.byte 0), .unknown .byte], .array ⟨"[B"⟩ [],
    .array ⟨"[I"⟩ [.int 0], .int 1, .int 300], 0, none, .empty⟩

def bufferStore : Instruction := .ofOp 0 (.arrayPut 4 0 3)

theorem store_effect_byte :
    ∃ after,
      bufferStore.execute ⟨{}, .empty⟩ ⟨fun _ => pure (), fun _ _ => pure none⟩ "LApp;->main()V"
          ⟨bufferFrame, ⟨bufferStatics, []⟩⟩ = .ok [2] ⟨after, ⟨bufferStatics, []⟩⟩ ∧
      after.registers =
        [.array ⟨"[B"⟩ [.scalar .byte (.byte 0), .scalar .byte (.byte 44)], .unknown ⟨"[B"⟩,
          .array ⟨"[I"⟩ [.int 0], .int 1, .int 300] ∧
      after.static? ⟨⟨"LApp;"⟩, "buffer", ⟨"[B"⟩⟩ = some (.unknown ⟨"[B"⟩) ∧
      after.static? ⟨⟨"LApp;"⟩, "count", .int⟩ = none ∧
      bufferFrame.StoreEffect bufferStatics after 0
        (.array ⟨"[B"⟩ [.scalar .byte (.byte 0), .unknown .byte]) (.int 1) (.int 300) := by
  obtain ⟨stored, target, place, after, isStored, isTarget, isPlace, run, effect⟩ :=
    store_effect ⟨{}, .empty⟩ ⟨fun _ => pure (), fun _ _ => pure none⟩ "LApp;->main()V"
      ⟨bufferFrame, ⟨bufferStatics, []⟩⟩ (show bufferStore.op = .arrayPut 4 0 3 from rfl)
      (by decide) (by decide) (by decide)
  cases isStored
  cases isTarget
  cases isPlace
  refine ⟨after, run, ?_, ?_, ?_, effect⟩ <;> cases run <;> decide +kernel

end Instruction

end Dexplore
