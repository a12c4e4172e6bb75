import Dexplore.Proofs.Abandonment
import Dexplore.Proofs.Loading
import Dexplore.Proofs.Soundness

/-!
# Typing

A value is well-typed if it is unknown, or if what it holds is of the kind that its declared type
stands for; an array moreover is not longer than the limit and has well-typed elements.  Frames,
graphs and classes are well-typed if all values in them are.  Every operation that makes a value
makes a well-typed one of well-typed operands, as long as objects are created only of reference
types (`Op.createsReferences`).
-/

set_option autoImplicit false

namespace Dexplore

/-! ## Descriptors of primitive types -/

theorem TypeDescriptor.eq_ofPrimitive {type : TypeDescriptor} {primitive : Primitive}
    (named : type.primitive? = some primitive) : type = .ofPrimitive primitive := by
  unfold primitive? at named
  split at named
  · next letter spelled =>
      have isLetter := Primitive.letter_of_ofLetter? named
      obtain ⟨text⟩ := type
      refine congrArg TypeDescriptor.mk (String.toList_inj.mp ?_)
      rw [spelled, isLetter]
      simp
  · cases named

theorem TypeDescriptor.isArray_of_component? {type component : TypeDescriptor}
    (found : type.component? = some component) : type.isArray = true := by
  unfold component? at found
  split at found
  · next rest spelled => simp [isArray, spelled]
  · cases found

/-! ## Values -/

/-- Numbers, characters and truth values have the primitive type of their kind, and everything
else has a reference type. -/
def Scalar.Fits (type : TypeDescriptor) : Scalar → Prop
  | boolean _ => type = .boolean
  | byte _ => type = .byte
  | short _ => type = .short
  | char _ => type = .char
  | int _ => type = .int
  | long _ => type = .long
  | float _ => type = .float
  | double _ => type = .double
  | string _ | Scalar.type _ | null | object _ => type.isReference = true

/-- Nothing is known of the value, or it is what its type says, with arrays up to a length. -/
inductive Value.WellTyped (limit : Nat) : Value → Prop
  | unknown (type : TypeDescriptor) : WellTyped limit (.unknown type)
  | scalar {type : TypeDescriptor} {contents : Scalar} (fits : contents.Fits type) :
      WellTyped limit (.scalar type contents)
  | array {type : TypeDescriptor} {elements : List Value} (isArray : type.isArray = true)
      (bounded : elements.length ≤ limit)
      (members : ∀ element ∈ elements, WellTyped limit element) :
      WellTyped limit (.array type elements)

variable {limit : Nat}

theorem Primitive.zero_fits (primitive : Primitive) :
    primitive.zero.Fits (.ofPrimitive primitive) := by
  cases primitive <;> rfl

theorem Value.fits_of_narrowed? {value : Int32} {primitive : Primitive} {contents : Scalar}
    (narrowed : narrowed? value primitive = some contents) :
    contents.Fits (.ofPrimitive primitive) := by
  cases primitive <;> cases narrowed <;> rfl

theorem Value.fits_of_contents? {literal : Literal} {type : TypeDescriptor} {contents : Scalar}
    (given : contents? literal type = some contents) : contents.Fits type := by
  unfold contents? at given
  -- Only an int is cut to its type; every other literal is kept or does not fit at all.
  cases named : type.primitive? with
  | some primitive =>
      rw [TypeDescriptor.eq_ofPrimitive named]
      rw [named] at given
      cases literal with
      | int value => exact fits_of_narrowed? given
      | long | float | double =>
          cases primitive <;> cases given
          rfl
      | string | type | null => cases given
  | none =>
      rw [named] at given
      cases literal with
      | int | long | float | double => cases given
      | string | type | null =>
          obtain ⟨isReference, isContents⟩ := Option.ite_none_right_eq_some.mp given
          cases isContents
          exact isReference

theorem UnaryOp.fits_of_result? {op : UnaryOp} {operand : Value} {contents : Scalar}
    (found : op.result? operand = some contents) : contents.Fits op.resultType := by
  cases op <;>
    (obtain ⟨-, -, rfl⟩ := Option.map_eq_some_iff.mp found
     rfl)

namespace Value.WellTyped

theorem widen (value : Value) : value.widen.WellTyped limit := .unknown _

theorem of_unknown {value : Value} (unknown : value.isKnown = false) :
    value.WellTyped limit := by
  cases value with
  | unknown type => exact .unknown type
  | scalar | array => cases unknown

theorem uninitialized : Value.uninitialized.WellTyped limit := .unknown _

theorem getD {found : Option Value} {otherwise : Value}
    (typed : ∀ value, found = some value → value.WellTyped limit)
    (fallback : otherwise.WellTyped limit) : (found.getD otherwise).WellTyped limit := by
  cases found with
  | none => exact fallback
  | some value => exact typed value rfl

theorem element {type : TypeDescriptor} {elements : List Value}
    (typed : (Value.array type elements).WellTyped limit) :
    ∀ element ∈ elements, element.WellTyped limit := by
  cases typed with
  | array isArray bounded members => exact members

theorem defaultFor (type : TypeDescriptor) : (Value.defaultFor type).WellTyped limit := by
  unfold Value.defaultFor
  split
  · next primitive named =>
      rw [TypeDescriptor.eq_ofPrimitive named]
      exact .scalar primitive.zero_fits
  · split
    · next isReference => exact .scalar isReference
    · exact .unknown type

theorem ofLiteral (literal : Literal) : (Value.ofLiteral literal).WellTyped limit := by
  cases literal with
  | int | long | float | double => exact .scalar rfl
  | string => exact .scalar (show TypeDescriptor.string.isReference = true by decide)
  | type => exact .scalar (show TypeDescriptor.classObject.isReference = true by decide)
  | null => exact .scalar (show TypeDescriptor.object.isReference = true by decide)

theorem ofLiteralTyped (literal : Literal) (type : TypeDescriptor) :
    (Value.ofLiteralTyped literal type).WellTyped limit := by
  unfold Value.ofLiteralTyped
  split
  · next given => exact .scalar (fits_of_contents? given)
  · exact .unknown type

theorem int (value : Int32) : (Value.int value).WellTyped limit := .scalar rfl

theorem binary (op : BinaryOp) (kind : NumericKind) (left right : Value) :
    (Value.binary op kind left right).WellTyped limit := by
  refine .getD (fun value found => ?_) (.unknown _)
  cases kind <;>
    (obtain ⟨a, -, found⟩ := Option.bind_eq_some_iff.mp found
     obtain ⟨b, -, found⟩ := Option.bind_eq_some_iff.mp found
     obtain ⟨c, -, found⟩ := Option.bind_eq_some_iff.mp found
     cases found
     exact .scalar rfl)

theorem unary (op : UnaryOp) (operand : Value) : (Value.unary op operand).WellTyped limit := by
  unfold Value.unary
  split
  · next found => exact .scalar (UnaryOp.fits_of_result? found)
  · exact .unknown _

theorem threeWay (kind : ThreeWay) (left right : Value) :
    (Value.threeWay kind left right).WellTyped limit := by
  unfold Value.threeWay
  split
  · exact int _
  · exact .unknown _

theorem newArray (type : TypeDescriptor) (size : Value) (limit : Nat) :
    (Value.newArray type size limit).WellTyped limit := by
  unfold Value.newArray
  split
  · next length component isLength isComponent =>
      refine .array (TypeDescriptor.isArray_of_component? isComponent) ?_ ?_
      · obtain ⟨-, -, -, short⟩ := index?_eq_some_iff.mp isLength
        rw [List.length_replicate]
        exact Nat.le_of_lt_succ short
      · intro element inside
        rw [List.eq_of_mem_replicate inside]
        exact defaultFor component
  · exact .unknown type

theorem arrayLength (value : Value) : value.arrayLength.WellTyped limit := by
  unfold Value.arrayLength
  split
  · split
    · exact int _
    · exact .unknown _
  · exact .unknown _

theorem elementAt {value : Value} (typed : value.WellTyped limit) (index : Value) :
    (value.elementAt index).WellTyped limit := by
  refine .getD (fun element found => ?_) (.unknown _)
  obtain ⟨elements, isArray, indexed⟩ := Option.bind_eq_some_iff.mp found
  obtain ⟨place, -, isElement⟩ := Option.bind_eq_some_iff.mp indexed
  cases value with
  | unknown | scalar => cases isArray
  | array type members =>
      cases isArray
      exact typed.element element (List.mem_of_getElem? isElement)

theorem asElement {value : Value} (typed : value.WellTyped limit) (component : TypeDescriptor) :
    (value.asElement component).WellTyped limit := by
  unfold Value.asElement
  split
  · split
    · exact ofLiteralTyped _ _
    · exact typed
  · exact typed

theorem storeElement {value stored : Value} (typed : value.WellTyped limit)
    (typedStored : stored.WellTyped limit) (index : Value) :
    (value.storeElement index stored).WellTyped limit := by
  cases typed with
  | unknown | scalar => exact .unknown _
  | @array type elements isArray bounded members =>
      unfold Value.storeElement
      simp only [elements?]
      split
      · refine .array isArray (by rwa [List.length_set]) fun element inside => ?_
        rcases List.mem_or_eq_of_mem_set inside with old | rfl
        · exact members element old
        · exact typedStored.asElement _
      · exact .unknown _

theorem forgetArrayOf {value : Value} (typed : value.WellTyped limit) (type : TypeDescriptor) :
    (Frame.forgetArrayOf type value).WellTyped limit := by
  unfold Frame.forgetArrayOf
  split
  · exact .widen value
  · exact typed

theorem agree? {values : List Value} (typed : ∀ value ∈ values, value.WellTyped limit)
    {agreed : Value} (found : Value.agree? values = some agreed) : agreed.WellTyped limit := by
  cases values with
  | nil => cases found
  | cons first rest =>
      cases known : agreed.isKnown with
      | true =>
          rw [← eq_of_agree? found known first List.mem_cons_self]
          exact typed first List.mem_cons_self
      | false => exact .of_unknown known

end Value.WellTyped

/-! ## Frames -/

structure Frame.WellTyped (limit : Nat) (frame : Frame) : Prop where
  registers : ∀ value ∈ frame.registers, value.WellTyped limit
  result : ∀ value, frame.result = some value → value.WellTyped limit
  statics : ∀ field value, frame.static? field = some value → value.WellTyped limit

namespace Frame.WellTyped

variable {frame after : Frame}

theorem new (registerCount parameterCount : Nat) :
    (Frame.new registerCount parameterCount).WellTyped limit where
  registers value inside := by
    rw [List.eq_of_mem_replicate inside]
    exact .uninitialized
  result _ found := by cases found
  statics _ _ found := by cases found

theorem read (typed : frame.WellTyped limit) {register : Register} {value : Value}
    (found : frame.read register = .ok value) : value.WellTyped limit := by
  unfold Frame.read at found
  split at found
  · next isValue =>
      cases found
      exact typed.registers _ (List.mem_of_getElem? isValue)
  · cases found

theorem write (typed : frame.WellTyped limit) {register : Register} {value : Value}
    (typedValue : value.WellTyped limit) (written : frame.write register value = .ok after) :
    after.WellTyped limit := by
  rw [Frame.eq_of_write written]
  refine ⟨fun member inside => ?_, typed.result, typed.statics⟩
  rcases List.mem_or_eq_of_mem_set inside with old | rfl
  · exact typed.registers member old
  · exact typedValue

theorem bindParameter (typed : frame.WellTyped limit) {index : Nat} {value : Value}
    (typedValue : value.WellTyped limit) (bound : frame.bindParameter index value = .ok after) :
    after.WellTyped limit := by
  unfold Frame.bindParameter at bound
  split at bound
  · exact typed.write typedValue bound
  · cases bound

theorem bindReceiver (typed : frame.WellTyped limit) {value : Value}
    (typedValue : value.WellTyped limit) (bound : frame.bindReceiver value = .ok after) :
    after.WellTyped limit := by
  unfold Frame.bindReceiver at bound
  split at bound
  · cases bound
  · exact typed.write typedValue bound

theorem withResult (typed : frame.WellTyped limit) {result : Option Value}
    (typedResult : ∀ value, result = some value → value.WellTyped limit) :
    (frame.withResult result).WellTyped limit :=
  ⟨typed.registers, typedResult, typed.statics⟩

theorem writeStatic (typed : frame.WellTyped limit) (field : FieldRef) {value : Value}
    (typedValue : value.WellTyped limit) : (frame.writeStatic field value).WellTyped limit where
  registers := typed.registers
  result := typed.result
  statics other member found := by
    rw [static?_writeStatic] at found
    split at found
    · cases found
      exact typedValue
    · exact typed.statics other member found

theorem inheritStatics (typed : frame.WellTyped limit) {other : Frame}
    (typedOther : other.WellTyped limit) : (frame.inheritStatics other).WellTyped limit :=
  ⟨typed.registers, typed.result, typedOther.statics⟩

theorem widenStaticArrays (typed : frame.WellTyped limit) (type : TypeDescriptor) :
    (frame.widenStaticArrays type).WellTyped limit where
  registers := typed.registers
  result := typed.result
  statics field value found := by
    rw [static?_widenStaticArrays] at found
    obtain ⟨old, isOld, rfl⟩ := Option.map_eq_some_iff.mp found
    exact (typed.statics field old isOld).forgetArrayOf type

theorem widenArrays (typed : frame.WellTyped limit) (type : TypeDescriptor)
    (keep : Option Register) : (frame.widenArrays type keep).WellTyped limit := by
  have registers : ∀ value ∈ frame.registers.mapIdx (fun index value =>
      if keep = some index then value else forgetArrayOf type value), value.WellTyped limit := by
    intro value inside
    obtain ⟨index, isIndex, rfl⟩ := List.mem_mapIdx.mp inside
    have old := typed.registers _ (List.getElem_mem isIndex)
    split
    · exact old
    · exact old.forgetArrayOf type
  simp only [Frame.widenArrays]
  refine widenStaticArrays ?_ type
  exact ⟨registers, typed.result, typed.statics⟩

theorem foldl {α : Type} {change : Frame → α → Frame} {items : List α}
    (kept : ∀ frame : Frame, frame.WellTyped limit → ∀ item ∈ items,
      (change frame item).WellTyped limit)
    (typed : frame.WellTyped limit) : (items.foldl change frame).WellTyped limit := by
  induction items generalizing frame with
  | nil => exact typed
  | cons head rest induction =>
      exact induction (fun frame typed item inside => kept frame typed item
        (List.mem_cons_of_mem _ inside)) (kept frame typed head List.mem_cons_self)

theorem bindParameters (typed : frame.WellTyped limit) {values : List Value}
    (typedValues : ∀ value ∈ values, value.WellTyped limit) {index : Nat}
    (bound : Program.bindParameters frame index values = .ok after) : after.WellTyped limit := by
  induction values generalizing frame index with
  | nil =>
      cases bound
      exact typed
  | cons head rest induction =>
      obtain ⟨middle, first, later⟩ := Except.bind_eq_ok_iff.mp bound
      exact induction (typed.bindParameter (typedValues head List.mem_cons_self) first)
        (fun value inside => typedValues value (List.mem_cons_of_mem _ inside)) later

theorem bindArguments (typed : frame.WellTyped limit) {caller : Frame}
    (typedCaller : caller.WellTyped limit) {args : List Register} {index : Nat}
    (bound : Invocation.bindArguments caller frame index args = .ok after) :
    after.WellTyped limit := by
  induction args generalizing frame index with
  | nil =>
      cases bound
      exact typed
  | cons register rest induction =>
      obtain ⟨value, isValue, bound⟩ := Except.bind_eq_ok_iff.mp bound
      obtain ⟨middle, first, later⟩ := Except.bind_eq_ok_iff.mp bound
      exact induction (typed.bindParameter (typedCaller.read isValue) first) later

theorem entryFrame {caller : Frame} (typedCaller : caller.WellTyped limit) {callee : MethodDef}
    {method : MethodRef} {isStatic : Bool} {args : List Register}
    (entered : Invocation.entryFrame callee method isStatic caller args = .ok after) :
    after.WellTyped limit := by
  unfold Invocation.entryFrame at entered
  simp only at entered
  split at entered
  · obtain ⟨receiver, isReceiver, entered⟩ := Except.bind_eq_ok_iff.mp entered
    obtain ⟨received, isBound, entered⟩ := Except.bind_eq_ok_iff.mp entered
    obtain ⟨bound, arguments, entered⟩ := Except.bind_eq_ok_iff.mp entered
    cases entered
    have typedReceived := (new _ _).bindReceiver (typedCaller.read isReceiver) isBound
    exact (typedReceived.bindArguments typedCaller arguments).inheritStatics typedCaller
  · obtain ⟨bound, arguments, entered⟩ := Except.bind_eq_ok_iff.mp entered
    cases entered
    exact ((new _ _).bindArguments typedCaller arguments).inheritStatics typedCaller

end Frame.WellTyped

/-! ## Classes -/

def ClassState.WellTyped (limit : Nat) (state : ClassState) : Prop :=
  ∀ name value, state.value? name = some value → value.WellTyped limit

def Statics.WellTyped (limit : Nat) (statics : Statics) : Prop :=
  ∀ type state, statics.find? type = some state → state.WellTyped limit

namespace ClassState.WellTyped

variable {state : ClassState}

theorem ofDefinition (definition : ClassDef) : (ofDefinition definition).WellTyped limit := by
  intro name value found
  obtain ⟨stored, isStored, rfl⟩ := Option.map_eq_some_iff.mp found
  obtain ⟨field, -, same⟩ := List.mem_map.mp (OrdMap.mem_of_find?_ofList isStored)
  cases same
  unfold initialValue
  split
  · exact .ofLiteralTyped _ _
  · exact .defaultFor _

theorem set (typed : state.WellTyped limit) (name : String) {value : Value}
    (typedValue : value.WellTyped limit) : (state.set name value).WellTyped limit := by
  intro other member found
  rw [value?_set] at found
  split at found
  · cases found
    exact typedValue
  · exact typed other member found

theorem merge (typed : state.WellTyped limit) (name : String) (value : Value) :
    (state.merge name value).WellTyped limit := by
  unfold ClassState.merge
  split
  · split
    · exact typed
    · exact typed.set name (.widen _)
  · exact typed.set name (.widen _)

theorem widenArrays (typed : state.WellTyped limit) : state.widenArrays.WellTyped limit := by
  intro name value found
  obtain ⟨stored, isStored, rfl⟩ := Option.map_eq_some_iff.mp found
  simp only [ClassState.widenArrays, OrdMap.find?_mapValues] at isStored
  obtain ⟨old, isOld, rfl⟩ := Option.map_eq_some_iff.mp isStored
  split
  · exact .unknown _
  · exact typed name old.value (by rw [value?, isOld, Option.map_some])

end ClassState.WellTyped

/-! ## Graphs -/

def Op.createsReferences : Op → Bool
  | newInstance _ type => type.isReference
  | _ => true

def MethodDef.createsReferences (method : MethodDef) : Bool :=
  method.instructions.all fun instruction => instruction.op.createsReferences

/-- All values on all paths are well-typed, and the code creates objects of reference types
only. -/
structure Graph.WellTyped (limit : Nat) (graph : Graph) : Prop where
  frame : ∀ id node frame, graph.node? id = some node → node.frame = some frame →
    frame.WellTyped limit
  code : ∀ address instruction, graph.instruction? address = some instruction →
    instruction.op.createsReferences = true

namespace Graph.WellTyped

variable {graph after : Graph}

theorem ofMethod {method : MethodDef} (creates : method.createsReferences = true)
    (built : ofMethod method = .ok graph) : graph.WellTyped limit where
  frame id node frame found framed := by
    rw [node?_template built] at found
    split at found
    · cases found
      cases framed
    · cases found
  code address instruction present :=
    List.all_eq_true.mp creates instruction
      ((instruction?_iff_mem built address instruction).mp present).1

theorem branched (typed : graph.WellTyped limit) {parent : NodeId} {node : Node} {frame : Frame}
    {children : List NodeId} (found : graph.node? parent = some node)
    (grown : graph.Branched after parent frame children) (typedFrame : frame.WellTyped limit) :
    after.WellTyped limit where
  frame := AllFrames.branched typed.frame found grown typedFrame
  code address instruction present := by
    rw [grown.instruction?] at present
    exact typed.code address instruction present

theorem setRootFrame (typed : graph.WellTyped limit) {frame : Frame}
    (typedFrame : frame.WellTyped limit) : (graph.setRootFrame frame).WellTyped limit where
  frame := AllFrames.setRootFrame typed.frame typedFrame
  code address instruction present := by
    rw [(sameCode_setRootFrame graph frame).instruction?] at present
    exact typed.code address instruction present

theorem recordVisit (typed : graph.WellTyped limit) (address : Address) :
    (graph.recordVisit address).WellTyped limit where
  frame := AllFrames.recordVisit typed.frame address
  code place instruction present := by
    rw [instruction?_recordVisit] at present
    exact typed.code place instruction present

theorem of_mem_frames (typed : graph.WellTyped limit) {addresses : List Address} {frame : Frame}
    (inside : frame ∈ graph.frames addresses) : frame.WellTyped limit :=
  AllFrames.of_mem_frames typed.frame inside

theorem returnConsensus (typed : graph.WellTyped limit) {addresses : List Address} {value : Value}
    (agreed : graph.returnConsensus addresses = some value) : value.WellTyped limit := by
  refine .agree? (fun member inside => ?_) agreed
  obtain ⟨frame, isFrame, result⟩ := List.mem_filterMap.mp inside
  exact (typed.of_mem_frames isFrame).result member result

theorem staticConsensus (typed : graph.WellTyped limit) (field : FieldRef) {baseline : Value}
    (typedBaseline : baseline.WellTyped limit) :
    (graph.staticConsensus field baseline).WellTyped limit := by
  refine .getD (fun value agreed => .agree? (fun member inside => ?_) agreed) typedBaseline
  obtain ⟨frame, isFrame, rfl⟩ := List.mem_map.mp inside
  exact .getD (fun value found => (typed.of_mem_frames isFrame).statics field value found)
    typedBaseline

end Graph.WellTyped

namespace Statics.WellTyped

variable {statics : Statics}

theorem ofDefinitions (definitions : OrdMap TypeDescriptor ClassDef) :
    (ofDefinitions definitions).WellTyped limit := by
  intro type state found
  rw [Statics.ofDefinitions, OrdMap.find?_mapValues] at found
  obtain ⟨definition, -, rfl⟩ := Option.map_eq_some_iff.mp found
  exact .ofDefinition definition

theorem modify (typed : statics.WellTyped limit) (type : TypeDescriptor)
    {change : ClassState → ClassState}
    (kept : ∀ state, state.WellTyped limit → (change state).WellTyped limit) :
    Statics.WellTyped limit (OrdMap.modify statics type change) := by
  intro other state found
  rw [OrdMap.find?_modify] at found
  split at found
  · obtain ⟨old, isOld, rfl⟩ := Option.map_eq_some_iff.mp found
    exact kept old (typed other old isOld)
  · exact typed other state found

theorem foldl {α : Type} {change : Statics → α → Statics}
    (kept : ∀ statics : Statics, statics.WellTyped limit → ∀ item,
      (change statics item).WellTyped limit) (items : List α)
    (typed : statics.WellTyped limit) : (items.foldl change statics).WellTyped limit := by
  induction items generalizing statics with
  | nil => exact typed
  | cons head rest induction => exact induction (kept statics typed head)

theorem markInitialized (typed : statics.WellTyped limit) (type : TypeDescriptor) :
    (statics.markInitialized type).WellTyped limit :=
  typed.modify type fun _ typedState => typedState

theorem stored (typed : statics.WellTyped limit) (field : FieldRef) :
    (statics.stored field).WellTyped limit := by
  refine .getD (fun value found => ?_) (.unknown _)
  obtain ⟨state, isState, held⟩ := Option.bind_eq_some_iff.mp found
  exact typed field.owner state isState field.name value held

theorem valueOn (typed : statics.WellTyped limit) {frame : Frame}
    (typedFrame : frame.WellTyped limit) (field : FieldRef) :
    (statics.valueOn frame field).WellTyped limit :=
  .getD (fun value found => typedFrame.statics field value found) (typed.stored field)

theorem commit (typed : statics.WellTyped limit) {graph : Graph}
    (typedGraph : graph.WellTyped limit) (strong : Bool) :
    (statics.commit graph strong).WellTyped limit := by
  refine foldl (fun statics typed field => typed.modify field.owner fun state typedState => ?_) _
    typed
  simp only
  split
  · refine typedState.set field.name (typedGraph.staticConsensus field ?_)
    exact .getD (fun value found => typedState field.name value found) (.unknown _)
  · exact typedState.merge field.name _

theorem giveUp (typed : statics.WellTyped limit) (graph : Graph) :
    (statics.giveUp graph).WellTyped limit := by
  have written := foldl (fun statics typed (field : FieldRef) => typed.modify field.owner
    fun state typedState => typedState.set field.name (.unknown ((state.declared? field.name).getD
      field.type))) graph.staticPuts typed
  unfold Statics.giveUp
  simp only
  split
  · intro type state found
    rw [OrdMap.find?_mapValues] at found
    obtain ⟨old, isOld, rfl⟩ := Option.map_eq_some_iff.mp found
    exact (written type old isOld).widenArrays
  · exact written

theorem forgetArrays (statics : Statics) {frame : Frame} (typed : frame.WellTyped limit)
    (type : TypeDescriptor) : (statics.forgetArrays frame type).WellTyped limit := by
  refine .foldl (fun frame typed entry _ => .foldl (fun frame typed field _ => ?_) typed)
    (typed.widenStaticArrays type)
  unfold hideArray
  simp only
  split
  · exact typed.writeStatic _ (.widen _)
  · exact typed

end Statics.WellTyped

/-! ## Calls -/

structure CallOutcome.WellTyped (limit : Nat) (outcome : CallOutcome) : Prop where
  result : ∀ value, outcome.result = some value → value.WellTyped limit
  writes : ∀ write ∈ outcome.writes, write.2.WellTyped limit

theorem Value.WellTyped.unknownResult (method : MethodRef) {value : Value}
    (found : method.unknownResult = some value) : value.WellTyped limit := by
  unfold MethodRef.unknownResult at found
  split at found <;> cases found
  exact .unknown _

namespace CallOutcome.WellTyped

theorem summarise (method : MethodRef) {caller : Frame} {statics : Statics} {graph : Graph}
    (typedCaller : caller.WellTyped limit) (typedStatics : statics.WellTyped limit)
    (typedGraph : graph.WellTyped limit) :
    (Invocation.summarise method caller statics graph).WellTyped limit where
  result value found := by
    obtain ⟨unknown, isUnknown, rfl⟩ := Option.map_eq_some_iff.mp found
    exact .getD (fun value agreed => typedGraph.returnConsensus agreed)
      (.unknownResult method isUnknown)
  writes write inside := by
    obtain ⟨field, -, rfl⟩ := List.mem_map.mp inside
    exact typedGraph.staticConsensus field (typedStatics.valueOn typedCaller field)

theorem abandoned (method : MethodRef) (caller : Frame) (template : Graph) :
    (Invocation.abandoned method caller template).WellTyped limit where
  result value found := .unknownResult method found
  writes write inside := by
    obtain ⟨unknown, -⟩ :=
      Invocation.unknown_of_abandonedWrites (OrdMap.find?_eq_some_iff.mpr inside)
    exact .of_unknown unknown

end CallOutcome.WellTyped

end Dexplore
