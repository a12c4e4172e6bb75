import Dexplore.Invocation
import Dexplore.Value.Arithmetic
import Dexplore.Value.Comparison

/-!
# Executing an instruction

An instruction changes the frame of its path and says where the path goes on.  A branch that
cannot be decided goes on in every possible direction.  What an instruction changed before a
fault stays changed.
-/

set_option autoImplicit false

namespace Dexplore

/-! ## Acting on a frame -/

structure Scene where
  frame : Frame
  world : World

abbrev Step := EStateM Fault Scene

namespace Step

def read (register : Register) : Step Value := fun scene =>
  match scene.frame.read register with
  | .ok value => .ok value scene
  | .error fault => .error fault scene

def write (register : Register) (value : Value) : Step Unit := fun scene =>
  match scene.frame.write register value with
  | .ok frame => .ok () { scene with frame }
  | .error fault => .error fault scene

def modifyFrame (change : Frame → Frame) : Step Unit :=
  modify fun scene => { scene with frame := change scene.frame }

def note (event : Event) : Step Unit :=
  modify fun scene => { scene with world := scene.world.note event }

def outside {α : Type} (run : Run α) : Step α := fun scene =>
  match run scene.world with
  | .ok value world => .ok value { scene with world }
  | .error fault world => .error fault { scene with world }

def getStatic (field : FieldRef) : Step Value := do
  note (.accessing field)
  let scene ← get
  return scene.world.statics.valueOn scene.frame field

def putStatic (field : FieldRef) (value : Value) : Step Unit := do
  note (.accessing field)
  modifyFrame fun frame => frame.writeStatic field value

def forgetStaticArrays (type : TypeDescriptor) : Step Unit :=
  modify fun scene => { scene with frame := scene.world.statics.forgetArrays scene.frame type }

end Step

open Step

/-! ## Arrays -/

namespace Value

def index? (value : Value) (length : Nat) : Option Nat := do
  let index ← value.int?
  if 0 ≤ index.toInt ∧ index.toInt.toNat < length then some index.toInt.toNat else none

def newArray (type : TypeDescriptor) (size : Value) (maxLength : Nat) : Value :=
  match size.index? (maxLength + 1), type.component? with
  | some length, some component => array type (List.replicate length (defaultFor component))
  | _, _ => unknown type

def arrayLength (value : Value) : Value :=
  match value.elements? with
  | some elements =>
    if (elements.length : Int) ≤ Int32.maxValue.toInt then int (.ofNat elements.length)
    else unknown .int
  | none => unknown .int

def elementAt (value index : Value) : Value :=
  ((value.elements?.bind fun elements => do
    let place ← index.index? elements.length
    elements[place]?)).getD (unknown value.type.component)

/-- A value as an element of an array of a component type: integers are cut to the type of
the elements, if that is an integer type of at most 32 bits. -/
def asElement (value : Value) (component : TypeDescriptor) : Value :=
  match value.integer?, component.primitive? with
  | some integer, some primitive =>
    if primitive.isNarrow && value.type ≠ component then
      ofLiteralTyped (.int integer.toInt32) component
    else value
  | _, _ => value

/-- An array after a store. A store to a place that is not known leaves nothing known. -/
def storeElement (value index stored : Value) : Value :=
  match value.elements? with
  | some elements =>
    match index.index? elements.length with
    | some place => array value.type (elements.set place (stored.asElement value.type.component))
    | none => value.widen
  | none => value.widen

end Value

/-! ## Single operations -/

def Operand.value : Operand → Step Value
  | .register index => read index
  | .literal value => pure (.int value)

/-- Goes one way if a condition is decided, and both ways if it is not. -/
def Step.branch (condition : Condition) (left right : Value) (next target : Address) :
    Step (List Address) :=
  match condition.decide? left right with
  | some true => pure [target]
  | some false => pure [next]
  | none => do
    note (.undecidedBranch condition left right)
    return [next, target]

/-- Goes to the first case of a known selector, and every way if the selector is not known. -/
def Step.switch (selector : Value) (next : Address) (cases : List (Int32 × Address)) :
    Step (List Address) :=
  match selector.int? with
  | some key => pure [((cases.find? fun case => case.1 = key).map (·.2)).getD next]
  | none => do
    note (.undecidedSwitch selector)
    return Instruction.switchSuccessors next cases

/-- Stores into an array and forgets every other array of its type, which may be the same. -/
def Step.arrayPut (src array index : Register) : Step Unit := do
  let stored ← read src
  let target ← read array
  let place ← read index
  write array (target.storeElement place stored)
  modifyFrame fun frame => frame.widenArrays target.type (some array)
  forgetStaticArrays target.type

/-- Forgets an argument whose contents the callee may have changed. -/
def Step.forgetArgument (program : Program) (register : Register) : Step Unit := do
  let value ← read register
  if value.isMutable && !program.isImmutable value.type then do
    write register value.widen
    forgetStaticArrays value.type

def Step.invoke (program : Program) (calls : Calls) (kind : InvokeKind) (method : MethodRef)
    (args : List Register) : Step Unit := do
  let caller := (← get).frame
  let outcome ← outside (program.invoke calls kind method caller args)
  modifyFrame fun frame => frame.withResult outcome.result
  modifyFrame fun frame =>
    outcome.writes.foldl (fun frame write => frame.writeStatic write.1 write.2) frame
  args.forM (forgetArgument program)

/-- What an operation does that is no branch. -/
def Op.perform (setup : Setup) (calls : Calls) (site : Site) : Op → Step Unit
  | .const dest value => write dest (.ofLiteral value)
  | .move dest src => do write dest (← read src)
  | .moveResult dest => do write dest ((← get).frame.result.getD .uninitialized)
  | .binary op kind dest lhs rhs => do
    let left ← read lhs
    let right ← rhs.value
    write dest (.binary op kind left right)
  | .unary op dest src => do write dest (.unary op (← read src))
  | .compare kind dest lhs rhs => do
    let left ← read lhs
    let right ← read rhs
    write dest (.threeWay kind left right)
  | .invoke kind method args => Step.invoke setup.program calls kind method args
  | .newInstance dest type => write dest (.scalar type (.object (some site)))
  | .newArray dest size type => do
    write dest (.newArray type (← read size) setup.config.maxArrayLength)
  | .arrayLength dest array => do write dest (← read array).arrayLength
  | .arrayGet dest array index => do
    let value ← read array
    let place ← read index
    write dest (value.elementAt place)
  | .arrayPut src array index => Step.arrayPut src array index
  | .instanceGet dest object field => do
    let _ ← read object
    write dest (.unknown field.type)
  | .instancePut src object _ => do
    let _ ← read src
    let _ ← read object
  | .staticGet dest field => do
    outside (calls.start field.owner)
    write dest (← getStatic field)
  | .staticPut src field => do
    outside (calls.start field.owner)
    putStatic field (← read src)
  | .unhandled mnemonic clobbers => do
    note (.unhandled mnemonic clobbers)
    clobbers.forM fun register => write register .uninitialized
  | .giveBack (some src) => do
    let value ← read src
    modifyFrame fun frame => frame.withResult (some value)
  | .giveBack none => modifyFrame fun frame => frame.withResult none
  | .throw src => do let _ ← read src
  | .nop | .branch .. | .jump .. | .switch .. => pure ()

def Instruction.execute (setup : Setup) (calls : Calls) (method : String)
    (instruction : Instruction) : Step (List Address) :=
  match instruction.op with
  | .branch condition lhs rhs target => do
    let left ← read lhs
    let right ← match rhs with
      | some register => read register
      | none => pure (.int 0)
    Step.branch condition left right instruction.next target
  | .switch src cases => do Step.switch (← read src) instruction.next cases
  | op => do
    op.perform setup calls ⟨method, instruction.address⟩
    match op with
    | .jump target => return [target]
    | .giveBack _ | .throw _ => return []
    | _ => return [instruction.next]

end Dexplore
