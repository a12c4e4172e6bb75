import Dexplore.Config
import Dexplore.Statics

/-!
# Programs

The classes under analysis, their methods by descriptor, and for every method with code the
graph that each execution starts from.
-/

set_option autoImplicit false

namespace Dexplore

structure Program where
  classes : OrdMap TypeDescriptor ClassDef
  methods : OrdMap String MethodDef
  /-- The graph of every method with code, before any execution. -/
  templates : OrdMap String Graph
  deriving DecidableEq

namespace Program

def empty : Program := ⟨.empty, .empty, .empty⟩

def register (program : Program) (method : MethodDef) : Except Fault Program :=
  let descriptor := method.descriptor
  if method.registers < method.incoming then
    .error (.malformed (.tooFewRegisters descriptor method.registers method.incoming))
  else if method.isImplemented then do
    let graph ← Graph.ofMethod method
    return { program with
      methods := program.methods.insert descriptor method
      templates := program.templates.insert descriptor graph }
  else
    return { program with
      methods := program.methods.insert descriptor method
      templates := program.templates.erase descriptor }

def declare (name : TypeDescriptor) (program : Program) (method : MethodDef) :
    Except Fault Program :=
  if method.reference.owner ≠ name then
    .error (.malformed (.strangerMethod method.descriptor name))
  else if program.methods.contains method.descriptor then
    .error (.malformed (.methodTwice method.descriptor))
  else program.register method

def define (program : Program) (definition : ClassDef) : Except Fault Program :=
  if program.classes.contains definition.name then
    .error (.malformed (.classTwice definition.name))
  else do
    let program ← definition.methods.foldlM (declare definition.name) program
    return { program with classes := program.classes.insert definition.name definition }

def ofClasses (definitions : List ClassDef) : Except Fault Program :=
  definitions.foldlM define empty

/-- The methods of a class with one of them replaced, or added at the end. -/
def replaceMethod (method : MethodDef) : List MethodDef → List MethodDef
  | [] => [method]
  | first :: rest =>
    if first.reference = method.reference then method :: rest
    else first :: replaceMethod method rest

def amendClass (program : Program) (method : MethodDef) : Program :=
  { program with
    classes := program.classes.modify method.reference.owner fun definition =>
      { definition with methods := replaceMethod method definition.methods } }

def isImplemented (program : Program) (descriptor : String) : Bool :=
  program.templates.contains descriptor

def isInitializer (program : Program) (descriptor : String) : Bool :=
  (program.methods.find? descriptor).any fun method => method.reference.isStaticInitializer

/-- Whether the contents of objects of a type never change. -/
def isImmutable (program : Program) (type : TypeDescriptor) : Bool :=
  !type.isUnknown && !type.isArray &&
    (type.isPrimitive || type.isBoxed || type.isString ||
      (program.classes.find? type).any (·.isFinal))

def tryTable (program : Program) : List (String × List TryBlock) :=
  (program.methods.entries.map fun entry => (entry.1, entry.2.tries)).filter
    fun entry => !entry.2.isEmpty

def bindParameters (frame : Frame) (index : Nat) : List Value → Except Fault Frame
  | [] => .ok frame
  | value :: rest => do bindParameters (← frame.bindParameter index value) (index + 1) rest

def rootFrame (program : Program) (descriptor : String) : Except Fault Frame :=
  match program.methods.find? descriptor with
  | none => .error (.methodNotFound descriptor)
  | some method => do
    let parameters := method.reference.parameters
    let frame := Frame.new method.registers parameters.length
    let frame ←
      if method.isStatic then pure frame
      else frame.bindReceiver (.scalar method.reference.owner (.object none))
    bindParameters frame 0 (parameters.map Value.unknown)

end Program

end Dexplore
