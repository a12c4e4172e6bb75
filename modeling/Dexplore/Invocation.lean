import Dexplore.World

/-!
# Calling methods

A call gives the caller a result and writes to static fields.  A callee with code is executed
from a frame that holds the arguments and the static writes of the caller, and is summarised
by what its paths agree on.  Of a callee without code only the type of the result is known.
If the callee is given up, every field that it writes is unknown afterwards.
-/

set_option autoImplicit false

namespace Dexplore

structure CallOutcome where
  result : Option Value
  /-- The static fields that the path has to see changed, in order. -/
  writes : List (FieldRef × Value)

namespace MethodRef

def unknownResult (method : MethodRef) : Option Value :=
  if method.result.isVoid then none else some (.unknown method.result)

end MethodRef

namespace Invocation

def bindArguments (caller frame : Frame) (index : Nat) : List Register → Except Fault Frame
  | [] => .ok frame
  | register :: rest => do
    let value ← caller.read register
    bindArguments caller (← frame.bindParameter index value) (index + 1) rest

def entryFrame (callee : MethodDef) (method : MethodRef) (isStatic : Bool) (caller : Frame)
    (args : List Register) : Except Fault Frame := do
  let frame := Frame.new callee.registers method.parameters.length
  let frame ←
    match isStatic, args with
    | false, receiver :: rest => do
      let frame ← frame.bindReceiver (← caller.read receiver)
      bindArguments caller frame 0 rest
    | _, args => bindArguments caller frame 0 args
  return frame.inheritStatics caller

def summarise (method : MethodRef) (caller : Frame) (statics : Statics) (graph : Graph) :
    CallOutcome where
  result := method.unknownResult.map fun unknown =>
    (graph.returnConsensus graph.connectedReturns).getD unknown
  writes := graph.writtenStatics.map fun field =>
    (field, graph.staticConsensus field (statics.valueOn caller field))

def abandonedWrites (template : Graph) (caller : Frame) : OrdMap FieldRef Value :=
  let puts := OrdMap.ofList (template.staticPuts.map fun field => (field, Value.unknown field.type))
  if template.mayStore then
    (caller.statics.entries.filter fun entry => entry.2.isMutable).foldl
      (fun writes entry => writes.insert entry.1 entry.2.widen) puts
  else puts

def abandoned (method : MethodRef) (caller : Frame) (template : Graph) : CallOutcome where
  result := method.unknownResult
  writes := (abandonedWrites template caller).entries

end Invocation

def Program.callee? (program : Program) (descriptor : String) : Option (MethodDef × Graph) := do
  let callee ← program.methods.find? descriptor
  let template ← program.templates.find? descriptor
  return (callee, template)

def Program.invoke (program : Program) (calls : Calls) (kind : InvokeKind) (method : MethodRef)
    (caller : Frame) (args : List Register) : Run CallOutcome := do
  let isStatic : Bool := kind = .static
  let expected := method.parameters.length + if isStatic then 0 else 1
  if args.length ≠ expected then
    throw (.malformed (.argumentCount kind method.descriptor args.length expected))
  match program.callee? method.descriptor with
  | none =>
    calls.start method.owner
    return { result := method.unknownResult, writes := [] }
  | some (callee, template) =>
    if callee.isStatic ≠ isStatic then
      throw (.malformed (.staticMismatch kind method.descriptor callee.isStatic))
    let frame ← Run.ofExcept (Invocation.entryFrame callee method isStatic caller args)
    match ← calls.execute method.descriptor frame with
    | some graph => return Invocation.summarise method caller (← get).statics graph
    | none => return Invocation.abandoned method caller template

end Dexplore
