import Dexplore.Graph.NodeId

/-!
# Faults

Why an execution stops.  Ceilings are hit on purpose, so that an analysis ends; a method that
hits one is given up and its caller goes on.  All other faults say that the program itself is
not in order.
-/

set_option autoImplicit false

namespace Dexplore

inductive Defect where
  | noInstructions (method : String)
  | lateStart (method : String) (address : Address)
  | unorderedAddress (method : String) (address : Address)
  | noFrame (node : NodeId) (method : String)
  | classTwice (name : TypeDescriptor)
  | strangerMethod (method : String) (holder : TypeDescriptor)
  | methodTwice (method : String)
  | tooFewRegisters (method : String) (registers arguments : Nat)
  | argumentCount (kind : InvokeKind) (method : String) (passed expected : Nat)
  | staticMismatch (kind : InvokeKind) (method : String) (isStatic : Bool)
  | homelessMethod (method : String) (holder : TypeDescriptor)
  deriving DecidableEq

def Defect.message : Defect → String
  | .noInstructions method => method ++ " has no instructions"
  | .lateStart method address =>
    method ++ " starts at address " ++ toString address.toNat ++ " instead of 0"
  | .unorderedAddress method address =>
    method ++ " has out of order or duplicate address " ++ toString address.toNat
  | .noFrame node method => "node " ++ node.text ++ " of " ++ method ++ " has no context"
  | .classTwice name => "class " ++ name.text ++ " is defined twice"
  | .strangerMethod method holder => method ++ " is declared in " ++ holder.text
  | .methodTwice method => method ++ " is defined twice"
  | .tooFewRegisters method registers arguments =>
    method ++ " declares " ++ toString registers ++ " registers but receives " ++
      toString arguments ++ " arguments"
  | .argumentCount kind method passed expected =>
    "invoke-" ++ kind.name ++ " of " ++ method ++ " passes " ++ toString passed ++
      " arguments, expected " ++ toString expected
  | .staticMismatch kind method isStatic =>
    "invoke-" ++ kind.name ++ " of " ++ method ++ " which is " ++
      (if isStatic then "" else "not ") ++ "static"
  | .homelessMethod method holder =>
    method ++ " belongs to undefined class " ++ holder.text

inductive Fault where
  | invalidRegister (register count : Nat)
  | invalidAddress (method : String) (address : Address)
  /-- An instruction, given by its address and text, was entered too often. -/
  | revisitCeiling (method : String) (address : Address) (node : String) (limit : Nat)
  | callDepth (depth limit : Nat)
  | methodNotFound (descriptor : String)
  | malformed (defect : Defect)
  deriving DecidableEq

namespace Fault

def message : Fault → String
  | invalidRegister register count =>
    "invalid register v" ++ toString register ++ " (register count: " ++ toString count ++ ")"
  | invalidAddress method address =>
    "no instruction at address " ++ toString address.toNat ++ " in " ++ method
  | revisitCeiling method address node limit =>
    "exceeded " ++ toString limit ++ " visits of #" ++ toString address.toNat ++ " (" ++ node ++
      ") in " ++ method
  | callDepth depth limit =>
    "call depth exceeded: " ++ toString depth ++ " (limit: " ++ toString limit ++ ")"
  | methodNotFound descriptor => "method not found: " ++ descriptor
  | malformed defect => defect.message

/-- Whether only the method that hit the fault is given up. -/
def isRecoverable : Fault → Bool
  | revisitCeiling .. | callDepth .. => true
  | _ => false

end Fault

end Dexplore
