import Dexplore.OrdMap
import Dexplore.Instruction
import Dexplore.Assembly.Error

/-!
# Laying out code with labels

Operations are laid out one after another from address zero, each in its usual width unless
another is given.  A branch may name a label that is placed before or after it; `link`
replaces every label by its address.  Labels and descriptors may be refused; what a call has done
to the assembler before it fails stays done.
-/

set_option autoImplicit false

namespace Dexplore

/-- An instruction in its place, with the labels of its targets in the order of the targets.
An instruction without labels keeps the addresses it has. -/
structure Pending where
  instruction : Instruction
  labels : List String
  deriving DecidableEq

structure Assembler where
  /-- The instructions so far, in order. -/
  pending : List Pending
  /-- The address of each label. -/
  labels : OrdMap String Address
  /-- Where the next instruction goes. -/
  address : Address

abbrev Assembling := EStateM AssemblyError Assembler

namespace Assembler

def empty : Assembler := ⟨[], .empty, 0⟩

def label (name : String) : Assembling Unit := fun assembler =>
  if assembler.labels.contains name then .error (.duplicateLabel name) assembler
  else .ok () { assembler with labels := assembler.labels.insert name assembler.address }

def push (assembler : Assembler) (instruction : Instruction) (labels : List String) : Assembler :=
  { assembler with
    pending := assembler.pending ++ [⟨instruction, labels⟩]
    address := instruction.next }

def emit (assembler : Assembler) (op : Op) : Assembler :=
  assembler.push (.ofOp assembler.address op) []

def emitSized (assembler : Assembler) (op : Op) (units : UInt16) : Assembler :=
  assembler.push ⟨assembler.address, units, op⟩ []

def emitLabelled (assembler : Assembler) (op : Op) (labels : List String) : Assembler :=
  assembler.push (.ofOp assembler.address op) labels

def branch (assembler : Assembler) (condition : Condition) (lhs : Register)
    (rhs : Option Register) (label : String) : Assembler :=
  assembler.emitLabelled (.branch condition lhs rhs 0) [label]

def jump (assembler : Assembler) (label : String) : Assembler :=
  assembler.emitLabelled (.jump 0) [label]

def switch (assembler : Assembler) (src : Register) (cases : List (Int32 × String)) : Assembler :=
  assembler.emitLabelled (.switch src (cases.map fun case => (case.1, 0))) (cases.map (·.2))

def readMethod (descriptor : String) : Except AssemblyError MethodRef :=
  match MethodRef.parse? descriptor with
  | some method => .ok method
  | none => .error (.invalidDescriptor descriptor)

def readField (descriptor : String) : Except AssemblyError FieldRef :=
  match FieldRef.parse? descriptor with
  | some field => .ok field
  | none => .error (.invalidDescriptor descriptor)

def invoke (kind : InvokeKind) (descriptor : String) (args : List Register) :
    Assembling Unit := do
  let method ← ofExcept (readMethod descriptor)
  modify (·.emit (.invoke kind method args))

def access (op : FieldRef → Op) (descriptor : String) : Assembling Unit := do
  let field ← ofExcept (readField descriptor)
  modify (·.emit (op field))

end Assembler

/-! ## Calls -/

inductive Directive where
  | label (name : String)
  | emit (op : Op)
  | emitSized (op : Op) (units : UInt16)
  | branch (condition : Condition) (lhs : Register) (rhs : Option Register) (name : String)
  | jump (name : String)
  | switch (src : Register) (cases : List (Int32 × String))
  | invoke (kind : InvokeKind) (descriptor : String) (args : List Register)
  | access (op : FieldRef → Op) (descriptor : String)

def Directive.apply : Directive → Assembling Unit
  | label name => Assembler.label name
  | emit op => modify (·.emit op)
  | emitSized op units => modify (·.emitSized op units)
  | branch condition lhs rhs name => modify (·.branch condition lhs rhs name)
  | jump name => modify (·.jump name)
  | switch src cases => modify (·.switch src cases)
  | invoke kind descriptor args => Assembler.invoke kind descriptor args
  | access op descriptor => Assembler.access op descriptor

/-! ## Linking -/

namespace Assembler

def resolve (labels : OrdMap String Address) (name : String) : Except AssemblyError Address :=
  match labels.find? name with
  | some address => .ok address
  | none => .error (.undefinedLabel name)

def resolveCases (labels : OrdMap String Address) :
    List (Int32 × Address) → List String → Except AssemblyError (List (Int32 × Address))
  | (key, _) :: cases, name :: names => do
    let address ← resolve labels name
    return (key, address) :: (← resolveCases labels cases names)
  | cases, _ => .ok cases

/-- Gives the targets of an operation the addresses of labels, as far as there are labels. -/
def resolveOp (labels : OrdMap String Address) (op : Op) (names : List String) :
    Except AssemblyError Op :=
  match op, names with
  | .branch condition lhs rhs _, name :: _ =>
    return .branch condition lhs rhs (← resolve labels name)
  | .jump _, name :: _ => return .jump (← resolve labels name)
  | .switch src cases, names => return .switch src (← resolveCases labels cases names)
  | op, _ => .ok op

/-- The code with every label replaced by its address; the first label without an address is
the error. -/
def link (assembler : Assembler) : Except AssemblyError (List Instruction) :=
  assembler.pending.mapM fun pending => do
    let op ← resolveOp assembler.labels pending.instruction.op pending.labels
    return { pending.instruction with op }

end Assembler

end Dexplore
