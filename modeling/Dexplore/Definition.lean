import Dexplore.Instruction

/-!
# Definitions of classes

What is given to the analysis: classes with their fields and methods.  A method without
instructions has no implementation.
-/

set_option autoImplicit false

namespace Dexplore

abbrev AccessFlags := Nat

def AccessFlags.isStatic (flags : AccessFlags) : Bool := flags.testBit 3

def AccessFlags.isFinal (flags : AccessFlags) : Bool := flags.testBit 4

structure FieldDef where
  name : String
  type : TypeDescriptor
  flags : AccessFlags
  initial : Option Literal
  deriving DecidableEq

/-- Where an exception goes; without a type it takes every exception. -/
structure CatchHandler where
  type : Option TypeDescriptor
  address : Address
  deriving DecidableEq

structure TryBlock where
  start : Address
  units : Address
  handlers : List CatchHandler
  deriving DecidableEq

def TryBlock.covers (block : TryBlock) (address : Address) : Bool :=
  block.start ≤ address && address - block.start < block.units

structure MethodDef where
  reference : MethodRef
  flags : AccessFlags
  registers : Nat
  instructions : List Instruction
  tries : List TryBlock
  deriving DecidableEq

namespace MethodDef

def descriptor (method : MethodDef) : String := method.reference.descriptor

def isStatic (method : MethodDef) : Bool := method.flags.isStatic

def isImplemented (method : MethodDef) : Bool := !method.instructions.isEmpty

/-- How many registers the receiver and the parameters take. -/
def incoming (method : MethodDef) : Nat :=
  method.reference.parameters.length + if method.isStatic then 0 else 1

end MethodDef

structure ClassDef where
  name : TypeDescriptor
  flags : AccessFlags
  fields : List FieldDef
  methods : List MethodDef
  deriving DecidableEq

namespace ClassDef

def isFinal (definition : ClassDef) : Bool := definition.flags.isFinal

def staticFields (definition : ClassDef) : List FieldDef :=
  definition.fields.filter fun field => field.flags.isStatic

end ClassDef

end Dexplore
