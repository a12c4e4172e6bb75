import Dexplore.Member

/-!
# Instructions

The instructions of Dalvik register bytecode, as far as an analysis tells them apart.  An
instruction stands at an address, which counts 16-bit code units, and is some units wide.  Its
operation names registers of the frame, literals, members and absolute target addresses.  This
module says how wide an operation is, how control leaves it and where it can go next.
-/

set_option autoImplicit false

namespace Dexplore

abbrev Register := Nat

/-- A position in the code of a method, in code units. -/
abbrev Address := UInt32

/-! ## Operands -/

/-- A constant written in the code or given to a static field. Floating-point constants are
bit patterns. -/
inductive Literal where
  | int (value : Int32)
  | long (value : Int64)
  | float (bits : UInt32)
  | double (bits : UInt64)
  | string (text : String)
  | type (type : TypeDescriptor)
  | null
  deriving DecidableEq

inductive Operand where
  | register (register : Register)
  | literal (value : Int32)
  deriving DecidableEq

inductive NumericKind where
  | int | long | float | double
  deriving DecidableEq, Repr

/-- The operations with two operands; `rsub` takes the first from the second. -/
inductive BinaryOp where
  | add | sub | mul | div | rem | and | or | xor | shl | shr | ushr | rsub
  deriving DecidableEq, Repr

inductive UnaryOp where
  | negInt | notInt | negLong | notLong | negFloat | negDouble
  | intToLong | intToFloat | intToDouble
  | longToInt | longToFloat | longToDouble
  | floatToInt | floatToLong | floatToDouble
  | doubleToInt | doubleToLong | doubleToFloat
  | intToByte | intToChar | intToShort
  deriving DecidableEq, Repr

/-- The three-way comparisons. Those of floating-point numbers differ in where a non-number
goes: `cmpl` puts it below, `cmpg` above. -/
inductive ThreeWay where
  | cmplFloat | cmpgFloat | cmplDouble | cmpgDouble | cmpLong
  deriving DecidableEq, Repr

inductive Condition where
  | eq | ne | lt | le | gt | ge
  deriving DecidableEq, Repr

inductive InvokeKind where
  | virtual | super | direct | static | interface
  deriving DecidableEq, Repr

namespace NumericKind

def all : List NumericKind := [int, long, float, double]

def name : NumericKind → String
  | int => "int"
  | long => "long"
  | float => "float"
  | double => "double"

def type : NumericKind → TypeDescriptor
  | int => .int
  | long => .long
  | float => .float
  | double => .double

end NumericKind

namespace BinaryOp

def all : List BinaryOp := [add, sub, mul, div, rem, and, or, xor, shl, shr, ushr, rsub]

def name : BinaryOp → String
  | add => "add"
  | sub => "sub"
  | mul => "mul"
  | div => "div"
  | rem => "rem"
  | and => "and"
  | or => "or"
  | xor => "xor"
  | shl => "shl"
  | shr => "shr"
  | ushr => "ushr"
  | rsub => "rsub"

end BinaryOp

namespace UnaryOp

def all : List UnaryOp :=
  [negInt, notInt, negLong, notLong, negFloat, negDouble, intToLong, intToFloat, intToDouble,
    longToInt, longToFloat, longToDouble, floatToInt, floatToLong, floatToDouble,
    doubleToInt, doubleToLong, doubleToFloat, intToByte, intToChar, intToShort]

def name : UnaryOp → String
  | negInt => "neg-int"
  | notInt => "not-int"
  | negLong => "neg-long"
  | notLong => "not-long"
  | negFloat => "neg-float"
  | negDouble => "neg-double"
  | intToLong => "int-to-long"
  | intToFloat => "int-to-float"
  | intToDouble => "int-to-double"
  | longToInt => "long-to-int"
  | longToFloat => "long-to-float"
  | longToDouble => "long-to-double"
  | floatToInt => "float-to-int"
  | floatToLong => "float-to-long"
  | floatToDouble => "float-to-double"
  | doubleToInt => "double-to-int"
  | doubleToLong => "double-to-long"
  | doubleToFloat => "double-to-float"
  | intToByte => "int-to-byte"
  | intToChar => "int-to-char"
  | intToShort => "int-to-short"

def resultType : UnaryOp → TypeDescriptor
  | negInt | notInt | longToInt | floatToInt | doubleToInt => .int
  | negLong | notLong | intToLong | floatToLong | doubleToLong => .long
  | negFloat | intToFloat | longToFloat | doubleToFloat => .float
  | negDouble | intToDouble | longToDouble | floatToDouble => .double
  | intToByte => .byte
  | intToChar => .char
  | intToShort => .short

end UnaryOp

namespace ThreeWay

def all : List ThreeWay := [cmplFloat, cmpgFloat, cmplDouble, cmpgDouble, cmpLong]

def name : ThreeWay → String
  | cmplFloat => "cmpl-float"
  | cmpgFloat => "cmpg-float"
  | cmplDouble => "cmpl-double"
  | cmpgDouble => "cmpg-double"
  | cmpLong => "cmp-long"

end ThreeWay

namespace Condition

def all : List Condition := [eq, ne, lt, le, gt, ge]

def name : Condition → String
  | eq => "eq"
  | ne => "ne"
  | lt => "lt"
  | le => "le"
  | gt => "gt"
  | ge => "ge"

def holds : Condition → Ordering → Bool
  | eq, order => order = .eq
  | ne, order => order ≠ .eq
  | lt, order => order = .lt
  | le, order => order ≠ .gt
  | gt, order => order = .gt
  | ge, order => order ≠ .lt

end Condition

namespace InvokeKind

def all : List InvokeKind := [virtual, super, direct, static, interface]

def name : InvokeKind → String
  | virtual => "virtual"
  | super => "super"
  | direct => "direct"
  | static => "static"
  | interface => "interface"

end InvokeKind

/-! ## Operations -/

inductive Op where
  | nop
  | const (dest : Register) (value : Literal)
  | move (dest src : Register)
  | moveResult (dest : Register)
  | binary (op : BinaryOp) (kind : NumericKind) (dest lhs : Register) (rhs : Operand)
  | unary (op : UnaryOp) (dest src : Register)
  | compare (kind : ThreeWay) (dest lhs rhs : Register)
  /-- Compares with a register, or with zero. -/
  | branch (condition : Condition) (lhs : Register) (rhs : Option Register) (target : Address)
  | jump (target : Address)
  | switch (src : Register) (cases : List (Int32 × Address))
  | invoke (kind : InvokeKind) (method : MethodRef) (args : List Register)
  /-- Leaves the method, with a value or without. -/
  | giveBack (src : Option Register)
  | throw (src : Register)
  | newInstance (dest : Register) (type : TypeDescriptor)
  | newArray (dest size : Register) (type : TypeDescriptor)
  | arrayLength (dest array : Register)
  | arrayGet (dest array index : Register)
  | arrayPut (src array index : Register)
  | instanceGet (dest object : Register) (field : FieldRef)
  | instancePut (src object : Register) (field : FieldRef)
  | staticGet (dest : Register) (field : FieldRef)
  | staticPut (src : Register) (field : FieldRef)
  /-- An operation known only by the registers it may change. -/
  | unhandled (mnemonic : String) (clobbers : List Register)
  deriving DecidableEq

inductive Flow where
  | sequential | conditionalBranch | unconditionalBranch | switch | call | giveBack | throw
  deriving DecidableEq, Repr

def Flow.canContinue : Flow → Bool
  | giveBack | throw => false
  | _ => true

def Literal.units : Literal → UInt16
  | .null => 1
  | .string _ | .type _ => 2
  | .int _ | .float _ => 3
  | .long _ | .double _ => 5

namespace Op

def units : Op → UInt16
  | nop | move .. | moveResult .. | unary .. | jump .. | giveBack .. | throw ..
  | arrayLength .. | unhandled .. => 1
  | const _ value => value.units
  | binary .. | compare .. | branch .. | newInstance .. | newArray .. | arrayGet ..
  | arrayPut .. | instanceGet .. | instancePut .. | staticGet .. | staticPut .. => 2
  | switch .. | invoke .. => 3

def flow : Op → Flow
  | branch .. => .conditionalBranch
  | jump .. => .unconditionalBranch
  | switch .. => .switch
  | invoke .. => .call
  | giveBack .. => .giveBack
  | throw .. => .throw
  | _ => .sequential

/-- The addresses that the operation names, in order and with repetitions. -/
def targets : Op → List Address
  | branch _ _ _ target | jump target => [target]
  | switch _ cases => cases.map (·.2)
  | _ => []

def isReturn : Op → Bool
  | giveBack .. => true
  | _ => false

def canContinue : Op → Bool
  | giveBack .. | throw .. => false
  | _ => true

/-- Whether the operation, or a method it calls, may store into an array. -/
def mayStore : Op → Bool
  | arrayPut .. | invoke .. => true
  | _ => false

def staticPut? : Op → Option FieldRef
  | staticPut _ field => some field
  | _ => none

end Op

/-! ## Instructions -/

structure Instruction where
  address : Address
  units : UInt16
  op : Op
  deriving DecidableEq

namespace Instruction

def ofOp (address : Address) (op : Op) : Instruction := ⟨address, op.units, op⟩

def next (instruction : Instruction) : Address :=
  instruction.address + instruction.units.toUInt32

/-- Where a switch without a known selector goes: on, then to each target once. -/
def switchSuccessors (next : Address) (cases : List (Int32 × Address)) : List Address :=
  (next :: cases.map (·.2)).eraseDups

def possibleSuccessors (instruction : Instruction) : List Address :=
  match instruction.op with
  | .jump target => [target]
  | .branch _ _ _ target => [instruction.next, target]
  | .switch _ cases => switchSuccessors instruction.next cases
  | .giveBack _ | .throw _ => []
  | _ => [instruction.next]

end Instruction

end Dexplore
