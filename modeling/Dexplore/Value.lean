import Dexplore.Instruction

/-!
# Values

A value has a declared type and is known or unknown.  A known value is a scalar or an array
of values, and scalars hold exactly what was put into them: floating-point numbers are bit
patterns, so equality of values is equality of patterns.  Type and contents need not match;
where they do is the matter of typing, not of this module.
-/

set_option autoImplicit false

namespace Dexplore

structure Site where
  method : String
  address : Address
  deriving DecidableEq

inductive Scalar where
  | boolean (value : Bool)
  | byte (value : Int8)
  | short (value : Int16)
  | char (unit : UInt16)
  | int (value : Int32)
  | long (value : Int64)
  | float (bits : UInt32)
  | double (bits : UInt64)
  | string (text : String)
  | type (type : TypeDescriptor)
  | null
  /-- An object; the receiver of the analysed method has no site. -/
  | object (site : Option Site)
  deriving DecidableEq

inductive Value where
  | unknown (type : TypeDescriptor)
  | scalar (type : TypeDescriptor) (contents : Scalar)
  | array (type : TypeDescriptor) (elements : List Value)

namespace Value

/-! ## Equality -/

mutual

def decideEq : (left right : Value) → Decidable (left = right)
  | unknown type, unknown type' => decidable_of_iff (type = type') (by simp)
  | scalar type contents, scalar type' contents' =>
    decidable_of_iff (type = type' ∧ contents = contents') (by simp)
  | array type elements, array type' elements' =>
    have := decideEqList elements elements'
    decidable_of_iff (type = type' ∧ elements = elements') (by simp)
  | unknown _, scalar _ _ => isFalse (by simp)
  | unknown _, array _ _ => isFalse (by simp)
  | scalar _ _, unknown _ => isFalse (by simp)
  | scalar _ _, array _ _ => isFalse (by simp)
  | array _ _, unknown _ => isFalse (by simp)
  | array _ _, scalar _ _ => isFalse (by simp)

def decideEqList : (left right : List Value) → Decidable (left = right)
  | [], [] => isTrue rfl
  | [], _ :: _ => isFalse (by simp)
  | _ :: _, [] => isFalse (by simp)
  | head :: rest, head' :: rest' =>
    have := decideEq head head'
    have := decideEqList rest rest'
    decidable_of_iff (head = head' ∧ rest = rest') (by simp)

end

instance : DecidableEq Value := decideEq

/-! ## Making values -/

/-- The value of a register that was never written. -/
def uninitialized : Value := unknown .unknown

def int (value : Int32) : Value := scalar .int (.int value)
def long (value : Int64) : Value := scalar .long (.long value)
def float (bits : UInt32) : Value := scalar .float (.float bits)
def double (bits : UInt64) : Value := scalar .double (.double bits)
def string (text : String) : Value := scalar .string (.string text)

end Value

def Primitive.zero : Primitive → Scalar
  | .boolean => .boolean false
  | .byte => .byte 0
  | .short => .short 0
  | .char => .char 0
  | .int => .int 0
  | .long => .long 0
  | .float => .float 0
  | .double => .double 0

namespace Value

/-- What a variable holds before it is written: zero, or null for a reference. -/
def defaultFor (type : TypeDescriptor) : Value :=
  match type.primitive? with
  | some primitive => scalar type primitive.zero
  | none => if type.isReference then scalar type .null else unknown type

/-- The value of a literal, in the type that the literal has by itself. -/
def ofLiteral : Literal → Value
  | .int value => int value
  | .long value => long value
  | .float bits => float bits
  | .double bits => double bits
  | .string text => string text
  | .type named => scalar .classObject (.type named)
  | .null => scalar .object .null

def narrowed? (value : Int32) : Primitive → Option Scalar
  | .boolean => some (.boolean (value ≠ 0))
  | .byte => some (.byte value.toInt8)
  | .short => some (.short value.toInt16)
  | .char => some (.char value.toUInt32.toUInt16)
  | .int => some (.int value)
  | .long => some (.long value.toInt64)
  | .float | .double => none

def contents? (literal : Literal) (type : TypeDescriptor) : Option Scalar :=
  match literal, type.primitive? with
  | .int value, some primitive => narrowed? value primitive
  | .long value, some .long => some (.long value)
  | .float bits, some .float => some (.float bits)
  | .double bits, some .double => some (.double bits)
  | .string text, none => if type.isReference then some (.string text) else none
  | .type named, none => if type.isReference then some (.type named) else none
  | .null, none => if type.isReference then some .null else none
  | _, _ => none

def ofLiteralTyped (literal : Literal) (type : TypeDescriptor) : Value :=
  match contents? literal type with
  | some contents => scalar type contents
  | none => unknown type

/-! ## Looking at values -/

def type : Value → TypeDescriptor
  | unknown type | scalar type _ | array type _ => type

def isKnown : Value → Bool
  | unknown _ => false
  | scalar _ _ | array _ _ => true

def elements? : Value → Option (List Value)
  | array _ elements => some elements
  | _ => none

/-- Whether the contents of the value can change behind its back. -/
def isMutable (value : Value) : Bool := value.elements?.isSome

def isArrayOf (value : Value) (type : TypeDescriptor) : Bool :=
  value.isMutable && value.type = type

def widen (value : Value) : Value := unknown value.type

end Value

namespace Scalar

/-- The integer that a scalar stands for; null stands for zero. -/
def integer? : Scalar → Option Int64
  | boolean value => some (if value then 1 else 0)
  | byte value => some value.toInt64
  | short value => some value.toInt64
  | char unit => some unit.toUInt64.toInt64
  | int value => some value.toInt64
  | long value => some value
  | null => some 0
  | _ => none

def isReference : Scalar → Bool
  | string _ | type _ | object _ => true
  | _ => false

end Scalar

namespace Value

def integer? : Value → Option Int64
  | scalar _ contents => contents.integer?
  | _ => none

def int? (value : Value) : Option Int32 := value.integer?.map (·.toInt32)

def isReference : Value → Bool
  | array _ _ => true
  | scalar _ contents => contents.isReference
  | unknown _ => false

end Value

end Dexplore
