import Dexplore.Binary.Arithmetic
import Dexplore.Value

/-!
# Calculating with values

Integers wrap in 32 or 64 bits; a shift takes its distance modulo the width, and dividing by
zero gives no known value.  Floating-point results are rounded once.  Registers carry no type
of their own, so an integer pattern of the right width also serves as a floating-point
operand.  An operand that is unknown or of the wrong sort gives an unknown of the result type.
-/

set_option autoImplicit false

namespace Dexplore

/-! ## Operands -/

namespace Scalar

/-- The single that a scalar stands for, where an int is a bit pattern. -/
def single? : Scalar → Option UInt32
  | float bits => some bits
  | double bits => some (.ofNat (BinaryFormat.double.convert .single bits.toNat))
  | int value => some value.toUInt32
  | _ => none

/-- The double that a scalar stands for, where a long is a bit pattern. -/
def double? : Scalar → Option UInt64
  | double bits => some bits
  | float bits => some (.ofNat (BinaryFormat.single.convert .double bits.toNat))
  | long value => some value.toUInt64
  | _ => none

end Scalar

namespace Value

def single? : Value → Option UInt32
  | scalar _ contents => contents.single?
  | _ => none

def double? : Value → Option UInt64
  | scalar _ contents => contents.double?
  | _ => none

end Value

/-! ## Two operands -/

namespace BinaryOp

def onInt (op : BinaryOp) (a b : Int32) : Option Int32 :=
  match op with
  | add => some (a + b)
  | sub => some (a - b)
  | rsub => some (b - a)
  | mul => some (a * b)
  | div => if b = 0 then none else some (a / b)
  | rem => if b = 0 then none else some (a % b)
  | and => some (a &&& b)
  | or => some (a ||| b)
  | xor => some (a ^^^ b)
  | shl => some (a <<< (b &&& 31))
  | shr => some (a >>> (b &&& 31))
  | ushr => some (a.toUInt32 >>> (b.toUInt32 &&& 31)).toInt32

def onLong (op : BinaryOp) (a b : Int64) : Option Int64 :=
  match op with
  | add => some (a + b)
  | sub => some (a - b)
  | rsub => some (b - a)
  | mul => some (a * b)
  | div => if b = 0 then none else some (a / b)
  | rem => if b = 0 then none else some (a % b)
  | and => some (a &&& b)
  | or => some (a ||| b)
  | xor => some (a ^^^ b)
  | shl => some (a <<< (b &&& 63))
  | shr => some (a >>> (b &&& 63))
  | ushr => some (a.toUInt64 >>> (b.toUInt64 &&& 63)).toInt64

def onFloating (op : BinaryOp) (format : BinaryFormat) (a b : Nat) : Option Nat :=
  match op with
  | add => some (format.add a b)
  | sub => some (format.sub a b)
  | rsub => some (format.sub b a)
  | mul => some (format.mul a b)
  | div => some (format.div a b)
  | rem => some (format.rem a b)
  | _ => none

end BinaryOp

namespace Value

def binary? (op : BinaryOp) (kind : NumericKind) (left right : Value) : Option Value :=
  match kind with
  | .int => do
    let a ← left.int?
    let b ← right.int?
    return int (← op.onInt a b)
  | .long => do
    let a ← left.integer?
    let b ← right.integer?
    return long (← op.onLong a b)
  | .float => do
    let a ← left.single?
    let b ← right.single?
    return float (.ofNat (← op.onFloating .single a.toNat b.toNat))
  | .double => do
    let a ← left.double?
    let b ← right.double?
    return double (.ofNat (← op.onFloating .double a.toNat b.toNat))

def binary (op : BinaryOp) (kind : NumericKind) (left right : Value) : Value :=
  (binary? op kind left right).getD (unknown kind.type)

end Value

/-! ## One operand -/

namespace BinaryFormat

/-- The 32-bit integer nearest to the integer part. -/
def toInt32 (format : BinaryFormat) (bits : Nat) : Int32 :=
  .ofInt (format.truncate Int32.minValue.toInt Int32.maxValue.toInt bits)

def toInt64 (format : BinaryFormat) (bits : Nat) : Int64 :=
  .ofInt (format.truncate Int64.minValue.toInt Int64.maxValue.toInt bits)

end BinaryFormat

namespace UnaryOp

def result? (op : UnaryOp) (operand : Value) : Option Scalar :=
  match op with
  | negInt => operand.int?.map fun value => .int (-value)
  | notInt => operand.int?.map fun value => .int (~~~value)
  | negLong => operand.integer?.map fun value => .long (-value)
  | notLong => operand.integer?.map fun value => .long (~~~value)
  | negFloat =>
    operand.single?.map fun bits => .float (.ofNat (BinaryFormat.single.negate bits.toNat))
  | negDouble =>
    operand.double?.map fun bits => .double (.ofNat (BinaryFormat.double.negate bits.toNat))
  | intToLong => operand.int?.map fun value => .long value.toInt64
  | intToFloat =>
    operand.int?.map fun value => .float (.ofNat (BinaryFormat.single.ofInt value.toInt))
  | intToDouble =>
    operand.int?.map fun value => .double (.ofNat (BinaryFormat.double.ofInt value.toInt))
  | longToInt => operand.integer?.map fun value => .int value.toInt32
  | longToFloat =>
    operand.integer?.map fun value => .float (.ofNat (BinaryFormat.single.ofInt value.toInt))
  | longToDouble =>
    operand.integer?.map fun value => .double (.ofNat (BinaryFormat.double.ofInt value.toInt))
  | floatToInt => operand.single?.map fun bits => .int (BinaryFormat.single.toInt32 bits.toNat)
  | floatToLong => operand.single?.map fun bits => .long (BinaryFormat.single.toInt64 bits.toNat)
  | floatToDouble =>
    operand.single?.map fun bits =>
      .double (.ofNat (BinaryFormat.single.convert .double bits.toNat))
  | doubleToInt => operand.double?.map fun bits => .int (BinaryFormat.double.toInt32 bits.toNat)
  | doubleToLong => operand.double?.map fun bits => .long (BinaryFormat.double.toInt64 bits.toNat)
  | doubleToFloat =>
    operand.double?.map fun bits =>
      .float (.ofNat (BinaryFormat.double.convert .single bits.toNat))
  | intToByte => operand.int?.map fun value => .byte value.toInt8
  | intToChar => operand.int?.map fun value => .char value.toUInt32.toUInt16
  | intToShort => operand.int?.map fun value => .short value.toInt16

end UnaryOp

def Value.unary (op : UnaryOp) (operand : Value) : Value :=
  match op.result? operand with
  | some contents => .scalar op.resultType contents
  | none => .unknown op.resultType

/-! ## Three-way comparison -/

namespace ThreeWay

/-- The order that a comparison finds; `some none` if an operand is no number. -/
def order? (kind : ThreeWay) (left right : Value) : Option (Option Ordering) :=
  match kind with
  | cmpLong => do
    let a ← left.integer?
    let b ← right.integer?
    return some (compare a.toInt b.toInt)
  | cmplFloat | cmpgFloat => do
    let a ← left.single?
    let b ← right.single?
    return BinaryFormat.single.compareNumeric a.toNat b.toNat
  | cmplDouble | cmpgDouble => do
    let a ← left.double?
    let b ← right.double?
    return BinaryFormat.double.compareNumeric a.toNat b.toNat

def code (kind : ThreeWay) : Option Ordering → Int32
  | some .lt => -1
  | some .eq => 0
  | some .gt => 1
  | none => if kind = cmplFloat || kind = cmplDouble then -1 else 1

end ThreeWay

def Value.threeWay (kind : ThreeWay) (left right : Value) : Value :=
  match kind.order? left right with
  | some order => .int (kind.code order)
  | none => .unknown .int

end Dexplore
