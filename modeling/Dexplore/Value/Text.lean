import Dexplore.Instruction.Text
import Dexplore.Value

/-!
# The text of values

A value is written as its contents, a colon and its declared type.
-/

set_option autoImplicit false

namespace Dexplore

def Scalar.text : Scalar → String
  | .boolean value => if value then "true" else "false"
  | .byte value => toString value.toInt
  | .short value => toString value.toInt
  | .char unit => "'\\u" ++ Text.zeroPadded 4 (Text.hexadecimal unit.toNat) ++ "'"
  | .int value => toString value.toInt
  | .long value => toString value.toInt ++ "L"
  | .float bits => BinaryFormat.single.text bits.toNat ++ "f"
  | .double bits => BinaryFormat.double.text bits.toNat ++ "d"
  | .string text => Text.quoted text
  | .type named => named.text ++ ".class"
  | .null => "null"
  | .object none => "this"
  | .object (some site) => "new@" ++ toString site.address.toNat

namespace Value

mutual

def text : Value → String
  | unknown type => "unknown:" ++ type.text
  | scalar type contents => contents.text ++ ":" ++ type.text
  | array type elements => "[" ++ ", ".intercalate (texts elements) ++ "]:" ++ type.text

def texts : List Value → List String
  | [] => []
  | head :: rest => text head :: texts rest

end

end Value

end Dexplore
