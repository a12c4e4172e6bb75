import Dexplore.Instruction
import Dexplore.Binary.Decimal
import Dexplore.Text.Quoted

/-!
# The text of instructions

An instruction is written as its mnemonic, its registers, and what else it names.  Target
addresses follow a `#`.
-/

set_option autoImplicit false

namespace Dexplore

def registerText (register : Register) : String := "v" ++ toString register

def targetText (address : Address) : String := "#" ++ toString address.toNat

/-- The text of a literal. The letter after a number tells its type. -/
def Literal.text : Literal → String
  | .int value => toString value.toInt
  | .long value => toString value.toInt ++ "L"
  | .float bits => BinaryFormat.single.text bits.toNat ++ "f"
  | .double bits => BinaryFormat.double.text bits.toNat ++ "d"
  | .string text => Text.quoted text
  | .type named => named.text
  | .null => "null"

def Operand.text : Operand → String
  | .register index => registerText index
  | .literal value => toString value.toInt

def Literal.mnemonic : Literal → String
  | .int _ | .float _ | .null => "const"
  | .long _ | .double _ => "const-wide"
  | .string _ => "const-string"
  | .type _ => "const-class"

namespace Op

def mnemonic : Op → String
  | nop => "nop"
  | const _ value => value.mnemonic
  | move .. => "move"
  | moveResult .. => "move-result"
  | binary op kind _ _ (.register _) => op.name ++ "-" ++ kind.name
  | binary op kind _ _ (.literal _) => op.name ++ "-" ++ kind.name ++ "/lit"
  | unary op _ _ => op.name
  | compare kind _ _ _ => kind.name
  | branch condition _ (some _) _ => "if-" ++ condition.name
  | branch condition _ none _ => "if-" ++ condition.name ++ "z"
  | jump _ => "goto"
  | switch .. => "sparse-switch"
  | invoke kind _ _ => "invoke-" ++ kind.name
  | giveBack (some _) => "return"
  | giveBack none => "return-void"
  | throw _ => "throw"
  | newInstance .. => "new-instance"
  | newArray .. => "new-array"
  | arrayLength .. => "array-length"
  | arrayGet .. => "aget"
  | arrayPut .. => "aput"
  | instanceGet .. => "iget"
  | instancePut .. => "iput"
  | staticGet .. => "sget"
  | staticPut .. => "sput"
  | unhandled mnemonic _ => mnemonic

def operands : Op → List String
  | nop => []
  | const dest value => [registerText dest, value.text]
  | move dest src => [registerText dest, registerText src]
  | moveResult dest => [registerText dest]
  | binary _ _ dest lhs rhs => [registerText dest, registerText lhs, rhs.text]
  | unary _ dest src => [registerText dest, registerText src]
  | compare _ dest lhs rhs => [registerText dest, registerText lhs, registerText rhs]
  | branch _ lhs rhs target =>
    registerText lhs :: (rhs.toList.map registerText ++ [targetText target])
  | jump target => [targetText target]
  | switch src cases =>
    registerText src ::
      cases.map fun case => toString case.1.toInt ++ " -> " ++ targetText case.2
  | invoke _ method args =>
    ["\x7b" ++ ", ".intercalate (args.map registerText) ++ "\x7d", method.descriptor]
  | giveBack src => src.toList.map registerText
  | throw src => [registerText src]
  | newInstance dest type => [registerText dest, type.text]
  | newArray dest size type => [registerText dest, registerText size, type.text]
  | arrayLength dest array => [registerText dest, registerText array]
  | arrayGet dest array index => [registerText dest, registerText array, registerText index]
  | arrayPut src array index => [registerText src, registerText array, registerText index]
  | instanceGet dest object field => [registerText dest, registerText object, field.descriptor]
  | instancePut src object field => [registerText src, registerText object, field.descriptor]
  | staticGet dest field => [registerText dest, field.descriptor]
  | staticPut src field => [registerText src, field.descriptor]
  | unhandled _ clobbers => clobbers.map registerText

def text (op : Op) : String :=
  match op.operands with
  | [] => op.mnemonic
  | operands => op.mnemonic ++ " " ++ ", ".intercalate operands

end Op

def Instruction.text (instruction : Instruction) : String := instruction.op.text

end Dexplore
