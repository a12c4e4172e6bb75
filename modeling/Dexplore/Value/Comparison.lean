import Dexplore.Binary.Format
import Dexplore.Value

/-!
# Comparing values

How two values compare when a program tests them, if that is known.  Integers compare as
integers whatever their types, floating-point numbers as numbers with negative zero below
zero and non-numbers on top, strings by their characters.  An object that is not null lies
above null and zero.
-/

set_option autoImplicit false

namespace Dexplore

def Scalar.floating? : Scalar → Option Nat
  | .float bits => some (BinaryFormat.single.convert .double bits.toNat)
  | .double bits => some bits.toNat
  | _ => none

namespace Value

def floating? : Value → Option Nat
  | scalar _ contents => contents.floating?
  | _ => none

/-- The order of two references, or of a reference and zero. -/
def compareReferences? : Value → Value → Option Ordering
  | scalar _ (.string text), scalar _ (.string text') => some (compare text text')
  | scalar _ (.type named), scalar _ (.type named') => if named = named' then some .eq else none
  | left, right =>
    if left.isReference && right.integer? = some 0 then some .gt
    else if right.isReference && left.integer? = some 0 then some .lt
    else none

def compare? (left right : Value) : Option Ordering :=
  match left.floating?, right.floating? with
  | some bits, some bits' => some (BinaryFormat.double.compareTotal bits bits')
  | _, _ =>
    match left.integer?, right.integer? with
    | some integer, some integer' => some (compare integer.toInt integer'.toInt)
    | _, _ => compareReferences? left right

def equals? (left right : Value) : Option Bool := (left.compare? right).map (· = .eq)

end Value

def Condition.decide? (condition : Condition) (left right : Value) : Option Bool :=
  (left.compare? right).map condition.holds

end Dexplore
