/-!
# Binary floating-point formats

A format splits a bit pattern into a sign, a biased exponent and a fraction.  Bit patterns
are natural numbers below `2 * signPlace`.  Reading one gives a `Reading`; writing a dyadic
number `± significand * 2 ^ exponent` rounds it to the nearest pattern, a half to the even
one.  Orders of patterns are orders of integers, so they need no arithmetic on fractions.
-/

set_option autoImplicit false

namespace Dexplore

/-- A binary format by the widths of its exponent and fraction fields. -/
structure BinaryFormat where
  exponentBits : Nat
  fractionBits : Nat
  deriving DecidableEq, Repr

namespace BinaryFormat

def single : BinaryFormat := ⟨8, 23⟩

def double : BinaryFormat := ⟨11, 52⟩

variable (format : BinaryFormat)

def signPlace : Nat := 1 <<< (format.exponentBits + format.fractionBits)

/-- The pattern of positive infinity. Larger magnitudes are no numbers. -/
def infinity : Nat := (1 <<< format.exponentBits - 1) <<< format.fractionBits

def hiddenPlace : Nat := 1 <<< format.fractionBits

def quietPlace : Nat := 1 <<< (format.fractionBits - 1)

/-- The exponent of the smallest positive number, which is the unit of all others. -/
def leastExponent : Int :=
  2 - (1 <<< (format.exponentBits - 1) : Nat) - format.fractionBits

def signed (negative : Bool) (magnitude : Nat) : Nat :=
  if negative then format.signPlace + magnitude else magnitude

def isNegative (bits : Nat) : Bool := format.signPlace ≤ bits

def magnitude (bits : Nat) : Nat := bits % format.signPlace

def isNaN (bits : Nat) : Bool := format.infinity < format.magnitude bits

def negate (bits : Nat) : Nat :=
  format.signed (!format.isNegative bits) (format.magnitude bits)

/-! ## Reading -/

/-- What a pattern stands for: no number, an infinity, or `± significand * 2 ^ exponent`. -/
inductive Reading where
  | nan (negative : Bool) (fraction : Nat)
  | infinite (negative : Bool)
  | finite (negative : Bool) (significand : Nat) (exponent : Int)
  deriving DecidableEq, Repr

def read (bits : Nat) : Reading :=
  let negative := format.isNegative bits
  let magnitude := format.magnitude bits
  let biased := magnitude >>> format.fractionBits
  let fraction := magnitude % format.hiddenPlace
  if format.infinity < magnitude then .nan negative fraction
  else if magnitude = format.infinity then .infinite negative
  else if biased = 0 then .finite negative fraction format.leastExponent
  else .finite negative (format.hiddenPlace + fraction) (format.leastExponent + (biased - 1))

/-! ## Writing -/

/-- Divides by `2 ^ places`, to the nearest whole number, a half to the even one. -/
def halfEven (number places : Nat) : Nat :=
  let unit := 1 <<< places
  let quotient := number / unit
  let twice := 2 * (number % unit)
  if twice < unit then quotient
  else if unit < twice then quotient + 1
  else quotient + quotient % 2

/-- The magnitude nearest to `significand * 2 ^ exponent`. A pattern grows by one from each
number to the next, so a fraction that is rounded up carries into the exponent by itself, and
everything past the largest number is infinity. -/
def nearest (significand : Nat) (exponent : Int) : Nat :=
  let lead : Int := exponent + significand.log2
  let place : Int := max (lead - format.fractionBits) format.leastExponent
  let units :=
    if place ≤ exponent then significand <<< (exponent - place).toNat
    else halfEven significand (place - exponent).toNat
  min (units + (place - format.leastExponent).toNat * format.hiddenPlace) format.infinity

def write (negative : Bool) (significand : Nat) (exponent : Int) : Nat :=
  format.signed negative (if significand = 0 then 0 else format.nearest significand exponent)

def ofInt (number : Int) : Nat := format.write (number < 0) number.natAbs 0

/-- Writes a non-number that keeps a sign and a fraction and is quiet. -/
def quiet (negative : Bool) (fraction : Nat) : Nat :=
  let kept := fraction % format.quietPlace
  format.signed negative (format.infinity + format.quietPlace + kept)

def convert (target : BinaryFormat) (bits : Nat) : Nat :=
  match format.read bits with
  | .nan negative fraction =>
    target.quiet negative ((fraction <<< target.fractionBits) >>> format.fractionBits)
  | .infinite negative => target.signed negative target.infinity
  | .finite negative significand exponent => target.write negative significand exponent

/-- The integer part, held between two bounds. Infinities are past the bounds, and what is
no number counts as zero. -/
def truncate (least greatest : Int) (bits : Nat) : Int :=
  match format.read bits with
  | .nan _ _ => 0
  | .infinite negative => if negative then least else greatest
  | .finite negative significand exponent =>
    let whole : Int := ((significand <<< exponent.toNat) >>> (-exponent).toNat : Nat)
    max least (min greatest (if negative then -whole else whole))

/-! ## Orders -/

def rank (bits : Nat) : Int :=
  if format.isNegative bits then -1 - format.magnitude bits else format.magnitude bits

/-- The place of a number where both zeros are the same. -/
def numericRank (bits : Nat) : Int :=
  if format.isNegative bits then -format.magnitude bits else format.magnitude bits

/-- Orders all patterns: numbers by rank, and above them what is no number, all alike. -/
def compareTotal (left right : Nat) : Ordering :=
  match format.isNaN left, format.isNaN right with
  | true, true => .eq
  | true, false => .gt
  | false, true => .lt
  | false, false => compare (format.rank left) (format.rank right)

def compareNumeric (left right : Nat) : Option Ordering :=
  if format.isNaN left || format.isNaN right then none
  else some (compare (format.numericRank left) (format.numericRank right))

end BinaryFormat

end Dexplore
