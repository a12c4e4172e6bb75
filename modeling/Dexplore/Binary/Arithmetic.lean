import Dexplore.Binary.Format

/-!
# Floating-point arithmetic

Each operation computes the exact result of what its operands stand for and rounds once.
The remainder is exact and takes the sign of the dividend.  A non-number among the operands
is the result, made quiet; an operation without a result gives the quiet non-number.
-/

set_option autoImplicit false

namespace Dexplore.BinaryFormat

variable (format : BinaryFormat)

def undefined : Nat := format.quiet true 0

/-- A signed integer times a power of two, with the sign that an exact zero takes. -/
def writeSum (zeroNegative : Bool) (sum : Int) (exponent : Int) : Nat :=
  if sum = 0 then format.signed zeroNegative 0
  else format.write (sum < 0) sum.natAbs exponent

/-- The signed significand in units of `2 ^ unit`, for a unit not above the exponent. -/
def inUnits (negative : Bool) (significand : Nat) (exponent unit : Int) : Int :=
  let magnitude : Int := (significand <<< (exponent - unit).toNat : Nat)
  if negative then -magnitude else magnitude

/-- The sum. Only two negative zeros add to negative zero. -/
def add (left right : Nat) : Nat :=
  match format.read left, format.read right with
  | .nan negative fraction, _ => format.quiet negative fraction
  | _, .nan negative fraction => format.quiet negative fraction
  | .infinite negative, .infinite negative' =>
    if negative = negative' then left else format.undefined
  | .infinite _, .finite _ _ _ => left
  | .finite _ _ _, .infinite _ => right
  | .finite negative significand exponent, .finite negative' significand' exponent' =>
    let unit := min exponent exponent'
    format.writeSum (negative && negative')
      (inUnits negative significand exponent unit + inUnits negative' significand' exponent' unit)
      unit

def sub (left right : Nat) : Nat := format.add left (format.negate right)

def mul (left right : Nat) : Nat :=
  match format.read left, format.read right with
  | .nan negative fraction, _ => format.quiet negative fraction
  | _, .nan negative fraction => format.quiet negative fraction
  | .infinite negative, .infinite negative' => format.signed (negative != negative') format.infinity
  | .infinite negative, .finite negative' significand _ =>
    if significand = 0 then format.undefined
    else format.signed (negative != negative') format.infinity
  | .finite negative significand _, .infinite negative' =>
    if significand = 0 then format.undefined
    else format.signed (negative != negative') format.infinity
  | .finite negative significand exponent, .finite negative' significand' exponent' =>
    format.write (negative != negative') (significand * significand') (exponent + exponent')

/-- The quotient of two positive dyadic numbers, with a last bit that is set if anything was
left over. The quotient has more bits than any format keeps, so that bit only decides which
side of a half it lies on. -/
def quotient (dividend divisor : Nat) : Nat × Int :=
  let places := 2 * format.fractionBits + 4 + divisor.log2
  let scaled := dividend <<< places
  (2 * (scaled / divisor) + min 1 (scaled % divisor), -(places + 1 : Int))

def div (left right : Nat) : Nat :=
  match format.read left, format.read right with
  | .nan negative fraction, _ => format.quiet negative fraction
  | _, .nan negative fraction => format.quiet negative fraction
  | .infinite _, .infinite _ => format.undefined
  | .infinite negative, .finite negative' _ _ =>
    format.signed (negative != negative') format.infinity
  | .finite negative _ _, .infinite negative' => format.signed (negative != negative') 0
  | .finite negative significand exponent, .finite negative' significand' exponent' =>
    if significand' = 0 then
      if significand = 0 then format.undefined
      else format.signed (negative != negative') format.infinity
    else
      let (digits, places) := format.quotient significand significand'
      format.write (negative != negative') digits (exponent - exponent' + places)

/-- The remainder of the quotient cut to a whole number. -/
def rem (left right : Nat) : Nat :=
  match format.read left, format.read right with
  | .nan negative fraction, _ => format.quiet negative fraction
  | _, .nan negative fraction => format.quiet negative fraction
  | .infinite _, _ => format.undefined
  | .finite _ _ _, .infinite _ => left
  | .finite negative significand exponent, .finite _ significand' exponent' =>
    if significand' = 0 then format.undefined
    else
      let unit := min exponent exponent'
      let dividend := significand <<< (exponent - unit).toNat
      let divisor := significand' <<< (exponent' - unit).toNat
      format.write negative (dividend % divisor) unit

end Dexplore.BinaryFormat
