import Dexplore.Binary.Format

/-!
# Decimal text of floating-point numbers

The fewest digits that read back as the same number, and of those the nearest; a tie goes
away from zero.  The text is positional, without an exponent and without a bare fraction of
zero.
-/

set_option autoImplicit false

namespace Dexplore.BinaryFormat

variable (format : BinaryFormat)

/-- The number and the ends of the interval that reads back as it, in quarters of the last
place. The interval is only a quarter wide below a power of two, and its ends belong to it
if the significand is even. -/
structure Neighbourhood where
  low : Nat
  centre : Nat
  high : Nat
  exponent : Int
  closed : Bool

def neighbourhood (significand : Nat) (exponent : Int) : Neighbourhood where
  low := 4 * significand - (if significand = format.hiddenPlace then 1 else 2)
  centre := 4 * significand
  high := 4 * significand + 2
  exponent := exponent - 2
  closed := significand % 2 = 0

def Neighbourhood.over (near : Neighbourhood) (place : Int) (quarters : Nat) : Nat :=
  (quarters <<< near.exponent.toNat) * Nat.pow 10 (-place).toNat

def Neighbourhood.unit (near : Neighbourhood) (place : Int) : Nat :=
  (1 <<< (-near.exponent).toNat) * Nat.pow 10 place.toNat

/-- The multiple of `10 ^ place` next to the number that reads back as it, if there is one;
of two the nearer, and the upper of two that are equally near. -/
def Neighbourhood.candidate? (near : Neighbourhood) (place : Int) : Option Nat :=
  let unit := near.unit place
  let centre := near.over place near.centre
  let below := centre / unit
  let within (left right : Nat) : Bool := if near.closed then left ≤ right else left < right
  let lower := within (near.over place near.low) (below * unit)
  let upper := within ((below + 1) * unit) (near.over place near.high)
  if upper && (!lower || unit ≤ 2 * (centre - below * unit)) then some (below + 1)
  else if lower then some below
  else none

def Neighbourhood.search (near : Neighbourhood) : Nat → Int → Nat × Int
  | 0, place => (near.over place near.centre / near.unit place, place)
  | places + 1, place =>
    match near.candidate? place with
    | some digits => (digits, place)
    | none => near.search places (place - 1)

/-- The shortest decimal `digits * 10 ^ place` that reads back as `significand * 2 ^ exponent`.
The first place tried lies left of the number, and as many places as the fraction has bits
are more than enough. -/
def shortest (significand : Nat) (exponent : Int) : Nat × Int :=
  let lead := exponent + significand.log2 + 1
  (format.neighbourhood significand exponent).search format.fractionBits
    (lead * 30103 / 100000 + 2)

def positional (digits : Nat) (place : Int) : String :=
  let shown := Nat.toDigits 10 digits
  if 0 ≤ place then String.ofList (shown ++ List.replicate place.toNat '0')
  else
    let fraction := (-place).toNat
    let padded := List.replicate (fraction + 1 - shown.length) '0' ++ shown
    let whole := padded.length - fraction
    String.ofList (padded.take whole ++ '.' :: padded.drop whole)

def text (bits : Nat) : String :=
  let sign (negative : Bool) : String := if negative then "-" else ""
  match format.read bits with
  | .nan _ _ => "NaN"
  | .infinite negative => sign negative ++ "inf"
  | .finite negative significand exponent =>
    if significand = 0 then sign negative ++ "0"
    else
      let (digits, place) := format.shortest significand exponent
      sign negative ++ positional digits place

end Dexplore.BinaryFormat
