import FormEditor.Number.Binary64

/-!
# The shortest text of a number

A number is written with the fewest digits that read back as the same number, and of those
with the digits nearest to it.  All places are written out: there is no exponent, however
large or small the number is, and a whole number has no point.

The fewest digits are found on grids.  The numbers that read back as a given one form an
interval around it (`Neighbourhood`).  On the grid of the multiples of `10 ^ place` only the two
neighbours of the number have to be looked at: if any multiple lies in the interval, so does one
of them.  Going from coarse grids to fine ones, the first grid with such a multiple decides.
-/

set_option autoImplicit false

namespace FormEditor.Binary64

/-- A positive number and the ends of the interval of reals that round to it, as numerators over
one denominator.  The ends belong to the interval when `closed` holds. -/
structure Neighbourhood where
  low : Nat
  value : Nat
  high : Nat
  denominator : Nat
  closed : Bool
deriving Repr

/-- The interval of reals that round to `mantissa * 2 ^ exponent`.  Below a power of two the
neighbours lie half as far apart as above it. -/
def neighbourhood (mantissa : Nat) (exponent : Int) : Neighbourhood :=
  let below := if 2 * mantissa = mantissaBound ∧ minExponent < exponent then 1 else 2
  let (unit, denominator) := unscale 2 1 4 (-exponent)
  { low := (4 * mantissa - below) * unit
    value := 4 * mantissa * unit
    high := (4 * mantissa + 2) * unit
    denominator
    closed := mantissa % 2 = 0 }

/-- Whether `count * 10 ^ place` lies in the interval. -/
def Neighbourhood.holds (around : Neighbourhood) (place : Int) (count : Nat) : Bool :=
  let (point, denominator) := unscale 10 count 1 (-place)
  let point := point * around.denominator
  let low := around.low * denominator
  let high := around.high * denominator
  if around.closed then low ≤ point && point ≤ high else low < point && point < high

/-- The multiple of `10 ^ place` that stands for the number: the nearer of its two neighbours
that lie in the interval, the upper one if they are equally near. -/
def Neighbourhood.onGrid? (around : Neighbourhood) (place : Int) : Option Nat :=
  let (top, bottom) := unscale 10 around.value around.denominator place
  let lower := top / bottom
  let upper := lower + 1
  let isLowerNearer := 2 * (top % bottom) < bottom
  match around.holds place lower, around.holds place upper with
  | true, true => some (if isLowerNearer then lower else upper)
  | true, false => some lower
  | false, true => some upper
  | false, false => none

/-- The digits and the place of the last digit of the shortest text of a positive number. -/
def Neighbourhood.shortest (around : Neighbourhood) : Nat × Int :=
  let coarsest : Int :=
    (Nat.toDigits 10 around.value).length - (Nat.toDigits 10 around.denominator).length + 1
  ((List.range 24).findSome? fun (finer : Nat) =>
      (around.onGrid? (coarsest - finer)).map fun count => (count, coarsest - finer)).getD (0, 0)

/-- The decimal digits of a number. -/
def decimalDigits (number : Nat) : List Char := Nat.toDigits 10 number

/-- Writes `count * 10 ^ place` with all its places. -/
def positional (count : Nat) (place : Int) : List Char :=
  if 0 ≤ place then decimalDigits (count * Nat.pow 10 place.toNat)
  else
    let places := (-place).toNat
    let unit := Nat.pow 10 places
    let fraction := decimalDigits (count % unit)
    decimalDigits (count / unit) ++
      '.' :: List.replicate (places - fraction.length) '0' ++ fraction

/-- The shortest text of a number. -/
def text : Binary64 → String
  | .nan => "NaN"
  | .infinite negative => if negative then "-inf" else "inf"
  | .finite negative mantissa exponent =>
    let digits :=
      if mantissa = 0 then ['0']
      else
        let (count, place) := (neighbourhood mantissa exponent).shortest
        positional count place
    String.ofList (if negative then '-' :: digits else digits)

end FormEditor.Binary64
