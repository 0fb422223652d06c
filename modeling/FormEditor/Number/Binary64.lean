/-!
# Numbers of 64 bits

The numbers that a value is read into before it is multiplied: a sign, a whole mantissa
below `2 ^ 53` and a power of two, beside the infinities and the value that is no number.
Fractions are rounded to the nearest such number, and a fraction halfway between two of them
goes to the one with the even mantissa (`nearest`).  The product of two numbers is their
exact product, rounded once.
-/

set_option autoImplicit false

namespace FormEditor

/-- A number of 64 bits.  A finite one stands for `± mantissa * 2 ^ exponent`. -/
inductive Binary64 where
  | nan
  | infinite (negative : Bool)
  | finite (negative : Bool) (mantissa : Nat) (exponent : Int)
deriving DecidableEq, Repr, Inhabited

namespace Binary64

/-- The smallest exponent of a finite number. -/
def minExponent : Int := -1074

/-- The largest exponent of a finite number. -/
def maxExponent : Int := 971

/-- All mantissas lie below this bound, which is `2 ^ 53`. -/
def mantissaBound : Nat := 0x20000000000000

/-- The quotient rounded to the nearest whole number, a half to the even neighbour. -/
def roundDiv (numerator denominator : Nat) : Nat :=
  let quotient := numerator / denominator
  let doubled := 2 * (numerator % denominator)
  if doubled < denominator then quotient
  else if denominator < doubled then quotient + 1
  else quotient + quotient % 2

/-- The fraction divided by `base ^ exponent`, as numerator and denominator. -/
def unscale (base : Nat) (numerator denominator : Nat) (exponent : Int) : Nat × Nat :=
  if 0 ≤ exponent then (numerator, denominator * base.pow exponent.toNat)
  else (numerator * base.pow (-exponent).toNat, denominator)

/-- The largest `power` such that `2 ^ power` is at most the fraction. -/
def floorLog2 (numerator denominator : Nat) : Int :=
  let guess : Int := (numerator.log2 : Int) - denominator.log2
  let (top, bottom) := unscale 2 numerator denominator guess
  if bottom ≤ top then guess else guess - 1

/-- The number nearest to a fraction, a tie to the even mantissa. -/
def nearest (negative : Bool) (numerator denominator : Nat) : Binary64 :=
  if numerator = 0 then .finite negative 0 minExponent
  else
    let exponent := max (floorLog2 numerator denominator - 52) minExponent
    let (top, bottom) := unscale 2 numerator denominator exponent
    let mantissa := roundDiv top bottom
    let (mantissa, exponent) :=
      if mantissa = mantissaBound then (mantissa / 2, exponent + 1) else (mantissa, exponent)
    if maxExponent < exponent then .infinite negative else .finite negative mantissa exponent

/-- The product of two numbers, rounded once.  Infinity times zero is no number. -/
def mul : Binary64 → Binary64 → Binary64
  | .nan, _ | _, .nan => .nan
  | .infinite left, .infinite right => .infinite (left != right)
  | .infinite left, .finite right mantissa _ =>
    if mantissa = 0 then .nan else .infinite (left != right)
  | .finite left mantissa _, .infinite right =>
    if mantissa = 0 then .nan else .infinite (left != right)
  | .finite left mantissa exponent, .finite right mantissa' exponent' =>
    let (top, bottom) := unscale 2 (mantissa * mantissa') 1 (-(exponent + exponent'))
    nearest (left != right) top bottom

instance : Mul Binary64 := ⟨mul⟩

end Binary64

end FormEditor
