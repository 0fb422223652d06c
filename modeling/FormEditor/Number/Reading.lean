import FormEditor.Number.Binary64

/-!
# Reading numbers

A number is an optional sign, then digits with at most one point among, before or after
them, then an optional exponent; or, in any case of letters, `inf`, `infinity` or `nan`.
Only the ASCII digits count.  The value is the nearest number of 64 bits.
-/

set_option autoImplicit false

namespace FormEditor

/-- A written number: the digits without their point, and the power of ten they are
multiplied by. -/
structure Decimal where
  digits : Nat
  exponent : Int
deriving DecidableEq, Repr

namespace Decimal

/-- The number that decimal digits stand for. -/
def ofDigits (digits : List Char) : Nat :=
  digits.foldl (fun number digit => number * 10 + (digit.toNat - '0'.toNat)) 0

/-- Splits off a sign; tells whether it is a minus. -/
def takeSign : List Char → Bool × List Char
  | '-' :: rest => (true, rest)
  | '+' :: rest => (false, rest)
  | chars => (false, chars)

/-- The digits at the start of a text, and the rest. -/
def takeDigits (chars : List Char) : List Char × List Char :=
  (chars.takeWhile Char.isDigit, chars.dropWhile Char.isDigit)

/-- The digits after a point, if there is a point, and the rest. -/
def takeFraction : List Char → List Char × List Char
  | '.' :: rest => takeDigits rest
  | chars => ([], chars)

/-- The power of ten that ends a number; nothing may follow it. -/
def exponent? : List Char → Option Int
  | [] => some 0
  | letter :: rest =>
    if letter = 'e' ∨ letter = 'E' then
      let (negative, rest) := takeSign rest
      let (digits, rest) := takeDigits rest
      if digits.isEmpty ∨ rest ≠ [] then none
      else if negative then some (-(ofDigits digits)) else some (ofDigits digits)
    else none

/-- Reads a number without its sign; at least one digit must stand before the exponent. -/
def ofChars? (chars : List Char) : Option Decimal :=
  let (whole, rest) := takeDigits chars
  let (fraction, rest) := takeFraction rest
  if whole.isEmpty ∧ fraction.isEmpty then none
  else
    (exponent? rest).map fun exponent =>
      ⟨ofDigits (whole ++ fraction), exponent - fraction.length⟩

/-- The nearest number of 64 bits.  Numbers far outside the range of 64 bits are settled by
their number of digits. -/
def toBinary64 (negative : Bool) (decimal : Decimal) : Binary64 :=
  let magnitude : Int := (Nat.toDigits 10 decimal.digits).length + decimal.exponent
  if decimal.digits = 0 ∨ magnitude < -400 then Binary64.nearest negative 0 1
  else if 400 < magnitude then .infinite negative
  else
    let (top, bottom) := Binary64.unscale 10 decimal.digits 1 (-decimal.exponent)
    Binary64.nearest negative top bottom

end Decimal

/-- Reads a number of 64 bits. -/
def Binary64.ofText? (text : String) : Option Binary64 :=
  let (negative, chars) := Decimal.takeSign text.toList
  let word := String.ofList (chars.map Char.toLower)
  if word = "inf" ∨ word = "infinity" then some (.infinite negative)
  else if word = "nan" then some .nan
  else (Decimal.ofChars? chars).map (Decimal.toBinary64 negative)

end FormEditor
