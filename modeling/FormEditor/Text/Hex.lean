/-!
# Hexadecimal digits

Reading and writing of hexadecimal digits.  Reading takes either case, writing uses small
letters.
-/

set_option autoImplicit false

namespace FormEditor.Hex

/-- The value of a hexadecimal digit in either case. -/
def value? (digit : Char) : Option Nat :=
  if '0' ≤ digit ∧ digit ≤ '9' then some (digit.toNat - '0'.toNat)
  else if 'a' ≤ digit ∧ digit ≤ 'f' then some (digit.toNat - 'a'.toNat + 10)
  else if 'A' ≤ digit ∧ digit ≤ 'F' then some (digit.toNat - 'A'.toNat + 10)
  else none

/-- Whether a character is a hexadecimal digit. -/
def isDigit (char : Char) : Bool := (value? char).isSome

/-- The number that a list of hexadecimal digits stands for. -/
def ofDigits? (digits : List Char) : Option Nat :=
  digits.foldlM (fun number digit => (value? digit).map (number * 16 + ·)) 0

/-- The lowest `count` hexadecimal digits of a number, highest first. -/
def digits : Nat → Nat → List Char
  | 0, _ => []
  | count + 1, number => digits count (number / 16) ++ [Nat.digitChar (number % 16)]

end FormEditor.Hex
