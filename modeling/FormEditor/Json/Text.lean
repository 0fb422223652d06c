import FormEditor.Text.Hex

/-!
# Texts in JSON

How a text is written between the quotes of a JSON document, and how it is read from there.
Writing escapes quotes, backslashes and control characters and nothing else
(`encode`).  Reading accepts every escape of the format; a character beyond `U+FFFF` that is
written by numbers takes two of them, and half of such a pair is refused (`decode?`).
-/

set_option autoImplicit false

namespace FormEditor.Json

/-- The letters that may follow a backslash, with the characters that they stand for. -/
def escapeLetters : List (Char × Char) :=
  [('"', '"'), ('\\', '\\'), ('/', '/'), ('b', '\x08'), ('f', '\x0c'), ('n', '\n'), ('r', '\r'),
    ('t', '\t')]

/-- How a character is written between quotes. -/
def encodeChar (char : Char) : List Char :=
  match char with
  | '"' => ['\\', '"']
  | '\\' => ['\\', '\\']
  | '\x08' => ['\\', 'b']
  | '\x0c' => ['\\', 'f']
  | '\n' => ['\\', 'n']
  | '\r' => ['\\', 'r']
  | '\t' => ['\\', 't']
  | char =>
    if char.toNat < 0x20 then
      ['\\', 'u', '0', '0', Nat.digitChar (char.toNat / 16), Nat.digitChar (char.toNat % 16)]
    else [char]

/-- How a text is written between quotes. -/
def encode (text : List Char) : List Char := text.flatMap encodeChar

/-- The character that a pair of numbers stands for, if they are the two halves of one. -/
def pairedChar? (high low : Nat) : Option Char :=
  if 0xDC00 ≤ low ∧ low ≤ 0xDFFF then
    some (Char.ofNat (0x10000 + (high - 0xD800) * 0x400 + (low - 0xDC00)))
  else none

/-- Reads what stands between quotes, given the characters read so far in reverse order. -/
def decodeFrom (seen : List Char) : List Char → Option (List Char)
  | [] => some seen.reverse
  | '\\' :: 'u' :: a :: b :: c :: d :: rest =>
    match Hex.ofDigits? [a, b, c, d] with
    | none => none
    | some unit =>
      if 0xD800 ≤ unit ∧ unit ≤ 0xDBFF then
        match rest with
        | '\\' :: 'u' :: e :: f :: g :: h :: rest =>
          match (Hex.ofDigits? [e, f, g, h]).bind (pairedChar? unit) with
          | none => none
          | some char => decodeFrom (char :: seen) rest
        | _ => none
      else if 0xDC00 ≤ unit ∧ unit ≤ 0xDFFF then none
      else decodeFrom (Char.ofNat unit :: seen) rest
  | '\\' :: letter :: rest =>
    match escapeLetters.lookup letter with
    | none => none
    | some char => decodeFrom (char :: seen) rest
  | char :: rest =>
    if char = '\\' ∨ char = '"' ∨ char.toNat < 0x20 then none
    else decodeFrom (char :: seen) rest

/-- Reads what stands between quotes. -/
def decode? (written : List Char) : Option (List Char) := decodeFrom [] written

end FormEditor.Json
