import FormEditor.Text.HiddenTable

/-!
# Texts between quotes

A text shown between double quotes.  Quotes and backslashes are written after a backslash,
line breaks, tabs and the null character by a letter, and every other character that cannot
be shown by itself by its number in braces.
-/

set_option autoImplicit false

namespace FormEditor.Text

/-- Whether a character is written by its number. -/
def isHidden (char : Char) : Bool :=
  hiddenRanges.any fun range => range.1 ≤ char.toNat && char.toNat ≤ range.2

/-- How a character is written between quotes. -/
def quotedChar (char : Char) : List Char :=
  match char with
  | '\x00' => ['\\', '0']
  | '\t' => ['\\', 't']
  | '\n' => ['\\', 'n']
  | '\r' => ['\\', 'r']
  | '"' => ['\\', '"']
  | '\\' => ['\\', '\\']
  | char =>
    if isHidden char then
      ['\\', 'u', '\x7b'] ++ Nat.toDigits 16 char.toNat ++ ['\x7d']
    else [char]

/-- A text between double quotes. -/
def quoted (text : String) : String :=
  String.ofList ('"' :: text.toList.flatMap quotedChar ++ ['"'])

end FormEditor.Text
