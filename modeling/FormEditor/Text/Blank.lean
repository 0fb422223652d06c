/-!
# Blank characters

The characters that count as white space, and the removal of white space at the ends of a
text.  The set is the Unicode property White_Space, which is wider than the ASCII blanks:
it has the no-break space and the ideographic space, but not the zero-width space.
-/

set_option autoImplicit false

namespace FormEditor.Text

/-- The code points with the property White_Space, as inclusive ranges. -/
def blankRanges : List (Nat × Nat) :=
  [(0x09, 0x0D), (0x20, 0x20), (0x85, 0x85), (0xA0, 0xA0), (0x1680, 0x1680),
    (0x2000, 0x200A), (0x2028, 0x2029), (0x202F, 0x202F), (0x205F, 0x205F), (0x3000, 0x3000)]

/-- Whether a character is white space. -/
def isBlank (char : Char) : Bool :=
  blankRanges.any fun range => range.1 ≤ char.toNat && char.toNat ≤ range.2

/-- A text without the white space at its ends. -/
def trim (text : String) : String :=
  String.ofList
    (((text.toList.dropWhile isBlank).reverse.dropWhile isBlank).reverse)

/-- Whether a text is empty or white space throughout. -/
def isAllBlank (text : String) : Bool := text.toList.all isBlank

end FormEditor.Text
