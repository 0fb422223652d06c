import FormEditor.Text.CaseTable

/-!
# Lower case of a text

The full Unicode mapping of a text to lower case.  It is not a mapping of single characters:
the capital dotted I becomes two characters, and a capital sigma becomes a final sigma at the
end of a word.  A sigma ends a word when, passing over ignorable characters, a cased letter
comes before it and none comes after it.

Searching compares two texts after both have been lowered as a whole.
-/

set_option autoImplicit false

namespace FormEditor.Text

/-- Whether a character lies in one of several inclusive ranges. -/
def inRanges (ranges : List (Nat × Nat)) (char : Char) : Bool :=
  ranges.any fun range => range.1 ≤ char.toNat && char.toNat ≤ range.2

/-- Whether a character is passed over when a word is looked for around a sigma. -/
def isIgnorable (char : Char) : Bool := inRanges ignorableRanges char

/-- Whether a character is a letter with case that is not passed over. -/
def isCased (char : Char) : Bool := inRanges casedRanges char

/-- The lower-case form of a character by itself. -/
def lowerChar (char : Char) : List Char :=
  if char.toNat = 0x130 then ['i', Char.ofNat 0x307]
  else
    match lowercaseRuns.find? fun (first, last, stride, _) =>
      first ≤ char.toNat && char.toNat ≤ last && (char.toNat - first) % stride = 0 with
    | some (first, _, _, target) => [Char.ofNat (target + (char.toNat - first))]
    | none => [char]

/-- Whether the first character that is not passed over is a cased letter. -/
def meetsCased (chars : List Char) : Bool :=
  match chars.dropWhile isIgnorable with
  | [] => false
  | char :: _ => isCased char

/-- The capital sigma. -/
def capitalSigma : Char := Char.ofNat 0x3A3

/-- The lower-case sigma at the end of a word. -/
def finalSigma : Char := Char.ofNat 0x3C2

/-- The lower-case form of the characters of a text, given the characters before them in
reverse order. -/
def lowerFrom (before : List Char) : List Char → List Char
  | [] => []
  | char :: after =>
    let lowered :=
      if char = capitalSigma && meetsCased before && !meetsCased after then [finalSigma]
      else lowerChar char
    lowered ++ lowerFrom (char :: before) after

/-- The lower-case form of a list of characters. -/
def lowerChars (chars : List Char) : List Char := lowerFrom [] chars

/-- The lower-case form of a text. -/
def lowercase (text : String) : String := String.ofList (lowerChars text.toList)

/-- Whether `part` stands somewhere in a list of characters, without gaps. -/
def occursIn (part : List Char) : List Char → Bool
  | [] => part.isEmpty
  | char :: rest => part.isPrefixOf (char :: rest) || occursIn part rest

/-- An occurrence is a contiguous part. -/
theorem occursIn_iff {part chars : List Char} : occursIn part chars = true ↔ part <:+: chars := by
  induction chars with
  | nil => simp [occursIn]
  | cons char rest ih =>
    simp [occursIn, ih, List.infix_cons_iff]

/-- Whether `word` occurs in `text` when both are lowered. -/
def containsIgnoringCase (text word : String) : Bool :=
  occursIn (lowerChars word.toList) (lowerChars text.toList)

/-- Whether a text is `true` in any mixture of ASCII capitals and small letters. -/
def isTrue (text : String) : Bool :=
  text.toList.map Char.toLower = "true".toList

end FormEditor.Text
