import FormEditor.Text.Hex

/-!
# Tokens of JSON

A document is written as a sequence of tokens with blanks between them.  `tokens?` splits a
document into its tokens.  It checks the form of texts and numbers but does not decode them,
and it does not care how deep the document is nested.
-/

set_option autoImplicit false

namespace FormEditor.Json

/-- A token of a document; texts and numbers are held as written. -/
inductive Token where
  | openRecord
  | closeRecord
  | openList
  | closeList
  | colon
  | comma
  | null
  | bool (value : Bool)
  | number (literal : String)
  | text (written : String)
deriving DecidableEq, Repr

namespace Token

/-- How a token is written. -/
def chars : Token → List Char
  | .openRecord => ['\x7b']
  | .closeRecord => ['\x7d']
  | .openList => ['[']
  | .closeList => [']']
  | .colon => [':']
  | .comma => [',']
  | .null => "null".toList
  | .bool true => "true".toList
  | .bool false => "false".toList
  | .number literal => literal.toList
  | .text written => '"' :: written.toList ++ ['"']

end Token

/-- The characters that may stand between tokens. -/
def isSpace (char : Char) : Bool :=
  char = ' ' || char = '\t' || char = '\n' || char = '\r'

/-! ## Texts -/

/-- Whether a letter may follow a backslash by itself. -/
def isEscapeLetter (letter : Char) : Bool := "\"\\/bfnrt".toList.contains letter

/-- The characters of a text up to its closing quote, and the rest after it; `seen` holds
what came before, in reverse order. -/
def scanText (seen : List Char) : List Char → Option (List Char × List Char)
  | [] => none
  | '"' :: rest => some (seen.reverse, rest)
  | '\\' :: 'u' :: a :: b :: c :: d :: rest =>
    if [a, b, c, d].all Hex.isDigit then scanText (d :: c :: b :: a :: 'u' :: '\\' :: seen) rest
    else none
  | '\\' :: letter :: rest =>
    if isEscapeLetter letter then scanText (letter :: '\\' :: seen) rest else none
  | char :: rest =>
    if char = '\\' ∨ char.toNat < 0x20 then none else scanText (char :: seen) rest

/-! ## Numbers -/

/-- The digits at the start, at least one, and the rest. -/
def scanDigits (chars : List Char) : Option (List Char × List Char) :=
  let digits := chars.takeWhile Char.isDigit
  if digits.isEmpty then none else some (digits, chars.dropWhile Char.isDigit)

/-- The whole part of a number: a zero by itself, or digits that do not start with one. -/
def scanWhole : List Char → Option (List Char × List Char)
  | '0' :: rest => some (['0'], rest)
  | chars => scanDigits chars

/-- The fraction of a number, if there is a point. -/
def scanFraction : List Char → Option (List Char × List Char)
  | '.' :: rest => (scanDigits rest).map fun (digits, rest) => ('.' :: digits, rest)
  | chars => some ([], chars)

/-- The sign at the start, if there is one. -/
def scanSign (signs : List Char) : List Char → List Char × List Char
  | [] => ([], [])
  | char :: rest => if signs.contains char then ([char], rest) else ([], char :: rest)

/-- The exponent of a number, if there is one. -/
def scanExponent : List Char → Option (List Char × List Char)
  | [] => some ([], [])
  | letter :: rest =>
    if letter = 'e' ∨ letter = 'E' then
      let (sign, rest) := scanSign ['+', '-'] rest
      (scanDigits rest).map fun (digits, rest) => (letter :: sign ++ digits, rest)
    else some ([], letter :: rest)

/-- A number and the rest after it. -/
def scanNumber (chars : List Char) : Option (List Char × List Char) :=
  let (sign, rest) := scanSign ['-'] chars
  (scanWhole rest).bind fun (whole, rest) =>
    (scanFraction rest).bind fun (fraction, rest) =>
      (scanExponent rest).map fun (exponent, rest) =>
        (sign ++ whole ++ fraction ++ exponent, rest)

/-! ## Splitting a document -/

/-- The token at the start of a document, and the rest after it. -/
def nextToken? : List Char → Option (Token × List Char)
  | '\x7b' :: rest => some (.openRecord, rest)
  | '\x7d' :: rest => some (.closeRecord, rest)
  | '[' :: rest => some (.openList, rest)
  | ']' :: rest => some (.closeList, rest)
  | ':' :: rest => some (.colon, rest)
  | ',' :: rest => some (.comma, rest)
  | 'n' :: 'u' :: 'l' :: 'l' :: rest => some (.null, rest)
  | 't' :: 'r' :: 'u' :: 'e' :: rest => some (.bool true, rest)
  | 'f' :: 'a' :: 'l' :: 's' :: 'e' :: rest => some (.bool false, rest)
  | '"' :: rest =>
    (scanText [] rest).map fun (written, rest) => (.text (String.ofList written), rest)
  | chars =>
    (scanNumber chars).map fun (literal, rest) => (.number (String.ofList literal), rest)

theorem length_scanText {seen chars written rest : List Char}
    (scanned : scanText seen chars = some (written, rest)) : rest.length < chars.length := by
  fun_induction scanText seen chars with
  | case1 => simp at scanned
  | case2 seen tail =>
    simp only [Option.some.injEq, Prod.mk.injEq] at scanned
    simp [← scanned.2]
  | case3 seen a b c d tail digits ih => have := ih scanned; simp only [List.length_cons]; omega
  | case4 => simp at scanned
  | case5 seen letter tail _ _ ih => have := ih scanned; simp only [List.length_cons]; omega
  | case6 => simp at scanned
  | case7 => simp at scanned
  | case8 seen char tail _ _ _ _ ih => have := ih scanned; simp only [List.length_cons]; omega

theorem length_scanDigits {chars digits rest : List Char}
    (scanned : scanDigits chars = some (digits, rest)) : rest.length < chars.length := by
  unfold scanDigits at scanned
  simp only at scanned
  split at scanned
  · simp at scanned
  · rename_i some_digit
    simp only [Option.some.injEq, Prod.mk.injEq] at scanned
    have parts : chars.takeWhile Char.isDigit ++ chars.dropWhile Char.isDigit = chars :=
      List.takeWhile_append_dropWhile
    have lengths := congrArg List.length parts
    rw [List.length_append, scanned.1, scanned.2] at lengths
    rw [scanned.1] at some_digit
    have : digits.length ≠ 0 := by simpa using some_digit
    omega

theorem length_scanWhole {chars digits rest : List Char}
    (scanned : scanWhole chars = some (digits, rest)) : rest.length < chars.length := by
  unfold scanWhole at scanned
  split at scanned
  · simp only [Option.some.injEq, Prod.mk.injEq] at scanned
    simp [← scanned.2]
  · exact length_scanDigits scanned

theorem length_scanFraction {chars digits rest : List Char}
    (scanned : scanFraction chars = some (digits, rest)) : rest.length ≤ chars.length := by
  unfold scanFraction at scanned
  split at scanned
  · obtain ⟨⟨found, after⟩, scanned, same⟩ := Option.map_eq_some_iff.1 scanned
    have shorter := length_scanDigits scanned
    simp only [Prod.mk.injEq] at same
    rw [← same.2, List.length_cons]
    omega
  · simp only [Option.some.injEq, Prod.mk.injEq] at scanned
    simp [← scanned.2]

theorem length_scanSign (signs chars : List Char) :
    (scanSign signs chars).2.length ≤ chars.length := by
  cases chars with
  | nil => simp [scanSign]
  | cons char rest => by_cases sign : char ∈ signs <;> simp [scanSign, sign]

theorem length_scanExponent {chars digits rest : List Char}
    (scanned : scanExponent chars = some (digits, rest)) : rest.length ≤ chars.length := by
  unfold scanExponent at scanned
  split at scanned
  · simp only [Option.some.injEq, Prod.mk.injEq] at scanned
    simp [← scanned.2]
  · rename_i letter after
    split at scanned
    · obtain ⟨⟨found, last⟩, scanned, same⟩ := Option.map_eq_some_iff.1 scanned
      have shorter := length_scanDigits scanned
      have sign := length_scanSign ['+', '-'] after
      simp only [Prod.mk.injEq] at same
      rw [← same.2, List.length_cons]
      exact Nat.le_succ_of_le (Nat.le_trans (Nat.le_of_lt shorter) sign)
    · simp only [Option.some.injEq, Prod.mk.injEq] at scanned
      simp [← scanned.2]

theorem length_scanNumber {chars literal rest : List Char}
    (scanned : scanNumber chars = some (literal, rest)) : rest.length < chars.length := by
  unfold scanNumber at scanned
  simp only [Option.bind_eq_some_iff, Option.map_eq_some_iff] at scanned
  obtain ⟨⟨whole, first⟩, wholeScanned, ⟨fraction, second⟩, fractionScanned,
    ⟨exponent, third⟩, exponentScanned, same⟩ := scanned
  have sign := length_scanSign ['-'] chars
  have wholeShorter := length_scanWhole wholeScanned
  have fractionShorter := length_scanFraction fractionScanned
  have exponentShorter := length_scanExponent exponentScanned
  simp only [Prod.mk.injEq] at same
  rw [← same.2]
  dsimp only at *
  omega

/-- A token is never empty. -/
theorem length_nextToken {chars rest : List Char} {token : Token}
    (found : nextToken? chars = some (token, rest)) : rest.length < chars.length := by
  unfold nextToken? at found
  split at found
  case h_10 =>
    obtain ⟨⟨written, after⟩, scanned, same⟩ := Option.map_eq_some_iff.1 found
    have shorter := length_scanText scanned
    simp only [Prod.mk.injEq] at same
    rw [← same.2, List.length_cons]
    omega
  case h_11 =>
    obtain ⟨⟨literal, after⟩, scanned, same⟩ := Option.map_eq_some_iff.1 found
    have shorter := length_scanNumber scanned
    simp only [Prod.mk.injEq] at same
    rw [← same.2]
    omega
  all_goals
    simp only [Option.some.injEq, Prod.mk.injEq] at found
    simp only [← found.2, List.length_cons]
    omega

/-- The tokens of a document after those in `seen`, which are in reverse order. -/
def tokensFrom (seen : List Token) (chars : List Char) : Option (List Token) :=
  match start : chars.dropWhile isSpace with
  | [] => some seen.reverse
  | first :: others =>
    have : (first :: others).length ≤ chars.length :=
      start ▸ (List.dropWhile_sublist isSpace).length_le
    match found : nextToken? (first :: others) with
    | none => none
    | some (token, rest) =>
      have := length_nextToken found
      tokensFrom (token :: seen) rest
termination_by chars.length
decreasing_by omega

/-- The tokens of a document, if it can be split into tokens. -/
def tokens? (chars : List Char) : Option (List Token) := tokensFrom [] chars

end FormEditor.Json
