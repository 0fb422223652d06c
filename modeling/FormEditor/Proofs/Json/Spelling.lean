import FormEditor.Proofs.Json.Documents
import Mathlib.Data.List.TakeWhile

/-!
# How documents are written

The format of the texts and numbers in a document (`Token.Proper`), and the texts that a document
may be written as (`Spells`): its tokens in their order, with any blanks between them.

Main statement: a document is read from every text that it may be written as (`Spells.parse?_eq`),
and so from how it is written on indented lines (`parse?_indented`).
-/

set_option autoImplicit false

namespace FormEditor.Json

/-! ## The format of numbers -/

/-- Digits, at least one. -/
structure Digits (chars : List Char) : Prop where
  filled : chars ≠ []
  all : ∀ char ∈ chars, char.isDigit

/-- The whole part of a number. -/
inductive Whole : List Char → Prop where
  | zero : Whole ['0']
  | digits {first : Char} {others : List Char} :
      first ≠ '0' → Digits (first :: others) → Whole (first :: others)

/-- The fraction of a number. -/
inductive Fraction : List Char → Prop where
  | absent : Fraction []
  | present {digits : List Char} : Digits digits → Fraction ('.' :: digits)

/-- The exponent of a number. -/
inductive Exponent : List Char → Prop where
  | absent : Exponent []
  | present {letter : Char} {sign digits : List Char} :
      letter = 'e' ∨ letter = 'E' → sign ∈ [[], ['+'], ['-']] → Digits digits →
        Exponent (letter :: sign ++ digits)

/-- The literal of a number. -/
inductive Numeral : List Char → Prop where
  | parts {sign whole fraction exponent : List Char} :
      sign ∈ [[], ['-']] → Whole whole → Fraction fraction → Exponent exponent →
        Numeral (sign ++ whole ++ fraction ++ exponent)

/-! ## Reading numbers -/

section

variable {chars rest : List Char}

theorem Digits.exists_cons (digits : Digits chars) :
    ∃ first others, chars = first :: others ∧ first.isDigit := by
  obtain ⟨first, others, rfl⟩ := List.exists_cons_of_ne_nil digits.filled
  exact ⟨first, others, rfl, digits.all first List.mem_cons_self⟩

theorem Whole.exists_cons (whole : Whole chars) :
    ∃ first others, chars = first :: others ∧ first.isDigit := by
  cases whole with
  | zero => exact ⟨_, _, rfl, by decide⟩
  | digits _ digits => exact digits.exists_cons

theorem not_mem_signs {digit : Char} (isDigit : digit.isDigit) : digit ∉ ['+', '-'] := by
  intro sign
  rcases List.mem_pair.mp sign with rfl | rfl <;> exact absurd isDigit (by decide)

theorem Digits.scan (digits : Digits chars) (ends : ∀ next ∈ rest.head?, ¬ next.isDigit) :
    scanDigits (chars ++ rest) = some (chars, rest) := by
  have stops : rest.takeWhile Char.isDigit = [] ∧ rest.dropWhile Char.isDigit = rest := by
    cases rest with
    | nil => exact ⟨rfl, rfl⟩
    | cons first rest =>
      exact ⟨List.takeWhile_cons_of_neg (ends first rfl),
        List.dropWhile_cons_of_neg (ends first rfl)⟩
  unfold scanDigits
  rw [List.takeWhile_append_of_pos digits.all, List.dropWhile_append_of_pos digits.all, stops.1,
    stops.2, List.append_nil]
  dsimp only
  rw [if_neg (by simpa using digits.filled)]

theorem Whole.scan (whole : Whole chars) (ends : ∀ next ∈ rest.head?, ¬ next.isDigit) :
    scanWhole (chars ++ rest) = some (chars, rest) := by
  cases whole with
  | zero => rfl
  | digits notZero digits =>
    rw [← digits.scan ends, List.cons_append, scanWhole]
    exact fun _ same => notZero (List.cons.inj same).1

theorem Fraction.scan (fraction : Fraction chars)
    (ends : ∀ next ∈ rest.head?, ¬ next.isDigit ∧ next ≠ '.') :
    scanFraction (chars ++ rest) = some (chars, rest) := by
  cases fraction with
  | absent =>
    cases rest with
    | nil => rfl
    | cons first rest =>
      rw [List.nil_append, scanFraction]
      exact fun _ same => (ends first rfl).2 (List.cons.inj same).1
  | present digits =>
    rw [List.cons_append, scanFraction, digits.scan fun next first => (ends next first).1]
    rfl

theorem scanSign_append {signs sign : List Char}
    (known : sign = [] ∨ ∃ char ∈ signs, sign = [char]) (ends : ∀ next ∈ rest.head?, next ∉ signs) :
    scanSign signs (sign ++ rest) = (sign, rest) := by
  rcases known with rfl | ⟨char, listed, rfl⟩
  · cases rest with
    | nil => rfl
    | cons first rest => simp [scanSign, ends first rfl]
  · simp [scanSign, listed]

theorem Exponent.scan (exponent : Exponent chars)
    (ends : ∀ next ∈ rest.head?, ¬ next.isDigit ∧ next ≠ 'e' ∧ next ≠ 'E') :
    scanExponent (chars ++ rest) = some (chars, rest) := by
  cases exponent with
  | absent =>
    cases rest with
    | nil => rfl
    | cons first rest =>
      obtain ⟨-, small, large⟩ := ends first rfl
      rw [List.nil_append, scanExponent, if_neg (not_or.mpr ⟨small, large⟩)]
  | @present letter sign digits known signed all =>
    have split : scanSign ['+', '-'] (sign ++ (digits ++ rest)) = (sign, digits ++ rest) := by
      refine scanSign_append (by simpa [or_assoc] using signed) ?_
      obtain ⟨first, others, rfl, digit⟩ := all.exists_cons
      rintro next ⟨⟩
      exact not_mem_signs digit
    rw [List.cons_append, List.cons_append, List.append_assoc, scanExponent, if_pos known]
    dsimp only
    rw [split]
    dsimp only
    rw [all.scan fun next first => (ends next first).1]
    rfl

theorem not_continued {next : Char} (ends : endsNumber next) :
    ¬ next.isDigit ∧ next ≠ '.' ∧ next ≠ 'e' ∧ next ≠ 'E' := by
  simpa [endsNumber, and_assoc] using ends

/-- A number is found up to what cannot continue it.  Each part of it is read in turn, and what
comes after a part cannot continue that part. -/
theorem Numeral.scan (numeral : Numeral chars) (ends : ∀ next ∈ rest.head?, endsNumber next) :
    scanNumber (chars ++ rest) = some (chars, rest) := by
  obtain @⟨sign, whole, fraction, exponent, signed, wholePart, fractionPart, exponentPart⟩ :=
    numeral
  have afterFraction : ∀ next ∈ (exponent ++ rest).head?, ¬ next.isDigit ∧ next ≠ '.' := by
    cases exponentPart with
    | absent => exact fun next first => ((not_continued (ends next first)).imp_right And.left)
    | present known =>
      rintro next ⟨⟩
      rcases known with rfl | rfl <;> decide
  have afterWhole : ∀ next ∈ (fraction ++ (exponent ++ rest)).head?, ¬ next.isDigit := by
    cases fractionPart with
    | absent => exact fun next first => (afterFraction next first).1
    | present =>
      rintro next ⟨⟩
      decide
  have afterSign : scanSign ['-'] (sign ++ (whole ++ (fraction ++ (exponent ++ rest)))) =
      (sign, whole ++ (fraction ++ (exponent ++ rest))) := by
    refine scanSign_append (by simpa using signed) ?_
    obtain ⟨first, others, rfl, digit⟩ := wholePart.exists_cons
    rintro next ⟨⟩
    exact fun sign => not_mem_signs digit (List.mem_cons_of_mem _ sign)
  have afterExponent := exponentPart.scan fun next first =>
    ((not_continued (ends next first)).imp_right And.right)
  unfold scanNumber
  rw [List.append_assoc, List.append_assoc, List.append_assoc, afterSign]
  dsimp only
  rw [wholePart.scan afterWhole, Option.bind_some]
  dsimp only
  rw [fractionPart.scan afterFraction, Option.bind_some]
  dsimp only
  rw [afterExponent]
  rfl

/-- A number starts with a digit or with a minus sign. -/
theorem Numeral.exists_cons (numeral : Numeral chars) :
    ∃ first others, chars = first :: others ∧ (first.isDigit ∨ first = '-') := by
  obtain @⟨sign, whole, fraction, exponent, signed, wholePart, -, -⟩ := numeral
  obtain ⟨first, others, rfl, digit⟩ := wholePart.exists_cons
  rcases List.mem_pair.mp signed with rfl | rfl
  · exact ⟨first, _, rfl, .inl digit⟩
  · exact ⟨'-', _, rfl, .inr rfl⟩

theorem nextToken?_of_numeral (numeral : Numeral chars) :
    nextToken? (chars ++ rest) = (scanNumber (chars ++ rest)).map fun (literal, rest) =>
      (.number (String.ofList literal), rest) := by
  obtain ⟨first, others, rfl, known⟩ := numeral.exists_cons
  have other : ∀ char : Char, ¬ (char.isDigit ∨ char = '-') → first ≠ char := by
    rintro char special rfl
    exact special known
  unfold nextToken?
  split
  case h_11 => rfl
  all_goals
    rename_i same
    exact absurd (List.cons.inj same).1 (other _ (by decide))

theorem Token.legible_of_numeral {literal : String} (numeral : Numeral literal.toList) :
    (Token.number literal).Legible := by
  obtain ⟨first, others, chars, known⟩ := numeral.exists_cons
  refine ⟨⟨first, others, chars, Bool.eq_false_iff.mpr fun space => ?_⟩, fun rest ends => ?_⟩
  · simp only [isSpace, Bool.or_eq_true, decide_eq_true_eq] at space
    rcases space with ((rfl | rfl) | rfl) | rfl <;> exact absurd known (by decide)
  · have ends : ∀ next ∈ rest.head?, endsNumber next := by
      intro next first
      have ends := ends rfl
      rwa [Option.mem_def.mp first] at ends
    show nextToken? (literal.toList ++ rest) = _
    rw [nextToken?_of_numeral numeral, numeral.scan ends, Option.map_some]
    dsimp only
    rw [String.ofList_toList]

/-! ## Written numbers -/

theorem exists_toDigits_eq {number : Nat} (positive : 0 < number) :
    ∃ first others, Nat.toDigits 10 number = first :: others ∧ first ≠ '0' := by
  induction number using Nat.strongRecOn with
  | ind number ih =>
    by_cases small : number < 10
    · have digits : ∀ digit : Fin 10, 0 < digit.val → Nat.digitChar digit.val ≠ '0' := by decide
      exact ⟨_, [], Nat.toDigits_of_lt_base small, digits ⟨number, small⟩ positive⟩
    · obtain ⟨first, others, upper, notZero⟩ := ih (number / 10) (by omega) (by omega)
      rw [Nat.toDigits_of_base_le (by decide) (Nat.not_lt.mp small), upper]
      exact ⟨first, _, rfl, notZero⟩

theorem numeral_toDigits (number : Nat) : Numeral (Nat.toDigits 10 number) := by
  have whole : Whole (Nat.toDigits 10 number) := by
    rcases Nat.eq_zero_or_pos number with rfl | positive
    · exact .zero
    · obtain ⟨first, others, digits, notZero⟩ := exists_toDigits_eq positive
      rw [digits]
      refine .digits notZero ⟨List.cons_ne_nil _ _, fun char listed => ?_⟩
      exact Nat.isDigit_of_mem_toDigits (by decide) (by decide) (digits ▸ listed)
  have numeral := Numeral.parts List.mem_cons_self whole .absent .absent
  rwa [List.nil_append, List.append_nil, List.append_nil] at numeral

theorem legible_ofNat (number : Nat) : (ofNat number).Legible := by
  refine legible_of_single rfl (Token.legible_of_numeral ?_)
  rw [String.toList_ofList]
  exact numeral_toDigits number

/-- A written number is read back. -/
theorem nat?_ofNat (number : Nat) : (ofNat number).nat? = some number := by
  have digits : (Nat.toDigits 10 number).all Char.isDigit :=
    List.all_eq_true.mpr fun char listed =>
      Nat.isDigit_of_mem_toDigits (by decide) (by decide) listed
  have value : Nat.ofDigitChars 10 (Nat.toDigits 10 number) 0 = number :=
    Nat.ofDigitChars_toDigits (by decide) (by decide)
  unfold nat? ofNat
  dsimp only
  rw [String.toList_ofList, if_pos digits]
  unfold Nat.ofDigitChars at value
  simp only [Nat.mul_comm 10] at value
  rw [value]

end

/-! ## The format of documents -/

/-- The texts and numbers of the format; every other token has one form only. -/
def Token.Proper : Token → Prop
  | .number literal => Numeral literal.toList
  | .text written => Quotable written.toList
  | _ => True

theorem Token.Proper.legible {token : Token} (proper : token.Proper) : token.Legible := by
  cases token with
  | number literal => exact legible_of_numeral proper
  | text written => exact legible_of_quotable proper
  | _ => exact legible_of_fixed nofun nofun

/-- A text that a document may be written as. -/
structure Spells (text : String) (document : Json) : Prop where
  proper : ∀ token ∈ document.tokens, token.Proper
  spelled : Spelled document.tokens text.toList

/-- **A document is read from every text that it may be written as.** -/
theorem Spells.parse?_eq {text : String} {document : Json} (spells : Spells text document) :
    parse? text = some document :=
  parse?_of_spelled (fun token listed => (spells.proper token listed).legible) spells.spelled

/-! ## Indented lines -/

theorem isSpace_newLine (depth : Nat) : (newLine depth).all isSpace := by
  unfold newLine
  simp [isSpace]

theorem isSpace_gap (depth : Nat) (token next : Token) : (gap depth token next).all isSpace := by
  unfold gap
  split
  · split
    · rfl
    · exact isSpace_newLine _
  · split
    · exact isSpace_newLine _
    · split <;> rfl

theorem spelled_layOut (depth : Nat) (tokens : List Token) :
    Spelled tokens (layOut depth tokens) := by
  induction tokens generalizing depth with
  | nil => exact .nil rfl
  | cons token tokens ih =>
    cases tokens with
    | nil =>
      have alone : Spelled [token] ([] ++ token.chars ++ []) := .cons rfl (.nil rfl)
      rwa [List.append_nil] at alone
    | cons next rest =>
      rw [layOut, List.append_assoc]
      exact .cons (show [].all isSpace from rfl) ((ih _).after (isSpace_gap _ _ _))

theorem parse?_indented {document : Json} (legible : document.Legible) :
    parse? document.indented = some document := by
  refine parse?_of_spelled legible ?_
  unfold indented
  rw [String.toList_ofList]
  exact spelled_layOut 0 document.tokens

end FormEditor.Json
