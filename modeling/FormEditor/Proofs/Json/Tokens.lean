import FormEditor.Json.Printer
import FormEditor.Proofs.Ids
import Mathlib.Data.List.Chain

/-!
# Reading written tokens

What may stand between quotes is found again up to the closing quote (`Quotable.scanText_eq`), and
what is written there for a text stands for that text (`decodeFrom_encode`).  A token is legible
when it is found again at the start of whatever may follow it (`Token.Legible`).  A document whose
texts and numbers are legible is split into its tokens, whatever blanks stand between them
(`tokens?_of_spelled`).
-/

set_option autoImplicit false

namespace FormEditor.Json

/-! ## Texts -/

/-- A piece of what stands between quotes: an escape by a letter or by four digits, or a character
that needs no escape. -/
inductive Piece : List Char → Prop where
  | letter {letter : Char} : isEscapeLetter letter → Piece ['\\', letter]
  | digits {a b c d : Char} : [a, b, c, d].all Hex.isDigit → Piece ['\\', 'u', a, b, c, d]
  | plain {char : Char} : char ≠ '\\' → char ≠ '"' → ¬ char.toNat < 0x20 → Piece [char]

/-- What may stand between quotes. -/
inductive Quotable : List Char → Prop where
  | nil : Quotable []
  | cons {piece rest : List Char} : Piece piece → Quotable rest → Quotable (piece ++ rest)

/-- A piece of a text does not end it. -/
theorem Piece.scanText_eq {piece : List Char} (whole : Piece piece) (seen rest : List Char) :
    scanText seen (piece ++ rest) = scanText (piece.reverse ++ seen) rest := by
  cases whole with
  | @letter letter known =>
    have notU : letter ≠ 'u' := by
      rintro rfl
      exact absurd known (by decide)
    show scanText seen ('\\' :: letter :: rest) = _
    rw [scanText, if_pos known]
    · rfl
    · exact fun _ _ _ _ _ same => absurd same notU
  | @digits a b c d digits =>
    show scanText seen ('\\' :: 'u' :: a :: b :: c :: d :: rest) = _
    rw [scanText, if_pos digits]
    rfl
  | @plain char notBackslash notQuote large =>
    show scanText seen (char :: rest) = _
    rw [scanText, if_neg (by simp [notBackslash, large])]
    · rfl
    · exact notQuote
    · exact fun _ _ _ _ _ same => absurd same notBackslash
    · exact fun _ _ same => absurd same notBackslash

/-- What stands between quotes is found up to the closing one. -/
theorem Quotable.scanText_eq {chars : List Char} (quotable : Quotable chars)
    (seen rest : List Char) :
    scanText seen (chars ++ '"' :: rest) = some (seen.reverse ++ chars, rest) := by
  induction quotable generalizing seen with
  | nil => simp [scanText]
  | cons whole _ ih =>
    rw [List.append_assoc, whole.scanText_eq, ih, List.reverse_append, List.reverse_reverse,
      List.append_assoc]

/-- How a character may be written between quotes: by a letter after a backslash, by four digits
after a backslash and the letter `u`, or as it is. -/
inductive Escape (char : Char) : List Char → Prop where
  | letter {letter : Char} :
      letter ≠ 'u' → isEscapeLetter letter → escapeLetters.lookup letter = some char →
        Escape char ['\\', letter]
  | digits {a b c d : Char} :
      [a, b, c, d].all Hex.isDigit → Hex.ofDigits? [a, b, c, d] = some char.toNat →
        char.toNat < 0xD800 → Escape char ['\\', 'u', a, b, c, d]
  | plain : char ≠ '\\' → char ≠ '"' → ¬ char.toNat < 0x20 → Escape char [char]

theorem escape_control {number : Nat} (small : number < 0x20) :
    Escape (Char.ofNat number)
      ['\\', 'u', '0', '0', Nat.digitChar (number / 16), Nat.digitChar (number % 16)] := by
  have all : ∀ number : Fin 0x20,
      ['0', '0', Nat.digitChar (number.val / 16), Nat.digitChar (number.val % 16)].all Hex.isDigit ∧
        Hex.ofDigits? ['0', '0', Nat.digitChar (number.val / 16),
          Nat.digitChar (number.val % 16)] = some (Char.ofNat number.val).toNat ∧
        (Char.ofNat number.val).toNat < 0xD800 := by decide
  obtain ⟨digits, value, low⟩ := all ⟨number, small⟩
  exact .digits digits value low

theorem escape_encodeChar (char : Char) : Escape char (encodeChar char) := by
  unfold encodeChar
  split
  case h_8 notQuote notBackslash _ _ _ _ _ =>
    split
    · rename_i small
      have control := escape_control small
      rwa [Char.ofNat_toNat] at control
    · rename_i large
      exact .plain notBackslash notQuote large
  all_goals exact .letter (by decide) (by decide) (by decide)

namespace Escape

variable {char : Char} {chars : List Char} (escape : Escape char chars)
include escape

/-- A written character is read back. -/
theorem decodeFrom_eq (seen rest : List Char) :
    decodeFrom seen (chars ++ rest) = decodeFrom (char :: seen) rest := by
  cases escape with
  | @letter letter notU _ found =>
    show decodeFrom seen ('\\' :: letter :: rest) = _
    rw [decodeFrom, found]
    exact fun _ _ _ _ _ same => absurd same notU
  | @digits a b c d _ value low =>
    show decodeFrom seen ('\\' :: 'u' :: a :: b :: c :: d :: rest) = _
    rw [decodeFrom, value]
    dsimp only
    rw [if_neg (fun pair => Nat.not_le.mpr low pair.1), if_neg (by omega), Char.ofNat_toNat]
  | plain notBackslash notQuote large =>
    show decodeFrom seen (char :: rest) = _
    rw [decodeFrom, if_neg (by simp [notBackslash, notQuote, large])]
    · exact fun _ _ _ _ _ same => absurd same notBackslash
    · exact fun _ _ same => absurd same notBackslash

theorem piece : Piece chars := by
  cases escape with
  | letter _ known _ => exact .letter known
  | digits digits _ _ => exact .digits digits
  | plain notBackslash notQuote large => exact .plain notBackslash notQuote large

end Escape

theorem decodeFrom_encode (seen text : List Char) :
    decodeFrom seen (encode text) = some (seen.reverse ++ text) := by
  induction text generalizing seen with
  | nil => simp [encode, decodeFrom]
  | cons char text ih =>
    have unfolded : encode (char :: text) = encodeChar char ++ encode text := rfl
    rw [unfolded, (escape_encodeChar char).decodeFrom_eq, ih, List.reverse_cons,
      List.append_assoc, List.singleton_append]

/-- **A written text is read back.** -/
theorem unwritten?_written (text : String) : unwritten? (written text) = some text := by
  unfold unwritten? written decode?
  rw [String.toList_ofList, decodeFrom_encode, List.reverse_nil, List.nil_append, Option.map_some,
    String.ofList_toList]

theorem quotable_encode (text : List Char) : Quotable (encode text) := by
  induction text with
  | nil => exact .nil
  | cons char text ih => exact .cons (escape_encodeChar char).piece ih

theorem quotable_written (text : String) : Quotable (written text).toList := by
  unfold written
  rw [String.toList_ofList]
  exact quotable_encode text.toList

/-! ## Single tokens -/

/-- Whether a token is a number. -/
def Token.isNumber : Token → Bool
  | .number _ => true
  | _ => false

/-- Whether a character cannot continue a number. -/
def endsNumber (char : Char) : Bool :=
  !(char.isDigit || char = '.' || char = 'e' || char = 'E')

/-- A token is legible if it is found again at the start of whatever follows it; what follows a
number must not continue it. -/
structure Token.Legible (token : Token) : Prop where
  visible : ∃ first others, token.chars = first :: others ∧ isSpace first = false
  found : ∀ rest : List Char, (token.isNumber → rest.head?.all endsNumber) →
    nextToken? (token.chars ++ rest) = some (token, rest)

/-- A token that is neither a text nor a number is legible. -/
theorem Token.legible_of_fixed {token : Token} (notText : ∀ written, token ≠ .text written)
    (notNumber : ∀ literal, token ≠ .number literal) : token.Legible := by
  cases token with
  | text written => exact absurd rfl (notText written)
  | number literal => exact absurd rfl (notNumber literal)
  | bool value => cases value <;> exact ⟨⟨_, _, rfl, by decide⟩, fun _ _ => rfl⟩
  | openRecord | closeRecord | openList | closeList | colon | comma | null =>
    exact ⟨⟨_, _, rfl, by decide⟩, fun _ _ => rfl⟩

theorem Token.legible_of_quotable {written : String} (quotable : Quotable written.toList) :
    (Token.text written).Legible := by
  refine ⟨⟨_, _, rfl, by decide⟩, fun rest _ => ?_⟩
  have chars : (Token.text written).chars ++ rest =
      '"' :: (written.toList ++ '"' :: rest) := by
    simp [Token.chars]
  rw [chars]
  show (scanText [] (written.toList ++ '"' :: rest)).map _ = _
  rw [quotable.scanText_eq, Option.map_some]
  dsimp only
  rw [List.reverse_nil, List.nil_append, String.ofList_toList]

theorem Token.legible_written (text : String) : (Token.text (written text)).Legible :=
  legible_of_quotable (quotable_written text)

/-! ## Sequences of tokens -/

/-- No number stands right after another. -/
def Spaced (tokens : List Token) : Prop :=
  tokens.IsChain fun token next => ¬ (token.isNumber ∧ next.isNumber)

theorem Spaced.join {front back : List Token} (token : Token) (between : token.isNumber = false)
    (before : Spaced front) (after : Spaced back) : Spaced (front ++ token :: back) := by
  refine List.isChain_append.mpr ⟨before, List.isChain_cons.mpr ⟨?_, after⟩, ?_⟩
  · rintro next - ⟨number, -⟩
    rw [between] at number
    cases number
  · rintro last - next following ⟨-, number⟩
    cases following
    rw [between] at number
    cases number

theorem Spaced.single (token : Token) : Spaced [token] := List.isChain_singleton token

mutual
/-- In a document numbers are kept apart by commas and brackets. -/
theorem spaced_tokens : ∀ document : Json, Spaced document.tokens
  | .null | .bool _ | .number _ | .text _ => .single _
  | .list items => by
    show Spaced ([] ++ .openList :: (itemTokens items ++ [.closeList]))
    exact .join _ rfl .nil (.join _ rfl (spaced_itemTokens items) .nil)
  | .record members => by
    show Spaced ([] ++ .openRecord :: (memberTokens members ++ [.closeRecord]))
    exact .join _ rfl .nil (.join _ rfl (spaced_memberTokens members) .nil)

theorem spaced_itemTokens : ∀ items : List Json, Spaced (itemTokens items)
  | [] => .nil
  | [item] => spaced_tokens item
  | item :: next :: items => .join _ rfl (spaced_tokens item) (spaced_itemTokens (next :: items))

theorem spaced_memberTokens : ∀ members : List (String × Json), Spaced (memberTokens members)
  | [] => .nil
  | [(key, value)] => .join .colon rfl (.single (.text key)) (spaced_tokens value)
  | (key, value) :: next :: members => by
    show Spaced
      ([.text key] ++ .colon :: (tokens value ++ .comma :: memberTokens (next :: members)))
    exact .join _ rfl (.single _)
      (.join _ rfl (spaced_tokens value) (spaced_memberTokens (next :: members)))
end

/-! ## Splitting a written document -/

theorem tokensFrom_eq {seen : List Token} {chars rest others : List Char} {first : Char}
    {token : Token} (start : chars.dropWhile isSpace = first :: others)
    (found : nextToken? (first :: others) = some (token, rest)) :
    tokensFrom seen chars = tokensFrom (token :: seen) rest := by
  rw [tokensFrom]
  split
  · rename_i empty
    cases start.symm.trans empty
  · rename_i first' others' start'
    cases start.symm.trans start'
    split
    · rename_i missing
      cases found.symm.trans missing
    · rename_i token' rest' found'
      cases found.symm.trans found'
      rfl

/-- Nothing but a number starts with a character that may continue a number. -/
theorem Token.endsNumber_of_isNumber_eq_false {token : Token} (fixed : token.isNumber = false)
    (rest : List Char) : (token.chars ++ rest).head?.all endsNumber := by
  cases token with
  | number literal => cases fixed
  | bool value => cases value <;> rfl
  | _ => rfl

/-- A text spells a sequence of tokens if it holds them in their order with blanks around them, or
nothing. -/
inductive Spelled : List Token → List Char → Prop where
  | nil {blanks : List Char} : blanks.all isSpace → Spelled [] blanks
  | cons {blanks chars : List Char} {token : Token} {tokens : List Token} :
      blanks.all isSpace → Spelled tokens chars →
        Spelled (token :: tokens) (blanks ++ token.chars ++ chars)

namespace Spelled

variable {tokens : List Token} {blanks chars : List Char}

theorem flatMap (tokens : List Token) : Spelled tokens (tokens.flatMap Token.chars) := by
  induction tokens with
  | nil => exact .nil rfl
  | cons token tokens ih => exact .cons (show [].all isSpace from rfl) ih

/-- Further blanks may stand in front. -/
theorem after (blank : blanks.all isSpace) (spelled : Spelled tokens chars) :
    Spelled tokens (blanks ++ chars) := by
  have both : ∀ {others : List Char}, others.all isSpace → (blanks ++ others).all isSpace := by
    intro others blank'
    rw [List.all_append, blank, blank']
    rfl
  cases spelled with
  | nil blank' => exact .nil (both blank')
  | cons blank' spelled =>
    rw [← List.append_assoc, ← List.append_assoc]
    exact .cons (both blank') spelled

/-- What follows a number does not continue it, since no other number follows right after it. -/
theorem endsNumber (spelled : Spelled tokens chars)
    (apart : ∀ next ∈ tokens.head?, next.isNumber = false) : chars.head?.all endsNumber := by
  have ends : ∀ {blanks rest : List Char}, blanks.all isSpace → rest.head?.all Json.endsNumber →
      (blanks ++ rest).head?.all Json.endsNumber := by
    intro blanks rest blank ends
    cases blanks with
    | nil => exact ends
    | cons first blanks =>
      have space : isSpace first := List.all_eq_true.mp blank first List.mem_cons_self
      simp only [isSpace, Bool.or_eq_true, decide_eq_true_eq] at space
      rcases space with ((rfl | rfl) | rfl) | rfl <;> rfl
  cases spelled with
  | nil blank =>
    rw [← List.append_nil chars]
    exact ends blank rfl
  | cons blank _ =>
    rw [List.append_assoc]
    exact ends blank (Token.endsNumber_of_isNumber_eq_false (apart _ rfl) _)

end Spelled

/-- Legible tokens are found again if no number stands right after another. -/
theorem tokensFrom_of_spelled {seen tokens : List Token} {chars : List Char}
    (spelled : Spelled tokens chars) (legible : ∀ token ∈ tokens, token.Legible)
    (spaced : Spaced tokens) : tokensFrom seen chars = some (seen.reverse ++ tokens) := by
  induction spelled generalizing seen with
  | nil blank =>
    have skipped := List.dropWhile_eq_nil_iff.mpr (List.all_eq_true.mp blank)
    rw [tokensFrom]
    split
    · rw [List.append_nil]
    · rename_i start
      cases skipped.symm.trans start
  | @cons blanks chars token tokens blank spelled ih =>
    obtain ⟨here, others⟩ := List.forall_mem_cons.mp legible
    obtain ⟨following, spaced⟩ := List.isChain_cons.mp spaced
    obtain ⟨first, after, written, visible⟩ := here.visible
    have found := here.found chars fun number => spelled.endsNumber fun next first =>
      Bool.eq_false_iff.mpr fun number' => following next first ⟨number, number'⟩
    have start : (blanks ++ token.chars ++ chars).dropWhile isSpace =
        first :: (after ++ chars) := by
      rw [List.append_assoc, List.dropWhile_append_of_pos (List.all_eq_true.mp blank), written]
      exact List.dropWhile_cons_of_neg (Bool.eq_false_iff.mp visible)
    rw [written, List.cons_append] at found
    rw [tokensFrom_eq start found, ih others spaced, List.reverse_cons, List.append_assoc,
      List.singleton_append]

/-- A document is legible if all its tokens are. -/
def Legible (document : Json) : Prop := ∀ token ∈ document.tokens, token.Legible

theorem tokens?_of_spelled {document : Json} {chars : List Char} (legible : document.Legible)
    (spelled : Spelled document.tokens chars) : tokens? chars = some document.tokens :=
  tokensFrom_of_spelled spelled legible (spaced_tokens document)

end FormEditor.Json
