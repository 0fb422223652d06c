import FormEditor.Json.Basic
import FormEditor.Json.Token

/-!
# Writing JSON documents

A document is written as its tokens, either without any blanks (`compact`) or with every
item and member on a line of its own, indented by two blanks for each level (`indented`).
-/

set_option autoImplicit false

namespace FormEditor.Json

mutual
/-- The tokens of a document. -/
def tokens : Json → List Token
  | .null => [.null]
  | .bool value => [.bool value]
  | .number literal => [.number literal]
  | .text written => [.text written]
  | .list items => .openList :: itemTokens items ++ [.closeList]
  | .record members => .openRecord :: memberTokens members ++ [.closeRecord]

/-- The tokens of the items of a list. -/
def itemTokens : List Json → List Token
  | [] => []
  | [item] => tokens item
  | item :: items => tokens item ++ .comma :: itemTokens items

/-- The tokens of the members of a record. -/
def memberTokens : List (String × Json) → List Token
  | [] => []
  | [(key, value)] => .text key :: .colon :: tokens value
  | (key, value) :: members => .text key :: .colon :: tokens value ++ .comma :: memberTokens members
end

/-- Writes a document without blanks. -/
def compact (document : Json) : String :=
  String.ofList (document.tokens.flatMap Token.chars)

/-- Whether a token opens a list or record. -/
def Token.opens : Token → Bool
  | .openRecord | .openList => true
  | _ => false

/-- Whether a token closes a list or record. -/
def Token.closes : Token → Bool
  | .closeRecord | .closeList => true
  | _ => false

/-- A new line at a depth of nesting. -/
def newLine (depth : Nat) : List Char := '\n' :: List.replicate (2 * depth) ' '

/-- The depth of nesting after a token. -/
def Token.depthAfter (depth : Nat) (token : Token) : Nat :=
  if token.opens then depth + 1 else if token.closes then depth - 1 else depth

/-- What stands between a token and the next one, when `depth` is the depth between them.
What a list or record holds stands one level deeper, and an empty one stays on its line. -/
def gap (depth : Nat) (token next : Token) : List Char :=
  if next.closes then (if token.opens then [] else newLine (depth - 1))
  else if token.opens || token = .comma then newLine depth
  else if token = .colon then [' ']
  else []

/-- Writes tokens on indented lines, starting at a depth of nesting. -/
def layOut (depth : Nat) : List Token → List Char
  | [] => []
  | [token] => token.chars
  | token :: next :: rest =>
    let depth := token.depthAfter depth
    token.chars ++ gap depth token next ++ layOut depth (next :: rest)

/-- Writes a document on indented lines. -/
def indented (document : Json) : String := String.ofList (layOut 0 document.tokens)

end FormEditor.Json
