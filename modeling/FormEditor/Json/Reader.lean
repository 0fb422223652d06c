import FormEditor.Json.Basic
import FormEditor.Json.Token

/-!
# Reading JSON documents

A document is read token by token.  What has been read of the lists and records that are
still open is kept on a stack (`Frame`), so the depth of a document does not matter.  Every
token leads from one `ReaderState` to the next or is refused there.
-/

set_option autoImplicit false

namespace FormEditor.Json

/-- A list or record that is still open, with what has been read of it, newest first. -/
inductive Frame where
  | list (done : List Json)
  | record (done : List (String × Json)) (key : String)

/-- What the reader expects next; `outer` holds the open lists and records, innermost
first. -/
inductive ReaderState where
  /-- A document. -/
  | value (outer : List Frame)
  /-- The first item of a list, or its end. -/
  | firstItem (outer : List Frame)
  /-- The first key of a record, or its end. -/
  | firstKey (outer : List Frame)
  /-- A further key of a record. -/
  | key (outer : List Frame) (done : List (String × Json))
  /-- The colon after a key. -/
  | colon (outer : List Frame) (done : List (String × Json)) (key : String)
  /-- What follows a complete document: a comma, the end of what surrounds it, or nothing. -/
  | complete (outer : List Frame) (document : Json)

/-- The document that a single token stands for. -/
def ofToken? : Token → Option Json
  | .null => some .null
  | .bool value => some (.bool value)
  | .number literal => some (.number literal)
  | .text written => some (.text written)
  | _ => none

/-- The state after the first token of a document. -/
def begin? (outer : List Frame) : Token → Option ReaderState
  | .openRecord => some (.firstKey outer)
  | .openList => some (.firstItem outer)
  | token => (ofToken? token).map (.complete outer)

/-- The state after a further token. -/
def ReaderState.next? : ReaderState → Token → Option ReaderState
  | .value outer, token => begin? outer token
  | .firstItem outer, .closeList => some (.complete outer (.list []))
  | .firstItem outer, token => begin? (.list [] :: outer) token
  | .firstKey outer, .closeRecord => some (.complete outer (.record []))
  | .firstKey outer, .text name => some (.colon outer [] name)
  | .key outer done, .text name => some (.colon outer done name)
  | .colon outer done name, .colon => some (.value (.record done name :: outer))
  | .complete (.list done :: outer) document, .comma =>
    some (.value (.list (document :: done) :: outer))
  | .complete (.list done :: outer) document, .closeList =>
    some (.complete outer (.list (document :: done).reverse))
  | .complete (.record done name :: outer) document, .comma =>
    some (.key outer ((name, document) :: done))
  | .complete (.record done name :: outer) document, .closeRecord =>
    some (.complete outer (.record ((name, document) :: done).reverse))
  | _, _ => none

/-- The document that a sequence of tokens stands for. -/
def ofTokens? (tokens : List Token) : Option Json :=
  match tokens.foldlM ReaderState.next? (.value []) with
  | some (.complete [] document) => some document
  | _ => none

/-- Reads a document; nothing but blanks may stand around it. -/
def parse? (text : String) : Option Json :=
  (tokens? text.toList).bind ofTokens?

end FormEditor.Json
