import FormEditor.Json.Text

/-!
# JSON documents

A document with its texts and numbers kept as they were written.  They are decoded only when
somebody asks for them, because a document may hold, in members that nobody reads, numbers
that are too large and texts that stand for no text at all.  The members of a record keep
their order and may repeat a key.

Fixed data is read from a document by `shape?`: the data is a record with the expected keys,
or a list with the same parts in a fixed order.
-/

set_option autoImplicit false

namespace FormEditor

/-- A JSON document.  Texts and keys are held as written between their quotes, numbers as
their literals. -/
inductive Json where
  | null
  | bool (value : Bool)
  | number (literal : String)
  | text (written : String)
  | list (items : List Json)
  | record (members : List (String × Json))
deriving Repr, Inhabited

namespace Json

/-! ## Building documents -/

/-- How a text is written between quotes. -/
def written (text : String) : String := String.ofList (encode text.toList)

/-- The document that holds a text. -/
def ofString (text : String) : Json := .text (written text)

/-- The document that holds a number. -/
def ofNat (number : Nat) : Json := .number (String.ofList (Nat.toDigits 10 number))

/-- The record with the given keys and values. -/
def ofMembers (members : List (String × Json)) : Json :=
  .record (members.map fun member => (written member.1, member.2))

/-- The document for a value that may be missing. -/
def ofOption {α : Type} (document : α → Json) : Option α → Json
  | none => .null
  | some value => document value

/-! ## Reading documents -/

/-- The text that stands for what is written between quotes. -/
def unwritten? (written : String) : Option String :=
  (decode? written.toList).map String.ofList

/-- The text in a document, if it is one. -/
def string? : Json → Option String
  | .text written => unwritten? written
  | _ => none

/-- The truth value in a document, if it is one. -/
def bool? : Json → Option Bool
  | .bool value => some value
  | _ => none

/-- The number in a document, if its literal has digits only. -/
def nat? : Json → Option Nat
  | .number literal =>
    if literal.toList.all Char.isDigit then
      some (literal.toList.foldl (fun number digit => number * 10 + (digit.toNat - '0'.toNat)) 0)
    else none
  | _ => none

/-- The items of a list. -/
def items? : Json → Option (List Json)
  | .list items => some items
  | _ => none

/-- The members of a record with their keys decoded. -/
def members? : Json → Option (List (String × Json))
  | .record members => members.mapM fun member => (unwritten? member.1).map (·, member.2)
  | _ => none

/-- The value under a key that occurs at most once; `none` if it occurs more often. -/
def atMostOnce? (members : List (String × Json)) (key : String) : Option (Option Json) :=
  match members.filter fun member => member.1 = key with
  | [] => some none
  | [member] => some (some member.2)
  | _ => none

/-- The parts of fixed data, in the order of `keys`.  A record may leave parts out and have
further members, but must not repeat a key; a list may leave out parts at its end only and
have no further items. -/
def shape? (keys : List String) : Json → Option (List (Option Json))
  | .list items =>
    if items.length ≤ keys.length then
      some (items.map some ++ List.replicate (keys.length - items.length) none)
    else none
  | .record members =>
    (members? (.record members)).bind fun members => keys.mapM (atMostOnce? members)
  | _ => none

end Json

end FormEditor
