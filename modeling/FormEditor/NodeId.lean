import FormEditor.Text.Hex
import Std.Data.ExtTreeMap

/-!
# Identities of fields

Every field of a form is named by a `NodeId`, a number that stays with the field for its
whole life, also while it is out of the form.  Ids are ordered by number, so a form can be
kept as an ordered map.

The written form of an id is 32 hexadecimal digits in groups of 8, 4, 4, 4 and 12
(`NodeId.text`).  Reading (`NodeId.ofText?`) is more liberal: it takes the groups in braces
or after `urn:uuid:`, the digits without hyphens, and either case.

Fresh ids come from a `Supply`.  A supply never gives the same id twice, because it only
counts upwards; this is the one source of new identities in the whole library.
-/

set_option autoImplicit false

namespace FormEditor

/-- The identity of a field. -/
structure NodeId where
  number : Nat
deriving DecidableEq, Hashable, Repr, Inhabited

namespace NodeId

/-- Ids are ordered by their numbers. -/
instance : Ord NodeId := ⟨fun left right => compare left.number right.number⟩

instance : Std.TransOrd NodeId where
  eq_swap {left right} := Std.OrientedOrd.eq_swap (a := left.number) (b := right.number)
  isLE_trans {left _ right} :=
    Std.TransOrd.isLE_trans (a := left.number) (c := right.number)

instance : Std.LawfulEqOrd NodeId where
  compare_self {id} := Std.ReflOrd.compare_self (a := id.number)
  eq_of_compare := by
    rintro ⟨left⟩ ⟨right⟩ same
    have same : compare left right = .eq := same
    exact congrArg NodeId.mk (Std.LawfulEqOrd.eq_of_compare same)

/-! ## The written form -/

/-- The sizes of the hyphenated groups of an id. -/
def groupSizes : List Nat := [8, 4, 4, 4, 12]

/-- Puts a hyphen between groups of the given sizes. -/
def hyphenate : List Nat → List Char → List Char
  | [], _ => []
  | [size], digits => digits.take size
  | size :: sizes, digits => digits.take size ++ '-' :: hyphenate sizes (digits.drop size)

/-- Takes the hyphens out again; refuses a text whose groups have other sizes. -/
def unhyphenate? : List Nat → List Char → Option (List Char)
  | [], _ => none
  | [size], digits => if digits.length = size then some digits else none
  | size :: sizes, digits =>
    match digits.drop size with
    | '-' :: rest => (unhyphenate? sizes rest).map (digits.take size ++ ·)
    | _ => none

/-- The written form of an id: 32 lower-case digits in hyphenated groups. -/
def text (id : NodeId) : String :=
  String.ofList (hyphenate groupSizes (Hex.digits 32 id.number))

/-- What may stand before the groups of an id, in either case. -/
def urnScheme : List Char := "urn:uuid:".toList

/-- The digits of an id that is written with hyphens, bare or wrapped. -/
def hyphenatedDigits? (chars : List Char) : Option (List Char) :=
  if chars.length = 36 then unhyphenate? groupSizes chars
  else if chars.length = 38 ∧ chars.head? = some '{' ∧ chars.getLast? = some '}' then
    unhyphenate? groupSizes (chars.drop 1).dropLast
  else if chars.length = 45 ∧ (chars.take 9).map Char.toLower = urnScheme then
    unhyphenate? groupSizes (chars.drop 9)
  else none

/-- Reads an id: 32 digits, or the hyphenated groups, bare, in braces or after `urn:uuid:`. -/
def ofText? (written : String) : Option NodeId :=
  let chars := written.toList
  let digits := if chars.length = 32 then some chars else hyphenatedDigits? chars
  (digits.bind Hex.ofDigits?).map NodeId.mk

end NodeId

/-! ## Fresh ids -/

/-- A source of ids that were never given out: all of them have a number from `next` on. -/
structure Supply where
  next : Nat
deriving DecidableEq, Repr, Inhabited

namespace Supply

/-- The id that the supply gives out next. -/
def id (supply : Supply) : NodeId := ⟨supply.next⟩

/-- The supply after `count` ids have been given out. -/
def after (supply : Supply) (count : Nat) : Supply := ⟨supply.next + count⟩

end Supply

end FormEditor
