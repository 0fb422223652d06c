/-!
# Bags of attributes

A bag is a list of named texts.  It keeps the order in which names were added, so that
whoever saves it can reproduce that order.  All writing goes through `exchange`, one scan
that puts a new value in the place of the first entry of a name and tells what stood there.

A bag built by `ofList` has each name once.  A bag read from a file may repeat a name; then
the first entry is the one that is looked up, replaced or removed.
-/

set_option autoImplicit false

namespace FormEditor

/-- An ordered list of named texts. -/
structure Attributes where
  entries : List (String × String)
deriving DecidableEq, Repr, Inhabited

namespace Attributes

/-- The bag without attributes. -/
def empty : Attributes := ⟨[]⟩

/-- The value under a name: that of its first entry. -/
def get? (bag : Attributes) (name : String) : Option String :=
  (bag.entries.find? fun entry => entry.1 = name).map Prod.snd

/-- Puts `value` in the place of the first entry of `name`, or at the end if there is none;
`none` takes the entry out.  Also gives the value that stood there. -/
def exchangeIn (name : String) (value : Option String) :
    List (String × String) → Option String × List (String × String)
  | [] => (none, value.toList.map fun text => (name, text))
  | (key, held) :: rest =>
    if key = name then (some held, value.toList.map (fun text => (key, text)) ++ rest)
    else
      let later := exchangeIn name value rest
      (later.1, (key, held) :: later.2)

/-- Writes a name (`some`) or removes it (`none`), and gives its previous value. -/
def exchange (bag : Attributes) (name : String) (value : Option String) :
    Option String × Attributes :=
  let exchanged := exchangeIn name value bag.entries
  (exchanged.1, ⟨exchanged.2⟩)

/-- The bag after a name has been written (`some`) or removed (`none`). -/
def assign (bag : Attributes) (name : String) (value : Option String) : Attributes :=
  (bag.exchange name value).2

/-- Writes a name; a name that is present keeps its place. -/
def set (bag : Attributes) (name value : String) : Attributes :=
  bag.assign name (some value)

/-- Takes the first entry of a name out. -/
def remove (bag : Attributes) (name : String) : Attributes :=
  bag.assign name none

/-- Whether the bag has an entry under a name. -/
def contains (bag : Attributes) (name : String) : Bool :=
  (bag.get? name).isSome

/-- The number of entries. -/
def size (bag : Attributes) : Nat := bag.entries.length

/-- The bag in which the pairs have been written one after another: a repeated name keeps
its first place and takes its last value. -/
def ofList (pairs : List (String × String)) : Attributes :=
  pairs.foldl (fun bag pair => bag.set pair.1 pair.2) empty

/-- Takes the first entry of each of several names out. -/
def removeAll (bag : Attributes) (names : List String) : Attributes :=
  names.foldl remove bag

end Attributes

end FormEditor
