import FormEditor.Form.Walk
import FormEditor.Number.Reading
import FormEditor.Number.Shortest

/-!
# Editing values

Edits that write attributes and leave the links alone.  Each of them gives the list of the
changes that it made, which is enough to take the edit back (`revertChanges`) or to do it again
(`applyChanges`).  Writing a value that is there already is no change.

All of them have one form: for each field in turn a *plan* says what to assign, given the
field as it stands at that moment (`amend`, or `amendEach`, which refuses an id without a field).
-/

set_option autoImplicit false

namespace FormEditor

/-- One attribute going from one value to another; `none` means that it is absent. -/
structure Change where
  node : NodeId
  name : String
  before : Option String
  after : Option String
deriving DecidableEq, Repr

/-- A name and the value that it is to have; `none` takes the attribute away. -/
abbrev Assignment := String × Option String

namespace Form

/-! ## Writing attributes -/

/-- Carries assignments out on one bag.  Also gives the names that changed, each with its
value before and after. -/
def amendBag (node : NodeId) (bag : Attributes) : List Assignment → List Change × Attributes
  | [] => ([], bag)
  | (name, after) :: assignments =>
    if bag.get? name = after then amendBag node bag assignments
    else
      let (before, bag) := bag.exchange name after
      let (changes, bag) := amendBag node bag assignments
      (⟨node, name, before, after⟩ :: changes, bag)

/-- Carries out the plan for each field in turn; ids without a field are passed over. -/
def amend (plan : Field → List Assignment) (form : Form) : List NodeId → List Change × Form
  | [] => ([], form)
  | id :: ids =>
    match form.get? id with
    | none => amend plan form ids
    | some field =>
      let (made, bag) := amendBag id field.attributes (plan field)
      let form := form.modifyField id fun field => { field with attributes := bag }
      let (changes, form) := amend plan form ids
      (made ++ changes, form)

/-- Checks that every id is that of a field. -/
def checkPresent (form : Form) (ids : List NodeId) : Except Fault Unit :=
  ids.forM fun id => discard (form.field id)

/-- Carries out the plan for each field in turn; an id without a field is refused. -/
def amendEach (plan : Field → List Assignment) : List NodeId → Edit (List Change)
  | [] => return []
  | id :: ids => do
    let field ← Edit.ask fun form => form.field id
    let (made, bag) := amendBag id field.attributes (plan field)
    modify fun form => form.modifyField id fun field => { field with attributes := bag }
    let changes ← amendEach plan ids
    return made ++ changes

/-- Carries out a plan for fields that must all be in the form. -/
def amendFields (ids : List NodeId) (plan : Field → List Assignment) : Edit (List Change) := do
  Edit.ask fun form => form.checkPresent ids
  modifyGet fun form => form.amend plan ids

/-- The fields at and below the given ones in document order, each once. -/
def subtreeIds (form : Form) (ids : List NodeId) : List NodeId :=
  ((ids.flatMap form.descendants).map Field.id).eraseDups

/-- Carries out a plan for fields that must all be in the form, and for all below them. -/
def amendSubtrees (ids : List NodeId) (plan : Field → List Assignment) :
    Edit (List Change) := do
  Edit.ask fun form => form.checkPresent ids
  modifyGet fun form => form.amend plan (form.subtreeIds ids)

/-! ## The edits -/

/-- Writes one attribute of one field, or takes it away. -/
def setAttribute (id : NodeId) (name : String) (value : Option String) : Edit (List Change) :=
  amendFields [id] fun _ => [(name, value)]

/-- Copies the default value of each field into its value, for the given fields and all below
them. -/
def loadDefaults (ids : List NodeId) : Edit (List Change) :=
  amendSubtrees ids fun field =>
    match field.payload.default? with
    | none => []
    | some text => [(field.payload.valueName, some text)]

/-- Takes away the value of the given fields and of all below them. -/
def clearValues (ids : List NodeId) : Edit (List Change) :=
  amendSubtrees ids fun field => [(field.payload.valueName, none)]

/-- The value of a number field multiplied by a factor. -/
def scaledValue? (factor : Binary64) (payload : Payload) : Option String :=
  if payload.inputType? = some InputType.numberField then
    (payload.current?.bind fun text => Binary64.ofText? (Text.trim text)).map fun number =>
      (number * factor).text
  else none

/-- What multiplying assigns in a field. -/
def scaling (factor : Binary64) (field : Field) : List Assignment :=
  match scaledValue? factor field.payload with
  | none => []
  | some text => [(field.payload.valueName, some text)]

/-- Multiplies the values of number fields; all other values are left alone. -/
def multiplyValues (ids : List NodeId) (factor : Binary64) : Edit (List Change) := do
  Edit.ask fun form => form.checkPresent ids
  amendEach (scaling factor) ids

/-- Stamps fields as locked at a time, with further attributes of the lock. -/
def lockFields (ids : List NodeId) (details : List (String × String)) (millis : Int) :
    Edit (List Change) :=
  amendFields ids fun _ =>
    (AttributeName.lockedAt, some (toString millis)) ::
      details.map fun detail => (detail.1, some detail.2)

/-- Takes every attribute of a lock away. -/
def unlockFields (ids : List NodeId) : Edit (List Change) :=
  amendFields ids fun _ => AttributeName.lock.map fun name => (name, none)

/-- Marks fields as required or takes the mark away. -/
def setRequired (ids : List NodeId) (required : Bool) : Edit (List Change) :=
  amendFields ids fun _ =>
    [(AttributeName.required, if required then some "true" else none)]

/-! ## Replaying changes -/

/-- Writes one attribute of one field, whatever it holds. -/
def assign (form : Form) (id : NodeId) (name : String) (value : Option String) : Form :=
  form.modifyField id fun field =>
    { field with attributes := field.attributes.assign name value }

/-- Writes one attribute of a field that must be in the form. -/
def write (id : NodeId) (name : String) (value : Option String) : Edit Unit := do
  let _ ← Edit.ask fun form => form.field id
  modify fun form => form.assign id name value

/-- Does changes again, in their order. -/
def applyChanges (changes : List Change) : Edit Unit := do
  Edit.ask fun form => form.checkPresent (changes.map Change.node)
  changes.forM fun change => write change.node change.name change.after

/-- Takes changes back, the last one first. -/
def revertChanges (changes : List Change) : Edit Unit := do
  Edit.ask fun form => form.checkPresent (changes.map Change.node)
  changes.reverse.forM fun change => write change.node change.name change.before

end Form

end FormEditor
