import FormEditor.Fault
import FormEditor.Payload

/-!
# Forms

A form is an ordered tree of fields, kept as a map from ids to fields.  Every link is stored
twice: a field names its parent, and it lists its children in order.  The type allows links
that do not fit together, since such forms can be read from a file; `Form.validate` tells them
from the well-formed ones.

An `Edit` is a change of a form that may be refused.  A refused edit also says what form it
leaves behind, so that it can be proved, and is not merely assumed, that nothing has changed.
-/

set_option autoImplicit false

namespace FormEditor

/-- A field: its attributes, its links and whether it is highlighted. -/
structure Field where
  id : NodeId
  parent : Option NodeId
  children : List NodeId
  attributes : Attributes
  highlighted : Bool
deriving DecidableEq, Repr, Inhabited

namespace Field

/-- A field without links. -/
def fresh (id : NodeId) (attributes : Attributes) : Field :=
  { id, parent := none, children := [], attributes, highlighted := false }

/-- The content of the field as the editing actions see it. -/
def payload (field : Field) : Payload := { attributes := field.attributes }

end Field

/-- Fields stored by id. -/
abbrev FieldMap := Std.ExtTreeMap NodeId Field

/-- An ordered tree of fields. -/
structure Form where
  root : NodeId
  fields : FieldMap
deriving DecidableEq

/-- A place among the children of a field. -/
structure Position where
  parent : NodeId
  index : Nat
deriving DecidableEq, Repr

namespace Form

/-! ## Looking up -/

/-- The field stored under an id. -/
def get? (form : Form) (id : NodeId) : Option Field := form.fields[id]?

/-- The field stored under an id, or the fault that there is none. -/
def field (form : Form) (id : NodeId) : Except Fault Field :=
  match form.get? id with
  | some field => .ok field
  | none => .error (.nodeNotFound id)

/-- Whether a field is in the form. -/
def contains (form : Form) (id : NodeId) : Bool := (form.get? id).isSome

/-- The number of fields, the root included. -/
def size (form : Form) : Nat := form.fields.size

/-- The children of a field in order. -/
def children (form : Form) (id : NodeId) : List NodeId :=
  ((form.get? id).map Field.children).getD []

/-- The child of a field at an index. -/
def child? (form : Form) (id : NodeId) (index : Nat) : Option NodeId := (form.children id)[index]?

/-- The parent of a field. -/
def parent? (form : Form) (id : NodeId) : Option NodeId := (form.get? id).bind Field.parent

/-- The place of a field among the children of its parent. -/
def siblingIndex? (form : Form) (id : NodeId) : Option Nat :=
  (form.parent? id).bind fun parent => (form.children parent).idxOf? id

/-! ## Changing single fields -/

/-- Changes the field stored under an id. -/
def modifyField (form : Form) (id : NodeId) (change : Field → Field) : Form :=
  { form with fields := form.fields.modify id change }

/-- Highlights a field or takes its highlight away. -/
def setHighlighted (form : Form) (highlighted : Bool) (id : NodeId) : Form :=
  form.modifyField id fun field => { field with highlighted }

/-- Highlights several fields or takes their highlights away. -/
def setAllHighlighted (form : Form) (highlighted : Bool) (ids : List NodeId) : Form :=
  ids.foldl (fun form id => form.setHighlighted highlighted id) form

/-! ## New forms -/

/-- The form that holds only a root. -/
def ofRoot (id : NodeId) (attributes : Attributes) : Form :=
  { root := id, fields := (∅ : FieldMap).insert id (Field.fresh id attributes) }

/-- A blank protocol: a title with one step under it.  It uses up two ids of the supply. -/
def blankProtocol (supply : Supply) : Form :=
  let title := supply.id
  let step := (supply.after 1).id
  let kind (name : String) := Attributes.ofList [(AttributeName.inputType, name)]
  { root := title
    fields :=
      ((∅ : FieldMap).insert title
          { Field.fresh title (kind InputType.protocolTitle) with children := [step] }).insert step
        { Field.fresh step (kind InputType.fixedStep) with parent := some title } }

end Form

/-! ## Edits -/

/-- A change of a form that may be refused; either way it says what form is left. -/
abbrev Edit (α : Type) := EStateM Fault Form α

/-- A question about the form that may be refused; the form stays as it is. -/
def Edit.ask {α : Type} (question : Form → Except Fault α) : Edit α := fun form =>
  match question form with
  | .ok answer => .ok answer form
  | .error fault => .error fault form

end FormEditor
