import FormEditor.Form.Validity
import FormEditor.Json.Basic

/-!
# Saving and loading forms

The JSON form of ids, bags, fields and forms.  A form is saved as its root and the record of its
fields by id; highlights are not saved.  Loading takes every written form of an id, passes
over unknown members, and accepts a form only if it is valid (`Form.ofJson`).
-/

set_option autoImplicit false

namespace FormEditor

/-- Why a document is not a saved form. -/
inductive LoadFault where
  /-- The document does not have the parts of a form. -/
  | malformed
  /-- The form is there, but its links do not fit together. -/
  | invalid (fault : Fault)
deriving DecidableEq, Repr

/-! ## Ids -/

/-- The document for an id, given how ids are named. -/
def NodeId.toJson (name : NodeId → String) (id : NodeId) : Json := .ofString (name id)

/-- The id in a document. -/
def NodeId.ofJson? (document : Json) : Option NodeId := document.string?.bind NodeId.ofText?

/-! ## Bags -/

/-- The document for a bag of attributes. -/
def Attributes.toJson (bag : Attributes) : Json :=
  .ofMembers [("entries",
    .list (bag.entries.map fun entry => .list [.ofString entry.1, .ofString entry.2]))]

/-- The entry of a bag in a document. -/
def Attributes.entryOfJson? (document : Json) : Option (String × String) :=
  document.items?.bind fun items =>
    match items with
    | [name, value] => name.string?.bind fun name => value.string?.map fun value => (name, value)
    | _ => none

/-- The bag in a document; repeated names are kept. -/
def Attributes.ofJson? (document : Json) : Option Attributes :=
  (document.shape? ["entries"]).bind fun parts =>
    match parts with
    | [some entries] =>
      (entries.items?.bind fun items => items.mapM entryOfJson?).map Attributes.mk
    | _ => none

/-! ## Fields -/

/-- The document for a field, given how ids are named. -/
def Field.toJson (name : NodeId → String) (field : Field) : Json :=
  .ofMembers
    [("id", field.id.toJson name), ("parent", .ofOption (NodeId.toJson name) field.parent),
      ("children", .list (field.children.map (NodeId.toJson name))),
      ("attributes", field.attributes.toJson)]

/-- The parent in a document; a document that is missing or null stands for none. -/
def Field.parentOfJson? : Option Json → Option (Option NodeId)
  | none | some .null => some none
  | some document => (NodeId.ofJson? document).map some

/-- The field in a document. -/
def Field.ofJson? (document : Json) : Option Field :=
  (document.shape? ["id", "parent", "children", "attributes"]).bind fun parts =>
    match parts with
    | [some id, parent, some children, some attributes] => do
      let id ← NodeId.ofJson? id
      let parent ← parentOfJson? parent
      let children ← (← children.items?).mapM NodeId.ofJson?
      let attributes ← Attributes.ofJson? attributes
      return { id, parent, children, attributes, highlighted := false }
    | _ => none

/-! ## Forms -/

namespace Form

/-- The document for a form that lists its fields in a given order, given how ids are named. -/
def toJsonInOrder (name : NodeId → String) (form : Form) (entries : List (NodeId × Field)) : Json :=
  .ofMembers
    [("root", form.root.toJson name),
      ("nodes", .ofMembers (entries.map fun (id, field) => (name id, field.toJson name)))]

/-- The document for a form, given how ids are named; the fields are in the order of their ids. -/
def toJson (name : NodeId → String) (form : Form) : Json :=
  form.toJsonInOrder name form.fields.toList

/-- The stored field in a member of a document. -/
def memberOfJson? (member : String × Json) : Option (NodeId × Field) := do
  let id ← NodeId.ofText? member.1
  let field ← Field.ofJson? member.2
  return (id, field)

/-- The stored fields in a document; of two members for one id the later one counts. -/
def fieldsOfJson? (document : Json) : Option FieldMap := do
  let entries ← (← document.members?).mapM memberOfJson?
  return entries.foldl (fun stored entry => stored.insert entry.1 entry.2) ∅

/-- The root and the stored fields in a document, whether or not they fit together. -/
def partsOfJson? (document : Json) : Option Form :=
  (document.shape? ["root", "nodes"]).bind fun parts =>
    match parts with
    | [some root, some fields] => do
      let root ← NodeId.ofJson? root
      let fields ← fieldsOfJson? fields
      return { root, fields }
    | _ => none

/-- The valid form in a document. -/
def ofJson (document : Json) : Except LoadFault Form :=
  match partsOfJson? document with
  | none => .error .malformed
  | some form =>
    match form.validate with
    | .ok () => .ok form
    | .error fault => .error (.invalid fault)

end Form

end FormEditor
