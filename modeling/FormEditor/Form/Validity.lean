import FormEditor.Form.Walk

/-!
# Validity

`Form.validate` decides whether the links of a form fit together: the root is stored and has
no parent, every field is stored under its own id, parent links and child lists agree, and no
field is out of reach of the root.
-/

set_option autoImplicit false

namespace FormEditor.Form

/-- Checks that a listed child is stored and names `parent` as its parent. -/
def checkChild (form : Form) (parent child : NodeId) : Except Fault Unit := do
  if (← form.field child).parent ≠ some parent then
    throw (.defect (.notPointingBack child parent))

/-- Checks that a field is listed exactly once by its parent, and that only the root has
none. -/
def checkParent (form : Form) (field : Field) : Except Fault Unit :=
  match field.parent with
  | some parent => do
    let count := (← form.field parent).children.count field.id
    if count ≠ 1 then throw (.defect (.listedTimes field.id count parent))
  | none =>
    if field.id = form.root then .ok () else .error (.defect (.noParent field.id))

/-- Checks the links of one field. -/
def checkField (form : Form) (key : NodeId) (field : Field) : Except Fault Unit := do
  if field.id ≠ key then throw (.defect (.storedUnder field.id key))
  field.children.forM (form.checkChild field.id)
  form.checkParent field

/-- Checks the links of the whole form; the first fault in the order of ids is named. -/
def validate (form : Form) : Except Fault Unit := do
  if !form.contains form.root then throw (.nodeNotFound form.root)
  if (form.parent? form.root).isSome then throw (.defect .rootHasParent)
  form.fields.toList.forM fun (key, field) => form.checkField key field
  if form.preorder.length ≠ form.size then throw (.defect .unreachable)

end FormEditor.Form
