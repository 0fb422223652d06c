import FormEditor.Form.Branch

/-!
# Attaching, detaching and moving

The three primitive edits of a form.  Each of them first finds out whether it is allowed and
only then writes, so each is given in two parts: a question about the form, which names the
fault, and the form that results.

* `attach` puts a branch under a field at an index.
* `detach` takes a field out with all that lies below it.
* `relink` moves a field, with all that lies below it, to another place.  The index counts the
  children of the new parent without the field that is moved.
-/

set_option autoImplicit false

namespace FormEditor.Form

/-! ## Attaching -/

/-- Whether a branch may be attached at an index under `parent`. -/
def attachable (form : Form) (parent : NodeId) (index : Nat) (branch : Branch) :
    Except Fault Unit := do
  let count := (← form.field parent).children.length
  if count < index then throw (.indexOutOfRange parent index count)
  match branch.fields.keys.find? form.contains with
  | some clash => throw (.alreadyAttached clash)
  | none => return ()

/-- The form with a branch attached. -/
def attached (form : Form) (parent : NodeId) (index : Nat) (branch : Branch) : Form :=
  let grown : FieldMap := branch.fields.modify branch.root fun field =>
    { field with parent := some parent }
  { form with
    fields := (form.fields ∪ grown).modify parent fun field =>
      { field with children := field.children.insertIdx index branch.root } }

/-- Attaches a branch under `parent` at an index. -/
def attach (parent : NodeId) (index : Nat) (branch : Branch) : Edit Unit := do
  Edit.ask fun form => form.attachable parent index branch
  modify fun form => form.attached parent index branch

/-! ## Detaching -/

/-- The place from which a field may be detached. -/
def detachable (form : Form) (id : NodeId) : Except Fault Position :=
  if id = form.root then .error .rootNotAllowed
  else
    match form.parent? id with
    | none => .error (.detached id)
    | some parent =>
      match form.siblingIndex? id with
      | none => .error (.defect (.missing id))
      | some index => .ok ⟨parent, index⟩

/-- The form in which the parent at a place no longer lists the child there. -/
def unlisted (form : Form) (place : Position) : Form :=
  form.modifyField place.parent fun field =>
    { field with children := field.children.eraseIdx place.index }

/-- What lies at and below the field at a place, as a branch.  Its root has no parent and no
highlight.  The parent lets go of its child first, so that it is in the branch without that child
where the ids below the field, in a form with broken links, lead back to it. -/
def branchAt (form : Form) (id : NodeId) (place : Position) : Branch :=
  let ids := (form.descendants id).map Field.id
  { root := id
    fields := ((form.unlisted place).fields.filter fun key _ => ids.contains key).modify id
      fun field => { field with parent := none, highlighted := false } }

/-- The form without what lies at and below the field at a place. -/
def without (form : Form) (id : NodeId) (place : Position) : Form :=
  let ids := (form.descendants id).map Field.id
  { form with fields := (form.unlisted place).fields.filter fun key _ => !ids.contains key }

/-- Detaches a field with all that lies below it; gives the place it stood at. -/
def detach (id : NodeId) : Edit (Position × Branch) := do
  let place ← Edit.ask fun form => form.detachable id
  let branch := (← get).branchAt id place
  modify fun form => form.without id place
  return (place, branch)

/-! ## Moving -/

/-- The place from which a field may be moved to an index under `parent`. -/
def relinkable (form : Form) (id parent : NodeId) (index : Nat) : Except Fault Position := do
  if id = form.root then throw .rootNotAllowed
  let some oldParent := form.parent? id | throw (.nodeNotFound id)
  let count := (← form.field parent).children.length
  if parent = id || form.isAncestor id parent then throw (.defect (.beneathItself id))
  let room := if parent = oldParent then count - 1 else count
  -- a parent that lists no child at all has lost this one, which is the fault named below
  let lost := parent = oldParent && count = 0
  if room < index && !lost then throw (.indexOutOfRange parent index room)
  match form.siblingIndex? id with
  | none => throw (.defect (.missing id))
  | some oldIndex => return ⟨oldParent, oldIndex⟩

/-- The form with a field moved from a place to an index under `parent`. -/
def relinked (form : Form) (id : NodeId) (place : Position) (parent : NodeId) (index : Nat) :
    Form :=
  ((form.unlisted place).modifyField parent fun field =>
      { field with children := field.children.insertIdx index id }).modifyField id
    fun field => { field with parent := some parent }

/-- Moves a field, with all that lies below it, to an index under `parent`. -/
def relink (id parent : NodeId) (index : Nat) : Edit Unit := do
  let place ← Edit.ask fun form => form.relinkable id parent index
  modify fun form => form.relinked id place parent index

/-- Moves several fields, one after the other, to consecutive indices under `parent`. -/
def relinkAll (parent : NodeId) : Nat → List NodeId → Edit Unit
  | _, [] => return ()
  | index, id :: ids => do
    relink id parent index
    relinkAll parent (index + 1) ids

end FormEditor.Form
