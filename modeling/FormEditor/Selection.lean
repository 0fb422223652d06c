import FormEditor.Form.Run

/-!
# The selection

The fields that are highlighted in a form: nothing, the root by itself, or a run of siblings.
Selecting a sibling outside the run also selects all siblings in between, so that the run stays
unbroken.

A selection lists ids only.  The form keeps a highlight on each field, and what selects changes the
two together (`Selecting`).  If it is refused, it also says what selection it leaves behind, so that
it can be proved that nothing has changed.
-/

set_option autoImplicit false

namespace FormEditor

/-- The selected fields in sibling order, and whether the root is selected. -/
structure Selection where
  fields : List NodeId
  rootSelected : Bool
deriving DecidableEq, Repr, Inhabited

namespace Selection

/-- Nothing is selected. -/
def empty : Selection := { fields := [], rootSelected := false }

/-- Whether nothing is selected. -/
def isEmpty (selection : Selection) : Bool := selection.fields.isEmpty && !selection.rootSelected

/-- The number of selected fields, the root included. -/
def size (selection : Selection) : Nat :=
  selection.fields.length + (if selection.rootSelected then 1 else 0)

/-- Whether a field other than the root is selected. -/
def contains (selection : Selection) (id : NodeId) : Bool := selection.fields.contains id

/-- The selected fields; the root by itself if it is selected. -/
def highlighted (selection : Selection) (form : Form) : List NodeId :=
  if selection.rootSelected then [form.root] else selection.fields

/-- The parent of the selected fields. -/
def parent? (selection : Selection) (form : Form) : Option NodeId :=
  selection.fields.head?.bind form.parent?

/-- The least and the greatest sibling index among the selected fields. -/
def bounds (selection : Selection) (form : Form) : Nat × Nat :=
  match selection.fields.filterMap form.siblingIndex? with
  | [] => (0, 0)
  | index :: indices => (indices.foldl min index, indices.foldl max index)

/-- The form with the highlights of a selection taken away. -/
def unmark (selection : Selection) (form : Form) : Form :=
  let form := form.setAllHighlighted false selection.fields
  if selection.rootSelected then form.setHighlighted false form.root else form

/-- The siblings under `parent` that a run gains when it is extended to `index`: those before
it and those after it. -/
def gained (form : Form) (parent : NodeId) (bounds : Nat × Nat) (index : Nat) :
    List NodeId × List NodeId :=
  let siblings (start stop : Nat) :=
    (List.range' start (stop - start)).filterMap (form.child? parent)
  if bounds.2 < index then ([], siblings (bounds.2 + 1) (index + 1))
  else if index < bounds.1 then (siblings index bounds.1, [])
  else ([], [])

/-- Whether a field other than the root may be added to the selection; gives its parent. -/
def selectable (selection : Selection) (form : Form) (id : NodeId) (clearOthers : Bool) :
    Except Fault NodeId :=
  match form.parent? id with
  | none => .error (.detached id)
  | some parent =>
    if !clearOthers && (selection.parent? form).any (· != parent) then
      .error (.selectionParentMismatch id)
    else .ok parent

end Selection

/-! ## Selecting -/

/-- A change of what is selected in a form.  It may be refused; either way it says what selection
and what form are left. -/
abbrev Selecting (α : Type) := EStateM Fault (Selection × Form) α

namespace Selecting

/-- Selects nothing. -/
def clear : Selecting Unit := modify fun (selection, form) => (.empty, selection.unmark form)

/-- Takes the root out of the selection. -/
def dropRoot : Selecting Unit :=
  modify fun (selection, form) =>
    if selection.rootSelected then
      ({ selection with rootSelected := false }, form.setHighlighted false form.root)
    else (selection, form)

/-- Selects a field by itself, where no other is highlighted. -/
def selectOnly (id : NodeId) : Selecting Unit :=
  modify fun (_, form) => ({ fields := [id], rootSelected := false }, form.setHighlighted true id)

/-- Extends the selected run to a sibling. -/
def extend (parent id : NodeId) : Selecting Unit := do
  let (selection, form) ← get
  match form.siblingIndex? id with
  | none => throw (.detached id)
  | some index =>
    let (before, after) := Selection.gained form parent (selection.bounds form) index
    set ({ selection with fields := before ++ selection.fields ++ after },
      form.setAllHighlighted true (before ++ after))

/-- Selects a field.  The root is selected by itself.  Another field is selected by itself if
`clearOthers` holds or no such field is selected; else it must be a sibling of the selected
fields, and the run is extended to it. -/
def select (id : NodeId) (clearOthers : Bool) : Selecting Unit := do
  let (selection, form) ← get
  let _ ← ofExcept (form.field id)
  if id = form.root then
    clear
    modify fun (_, form) => ({ fields := [], rootSelected := true }, form.setHighlighted true id)
  else
    let parent ← ofExcept (selection.selectable form id clearOthers)
    if clearOthers then clear else dropRoot
    if (← get).1.fields.isEmpty then selectOnly id else extend parent id

/-- Selects exactly the run that a list of ids stands for. -/
def selectRun (ids : List NodeId) : Selecting Unit := do
  let run ← ofExcept ((← get).2.run ids)
  clear
  modify fun (_, form) =>
    ({ fields := run.ids, rootSelected := false }, form.setAllHighlighted true run.ids)

/-- The change for a selection that is kept apart from the form: an edit of the form that gives the
new selection. -/
def onForm (change : Selecting Unit) (selection : Selection) : Edit Selection := fun form =>
  match change (selection, form) with
  | .ok _ (chosen, after) => .ok chosen after
  | .error fault (_, after) => .error fault after

end Selecting

namespace Selection

/-- Selects a field, for a selection that is kept apart from the form. -/
def select (selection : Selection) (id : NodeId) (clearOthers : Bool) : Edit Selection :=
  (Selecting.select id clearOthers).onForm selection

/-- Selects exactly the run that a list of ids stands for, for a selection that is kept apart from
the form. -/
def selectRun (selection : Selection) (ids : List NodeId) : Edit Selection :=
  (Selecting.selectRun ids).onForm selection

/-! ## Dropping what is gone -/

/-- Drops the fields that are no longer in the form.  If those that are left do not form a run,
nothing stays selected. -/
def prune (selection : Selection) (form : Form) : Selection × Form :=
  let kept := { selection with fields := selection.fields.filter form.contains }
  if kept.fields.isEmpty then (kept, form)
  else
    match form.run kept.fields with
    | .ok run => ({ kept with fields := run.ids }, form)
    | .error _ => (empty, kept.unmark form)

end Selection

end FormEditor
