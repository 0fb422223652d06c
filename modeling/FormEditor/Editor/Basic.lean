import FormEditor.Command
import FormEditor.Selection
import FormEditor.Settings

/-!
# The editor

An editor holds a form, what is selected in it, and the history of its edits.  Every operation
of the editor is an `Editing`: it may fail, and either way says what editor it leaves behind.

An operation also records, in order, what whoever displays the form has to be told
(`Notice`).  A recorded edit first tells that the form has to be drawn anew, if it has, and then
that the selection or the history may have changed.
-/

set_option autoImplicit false

namespace FormEditor

/-- What has to be told to whoever displays the form. -/
inductive Notice where
  /-- Highlights, or what can be undone, may have changed. -/
  | selectionChanged
  /-- The form has to be drawn anew. -/
  | treeUpdated
deriving DecidableEq, Repr

/-- A form under editing. -/
structure Editor where
  form : Form
  selection : Selection
  history : History Command
  settings : Settings
  /-- Whether the form has changed since it was saved. -/
  edited : Bool
  /-- Where the ids of new fields come from. -/
  supply : Supply
  /-- What has been told so far. -/
  notices : List Notice
deriving DecidableEq

/-- An operation of the editor. -/
abbrev Editing (α : Type) := EStateM EditError Editor α

namespace Editor

/-- An editor over a form. -/
def ofForm (form : Form) (settings : Settings) (supply : Supply) : Editor :=
  { form
    selection := .empty
    history := .empty settings.history.maxEntries.toNat
    settings
    edited := false
    supply
    notices := [] }

/-- An editor over a blank protocol, with default settings. -/
def blank (supply : Supply) : Editor :=
  ofForm (Form.blankProtocol supply) {} (supply.after 2)

/-- Tells something to whoever displays the form. -/
def notify (notice : Notice) : Editing Unit :=
  modify fun editor => { editor with notices := editor.notices ++ [notice] }

/-- Lets an edit of the form be part of an operation. -/
def onForm {α : Type} (edit : Edit α) : Editing α := fun editor =>
  match edit editor.form with
  | .ok result form => .ok result { editor with form }
  | .error fault form => .error (.fault fault) { editor with form }

/-- Lets an edit that draws new ids be part of an operation. -/
def creating {α : Type} (edit : Supply → Edit (α × Supply)) : Editing α := do
  let (result, supply) ← onForm (edit (← get).supply)
  modify fun editor => { editor with supply }
  return result

/-- Lets a change of what is selected be part of an operation. -/
def selecting (change : Selecting Unit) : Editing Unit := fun editor =>
  match change (editor.selection, editor.form) with
  | .ok _ (selection, form) => .ok ⟨⟩ { editor with selection, form }
  | .error fault (selection, form) => .error (.fault fault) { editor with selection, form }

/-- Records a command that has just been carried out. -/
def record (command : Command) : Editing Unit := do
  modify fun editor =>
    { editor with history := editor.history.post command, edited := true }
  if command.needsRedisplay then notify .treeUpdated
  notify .selectionChanged

/-- Records changes of attributes, unless there are none. -/
def recordChanges (kind : ValueKind) (changes : List Change) : Editing Unit :=
  if changes.isEmpty then return () else record (.values kind changes)

/-- The selected fields; the root by itself if it is selected. -/
def highlighted (editor : Editor) : List NodeId := editor.selection.highlighted editor.form

/-- Where new fields go: after the last selected field, or at the end of the root's children if
no field is selected. -/
def insertionPoint (editor : Editor) : Position :=
  let afterLast := editor.selection.fields.getLast?.bind fun last =>
    (editor.form.parent? last).bind fun parent =>
      (editor.form.siblingIndex? last).map fun index => (⟨parent, index + 1⟩ : Position)
  afterLast.getD ⟨editor.form.root, (editor.form.children editor.form.root).length⟩

end Editor

end FormEditor
