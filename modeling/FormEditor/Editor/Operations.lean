import FormEditor.Editor.Basic

/-!
# Operations of the editor

The operations that a user calls.  A recorded operation reads the selection, edits the form,
adjusts the selection, and records the command.  If there is nothing to do, or the edit runs
into the edge of the form, nothing is recorded and nobody is told.
-/

set_option autoImplicit false

namespace FormEditor

/-- The named actions that need nothing but the selection. -/
inductive Action where
  | moveFieldsUp
  | moveFieldsDown
  | deleteFields
  | addNewField
  | demoteFields
  | promoteFields
  | duplicateFields
  | undo
  | redo
  | importFields
  | loadDefaults
  | loadDefaultsHighlighted
  | clearFields
  | clearFieldsHighlighted
  | requiredFields
deriving DecidableEq, Repr

namespace Action

/-- All actions, in the order in which they are offered. -/
def all : List Action :=
  [moveFieldsUp, moveFieldsDown, deleteFields, addNewField, demoteFields, promoteFields,
    duplicateFields, undo, redo, importFields, loadDefaults, loadDefaultsHighlighted, clearFields,
    clearFieldsHighlighted, requiredFields]

/-- The label shown for an action. -/
def label : Action → String
  | moveFieldsUp => "Move Fields Up"
  | moveFieldsDown => "Move Fields Down"
  | deleteFields => "Delete Fields"
  | addNewField => "Add New Field"
  | demoteFields => "Demote Fields"
  | promoteFields => "Promote Fields"
  | duplicateFields => "Duplicate Fields"
  | undo => "Undo Last Action"
  | redo => "Redo"
  | importFields => "Import Fields"
  | loadDefaults => "Load Default Values"
  | loadDefaultsHighlighted => "Load Defaults for Highlighted Fields"
  | clearFields => "Clear Fields"
  | clearFieldsHighlighted => "Clear Fields for Highlighted Fields"
  | requiredFields => "Set Highlighted Fields as mandatory"

end Action

namespace Editor

/-! ## Adding and removing fields -/

/-- Adds a field where new fields go, and selects it. -/
def addField : Editing NodeId := do
  let editor ← get
  let place := editor.insertionPoint
  let field := Field.fresh editor.supply.id editor.settings.newField.attributes
  let id ← creating fun supply => do
    let id ← Form.insertNew place.parent place.index field
    return (id, supply.after 1)
  selecting (.select id true)
  record (.insert .add ⟨place, [id]⟩ [])
  return id

/-- Removes the selected fields. -/
def deleteFields : Editing Unit := do
  let ids := (← get).selection.fields
  if ids.isEmpty then return ()
  -- checked beforehand, so that a refused deletion leaves the selection as it is
  discard (onForm (Edit.ask fun form => form.run ids))
  modify fun editor =>
    { editor with form := editor.selection.unmark editor.form, selection := .empty }
  let removals ← onForm (Form.deleteFields ids)
  record (.ofRemovals removals)

/-- Copies the selected fields, puts the copies after them, and selects the copies. -/
def duplicateFields : Editing Unit := do
  let editor ← get
  let ids := editor.selection.fields
  if ids.isEmpty then return ()
  let placement ← creating (Form.duplicate ids editor.settings.duplicateLocks)
  selecting (.selectRun placement.ids)
  record (.insert .duplicate placement [])

/-- Copies fields from elsewhere to where new fields go, and selects the copies. -/
def importFields (source : FieldMap) (ids : List NodeId) : Editing (List NodeId) := do
  if ids.isEmpty then return []
  let place := (← get).insertionPoint
  let placement ← creating (Form.importFields source ids place)
  selecting (.selectRun placement.ids)
  record (.insert .importing placement [])
  return placement.ids

/-! ## Moving fields -/

/-- Moves the selected fields past a neighbour. -/
def moveFields (direction : Direction) : Editing Unit := do
  let ids := (← get).selection.fields
  if ids.isEmpty then return ()
  let outcome ← onForm (match direction with
    | .up => Form.moveUp ids
    | .down => Form.moveDown ids)
  match outcome with
  | .applied run => record (.move direction run.ids)
  | .atEdge _ => return ()

/-- Moves the selected fields out of their parent, right after it. -/
def promoteFields : Editing Unit := do
  let ids := (← get).selection.fields
  if ids.isEmpty then return ()
  match ← onForm (Form.promote ids) with
  | .applied way => record (.promote way)
  | .atEdge _ => return ()

/-- Moves the selected fields to the end of the children of their preceding sibling. -/
def demoteFields : Editing Unit := do
  let ids := (← get).selection.fields
  if ids.isEmpty then return ()
  match ← onForm (Form.demote ids) with
  | .applied way => record (.demote way)
  | .atEdge _ => return ()

/-! ## Editing values -/

/-- Carries out an edit of values and records its changes. -/
def editValues (kind : ValueKind) (edit : Edit (List Change)) : Editing Unit := do
  recordChanges kind (← onForm edit)

/-- Loads the default values of the whole form. -/
def loadDefaults : Editing Unit := do
  editValues .loadDefaults (Form.loadDefaults [(← get).form.root])

/-- Loads the default values at and below the selected fields. -/
def loadDefaultsHighlighted : Editing Unit := do
  editValues .loadDefaults (Form.loadDefaults (← get).highlighted)

/-- Clears the values of the whole form. -/
def clearFields : Editing Unit := do
  editValues .clearFields (Form.clearValues [(← get).form.root])

/-- Clears the values at and below the selected fields. -/
def clearFieldsHighlighted : Editing Unit := do
  editValues .clearFields (Form.clearValues (← get).highlighted)

/-- Multiplies the values of the selected number fields. -/
def multiplyValues (factor : Binary64) : Editing Unit := do
  editValues .multiplyValues (Form.multiplyValues (← get).highlighted factor)

/-- Locks the selected fields at the given time. -/
def lockFields (details : List (String × String)) (now : Int) : Editing Unit := do
  editValues .lockFields (Form.lockFields (← get).highlighted details now)

/-- Unlocks the selected fields. -/
def unlockFields : Editing Unit := do
  editValues .unlockFields (Form.unlockFields (← get).highlighted)

/-- Marks the selected fields as required. -/
def requireFields : Editing Unit := do
  editValues .requiredFields (Form.setRequired (← get).highlighted true)

/-- Writes one attribute of a field, or takes it away.  Without `recorded` the change cannot be
undone and does not count as an edit; then only a change of the kind of the field is told. -/
def setAttribute (id : NodeId) (name : String) (value : Option String) (recorded : Bool) :
    Editing Unit := do
  let changes ← onForm (Form.setAttribute id name value)
  if changes.isEmpty then return ()
  if recorded then record (.values (.setAttribute name) changes)
  else if name = AttributeName.inputType then notify .treeUpdated

/-- Stamps the root with a version; this cannot be undone. -/
def setVersion (version : String) : Editing Unit := do
  discard (onForm (Form.setAttribute (← get).form.root AttributeName.version (some version)))
  modify fun editor => { editor with edited := true }

/-- Says whether the form counts as edited. -/
def setEdited (edited : Bool) : Editing Unit :=
  modify fun editor => { editor with edited }

/-! ## Selecting -/

/-- Selects a field. -/
def select (id : NodeId) (clearOthers : Bool) : Editing Unit := do
  selecting (.select id clearOthers)
  notify .selectionChanged

/-- Selects nothing. -/
def clearSelection : Editing Unit := do
  modify fun editor =>
    { editor with form := editor.selection.unmark editor.form, selection := .empty }
  notify .selectionChanged

/-! ## Undo and redo -/

/-- The selection and the form after a replay: what the command asks for if that is a run, else
what is left of the selection. -/
def reselected (selection : Selection) (ids : List NodeId) (form : Form) : Selection × Form :=
  if ids.isEmpty then selection.prune form
  else
    match selection.selectRun ids form with
    | .ok selected form => (selected, form)
    | .error _ form => selection.prune form

/-- Replays the history in one direction. -/
def replayHistory (replay : Replay) :
    EStateM EditError (History Command × Form) (Option Command) :=
  match replay with
  | .undo => History.undo Command.revert
  | .redo => History.redo Command.apply

/-- Runs an operation on the history and the form. -/
def onHistory {α : Type} (operation : EStateM EditError (History Command × Form) α) : Editing α :=
  fun editor =>
    match operation (editor.history, editor.form) with
    | .ok result (history, form) => .ok result { editor with history, form }
    | .error error (history, form) => .error error { editor with history, form }

/-- Undoes or redoes one command, if there is one. -/
def replay (direction : Replay) : Editing Unit := do
  match ← onHistory (replayHistory direction) with
  | none => return ()
  | some command =>
    modify fun editor =>
      let (selection, form) :=
        reselected editor.selection (command.selectionAfter direction) editor.form
      { editor with selection, form, edited := true }
    if command.needsRedisplay then notify .treeUpdated
    notify .selectionChanged

/-! ## Actions -/

/-- Runs a named action.  Importing needs a source and does nothing here. -/
def act : Action → Editing Unit
  | .moveFieldsUp => moveFields .up
  | .moveFieldsDown => moveFields .down
  | .deleteFields => deleteFields
  | .addNewField => discard addField
  | .demoteFields => demoteFields
  | .promoteFields => promoteFields
  | .duplicateFields => duplicateFields
  | .undo => replay .undo
  | .redo => replay .redo
  | .importFields => return ()
  | .loadDefaults => loadDefaults
  | .loadDefaultsHighlighted => loadDefaultsHighlighted
  | .clearFields => clearFields
  | .clearFieldsHighlighted => clearFieldsHighlighted
  | .requiredFields => requireFields

/-- Puts another form in the place of the form.  What was selected and what could be undone
belonged to the old form and is forgotten. -/
def setForm (form : Form) : Editing Unit := do
  modify fun editor =>
    { editor with
      form, selection := .empty, history := editor.history.clear, edited := false }
  notify .treeUpdated
  notify .selectionChanged

end Editor

end FormEditor
