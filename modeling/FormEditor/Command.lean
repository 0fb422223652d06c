import FormEditor.Form.Growth
import FormEditor.Form.Values
import FormEditor.History

/-!
# Commands

A command is the record of an edit that has been carried out.  It holds what is needed to take
the edit back (`revert`) and to carry it out again (`apply`): the fields that an insertion has
added, the branches that a deletion has removed, the way that a run has moved, or the changes
of attributes.

While an insertion is undone, or a deletion is in effect, the command holds the only copy of the
fields concerned.  A replay therefore changes the command as well as the form.
-/

set_option autoImplicit false

namespace FormEditor

/-- How fields came to be added. -/
inductive InsertKind where
  | add
  | duplicate
  | importing
deriving DecidableEq, Repr

/-- The direction of a move among siblings. -/
inductive Direction where
  | up
  | down
deriving DecidableEq, Repr

/-- The opposite direction. -/
def Direction.opposite : Direction → Direction
  | .up => .down
  | .down => .up

/-- Which action changed attributes. -/
inductive ValueKind where
  | setAttribute (name : String)
  | loadDefaults
  | clearFields
  | multiplyValues
  | lockFields
  | unlockFields
  | requiredFields
deriving DecidableEq, Repr

/-- The record of an edit that has been carried out. -/
inductive Command where
  /-- Fields were added; `held` are the branches taken out while this is undone. -/
  | insert (kind : InsertKind) (placement : Placement) (held : List Branch)
  /-- Fields were removed; `removals` are what was taken out while this is in effect. -/
  | delete (ids : List NodeId) (removals : List Removal)
  | move (direction : Direction) (ids : List NodeId)
  | promote (way : Relocation)
  | demote (way : Relocation)
  | values (kind : ValueKind) (changes : List Change)
deriving DecidableEq

/-- The direction in which a command is replayed. -/
inductive Replay where
  | undo
  | redo
deriving DecidableEq, Repr

/-! ## Failing replays -/

/-- Why a command does not fit the form. -/
inductive Mismatch where
  | nothingToInsert (title : String)
  | nothingToRestore (title : String)
  | atEdge (title : String) (edge : Edge)
  | notInPlace (count : Nat) (place : Position)
deriving DecidableEq, Repr

/-- The wording of a mismatch. -/
def Mismatch.message (name : NodeId → String) : Mismatch → String
  | .nothingToInsert title => s!"{title}: nothing to re-insert"
  | .nothingToRestore title => s!"{title}: nothing to restore"
  | .atEdge title edge => s!"{title}: {edge.message}"
  | .notInPlace count place =>
    s!"expected {count} fields under {name place.parent} at index {place.index}"

/-- Why an operation of the editor failed. -/
inductive EditError where
  | fault (fault : Fault)
  | mismatch (mismatch : Mismatch)
deriving DecidableEq, Repr

/-- The wording of an error. -/
def EditError.message (name : NodeId → String) : EditError → String
  | .fault cause => s!"Field tree error: {cause.message name}"
  | .mismatch cause => s!"Command replay failed: {cause.message name}"

namespace Command

/-! ## What a command tells about itself -/

/-- The record of a deletion. -/
def ofRemovals (removals : List Removal) : Command := .delete (removals.map Removal.id) removals

/-- The title shown for a command. -/
def title : Command → String
  | .insert .add _ _ => "Add New Field"
  | .insert .duplicate _ _ => "Duplicate Fields"
  | .insert .importing _ _ => "Import Fields"
  | .delete _ _ => "Delete Fields"
  | .move .up _ => "Move Fields Up"
  | .move .down _ => "Move Fields Down"
  | .promote _ => "Promote Fields"
  | .demote _ => "Demote Fields"
  | .values (.setAttribute name) _ => s!"Edit {name}"
  | .values .loadDefaults _ => "Load Default Values"
  | .values .clearFields _ => "Clear Fields"
  | .values .multiplyValues _ => "Multiply Values"
  | .values .lockFields _ => "Lock Fields"
  | .values .unlockFields _ => "Unlock Fields"
  | .values .requiredFields _ => "Set Required Fields"

/-- The fields to select after a replay.  None means that the selection is kept. -/
def selectionAfter : Command → Replay → List NodeId
  | .insert _ placement _, .redo => placement.ids
  | .insert _ _ _, .undo => []
  | .delete ids _, .undo => ids
  | .delete _ _, .redo => []
  | .move _ ids, _ => ids
  | .promote way, _ | .demote way, _ => way.ids
  | .values _ _, _ => []

/-- Whether a command changes the shape of the form. -/
def isStructural : Command → Bool
  | .values _ _ => false
  | _ => true

/-- Whether views of the form have to be drawn anew: its shape or the kind of a field has
changed. -/
def needsRedisplay : Command → Bool
  | .values _ changes => changes.any fun change => change.name = AttributeName.inputType
  | _ => true

/-! ## Replaying -/

/-- Lets an edit of the form be part of a replay. -/
def onForm {α : Type} (edit : Edit α) : EStateM EditError Form α := fun form =>
  match edit form with
  | .ok result form => .ok result form
  | .error fault form => .error (.fault fault) form

/-- Checks that fields are the children at a place, in order. -/
def expectAt (place : Position) (ids : List NodeId) : EStateM EditError Form Unit := do
  let field ← onForm (Edit.ask fun form => form.field place.parent)
  let found := (field.children.drop place.index).take ids.length
  if field.children.length < place.index + ids.length ∨ found ≠ ids then
    throw (.mismatch (.notInPlace ids.length place))

/-- Moves a run from one place to another, if it is where it should be. -/
def follow (ids : List NodeId) (source target : Position) : EStateM EditError Form Unit := do
  expectAt source ids
  onForm (Form.moveRun ids target)

/-- Moves a run among its siblings; there must be somewhere to move to. -/
def shift (title : String) (direction : Direction) (ids : List NodeId) :
    EStateM EditError Form Unit := do
  let outcome ← onForm (match direction with
    | .up => Form.moveUp ids
    | .down => Form.moveDown ids)
  match outcome with
  | .applied _ => return ()
  | .atEdge edge => throw (.mismatch (.atEdge title edge))

/-- Runs an edit of the form that gives the new state of the command. -/
def replacing (edit : EStateM EditError Form Command) : EStateM EditError (Command × Form) Unit :=
  fun (command, form) =>
    match edit form with
    | .ok command form => .ok () (command, form)
    | .error error form => .error error (command, form)

/-- Runs an edit of the form that leaves the command as it is. -/
def keeping (edit : EStateM EditError Form Unit) : EStateM EditError (Command × Form) Unit :=
  fun (command, form) =>
    match edit form with
    | .ok () form => .ok () (command, form)
    | .error error form => .error error (command, form)

/-- Carries out an edit that was taken back. -/
def apply : EStateM EditError (Command × Form) Unit := do
  let (command, _) ← get
  match command with
  | .insert kind placement held =>
    if held.length ≠ placement.ids.length then
      throw (.mismatch (.nothingToInsert command.title))
    keeping (discard (onForm (Edit.ask fun form => form.field placement.position.parent)))
    -- from here on the branches belong to the form
    modify fun (_, form) => (.insert kind placement [], form)
    keeping (onForm (Form.attachAll placement.position.parent placement.position.index held))
  | .delete ids _ =>
    replacing do
      let removals ← onForm (Form.deleteFields ids)
      return .delete ids removals
  | .move direction ids => keeping (shift command.title direction ids)
  | .promote way | .demote way => keeping (follow way.ids way.source way.target)
  | .values _ changes => keeping (onForm (Form.applyChanges changes))

/-- Takes an edit back. -/
def revert : EStateM EditError (Command × Form) Unit := do
  let (command, _) ← get
  match command with
  | .insert kind placement _ =>
    replacing do
      expectAt placement.position placement.ids
      let removals ← onForm (Form.detachAll placement.ids)
      return .insert kind placement (removals.map Removal.branch)
  | .delete ids removals =>
    if removals.length ≠ ids.length then
      throw (.mismatch (.nothingToRestore command.title))
    -- from here on the branches belong to the form
    modify fun (_, form) => (.delete ids [], form)
    keeping (discard (onForm (Form.restoreFields removals)))
  | .move direction ids => keeping (shift command.title direction.opposite ids)
  | .promote way | .demote way => keeping (follow way.ids way.target way.source)
  | .values _ changes => keeping (onForm (Form.revertChanges changes))

end Command

end FormEditor
