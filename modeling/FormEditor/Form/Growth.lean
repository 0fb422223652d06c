import FormEditor.Form.Arrangement

/-!
# Adding and removing fields

New fields, copies of fields, and the removal of fields together with what is needed to put
them back.
-/

set_option autoImplicit false

namespace FormEditor

/-- A block of fields that were added as consecutive children of one parent. -/
structure Placement where
  position : Position
  ids : List NodeId
deriving DecidableEq, Repr

/-- A branch that was taken out of a form, and the place it stood at. -/
structure Removal where
  position : Position
  branch : Branch
deriving DecidableEq

/-- The field that was taken out. -/
def Removal.id (removal : Removal) : NodeId := removal.branch.root

namespace Form

/-! ## Adding -/

/-- Whether a field has no links and is not in the form. -/
def isNew (form : Form) (field : Field) : Bool :=
  field.parent.isNone && field.children.isEmpty && !form.contains field.id

/-- Adds a new field under `parent` at an index. -/
def insertNew (parent : NodeId) (index : Nat) (field : Field) : Edit NodeId := do
  Edit.ask fun form =>
    if form.isNew field then .ok () else .error (.alreadyAttached field.id)
  attach parent index (Branch.single field)
  return field.id

/-- Attaches branches at consecutive indices under `parent`. -/
def attachAll (parent : NodeId) : Nat → List Branch → Edit Unit
  | _, [] => return ()
  | index, branch :: branches => do
    attach parent index branch
    attachAll parent (index + 1) branches

/-- The attributes that copies of a field do not take over. -/
def strippedNames (keepLocks : Bool) : List String := if keepLocks then [] else AttributeName.lock

/-- Copies a run and puts the copies right after it; without `keepLocks` the copies are not
locked. -/
def duplicate (ids : List NodeId) (keepLocks : Bool) (supply : Supply) :
    Edit (Placement × Supply) := do
  let run ← Edit.ask fun form => form.run ids
  let (copies, supply) ← Edit.ask fun form => FieldMap.copyAll form.fields run.ids supply
  attachAll run.parent run.stop (copies.map (Branch.strip · (strippedNames keepLocks)))
  return (⟨⟨run.parent, run.stop⟩, copies.map Branch.root⟩, supply)

/-- Copies fields from elsewhere to consecutive places. -/
def importFields (source : FieldMap) (ids : List NodeId) (target : Position) (supply : Supply) :
    Edit (Placement × Supply) := do
  Edit.ask fun form => form.checkIndex target
  let (copies, supply) ← Edit.ask fun _ => FieldMap.copyAll source ids supply
  attachAll target.parent target.index copies
  return (⟨target, copies.map Branch.root⟩, supply)

/-! ## Removing -/

/-- Checks that a field may be taken out. -/
def checkRemovable (form : Form) (id : NodeId) : Except Fault Unit :=
  if id = form.root then .error .rootNotAllowed
  else if form.contains id then .ok ()
  else .error (.detached id)

/-- The listed fields without repetitions and without those that lie below another listed
field. -/
def topmost (form : Form) (ids : List NodeId) : List NodeId :=
  ids.eraseDups.filter fun id => !(form.ancestors id).any ids.contains

/-- Detaches fields one after the other. -/
def detachAll : List NodeId → Edit (List Removal)
  | [] => return []
  | id :: ids => do
    let (position, branch) ← detach id
    let removals ← detachAll ids
    return ⟨position, branch⟩ :: removals

/-- Takes fields out of the form.  A field below another listed field goes out with it. -/
def deleteFields (ids : List NodeId) : Edit (List Removal) := do
  Edit.ask fun form => ids.forM form.checkRemovable
  detachAll ((← get).topmost ids)

/-- Puts fields back that were taken out, the last one first. -/
def restoreFields : List Removal → Edit (List NodeId)
  | [] => return []
  | removal :: removals => do
    let restored ← restoreFields removals
    attach removal.position.parent removal.position.index removal.branch
    return removal.id :: restored

end Form

end FormEditor
