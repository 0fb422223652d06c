import FormEditor.NodeId

/-!
# Why an edit is refused

A `Fault` names the precondition that a call has broken, with the ids that broke it.  Faults
that concern the links between fields are listed as `Defect`s.  The wording is given by
`Fault.message`, which is told how to name a field.

An edit can also run into the edge of the form.  That is no fault: the call is legitimate and
there is simply nothing to do (`Edge`, `Outcome`).
-/

set_option autoImplicit false

namespace FormEditor

/-- Something wrong with the links between fields. -/
inductive Defect where
  /-- A field is not among the children of its parent. -/
  | missing (id : NodeId)
  /-- A field would become its own ancestor. -/
  | beneathItself (id : NodeId)
  /-- A field to be moved under `parent` is there already. -/
  | alreadyUnder (id parent : NodeId)
  | rootHasParent
  /-- A field is stored under an id that is not its own. -/
  | storedUnder (id key : NodeId)
  /-- A child names another parent than the field that lists it. -/
  | notPointingBack (child parent : NodeId)
  /-- A field is not listed exactly once by its parent. -/
  | listedTimes (id : NodeId) (count : Nat) (parent : NodeId)
  /-- A field other than the root has no parent. -/
  | noParent (id : NodeId)
  | unreachable
deriving DecidableEq, Repr

/-- The precondition that a call has broken. -/
inductive Fault where
  | nodeNotFound (id : NodeId)
  | indexOutOfRange (parent : NodeId) (index count : Nat)
  | rootNotAllowed
  | detached (id : NodeId)
  | alreadyAttached (id : NodeId)
  | emptyRun
  | mixedParents
  | notContiguous
  | selectionParentMismatch (id : NodeId)
  | defect (defect : Defect)
deriving DecidableEq, Repr

/-- The wording of a defect. -/
def Defect.message (name : NodeId → String) : Defect → String
  | .missing id => s!"{name id} missing from its parent"
  | .beneathItself id => s!"cannot move {name id} beneath itself"
  | .alreadyUnder id parent => s!"{name id} already lives under {name parent}"
  | .rootHasParent => "root has a parent"
  | .storedUnder id key => s!"{name id} stored under {name key}"
  | .notPointingBack child parent => s!"{name child} does not point back to {name parent}"
  | .listedTimes id count parent => s!"{name id} appears {count} times under {name parent}"
  | .noParent id => s!"{name id} has no parent"
  | .unreachable => "unreachable nodes in storage"

/-- The wording of a fault. -/
def Fault.message (name : NodeId → String) : Fault → String
  | .nodeNotFound id => s!"Node not found: {name id}"
  | .indexOutOfRange parent index count =>
    s!"Index {index} out of range for parent {name parent} with {count} children"
  | .rootNotAllowed => "Operation not allowed on the root node"
  | .detached id => s!"Node {name id} is not attached to the tree"
  | .alreadyAttached id => s!"Node {name id} is already attached to a parent"
  | .emptyRun => "Empty sibling run"
  | .mixedParents => "Nodes do not share a parent"
  | .notContiguous => "Nodes are not a contiguous run of siblings"
  | .selectionParentMismatch id =>
    s!"Node {name id} is not a sibling of the current selection"
  | .defect cause => s!"Tree structure error: {cause.message name}"

/-! ## The edge of a form -/

/-- Why there is nowhere to move to. -/
inductive Edge where
  | noPrecedingSibling
  | noFollowingSibling
  | noGrandparent
deriving DecidableEq, Repr

/-- The wording of an edge. -/
def Edge.message : Edge → String
  | .noPrecedingSibling => "no preceding sibling"
  | .noFollowingSibling => "no following sibling"
  | .noGrandparent => "no grandparent"

/-- What became of an edit that may run into the edge of the form. -/
inductive Outcome (α : Type) where
  | applied (result : α)
  | atEdge (edge : Edge)
deriving DecidableEq, Repr

end FormEditor
