import FormEditor.Form.Links
import FormEditor.Form.Run

/-!
# Rearranging runs

Moving a run of siblings about: one place up or down among its siblings, one level up or down
in the form, or to any other place.  A move up or down is carried out by moving the one
sibling that it passes.
-/

set_option autoImplicit false

namespace FormEditor

/-- A run that changed its level: where it stood and where it stands. -/
structure Relocation where
  ids : List NodeId
  source : Position
  target : Position
deriving DecidableEq, Repr

namespace Form

/-- Passes a run over its preceding sibling. -/
def moveUp (ids : List NodeId) : Edit (Outcome Run) := do
  let run ← Edit.ask fun form => form.run ids
  if run.start = 0 then return .atEdge .noPrecedingSibling
  match (← get).child? run.parent (run.start - 1) with
  | none => throw .notContiguous
  | some preceding =>
    relink preceding run.parent (run.stop - 1)
    return .applied { run with start := run.start - 1 }

/-- Passes a run over its following sibling. -/
def moveDown (ids : List NodeId) : Edit (Outcome Run) := do
  let run ← Edit.ask fun form => form.run ids
  match (← get).child? run.parent run.stop with
  | none => return .atEdge .noFollowingSibling
  | some following =>
    relink following run.parent run.start
    return .applied { run with start := run.start + 1 }

/-- Takes a run out of its parent and puts it right after the parent. -/
def promote (ids : List NodeId) : Edit (Outcome Relocation) := do
  let run ← Edit.ask fun form => form.run ids
  match (← get).parent? run.parent with
  | none => return .atEdge .noGrandparent
  | some grandparent =>
    match (← get).siblingIndex? run.parent with
    | none => throw (.detached run.parent)
    | some parentIndex =>
      relinkAll grandparent (parentIndex + 1) run.ids
      return .applied
        { ids := run.ids
          source := ⟨run.parent, run.start⟩
          target := ⟨grandparent, parentIndex + 1⟩ }

/-- Puts a run at the end of the children of its preceding sibling. -/
def demote (ids : List NodeId) : Edit (Outcome Relocation) := do
  let run ← Edit.ask fun form => form.run ids
  if run.start = 0 then return .atEdge .noPrecedingSibling
  match (← get).child? run.parent (run.start - 1) with
  | none => throw .notContiguous
  | some preceding =>
    let index := ((← get).children preceding).length
    relinkAll preceding index run.ids
    return .applied
      { ids := run.ids
        source := ⟨run.parent, run.start⟩
        target := ⟨preceding, index⟩ }

/-- Checks that a field may be moved under `parent` from somewhere else. -/
def checkMovable (form : Form) (parent id : NodeId) : Except Fault Unit := do
  if id = form.root then throw .rootNotAllowed
  if (← form.field id).parent = some parent then throw (.defect (.alreadyUnder id parent))
  if id = parent || form.isAncestor id parent then throw (.defect (.beneathItself id))

/-- Checks that an index is at most the number of children of `parent`. -/
def checkIndex (form : Form) (place : Position) : Except Fault Unit := do
  let count := (← form.field place.parent).children.length
  if count < place.index then throw (.indexOutOfRange place.parent place.index count)

/-- Moves fields to consecutive places under a parent that none of them has yet. -/
def moveRun (ids : List NodeId) (target : Position) : Edit Unit := do
  Edit.ask fun form => form.checkIndex target
  Edit.ask fun form => ids.forM (form.checkMovable target.parent)
  relinkAll target.parent target.index ids

end Form

end FormEditor
