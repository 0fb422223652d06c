import FormEditor.Form.Walk

/-!
# Runs of siblings

A run is an unbroken block of children of one field.  Every structural edit of several fields
works on a run.  `Form.run` finds the run that a list of ids stands for; the ids may come in
any order, but must have one parent and leave no gap.
-/

set_option autoImplicit false

namespace FormEditor

/-- An unbroken block of siblings, in sibling order. -/
structure Run where
  parent : NodeId
  start : Nat
  ids : List NodeId
deriving DecidableEq, Repr

/-- The index just past the last sibling of a run. -/
def Run.stop (run : Run) : Nat := run.start + run.ids.length

namespace Form

/-- The index of a field among the children of `parent`, paired with the field. -/
def placeUnder (form : Form) (parent id : NodeId) : Except Fault (Nat × NodeId) := do
  if (← form.field id).parent ≠ some parent then throw .mixedParents
  match form.siblingIndex? id with
  | none => throw (.detached id)
  | some index => return (index, id)

/-- The parent of the first of several ids, none of which may be the root. -/
def runParent (form : Form) (ids : List NodeId) : Except Fault NodeId :=
  match ids with
  | [] => .error .emptyRun
  | first :: _ =>
    if ids.contains form.root then .error .rootNotAllowed
    else do
      match (← form.field first).parent with
      | none => throw (.detached first)
      | some parent => return parent

/-- Several ids with their indices under `parent`. -/
def placesUnder (form : Form) (parent : NodeId) :
    List NodeId → Except Fault (List (Nat × NodeId))
  | [] => .ok []
  | id :: ids => do
    let place ← form.placeUnder parent id
    let places ← form.placesUnder parent ids
    return place :: places

/-- The run that a list of ids stands for. -/
def run (form : Form) (ids : List NodeId) : Except Fault Run := do
  let parent ← form.runParent ids
  let places ← form.placesUnder parent ids
  let sorted := places.mergeSort fun left right => left.1 ≤ right.1
  let start := (sorted.head?.map Prod.fst).getD 0
  if sorted.map Prod.fst ≠ List.range' start sorted.length then throw .notContiguous
  return { parent, start, ids := sorted.map Prod.snd }

end Form

end FormEditor
