import FormEditor.Editor.Basic
import FormEditor.Form.Locks

/-!
# Questions to the editor

What can be asked about the form and the selection without changing anything.
-/

set_option autoImplicit false

namespace FormEditor.Editor

/-- An attribute of a field. -/
def attribute? (editor : Editor) (id : NodeId) (name : String) : Option String :=
  (editor.form.get? id).bind fun field => field.attributes.get? name

/-- The fields with a value in which a word occurs, in document order; case is ignored. -/
def search (editor : Editor) (word : String) : List NodeId :=
  (editor.form.preorder.filter fun field => field.payload.mentions word).map Field.id

/-- Whether a selected field is locked, by itself or from above. -/
def areHighlightedLocked (editor : Editor) : Bool :=
  editor.form.isSetInLineage AttributeName.lockedAt editor.highlighted

/-- Whether a field above the selected ones is locked. -/
def areAncestorsLocked (editor : Editor) : Bool :=
  editor.form.isSetAbove AttributeName.lockedAt editor.highlighted

/-- The lock details of the selected fields that are locked. -/
def lockedDetails (editor : Editor) : List Attributes :=
  editor.form.lockedDetails editor.highlighted

/-- The strongest lock in the whole form. -/
def maxLockLevel (editor : Editor) : Option LockLevel :=
  Form.maxLockLevel editor.form.preorder

/-- The strongest lock among the selected fields. -/
def maxHighlightedLockLevel (editor : Editor) : Option LockLevel :=
  Form.maxLockLevel (editor.highlighted.filterMap editor.form.get?)

/-- The strongest lock below the selected fields. -/
def maxLockLevelBelow (editor : Editor) : Option LockLevel :=
  editor.form.maxSubtreeLockLevel (editor.highlighted.flatMap editor.form.children)

/-- Whether loading defaults for the whole form would overwrite a value. -/
def isAnyDefaultFilled (editor : Editor) : Bool :=
  Form.isAnyDefaultFilled editor.form.preorder

/-- Whether loading defaults for the selected fields would overwrite a value. -/
def isAnyHighlightedDefaultFilled (editor : Editor) : Bool :=
  Form.isAnyDefaultFilled (editor.highlighted.flatMap editor.form.descendants)

/-- The version stamped on the root. -/
def version? (editor : Editor) : Option String :=
  editor.attribute? editor.form.root AttributeName.version

end FormEditor.Editor
