import FormEditor.Form.Walk

/-!
# Locks and completeness

Questions about a form.  A field counts as locked when it, or a field above it, carries the
time stamp of a lock.  Further questions ask how strongly fields are locked, whether a required
field is still empty, and whether loading defaults would overwrite a value.
-/

set_option autoImplicit false

namespace FormEditor.Form

/-- Whether a field carries an attribute. -/
def carries (form : Form) (name : String) (id : NodeId) : Bool :=
  (form.get? id).any fun field => field.attributes.contains name

/-- Whether a field strictly above one of the given ones carries an attribute. -/
def isSetAbove (form : Form) (name : String) (ids : List NodeId) : Bool :=
  ids.any fun id => (form.ancestors id).any (form.carries name)

/-- Whether one of the given fields, or a field above one of them, carries an attribute. -/
def isSetInLineage (form : Form) (name : String) (ids : List NodeId) : Bool :=
  ids.any fun id => form.carries name id || form.isSetAbove name [id]

/-- Whether a field is locked, by itself or from above. -/
def isLocked (form : Form) (id : NodeId) : Bool :=
  form.isSetInLineage AttributeName.lockedAt [id]

/-- The strongest lock of several fields, each taken by itself. -/
def maxLockLevel (fields : List Field) : Option LockLevel :=
  LockLevel.strongest (fields.filterMap fun field => field.payload.lockLevel?)

/-- The strongest lock at or below the given fields. -/
def maxSubtreeLockLevel (form : Form) (ids : List NodeId) : Option LockLevel :=
  maxLockLevel (ids.flatMap form.descendants)

/-- The attributes that describe the lock of a field, as far as it has them. -/
def lockDetails (field : Field) : Attributes :=
  Attributes.ofList
    ((AttributeName.elementName :: AttributeName.lock).filterMap fun name =>
      (field.attributes.get? name).map fun value => (name, value))

/-- The lock details of those given fields that are locked. -/
def lockedDetails (form : Form) (ids : List NodeId) : List Attributes :=
  ((ids.filter form.isLocked).filterMap form.get?).map lockDetails

/-- Whether a required field has not been filled in. -/
def isAnyRequiredEmpty (form : Form) : Bool :=
  form.preorder.any fun field =>
    field.payload.isTrue AttributeName.required && !field.payload.isFilled

/-- Whether one of the fields has both a default value and a value that is not empty. -/
def isAnyDefaultFilled (fields : List Field) : Bool :=
  fields.any fun field =>
    field.payload.default?.isSome && field.payload.current?.any fun value => !value.isEmpty

end FormEditor.Form
