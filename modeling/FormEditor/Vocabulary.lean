/-!
# Names that the editing actions know

A field carries any attributes under any names.  The editing actions themselves read and
write only the names collected here, and know only the kinds of field collected here.
-/

set_option autoImplicit false

namespace FormEditor

namespace AttributeName

/-- The name shown for the field. -/
def elementName : String := "elementName"

/-- The kind of the field. -/
def inputType : String := "inputType"

/-- The value that loading defaults puts into the field. -/
def defaultValue : String := "default"

/-- The value entered so far. -/
def value : String := "value"

/-- Holds `true` on a field that must be filled in. -/
def required : String := "required"

/-- When the field was locked, in milliseconds of UTC. -/
def lockedAt : String := "lockedFieldUTC"

/-- Who locked the field. -/
def lockedBy : String := "lockedFieldUserName"

/-- How strongly the field is locked. -/
def lockLevel : String := "lockLevel"

/-- The version stamped on the root. -/
def version : String := "version"

/-- The attributes that describe a lock; copies of a field do not inherit them. -/
def lock : List String := [lockedAt, lockedBy, lockLevel]

end AttributeName

namespace InputType

/-- The title at the root of a form. -/
def protocolTitle : String := "ProtocolTitle"

/-- A step of the form. -/
def fixedStep : String := "FixedStep"

/-- A field for numbers; the only kind whose value can be multiplied. -/
def numberField : String := "NumberField"

end InputType

end FormEditor
