import FormEditor.Attributes
import FormEditor.LockLevel
import FormEditor.Text.Lowercase
import FormEditor.Vocabulary

/-!
# What a field holds

A payload is a bag of attributes together with the name of the attribute that holds the
current value.  The editing actions see the content of a field only through it.
-/

set_option autoImplicit false

namespace FormEditor

/-- A bag of attributes, and which of them holds the value entered so far. -/
structure Payload where
  attributes : Attributes
  valueName : String := AttributeName.value
deriving DecidableEq, Repr, Inhabited

namespace Payload

/-- The kind of the field. -/
def inputType? (payload : Payload) : Option String :=
  payload.attributes.get? AttributeName.inputType

/-- The name shown for the field. -/
def name? (payload : Payload) : Option String :=
  payload.attributes.get? AttributeName.elementName

/-- The value that loading defaults puts into the field. -/
def default? (payload : Payload) : Option String :=
  payload.attributes.get? AttributeName.defaultValue

/-- The value entered so far. -/
def current? (payload : Payload) : Option String :=
  payload.attributes.get? payload.valueName

/-- Whether an attribute says `true`, in any case of letters. -/
def isTrue (payload : Payload) (name : String) : Bool :=
  (payload.attributes.get? name).any Text.isTrue

/-- Whether a value has been entered that is not blank. -/
def isFilled (payload : Payload) : Bool :=
  payload.current?.any fun value => !Text.isAllBlank value

/-- How strongly the field itself is locked. -/
def lockLevel? (payload : Payload) : Option LockLevel :=
  (payload.attributes.get? AttributeName.lockLevel).bind LockLevel.ofText?

/-- Whether a word occurs in a value of the bag when case is ignored. -/
def mentions (payload : Payload) (word : String) : Bool :=
  payload.attributes.entries.any fun entry => Text.containsIgnoringCase entry.2 word

end Payload

end FormEditor
