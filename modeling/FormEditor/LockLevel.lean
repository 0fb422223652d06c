import FormEditor.Text.Blank

/-!
# Lock levels

A locked field either has a fixed structure while its value may still be entered, or may not
be edited at all.  Any text that is not blank locks a field; all but one of them lock the
structure only.
-/

set_option autoImplicit false

namespace FormEditor

/-- How strongly a field is locked, from weak to strong. -/
inductive LockLevel where
  /-- The structure is fixed; values may be entered. -/
  | template
  /-- Nothing may be edited. -/
  | allAttributes
deriving DecidableEq, Ord, Repr, Inhabited

namespace LockLevel

/-- The text that stands for a level in an attribute. -/
def text : LockLevel → String
  | template => "lockedTemplate"
  | allAttributes => "lockedAllAttributes"

/-- The level that a text stands for; a blank text stands for none. -/
def ofText? (written : String) : Option LockLevel :=
  let name := Text.trim written
  if name = "" then none
  else if name = allAttributes.text then some allAttributes
  else some template

/-- The stronger of two levels. -/
def stronger : LockLevel → LockLevel → LockLevel
  | template, template => template
  | _, _ => allAttributes

/-- The strongest of several levels. -/
def strongest : List LockLevel → Option LockLevel
  | [] => none
  | level :: levels => some (levels.foldl stronger level)

end LockLevel

end FormEditor
