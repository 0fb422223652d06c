import FormEditor.Attributes
import FormEditor.Json.Printer
import FormEditor.Json.Reader
import FormEditor.Vocabulary

/-!
# Settings

The settings of an editor and their JSON form.  Every key may be left out and then has its
default; keys that are not known are passed over.
-/

set_option autoImplicit false

namespace FormEditor

/-- How much can be undone. -/
structure HistorySettings where
  /-- The number of edits that can be undone; zero is no limit. -/
  maxEntries : UInt64 := 100
deriving DecidableEq, Repr, Inhabited

/-- What a field is like that is added by an action. -/
structure NewFieldSettings where
  inputType : String := InputType.fixedStep
  elementName : String := "New Field"
deriving DecidableEq, Repr, Inhabited

/-- The settings of an editor. -/
structure Settings where
  history : HistorySettings := {}
  newField : NewFieldSettings := {}
  /-- Whether duplicated fields keep the attributes of a lock. -/
  duplicateLocks : Bool := false
deriving DecidableEq, Repr, Inhabited

/-- Why settings cannot be loaded. -/
inductive SettingsFault where
  /-- The file is missing or is not text. -/
  | unreadable
  /-- The text is not that of settings. -/
  | malformed
deriving DecidableEq, Repr

/-- The attributes of a new field. -/
def NewFieldSettings.attributes (settings : NewFieldSettings) : Attributes :=
  Attributes.ofList
    [(AttributeName.elementName, settings.elementName),
      (AttributeName.inputType, settings.inputType)]

/-! ## Writing -/

/-- The document for the history section. -/
def HistorySettings.toJson (settings : HistorySettings) : Json :=
  .ofMembers [("max_entries", .ofNat settings.maxEntries.toNat)]

/-- The document for the section on new fields. -/
def NewFieldSettings.toJson (settings : NewFieldSettings) : Json :=
  .ofMembers
    [("input_type", .ofString settings.inputType), ("element_name", .ofString settings.elementName)]

namespace Settings

/-- The document for settings. -/
def toJson (settings : Settings) : Json :=
  .ofMembers
    [("history", settings.history.toJson), ("new_field", settings.newField.toJson),
      ("duplicate_lock_attributes", .bool settings.duplicateLocks)]

/-- Writes settings as text. -/
def text (settings : Settings) : String := settings.toJson.indented

end Settings

/-! ## Reading -/

/-- The value of a part that may be missing. -/
def Json.partOr {α : Type} (missing : α) (read : Json → Option α) : Option Json → Option α
  | none => some missing
  | some document => read document

/-- The 64-bit number in a document. -/
def Json.uint64? (document : Json) : Option UInt64 :=
  document.nat?.bind fun number =>
    if number < UInt64.size then some (UInt64.ofNat number) else none

/-- The history section in a document. -/
def HistorySettings.ofJson? (document : Json) : Option HistorySettings :=
  (document.shape? ["max_entries"]).bind fun parts =>
    match parts with
    | [maxEntries] => do
      let maxEntries ← Json.partOr ({} : HistorySettings).maxEntries Json.uint64? maxEntries
      return { maxEntries }
    | _ => none

/-- The section on new fields in a document. -/
def NewFieldSettings.ofJson? (document : Json) : Option NewFieldSettings :=
  (document.shape? ["input_type", "element_name"]).bind fun parts =>
    match parts with
    | [inputType, elementName] => do
      let inputType ← Json.partOr ({} : NewFieldSettings).inputType Json.string? inputType
      let elementName ← Json.partOr ({} : NewFieldSettings).elementName Json.string? elementName
      return { inputType, elementName }
    | _ => none

namespace Settings

/-- The settings in a document. -/
def ofJson? (document : Json) : Option Settings :=
  (document.shape? ["history", "new_field", "duplicate_lock_attributes"]).bind fun parts =>
    match parts with
    | [history, newField, duplicateLocks] => do
      let history ← Json.partOr {} HistorySettings.ofJson? history
      let newField ← Json.partOr {} NewFieldSettings.ofJson? newField
      let duplicateLocks ← Json.partOr false Json.bool? duplicateLocks
      return { history, newField, duplicateLocks }
    | _ => none

/-- Reads settings from text. -/
def ofText? (text : String) : Option Settings := (Json.parse? text).bind ofJson?

/-- Reads settings from the contents of a file, if there is one. -/
def ofFile (contents : Option ByteArray) : Except SettingsFault Settings :=
  match contents.bind String.fromUTF8? with
  | none => .error .unreadable
  | some text =>
    match ofText? text with
    | none => .error .malformed
    | some settings => .ok settings

end Settings

end FormEditor
