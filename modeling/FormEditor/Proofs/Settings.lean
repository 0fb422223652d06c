import FormEditor.Proofs.Json.Spelling
import FormEditor.Settings

/-!
# Settings files

A settings file may be edited by hand: keys are taken out, keys that nobody knows are put in, and
the members of a record come in any order (`Settings.Edited`).

Main statement: what is read from such a file are the settings that it was written from, with each
part that was taken out replaced by its own default (`Settings.loading_law`).
-/

set_option autoImplicit false

namespace FormEditor

/-! ## Edited records -/

namespace Json

variable {members : List (String × Json)} {removed : List String} {document : Json}

/-- A document is a record as it is after an edit by hand.  Of the members of the original, those
under `removed` keys are gone; members under keys that the original does not have are added. -/
inductive EditOf (document original : Json) (removed : List String) : Prop where
  | intro {members added all : List (String × Json)} :
      original.members? = some members →
      (∀ member ∈ added, member.1 ∉ members.map Prod.fst) →
      document.members? = some all →
      all.Perm (members.filter (fun member => member.1 ∉ removed) ++ added) →
        EditOf document original removed

theorem EditOf.of_perm {added all : List (String × Json)}
    (unknown : ∀ member ∈ added, member.1 ∉ members.map Prod.fst)
    (order : all.Perm (members.filter (fun member => member.1 ∉ removed) ++ added)) :
    (ofMembers all).EditOf (ofMembers members) removed :=
  .intro (members?_ofMembers members) unknown (members?_ofMembers all) order

theorem EditOf.refl (members : List (String × Json)) :
    (ofMembers members).EditOf (.ofMembers members) [] := by
  refine @of_perm members [] [] members nofun ?_
  rw [List.append_nil, List.filter_eq_self.mpr (by simp)]

theorem shape?_of_members? (known : document.members? = some members) (keys : List String) :
    document.shape? keys = keys.mapM (atMostOnce? members) := by
  cases document with
  | record written => exact congrArg (Option.bind · _) known
  | _ => cases known

/-- What is under a key of the original after an edit. -/
theorem atMostOnce?_of_perm {added all : List (String × Json)} {member : String × Json}
    (distinct : (members.map Prod.fst).Nodup) (listed : member ∈ members)
    (unknown : ∀ other ∈ added, other.1 ∉ members.map Prod.fst)
    (order : all.Perm (members.filter (fun member => member.1 ∉ removed) ++ added)) :
    atMostOnce? all member.1 = some (if member.1 ∈ removed then none else some member.2) := by
  have none : added.filter (fun other => other.1 = member.1) = [] := by
    refine List.filter_eq_nil_iff.mpr fun other here same => unknown other here ?_
    exact of_decide_eq_true same ▸ List.mem_map_of_mem listed
  have found := order.filter fun other => other.1 = member.1
  rw [List.filter_append, none, List.append_nil, List.filter_comm, filter_key_eq distinct listed]
    at found
  unfold atMostOnce?
  split_ifs with gone
  · rw [List.filter_cons_of_neg (by simpa using gone)] at found
    rw [List.perm_nil.mp found]
  · rw [List.filter_cons_of_pos (by simpa using gone)] at found
    rw [List.perm_singleton.mp found]

theorem EditOf.shape?_eq (edit : document.EditOf (ofMembers members) removed)
    (distinct : (members.map Prod.fst).Nodup) :
    document.shape? (members.map Prod.fst) =
      some (members.map fun member => if member.1 ∈ removed then none else some member.2) := by
  obtain ⟨known, unknown, read, order⟩ := edit
  obtain rfl := Option.some.inj ((members?_ofMembers members).symm.trans known)
  rw [shape?_of_members? read]
  exact mapM_map fun member listed => atMostOnce?_of_perm distinct listed unknown order

/-- The value of a part after an edit that may have taken it out. -/
def keptOr {α : Type} (missing : α) (removed : List String) (key : String) (value : α) : α :=
  if key ∈ removed then missing else value

theorem partOr_kept {α : Type} {missing value : α} {read : Json → Option α} {key : String}
    (back : read document = some value) :
    partOr missing read (if key ∈ removed then none else some document) =
      some (keptOr missing removed key value) := by
  unfold keptOr
  split_ifs
  · rfl
  · exact back

/-- A written 64-bit number is read back. -/
theorem uint64?_ofNat (number : UInt64) : (ofNat number.toNat).uint64? = some number := by
  unfold uint64?
  rw [nat?_ofNat, Option.bind_some, if_pos number.toNat_lt_size, UInt64.ofNat_toNat]

end Json

/-! ## Edited settings -/

/-- The keys that are taken out of a settings file, of the whole and of its two sections. -/
structure Settings.Removal where
  keys : List String := []
  historyKeys : List String := []
  newFieldKeys : List String := []

section

variable {removed : List String} {document : Json}

/-- The history section with the default for each key that was taken out. -/
def HistorySettings.without (settings : HistorySettings) (removed : List String) :
    HistorySettings where
  maxEntries :=
    Json.keptOr ({} : HistorySettings).maxEntries removed "max_entries" settings.maxEntries

/-- The section on new fields with the default for each key that was taken out. -/
def NewFieldSettings.without (settings : NewFieldSettings) (removed : List String) :
    NewFieldSettings where
  inputType :=
    Json.keptOr ({} : NewFieldSettings).inputType removed "input_type" settings.inputType
  elementName :=
    Json.keptOr ({} : NewFieldSettings).elementName removed "element_name" settings.elementName

theorem HistorySettings.ofJson?_of_edit {settings : HistorySettings}
    (edit : document.EditOf settings.toJson removed) :
    ofJson? document = some (settings.without removed) := by
  have shape := Json.EditOf.shape?_eq edit (by simp)
  simp only [List.map_cons, List.map_nil] at shape
  unfold ofJson?
  rw [shape, Option.bind_some]
  dsimp only
  rw [Json.partOr_kept (Json.uint64?_ofNat settings.maxEntries)]
  rfl

theorem NewFieldSettings.ofJson?_of_edit {settings : NewFieldSettings}
    (edit : document.EditOf settings.toJson removed) :
    ofJson? document = some (settings.without removed) := by
  have shape := Json.EditOf.shape?_eq edit (by simp)
  simp only [List.map_cons, List.map_nil] at shape
  unfold ofJson?
  rw [shape, Option.bind_some]
  dsimp only
  rw [Json.partOr_kept (Json.string?_ofString settings.inputType), Option.bind_eq_bind,
    Option.bind_some, Json.partOr_kept (Json.string?_ofString settings.elementName)]
  rfl

end

namespace Settings

variable {settings : Settings} {removal : Removal} {document : Json}

/-- Settings with the default for each part that was taken out. -/
def without (settings : Settings) (removal : Removal) : Settings where
  history :=
    Json.keptOr {} removal.keys "history" (settings.history.without removal.historyKeys)
  newField :=
    Json.keptOr {} removal.keys "new_field" (settings.newField.without removal.newFieldKeys)
  duplicateLocks :=
    Json.keptOr false removal.keys "duplicate_lock_attributes" settings.duplicateLocks

/-- A document is that for settings as it is after an edit by hand, of the whole and of its
sections. -/
inductive Edited (settings : Settings) (removal : Removal) (document : Json) : Prop where
  | intro {history newField : Json} :
      history.EditOf settings.history.toJson removal.historyKeys →
      newField.EditOf settings.newField.toJson removal.newFieldKeys →
      document.EditOf
          (.ofMembers [("history", history), ("new_field", newField),
            ("duplicate_lock_attributes", .bool settings.duplicateLocks)])
          removal.keys →
        Edited settings removal document

theorem edited_toJson : settings.Edited {} settings.toJson :=
  .intro (.refl _) (.refl _) (.refl _)

theorem Edited.ofJson?_eq (edited : settings.Edited removal document) :
    ofJson? document = some (settings.without removal) := by
  obtain @⟨history, newField, historyEdit, newFieldEdit, edit⟩ := edited
  have shape := edit.shape?_eq (by simp)
  simp only [List.map_cons, List.map_nil] at shape
  unfold ofJson?
  rw [shape, Option.bind_some]
  dsimp only
  rw [Json.partOr_kept (HistorySettings.ofJson?_of_edit historyEdit), Option.bind_eq_bind,
    Option.bind_some, Json.partOr_kept (NewFieldSettings.ofJson?_of_edit newFieldEdit),
    Option.bind_eq_bind, Option.bind_some,
    Json.partOr_kept (show (Json.bool settings.duplicateLocks).bool? = _ from rfl)]
  rfl

theorem legible_toJson : settings.toJson.Legible := by
  have history : settings.history.toJson.Legible :=
    Json.legible_ofMembers (List.forall_mem_singleton.mpr (Json.legible_ofNat _))
  have newField : settings.newField.toJson.Legible :=
    Json.legible_ofMembers (List.forall_mem_cons.mpr
      ⟨Json.legible_ofString _, List.forall_mem_singleton.mpr (Json.legible_ofString _)⟩)
  refine Json.legible_ofMembers fun member listed => ?_
  simp only [List.mem_cons, List.not_mem_nil, or_false] at listed
  rcases listed with rfl | rfl | rfl
  · exact history
  · exact newField
  · exact Json.legible_bool _

/-- **Loading settings.**  Settings come back from the text that they are written as.  From every
text for a document that was edited by hand they come back with the default for each part that was
taken out; what was added under other keys makes no difference. -/
theorem loading_law (settings : Settings) :
    ofText? settings.text = some settings ∧
    ∀ removal document text, settings.Edited removal document → Json.Spells text document →
      ofText? text = some (settings.without removal) := by
  refine ⟨?_, fun removal document text edited spells => ?_⟩
  · unfold ofText? text
    rw [Json.parse?_indented legible_toJson, Option.bind_some, edited_toJson.ofJson?_eq]
    rfl
  · unfold ofText?
    rw [spells.parse?_eq, Option.bind_some, edited.ofJson?_eq]

/-- A whole section and a key of the other one are taken out of the file, and others are put in that
hold half a character and a number with an exponent. -/
theorem loading_law_partial :
    let settings : Settings := ⟨⟨5⟩, ⟨"TextField", "\"√2\"\n"⟩, true⟩
    let text := "\x7b\"theme\":[\"\\ud800\",null],\"new_field\":\x7b\"x\":-0.5e+3," ++
      "\"element_name\":\"\\\"√2\\\"\\n\"\x7d,\"duplicate_lock_attributes\":true\x7d"
    ofText? settings.text = some settings ∧
      ofText? text = some ⟨⟨100⟩, ⟨"FixedStep", "\"√2\"\n"⟩, true⟩ := by
  intro settings text
  let theme : String × Json := ("theme", .list [.text "\\ud800", .null])
  let extra : String × Json := ("x", .number "-0.5e+3")
  let newField : Json :=
    .ofMembers [extra, ("element_name", .ofString settings.newField.elementName)]
  let document : Json :=
    .ofMembers [theme, ("new_field", newField), ("duplicate_lock_attributes", .bool true)]
  have inner : newField.EditOf settings.newField.toJson ["input_type"] :=
    @Json.EditOf.of_perm _ _ [extra] _ (by simp [extra]) (.swap _ _ _)
  have outer : document.EditOf _ ["history"] :=
    @Json.EditOf.of_perm [("history", settings.history.toJson), ("new_field", newField),
      ("duplicate_lock_attributes", .bool true)] _ [theme] _ (by simp [theme])
      (@List.perm_append_comm _ [theme] _)
  have written : text = document.compact := by decide +kernel
  have half : Json.Quotable "\\ud800".toList := .cons (.digits (by decide)) .nil
  have digits : ∀ digit : Char, digit.isDigit → Json.Digits [digit] := fun digit isDigit =>
    ⟨List.cons_ne_nil _ _, List.forall_mem_singleton.mpr isDigit⟩
  have number : Json.Numeral "-0.5e+3".toList :=
    @Json.Numeral.parts ['-'] _ _ _ (by decide) .zero (.present (digits '5' rfl))
      (@Json.Exponent.present 'e' ['+'] _ (.inl rfl) (by decide) (digits '3' rfl))
  have proper : ∀ token ∈ document.tokens, token.Proper := by
    simp only [document, newField, theme, extra, Json.ofMembers, Json.ofString, Json.tokens,
      Json.memberTokens, Json.itemTokens, List.map_cons, List.map_nil, List.cons_append,
      List.nil_append, List.forall_mem_cons, List.not_mem_nil, false_implies, implies_true,
      Json.Token.Proper, Json.quotable_written, half, number, and_self]
  have spells : Json.Spells text document := by
    refine ⟨proper, ?_⟩
    rw [written, Json.compact, String.toList_ofList]
    exact .flatMap document.tokens
  obtain ⟨back, loaded⟩ := loading_law settings
  exact ⟨back, loaded ⟨["history"], [], ["input_type"]⟩ document text
    (.intro (.refl _) inner outer) spells⟩

end Settings

end FormEditor
