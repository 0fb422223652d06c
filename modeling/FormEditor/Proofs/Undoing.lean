import FormEditor.Proofs.Form.Copies
import FormEditor.Proofs.Form.Reordering
import FormEditor.Proofs.Replays

/-!
# Undoing edits of values

An edit of values is recorded as the list of its changes, and such a record can always be taken back
from the form that the edit has left, and carried out again after that (`Form.Traces.undone`).  All
names and values come back.  An attribute that the edit has taken out comes back at the end of its
bag, so that the order may differ from what it was.

`ValueEdit` lists the edits of values with their arguments.  The main statement is
`ValueEdit.undo_restores`: an edit is refused because a field is missing, or undoing it gives the
form in which what it has taken out stands last, and redoing it then gives exactly the form that
the edit has left.  An edit that only writes attributes is undone exactly.
-/

set_option autoImplicit false

namespace FormEditor

namespace Form

variable {form : Form} {id : NodeId} {ids : List NodeId} {changes : List Change}
  {plan : Field → List Assignment}

/-! ## Records of changes -/

/-- Changes that have been made can be taken back and carried out again. -/
theorem Traces.undone (traces : form.Traces .values changes) (legible : form.Legible .values)
    (kind : ValueKind) :
    Command.revert (.values kind changes, form.rewritten changes) =
        .ok () (.values kind changes, form.reordered changes) ∧
      Command.apply (.values kind changes, form.reordered changes) =
        .ok () (.values kind changes, form.rewritten changes) := by
  obtain ⟨back, alike⟩ := traces.reversal
  have reverted := Command.onForm_of_ok back.revertChanges_eq
  rw [traces.rewritten_back legible] at reverted alike
  have applied := Command.onForm_of_ok (alike.symm.traces traces).1.applyChanges_eq
  rw [legible.rewritten_reordered] at applied
  exact ⟨Command.keeping_of_ok reverted, Command.keeping_of_ok applied⟩

/-! ## What an edit of values does -/

/-- Every change that is made was planned. -/
theorem amendBag_planned {bag : Attributes} {assignments : List Assignment} {change : Change}
    (listed : change ∈ (amendBag id bag assignments).1) :
    (change.name, change.after) ∈ assignments := by
  induction assignments generalizing bag with
  | nil => cases listed
  | cons assignment assignments ih =>
    obtain ⟨name, after⟩ := assignment
    unfold amendBag at listed
    split at listed
    · exact List.mem_cons_of_mem _ (ih listed)
    · rcases List.mem_cons.mp listed with rfl | listed
      · exact List.mem_cons_self
      · exact List.mem_cons_of_mem _ (ih listed)

theorem amend_planned {change : Change} (listed : change ∈ (form.amend plan ids).1) :
    ∃ field, (change.name, change.after) ∈ plan field := by
  induction ids generalizing form with
  | nil => cases listed
  | cons id ids ih =>
    unfold amend at listed
    split at listed
    · exact ih listed
    · rename_i field stored
      rcases List.mem_append.mp listed with made | later
      · exact ⟨field, amendBag_planned made⟩
      · exact ih later

/-- An edit of values of fields is refused because of one that is missing, or makes changes that
fit, each of which a plan asks for. -/
def Performs (form : Form) (ids : List NodeId) (plan : Field → List Assignment)
    (edit : Edit (List Change)) : Prop :=
  (∃ id ∈ ids, ¬ form.contains id ∧ edit form = .error (.nodeNotFound id) form) ∨
    (∀ id ∈ ids, form.contains id) ∧
      ∃ changes, edit form = .ok changes (form.rewritten changes) ∧
        form.Traces .values changes ∧
          ∀ change ∈ changes, ∃ field, (change.name, change.after) ∈ plan field

/-- Carrying out a plan for fields that are found once all the given ones are in the form. -/
theorem performs_amend {targets : Form → List NodeId} (legible : form.Legible .values) :
    form.Performs ids plan (do
      Edit.ask fun form => form.checkPresent ids
      modifyGet fun form => form.amend plan (targets form)) := by
  rcases form.checkPresent_cases ids with ⟨id, listed, missing, refused⟩ | present
  · exact .inl ⟨id, listed, missing, Step.bind_of_error (Edit.ask_of_error refused)⟩
  · obtain ⟨logs, same⟩ := amend_logs (Prod.eta (form.amend plan (targets form))).symm
    refine .inr ⟨present, _, ?_, logs.traces legible, fun change listed => amend_planned listed⟩
    rw [← same]
    exact amend_of_present present

end Form

/-! ## Edits of values -/

/-- The edits of values, with their arguments. -/
inductive ValueEdit where
  | setAttribute (id : NodeId) (name : String) (value : Option String)
  | loadDefaults (ids : List NodeId)
  | clearValues (ids : List NodeId)
  | multiplyValues (ids : List NodeId) (factor : Binary64)
  | lockFields (ids : List NodeId) (details : List (String × String)) (millis : Int)
  | unlockFields (ids : List NodeId)
  | setRequired (ids : List NodeId) (required : Bool)

namespace ValueEdit

/-- Carries the edit out. -/
def perform : ValueEdit → Edit (List Change)
  | setAttribute id name value => Form.setAttribute id name value
  | loadDefaults ids => Form.loadDefaults ids
  | clearValues ids => Form.clearValues ids
  | multiplyValues ids factor => Form.multiplyValues ids factor
  | lockFields ids details millis => Form.lockFields ids details millis
  | unlockFields ids => Form.unlockFields ids
  | setRequired ids required => Form.setRequired ids required

/-- Under which kind the edit is recorded. -/
def kind : ValueEdit → ValueKind
  | setAttribute _ name _ => .setAttribute name
  | loadDefaults _ => .loadDefaults
  | clearValues _ => .clearFields
  | multiplyValues .. => .multiplyValues
  | lockFields .. => .lockFields
  | unlockFields _ => .unlockFields
  | setRequired .. => .requiredFields

/-- The fields that the edit is given. -/
def targets : ValueEdit → List NodeId
  | setAttribute id _ _ => [id]
  | loadDefaults ids | clearValues ids | multiplyValues ids _ | lockFields ids _ _ |
    unlockFields ids | setRequired ids _ => ids

/-- The edit only writes attributes, and takes none out. -/
def Writes : ValueEdit → Prop
  | setAttribute _ _ value => value ≠ none
  | loadDefaults _ | multiplyValues .. | lockFields .. => True
  | clearValues _ | unlockFields _ => False
  | setRequired _ required => required = true

variable {form : Form} {closeness : Closeness}

/-- Where all the given fields are there, the edit makes its changes. -/
theorem makes (edit : ValueEdit) (present : ∀ id ∈ edit.targets, form.contains id) :
    form.Makes edit.perform := by
  cases edit with
  | multiplyValues ids factor =>
    show form.Makes (Form.multiplyValues ids factor)
    rw [Form.multiplyValues_eq]
    exact Form.makes_of_present present
  | _ => exact Form.makes_of_present present

theorem amends (legible : form.Legible closeness) (edit : ValueEdit)
    (present : ∀ id ∈ edit.targets, form.contains id) : form.Amends closeness edit.perform :=
  (edit.makes present).amends legible

theorem performs (legible : form.Legible .values) (edit : ValueEdit) :
    ∃ plan : Field → List Assignment, form.Performs edit.targets plan edit.perform ∧
      (edit.Writes → ∀ field, ∀ assignment ∈ plan field, assignment.2 ≠ none) := by
  cases edit with
  | setAttribute id name value =>
    refine ⟨_, Form.performs_amend legible, fun writes field assignment planned => ?_⟩
    rw [List.mem_singleton.mp planned]
    exact writes
  | loadDefaults ids =>
    refine ⟨_, Form.performs_amend legible, fun _ field assignment planned => ?_⟩
    split at planned
    · cases planned
    · rw [List.mem_singleton.mp planned]
      exact nofun
  | clearValues ids => exact ⟨_, Form.performs_amend legible, False.elim⟩
  | multiplyValues ids factor =>
    have scales : form.Performs ids (Form.scaling factor) (Form.multiplyValues ids factor) := by
      rw [Form.multiplyValues_eq]
      exact Form.performs_amend legible
    refine ⟨_, scales, fun _ field assignment planned => ?_⟩
    unfold Form.scaling at planned
    split at planned
    · cases planned
    · rw [List.mem_singleton.mp planned]
      exact nofun
  | lockFields ids details millis =>
    refine ⟨_, Form.performs_amend legible, fun _ field assignment planned => ?_⟩
    rcases List.mem_cons.mp planned with rfl | planned
    · exact nofun
    · obtain ⟨detail, listed, rfl⟩ := List.mem_map.mp planned
      exact nofun
  | unlockFields ids => exact ⟨_, Form.performs_amend legible, False.elim⟩
  | setRequired ids required =>
    refine ⟨_, Form.performs_amend legible, fun writes field assignment planned => ?_⟩
    rw [List.mem_singleton.mp planned, show required = true from writes]
    exact nofun

/-- A root with one field, which has the given attributes. -/
def holding (pairs : List (String × String)) : Form :=
  (Branch.ofOutline ⟨10⟩ (.node .empty [.node (.ofList pairs) []])).toForm

theorem legible_ofOutline {supply : Supply} {outline : Outline}
    (each : outline.Each Attributes.Distinct) :
    (Branch.ofOutline supply outline).toForm.Legible .values := by
  have fresh : (Branch.ofOutline supply outline).Fresh _ supply.next _ := Outline.fresh each
  exact fun _ id field stored => (fresh.bags stored).1

theorem legible_holding (pairs : List (String × String)) : (holding pairs).Legible .values := by
  refine legible_ofOutline (.node Attributes.distinct_empty fun child listed => ?_)
  rw [List.mem_singleton.mp listed]
  exact .node Attributes.distinct_ofList nofun

/-- **What undoing an edit of values restores.**  The edit is refused because of a field that is
missing, and leaves the form alone.  Or it is carried out, and undoing it gives the form with what
the edit has taken out at the end of each bag; redoing it then gives the form that the edit has
left.  The undo is exact if and only if what was taken out had stood at the end, the first of it
last. -/
theorem undo_restores (legible : form.Legible .values) (edit : ValueEdit) :
    (∃ id ∈ edit.targets, ¬ form.contains id ∧
      edit.perform form = .error (.nodeNotFound id) form) ∨
    (∀ id ∈ edit.targets, form.contains id) ∧ ∃ changes after,
      edit.perform form = .ok changes after ∧
      Command.revert (.values edit.kind changes, after) =
        .ok () (.values edit.kind changes, form.reordered changes) ∧
      Command.apply (.values edit.kind changes, form.reordered changes) =
        .ok () (.values edit.kind changes, after) ∧
      (form.reordered changes = form ↔
        ∀ id field, form.get? id = some field →
          (Change.dropped (Change.ofField id changes)).filter (· ∈ field.attributes.names) <:+
            field.attributes.names) ∧
      (edit.Writes → form.reordered changes = form) := by
  obtain ⟨plan, refused | ⟨present, changes, done, traces, planned⟩, writing⟩ :=
    edit.performs legible
  · exact .inl refused
  · obtain ⟨reverted, applied⟩ := traces.undone legible edit.kind
    refine .inr ⟨present, changes, _, done, reverted, applied, legible.reordered_eq_iff, ?_⟩
    intro writes
    refine legible.reordered_of_written fun change listed => ?_
    obtain ⟨field, asked⟩ := planned change listed
    exact writing writes field _ asked

/-- A field is locked anew, which writes one attribute and adds one: the undo is exact. -/
theorem undo_restores_locking :
    let form := holding [("lockedFieldUTC", "5"), ("value", "1")]
    ∃ changes after,
      Form.lockFields [⟨11⟩] [("lockLevel", "lockedTemplate")] 7 form = .ok changes after ∧
        Command.revert (.values .lockFields changes, after) =
          .ok () (.values .lockFields changes, form) := by
  intro form
  rcases undo_restores (legible_holding _) (.lockFields [⟨11⟩] [("lockLevel", "lockedTemplate")] 7)
    with ⟨id, listed, missing, -⟩ | ⟨-, changes, after, done, reverted, -, -, unmoved⟩
  · rw [List.mem_singleton.mp listed] at missing
    have present : form.contains ⟨11⟩ := by decide +kernel
    exact absurd present missing
  · rw [unmoved trivial] at reverted
    exact ⟨changes, after, done, reverted⟩

/-- The value of a field is cleared that had stood in front of another attribute: after the undo it
stands behind it. -/
theorem undo_reorders :
    let form := holding [("value", "1"), ("x", "2")]
    form.validate = .ok () ∧ form.Legible .values ∧ ∃ changes after reverted,
      Form.clearValues [⟨11⟩] form = .ok changes after ∧
        Command.revert (.values .clearFields changes, after) =
          .ok () (.values .clearFields changes, reverted) ∧
        (form.get? ⟨11⟩).map Field.attributes = some ⟨[("value", "1"), ("x", "2")]⟩ ∧
        (reverted.get? ⟨11⟩).map Field.attributes = some ⟨[("x", "2"), ("value", "1")]⟩ := by
  intro form
  have legible : form.Legible .values := legible_holding _
  have present : ∀ id ∈ [(⟨11⟩ : NodeId)], form.contains id := by decide +kernel
  obtain ⟨changes, done, traces⟩ :
      form.Amends .values (Form.clearValues [⟨11⟩]) := Form.amendSubtrees_amends legible present
  have made : (match Form.clearValues [⟨11⟩] form with
      | .ok changes _ => changes
      | .error _ _ => []) = [⟨⟨11⟩, "value", some "1", none⟩] := by
    decide +kernel
  rw [done] at made
  cases made
  exact ⟨by decide +kernel, legible, _, _, _, done, (traces.undone legible .clearFields).1,
    by decide +kernel, by decide +kernel⟩

end ValueEdit

end FormEditor
