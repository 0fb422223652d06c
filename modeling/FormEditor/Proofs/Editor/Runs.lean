import FormEditor.Proofs.Editor.Edits
import FormEditor.Proofs.Histories

/-!
# Runs of the editor

A run performs operations one after the other, in any order; an operation that fails leaves an
editor behind like any other (`Editor.after`).  To the history an operation plays one of four
parts (`Operation.Role`): it edits the form, it replays the history, it leaves form and history
alone, or it starts over with another form.

What a run may be given from outside is limited (`Editor.Admits`): forms must be valid, their ids
must be among those that were given out before, and as far as values count, their bags must have
distinct names and nothing may be written off the record.

Main statements: `edit_settles` and `aside_kept`, which say what becomes of a sound editor, and
`replay_of_play`, by which a replay goes through when that of the next command does.
-/

set_option autoImplicit false

namespace FormEditor

/-- The action that replays the history in a direction. -/
def Replay.action : Replay → Action
  | .undo => .undo
  | .redo => .redo

/-! ## Operations -/

/-- What a user may ask of an editor. -/
inductive Operation where
  | act (action : Action)
  | importFields (source : Form) (ids : List NodeId)
  | multiplyValues (factor : Binary64)
  | lockFields (details : List (String × String)) (now : Int)
  | unlockFields
  | setAttribute (id : NodeId) (name : String) (value : Option String) (recorded : Bool)
  | setVersion (version : String)
  | setEdited (edited : Bool)
  | select (id : NodeId) (clearOthers : Bool)
  | clearSelection
  | setForm (form : Form)

namespace Operation

/-- Performs an operation. -/
def perform : Operation → Editing Unit
  | act action => Editor.act action
  | importFields source ids => discard (Editor.importFields source.fields ids)
  | multiplyValues factor => Editor.multiplyValues factor
  | lockFields details now => Editor.lockFields details now
  | unlockFields => Editor.unlockFields
  | setAttribute id name value recorded => Editor.setAttribute id name value recorded
  | setVersion version => Editor.setVersion version
  | setEdited edited => Editor.setEdited edited
  | select id clearOthers => Editor.select id clearOthers
  | clearSelection => Editor.clearSelection
  | setForm form => Editor.setForm form

/-- The part that an operation plays for the history. -/
inductive Role where
  | edit
  | replay (direction : Replay)
  | aside
  | restart (form : Form)

/-- The part that each operation plays. -/
def role : Operation → Role
  | act .undo => .replay .undo
  | act .redo => .replay .redo
  | select _ _ | clearSelection | setEdited _ => .aside
  | setForm form => .restart form
  | _ => .edit

/-- The operation is an edit that can be undone. -/
def OnRecord : Operation → Prop
  | act .undo | act .redo | act .importFields => False
  | act _ | importFields _ _ | multiplyValues _ | lockFields _ _ | unlockFields => True
  | setAttribute _ _ _ recorded => recorded = true
  | _ => False

theorem eq_setForm {operation : Operation} {form : Form} (part : operation.role = .restart form) :
    operation = .setForm form := by
  cases operation with
  | setForm given =>
    cases part
    rfl
  | act action => cases action <;> cases part
  | _ => cases part

theorem eq_act_action {operation : Operation} {direction : Replay}
    (part : operation.role = .replay direction) : operation = .act direction.action := by
  cases operation with
  | act action => cases action <;> cases part <;> rfl
  | _ => cases part

end Operation

namespace Editor

/-- The editor that an operation leaves behind, whether it fails or not. -/
def leave (editor : Editor) (operation : Operation) : Editor :=
  match operation.perform editor with
  | .ok _ after => after
  | .error _ after => after

/-- The editor after a run. -/
def after (editor : Editor) (operations : List Operation) : Editor := operations.foldl leave editor

/-- What an operation brings in from outside is fit for the editor. -/
def Admits (closeness : Closeness) (editor : Editor) : Operation → Prop
  | .importFields source _ => source.Legible closeness
  | .setForm form => form.validate = .ok () ∧ form.Known closeness editor.supply
  | .setAttribute _ _ _ recorded => closeness = .values → recorded = true
  | .setVersion _ => closeness = .links
  | _ => True

/-- Whatever a run brings in from outside is fit for the editor at that moment. -/
def AdmitsAll (closeness : Closeness) : Editor → List Operation → Prop
  | _, [] => True
  | editor, operation :: operations =>
    Admits closeness editor operation ∧ AdmitsAll closeness (editor.leave operation) operations

variable {closeness : Closeness} {editor after : Editor} {operation : Operation}
  {operations : List Operation}

theorem leave_of_ok (operation : Operation) (done : operation.perform editor = .ok ⟨⟩ after) :
    editor.leave operation = after := by
  simp only [leave, done]

theorem leave_of_error (operation : Operation) {error : EditError}
    (refused : operation.perform editor = .error error after) :
    editor.leave operation = after := by
  simp only [leave, refused]

theorem act_action (direction : Replay) : act direction.action = replay direction := by
  cases direction <;> rfl

/-- A replay that goes through is the operation of its action. -/
theorem leave_action {direction : Replay} (done : replay direction editor = .ok ⟨⟩ after) :
    editor.leave (.act direction.action) = after :=
  leave_of_ok (.act direction.action) ((congrFun (act_action direction) editor).trans done)

/-! ## New editors -/

/-- The blank protocol is a branch that has just been planted. -/
theorem exists_blankProtocol_fresh (supply : Supply) :
    ∃ branch : Branch, Form.blankProtocol supply = branch.toForm ∧
      branch.Fresh Attributes.Distinct supply.next (supply.after 2).next := by
  have each : (Outline.node (Attributes.ofList [(AttributeName.inputType, InputType.protocolTitle)])
      [.node (Attributes.ofList [(AttributeName.inputType, InputType.fixedStep)]) []]).Each
        Attributes.Distinct := by
    refine .node Attributes.distinct_ofList ?_
    intro child listed
    rw [List.mem_singleton.mp listed]
    exact .node Attributes.distinct_ofList (by simp)
  have fresh : (Branch.ofOutline supply _).Fresh Attributes.Distinct supply.next _ :=
    Outline.fresh each
  refine ⟨_, ?_, fresh⟩
  simp only [Form.blankProtocol, Branch.ofOutline, Branch.toForm, Outline.plant, Outline.plantAll,
    Outline.rootIds, FieldMap.ofFields, Field.fresh, Supply.after, Supply.id]
  rfl

/-- An editor over a valid form all of whose ids were given out before starts out sound. -/
theorem ofForm_sound {form : Form} {settings : Settings} {supply : Supply}
    (valid : form.validate = .ok ()) (known : form.Known closeness supply) :
    (ofForm form settings supply).Sound closeness :=
  ⟨Form.validate_eq_ok_iff.mp valid, Selection.fits_empty, known⟩

/-- An editor over a blank protocol starts out sound, and nothing is highlighted. -/
theorem blank_sound (supply : Supply) :
    (blank supply).Sound closeness ∧ ∀ id : NodeId, ¬ (blank supply).form.isHighlighted id := by
  obtain ⟨branch, planted, fresh⟩ := exists_blankProtocol_fresh supply
  have same : (blank supply).form = branch.toForm := planted
  refine ⟨⟨?_, Selection.fits_empty, ?_⟩, fun id lit => ?_⟩
  · rw [same]
    exact fresh.whole
  · rw [same]
    exact fun id field found => ⟨(fresh.range (Form.contains_of_get? found)).2,
      fun _ => (fresh.bags found).1⟩
  · rw [same] at lit
    exact (Sprouted.cons fresh .nil).calm List.mem_cons_self id lit

/-! ## Edits -/

/-- What an edit comes to for the history: something is recorded, or nothing is, and nobody is told
that the selection may have changed. -/
def Settles (closeness : Closeness) (before after : Editor) : Prop :=
  Recorded closeness before after ∨ Kept closeness before after ∧ Quiet before after

theorem Settles.refl (sound : editor.Sound closeness) : Settles closeness editor editor :=
  .inr ⟨.refl sound, .refl⟩

theorem settles_of_edits (operation : Operation) (sound : editor.Sound closeness)
    (edits : Edits closeness operation.perform editor) :
    Settles closeness editor (editor.leave operation) := by
  obtain ⟨⟨⟩, after, done, rfl | recorded⟩ := edits
  · rw [leave_of_ok operation done]
    exact .refl sound
  · rw [leave_of_ok operation done]
    exact .inl recorded

/-- An operation that is refused and changes nothing settles as nothing recorded. -/
theorem settles_of_error (operation : Operation) {error : EditError}
    (sound : editor.Sound closeness) (refused : operation.perform editor = .error error editor) :
    Settles closeness editor (editor.leave operation) := by
  rw [leave_of_error operation refused]
  exact .refl sound

theorem Edits.discard {α : Type} {edit : Editing α} (edits : Edits closeness edit editor) :
    Edits closeness (discard edit) editor := by
  obtain ⟨result, after, done, outcome⟩ := edits
  exact ⟨⟨⟩, after, Step.discard_of_ok done, outcome⟩

/-- A named action that does not replay the history succeeds. -/
theorem act_edits (sound : editor.Sound closeness) {action : Action}
    (edit : (Operation.act action).role = .edit) : Edits closeness (act action) editor := by
  cases action with
  | moveFieldsUp => exact moveFields_edits sound .up
  | moveFieldsDown => exact moveFields_edits sound .down
  | deleteFields => exact deleteFields_edits sound
  | addNewField => exact (addField_edits sound).discard
  | demoteFields => exact demoteFields_edits sound
  | promoteFields => exact promoteFields_edits sound
  | duplicateFields => exact duplicateFields_edits sound
  | undo => cases edit
  | redo => cases edit
  | importFields => exact ⟨⟨⟩, editor, rfl, .inl rfl⟩
  | loadDefaults => exact loadDefaults_edits sound
  | loadDefaultsHighlighted => exact loadDefaultsHighlighted_edits sound
  | clearFields => exact clearFields_edits sound
  | clearFieldsHighlighted => exact clearFieldsHighlighted_edits sound
  | requiredFields => exact requireFields_edits sound

/-- An edit off the record leaves the history, and nobody is told that the selection may have
changed. -/
theorem off_record (sound : editor.Sound closeness) (admitted : editor.Admits closeness operation)
    (edit : operation.role = .edit) (off : ¬ operation.OnRecord) :
    Kept closeness editor (editor.leave operation) ∧ Quiet editor (editor.leave operation) := by
  cases operation with
  | act action =>
    cases action with
    | importFields => exact ⟨.refl sound, .refl⟩
    | undo | redo => cases edit
    | _ => exact absurd trivial off
  | setAttribute id name value recorded =>
    cases recorded with
    | true => exact absurd rfl off
    | false =>
      cases closeness with
      | values => cases admitted rfl
      | links =>
        rcases setAttribute_unrecorded sound id name value with
          ⟨error, refused⟩ | ⟨after, done, kept, quiet⟩
        · rw [leave_of_error (.setAttribute id name value false) refused]
          exact ⟨.refl sound, .refl⟩
        · rw [leave_of_ok (.setAttribute id name value false) done]
          exact ⟨kept, quiet⟩
  | setVersion version =>
    cases closeness with
    | values => cases admitted
    | links =>
      obtain ⟨after, done, kept, quiet⟩ := setVersion_unrecorded sound version
      rw [leave_of_ok (.setVersion version) done]
      exact ⟨kept, quiet⟩
  | importFields | multiplyValues | lockFields | unlockFields => exact absurd trivial off
  | setEdited | select | clearSelection | setForm => cases edit

/-- **An edit records something, or leaves the editor as far as the history sees.** -/
theorem edit_settles (sound : editor.Sound closeness) (admitted : editor.Admits closeness operation)
    (edit : operation.role = .edit) : Settles closeness editor (editor.leave operation) := by
  by_cases recorded : operation.OnRecord
  · cases operation with
    | act action => exact settles_of_edits (.act action) sound (act_edits sound edit)
    | importFields source ids =>
      rcases importFields_cases sound
          (fun id field found close => admitted close id field found) ids
        with ⟨-, error, refused⟩ | ⟨-, edits⟩
      · exact settles_of_error (.importFields source ids) sound (Step.discard_of_error refused)
      · exact settles_of_edits (.importFields source ids) sound edits.discard
    | multiplyValues factor =>
      exact settles_of_edits (.multiplyValues factor) sound (multiplyValues_edits sound factor)
    | lockFields details now =>
      exact settles_of_edits (.lockFields details now) sound (lockFields_edits sound details now)
    | unlockFields => exact settles_of_edits .unlockFields sound (unlockFields_edits sound)
    | setAttribute id name value onRecord =>
      cases recorded
      rcases setAttribute_cases sound id name value with ⟨error, refused⟩ | edits
      · exact settles_of_error (.setAttribute id name value true) sound refused
      · exact settles_of_edits (.setAttribute id name value true) sound edits
    | setVersion | setEdited | select | clearSelection | setForm => cases recorded
  · exact .inr (off_record sound admitted edit recorded)

/-- What leaves the history alone leaves the form as it was. -/
theorem aside_kept (sound : editor.Sound closeness) (aside : operation.role = .aside) :
    Kept closeness editor (editor.leave operation) := by
  cases operation with
  | setEdited edited => exact ⟨Form.Alike.refl _, sound.fits, fun marks => marks, rfl, rfl, rfl⟩
  | select id clearOthers =>
    rcases select_kept sound id clearOthers with ⟨error, refused⟩ | ⟨after, done, kept⟩
    · rw [leave_of_error (.select id clearOthers) refused]
      exact .refl sound
    · rw [leave_of_ok (.select id clearOthers) done]
      exact kept
  | clearSelection =>
    obtain ⟨after, done, kept⟩ := clearSelection_kept closeness editor
    rw [leave_of_ok Operation.clearSelection done]
    exact kept
  | act action => cases action <;> cases aside
  | importFields | multiplyValues | lockFields | unlockFields | setAttribute | setVersion
  | setForm => cases aside

/-! ## Replays -/

section Reselecting

variable {selection : Selection} {form : Form} {ids : List NodeId} {id : NodeId}

/-- The fields that were asked for are selected, or what is left of the selection is. -/
theorem reselected_cases :
    reselected selection ids form = selection.prune form ∨
      ∃ run, form.run ids = .ok run ∧
        reselected selection ids form =
          (⟨run.ids, false⟩, (selection.unmark form).setAllHighlighted true run.ids) := by
  unfold reselected
  split
  · exact .inl rfl
  · cases found : form.run ids with
    | error fault =>
      have refused : selection.selectRun ids form = .error fault form :=
        Selecting.onForm_of_error (selection.selectRun_of_error found)
      rw [refused]
      exact .inl rfl
    | ok run =>
      have done : selection.selectRun ids form =
          .ok ⟨run.ids, false⟩ ((selection.unmark form).setAllHighlighted true run.ids) :=
        Selecting.onForm_of_ok (selection.selectRun_of_ok found)
      rw [done]
      exact .inr ⟨run, rfl, rfl⟩

/-- What is left selected after a replay fits the form. -/
theorem reselected_fits (wellFormed : form.WellFormed)
    (exclusive : selection.fields ≠ [] → selection.rootSelected = false) (ids : List NodeId) :
    (reselected selection ids form).1.Fits (reselected selection ids form).2 ∧
      (reselected selection ids form).2.Alike (fun bag => bag) form ∧
        (selection.Covers form →
          (reselected selection ids form).1.Marks (reselected selection ids form).2) := by
  rcases reselected_cases with pruned | ⟨run, found, selected⟩
  · rw [pruned]
    exact Selection.prune_fits wellFormed exclusive
  · obtain ⟨-, -, block⟩ := wellFormed.run_eq_ok_iff.mp found
    obtain ⟨alike, fits, marks⟩ := selection.fits_of_block wellFormed block
    rw [selected]
    exact ⟨fits, alike, marks⟩

/-- What is selected after a replay is the root, or asked for, or was selected before. -/
theorem mem_reselected (wellFormed : form.WellFormed)
    (listed : id ∈
      (reselected selection ids form).1.highlighted (reselected selection ids form).2) :
    id = (reselected selection ids form).2.root ∨ id ∈ ids ∨ id ∈ selection.fields := by
  unfold Selection.highlighted at listed
  split at listed
  · exact .inl (List.mem_singleton.mp listed)
  · refine .inr ?_
    rcases reselected_cases with pruned | ⟨run, found, selected⟩
    · rw [pruned] at listed
      exact .inr (Selection.mem_of_mem_prune wellFormed listed)
    · rw [selected] at listed
      exact .inl ((wellFormed.run_eq_ok_iff.mp found).2.1.mem_iff.mpr listed)

/-- What was not selected before keeps its highlight in a replay. -/
theorem isHighlighted_reselected (lit : form.isHighlighted id) (outside : id ∉ selection.fields)
    (inner : id ≠ form.root) : (reselected selection ids form).2.isHighlighted id := by
  rcases reselected_cases with pruned | ⟨run, found, selected⟩
  · rw [pruned]
    exact Selection.isHighlighted_prune lit outside inner
  · have kept : (selection.unmark form).isHighlighted id :=
      Selection.isHighlighted_unmark.mpr ⟨lit, outside, fun top => inner top.2⟩
    rw [selected, Form.isHighlighted_setAllHighlighted, Form.contains_of_isHighlighted kept, kept]
    simp

end Reselecting

/-- The command was replayed, and the selection follows. -/
structure Replayed (before : Editor) (ids : List NodeId) (history : History Command) (form : Form)
    (after : Editor) : Prop where
  alike : after.form.Alike (fun bag => bag) form
  fits : after.selection.Fits after.form
  marks : before.selection.Covers form → after.selection.Marks after.form
  listed : ∀ id ∈ after.highlighted,
    id = after.form.root ∨ id ∈ ids ∨ id ∈ before.selection.fields
  lit : ∀ id : NodeId, form.isHighlighted id → id ∉ before.selection.fields → id ≠ form.root →
    after.form.isHighlighted id
  history : after.history = history
  settings : after.settings = before.settings
  supply : after.supply = before.supply

/-- With nothing to replay, a replay changes nothing. -/
theorem replay_of_nil {direction : Replay} (none : editor.history.standing direction = []) :
    replay direction editor = .ok ⟨⟩ editor := by
  have done : onHistory (replayHistory direction) editor = .ok Option.none editor := by
    simp only [onHistory, replayHistory_eq, History.replay_nil none]
  unfold replay
  exact Step.bind_of_ok done

/-- The editor after the next command was replayed, which has become another and has left a form. -/
def turned (editor : Editor) (direction : Replay) (command : Command) (form : Form) : Editor :=
  let (selection, form) := reselected editor.selection (command.selectionAfter direction) form
  { editor with
    form, selection
    history := editor.history.turned command direction
    edited := true
    notices := editor.notices ++ command.notices }

/-- What a replay of the next command that succeeds leads to. -/
theorem replay_eq {direction : Replay} {command command' : Command} {rest : List Command}
    {form : Form} (next : editor.history.standing direction = command :: rest)
    (played : Command.play direction (command, editor.form) = .ok () (command', form)) :
    replay direction editor = .ok ⟨⟩ (editor.turned direction command' form) := by
  have done : onHistory (replayHistory direction) editor =
      .ok (some command')
        { editor with history := editor.history.turned command' direction, form } := by
    simp only [onHistory, replayHistory_eq, History.replay_of_ok next played]
  unfold replay
  rw [Step.bind_of_ok done]
  dsimp only
  rw [Step.modify_bind]
  exact tell_eq command'

/-- A replay of the next command that succeeds makes the replay succeed. -/
theorem replay_of_play {direction : Replay} {command command' : Command} {rest : List Command}
    {form : Form} (sound : editor.Sound closeness) (wellFormed : form.WellFormed)
    (next : editor.history.standing direction = command :: rest)
    (played : Command.play direction (command, editor.form) = .ok () (command', form)) :
    ∃ after, replay direction editor = .ok ⟨⟩ after ∧
      Replayed editor (command'.selectionAfter direction)
        (editor.history.turned command' direction) form after := by
  obtain ⟨fits, alike, marks⟩ := reselected_fits wellFormed sound.fits.rootSelected_eq
    (command'.selectionAfter direction)
  exact ⟨_, replay_eq next played, alike, fits, marks, fun id => mem_reselected wellFormed,
    fun id => isHighlighted_reselected, rfl, rfl, rfl⟩

end Editor

end FormEditor
