import FormEditor.Proofs.Editor.Runs

/-!
# What edits put on record

An edit either changes nothing at all, or it succeeds, posts one command, marks the form as edited,
and tells whoever displays the form just what there is to tell: that it has to be drawn anew, if
the edit changes the shape of the form or the kind of a field, and then that the selection may have
changed.  It changes nothing for a reason that can be named (`Editor.Idle`): nothing is selected,
the fields are at the edge of the form, there is nothing to import or it is not there, or no value
changes.

An operation that changes the shape of the form is taken apart into steps that keep the books and
the recording that ends it (`Frames`, `Closes`).  Main statement: `Sound.decides`.
-/

set_option autoImplicit false

namespace FormEditor

theorem Command.needsRedisplay_of_isStructural {command : Command}
    (structural : command.isStructural = true) : command.needsRedisplay = true := by
  cases command with
  | values => cases structural
  | _ => rfl

/-! ## Edits of values -/

namespace ValueEdit

/-- The changes that the edit makes; none if it is refused. -/
def changes (edit : ValueEdit) (form : Form) : List Change :=
  match edit.perform form with
  | .ok changes _ => changes
  | .error _ _ => []

/-- An edit of values is refused and changes nothing, or it makes its changes. -/
theorem cases (edit : ValueEdit) (form : Form) :
    (∃ fault, edit.perform form = .error fault form) ∧ edit.changes form = [] ∨
      edit.perform form = .ok (edit.changes form) (form.rewritten (edit.changes form)) := by
  have whole : AllOrNothing _ form (((fun _ => none) <$> edit.perform) form) :=
    Form.values_allOrNothing edit
  unfold changes
  cases done : edit.perform form with
  | error fault after =>
    rw [Step.map_of_error done] at whole
    exact .inl ⟨⟨fault, congrArg (EStateM.Result.error fault) whole.1⟩, rfl⟩
  | ok made after =>
    have legible : form.Legible .links := fun values => nomatch values
    obtain ⟨changes, performed, -⟩ := edit.amends legible (whole.fits_of_ok done)
    cases done.symm.trans performed
    exact .inr rfl

end ValueEdit

/-! ## What an operation is for -/

/-- The action works on the selected fields. -/
def Action.needsFields : Action → Bool
  | moveFieldsUp | moveFieldsDown | deleteFields | demoteFields | promoteFields
  | duplicateFields => true
  | _ => false

/-- The move that an action makes with some fields. -/
def Action.move? (ids : List NodeId) : Action → Option FormEdit
  | moveFieldsUp => some (.moveUp ids)
  | moveFieldsDown => some (.moveDown ids)
  | promoteFields => some (.promote ids)
  | demoteFields => some (.demote ids)
  | _ => none

namespace Operation

/-- The edit of values that an operation on record makes; all others change the shape of the
form. -/
def valueEdit? (editor : Editor) : Operation → Option ValueEdit
  | act .loadDefaults => some (.loadDefaults [editor.form.root])
  | act .loadDefaultsHighlighted => some (.loadDefaults editor.highlighted)
  | act .clearFields => some (.clearValues [editor.form.root])
  | act .clearFieldsHighlighted => some (.clearValues editor.highlighted)
  | act .requiredFields => some (.setRequired editor.highlighted true)
  | multiplyValues factor => some (.multiplyValues editor.highlighted factor)
  | lockFields details now => some (.lockFields editor.highlighted details now)
  | unlockFields => some (.unlockFields editor.highlighted)
  | setAttribute id name value true => some (.setAttribute id name value)
  | _ => none

/-- Whether the form has to be drawn anew: the operation changes its shape or the kind of a
field. -/
def redraws (editor : Editor) (operation : Operation) : Bool :=
  match operation.valueEdit? editor with
  | none => true
  | some edit => (edit.changes editor.form).any fun change => change.name = AttributeName.inputType

/-- The command is the record of the operation. -/
def Records (editor : Editor) (operation : Operation) (command : Command) : Prop :=
  match operation.valueEdit? editor with
  | none => command.isStructural = true
  | some edit => command = .values edit.kind (edit.changes editor.form)

variable {editor : Editor} {operation : Operation} {command : Command}

theorem Records.needsRedisplay (records : operation.Records editor command) :
    command.needsRedisplay = operation.redraws editor := by
  unfold Records at records
  unfold redraws
  cases found : operation.valueEdit? editor with
  | none =>
    rw [found] at records
    exact Command.needsRedisplay_of_isStructural records
  | some edit =>
    rw [found] at records
    rw [records]
    rfl

end Operation

namespace History

/-- How many commands can be undone after one more was posted. -/
theorem length_done_post {κ : Type} (history : History κ) (command : κ) :
    (history.post command).done.length =
      if history.limit = 0 then history.done.length + 1
      else min (history.done.length + 1) history.limit := by
  unfold post bounded
  dsimp only
  split
  · rfl
  · rw [List.length_take, List.length_cons, Nat.min_comm]

end History

namespace Editor

open Form

/-- There is a reason why an operation on record changes nothing. -/
inductive Idle (editor : Editor) : Operation → Prop where
  /-- No field is selected. -/
  | unselected {action : Action} :
      action.needsFields = true → editor.selection.fields = [] → Idle editor (.act action)
  /-- The selected fields are at the edge of the form. -/
  | atEdge {action : Action} {edit : FormEdit} {edge : Edge} {form : Form} :
      action.move? editor.selection.fields = some edit →
        edit.perform editor.supply editor.form = .ok (some edge) form → Idle editor (.act action)
  /-- There is nothing to import. -/
  | nothing {source : Form} : Idle editor (.importFields source [])
  /-- A field that is to be imported is not there. -/
  | unknown {source : Form} {ids : List NodeId} {id : NodeId} :
      id ∈ ids → ¬ source.contains id → Idle editor (.importFields source ids)
  /-- No value changes, or the field is not there. -/
  | unchanged {operation : Operation} {edit : ValueEdit} :
      operation.valueEdit? editor = some edit → edit.changes editor.form = [] →
        Idle editor operation

/-- The operation changes nothing in the editor, whether it succeeds or fails. -/
def Untouched (editor : Editor) (operation : Operation) : Prop :=
  operation.perform editor = .ok ⟨⟩ editor ∨
    ∃ error, operation.perform editor = .error error editor

/-- The operation succeeds and posts one command, the record of what it has done, so that nothing
can be redone; the form counts as edited, and all that is told is that the form has to be drawn
anew, if it has, and then that the selection may have changed. -/
def Posted (editor : Editor) (operation : Operation) : Prop :=
  ∃ command after, operation.perform editor = .ok ⟨⟩ after ∧
    operation.Records editor command ∧ after.history = editor.history.post command ∧
      after.history.undone = [] ∧
        after.history.done.length =
          (if editor.history.limit = 0 then editor.history.done.length + 1
            else min (editor.history.done.length + 1) editor.history.limit) ∧
          after.edited = true ∧
            after.notices = editor.notices ++
              if operation.redraws editor then [.treeUpdated, .selectionChanged]
              else [.selectionChanged]

variable {editor before after : Editor} {operation : Operation} {command : Command}

/-- An operation cannot both tell something and change nothing. -/
theorem Posted.not_untouched (posted : editor.Posted operation) : ¬ editor.Untouched operation := by
  obtain ⟨command, after, done, -, -, -, -, -, told⟩ := posted
  rintro (still | ⟨error, refused⟩)
  · cases done.symm.trans still
    split at told <;> simp at told
  · cases done.symm.trans refused

/-! ## Steps that keep the books -/

/-- The history, the mark that the form was edited, and what was told are the same. -/
structure SameBooks (before after : Editor) : Prop where
  history : after.history = before.history
  edited : after.edited = before.edited
  notices : after.notices = before.notices

/-- The command was put on record and told about. -/
structure Booked (before : Editor) (command : Command) (after : Editor) : Prop where
  history : after.history = before.history.post command
  edited : after.edited = true
  notices : after.notices = before.notices ++ command.notices

theorem SameBooks.booked {middle : Editor} (same : SameBooks before middle)
    (booked : Booked middle command after) : Booked before command after where
  history := by rw [booked.history, same.history]
  edited := booked.edited
  notices := by rw [booked.notices, same.notices]

theorem booked_record {result : Unit} (done : record command before = .ok result after) :
    Booked before command after := by
  cases (record_eq before command).symm.trans done
  exact ⟨rfl, rfl, rfl⟩

theorem Booked.posted (booked : Booked editor command after)
    (done : operation.perform editor = .ok ⟨⟩ after) (records : operation.Records editor command) :
    editor.Posted operation := by
  refine ⟨command, after, done, records, booked.history, ?_, ?_, booked.edited, ?_⟩
  · rw [booked.history]
    rfl
  · rw [booked.history]
    exact editor.history.length_done_post command
  · rw [booked.notices, Command.notices, records.needsRedisplay]

section Steps

variable {α β : Type}

/-- A step that keeps the books if it succeeds. -/
def Frames (step : Editing α) : Prop :=
  ∀ before result after, step before = .ok result after → SameBooks before after

/-- A step that puts one command on record, if it succeeds, and the command changes the shape of
the form. -/
def Closes (step : Editing α) : Prop :=
  ∀ before result after, step before = .ok result after →
    ∃ command, command.isStructural = true ∧ Booked before command after

theorem frames_onForm (edit : Edit α) : Frames (onForm edit) := by
  intro before result after done
  unfold onForm at done
  cases performed : edit before.form with
  | error fault form =>
    rw [performed] at done
    cases done
  | ok result form =>
    rw [performed] at done
    cases done
    exact ⟨rfl, rfl, rfl⟩

theorem frames_creating (edit : Supply → Edit (α × Supply)) : Frames (creating edit) := by
  intro before result after done
  unfold creating at done
  rw [Step.get_bind] at done
  obtain ⟨⟨made, supply⟩, middle, performed, rest⟩ := Step.bind_eq_ok_iff.mp done
  cases rest
  obtain ⟨history, edited, notices⟩ := frames_onForm _ _ _ _ performed
  exact ⟨history, edited, notices⟩

theorem frames_selecting (change : Selecting Unit) : Frames (selecting change) := by
  intro before result after done
  unfold selecting at done
  cases performed : change (before.selection, before.form) with
  | error fault left =>
    rw [performed] at done
    cases done
  | ok result left =>
    rw [performed] at done
    cases done
    exact ⟨rfl, rfl, rfl⟩

theorem frames_discard {step : Editing α} (frames : Frames step) : Frames (discard step) := by
  intro before result after done
  obtain ⟨found, performed⟩ := Step.discard_eq_ok_iff.mp done
  exact frames _ _ _ performed

theorem closes_record (structural : command.isStructural = true) : Closes (record command) :=
  fun _ _ _ done => ⟨command, structural, booked_record done⟩

theorem Frames.closes {first : Editing α} {next : α → Editing β} (frames : Frames first)
    (closes : ∀ found, Closes (next found)) : Closes (first >>= next) := by
  intro before result after done
  obtain ⟨found, middle, performed, rest⟩ := Step.bind_eq_ok_iff.mp done
  obtain ⟨command, structural, booked⟩ := closes found middle result after rest
  exact ⟨command, structural, (frames _ _ _ performed).booked booked⟩

theorem Closes.return {step : Editing α} (closes : Closes step) (answer : β) :
    Closes (step >>= fun _ => pure answer) := by
  intro before result after done
  obtain ⟨found, middle, performed, rest⟩ := Step.bind_eq_ok_iff.mp done
  cases rest
  exact closes _ _ _ performed

theorem addField_closes : Closes addField := by
  refine Frames.closes (fun before result after done => ?_) fun editor => ?_
  · cases done
    exact ⟨rfl, rfl, rfl⟩
  · exact (frames_creating _).closes fun id => (frames_selecting _).closes fun _ =>
      (closes_record rfl).return id

theorem deleteFields_closes {result : Unit} (filled : editor.selection.fields ≠ [])
    (done : deleteFields editor = .ok result after) :
    ∃ command, command.isStructural = true ∧ Booked editor command after := by
  unfold deleteFields at done
  rw [Step.get_bind, if_neg (by simpa using filled)] at done
  refine (frames_discard (frames_onForm _)).closes (fun _ => ?_) _ _ _ done
  refine Frames.closes (fun before result after done => ?_) fun _ =>
    (frames_onForm _).closes fun removals => closes_record rfl
  cases done
  exact ⟨rfl, rfl, rfl⟩

theorem duplicateFields_closes {result : Unit} (filled : editor.selection.fields ≠ [])
    (done : duplicateFields editor = .ok result after) :
    ∃ command, command.isStructural = true ∧ Booked editor command after := by
  unfold duplicateFields at done
  rw [Step.get_bind, if_neg (by simpa using filled)] at done
  exact (frames_creating _).closes (fun placement => (frames_selecting _).closes fun _ =>
    closes_record rfl) _ _ _ done

theorem importFields_closes {source : FieldMap} {ids : List NodeId} {result : List NodeId}
    (filled : ids ≠ []) (done : importFields source ids editor = .ok result after) :
    ∃ command, command.isStructural = true ∧ Booked editor command after := by
  unfold importFields at done
  rw [if_neg (by simpa using filled), Step.get_bind] at done
  exact (frames_creating (Form.importFields source ids editor.insertionPoint)).closes
    (fun placement => (frames_selecting _).closes fun _ =>
      (closes_record rfl).return placement.ids) _ _ _ done

end Steps

/-! ## Idle or posted -/

/-- The alternative for an operation on record. -/
def Decides (editor : Editor) (operation : Operation) : Prop :=
  editor.Idle operation ∧ editor.Untouched operation ∨
    ¬ editor.Idle operation ∧ editor.Posted operation

theorem valueEdit?_of_needsFields {action : Action} (needs : action.needsFields = true) :
    (Operation.act action).valueEdit? editor = none := by
  cases action <;> first | rfl | cases needs

theorem valueEdit?_of_move {action : Action} {ids : List NodeId} {edit : FormEdit}
    (move : action.move? ids = some edit) : (Operation.act action).valueEdit? editor = none := by
  cases action <;> first | rfl | cases move

theorem idle_iff_of_valueEdit {edit : ValueEdit}
    (values : operation.valueEdit? editor = some edit) :
    editor.Idle operation ↔ edit.changes editor.form = [] := by
  constructor
  · intro idle
    cases idle with
    | unselected needs _ => cases (valueEdit?_of_needsFields needs).symm.trans values
    | atEdge move _ => cases (valueEdit?_of_move move).symm.trans values
    | nothing => cases values
    | unknown => cases values
    | unchanged found none =>
      cases found.symm.trans values
      exact none
  · exact .unchanged values

theorem perform_of_valueEdit {edit : ValueEdit}
    (values : operation.valueEdit? editor = some edit) :
    operation.perform editor = editValues edit.kind edit.perform editor := by
  cases operation with
  | act action => cases action <;> cases values <;> rfl
  | setAttribute id name value recorded =>
    cases recorded with
    | true =>
      cases values
      rfl
    | false => cases values
  | multiplyValues | lockFields | unlockFields =>
    cases values
    rfl
  | _ => cases values

/-- An edit of values is refused, changes no value, or is recorded. -/
theorem values_decides {edit : ValueEdit} (values : operation.valueEdit? editor = some edit) :
    editor.Decides operation := by
  unfold Decides
  rw [idle_iff_of_valueEdit values]
  rcases edit.cases editor.form with ⟨⟨fault, refused⟩, none⟩ | done
  · refine .inl ⟨none, .inr ⟨.fault fault, ?_⟩⟩
    rw [perform_of_valueEdit values]
    exact Step.bind_of_error (onForm_of_error refused)
  · have performed : operation.perform editor = recordChanges edit.kind (edit.changes editor.form)
        { editor with form := editor.form.rewritten (edit.changes editor.form) } := by
      rw [perform_of_valueEdit values]
      exact Step.bind_of_ok (onForm_of_ok done)
    unfold recordChanges at performed
    by_cases none : edit.changes editor.form = []
    · rw [if_pos (by simpa using none), none] at performed
      exact .inl ⟨none, .inl performed⟩
    · rw [if_neg (by simpa using none), record_eq] at performed
      have records : operation.Records editor (.values edit.kind (edit.changes editor.form)) := by
        unfold Operation.Records
        rw [values]
      exact .inr ⟨none, Booked.posted ⟨rfl, rfl, rfl⟩ performed records⟩

section Shapes

variable {closeness : Closeness} {action : Action}

theorem needsFields_of_move {ids : List NodeId} {edit : FormEdit}
    (move : action.move? ids = some edit) : action.needsFields = true := by
  cases action <;> first | rfl | cases move

/-- An operation that moves the selected fields, and goes on with what becomes of the move. -/
def arranging {α : Type} (edit : List NodeId → Edit (Outcome α)) (rest : Outcome α → Editing Unit) :
    Editing Unit := do
  let ids := (← get).selection.fields
  if ids.isEmpty then return ()
  onForm (edit ids) >>= rest

/-- The selected fields are moved, and this is recorded, unless they are at the edge of the form. -/
theorem arranging_decides {α : Type} {edit : List NodeId → Edit (Outcome α)}
    {rest : Outcome α → Editing Unit} {formEdit : FormEdit} (make : α → Command)
    (sound : editor.Sound closeness) (acts : act action = arranging edit rest)
    (applied : ∀ found, rest (.applied found) = record (make found))
    (atEdge : ∀ edge, rest (.atEdge edge) = pure ())
    (structural : ∀ found, (make found).isStructural = true)
    (move : action.move? editor.selection.fields = some formEdit)
    (performs : formEdit.perform editor.supply = Outcome.edge? <$> edit editor.selection.fields)
    (whole : AllOrNothing (editor.form.Siblings editor.selection.fields) editor.form
      ((Outcome.edge? <$> edit editor.selection.fields) editor.form)) :
    editor.Decides (.act action) := by
  -- a move has no other reason to be idle, since it is no edit of values
  have idle_iff : editor.Idle (.act action) ↔ editor.selection.fields = [] ∨
      ∃ edge form, (Outcome.edge? <$> edit editor.selection.fields) editor.form =
        .ok (some edge) form := by
    constructor
    · intro idle
      cases idle with
      | unselected _ none => exact .inl none
      | atEdge found edge =>
        cases found.symm.trans move
        exact .inr ⟨_, _, performs ▸ edge⟩
      | unchanged values _ => cases (valueEdit?_of_move move).symm.trans values
    · rintro (none | ⟨edge, form, done⟩)
      · exact .unselected (needsFields_of_move move) none
      · exact .atEdge move (performs.symm ▸ done)
  unfold Decides
  rw [idle_iff]
  by_cases filled : editor.selection.fields = []
  · refine .inl ⟨.inl filled, .inl ?_⟩
    show act action editor = _
    rw [acts, arranging, Step.get_bind, if_pos (by simpa using filled)]
    rfl
  · have performed :
        act action editor = (onForm (edit editor.selection.fields) >>= rest) editor := by
      rw [acts, arranging, Step.get_bind, if_neg (by simpa using filled)]
    obtain ⟨-, parent, start, block⟩ := sound.fits.resolve_left filled
    have siblings : editor.form.Siblings editor.selection.fields :=
      ⟨filled, parent, start, _, List.Perm.refl _, block⟩
    rcases whole.outcome_cases with ⟨fault, refused⟩ | ⟨edge, still⟩ | ⟨found, form, moved⟩
    · rw [Step.map_of_error refused] at whole
      exact absurd siblings whole.2
    · have stayed : (onForm (edit editor.selection.fields) >>= rest) editor =
          rest (.atEdge edge) editor := Step.bind_of_ok (onForm_of_ok still)
      rw [atEdge] at stayed
      exact .inl ⟨.inr ⟨edge, _, Step.map_of_ok still⟩, .inl (performed.trans stayed)⟩
    · refine .inr ⟨?_, ?_⟩
      · rintro (none | ⟨edge, form', done⟩)
        · exact filled none
        · cases (Step.map_of_ok moved).symm.trans done
      · have recorded : (onForm (edit editor.selection.fields) >>= rest) editor =
            rest (.applied found) { editor with form } := Step.bind_of_ok (onForm_of_ok moved)
        rw [applied, record_eq] at recorded
        refine Booked.posted ⟨rfl, rfl, rfl⟩ (performed.trans recorded) ?_
        unfold Operation.Records
        rw [valueEdit?_of_move move]
        exact structural found

/-- An edit of the shape of the form that has something to do is posted. -/
theorem shape_decides (edits : Edits closeness operation.perform editor)
    (closes : ∀ {after}, operation.perform editor = .ok ⟨⟩ after →
      ∃ command, command.isStructural = true ∧ Booked editor command after)
    (shape : operation.valueEdit? editor = none) (busy : ¬ editor.Idle operation) :
    editor.Decides operation := by
  obtain ⟨⟨⟩, after, done, -⟩ := edits
  obtain ⟨command, structural, booked⟩ := closes done
  refine .inr ⟨busy, booked.posted done ?_⟩
  unfold Operation.Records
  rw [shape]
  exact structural

theorem not_idle_act (filled : action.needsFields = true → editor.selection.fields ≠ [])
    (stays : action.move? editor.selection.fields = none)
    (shape : (Operation.act action).valueEdit? editor = none) : ¬ editor.Idle (.act action) := by
  intro idle
  cases idle with
  | unselected needs none => exact filled needs none
  | atEdge move _ => cases stays.symm.trans move
  | unchanged values _ => cases shape.symm.trans values

/-- An operation that needs selected fields, and finds none, changes nothing. -/
theorem unselected_decides (needs : action.needsFields = true)
    (none : editor.selection.fields = []) (still : act action editor = .ok ⟨⟩ editor) :
    editor.Decides (.act action) :=
  .inl ⟨.unselected needs none, .inl still⟩

theorem deleteFields_decides (sound : editor.Sound closeness) :
    editor.Decides (.act .deleteFields) := by
  by_cases filled : editor.selection.fields = []
  · refine unselected_decides rfl filled ?_
    show deleteFields editor = _
    rw [deleteFields, Step.get_bind, if_pos (by simpa using filled)]
    rfl
  · exact shape_decides (deleteFields_edits sound) (deleteFields_closes filled) rfl
      (not_idle_act (fun _ => filled) rfl rfl)

theorem duplicateFields_decides (sound : editor.Sound closeness) :
    editor.Decides (.act .duplicateFields) := by
  by_cases filled : editor.selection.fields = []
  · refine unselected_decides rfl filled ?_
    show duplicateFields editor = _
    rw [duplicateFields, Step.get_bind, if_pos (by simpa using filled)]
    rfl
  · exact shape_decides (duplicateFields_edits sound) (duplicateFields_closes filled) rfl
      (not_idle_act (fun _ => filled) rfl rfl)

theorem addField_decides (sound : editor.Sound closeness) :
    editor.Decides (.act .addNewField) := by
  refine shape_decides (addField_edits sound).discard (fun done => ?_) rfl
    (not_idle_act (fun needs => nomatch needs) rfl rfl)
  obtain ⟨id, added⟩ := Step.discard_eq_ok_iff.mp done
  exact addField_closes _ _ _ added

theorem importFields_decides (sound : editor.Sound .links) (source : Form)
    (ids : List NodeId) : editor.Decides (.importFields source ids) := by
  have legible : ∀ (id : NodeId) (field : Field), source.fields[id]? = some field →
      field.attributes.Fair .links := fun _ _ _ values => nomatch values
  rcases importFields_cases sound legible ids with ⟨missing, error, refused⟩ | ⟨all, edits⟩
  · rw [not_forall] at missing
    obtain ⟨id, missing⟩ := missing
    rw [Classical.not_imp] at missing
    exact .inl ⟨.unknown missing.1 missing.2, .inr ⟨error, Step.discard_of_error refused⟩⟩
  · by_cases none : ids = []
    · subst none
      exact .inl ⟨.nothing, .inl rfl⟩
    · refine shape_decides edits.discard (fun done => ?_) rfl fun idle => ?_
      · obtain ⟨placed, imported⟩ := Step.discard_eq_ok_iff.mp done
        exact importFields_closes none imported
      · cases idle with
        | nothing => exact none rfl
        | unknown listed missing => exact missing (all _ listed)
        | unchanged values _ => cases values

end Shapes

/-- **An operation on record is idle and changes nothing, or is not idle and is posted.** -/
theorem Sound.decides (sound : editor.Sound .links) (recorded : operation.OnRecord) :
    editor.Decides operation := by
  have wellFormed := sound.wellFormed
  cases operation with
  | act action =>
    cases action with
    | moveFieldsUp =>
      exact arranging_decides (fun run => .move .up run.ids) sound rfl (fun _ => rfl)
        (fun _ => rfl) (fun _ => rfl) rfl rfl (moveUp_allOrNothing wellFormed _)
    | moveFieldsDown =>
      exact arranging_decides (fun run => .move .down run.ids) sound rfl (fun _ => rfl)
        (fun _ => rfl) (fun _ => rfl) rfl rfl (moveDown_allOrNothing wellFormed _)
    | promoteFields =>
      exact arranging_decides .promote sound rfl (fun _ => rfl)
        (fun _ => rfl) (fun _ => rfl) rfl rfl (promote_allOrNothing wellFormed _)
    | demoteFields =>
      exact arranging_decides .demote sound rfl (fun _ => rfl)
        (fun _ => rfl) (fun _ => rfl) rfl rfl (demote_allOrNothing wellFormed _)
    | deleteFields => exact deleteFields_decides sound
    | addNewField => exact addField_decides sound
    | duplicateFields => exact duplicateFields_decides sound
    | undo | redo | importFields => cases recorded
    | loadDefaults | loadDefaultsHighlighted | clearFields | clearFieldsHighlighted
    | requiredFields => exact values_decides rfl
  | importFields source ids => exact importFields_decides sound source ids
  | multiplyValues | lockFields | unlockFields => exact values_decides rfl
  | setAttribute id name value onRecord =>
    cases recorded
    exact values_decides rfl
  | setVersion | setEdited | select | clearSelection | setForm => cases recorded

end Editor

end FormEditor
