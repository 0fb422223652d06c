import FormEditor.Proofs.Editor.Timelines

/-!
# Highlights and the selection

The fields that are highlighted should be those that are selected.  Every operation sees to that
for the fields of the form.  But when a replay takes fields out of the form, only the field at the
top of each branch loses its highlight.  A selected field strictly below it keeps its own, inside
the branch that the command holds, and brings it back when the command is replayed the other way;
then it is highlighted without being selected.

So the law holds after every run in which no replay takes a selected field out from below
(`Editor.Buries`), and it fails two replays after any that does.

Main statements: `highlight_law`, and `highlight_law_fails` for a run on which the law fails.
-/

set_option autoImplicit false

namespace FormEditor

namespace Editor

/-- Exactly the selected fields are highlighted. -/
def Agrees (editor : Editor) : Prop :=
  ∀ id : NodeId, editor.form.isHighlighted id ↔ id ∈ editor.highlighted

/-- A replay takes a selected field out of the form that is strictly below the field that the
command names. -/
def Buries (editor : Editor) (direction : Replay) : Prop :=
  ∃ command ∈ (editor.history.standing direction).head?, ∃ top ∈ command.takenOut direction,
    ∃ id ∈ editor.highlighted, editor.form.Beneath top id

/-- No replay of the run takes a selected field out from below. -/
def Spares : Editor → List Operation → Prop
  | _, [] => True
  | editor, operation :: operations =>
    (∀ direction, operation = .act direction.action → ¬ editor.Buries direction) ∧
      Spares (editor.leave operation) operations

/-- What is highlighted is selected, and no command holds a highlighted field. -/
structure Tidy (editor : Editor) : Prop where
  agrees : editor.Agrees
  calm : ∀ (direction : Replay), ∀ command ∈ editor.history.standing direction, command.Calm

variable {closeness : Closeness} {editor after : Editor} {timeline : Timeline}
  {operation : Operation} {operations : List Operation} {direction : Replay}

/-! ## One replay -/

/-- What a replay of one command comes to. -/
structure Played (editor : Editor) (direction : Replay) (command : Command) (after : Editor)
    (command' : Command) : Prop where
  effect : ∃ form, Command.Effect editor.form command.branches (command.takenOut direction)
    command'.branches form ∧ after.form.Alike (fun bag => bag) form ∧
      (editor.selection.Covers form → after.Agrees) ∧
        ∀ top ∈ command.takenOut direction.opposite, ∀ branch ∈ command.branches,
          ∀ id : NodeId, branch.toForm.isHighlighted id → id ∉ editor.selection.fields →
            id ≠ form.root → after.form.isHighlighted id
  emptied : command'.emptied = command.emptied
  listed : ∀ id ∈ after.highlighted, id = after.form.root ∨
    id ∈ command'.selectionAfter direction ∨ id ∈ editor.selection.fields
  here : editor.history.standing direction = command :: after.history.standing direction
  there : after.history.standing direction.opposite =
    command' :: editor.history.standing direction.opposite

/-- A replay goes through when there is a command for it. -/
theorem Tracks.played (tracks : Tracks closeness editor timeline) {command : Command}
    {rest : List Command} (next : editor.history.standing direction = command :: rest) :
    ∃ after command', Editor.replay direction editor = .ok ⟨⟩ after ∧
      Played editor direction command after command' := by
  have wellFormed := tracks.sound.wellFormed
  obtain ⟨there, forms, -, turns, -⟩ := tracks.exists_turn next
  obtain ⟨command', form, done, kept, -⟩ := turns.back wellFormed
  obtain ⟨after, replayed, result⟩ := replay_of_play tracks.sound kept next done
  have effect := turns.1.effect wellFormed done
  refine ⟨after, command', replayed, ⟨form, effect, result.alike, result.marks, ?_⟩,
    Command.emptied_of_play done, result.listed, ?_, ?_⟩
  · intro top taken branch listed id lit
    exact result.lit id (turns.1.lit_of_branch done taken listed lit)
  · rw [result.history, History.standing_turned, next]
    rfl
  · rw [result.history, History.standing_turned_opposite]

/-! ## Steps -/

/-- A tidy editor agrees after any replay, and stays tidy unless the replay buries a highlight. -/
theorem Tidy.played {command command' : Command} (tidy : editor.Tidy)
    (wellFormed : editor.form.WellFormed)
    (played : Played editor direction command after command') :
    after.Agrees ∧ (¬ editor.Buries direction → after.Tidy) := by
  obtain ⟨form, effect, -, agrees, -⟩ := played.effect
  have held : command ∈ editor.history.standing direction := by
    rw [played.here]
    exact List.mem_cons_self
  have calm := tidy.calm direction command held
  have marks : editor.selection.Marks editor.form := tidy.agrees
  have agrees' := agrees (marks.covers_after effect wellFormed calm)
  refine ⟨agrees', fun spared => ⟨agrees', fun other kept listed => ?_⟩⟩
  rcases other.eq_or_eq_opposite direction with rfl | rfl
  · refine tidy.calm other kept ?_
    rw [played.here]
    exact List.mem_cons_of_mem command listed
  · rw [played.there] at listed
    rcases List.mem_cons.mp listed with rfl | listed
    · refine (effect.calm_iff wellFormed).mpr fun top taken id beneath lit => spared ?_
      refine ⟨command, ?_, top, taken, id, (tidy.agrees id).mp lit, beneath⟩
      rw [played.here]
      rfl
    · exact tidy.calm direction.opposite kept listed

/-- A highlight that was buried comes back without being selected. -/
theorem Buries.reveals {command command' command'' : Command} {middle : Editor}
    (buries : editor.Buries direction) (agrees : editor.Agrees)
    (wellFormed : editor.form.WellFormed) (sound : middle.Sound closeness)
    (first : Played editor direction command middle command')
    (second : Played middle direction.opposite command' after command'') : ¬ after.Agrees := by
  obtain ⟨form, effect, alike, -, -⟩ := first.effect
  obtain ⟨form', effect', alike', -, brings⟩ := second.effect
  obtain ⟨named, next, top, taken, id, selected, beneath⟩ := buries
  obtain rfl : command = named := by
    rw [first.here] at next
    exact Option.some.inj next
  obtain ⟨⟨branch, held, lit⟩, gone, unnamed⟩ :=
    effect.buried wellFormed taken beneath ((agrees id).mpr selected)
  have inner : id ≠ editor.form.root := by
    obtain ⟨parent, above, -⟩ := beneath
    exact wellFormed.toLinksFit.ne_root above
  have same : form'.root = editor.form.root :=
    (effect'.root_eq sound.wellFormed).trans (alike.1.trans (effect.root_eq wellFormed))
  have unselected : id ∉ middle.selection.fields := by
    intro listed
    have noRoot := sound.fits.rootSelected_eq (List.ne_nil_of_mem listed)
    have stored := sound.fits.contains sound.wellFormed
      (show id ∈ middle.selection.highlighted middle.form from
        Selection.highlighted_of_fields noRoot ▸ listed)
    exact gone (alike.contains_eq ▸ stored)
  have kind : command'.takenOut direction = command.takenOut direction := by
    rw [← Command.takenOut_emptied command', first.emptied, Command.takenOut_emptied]
  have back : after.form.isHighlighted id :=
    brings top (by rw [direction.opposite_opposite, kind]; exact taken) branch held id lit
      unselected (same ▸ inner)
  intro agrees'
  rcases second.listed id ((agrees' id).mp back) with top' | asked | before
  · exact inner (top'.trans (alike'.1.trans same))
  · rw [← Command.selectionAfter_emptied, second.emptied, first.emptied,
      Command.selectionAfter_emptied, Command.selectionAfter_of_takenOut taken] at asked
    exact unnamed asked
  · exact unselected before

/-- A recorded edit keeps a tidy editor tidy. -/
theorem Tidy.recorded (tidy : editor.Tidy) (recorded : Recorded closeness editor after) :
    after.Tidy := by
  obtain ⟨base, form', command, command', -, -, -, -, history, calm, -⟩ := recorded.carried
  refine ⟨recorded.marks tidy.agrees, ?_⟩
  intro direction kept listed
  rw [history] at listed
  cases direction with
  | redo => cases listed
  | undo =>
    have listed : kept ∈ command' :: editor.history.done := by
      have bound : kept ∈ History.bounded editor.history.limit (command' :: editor.history.done) :=
        listed
      unfold History.bounded at bound
      split at bound
      · exact bound
      · exact List.mem_of_mem_take bound
    rcases List.mem_cons.mp listed with rfl | listed
    · exact calm tidy.agrees
    · exact tidy.calm .undo kept listed

/-- What is not recorded keeps a tidy editor tidy. -/
theorem Tidy.kept (tidy : editor.Tidy) (kept : Kept closeness editor after) : after.Tidy := by
  refine ⟨kept.marks tidy.agrees, ?_⟩
  rw [kept.history]
  exact tidy.calm

/-- A replay keeps what is highlighted and what is selected in agreement, and keeps a tidy editor
tidy unless it buries a highlight. -/
theorem Tidy.replayed (tidy : editor.Tidy) (tracks : Tracks closeness editor timeline)
    (direction : Replay) :
    (editor.leave (.act direction.action)).Agrees ∧
      (¬ editor.Buries direction → (editor.leave (.act direction.action)).Tidy) := by
  cases held : editor.history.standing direction with
  | nil =>
    rw [leave_action (replay_of_nil held)]
    exact ⟨tidy.agrees, fun _ => tidy⟩
  | cons command rest =>
    obtain ⟨after, command', done, played⟩ := tracks.played held
    rw [leave_action done]
    exact tidy.played tracks.sound.wellFormed played

/-- Every operation keeps a tidy editor tidy, unless it buries a highlight. -/
theorem Tidy.leave (tidy : editor.Tidy) (tracks : Tracks closeness editor timeline)
    (admitted : editor.Admits closeness operation)
    (unlit : ∀ form, operation = .setForm form → ∀ id : NodeId, ¬ form.isHighlighted id)
    (spares : ∀ direction, operation = .act direction.action → ¬ editor.Buries direction) :
    (editor.leave operation).Tidy := by
  cases part : operation.role with
  | edit =>
    rcases edit_settles tracks.sound admitted part with recorded | ⟨kept, -⟩
    · exact tidy.recorded recorded
    · exact tidy.kept kept
  | aside => exact tidy.kept (aside_kept tracks.sound part)
  | restart form =>
    obtain rfl := Operation.eq_setForm part
    refine ⟨Selection.marks_empty (unlit form rfl), ?_⟩
    intro direction command listed
    cases direction <;> cases listed
  | replay direction =>
    obtain rfl := Operation.eq_act_action part
    exact (tidy.replayed tracks direction).2 (spares direction rfl)

/-- After a run that spares highlights, the editor is tidy. -/
theorem Tidy.run (tidy : editor.Tidy) (tracks : Tracks closeness editor timeline)
    (admitted : AdmitsAll closeness editor operations)
    (unlit : ∀ form, Operation.setForm form ∈ operations → ∀ id : NodeId, ¬ form.isHighlighted id)
    (spares : Spares editor operations) : (editor.after operations).Tidy := by
  induction operations generalizing editor timeline with
  | nil => exact tidy
  | cons operation operations ih =>
    have first := tidy.leave tracks admitted.1
      (fun form same => unlit form (same ▸ List.mem_cons_self)) spares.1
    exact ih first (tracks.leave admitted.1) admitted.2
      (fun form listed => unlit form (List.mem_cons_of_mem operation listed)) spares.2

/-- A replay and the replay back leave highlights and selection in agreement exactly if the first
buries none. -/
theorem Tidy.agrees_iff (tidy : editor.Tidy) (tracks : Tracks closeness editor timeline)
    (direction : Replay) :
    (editor.after [.act direction.action, .act direction.opposite.action]).Agrees ↔
      ¬ editor.Buries direction := by
  have admitted : editor.Admits closeness (.act direction.action) := trivial
  have tracks' := tracks.leave admitted
  show ((editor.leave (.act direction.action)).leave (.act direction.opposite.action)).Agrees ↔ _
  constructor
  · intro agrees buries
    obtain ⟨command, next, -⟩ := id buries
    cases held : editor.history.standing direction with
    | nil =>
      rw [held] at next
      cases next
    | cons command rest =>
      obtain ⟨middle, command', done, first⟩ := tracks.played held
      rw [leave_action done] at agrees tracks'
      obtain ⟨after, command'', done', second⟩ := tracks'.played first.there
      rw [leave_action done'] at agrees
      exact buries.reveals tidy.agrees tracks.sound.wellFormed tracks'.sound first second agrees
  · intro spared
    exact (((tidy.replayed tracks direction).2 spared).replayed tracks' direction.opposite).1

/-! ## The law -/

/-- A form of three fields, each below the one before it. -/
def nested : Form :=
  (Branch.ofOutline ⟨10⟩ (.node .empty [.node .empty [.node .empty []]])).toForm

/-- **When what is highlighted is what is selected.**  It is after every run in which no replay
takes a selected field out of the form from below a field that its command names; and of the
replays that may come next, those that do so, and no others, lead to a highlight without a
selection when they are replayed back. -/
theorem highlight_law {form : Form} {settings : Settings} {supply : Supply}
    (valid : form.validate = .ok ()) (unlit : ∀ id : NodeId, ¬ form.isHighlighted id)
    (older : ∀ id : NodeId, form.contains id → id.number < supply.next)
    (admitted : AdmitsAll .links (ofForm form settings supply) operations)
    (given : ∀ form, Operation.setForm form ∈ operations → ∀ id : NodeId, ¬ form.isHighlighted id)
    (spares : Spares (ofForm form settings supply) operations) :
    let editor := (ofForm form settings supply).after operations
    (∀ id : NodeId, editor.form.isHighlighted id ↔ id ∈ editor.highlighted) ∧
      ∀ direction : Replay,
        (editor.after [.act direction.action, .act direction.opposite.action]).Agrees ↔
          ¬ editor.Buries direction := by
  have known : form.Known .links supply := Form.known_iff.mpr ⟨older, nofun⟩
  have start : Tracks .links (ofForm form settings supply) (.start form) :=
    ofForm_tracks valid known
  have tidy : (ofForm form settings supply).Tidy := by
    refine ⟨Selection.marks_empty unlit, ?_⟩
    intro direction command listed
    cases direction <;> cases listed
  have tidy' := tidy.run start admitted given spares
  exact ⟨tidy'.agrees, fun direction => tidy'.agrees_iff (start.run admitted) direction⟩

/-- The law at an import whose copies are selected below their top. -/
theorem highlight_law_import :
    let start := ofForm (Form.blankProtocol ⟨0⟩) {} ⟨2⟩
    let operations : List Operation := [.importFields nested [⟨11⟩], .select ⟨3⟩ true]
    (start.after operations).Agrees ∧
      ∀ direction : Replay,
        ((start.after operations).after
          [.act direction.action, .act direction.opposite.action]).Agrees ↔
            ¬ (start.after operations).Buries direction := by
  have start : (blank ⟨0⟩).Sound .links ∧ _ := blank_sound ⟨0⟩
  refine highlight_law (by decide +kernel) start.2 (fun id => start.1.known.older)
    ⟨nofun, trivial, trivial⟩ (by simp)
    ⟨fun direction same => ?_, fun direction same => ?_, trivial⟩
  · cases same
  · cases same

/-- A child of an imported field is selected, and the import is undone and redone: then the child is
highlighted, and its parent is selected. -/
theorem highlight_law_fails :
    ¬ ((blank ⟨0⟩).after
      [.importFields nested [⟨11⟩], .select ⟨3⟩ true, .act .undo, .act .redo]).Agrees := by
  intro agrees
  have selected := (agrees ⟨3⟩).mp (by decide +kernel)
  revert selected
  decide +kernel

end Editor

end FormEditor
