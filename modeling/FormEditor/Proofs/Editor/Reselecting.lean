import FormEditor.Proofs.Editor.Timelines
import FormEditor.Proofs.Form.Removals

/-!
# What is selected after a replay

A replay that moves fields, inserts them, or puts them back selects these fields
(`Command.brought`).  A replay that takes fields out, or changes values, keeps what is left of the
selection.  The code checks in both cases that what it is about to select is a run, and has a way
out if it is not.  It never goes that way.

For what is left of the selection this holds of every form: fields may be taken out of a block, from
above it or from below it, and what is left is a block (`Form.WellFormed.block_detachAll`).  Fields
that are put back are a block because they were one when they were removed.  Only selected fields
are removed or moved, and so each command names a block of the form that it was carried out on.
That form is in the timeline (`Timeline.older`): for a command to undo it is the form that undoing
leads to, and for a command to redo the one that redoing starts from.  The invariant is
`Editor.NamesBlocks`; whatever an operation comes to preserves it (`NamesBlocks.advance`).

Main statement: `reselection_law`.
-/

set_option autoImplicit false

namespace FormEditor

/-! ## What a replay brings and what it leaves -/

/-- Changes of attributes leave all of a block. -/
theorem Form.WellFormed.block_rewritten {form : Form} {changes : List Change} {parent : NodeId}
    {start : Nat} {block : List NodeId} (wellFormed : form.WellFormed)
    (standing : form.Block parent start block) :
    ∃ start', (form.rewritten changes).Block parent start'
      (block.filter (form.rewritten changes).contains) := by
  have links : (form.rewritten changes).Alike (Attributes.shown .links) form :=
    Form.rewritten_links
  have all : block.filter (form.rewritten changes).contains = block :=
    List.filter_eq_self.mpr fun id listed => by
      rw [links.contains_eq]
      exact standing.contains wellFormed.toLinksFit listed
  rw [all]
  exact ⟨start, links.symm.block standing⟩

namespace Command

open Form

variable {closeness : Closeness} {command command' : Command} {direction : Replay}
  {form after : Form} {ids : List NodeId}

/-- Whether a command names a block does not depend on what it holds. -/
theorem NamesBlock.emptied (names : command.NamesBlock form)
    (same : command'.emptied = command.emptied) : command'.NamesBlock form := by
  have named : command'.named? = command.named? := by
    rw [← command'.named?_emptied, same, command.named?_emptied]
  unfold NamesBlock
  rw [named]
  exact names

theorem NamesBlock.alike {α : Type} {view : Attributes → α} {other : Form}
    (names : command.NamesBlock form) (alike : form.Alike view other) :
    command.NamesBlock other := by
  intro ids named
  obtain ⟨filled, parent, start, block⟩ := names ids named
  exact ⟨filled, parent, start, alike.block block⟩

/-- The fields that a replay moves, inserts, or puts back.  A replay that takes fields out or
changes values has none. -/
def brought : Command → Replay → Option (List NodeId)
  | .move _ ids, _ => some ids
  | .promote way, _ | .demote way, _ => some way.ids
  | .insert _ placement _, .redo => some placement.ids
  | .delete ids _, .undo => some ids
  | .insert _ _ _, .undo | .delete _ _, .redo | .values _ _, _ => none

theorem selectionAfter_eq : command.selectionAfter direction =
    (command.brought direction).getD [] := by
  cases command <;> cases direction <;> rfl

/-- What a replay brings when a command is undone are the fields that it names. -/
theorem named?_of_brought (brought : command.brought .undo = some ids) :
    command.named? = some ids := by
  cases command <;> exact brought

/-- What a replay brings when a command is carried out stands side by side. -/
theorem Appliable.block_brought (appliable : Appliable closeness form command)
    (wellFormed : form.WellFormed) (names : command.NamesBlock form)
    (done : Command.apply (command, form) = .ok () (command', after))
    (brought : command.brought .redo = some ids) :
    ids ≠ [] ∧ ∃ parent start, after.Block parent start ids := by
  cases appliable with
  | @insert kind placement held filled named restorable =>
    obtain ⟨stored, room⟩ := room_of_restorable filled restorable
    have complete := (congrArg List.length named).symm.trans (List.length_map Branch.root)
    cases done.symm.trans
      (apply_insert complete.symm stored (attachAll_of_restorable restorable))
    cases brought
    rw [← named]
    exact ⟨by simpa using filled, _, _, restorable.block_restored room⟩
  | delete | values => cases brought
  | @moveUp ids parent passed front back nonempty children =>
    obtain ⟨form', moved, -, children', -⟩ := moveUp_round wellFormed nonempty children
    cases done.symm.trans (apply_move (shift_of_applied moved))
    cases brought
    exact ⟨nonempty, parent, front.length, front, passed :: back, by rw [children']; simp, rfl⟩
  | @moveDown ids parent passed front back nonempty children =>
    obtain ⟨form', moved, -, children', -⟩ := moveDown_round wellFormed nonempty children
    cases done.symm.trans (apply_move (shift_of_applied moved))
    cases brought
    exact ⟨nonempty, parent, _, front ++ [passed], back, by rw [children']; simp, rfl⟩
  | promote transfer start gap | demote transfer start gap =>
    obtain ⟨form', moved, -, again, -⟩ := follow_round wellFormed transfer start gap
    cases done.symm.trans (keeping_of_ok moved)
    cases brought
    exact ⟨(names _ rfl).1, _, _, again.block⟩

/-- After a replay that brings nothing, what is left of a block is a block. -/
theorem Playable.block_left (playable : Playable closeness direction form command)
    (wellFormed : form.WellFormed)
    (done : Command.play direction (command, form) = .ok () (command', after))
    (none : command.brought direction = none) {parent : NodeId} {start : Nat}
    {block : List NodeId} (standing : form.Block parent start block) :
    ∃ start', after.Block parent start' (block.filter after.contains) := by
  cases direction with
  | undo =>
    have revertible : Revertible closeness form command := playable
    cases revertible with
    | insert nonempty stored inserted =>
      have removable := inserted.removable wellFormed
      obtain ⟨made, last, further, -⟩ := wellFormed.exists_detachAll removable
      cases done.symm.trans (revert_insert stored inserted further)
      exact wellFormed.block_detachAll removable further standing
    | values traces =>
      cases done.symm.trans (keeping_of_ok (onForm_of_ok traces.revertChanges_eq))
      exact wellFormed.block_rewritten standing
    | delete | moveUp | moveDown | promote | demote => cases none
  | redo =>
    have appliable : Appliable closeness form command := playable
    cases appliable with
    | delete removable =>
      obtain ⟨made, last, further, -⟩ := wellFormed.exists_detachAll removable
      cases done.symm.trans (apply_delete ((removable.deleteFields_eq wellFormed).trans further))
      exact wellFormed.block_detachAll removable further standing
    | values traces =>
      cases done.symm.trans (keeping_of_ok (onForm_of_ok traces.applyChanges_eq))
      exact wellFormed.block_rewritten standing
    | insert | moveUp | moveDown | promote | demote => cases none

end Command

/-! ## The forms that commands were carried out on -/

namespace Timeline

variable {timeline : Timeline} {direction : Replay} {there : Form} {forms : List Form}

/-- For each command to undo or to redo, the next one first, the form that it was carried out on. -/
def older (timeline : Timeline) : Replay → List Form
  | .undo => timeline.past
  | .redo => timeline.present :: timeline.future

/-- When the cursor goes to a side, the older one of the two forms that it goes between stays with
the command that is replayed. -/
theorem older_turn (ahead : timeline.side direction = there :: forms) :
    ∃ form rest, timeline.older direction = form :: rest ∧
      (timeline.turn direction).older direction = rest ∧
        (timeline.turn direction).older direction.opposite =
          form :: timeline.older direction.opposite := by
  obtain ⟨past, present, future⟩ := timeline
  cases direction <;> cases ahead <;> exact ⟨_, _, rfl, rfl, rfl⟩

end Timeline

theorem History.mem_zip_of_bounded {κ κ' : Type} {limit : Nat} {commands : List κ}
    {others : List κ'} {pair : κ × κ'}
    (listed : pair ∈ (bounded limit commands).zip (bounded limit others)) :
    pair ∈ commands.zip others := by
  unfold bounded at listed
  split at listed
  · exact listed
  · rw [List.zip, ← List.take_zipWith] at listed
    exact List.mem_of_mem_take listed

namespace Editor

open Form

variable {closeness : Closeness} {editor after : Editor} {timeline : Timeline}
  {operation : Operation} {operations : List Operation} {direction : Replay}

/-- A block that a replay asks for is selected. -/
theorem reselected_of_block {selection : Selection} {form : Form} {parent : NodeId} {start : Nat}
    {ids : List NodeId} (wellFormed : form.WellFormed) (filled : ids ≠ [])
    (block : form.Block parent start ids) :
    reselected selection ids form =
      (⟨ids, false⟩, (selection.unmark form).setAllHighlighted true ids) := by
  have selected : selection.selectRun ids form = _ :=
    Selecting.onForm_of_ok (selection.selectRun_of_block wellFormed filled block)
  unfold reselected
  rw [if_neg (by simpa using filled), selected]

/-! ## The invariant -/

/-- Every command names a block of the form that it was carried out on. -/
def NamesBlocks (editor : Editor) (timeline : Timeline) : Prop :=
  ∀ direction, ∀ step ∈ (editor.history.standing direction).zip (timeline.older direction),
    step.1.NamesBlock step.2

theorem namesBlocks_of_nil (none : ∀ direction, editor.history.standing direction = []) :
    NamesBlocks editor timeline := by
  intro direction step listed
  rw [none direction] at listed
  cases listed

theorem NamesBlocks.kept (names : NamesBlocks editor timeline)
    (kept : Kept closeness editor after) : NamesBlocks after timeline := by
  unfold NamesBlocks
  rw [kept.history]
  exact names

/-- A recorded command names a block of the form that was under the cursor. -/
theorem NamesBlocks.recorded (names : NamesBlocks editor timeline)
    (tracks : Tracks closeness editor timeline) (recorded : Recorded closeness editor after) :
    NamesBlocks after
      (timeline.record editor.settings.history.maxEntries.toNat after.form) := by
  obtain ⟨base, form', command, command', -, -, -, -, history, -, named⟩ := recorded.carried
  intro direction step listed
  rw [history] at listed
  cases direction with
  | undo =>
    rw [← tracks.limit] at listed
    have listed : step ∈ (command' :: editor.history.done).zip
        (timeline.present :: timeline.past) := History.mem_zip_of_bounded listed
    rw [List.zip_cons_cons] at listed
    rcases List.mem_cons.mp listed with rfl | listed
    · exact named.alike tracks.present
    · exact names .undo step listed
  | redo => cases listed

/-- A replay moves the command to the other side, and the form it was carried out on with it. -/
theorem NamesBlocks.replayed (names : NamesBlocks editor timeline)
    (tracks : Tracks closeness editor timeline) (direction : Replay) :
    NamesBlocks (editor.leave (.act direction.action)) (timeline.turn direction) := by
  cases next : editor.history.standing direction with
  | nil =>
    rw [leave_action (replay_of_nil next), Timeline.turn_of_nil (tracks.side_eq_nil next)]
    exact names
  | cons command rest =>
    obtain ⟨there, forms, ahead, turns, -⟩ := tracks.exists_turn next
    obtain ⟨form, others, behind, before, beyond⟩ := Timeline.older_turn ahead
    obtain ⟨command', form', played, -⟩ := turns.back tracks.sound.wellFormed
    have steps := names direction
    rw [next, behind, List.zip_cons_cons] at steps
    obtain ⟨first, further⟩ := List.forall_mem_cons.mp steps
    rw [leave_action (replay_eq next played)]
    intro other step listed
    have listed : step ∈ ((editor.history.turned command' direction).standing other).zip
        ((timeline.turn direction).older other) := listed
    rcases other.eq_or_eq_opposite direction with rfl | rfl
    · rw [History.standing_turned, next, before] at listed
      exact further step listed
    · rw [History.standing_turned_opposite, beyond, List.zip_cons_cons] at listed
      rcases List.mem_cons.mp listed with rfl | listed
      · exact first.emptied (Command.emptied_of_play played)
      · exact names direction.opposite step listed

/-- **Whatever an operation comes to, commands name blocks of the forms that they were carried out
on.** -/
theorem NamesBlocks.advance {timeline' : Timeline} (names : NamesBlocks editor timeline)
    (tracks : Tracks closeness editor timeline)
    (advances : Advances closeness editor timeline after timeline') :
    NamesBlocks after timeline' := by
  cases advances with
  | recorded recorded => exact names.recorded tracks recorded
  | kept kept => exact names.kept kept
  | restarted => exact namesBlocks_of_nil fun direction => by cases direction <;> rfl
  | replayed direction => exact names.replayed tracks direction

/-- After a run every command names a block of the form that it was carried out on. -/
theorem NamesBlocks.run (names : NamesBlocks editor timeline)
    (tracks : Tracks closeness editor timeline)
    (admitted : AdmitsAll closeness editor operations) :
    NamesBlocks (editor.after operations) (timeline.along editor operations) := by
  induction operations generalizing editor timeline with
  | nil => exact names
  | cons operation operations ih =>
    exact ih (names.advance tracks (advances_leave tracks.sound admitted.1))
      (tracks.leave admitted.1) admitted.2

/-! ## One replay -/

/-- What is selected after a replay of a command.  It is what the command brings, in order, or else
the fields that are left of those that were selected before, and the root if it was.  Unless nothing
is left, it is a run. -/
def Reselects (before : Editor) (direction : Replay) (command : Command) (after : Editor) : Prop :=
  match command.brought direction with
  | some ids =>
    after.selection = ⟨ids, false⟩ ∧ ∃ run, after.form.run ids = .ok run ∧ run.ids = ids
  | none =>
    let kept := before.selection.fields.filter after.form.contains
    after.selection = ⟨kept, before.selection.rootSelected⟩ ∧
      (kept = [] ∨ ∃ run, after.form.run kept = .ok run ∧ run.ids = kept)

/-- What the command that is replayed next brings stands side by side. -/
theorem NamesBlocks.block_brought (names : NamesBlocks editor timeline)
    (tracks : Tracks closeness editor timeline) {command command' : Command}
    {rest : List Command} {form : Form} {ids : List NodeId}
    (next : editor.history.standing direction = command :: rest)
    (played : Command.play direction (command, editor.form) = .ok () (command', form))
    (brought : command.brought direction = some ids) :
    ids ≠ [] ∧ ∃ parent start, form.Block parent start ids := by
  obtain ⟨there, forms, ahead, turns, -⟩ := tracks.exists_turn next
  have steps := names direction
  rw [next] at steps
  cases direction with
  | undo =>
    obtain ⟨_, _, again, -, same, -⟩ := turns.back tracks.sound.wellFormed
    cases played.symm.trans again
    have past : timeline.older .undo = there :: forms := ahead
    rw [past, List.zip_cons_cons] at steps
    have named := steps _ List.mem_cons_self
    exact (named.alike same.symm) ids (Command.named?_of_brought brought)
  | redo =>
    have named : command.NamesBlock timeline.present := steps _ List.mem_cons_self
    exact turns.1.block_brought tracks.sound.wellFormed (named.alike tracks.present.symm) played
      brought

/-- **A replay selects what the command brings, or keeps what is left of the selection.** -/
theorem Tracks.reselects (tracks : Tracks closeness editor timeline)
    (names : NamesBlocks editor timeline) {command : Command} {rest : List Command}
    (next : editor.history.standing direction = command :: rest) :
    ∃ after, Editor.replay direction editor = .ok ⟨⟩ after ∧
      Reselects editor direction command after := by
  obtain ⟨there, forms, -, turns, -⟩ := tracks.exists_turn next
  obtain ⟨command', form, played, grown, -⟩ := turns.back tracks.sound.wellFormed
  have asked : command'.selectionAfter direction = (command.brought direction).getD [] := by
    rw [← Command.selectionAfter_emptied, Command.emptied_of_play played,
      Command.selectionAfter_emptied, Command.selectionAfter_eq]
  refine ⟨editor.turned direction command' form, replay_eq next played, ?_⟩
  have selected : ((editor.turned direction command' form).selection,
      (editor.turned direction command' form).form) =
        reselected editor.selection ((command.brought direction).getD []) form := by
    rw [← asked]
    rfl
  generalize editor.turned direction command' form = after at selected
  unfold Reselects
  cases brought : command.brought direction with
  | some ids =>
    obtain ⟨filled, parent, start, block⟩ := names.block_brought tracks next played brought
    obtain ⟨alike, -⟩ := editor.selection.fits_of_block grown block
    rw [brought, Option.getD_some, reselected_of_block grown filled block] at selected
    obtain ⟨fields, marked⟩ := Prod.mk.inj selected
    rw [← marked] at alike
    have grown' := alike.symm.wellFormed grown
    exact ⟨fields, _, grown'.run_of_block (alike.symm.block block) filled, rfl⟩
  | none =>
    have standing : ∃ parent start,
        editor.form.Block parent start editor.selection.fields := by
      rcases tracks.sound.fits with none | ⟨-, block⟩
      · rw [none]
        exact ⟨editor.form.root, 0, [], _, rfl, rfl⟩
      · exact block
    obtain ⟨parent, start, standing⟩ := standing
    obtain ⟨start', left⟩ :=
      turns.1.block_left tracks.sound.wellFormed played brought standing
    rw [brought] at selected
    obtain ⟨fields, same⟩ :=
      Prod.mk.inj (selected.trans (editor.selection.prune_of_block grown left))
    rw [← same] at grown left fields
    refine ⟨fields, ?_⟩
    by_cases gone : editor.selection.fields.filter after.form.contains = []
    · exact .inl gone
    · exact .inr ⟨_, grown.run_of_block left gone, rfl⟩

/-! ## The law -/

/-- **What is selected after a replay.**  After every run, if there is a command to undo or to redo,
the replay succeeds.  If it moves fields, inserts them or puts them back, these are selected, in
order and without the root.  If not, those of the selected fields that are still in the form stay
selected, in order, and so does the root.  The fields in question always are a run, so that a
selection is never dropped for want of one. -/
theorem reselection_law {form : Form} {settings : Settings} {supply : Supply}
    (valid : form.validate = .ok ())
    (older : ∀ id : NodeId, form.contains id → id.number < supply.next)
    (admitted : AdmitsAll .links (ofForm form settings supply) operations)
    {command : Command} {rest : List Command}
    (next : ((ofForm form settings supply).after operations).history.standing direction =
      command :: rest) :
    let editor := (ofForm form settings supply).after operations
    ∃ after, replay direction editor = .ok ⟨⟩ after ∧
      Reselects editor direction command after := by
  have known : form.Known .links supply := Form.known_iff.mpr ⟨older, nofun⟩
  have start : Tracks .links (ofForm form settings supply) (.start form) :=
    ofForm_tracks valid known
  have names : NamesBlocks (ofForm form settings supply) (.start form) :=
    namesBlocks_of_nil fun direction => by cases direction <;> rfl
  exact (start.run admitted).reselects (names.run start admitted) next

/-- Two fields are selected, of which one was added last.  When this is undone, the other one stays
selected. -/
theorem reselection_law_overlapping :
    let start := ofForm (Form.blankProtocol ⟨0⟩) {} ⟨2⟩
    let operations : List Operation :=
      [.select ⟨1⟩ true, .act .addNewField, .select ⟨1⟩ false]
    let editor := start.after operations
    editor.selection = ⟨[⟨1⟩, ⟨2⟩], false⟩ ∧
      ∃ after, replay .undo editor = .ok ⟨⟩ after ∧
        Reselects editor .undo (.insert .add ⟨⟨⟨0⟩, 1⟩, [⟨2⟩]⟩ []) after ∧
          after.selection = ⟨[⟨1⟩], false⟩ := by
  intro start operations editor
  have blank : (blank ⟨0⟩).Sound .links ∧ _ := blank_sound ⟨0⟩
  have admitted : AdmitsAll .links start operations := ⟨trivial, trivial, trivial, trivial⟩
  have next : editor.history.standing .undo = [.insert .add ⟨⟨⟨0⟩, 1⟩, [⟨2⟩]⟩ []] := by
    decide +kernel
  obtain ⟨after, done, follows⟩ :=
    reselection_law (by decide +kernel) (fun id => blank.1.known.older) admitted next
  refine ⟨by decide +kernel, after, done, follows, ?_⟩
  rw [← leave_action done]
  decide +kernel

end Editor

end FormEditor
