import FormEditor.Proofs.Histories
import FormEditor.Proofs.Refusals

/-!
# Replays that fail

A history may be replayed on a form that was edited past it.  Then the form need not fit the
commands any more, and a replay may fail.  That should lose nothing: once the other edits have been
taken back, the same replay should bring back what it would have brought back before.

A session (`Session.after`) posts insertions and deletions that were made, edits the form in any
other way, and replays, whether that succeeds or fails.  It remembers between which forms each
command leads, and so it can be said what a replay would have brought back.

A failure loses nothing when the replay takes fields out, or when it carries an insertion out and
the parent is gone.  Any other failure loses the branches of the command.  The invariant is
`Session.Sound`: each command still leads between its two forms, or its branches are lost already.

Main statements: `failed_replay`, which says exactly which failures lose nothing; and
`failed_redo_loses` and `failed_undo_loses`, where something is lost.
-/

set_option autoImplicit false

namespace FormEditor

/-! ## Commands between two forms -/

/-- The form that a command is to be replayed on, and the one to which that leads. -/
structure Mark where
  here : Form
  there : Form

namespace Command

variable {closeness : Closeness} {direction : Replay} {command command' : Command} {mark : Mark}
  {form form' : Form} {error : EditError}

/-- A command that waits for a replay: it leads between the forms that are remembered for it, or it
has lost its branches. -/
inductive Waits (direction : Replay) (command : Command) (mark : Mark) : Prop where
  | ready : command.Holding → mark.here.WellFormed →
      (∀ closeness, Turns closeness direction command mark.here mark.there) →
        Waits direction command mark
  | spent : Spent direction command → Waits direction command mark

/-- A command that is replayed waits for the replay back, whatever the form is. -/
theorem waits_of_play (holding : command.Holding) (wellFormed : form.WellFormed)
    (playable : ∀ closeness, Playable closeness direction form command)
    (done : play direction (command, form) = .ok () (command', form')) :
    form'.WellFormed ∧ Waits direction.opposite command' ⟨form', form⟩ := by
  have back := fun closeness => Turns.back_of_play (playable closeness) wellFormed done
  have kept := (back .links).1
  exact ⟨kept, .ready (holding.of_emptied (emptied_of_play done)) kept
    fun closeness => (back closeness).2⟩

/-- After a replay that succeeds, on whatever form, the command waits for the replay back. -/
theorem Turns.accepted {here there : Form} (turns : Turns closeness direction command here there)
    (holding : command.Holding) (wellFormed : form.WellFormed)
    (done : play direction (command, form) = .ok () (command', form')) :
    form'.WellFormed ∧ Waits direction.opposite command' ⟨form', form⟩ := by
  cases direction with
  | undo =>
    refine waits_of_play holding wellFormed (fun _ => ?_) done
    exact Revertible.accepted turns.1 holding wellFormed done
  | redo =>
    rcases Appliable.accepted turns.1 holding wellFormed done with appliable | ⟨kept, spent⟩
    · exact waits_of_play holding wellFormed appliable done
    · exact ⟨kept, .spent spent⟩

/-- A command that waits goes on waiting when its replay fails. -/
theorem Waits.refused (waits : Waits direction command mark) (wellFormed : form.WellFormed)
    (refused : Command.play direction (command, form) = .error error (command', form')) :
    form'.WellFormed ∧ Waits direction command' mark := by
  cases waits with
  | ready holding here turns =>
    obtain ⟨kept, ⟨-, rfl, rfl⟩ | ⟨-, spent⟩⟩ := (turns .links).1.refused holding wellFormed refused
    · exact ⟨kept, .ready holding here turns⟩
    · exact ⟨kept, .spent spent⟩
  | spent spent =>
    obtain ⟨_, early⟩ := play_of_spent spent form
    cases refused.symm.trans early
    exact ⟨wellFormed, .spent spent⟩

/-- An insertion that was made waits to be taken back. -/
theorem waits_of_attachAll {place : Position} {branches : List Branch} (kind : InsertKind)
    (wellFormed : form.WellFormed) (filled : branches ≠ [])
    (whole : ∀ branch ∈ branches, branch.Whole)
    (done : Form.attachAll place.parent place.index branches form = .ok () form') :
    form'.WellFormed ∧
      Waits .undo (.insert kind ⟨place, branches.map Branch.root⟩ []) ⟨form', form⟩ := by
  have restorable := Form.restorable_of_attachAll filled whole done
  let placement : Placement := ⟨place, branches.map Branch.root⟩
  have complete : branches.length = placement.ids.length := by
    rw [List.length_map]
  have applied : play .redo (.insert kind placement branches, form) =
      .ok () (.insert kind placement [], form') :=
    apply_insert complete (room_of_restorable filled restorable).1 done
  have holding : (Command.insert kind placement branches).Holding := trivial
  refine waits_of_play holding wellFormed (fun closeness => ?_) applied
  show Appliable closeness form (.insert kind placement branches)
  exact .insert filled rfl restorable

/-- A deletion that was made waits to be taken back. -/
theorem waits_of_deleteFields {ids : List NodeId} {removals : List Removal}
    (wellFormed : form.WellFormed) (done : Form.deleteFields ids form = .ok removals form') :
    form'.WellFormed ∧ Waits .undo (.ofRemovals removals) ⟨form', form⟩ := by
  rcases Form.deleteFields_cases wellFormed ids with ⟨fault, refused⟩ | ⟨-, made, after, ran, taken⟩
  · cases done.symm.trans refused
  · cases done.symm.trans ran
    have complete : removals.length = (removals.map Removal.id).length := by
      rw [List.length_map]
    have reverted : play .undo (.ofRemovals removals, form') =
        .ok () (.delete (removals.map Removal.id) [], form'.restored removals) :=
      revert_delete complete (Form.restoreFields_of_restorable taken.restorable)
    exact ⟨taken.wellFormed, .ready trivial taken.wellFormed fun closeness =>
      ⟨Revertible.delete rfl taken.restorable, _, _, reverted, taken.alike_restored.of_full⟩⟩

/-- A command without its branches stays where it is in the history, whatever the form is. -/
theorem replayHistory_of_spent {history : History Command} {rest : List Command}
    (next : history.standing direction = command :: rest) (spent : Spent direction command)
    (form : Form) :
    ∃ error, Editor.replayHistory direction (history, form) = .error error (history, form) := by
  obtain ⟨error, refused⟩ := play_of_spent spent form
  refine ⟨error, ?_⟩
  rw [Editor.replayHistory_eq, History.replay_of_error next refused, History.stuck_self next]

end Command

/-! ## Sessions -/

/-- A history, the form that it is used on, and what is remembered for its commands. -/
structure Session where
  history : History Command
  form : Form
  done : List Mark
  undone : List Mark

namespace Session

/-- What is remembered for the commands that stand by for a replay. -/
def marks (session : Session) : Replay → List Mark
  | .undo => session.done
  | .redo => session.undone

/-- The session after an edit that led to a form was posted. -/
def posted (session : Session) (command : Command) (form : Form) : Session where
  history := session.history.post command
  form := form
  done := History.bounded session.history.limit (⟨form, session.form⟩ :: session.done)
  undone := []

/-- The session after a replay that led to a form. -/
def replayed (session : Session) (history : History Command) (form : Form) : Replay → Session
  | .undo => ⟨history, form, session.done.tail, ⟨form, session.form⟩ :: session.undone⟩
  | .redo => ⟨history, form, ⟨form, session.form⟩ :: session.done, session.undone.tail⟩

section Replayed

variable {session : Session} {direction : Replay} {history : History Command} {form : Form}

theorem history_replayed : (session.replayed history form direction).history = history := by
  cases direction <;> rfl

theorem form_replayed : (session.replayed history form direction).form = form := by
  cases direction <;> rfl

theorem marks_replayed :
    (session.replayed history form direction).marks direction = (session.marks direction).tail := by
  cases direction <;> rfl

theorem marks_replayed_opposite :
    (session.replayed history form direction).marks direction.opposite =
      ⟨form, session.form⟩ :: session.marks direction.opposite := by
  cases direction <;> rfl

end Replayed

/-- What may happen in a session. -/
inductive Event where
  /-- Fields are inserted, and the insertion is posted. -/
  | insert (kind : InsertKind) (place : Position) (branches : List Branch)
  /-- Fields are deleted, and the deletion is posted. -/
  | delete (ids : List NodeId)
  /-- The form becomes another, past the history. -/
  | direct (form : Form)
  /-- The history is replayed. -/
  | replay (direction : Replay)

/-- The session after an event.  An edit that is refused is not made; a replay that fails may leave
traces in the history and the form. -/
def next (session : Session) : Event → Session
  | .insert kind place branches =>
    match Form.attachAll place.parent place.index branches session.form with
    | .ok () form => session.posted (.insert kind ⟨place, branches.map Branch.root⟩ []) form
    | .error _ _ => session
  | .delete ids =>
    match Form.deleteFields ids session.form with
    | .ok removals form => session.posted (.ofRemovals removals) form
    | .error _ _ => session
  | .direct form => { session with form }
  | .replay direction =>
    match Editor.replayHistory direction (session.history, session.form) with
    | .ok (some _) (history, form) => session.replayed history form direction
    | .ok none _ => session
    | .error _ (history, form) => { session with history, form }

/-- A session in which nothing has happened. -/
def start (form : Form) (limit : Nat) : Session := ⟨.empty limit, form, [], []⟩

/-- The session after several events. -/
def after (session : Session) (events : List Event) : Session := events.foldl next session

/-- An insertion inserts something, made of whole branches, and other edits lead to valid forms. -/
def Event.Admitted : Event → Prop
  | .insert _ _ branches => branches ≠ [] ∧ ∀ branch ∈ branches, branch.Whole
  | .direct form => form.validate = .ok ()
  | _ => True

/-- Why a replay fails, if it does. -/
def refusal (session : Session) (direction : Replay) : Option EditError :=
  match Editor.replayHistory direction (session.history, session.form) with
  | .ok _ _ => none
  | .error error _ => some error

/-- Once the form is back at what the next command is remembered for, its replay leads where it
should. -/
def Recovers (session : Session) (direction : Replay) : Prop :=
  ∃ mark ∈ (session.marks direction).head?, ∀ (closeness : Closeness) (form : Form),
    mark.here.Alike (Attributes.shown closeness) form →
      ∃ command history' form', Editor.replayHistory direction (session.history, form) =
        .ok (some command) (history', form') ∧
          form'.Alike (Attributes.shown closeness) mark.there

/-- The next replay fails on every form. -/
def Stranded (session : Session) (direction : Replay) : Prop :=
  ∀ form : Form, ∃ error, Editor.replayHistory direction (session.history, form) =
    .error error (session.history, form)

/-- The next replay takes fields out, or it would put branches back that are at hand, and the parent
is gone. -/
def Keeps (session : Session) (direction : Replay) : Prop :=
  ∃ command ∈ (session.history.standing direction).head?,
    ¬ Command.Spent direction command ∧ Command.Guarded direction command session.form

/-- The form is well-formed, and all commands wait for their replays. -/
structure Sound (session : Session) : Prop where
  wellFormed : session.form.WellFormed
  waits : ∀ direction, List.Forall₂ (Command.Waits direction) (session.history.standing direction)
    (session.marks direction)

variable {session : Session} {direction : Replay} {command command' : Command} {form : Form}
  {history : History Command} {event : Event} {events : List Event} {error : EditError}

/-- The command that is replayed next has something remembered for it. -/
theorem Sound.exists_mark {rest : List Command} (sound : session.Sound)
    (first : session.history.standing direction = command :: rest) :
    ∃ mark marks, session.marks direction = mark :: marks ∧ Command.Waits direction command mark ∧
      List.Forall₂ (Command.Waits direction) rest marks := by
  have waits := sound.waits direction
  rw [first, List.forall₂_cons_left_iff] at waits
  obtain ⟨mark, marks, here, others, same⟩ := waits
  exact ⟨mark, marks, same, here, others⟩

/-- An edit that leads back is posted. -/
theorem Sound.posted (sound : session.Sound) (wellFormed : form.WellFormed)
    (first : Command.Waits .undo command ⟨form, session.form⟩) :
    (session.posted command form).Sound := by
  refine ⟨wellFormed, ?_⟩
  intro direction
  have waits := List.Forall₂.cons first (sound.waits .undo)
  cases direction with
  | redo => exact .nil
  | undo =>
    show List.Forall₂ _ (History.bounded _ _) (History.bounded _ _)
    unfold History.bounded
    split
    · exact waits
    · exact List.forall₂_take _ waits

theorem Sound.replayed (sound : session.Sound)
    (done : Editor.replayHistory direction (session.history, session.form) =
      .ok (some command') (history, form)) : (session.replayed history form direction).Sound := by
  rw [Editor.replayHistory_eq] at done
  obtain ⟨command, rest, first, played, rfl⟩ := History.exists_of_replay_eq_ok done
  obtain ⟨mark, marks, remembered, waits, others⟩ := sound.exists_mark first
  cases waits with
  | spent spent =>
    obtain ⟨_, refused⟩ := Command.play_of_spent spent session.form
    cases played.symm.trans refused
  | ready holding here turns =>
    obtain ⟨wellFormed, back⟩ := (turns .links).accepted holding sound.wellFormed played
    refine ⟨form_replayed ▸ wellFormed, ?_⟩
    intro other
    rw [history_replayed]
    rcases other.eq_or_eq_opposite direction with rfl | rfl
    · rw [History.standing_turned, marks_replayed, first, remembered]
      exact others
    · rw [History.standing_turned_opposite, marks_replayed_opposite]
      exact .cons back (sound.waits direction.opposite)

theorem Sound.failed (sound : session.Sound)
    (refused : Editor.replayHistory direction (session.history, session.form) =
      .error error (history, form)) : Sound { session with history, form } := by
  rw [Editor.replayHistory_eq] at refused
  obtain ⟨command, rest, command', first, played, rfl⟩ :=
    History.exists_of_replay_eq_error refused
  obtain ⟨mark, marks, remembered, waits, others⟩ := sound.exists_mark first
  obtain ⟨wellFormed, again⟩ := waits.refused sound.wellFormed played
  refine ⟨wellFormed, ?_⟩
  intro other
  show List.Forall₂ _ ((session.history.stuck command' direction).standing other)
    (session.marks other)
  rcases other.eq_or_eq_opposite direction with rfl | rfl
  · rw [History.standing_stuck, first, remembered]
    exact .cons again others
  · rw [History.standing_stuck_opposite]
    exact sound.waits direction.opposite

theorem start_sound {limit : Nat} (valid : form.validate = .ok ()) : (start form limit).Sound := by
  refine ⟨Form.validate_eq_ok_iff.mp valid, ?_⟩
  intro direction
  cases direction <;> exact .nil

/-- Whatever happens, the commands wait for their replays. -/
theorem Sound.next (sound : session.Sound) (admitted : event.Admitted) :
    (session.next event).Sound := by
  cases event with
  | insert kind place branches =>
    unfold Session.next
    dsimp only
    split
    · next done =>
      obtain ⟨wellFormed, first⟩ :=
        Command.waits_of_attachAll kind sound.wellFormed admitted.1 admitted.2 done
      exact sound.posted wellFormed first
    · exact sound
  | delete ids =>
    unfold Session.next
    dsimp only
    split
    · next done =>
      obtain ⟨wellFormed, first⟩ := Command.waits_of_deleteFields sound.wellFormed done
      exact sound.posted wellFormed first
    · exact sound
  | direct form => exact ⟨Form.validate_eq_ok_iff.mp admitted, sound.waits⟩
  | replay direction =>
    unfold Session.next
    dsimp only
    split
    · next done => exact sound.replayed done
    · exact sound
    · next refused => exact sound.failed refused

theorem Sound.after (sound : session.Sound) (admitted : ∀ event ∈ events, event.Admitted) :
    (session.after events).Sound := by
  induction events generalizing session with
  | nil => exact sound
  | cons event events ih =>
    obtain ⟨first, others⟩ := List.forall_mem_cons.mp admitted
    exact ih (sound.next first) others

/-! ## What a failure loses -/

theorem exists_of_refusal (failed : session.refusal direction = some error) :
    ∃ history form, Editor.replayHistory direction (session.history, session.form) =
      .error error (history, form) ∧
        session.next (.replay direction) = { session with history, form } := by
  unfold refusal at failed
  unfold Session.next
  dsimp only
  cases played : Editor.replayHistory direction (session.history, session.form) with
  | ok result state =>
    rw [played] at failed
    cases failed
  | error fault state =>
    rw [played] at failed
    cases failed
    exact ⟨state.1, state.2, rfl, rfl⟩

theorem Stranded.not_recovers (stranded : session.Stranded direction) :
    ¬ session.Recovers direction := by
  rintro ⟨mark, -, recovers⟩
  obtain ⟨_, _, _, done, -⟩ := recovers .links mark.here (.refl mark.here)
  obtain ⟨_, refused⟩ := stranded mark.here
  cases done.symm.trans refused

/-- A failure leaves everything as it was, and the replay fit for another attempt; or no attempt
succeeds any more. -/
theorem Sound.failure_cases (sound : session.Sound)
    (failed : session.refusal direction = some error) :
    let after := session.next (.replay direction)
    session.Keeps direction ∧
        (after.history = session.history ∧ after.form = session.form ∧ after.Recovers direction) ∨
      ¬ session.Keeps direction ∧ after.Stranded direction := by
  obtain ⟨history, form, refused, same⟩ := exists_of_refusal failed
  rw [Editor.replayHistory_eq] at refused
  obtain ⟨command, rest, command', first, played, rfl⟩ :=
    History.exists_of_replay_eq_error refused
  obtain ⟨mark, marks, remembered, waits, -⟩ := sound.exists_mark first
  have keeps_iff : session.Keeps direction ↔
      ¬ Command.Spent direction command ∧ Command.Guarded direction command session.form := by
    unfold Keeps
    rw [first]
    simp
  rw [keeps_iff, same]
  dsimp only
  have lost : Command.Spent direction command' →
      ∀ form : Form, ∃ error, Editor.replayHistory direction
        (session.history.stuck command' direction, form) =
          .error error (session.history.stuck command' direction, form) :=
    fun spent => Command.replayHistory_of_spent History.standing_stuck spent
  cases waits with
  | spent spent =>
    obtain ⟨_, early⟩ := Command.play_of_spent spent session.form
    cases played.symm.trans early
    exact .inr ⟨fun keeps => keeps.1 spent, lost spent⟩
  | ready holding here turns =>
    have unspent := (turns .links).1.not_spent
    rcases ((turns .links).1.refused holding sound.wellFormed played).2 with
      ⟨guarded, rfl, rfl⟩ | ⟨unguarded, spent⟩
    · refine .inl ⟨⟨unspent, guarded⟩, History.stuck_self first, rfl, mark, ?_, ?_⟩
      · show mark ∈ (session.marks direction).head?
        rw [remembered]
        rfl
      · intro closeness form alike
        obtain ⟨-, again, reached, done, leads⟩ :=
          (turns closeness).alike here alike (.refl mark.there)
        rw [History.stuck_self first, Editor.replayHistory_eq, History.replay_of_ok first done]
        exact ⟨again, _, reached, rfl, leads⟩
    · exact .inr ⟨fun keeps => unguarded keeps.2, lost spent⟩

/-- A form whose root has a number of children, with ids from 10 on. -/
def fan (count : Nat) : Form :=
  (Branch.ofOutline ⟨10⟩ (.node .empty (.replicate count (.node .empty [])))).toForm

/-- A field to be inserted. -/
def leaf : Branch := .ofOutline ⟨20⟩ (.node .empty [])

/-- **When a replay that fails loses nothing.**  After any events, the form and the history are as
before the failure, and with the form back at what it was the same replay leads where it should,
exactly if the replay takes fields out, or would put branches back that are at hand at a parent that
is gone.  After any other failure the replay fails on every form. -/
theorem failed_replay {limit : Nat} (valid : form.validate = .ok ())
    (admitted : ∀ event ∈ events, event.Admitted)
    (failed : ((start form limit).after events).refusal direction = some error) :
    let before := (start form limit).after events
    let after := before.next (.replay direction)
    ((after.history = before.history ∧ after.form = before.form ∧ after.Recovers direction) ↔
      before.Keeps direction) ∧
        (¬ before.Keeps direction → after.Stranded direction) := by
  have sound : ((start form limit).after events).Sound := (start_sound valid).after admitted
  rcases sound.failure_cases failed with ⟨keeps, kept⟩ | ⟨loses, stranded⟩
  · exact ⟨iff_of_true kept keeps, fun loses => absurd keeps loses⟩
  · exact ⟨iff_of_false (fun kept => stranded.not_recovers kept.2.2) loses, fun _ => stranded⟩

/-- A field is inserted, and disappears past the history: the insertion cannot be taken back then,
but it can once the field is there again. -/
theorem failed_replay_of_insertion :
    let before := (start (fan 1) 0).after [.insert .add ⟨⟨10⟩, 1⟩ [leaf], .direct (fan 1)]
    let after := before.next (.replay .undo)
    after.history = before.history ∧ after.form = before.form ∧ after.Recovers .undo := by
  have whole : ∀ branch ∈ [leaf], branch.Whole := by
    intro branch listed
    rw [List.mem_singleton.mp listed]
    exact Form.validate_eq_ok_iff.mp (by decide +kernel)
  have admitted : ∀ event ∈ [Event.insert .add ⟨⟨10⟩, 1⟩ [leaf], .direct (fan 1)],
      event.Admitted := by
    intro event listed
    rcases List.mem_pair.mp listed with rfl | rfl
    · exact ⟨List.cons_ne_nil leaf [], whole⟩
    · show (fan 1).validate = .ok ()
      decide +kernel
  have failed : ((start (fan 1) 0).after [.insert .add ⟨⟨10⟩, 1⟩ [leaf], .direct (fan 1)]).refusal
      .undo = some (.mismatch (.notInPlace 1 ⟨⟨10⟩, 1⟩)) := by
    decide +kernel
  refine (failed_replay (by decide +kernel) admitted failed).1.mpr ?_
  exact ⟨.insert .add ⟨⟨⟨10⟩, 1⟩, [⟨20⟩]⟩ [], by decide +kernel, id, trivial⟩

/-- An insertion is taken back, a sibling before it disappears past the history, and the insertion
cannot be carried out again.  When the sibling is back, there is nothing left to insert. -/
theorem failed_redo_loses :
    let before := (start (fan 1) 0).after
      [.insert .add ⟨⟨10⟩, 1⟩ [leaf], .replay .undo, .direct (fan 0)]
    let after := before.after [.replay .redo, .direct (fan 1)]
    before.refusal .redo = some (.fault (.indexOutOfRange ⟨10⟩ 1 0)) ∧
      after.refusal .redo = some (.mismatch (.nothingToInsert "Add New Field")) := by
  decide +kernel

/-- A field is deleted, a sibling before it disappears past the history, and the deletion cannot be
taken back.  When the sibling is back, there is nothing left to restore. -/
theorem failed_undo_loses :
    let before := (start (fan 2) 0).after [.delete [⟨12⟩], .direct (fan 0)]
    let after := before.after [.replay .undo, .direct (fan 1)]
    before.refusal .undo = some (.fault (.indexOutOfRange ⟨10⟩ 1 0)) ∧
      after.refusal .undo = some (.mismatch (.nothingToRestore "Delete Fields")) := by
  decide +kernel

end Session

end FormEditor
