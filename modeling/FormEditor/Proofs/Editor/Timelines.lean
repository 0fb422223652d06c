import FormEditor.Proofs.Editor.Runs

/-!
# The history as a timeline

A timeline is the simplest account of undo and redo: a list of whole forms with a cursor
(`Timeline`).  The history of an editor keeps commands instead of forms.  Yet the form of the
editor is the one under the cursor after every run, and there are as many commands to undo and to
redo as there are forms before and after the cursor.

The invariant is `Editor.Tracks`: each command to undo leads from one form of the timeline to the
one before it, and each command to redo leads from one form to the next.  An operation comes to one
of four things (`Advances`), and all of them preserve it (`Tracks.leave`).

Main statements: `timeline_law`; and `run_invariant`, which says that forms stay valid, that
selections stay runs, and that no named action ever fails.
-/

set_option autoImplicit false

namespace FormEditor

/-! ## Timelines -/

/-- Whole forms in the order in which they came about, and a cursor: those before it, newest first,
the one under it, and those after it, the next one first. -/
structure Timeline where
  past : List Form
  present : Form
  future : List Form

namespace Timeline

/-- The timeline of a form that nothing has been done to. -/
def start (form : Form) : Timeline := ⟨[], form, []⟩

/-- A new form comes after the cursor, in the place of all that was there; as many forms are kept
before it as the limit allows, where zero is no limit. -/
def record (timeline : Timeline) (limit : Nat) (form : Form) : Timeline :=
  let past := timeline.present :: timeline.past
  ⟨if limit = 0 then past else past.take limit, form, []⟩

theorem mem_past_record {timeline : Timeline} {limit : Nat} {form new : Form}
    (listed : form ∈ (timeline.record limit new).past) :
    form ∈ timeline.present :: timeline.past := by
  unfold record at listed
  dsimp only at listed
  split at listed
  · exact listed
  · exact List.mem_of_mem_take listed

/-- The cursor goes one form back, if it can. -/
def back (timeline : Timeline) : Timeline :=
  match timeline.past with
  | [] => timeline
  | form :: past => ⟨past, form, timeline.present :: timeline.future⟩

/-- The cursor goes one form forward, if it can. -/
def forth (timeline : Timeline) : Timeline :=
  match timeline.future with
  | [] => timeline
  | form :: future => ⟨timeline.present :: timeline.past, form, future⟩

/-- The forms on one side of the cursor, the nearest one first. -/
def side (timeline : Timeline) : Replay → List Form
  | .undo => timeline.past
  | .redo => timeline.future

/-- The cursor goes one form to a side, if it can. -/
def turn (timeline : Timeline) : Replay → Timeline
  | .undo => timeline.back
  | .redo => timeline.forth

section Turning

variable {timeline : Timeline} {direction : Replay} {form : Form} {forms : List Form}

theorem turn_of_nil (none : timeline.side direction = []) : timeline.turn direction = timeline := by
  obtain ⟨past, present, future⟩ := timeline
  cases direction <;> cases none <;> rfl

/-- When the cursor goes to a side, the nearest form there comes under it, and the one that was
under it is the nearest on the other side. -/
theorem turn_of_cons (ahead : timeline.side direction = form :: forms) :
    (timeline.turn direction).present = form ∧ (timeline.turn direction).side direction = forms ∧
      (timeline.turn direction).side direction.opposite =
        timeline.present :: timeline.side direction.opposite := by
  obtain ⟨past, present, future⟩ := timeline
  cases direction <;> cases ahead <;> exact ⟨rfl, rfl, rfl⟩

end Turning

/-- Whether an edit that led from one editor to another was recorded: then it was told that what can
be undone may have changed. -/
def isRecorded (before after : Editor) : Bool :=
  (after.notices.drop before.notices.length).contains .selectionChanged

section Recorded

variable {before after : Editor} {gained : List Notice}

theorem isRecorded_of_told (notices : after.notices = before.notices ++ gained)
    (told : Notice.selectionChanged ∈ gained) : isRecorded before after = true := by
  unfold isRecorded
  rw [notices, List.drop_left]
  exact List.contains_iff_mem.mpr told

theorem not_isRecorded_of_quiet (quiet : Editor.Quiet before after) :
    ¬ isRecorded before after = true := by
  obtain ⟨gained, notices, quiet⟩ := quiet
  unfold isRecorded
  rw [notices, List.drop_left]
  exact fun told => quiet (List.contains_iff_mem.mp told)

end Recorded

/-- What an operation does to the timeline. -/
def advance (timeline : Timeline) (before : Editor) (operation : Operation) : Timeline :=
  match operation.role with
  | .edit =>
    let after := before.leave operation
    if isRecorded before after then
      timeline.record before.settings.history.maxEntries.toNat after.form
    else timeline
  | .replay .undo => timeline.back
  | .replay .redo => timeline.forth
  | .aside => timeline
  | .restart form => .start form

/-- The timeline after a run. -/
def along (timeline : Timeline) : Editor → List Operation → Timeline
  | _, [] => timeline
  | editor, operation :: operations =>
    (timeline.advance editor operation).along (editor.leave operation) operations

end Timeline

/-! ## What is compared -/

namespace Form

variable {left right : Form}

/-- Two forms have the same root, the same ids, the same parent of each, and the same children of
each in the same order. -/
structure SameLinks (left right : Form) : Prop where
  root : left.root = right.root
  stored : ∀ id : NodeId, left.contains id = right.contains id
  parent : ∀ id : NodeId, left.parent? id = right.parent? id
  children : ∀ id : NodeId, left.children id = right.children id

/-- Every attribute of every field has the same value in two forms. -/
def SameValues (left right : Form) : Prop :=
  ∀ (id : NodeId) (name : String),
    ((left.get? id).bind fun field => field.attributes.get? name) =
      (right.get? id).bind fun field => field.attributes.get? name

theorem Alike.sameLinks {α : Type} {view : Attributes → α} (alike : left.Alike view right) :
    left.SameLinks right :=
  ⟨alike.1, fun _ => alike.contains_eq, fun _ => alike.parent?_eq, fun _ => alike.children_eq⟩

theorem Alike.sameValues (alike : left.Alike (Attributes.shown .values) right) :
    left.SameValues right := by
  intro id name
  cases found : left.get? id with
  | none =>
    have missing := alike.2 id
    rw [found, Option.map_none, eq_comm, Option.map_eq_none_iff] at missing
    rw [missing]
  | some field =>
    obtain ⟨field', found', seen⟩ := alike.exists_get? found
    have bags : field.attributes.shown .values = field'.attributes.shown .values :=
      congrArg (fun parts => parts.2.2.2) seen
    have same := (Attributes.distinct_iff_of_shown bags).2
    rw [found', Option.bind_some, Option.bind_some, same]

end Form

namespace Editor

/-- What an operation comes to for an editor and a timeline: something is recorded, or nothing is,
or another form is put in the place of the form, or the history is replayed. -/
inductive Advances (closeness : Closeness) (before : Editor) (timeline : Timeline) :
    Editor → Timeline → Prop where
  | recorded {after : Editor} :
      Recorded closeness before after → Advances closeness before timeline after
        (timeline.record before.settings.history.maxEntries.toNat after.form)
  | kept {after : Editor} :
      Kept closeness before after → Advances closeness before timeline after timeline
  | restarted {form : Form} :
      form.validate = .ok () → form.Known closeness before.supply →
        Advances closeness before timeline (before.leave (.setForm form)) (.start form)
  | replayed (direction : Replay) :
      Advances closeness before timeline (before.leave (.act direction.action))
        (timeline.turn direction)

/-- Every operation comes to one of these. -/
theorem advances_leave {closeness : Closeness} {editor : Editor} {timeline : Timeline}
    {operation : Operation} (sound : editor.Sound closeness)
    (admitted : editor.Admits closeness operation) :
    Advances closeness editor timeline (editor.leave operation)
      (timeline.advance editor operation) := by
  unfold Timeline.advance
  cases part : operation.role with
  | edit =>
    dsimp only
    rcases edit_settles sound admitted part with recorded | ⟨kept, quiet⟩
    · obtain ⟨gained, notices, told⟩ := recorded.told
      rw [if_pos (Timeline.isRecorded_of_told notices told)]
      exact .recorded recorded
    · rw [if_neg (Timeline.not_isRecorded_of_quiet quiet)]
      exact .kept kept
  | aside => exact .kept (aside_kept sound part)
  | restart form =>
    obtain rfl := Operation.eq_setForm part
    exact .restarted admitted.1 admitted.2
  | replay direction =>
    obtain rfl := Operation.eq_act_action part
    cases direction <;> exact .replayed _

/-- The history of the editor tells the timeline. -/
structure Tracks (closeness : Closeness) (editor : Editor) (timeline : Timeline) : Prop where
  sound : editor.Sound closeness
  present : editor.form.Alike (Attributes.shown closeness) timeline.present
  leads : ∀ direction, Command.Leads closeness direction timeline.present
    (editor.history.standing direction) (timeline.side direction)
  known : ∀ direction, ∀ form ∈ timeline.side direction, form.Known closeness editor.supply
  limit : editor.history.limit = editor.settings.history.maxEntries.toNat

variable {closeness : Closeness} {editor after : Editor} {timeline : Timeline}
  {operation : Operation} {operations : List Operation}

/-- The form under the cursor is known, as that of the editor is. -/
theorem Tracks.known_present (tracks : Tracks closeness editor timeline) :
    timeline.present.Known closeness editor.supply :=
  tracks.present.known tracks.sound.known

theorem Tracks.wellFormed_present (tracks : Tracks closeness editor timeline) :
    timeline.present.WellFormed :=
  tracks.present.wellFormed tracks.sound.wellFormed

/-- What is not recorded leaves the timeline as it is. -/
theorem Tracks.kept (tracks : Tracks closeness editor timeline)
    (kept : Kept closeness editor after) : Tracks closeness after timeline where
  sound := kept.sound tracks.sound
  present := kept.alike.symm.trans tracks.present
  leads := kept.history ▸ tracks.leads
  known := kept.supply ▸ tracks.known
  limit := by
    rw [kept.history, kept.settings]
    exact tracks.limit

/-- What is recorded comes after the cursor. -/
theorem Tracks.recorded (tracks : Tracks closeness editor timeline)
    (recorded : Recorded closeness editor after) :
    Tracks closeness after
      (timeline.record editor.settings.history.maxEntries.toNat after.form) := by
  obtain ⟨base, form', command, command', same, appliable, done, alike, history, -⟩ :=
    recorded.carried
  have playable : Command.Playable closeness .redo base command := appliable
  obtain ⟨wellFormed, back⟩ :=
    Command.Turns.back_of_play playable (same.symm.wellFormed tracks.sound.wellFormed) done
  have step : Command.Turns closeness .undo command' after.form timeline.present :=
    back.alike wellFormed alike.symm.of_full (same.of_full.trans tracks.present)
  have earlier := tracks.known_present.mono recorded.later
  refine
    { sound := recorded.sound tracks.sound
      present := .refl after.form
      leads := fun direction => ?_
      known := fun direction form listed => ?_
      limit := ?_ }
  · rw [history]
    cases direction with
    | undo =>
      show Command.Leads _ _ _ (History.bounded editor.history.limit _) (History.bounded _ _)
      rw [tracks.limit]
      exact (Command.Leads.step step (tracks.leads .undo)).bounded _
    | redo => exact .here
  · cases direction with
    | undo =>
      rcases List.mem_cons.mp (Timeline.mem_past_record listed) with rfl | listed
      · exact earlier
      · exact (tracks.known .undo form listed).mono recorded.later
    | redo => cases listed
  · rw [history, recorded.settings]
    exact tracks.limit

/-- The command that is replayed next leads from the form to the nearest one on that side of the
cursor, and the further commands from there on. -/
theorem Tracks.exists_turn (tracks : Tracks closeness editor timeline) {direction : Replay}
    {command : Command} {rest : List Command}
    (next : editor.history.standing direction = command :: rest) :
    ∃ there forms, timeline.side direction = there :: forms ∧
      Command.Turns closeness direction command editor.form there ∧
        Command.Leads closeness direction there rest forms := by
  have leads := tracks.leads direction
  rw [next] at leads
  cases ahead : timeline.side direction with
  | nil =>
    rw [ahead] at leads
    cases leads
  | cons there forms =>
    rw [ahead] at leads
    cases leads with
    | step first further =>
      exact ⟨there, forms, rfl,
        first.alike tracks.wellFormed_present tracks.present.symm (.refl there), further⟩

theorem Tracks.side_eq_nil (tracks : Tracks closeness editor timeline) {direction : Replay}
    (none : editor.history.standing direction = []) : timeline.side direction = [] := by
  have same := (tracks.leads direction).length_eq
  rw [none] at same
  exact List.length_eq_zero_iff.mp same.symm

/-- **A replay goes one form back or forward in the timeline.** -/
theorem Tracks.replay (tracks : Tracks closeness editor timeline) (direction : Replay) :
    ∃ after, replay direction editor = .ok ⟨⟩ after ∧
      Tracks closeness after (timeline.turn direction) := by
  cases next : editor.history.standing direction with
  | nil =>
    rw [Timeline.turn_of_nil (tracks.side_eq_nil next)]
    exact ⟨editor, replay_of_nil next, tracks⟩
  | cons command rest =>
    obtain ⟨there, forms, ahead, turns, further⟩ := tracks.exists_turn next
    obtain ⟨present, before, behind⟩ := Timeline.turn_of_cons ahead
    obtain ⟨command', form, played, wellFormed, same, back⟩ := turns.back tracks.sound.wellFormed
    obtain ⟨after, done, replayed⟩ := replay_of_play tracks.sound wellFormed next played
    have back' := back.alike (same.wellFormed wellFormed) (.refl there) tracks.present
    have alike := replayed.alike.of_full.trans same
    have known : there.Known closeness editor.supply :=
      tracks.known direction there (ahead ▸ List.mem_cons_self)
    refine ⟨after, done, ⟨replayed.alike.symm.wellFormed wellFormed, replayed.fits, ?_⟩,
      present ▸ alike, fun other => ?_, fun other form listed => ?_, ?_⟩
    · rw [replayed.supply]
      exact alike.symm.known known
    · rw [replayed.history, present]
      rcases other.eq_or_eq_opposite direction with rfl | rfl
      · rw [History.standing_turned, next, before]
        exact further
      · rw [History.standing_turned_opposite, behind]
        exact .step back' (tracks.leads direction.opposite)
    · rw [replayed.supply]
      rcases other.eq_or_eq_opposite direction with rfl | rfl
      · rw [before] at listed
        exact tracks.known other form (ahead ▸ List.mem_cons_of_mem there listed)
      · rw [behind] at listed
        rcases List.mem_cons.mp listed with rfl | listed
        · exact tracks.known_present
        · exact tracks.known direction.opposite form listed
    · rw [replayed.history, replayed.settings, History.limit_turned]
      exact tracks.limit

/-- Every named action succeeds. -/
theorem Tracks.act (tracks : Tracks closeness editor timeline) (action : Action) :
    ∃ after, act action editor = .ok ⟨⟩ after := by
  cases part : (Operation.act action).role with
  | edit =>
    obtain ⟨⟨⟩, after, done, -⟩ := act_edits tracks.sound part
    exact ⟨after, done⟩
  | replay direction =>
    obtain ⟨after, done, -⟩ := tracks.replay direction
    cases action with
    | undo | redo =>
      cases part
      exact ⟨after, done⟩
    | _ => cases part
  | aside | restart => cases action <;> cases part

/-- Without commands, an editor has a timeline of one form. -/
theorem Sound.tracks_start (sound : editor.Sound closeness)
    (none : ∀ direction, editor.history.standing direction = [])
    (limit : editor.history.limit = editor.settings.history.maxEntries.toNat) :
    Tracks closeness editor (.start editor.form) where
  sound := sound
  present := .refl editor.form
  leads direction := by
    rw [none direction]
    cases direction <;> exact .here
  known direction form listed := by cases direction <;> cases listed
  limit := limit

/-- What may be put in the place of the form starts a timeline of its own. -/
theorem Tracks.restart {form : Form} (tracks : Tracks closeness editor timeline)
    (valid : form.validate = .ok ()) (known : form.Known closeness editor.supply) :
    Tracks closeness (editor.leave (.setForm form)) (.start form) := by
  have sound : (editor.leave (.setForm form)).Sound closeness :=
    ⟨Form.validate_eq_ok_iff.mp valid, Selection.fits_empty, known⟩
  refine sound.tracks_start (fun direction => ?_) tracks.limit
  cases direction <;> rfl

/-- Whatever an operation comes to, the history tells the timeline afterwards. -/
theorem Tracks.advance {timeline' : Timeline} (tracks : Tracks closeness editor timeline)
    (advances : Advances closeness editor timeline after timeline') :
    Tracks closeness after timeline' := by
  cases advances with
  | recorded recorded => exact tracks.recorded recorded
  | kept kept => exact tracks.kept kept
  | restarted valid known => exact tracks.restart valid known
  | replayed direction =>
    obtain ⟨after, done, tracks'⟩ := tracks.replay direction
    rw [leave_action done]
    exact tracks'

/-- **Every operation advances the timeline as it should.** -/
theorem Tracks.leave (tracks : Tracks closeness editor timeline)
    (admitted : editor.Admits closeness operation) :
    Tracks closeness (editor.leave operation) (timeline.advance editor operation) :=
  tracks.advance (advances_leave tracks.sound admitted)

/-- After a run the history tells the timeline. -/
theorem Tracks.run (tracks : Tracks closeness editor timeline)
    (admitted : AdmitsAll closeness editor operations) :
    Tracks closeness (editor.after operations) (timeline.along editor operations) := by
  induction operations generalizing editor timeline with
  | nil => exact tracks
  | cons operation operations ih => exact ih (tracks.leave admitted.1) admitted.2

/-- A new editor has a timeline of one form. -/
theorem ofForm_tracks {form : Form} {settings : Settings} {supply : Supply}
    (valid : form.validate = .ok ()) (known : form.Known closeness supply) :
    Tracks closeness (ofForm form settings supply) (.start form) := by
  refine (ofForm_sound valid known).tracks_start (fun direction => ?_) rfl
  cases direction <;> rfl

/-! ## The laws -/

section Laws

variable {form : Form} {settings : Settings} {supply : Supply}

/-- **The history of the editor is a timeline of whole forms.**  After every run, the form has the
links of the one under the cursor, and as many edits can be undone and redone as there are forms
before and after it.  If in addition all bags that come in have distinct names and nothing is
written off the record, all attributes have the values that they have under the cursor. -/
theorem timeline_law (valid : form.validate = .ok ()) (known : form.Known closeness supply)
    (admitted : AdmitsAll closeness (ofForm form settings supply) operations) :
    let editor := (ofForm form settings supply).after operations
    let timeline := (Timeline.start form).along (ofForm form settings supply) operations
    editor.form.SameLinks timeline.present ∧
      editor.history.done.length = timeline.past.length ∧
        editor.history.undone.length = timeline.future.length ∧
          (closeness = .values → editor.form.SameValues timeline.present) := by
  have tracks := (ofForm_tracks valid known).run admitted
  refine ⟨tracks.present.sameLinks, (tracks.leads .undo).length_eq,
    (tracks.leads .redo).length_eq, ?_⟩
  rintro rfl
  exact tracks.present.sameValues

/-- The law at a run that adds a field, names it, takes both back, and adds the field again. -/
theorem timeline_law_adding :
    let start := ofForm (Form.blankProtocol ⟨0⟩) {} ⟨2⟩
    let operations : List Operation :=
      [.act .addNewField, .setAttribute ⟨2⟩ AttributeName.elementName (some "Age") true,
        .act .undo, .act .undo, .act .redo]
    let editor := start.after operations
    let timeline := (Timeline.start start.form).along start operations
    editor.form.SameLinks timeline.present ∧ editor.form.SameValues timeline.present ∧
      editor.history.done.length = timeline.past.length ∧ timeline.past.length = 1 ∧
        editor.history.undone.length = timeline.future.length ∧ timeline.future.length = 1 := by
  have start : (blank ⟨0⟩).Sound .values ∧ _ := blank_sound ⟨0⟩
  have admitted : AdmitsAll .values (ofForm (Form.blankProtocol ⟨0⟩) {} ⟨2⟩)
      [.act .addNewField, .setAttribute ⟨2⟩ AttributeName.elementName (some "Age") true,
        .act .undo, .act .undo, .act .redo] :=
    ⟨trivial, fun _ => rfl, trivial, trivial, trivial, trivial⟩
  obtain ⟨links, done, undone, values⟩ :=
    timeline_law (by decide +kernel) start.1.known admitted
  exact ⟨links, values rfl, done, by decide +kernel, undone, by decide +kernel⟩

/-- **What holds after every run.**  The form is valid; nothing is selected, or the root by itself,
or a run of siblings in order; and every named action succeeds. -/
theorem run_invariant (valid : form.validate = .ok ())
    (older : ∀ id : NodeId, form.contains id → id.number < supply.next)
    (admitted : AdmitsAll .links (ofForm form settings supply) operations) :
    let editor := (ofForm form settings supply).after operations
    editor.form.validate = .ok () ∧
      (editor.selection = .empty ∨ editor.selection = ⟨[], true⟩ ∨
        editor.selection.rootSelected = false ∧ editor.selection.fields ≠ [] ∧
          editor.form.root ∉ editor.selection.fields ∧
            ∃ run, editor.form.run editor.selection.fields = .ok run ∧
              run.ids = editor.selection.fields) ∧
        ∀ action : Action, ∃ after, act action editor = .ok ⟨⟩ after := by
  have known : form.Known .links supply := Form.known_iff.mpr ⟨older, nofun⟩
  have tracks := (ofForm_tracks valid known).run admitted
  exact ⟨Form.validate_eq_ok_iff.mpr tracks.sound.wellFormed,
    tracks.sound.fits.cases tracks.sound.wellFormed, fun action => tracks.act action⟩

/-- The invariant after fields have been copied, moved, and selected in vain. -/
theorem run_invariant_copying :
    let start := ofForm (Form.blankProtocol ⟨0⟩) {} ⟨2⟩
    let operations : List Operation :=
      [.select ⟨1⟩ true, .act .duplicateFields, .act .demoteFields, .select ⟨9⟩ false]
    let editor := start.after operations
    editor.form.validate = .ok () ∧
      (editor.selection = .empty ∨ editor.selection = ⟨[], true⟩ ∨
        editor.selection.rootSelected = false ∧ editor.selection.fields ≠ [] ∧
          editor.form.root ∉ editor.selection.fields ∧
            ∃ run, editor.form.run editor.selection.fields = .ok run ∧
              run.ids = editor.selection.fields) ∧
        ∀ action : Action, ∃ after, act action editor = .ok ⟨⟩ after := by
  have start : (blank ⟨0⟩).Sound .links ∧ _ := blank_sound ⟨0⟩
  exact run_invariant (by decide +kernel) (fun id => start.1.known.older)
    ⟨trivial, trivial, trivial, trivial, trivial⟩

end Laws

end Editor

end FormEditor
