import FormEditor.Proofs.Editor.Records
import FormEditor.Proofs.Editor.Timelines

/-!
# What edits and replays tell

A replay moves one command across and tells what was told when the command was recorded.  What was
told then is kept in a ledger (`Ledger`), which knows nothing of commands: it goes by what
operations tell, and moves along with the cursor of the history.  The invariant is `Ledger.Tells`,
that the ledger says of each command what its replay tells.

Main statement: `Editor.notice_law`, which also says what an edit tells.
-/

set_option autoImplicit false

namespace FormEditor

theorem Command.needsRedisplay_emptied (command : Command) :
    command.emptied.needsRedisplay = command.needsRedisplay := by
  cases command <;> rfl

/-! ## What was told when a command was recorded -/

/-- Whether it was told between two moments that the form has to be drawn anew. -/
def Editor.drew (before after : Editor) : Bool :=
  (after.notices.drop before.notices.length).contains .treeUpdated

/-- For each edit that can be undone or redone, whether it was told when the edit was made that the
form has to be drawn anew. -/
abbrev Ledger := History Bool

namespace Ledger

/-- What an operation does to the ledger.  It goes by what is told, and does not see commands. -/
def advance (ledger : Ledger) (before : Editor) (operation : Operation) : Ledger :=
  match operation.role with
  | .edit =>
    let after := before.leave operation
    if Timeline.isRecorded before after then ledger.post (before.drew after) else ledger
  | .replay direction =>
    match ledger.standing direction with
    | [] => ledger
    | drew :: _ => ledger.turned drew direction
  | .aside => ledger
  | .restart _ => ledger.clear

/-- The ledger after a run. -/
def along (ledger : Ledger) : Editor → List Operation → Ledger
  | _, [] => ledger
  | editor, operation :: operations =>
    (ledger.advance editor operation).along (editor.leave operation) operations

end Ledger

namespace History

variable {κ κ' : Type} {change : κ → κ'} {history : History κ} {command : κ} {direction : Replay}

/-- The history with other commands in the place of those that are there. -/
def map (change : κ → κ') (history : History κ) : History κ' where
  done := history.done.map change
  undone := history.undone.map change
  limit := history.limit

theorem map_post :
    (history.post command).map change = (history.map change).post (change command) := by
  unfold map post bounded
  dsimp only
  split <;> simp

theorem standing_map :
    (history.map change).standing direction = (history.standing direction).map change := by
  cases direction <;> rfl

theorem map_turned :
    (history.turned command direction).map change =
      (history.map change).turned (change command) direction := by
  cases direction <;> simp [map, turned]

end History

namespace Editor

open Form

variable {editor after : Editor} {timeline : Timeline} {ledger : Ledger} {operation : Operation}
  {operations : List Operation} {command : Command}

theorem drew_of_booked (booked : Booked editor command after) :
    Timeline.isRecorded editor after = true ∧ editor.drew after = command.needsRedisplay := by
  refine ⟨Timeline.isRecorded_of_told booked.notices command.mem_notices, ?_⟩
  unfold drew
  rw [booked.notices, List.drop_left, Command.notices]
  cases command.needsRedisplay <;> rfl

theorem Untouched.leave_eq (untouched : editor.Untouched operation) :
    editor.leave operation = editor := by
  rcases untouched with done | ⟨error, refused⟩
  · exact leave_of_ok operation done
  · exact leave_of_error operation refused

theorem Posted.exists_booked (posted : editor.Posted operation) :
    ∃ command, Booked editor command (editor.leave operation) := by
  obtain ⟨command, after, done, records, history, -, -, edited, notices⟩ := posted
  rw [leave_of_ok operation done]
  refine ⟨command, history, edited, ?_⟩
  rw [notices, Command.notices, records.needsRedisplay]

end Editor

namespace Ledger

open Editor

variable {editor : Editor} {timeline : Timeline} {ledger : Ledger} {operation : Operation}
  {operations : List Operation} {direction : Replay}

/-- The ledger has for each command of the editor whether its replay tells to draw the form
anew. -/
def Tells (ledger : Ledger) (editor : Editor) : Prop :=
  ledger = editor.history.map Command.needsRedisplay

/-- A replay moves one command across and tells what the ledger says. -/
theorem Tells.exists_replay (tells : ledger.Tells editor)
    (tracks : Tracks .links editor timeline) {drew : Bool} {others : List Bool}
    (ahead : ledger.standing direction = drew :: others) :
    ∃ command rest command' after, editor.history.standing direction = command :: rest ∧
      replay direction editor = .ok ⟨⟩ after ∧ command'.emptied = command.emptied ∧
        command'.needsRedisplay = drew ∧
          after.history = editor.history.turned command' direction ∧ after.edited = true ∧
            after.notices = editor.notices ++ command'.notices := by
  rw [tells, History.standing_map] at ahead
  obtain ⟨command, rest, next, same, -⟩ := List.map_eq_cons_iff.mp ahead
  obtain ⟨there, forms, -, turns, -⟩ := tracks.exists_turn next
  obtain ⟨command', form, played, -⟩ := turns.back tracks.sound.wellFormed
  have emptied := Command.emptied_of_play played
  have redisplay : command'.needsRedisplay = command.needsRedisplay := by
    rw [← command'.needsRedisplay_emptied, emptied, command.needsRedisplay_emptied]
  exact ⟨command, rest, command', _, next, replay_eq next played, emptied, redisplay.trans same,
    rfl, rfl, rfl⟩

/-- Every operation leaves a ledger that tells what replays tell. -/
theorem Tells.leave (tells : ledger.Tells editor) (tracks : Tracks .links editor timeline)
    (admitted : editor.Admits .links operation) :
    (ledger.advance editor operation).Tells (editor.leave operation) := by
  unfold advance
  cases part : operation.role with
  | edit =>
    dsimp only
    -- the ledger goes by what is told, which must agree with whether a command was posted
    by_cases recorded : operation.OnRecord
    · rcases tracks.sound.decides recorded with ⟨-, untouched⟩ | ⟨-, posted⟩
      · rw [untouched.leave_eq, if_neg (Timeline.not_isRecorded_of_quiet .refl)]
        exact tells
      · obtain ⟨command, booked⟩ := posted.exists_booked
        obtain ⟨told, drew⟩ := drew_of_booked booked
        unfold Tells
        rw [if_pos told, drew, booked.history, History.map_post, tells]
    · obtain ⟨kept, quiet⟩ := off_record tracks.sound admitted part recorded
      unfold Tells
      rw [if_neg (Timeline.not_isRecorded_of_quiet quiet), kept.history]
      exact tells
  | aside =>
    have kept := aside_kept tracks.sound part
    unfold Tells
    rw [kept.history]
    exact tells
  | restart form =>
    obtain rfl := Operation.eq_setForm part
    unfold Tells
    rw [tells]
    rfl
  | replay direction =>
    obtain rfl := Operation.eq_act_action part
    dsimp only
    cases ahead : ledger.standing direction with
    | nil =>
      have none : editor.history.standing direction = [] := by
        rw [tells, History.standing_map] at ahead
        exact List.map_eq_nil_iff.mp ahead
      rw [leave_action (replay_of_nil none)]
      exact tells
    | cons drew others =>
      obtain ⟨command, rest, command', after, -, done, -, same, history, -⟩ :=
        tells.exists_replay tracks ahead
      unfold Tells
      rw [leave_action done, history, History.map_turned, same, tells]

/-- After a run the ledger tells what replays tell. -/
theorem Tells.run (tells : ledger.Tells editor) (tracks : Tracks .links editor timeline)
    (admitted : AdmitsAll .links editor operations) :
    (ledger.along editor operations).Tells (editor.after operations) := by
  induction operations generalizing editor timeline ledger with
  | nil => exact tells
  | cons operation operations ih =>
    exact ih (tells.leave tracks admitted.1) (tracks.leave admitted.1) admitted.2

end Ledger

/-! ## The law -/

namespace Editor

variable {form : Form} {settings : Settings} {supply : Supply} {operations : List Operation}

/-- **An edit changes nothing, or it is recorded and told about; and a replay tells what was told
when the edit was made.**  After every run, an operation on record changes nothing if and only if
there is a reason for it, and else it is posted.  Undo and redo change nothing if there is no
command for them; else they move one command across, which still is the record of the same edit,
mark the form as edited, and tell that the form has to be drawn anew if and only if this was told
when the edit was made. -/
theorem notice_law (valid : form.validate = .ok ())
    (older : ∀ id : NodeId, form.contains id → id.number < supply.next)
    (admitted : AdmitsAll .links (ofForm form settings supply) operations) :
    let start := ofForm form settings supply
    let editor := start.after operations
    (∀ operation : Operation, operation.OnRecord →
      (editor.Untouched operation ↔ editor.Idle operation) ∧
        (editor.Posted operation ↔ ¬ editor.Idle operation)) ∧
      ∀ direction : Replay,
        match (Ledger.along (.empty start.history.limit) start operations).standing direction with
        | [] => replay direction editor = .ok ⟨⟩ editor
        | drew :: _ => ∃ command rest command' after,
          editor.history.standing direction = command :: rest ∧
            replay direction editor = .ok ⟨⟩ after ∧ command'.emptied = command.emptied ∧
              after.history = editor.history.turned command' direction ∧ after.edited = true ∧
                after.notices = editor.notices ++
                  if drew then [.treeUpdated, .selectionChanged] else [.selectionChanged] := by
  intro start editor
  have known : form.Known .links supply := Form.known_iff.mpr ⟨older, nofun⟩
  have tracks := (ofForm_tracks valid known).run admitted
  have tells : Ledger.Tells (.empty start.history.limit) start := rfl
  have tells := tells.run (ofForm_tracks valid known) admitted
  refine ⟨fun operation recorded => ?_, fun direction => ?_⟩
  · rcases tracks.sound.decides recorded with ⟨idle, untouched⟩ | ⟨busy, posted⟩
    · exact ⟨iff_of_true untouched idle,
        iff_of_false (fun posted => posted.not_untouched untouched) fun busy => busy idle⟩
    · exact ⟨iff_of_false posted.not_untouched busy, iff_of_true posted busy⟩
  · split
    · rename_i ahead
      rw [tells, History.standing_map] at ahead
      exact replay_of_nil (List.map_eq_nil_iff.mp ahead)
    · rename_i drew others ahead
      obtain ⟨command, rest, command', after, next, done, same, redisplay, history, edited,
        notices⟩ := tells.exists_replay tracks ahead
      rw [Command.notices, redisplay] at notices
      exact ⟨command, rest, command', after, next, done, same, history, edited, notices⟩

/-- A field is added and named.  Giving it the same name again is idle, deleting it is not, and
taking the name back does not tell to draw the form anew. -/
theorem notice_law_renaming :
    let start := ofForm (Form.blankProtocol ⟨0⟩) {} ⟨2⟩
    let naming : Operation := .setAttribute ⟨2⟩ AttributeName.elementName (some "Age") true
    let editor := start.after [.act .addNewField, naming]
    editor.Untouched naming ∧ editor.Posted (.act .deleteFields) ∧
      ∃ after, replay .undo editor = .ok ⟨⟩ after ∧
        after.notices = editor.notices ++ [.selectionChanged] := by
  intro start naming editor
  have sound : (blank ⟨0⟩).Sound .links ∧ _ := blank_sound ⟨0⟩
  have older : ∀ id : NodeId, (Form.blankProtocol ⟨0⟩).contains id → id.number < 2 :=
    fun id => sound.1.known.older
  have admitted : AdmitsAll .links (ofForm (Form.blankProtocol ⟨0⟩) {} ⟨2⟩)
      [.act .addNewField, naming] := ⟨trivial, nofun, trivial⟩
  obtain ⟨edits, replays⟩ := notice_law (by decide +kernel) older admitted
  have selected : editor.selection.fields ≠ [] := by decide +kernel
  have ahead : (Ledger.along (.empty (ofForm (Form.blankProtocol ⟨0⟩) {} ⟨2⟩).history.limit)
      (ofForm (Form.blankProtocol ⟨0⟩) {} ⟨2⟩) [.act .addNewField, naming]).standing .undo =
        [false, true] := by decide +kernel
  have unchanged : editor.Idle naming := .unchanged rfl (by decide +kernel)
  refine ⟨(edits naming rfl).1.mpr unchanged, (edits (.act .deleteFields) trivial).2.mpr
    (not_idle_act (fun _ => selected) rfl rfl), ?_⟩
  have undone := replays .undo
  rw [ahead] at undone
  obtain ⟨_, _, _, after, -, done, -, -, -, notices⟩ := undone
  exact ⟨after, done, notices⟩

end Editor

end FormEditor
