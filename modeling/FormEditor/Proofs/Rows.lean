import FormEditor.Proofs.Histories

/-!
# The commands of a history in a row

Read together, the two stacks of a history are one row of commands with a cursor in it: first the
commands that can be undone, the oldest first, then those that can be redone, the next one first.
Whatever the commands are and whether their replays succeed or fail, a replay leaves every command
in its place in the row, and moves the cursor by one if it succeeds.  Only posting changes which
commands there are: it drops those after the cursor, and beyond the limit the oldest.

A replay may change what a command holds, so that it takes a name to say that a command is still
the same one.  A command is therefore a name with a content here, and replays see the content only
(`onContent`).

Main statement: `row_law`.
-/

set_option autoImplicit false

namespace FormEditor.History

variable {ι κ ε σ : Type}

/-- All commands, those that can be undone before those that can be redone, in the order in which
they were recorded. -/
def row (history : History κ) : List κ := history.done.reverse ++ history.undone

/-- How many commands of the row can be undone. -/
def cursor (history : History κ) : Nat := history.done.length

/-- The place in the row of the command that is replayed next in a direction. -/
def nextPlace (history : History κ) : Replay → Nat
  | .undo => history.cursor - 1
  | .redo => history.cursor

/-- The replay of a command that has a name: only its content takes part. -/
def onContent (play : EStateM ε (κ × σ) Unit) : EStateM ε ((ι × κ) × σ) Unit :=
  fun ((name, content), document) =>
    match play (content, document) with
    | .ok () (content, document) => .ok () ((name, content), document)
    | .error failure (content, document) => .error failure ((name, content), document)

/-- What may be asked of a history of commands with names.  Each replay brings its own document
and whatever it makes of the content of a command and of the document, so that it may fail. -/
inductive Request (ι κ ε σ : Type) where
  | post (name : ι) (content : κ)
  | replay (direction : Replay) (play : EStateM ε (κ × σ) Unit) (document : σ)
  | clear

/-- The name that a request posts, if it posts one. -/
def Request.posted : Request ι κ ε σ → Option ι
  | .post name _ => some name
  | _ => none

/-- What comes of a replay. -/
def attempt (history : History (ι × κ)) (direction : Replay) (play : EStateM ε (κ × σ) Unit)
    (document : σ) : EStateM.Result ε (History (ι × κ) × σ) (Option (ι × κ)) :=
  History.replay (fun _ => onContent play) direction (history, document)

/-- The history after a request. -/
def next (history : History (ι × κ)) : Request ι κ ε σ → History (ι × κ)
  | .post name content => history.post (name, content)
  | .replay direction play document =>
    match history.attempt direction play document with
    | .ok _ (history, _) => history
    | .error _ (history, _) => history
  | .clear => history.clear

/-- The history after several requests. -/
def afterAll (history : History (ι × κ)) (requests : List (Request ι κ ε σ)) : History (ι × κ) :=
  requests.foldl next history

/-- The names of the commands in the row. -/
def names (history : History (ι × κ)) : List ι := history.row.map Prod.fst

/-- How many of some commands are more than the limit allows. -/
def excess (limit count : Nat) : Nat := if limit = 0 then 0 else count - limit

/-! ## The row after a request -/

section Rows

variable {history : History κ} {command command' : κ} {rest : List κ} {direction : Replay}

theorem length_row : history.row.length = history.done.length + history.undone.length := by
  rw [row, List.length_append, List.length_reverse]

theorem take_cursor_row : history.row.take history.cursor = history.done.reverse :=
  List.take_left' List.length_reverse

/-- Keeping the newest commands drops the excess from the oldest end. -/
theorem reverse_bounded (limit : Nat) (commands : List κ) :
    (bounded limit commands).reverse = commands.reverse.drop (excess limit commands.length) := by
  unfold bounded excess
  split
  · rfl
  · exact List.reverse_take

/-- Posting cuts the row at the cursor, appends the command, and drops the oldest commands beyond
the limit. -/
theorem row_post :
    (history.post command).row =
      (history.row.take history.cursor ++ [command]).drop
        (excess history.limit (history.cursor + 1)) := by
  rw [take_cursor_row, ← List.reverse_cons]
  exact (List.append_nil _).trans (reverse_bounded _ _)

/-- A posted command can be undone, and nothing can be redone. -/
theorem cursor_post : (history.post command).cursor = (history.post command).row.length := by
  rw [length_row]
  rfl

/-- The command that stands by first is at the next place. -/
theorem getElem?_nextPlace (standing : history.standing direction = command :: rest) :
    history.row[history.nextPlace direction]? = some command := by
  obtain ⟨done, undone, limit⟩ := history
  cases direction <;> cases standing <;> simp [row, nextPlace, cursor]

/-- The command that was replayed stays in its place. -/
theorem row_turned (standing : history.standing direction = command :: rest) :
    (history.turned command' direction).row =
      history.row.set (history.nextPlace direction) command' := by
  obtain ⟨done, undone, limit⟩ := history
  cases direction <;> cases standing <;> simp [row, nextPlace, cursor, turned]

/-- The command whose replay failed stays in its place. -/
theorem row_stuck (standing : history.standing direction = command :: rest) :
    (history.stuck command' direction).row =
      history.row.set (history.nextPlace direction) command' := by
  obtain ⟨done, undone, limit⟩ := history
  cases direction <;> cases standing <;> simp [row, nextPlace, cursor, stuck]

end Rows

/-! ## Replays of commands with names -/

section Attempts

variable {history : History (ι × κ)} {command command' : ι × κ} {rest : List (ι × κ)}
  {direction : Replay} {play : EStateM ε (κ × σ) Unit} {document : σ}

/-- With nothing to replay, a replay changes nothing. -/
theorem attempt_nil (standing : history.standing direction = []) :
    history.attempt direction play document = .ok none (history, document) :=
  replay_nil standing

/-- **A replay replays the content of the command that stands by first.**  The command keeps its
name. -/
theorem attempt_cons (standing : history.standing direction = command :: rest) :
    history.attempt direction play document =
      match play (command.2, document) with
      | .ok () (content, document) =>
        .ok (some (command.1, content)) (history.turned (command.1, content) direction, document)
      | .error failure (content, document) =>
        .error failure (history.stuck (command.1, content) direction, document) := by
  obtain ⟨name, content⟩ := command
  unfold attempt
  rw [replay_cons standing]
  unfold onContent
  dsimp only
  cases play (content, document) <;> rfl

/-- Where a command is replaced by one of its name, the names are the same. -/
theorem map_set_row (standing : history.standing direction = command :: rest)
    (name : command'.1 = command.1) :
    (history.row.set (history.nextPlace direction) command').map Prod.fst = history.names := by
  have there := congrArg (Option.map Prod.fst) (getElem?_nextPlace standing)
  rw [← List.getElem?_map] at there
  obtain ⟨within, named⟩ := List.getElem?_eq_some_iff.1 there
  rw [List.map_set, name, ← named]
  exact List.set_getElem_self within

theorem names_turned (standing : history.standing direction = command :: rest)
    (name : command'.1 = command.1) :
    (history.turned command' direction).names = history.names := by
  unfold names
  rw [row_turned standing]
  exact map_set_row standing name

theorem names_stuck (standing : history.standing direction = command :: rest)
    (name : command'.1 = command.1) :
    (history.stuck command' direction).names = history.names := by
  unfold names
  rw [row_stuck standing]
  exact map_set_row standing name

/-- A replay, successful or not, leaves the names and the limit. -/
theorem next_replay (history : History (ι × κ)) (direction : Replay)
    (play : EStateM ε (κ × σ) Unit) (document : σ) :
    (history.next (.replay direction play document)).names = history.names ∧
      (history.next (.replay direction play document)).limit = history.limit := by
  unfold next
  dsimp only
  cases standing : history.standing direction with
  | nil =>
    rw [attempt_nil standing]
    exact ⟨rfl, rfl⟩
  | cons command rest =>
    rw [attempt_cons standing]
    cases play (command.2, document) with
    | ok _ state => exact ⟨names_turned standing rfl, limit_turned⟩
    | error _ state => exact ⟨names_stuck standing rfl, limit_stuck⟩

end Attempts

/-! ## The row after several requests -/

section Runs

variable {history : History (ι × κ)} {request : Request ι κ ε σ}

/-- The two stacks together hold no more commands than the limit allows. -/
def Bounded (history : History κ) : Prop :=
  history.limit = 0 ∨ history.row.length ≤ history.limit

theorem limit_next : (history.next request).limit = history.limit := by
  cases request with
  | post name content => rfl
  | replay direction play document => exact (next_replay history direction play document).2
  | clear => rfl

theorem length_names : history.names.length = history.row.length := List.length_map _

/-- Every request keeps to the limit: posting drops the excess, and a replay only moves commands
from one stack to the other. -/
theorem Bounded.next (bounded : history.Bounded) : (history.next request).Bounded := by
  cases request with
  | post name content =>
    unfold Bounded History.next
    rw [row_post, List.length_drop, List.length_append, List.length_take]
    show history.limit = 0 ∨ _ ≤ history.limit
    unfold excess
    grind
  | replay direction play document =>
    -- nothing checks the limit here, but the names are the same and thus as many
    obtain ⟨names, limit⟩ := next_replay history direction play document
    unfold Bounded
    rw [limit, ← length_names, names, length_names]
    exact bounded
  | clear => exact .inr (Nat.zero_le _)

/-- A request posts at most its own name, and reorders and repeats none. -/
theorem names_next :
    (history.next request).names.Sublist (history.names ++ request.posted.toList) := by
  cases request with
  | post name content =>
    unfold names History.next
    rw [row_post]
    refine ((List.drop_sublist _ _).map _).trans ?_
    rw [List.map_append]
    exact ((List.take_sublist _ _).map _).append_right _
  | replay direction play document =>
    rw [(next_replay history direction play document).1]
    exact List.sublist_append_left _ _
  | clear => exact List.nil_sublist _

theorem limit_afterAll (requests : List (Request ι κ ε σ)) :
    (history.afterAll requests).limit = history.limit := by
  induction requests generalizing history with
  | nil => rfl
  | cons request requests ih => exact ih.trans limit_next

theorem Bounded.afterAll (bounded : history.Bounded) (requests : List (Request ι κ ε σ)) :
    (history.afterAll requests).Bounded := by
  induction requests generalizing history with
  | nil => exact bounded
  | cons request requests ih => exact ih bounded.next

/-- The commands in the row were posted, in the order in which they stand there. -/
theorem names_afterAll (requests : List (Request ι κ ε σ)) :
    (history.afterAll requests).names.Sublist
      (history.names ++ requests.filterMap Request.posted) := by
  induction requests generalizing history with
  | nil => exact List.sublist_append_left _ _
  | cons request requests ih =>
    have posted : (request :: requests).filterMap Request.posted =
        request.posted.toList ++ requests.filterMap Request.posted := by
      rw [List.filterMap_cons]
      cases request.posted <;> rfl
    rw [posted, ← List.append_assoc]
    exact ih.trans (names_next.append_right _)

end Runs

/-- The cursor moves by one, back with an undo and forward with a redo. -/
def Steps (direction : Replay) (before after : Nat) : Prop :=
  match direction with
  | .undo => after + 1 = before
  | .redo => after = before + 1

theorem cursor_turned {history : History κ} {command command' : κ} {rest : List κ}
    {direction : Replay} (standing : history.standing direction = command :: rest) :
    Steps direction history.cursor (history.turned command' direction).cursor := by
  obtain ⟨done, undone, limit⟩ := history
  cases direction <;> cases standing <;> rfl

theorem cursor_stuck {history : History κ} {command command' : κ} {rest : List κ}
    {direction : Replay} (standing : history.standing direction = command :: rest) :
    (history.stuck command' direction).cursor = history.cursor := by
  obtain ⟨done, undone, limit⟩ := history
  cases direction <;> cases standing <;> rfl

/-- **A history is a row of commands with a cursor in it.**  After any requests, on commands and
documents of any kind and with replays that may fail: the two stacks together keep to the limit;
the commands in the row are some of those that were posted, in that order and each once; a replay
with nothing to replay changes nothing; one that succeeds moves the cursor by one, and one that
fails leaves it, and both leave all commands in their places; posting drops the commands after the
cursor, appends the new one, and drops the excess, if there is a limit, from the oldest end. -/
theorem row_law (limit : Nat) (requests : List (Request ι κ ε σ)) :
    let history : History (ι × κ) := (empty limit).afterAll requests
    (limit = 0 ∨ history.done.length + history.undone.length ≤ limit) ∧
    history.names.Sublist (requests.filterMap Request.posted) ∧
    (∀ direction (play : EStateM ε (κ × σ) Unit) document,
      match history.standing direction with
      | [] => history.attempt direction play document = .ok none (history, document)
      | (name, content) :: _ =>
        history.row[history.nextPlace direction]? = some (name, content) ∧
        match play (content, document) with
        | .ok () (content, document') =>
          ∃ after, history.attempt direction play document =
              .ok (some (name, content)) (after, document') ∧
            after.row = history.row.set (history.nextPlace direction) (name, content) ∧
            after.names = history.names ∧ Steps direction history.cursor after.cursor
        | .error failure (content, document') =>
          ∃ after, history.attempt direction play document = .error failure (after, document') ∧
            after.row = history.row.set (history.nextPlace direction) (name, content) ∧
            after.names = history.names ∧ after.cursor = history.cursor) ∧
    (∀ command,
      (history.post command).row =
        (history.row.take history.cursor ++ [command]).drop (excess limit (history.cursor + 1)) ∧
      (history.post command).cursor = (history.post command).row.length) ∧
    history.clear.row = [] ∧ history.clear.cursor = 0 := by
  intro history
  have limited : history.limit = limit := limit_afterAll requests
  refine ⟨?_, names_afterAll requests, fun direction play document => ?_, fun command => ?_,
    rfl, rfl⟩
  · have bounded : history.Bounded := Bounded.afterAll (.inr (Nat.zero_le _)) requests
    rwa [Bounded, limited, length_row] at bounded
  · cases standing : history.standing direction with
    | nil => exact attempt_nil standing
    | cons command rest =>
      refine ⟨getElem?_nextPlace standing, ?_⟩
      have attempted : history.attempt direction play document = _ := attempt_cons standing
      cases played : play (command.2, document) with
      | ok _ state =>
        rw [played] at attempted
        exact ⟨_, attempted, row_turned standing, names_turned standing rfl,
          cursor_turned standing⟩
      | error failure state =>
        rw [played] at attempted
        exact ⟨_, attempted, row_stuck standing, names_stuck standing rfl, cursor_stuck standing⟩
  · rw [← limited]
    exact ⟨row_post, cursor_post⟩

end FormEditor.History
