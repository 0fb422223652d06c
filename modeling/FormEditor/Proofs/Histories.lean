import FormEditor.Editor.Operations
import FormEditor.Proofs.Turns

/-!
# Replays of a history

A replay of a history replays the command that stands by first.  If that succeeds, the command goes
over to the other side (`History.turned`); if it fails, the command stays where it is, with what
the failure has made of it (`History.stuck`).

Main statement: `History.replay_cons`, for any commands and whatever their replays do.
-/

set_option autoImplicit false

namespace FormEditor

namespace History

variable {κ ε σ : Type} {play : Replay → EStateM ε (κ × σ) Unit} {direction : Replay}
  {history history' : History κ} {command command' : κ} {rest : List κ} {document document' : σ}
  {failure : ε}

/-- The commands that stand by for a replay, the next one first. -/
def standing (history : History κ) : Replay → List κ
  | .undo => history.done
  | .redo => history.undone

/-- A replay in a direction, given the replays of the commands. -/
def replay (play : Replay → EStateM ε (κ × σ) Unit) :
    Replay → EStateM ε (History κ × σ) (Option κ)
  | .undo => undo (play .undo)
  | .redo => redo (play .redo)

/-- The history after the next command was replayed, which has become another. -/
def turned (history : History κ) (command : κ) : Replay → History κ
  | .undo => { history with done := history.done.tail, undone := command :: history.undone }
  | .redo => { history with done := command :: history.done, undone := history.undone.tail }

/-- The history after the replay of the next command failed, which has become another. -/
def stuck (history : History κ) (command : κ) : Replay → History κ
  | .undo => { history with done := command :: history.done.tail }
  | .redo => { history with undone := command :: history.undone.tail }

theorem standing_turned :
    (history.turned command direction).standing direction = (history.standing direction).tail := by
  cases direction <;> rfl

theorem standing_turned_opposite :
    (history.turned command direction).standing direction.opposite =
      command :: history.standing direction.opposite := by
  cases direction <;> rfl

@[simp] theorem limit_turned : (history.turned command direction).limit = history.limit := by
  cases direction <;> rfl

@[simp] theorem limit_stuck : (history.stuck command direction).limit = history.limit := by
  cases direction <;> rfl

theorem standing_stuck :
    (history.stuck command direction).standing direction =
      command :: (history.standing direction).tail := by
  cases direction <;> rfl

theorem standing_stuck_opposite :
    (history.stuck command direction).standing direction.opposite =
      history.standing direction.opposite := by
  cases direction <;> rfl

/-- Putting a command back to where it came from changes nothing. -/
theorem stuck_self (next : history.standing direction = command :: rest) :
    history.stuck command direction = history := by
  obtain ⟨done, undone, limit⟩ := history
  cases direction <;> cases next <;> rfl

/-- With nothing to replay, a replay changes nothing. -/
theorem replay_nil (none : history.standing direction = []) :
    replay play direction (history, document) = .ok .none (history, document) := by
  obtain ⟨done, undone, limit⟩ := history
  cases direction <;> cases none <;> rfl

/-- **A replay of the history replays the command that stands by first.** -/
theorem replay_cons (next : history.standing direction = command :: rest) :
    replay play direction (history, document) =
      match play direction (command, document) with
      | .ok () (command', document') =>
        .ok (some command') (history.turned command' direction, document')
      | .error failure (command', document') =>
        .error failure (history.stuck command' direction, document') := by
  obtain ⟨done, undone, limit⟩ := history
  cases direction with
  | undo =>
    cases next
    unfold replay undo
    dsimp only
    cases play .undo (command, document) <;> rfl
  | redo =>
    cases next
    unfold replay redo
    dsimp only
    cases play .redo (command, document) <;> rfl

theorem replay_of_ok (next : history.standing direction = command :: rest)
    (done : play direction (command, document) = .ok () (command', document')) :
    replay play direction (history, document) =
      .ok (some command') (history.turned command' direction, document') := by
  rw [replay_cons next, done]

theorem replay_of_error (next : history.standing direction = command :: rest)
    (refused : play direction (command, document) = .error failure (command', document')) :
    replay play direction (history, document) =
      .error failure (history.stuck command' direction, document') := by
  rw [replay_cons next, refused]

/-- A replay of the history that gives a command has replayed one. -/
theorem exists_of_replay_eq_ok
    (done : replay play direction (history, document) = .ok (some command') (history', document')) :
    ∃ command rest, history.standing direction = command :: rest ∧
      play direction (command, document) = .ok () (command', document') ∧
        history' = history.turned command' direction := by
  cases next : history.standing direction with
  | nil =>
    rw [replay_nil next] at done
    cases done
  | cons command rest =>
    rw [replay_cons next] at done
    refine ⟨command, rest, rfl, ?_⟩
    cases played : play direction (command, document) with
    | error failure state =>
      rw [played] at done
      cases done
    | ok result state =>
      rw [played] at done
      cases done
      exact ⟨rfl, rfl⟩

/-- A replay of the history that fails has failed to replay a command. -/
theorem exists_of_replay_eq_error
    (refused : replay play direction (history, document) = .error failure (history', document')) :
    ∃ command rest command', history.standing direction = command :: rest ∧
      play direction (command, document) = .error failure (command', document') ∧
        history' = history.stuck command' direction := by
  cases next : history.standing direction with
  | nil =>
    rw [replay_nil next] at refused
    cases refused
  | cons command rest =>
    rw [replay_cons next] at refused
    cases played : play direction (command, document) with
    | error failure state =>
      rw [played] at refused
      cases refused
      exact ⟨command, rest, state.1, rfl, played, rfl⟩
    | ok result state =>
      rw [played] at refused
      cases refused

end History

theorem Editor.replayHistory_eq (direction : Replay) :
    replayHistory direction = History.replay Command.play direction := by
  cases direction <;> rfl

end FormEditor
