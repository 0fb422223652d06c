/-!
# A linear history

The commands that can be undone and those that can be redone, each newest first.  A history
does not know what its commands do: undoing and redoing are given a replay, which may fail and
may change the command, the document that it works on, or both.

Posting a command forgets what could be redone.  A history with a positive limit keeps at most
that many commands to undo and forgets the oldest.  A command whose replay fails stays where it
is.
-/

set_option autoImplicit false

namespace FormEditor

/-- The commands that can be undone and redone, newest first; a limit of zero is none. -/
structure History (κ : Type) where
  done : List κ
  undone : List κ
  limit : Nat
deriving DecidableEq, Repr

/-- What a history allows. -/
inductive HistoryState where
  | clean
  | hasUndo
  | hasRedo
  | hasBoth
deriving DecidableEq, Repr

namespace History

variable {κ ε σ : Type}

/-- The history without commands. -/
def empty (limit : Nat) : History κ := { done := [], undone := [], limit }

/-- The limit of a history for which none is given. -/
def defaultLimit : Nat := 100

/-- Keeps the newest commands, as many as the limit allows. -/
def bounded (limit : Nat) (commands : List κ) : List κ :=
  if limit = 0 then commands else commands.take limit

/-- Adds a command that has just been carried out. -/
def post (history : History κ) (command : κ) : History κ :=
  { history with done := bounded history.limit (command :: history.done), undone := [] }

/-- Takes the newest command back.  Gives the command, or nothing if there was none. -/
def undo (revert : EStateM ε (κ × σ) Unit) : EStateM ε (History κ × σ) (Option κ) :=
  fun (history, document) =>
    match history.done with
    | [] => .ok none (history, document)
    | command :: older =>
      match revert (command, document) with
      | .ok () (command, document) =>
        .ok (some command)
          ({ history with done := older, undone := command :: history.undone }, document)
      | .error failure (command, document) =>
        .error failure ({ history with done := command :: older }, document)

/-- Carries out again what was taken back last.  Gives the command, or nothing if there was
none. -/
def redo (apply : EStateM ε (κ × σ) Unit) : EStateM ε (History κ × σ) (Option κ) :=
  fun (history, document) =>
    match history.undone with
    | [] => .ok none (history, document)
    | command :: later =>
      match apply (command, document) with
      | .ok () (command, document) =>
        .ok (some command)
          ({ history with done := command :: history.done, undone := later }, document)
      | .error failure (command, document) =>
        .error failure ({ history with undone := command :: later }, document)

/-- Forgets all commands. -/
def clear (history : History κ) : History κ := empty history.limit

/-- Whether there is a command to undo. -/
def canUndo (history : History κ) : Bool := !history.done.isEmpty

/-- Whether there is a command to redo. -/
def canRedo (history : History κ) : Bool := !history.undone.isEmpty

/-- What the history allows. -/
def state (history : History κ) : HistoryState :=
  match history.canUndo, history.canRedo with
  | false, false => .clean
  | true, false => .hasUndo
  | false, true => .hasRedo
  | true, true => .hasBoth

/-- The label for undoing, given the titles of commands. -/
def undoLabel (title : κ → String) (history : History κ) : String :=
  match history.done with
  | [] => "Cannot Undo"
  | command :: _ => "Undo " ++ title command

/-- The label for redoing, given the titles of commands. -/
def redoLabel (title : κ → String) (history : History κ) : String :=
  match history.undone with
  | [] => "Cannot Redo"
  | command :: _ => "Redo " ++ title command

end History

end FormEditor
