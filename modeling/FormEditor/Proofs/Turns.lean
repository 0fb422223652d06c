import FormEditor.Proofs.Replays

/-!
# Replays in either direction

What is true of taking a command back is true of carrying it out, with the two forms exchanged.
This module says so once for both directions: `Command.play` replays a command, `Command.Playable`
says that a form is fit for it, and `Command.Turns` that it leads from one form to another.

Main statements: `Turns.back`, by which a command that has been replayed leads back; and
`Turns.alike`, by which only what counts of the two forms matters.
-/

set_option autoImplicit false

namespace FormEditor

namespace Replay

/-- The way back. -/
def opposite : Replay → Replay
  | .undo => .redo
  | .redo => .undo

@[simp] theorem opposite_opposite (direction : Replay) :
    direction.opposite.opposite = direction := by
  cases direction <;> rfl

theorem eq_or_eq_opposite (other direction : Replay) :
    other = direction ∨ other = direction.opposite := by
  cases other <;> cases direction <;> simp [opposite]

end Replay

namespace Command

variable {closeness : Closeness} {direction : Replay} {command command' : Command}
  {form form' left right : Form}

/-- The replay of a command. -/
def play : Replay → EStateM EditError (Command × Form) Unit
  | .undo => revert
  | .redo => apply

/-- A command may be replayed on a form. -/
def Playable (closeness : Closeness) (direction : Replay) (form : Form) (command : Command) :
    Prop :=
  match direction with
  | .undo => Revertible closeness form command
  | .redo => Appliable closeness form command

/-- **What may be replayed is replayed, and then it may be replayed the other way, which leads back
to the form.** -/
theorem Playable.play (playable : Playable closeness direction form command)
    (wellFormed : form.WellFormed) :
    ∃ command' form', Command.play direction (command, form) = .ok () (command', form') ∧
      form'.WellFormed ∧ Playable closeness direction.opposite form' command' ∧
        ∃ command'' form'',
          Command.play direction.opposite (command', form') = .ok () (command'', form'') ∧
            form''.Alike (Attributes.shown closeness) form := by
  cases direction with
  | undo => exact Revertible.revert playable wellFormed
  | redo => exact Appliable.apply playable wellFormed

theorem Playable.alike (playable : Playable closeness direction left command)
    (alike : left.Alike (Attributes.shown closeness) right) :
    Playable closeness direction right command := by
  cases direction with
  | undo => exact Revertible.alike playable alike
  | redo => exact Appliable.alike playable alike

theorem Playable.alike_play {leftCommand rightCommand : Command} {leftAfter rightAfter : Form}
    (playable : Playable closeness direction left command) (wellFormed : left.WellFormed)
    (alike : left.Alike (Attributes.shown closeness) right)
    (leftDone : Command.play direction (command, left) = .ok () (leftCommand, leftAfter))
    (rightDone : Command.play direction (command, right) = .ok () (rightCommand, rightAfter)) :
    leftAfter.Alike (Attributes.shown closeness) rightAfter := by
  cases direction with
  | undo => exact Revertible.alike_revert playable wellFormed alike leftDone rightDone
  | redo => exact Appliable.alike_apply playable wellFormed alike leftDone rightDone

/-- A replay of the command leads from one form to another. -/
def Turns (closeness : Closeness) (direction : Replay) (command : Command) (here there : Form) :
    Prop :=
  Playable closeness direction here command ∧
    ∃ command' form', play direction (command, here) = .ok () (command', form') ∧
      form'.Alike (Attributes.shown closeness) there

namespace Turns

variable {here there here' there' : Form}

/-- What is replayed leads to what comes of it. -/
theorem of_play (playable : Playable closeness direction here command)
    (done : play direction (command, here) = .ok () (command', there)) :
    Turns closeness direction command here there :=
  ⟨playable, command', there, done, .refl there⟩

/-- Only what counts of the two forms matters. -/
theorem alike (turns : Turns closeness direction command here there) (wellFormed : here.WellFormed)
    (same : here.Alike (Attributes.shown closeness) here')
    (same' : there.Alike (Attributes.shown closeness) there') :
    Turns closeness direction command here' there' := by
  obtain ⟨playable, command₁, form₁, done, reached⟩ := turns
  have playable' := playable.alike same
  obtain ⟨command₂, form₂, done', -⟩ := playable'.play (same.wellFormed wellFormed)
  exact ⟨playable', command₂, form₂, done',
    ((playable.alike_play wellFormed same done done').symm.trans reached).trans same'⟩

/-- **A command that has been replayed leads back again.** -/
theorem back (turns : Turns closeness direction command here there) (wellFormed : here.WellFormed) :
    ∃ command' form', play direction (command, here) = .ok () (command', form') ∧
      form'.WellFormed ∧ form'.Alike (Attributes.shown closeness) there ∧
        Turns closeness direction.opposite command' there here := by
  obtain ⟨playable, command₁, form₁, done, reached⟩ := turns
  obtain ⟨command', form', done', kept, playable', command'', form'', again, returned⟩ :=
    playable.play wellFormed
  cases done.symm.trans done'
  have turned : Turns closeness direction.opposite command₁ form₁ here :=
    ⟨playable', command'', form'', again, returned⟩
  exact ⟨command₁, form₁, done, kept, reached, turned.alike kept reached (.refl here)⟩

/-- After a replay the command leads back to where it came from. -/
theorem back_of_play (playable : Playable closeness direction form command)
    (wellFormed : form.WellFormed)
    (done : play direction (command, form) = .ok () (command', form')) :
    form'.WellFormed ∧ Turns closeness direction.opposite command' form' form := by
  obtain ⟨_, _, again, kept, -, turned⟩ := (of_play playable done).back wellFormed
  cases done.symm.trans again
  exact ⟨kept, turned⟩

end Turns

/-! ## One replay after the other -/

/-- Commands whose replays lead from a form through a list of forms. -/
inductive Leads (closeness : Closeness) (direction : Replay) :
    Form → List Command → List Form → Prop where
  | here {form : Form} : Leads closeness direction form [] []
  | step {form next : Form} {command : Command} {commands : List Command} {forms : List Form} :
      Turns closeness direction command form next →
        Leads closeness direction next commands forms →
          Leads closeness direction form (command :: commands) (next :: forms)

namespace Leads

variable {commands : List Command} {forms : List Form}

theorem length_eq (leads : Leads closeness direction form commands forms) :
    commands.length = forms.length := by
  induction leads with
  | here => rfl
  | step _ _ ih => exact congrArg Nat.succ ih

theorem take (leads : Leads closeness direction form commands forms) (count : Nat) :
    Leads closeness direction form (commands.take count) (forms.take count) := by
  induction leads generalizing count with
  | here =>
    rw [List.take_nil, List.take_nil]
    exact .here
  | step first _ ih =>
    cases count with
    | zero => exact .here
    | succ count => exact .step first (ih count)

/-- A limit that drops commands drops forms. -/
theorem bounded (leads : Leads closeness direction form commands forms) (limit : Nat) :
    Leads closeness direction form (History.bounded limit commands)
      (History.bounded limit forms) := by
  unfold History.bounded
  split
  · exact leads
  · exact leads.take limit

end Leads

end Command

end FormEditor
