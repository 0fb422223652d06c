import FormEditor.Proofs.Effects
import FormEditor.Proofs.Form.Acceptance

/-!
# Replays on other forms

A command that fits one form may be replayed on another, which was edited in the meantime.  Either
it is accepted there, and then it fits that form too, or it is refused.

What a refusal leaves depends on the command.  Taking an insertion back and carrying a deletion out
are checked before anything is written, so that a refusal changes nothing.  Carrying an insertion
out and taking a deletion back hand the branches over to the form before it is known whether they
fit.  A refusal then leaves a command without branches (`Command.Spent`).

Main statements: `Appliable.accepted` and `Revertible.accepted`, for replays that succeed; and
`Playable.refused`, for those that do not.
-/

set_option autoImplicit false

namespace FormEditor

namespace Command

open Form

variable {closeness : Closeness} {form form' : Form} {kind : InsertKind} {placement : Placement}
  {held : List Branch} {ids : List NodeId} {removals : List Removal} {command' : Command}
  {error : EditError}

/-! ## Refusals of each kind -/

theorem onForm_of_error {α : Type} {edit : Edit α} {fault : Fault}
    (refused : edit form = .error fault form') :
    onForm edit form = .error (.fault fault) form' := by
  simp only [onForm, refused]

theorem keeping_of_error {edit : EStateM EditError Form Unit} {command : Command}
    (refused : edit form = .error error form') :
    keeping edit (command, form) = .error error (command, form') := by
  simp only [keeping, refused]

theorem replacing_of_error {edit : EStateM EditError Form Command} {command : Command}
    (refused : edit form = .error error form') :
    replacing edit (command, form) = .error error (command, form') := by
  simp only [replacing, refused]

/-- Fields are expected at a place: they are a block there, or the form is left as it is. -/
theorem expectAt_cases (place : Position) (ids : List NodeId) (form : Form) :
    (∃ error, expectAt place ids form = .error error form) ∨
      form.contains place.parent ∧ form.Block place.parent place.index ids := by
  cases found : form.get? place.parent with
  | none =>
    have missing : Edit.ask (fun form => form.field place.parent) form =
        .error (.nodeNotFound place.parent) form :=
      Edit.ask_of_error (field_of_not_contains (not_contains_iff.mpr found))
    exact .inl ⟨_, Step.bind_of_error (onForm_of_error missing)⟩
  | some field =>
    have asked : Edit.ask (fun form => form.field place.parent) form = .ok field form :=
      Edit.ask_of_ok (field_of_get? found)
    unfold expectAt
    rw [Step.bind_of_ok (onForm_of_ok asked)]
    by_cases mismatch : field.children.length < place.index + ids.length ∨
        (field.children.drop place.index).take ids.length ≠ ids
    · exact .inl ⟨_, by rw [if_pos mismatch]; rfl⟩
    · rw [not_or, Nat.not_lt, ne_eq, Decidable.not_not] at mismatch
      refine .inr ⟨contains_of_get? found, field.children.take place.index,
        (field.children.drop place.index).drop ids.length, ?_, ?_⟩
      · rw [children_of_get? found]
        conv_lhs => rw [← List.take_append_drop place.index field.children,
          ← List.take_append_drop ids.length (field.children.drop place.index), mismatch.2]
        rw [List.append_assoc]
      · rw [List.length_take]
        omega

/-- An insertion is taken back, or its fields are not in place and nothing changes. -/
theorem revert_insert_cases (wellFormed : form.WellFormed) :
    (∃ error, revert (.insert kind placement held, form) =
      .error error (.insert kind placement held, form)) ∨
      form.contains placement.position.parent ∧
        form.Block placement.position.parent placement.position.index placement.ids ∧
          ∃ command' form',
            revert (.insert kind placement held, form) = .ok () (command', form') := by
  rcases expectAt_cases placement.position placement.ids form with
    ⟨error, refused⟩ | ⟨stored, block⟩
  · refine .inl ⟨error, ?_⟩
    unfold revert
    rw [Step.get_bind]
    exact replacing_of_error (Step.bind_of_error refused)
  · obtain ⟨made, after, done, -⟩ := wellFormed.exists_detachAll (block.removable wellFormed)
    exact .inr ⟨stored, block, _, _, revert_insert stored block done⟩

/-- A deletion is carried out, or one of its fields cannot be taken out and nothing changes. -/
theorem apply_delete_cases (wellFormed : form.WellFormed) :
    (∃ error, apply (.delete ids removals, form) = .error error (.delete ids removals, form)) ∨
      (∀ id ∈ ids, id ≠ form.root ∧ form.contains id) ∧
        ∃ made form', apply (.delete ids removals, form) = .ok () (.delete ids made, form') ∧
          form.Taken (form.topmost ids) made form' := by
  rcases deleteFields_cases wellFormed ids with
    ⟨fault, refused⟩ | ⟨allowed, made, after, done, taken⟩
  · refine .inl ⟨.fault fault, ?_⟩
    unfold apply
    rw [Step.get_bind]
    exact replacing_of_error (Step.bind_of_error (onForm_of_error refused))
  · exact .inr ⟨allowed, made, after, apply_delete done, taken⟩

/-- An insertion whose branches are at hand is carried out; or the parent is gone and nothing
changes; or the branches do not fit and are lost. -/
theorem apply_insert_cases (complete : held.length = placement.ids.length) :
    (¬ form.contains placement.position.parent ∧
      ∃ error, apply (.insert kind placement held, form) =
        .error error (.insert kind placement held, form)) ∨
      form.contains placement.position.parent ∧
        ((∃ form', attachAll placement.position.parent placement.position.index held form =
            .ok () form' ∧
          apply (.insert kind placement held, form) = .ok () (.insert kind placement [], form')) ∨
          held ≠ [] ∧ ∃ fault form',
            attachAll placement.position.parent placement.position.index held form =
              .error fault form' ∧
            apply (.insert kind placement held, form) =
              .error (.fault fault) (.insert kind placement [], form')) := by
  unfold apply
  rw [Step.get_bind]
  dsimp only
  rw [if_neg (Decidable.not_not.mpr complete)]
  cases found : form.get? placement.position.parent with
  | none =>
    have missing := not_contains_iff.mpr found
    have refused : Edit.ask (fun form => form.field placement.position.parent) form =
        .error (.nodeNotFound placement.position.parent) form :=
      Edit.ask_of_error (field_of_not_contains missing)
    exact .inl ⟨missing, _, Step.bind_of_error
      (keeping_of_error (Step.discard_of_error (onForm_of_error refused)))⟩
  | some field =>
    have asked : Edit.ask (fun form => form.field placement.position.parent) form =
        .ok field form := Edit.ask_of_ok (field_of_get? found)
    rw [Step.bind_of_ok (keeping_of_ok (Step.discard_of_ok (onForm_of_ok asked))),
      Step.modify_bind]
    refine .inr ⟨contains_of_get? found, ?_⟩
    cases done : attachAll placement.position.parent placement.position.index held form with
    | ok result form' => exact .inl ⟨form', rfl, keeping_of_ok (onForm_of_ok done)⟩
    | error fault form' =>
      refine .inr ⟨?_, fault, form', rfl, keeping_of_error (onForm_of_error done)⟩
      rintro rfl
      cases done

/-- A deletion whose branches are at hand is taken back; or they do not fit and are lost. -/
theorem revert_delete_cases (complete : removals.length = ids.length) :
    (∃ restored form', restoreFields removals form = .ok restored form' ∧
      revert (.delete ids removals, form) = .ok () (.delete ids [], form')) ∨
      removals ≠ [] ∧ ∃ fault form', restoreFields removals form = .error fault form' ∧
        revert (.delete ids removals, form) =
          .error (.fault fault) (.delete ids [], form') := by
  unfold revert
  rw [Step.get_bind]
  dsimp only
  rw [if_neg (Decidable.not_not.mpr complete), Step.modify_bind]
  cases done : restoreFields removals form with
  | ok restored form' =>
    exact .inl ⟨restored, form', rfl, keeping_of_ok (Step.discard_of_ok (onForm_of_ok done))⟩
  | error fault form' =>
    refine .inr ⟨?_, fault, form', rfl,
      keeping_of_error (Step.discard_of_error (onForm_of_error done))⟩
    rintro rfl
    cases done

/-! ## Commands that hold branches -/

/-- The command holds branches when it has been taken back, or when it has been carried out. -/
def Holding : Command → Prop
  | .insert _ _ _ | .delete _ _ => True
  | _ => False

/-- The branches that the replay would put back are not all at hand. -/
def Spent : Replay → Command → Prop
  | .redo, .insert _ placement held => held.length ≠ placement.ids.length
  | .undo, .delete ids removals => removals.length ≠ ids.length
  | _, _ => False

/-- The replay takes fields out, or it would put branches back at a parent that is gone: whatever
there is against that is found before anything is written. -/
def Guarded : Replay → Command → Form → Prop
  | .undo, .insert _ _ _, _ => True
  | .redo, .insert _ placement _, form => ¬ form.contains placement.position.parent
  | .redo, .delete _ _, _ => True
  | _, _, _ => False

/-- Without its branches a command cannot be replayed on any form. -/
theorem play_of_spent {direction : Replay} {command : Command} (spent : Spent direction command)
    (form : Form) : ∃ error, play direction (command, form) = .error error (command, form) := by
  cases command with
  | insert kind placement held =>
    cases direction with
    | undo => exact spent.elim
    | redo =>
      refine ⟨.mismatch (.nothingToInsert (title (.insert kind placement held))), ?_⟩
      show apply (.insert kind placement held, form) = _
      unfold apply
      rw [Step.get_bind]
      dsimp only
      rw [if_pos (show held.length ≠ placement.ids.length from spent)]
      rfl
  | delete ids removals =>
    cases direction with
    | redo => exact spent.elim
    | undo =>
      refine ⟨.mismatch (.nothingToRestore (title (.delete ids removals))), ?_⟩
      show revert (.delete ids removals, form) = _
      unfold revert
      rw [Step.get_bind]
      dsimp only
      rw [if_pos (show removals.length ≠ ids.length from spent)]
      rfl
  | move | promote | demote | values => cases direction <;> exact spent.elim

variable {closeness closeness' : Closeness} {other : Form} {command : Command}

theorem whole_of_restorable {place : Position}
    (restorable : form.Restorable (removalsAt place held)) :
    ∀ branch ∈ held, branch.Whole := by
  intro branch listed
  have member : (⟨place, branch⟩ : Removal) ∈ removalsAt place held := List.mem_map_of_mem listed
  exact restorable.whole member

theorem Appliable.not_spent (appliable : Appliable closeness form command) :
    ¬ Spent .redo command := by
  cases appliable with
  | insert filled named restorable =>
    intro spent
    refine spent ?_
    rw [← named, List.length_map]
  | delete | moveUp | moveDown | promote | demote | values => exact id

theorem Revertible.not_spent (revertible : Revertible closeness form command) :
    ¬ Spent .undo command := by
  cases revertible with
  | delete named restorable =>
    intro spent
    refine spent ?_
    rw [← named, List.length_map]
  | insert | moveUp | moveDown | promote | demote | values => exact id

/-- A command that may be carried out on one form and is accepted on another may be carried out
there; or it deletes, and leaves out fields that lie below others. -/
theorem Appliable.accepted (appliable : Appliable closeness other command)
    (holding : command.Holding) (wellFormed : form.WellFormed)
    (done : Command.apply (command, form) = .ok () (command', form')) :
    (∀ closeness, Appliable closeness form command) ∨
      form'.WellFormed ∧ Spent .undo command' := by
  cases appliable with
  | @insert kind placement held filled named restorable =>
    have complete : held.length = placement.ids.length := by
      rw [← named, List.length_map]
    have whole := whole_of_restorable restorable
    rcases apply_insert_cases complete with
      ⟨-, error, refused⟩ | ⟨-, ⟨after, put, -⟩ | ⟨-, fault, after, -, refused⟩⟩
    · cases done.symm.trans refused
    · exact .inl fun _ => .insert filled named (restorable_of_attachAll filled whole put)
    · cases done.symm.trans refused
  | @delete ids removals removable =>
    rcases apply_delete_cases wellFormed with ⟨error, refused⟩ | ⟨allowed, made, after, ran, taken⟩
    · cases done.symm.trans refused
    · cases done.symm.trans ran
      by_cases all : (form.topmost ids).length = ids.length
      · exact .inl fun _ => .delete (removable_of_topmost wellFormed removable.nodup allowed all)
      · refine .inr ⟨taken.wellFormed, ?_⟩
        show made.length ≠ ids.length
        rw [← List.length_map Removal.id, taken.named]
        exact all
  | moveUp | moveDown | promote | demote | values => exact holding.elim

/-- A command that may be taken back from one form and is accepted on another may be taken back
there. -/
theorem Revertible.accepted (revertible : Revertible closeness other command)
    (holding : command.Holding) (wellFormed : form.WellFormed)
    (done : Command.revert (command, form) = .ok () (command', form')) :
    Revertible closeness' form command := by
  cases revertible with
  | insert nonempty _ _ =>
    rcases revert_insert_cases wellFormed with ⟨error, refused⟩ | ⟨stored, block, -⟩
    · cases done.symm.trans refused
    · exact .insert nonempty stored block
  | @delete ids removals named restorable =>
    have complete : removals.length = ids.length := by
      rw [← named, List.length_map]
    rcases revert_delete_cases complete with
      ⟨restored, after, put, -⟩ | ⟨-, fault, after, -, refused⟩
    · exact .delete named (restorable_of_restoreFields (fun removal => restorable.whole)
        restorable.pairwise put)
    · cases done.symm.trans refused
  | moveUp | moveDown | promote | demote | values => exact holding.elim

/-- A command that is not carried out is as before, and so is the form, if that is found in time;
otherwise the command has lost its branches. -/
theorem Appliable.refused (appliable : Appliable closeness other command)
    (holding : command.Holding) (wellFormed : form.WellFormed)
    (refused : Command.apply (command, form) = .error error (command', form')) :
    form'.WellFormed ∧
      (Guarded .redo command form ∧ command' = command ∧ form' = form ∨
        ¬ Guarded .redo command form ∧ Spent .redo command') := by
  cases appliable with
  | @insert kind placement held filled named restorable =>
    have complete : held.length = placement.ids.length := by
      rw [← named, List.length_map]
    have whole := whole_of_restorable restorable
    rcases apply_insert_cases complete with
      ⟨missing, error, early⟩ | ⟨stored, ⟨after, -, done⟩ | ⟨-, fault, after, halfway, late⟩⟩
    · cases refused.symm.trans early
      exact ⟨wellFormed, .inl ⟨missing, rfl, rfl⟩⟩
    · cases refused.symm.trans done
    · cases refused.symm.trans late
      refine ⟨(keeps_attachAll whole).of_error wellFormed halfway,
        .inr ⟨fun missing => missing stored, ?_⟩⟩
      show 0 ≠ placement.ids.length
      rw [← complete]
      exact Nat.ne_of_lt (List.length_pos_of_ne_nil filled)
  | delete removable =>
    rcases apply_delete_cases wellFormed with ⟨error, early⟩ | ⟨-, made, after, done, -⟩
    · cases refused.symm.trans early
      exact ⟨wellFormed, .inl ⟨trivial, rfl, rfl⟩⟩
    · cases refused.symm.trans done
  | moveUp | moveDown | promote | demote | values => exact holding.elim

/-- A command that is not taken back is as before, and so is the form, if that is found in time;
otherwise the command has lost its branches. -/
theorem Revertible.refused (revertible : Revertible closeness other command)
    (holding : command.Holding) (wellFormed : form.WellFormed)
    (refused : Command.revert (command, form) = .error error (command', form')) :
    form'.WellFormed ∧
      (Guarded .undo command form ∧ command' = command ∧ form' = form ∨
        ¬ Guarded .undo command form ∧ Spent .undo command') := by
  cases revertible with
  | insert =>
    rcases revert_insert_cases wellFormed with ⟨error, early⟩ | ⟨-, -, made, after, done⟩
    · cases refused.symm.trans early
      exact ⟨wellFormed, .inl ⟨trivial, rfl, rfl⟩⟩
    · cases refused.symm.trans done
  | @delete ids removals named restorable =>
    have complete : removals.length = ids.length := by
      rw [← named, List.length_map]
    rcases revert_delete_cases complete with
      ⟨restored, after, -, done⟩ | ⟨some, fault, after, halfway, late⟩
    · cases refused.symm.trans done
    · cases refused.symm.trans late
      have kept := (keeps_restoreFields fun _ => restorable.whole).of_error wellFormed halfway
      refine ⟨kept, .inr ⟨id, ?_⟩⟩
      show 0 ≠ ids.length
      rw [← complete]
      exact Nat.ne_of_lt (List.length_pos_of_ne_nil some)
  | moveUp | moveDown | promote | demote | values => exact holding.elim

/-- **A replay that fails changes nothing, or it loses the branches of the command.** -/
theorem Playable.refused {direction : Replay}
    (playable : Playable closeness direction other command)
    (holding : command.Holding) (wellFormed : form.WellFormed)
    (refused : Command.play direction (command, form) = .error error (command', form')) :
    form'.WellFormed ∧
      (Guarded direction command form ∧ command' = command ∧ form' = form ∨
        ¬ Guarded direction command form ∧ Spent direction command') := by
  cases direction with
  | undo => exact Revertible.refused playable holding wellFormed refused
  | redo => exact Appliable.refused playable holding wellFormed refused

theorem Playable.not_spent {direction : Replay}
    (playable : Playable closeness direction form command) : ¬ Spent direction command := by
  cases direction with
  | undo => exact Revertible.not_spent playable
  | redo => exact Appliable.not_spent playable

/-- A replay that is accepted does not change of which kind a command is. -/
theorem Holding.of_emptied (holding : command.Holding) (same : command'.emptied = command.emptied) :
    command'.Holding := by
  cases command with
  | insert | delete =>
    cases command' with
    | insert | delete => trivial
    | move | promote | demote | values => cases same
  | move | promote | demote | values => exact holding.elim

end Command

end FormEditor
