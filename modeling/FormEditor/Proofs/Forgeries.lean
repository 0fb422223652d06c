import FormEditor.Proofs.Atomicity
import FormEditor.Proofs.Refusals

/-!
# Commands that were never recorded

A command that only moves fields or writes attributes may be replayed on any form, also one that
was made up: with ids that are not in the form or are repeated, with positions that are not there,
with a way that leads below the fields that go it.  Such a replay is refused and leaves command and
form as they were, or it does all that the command says.  For this the check of the place where the
fields should be and the check of each field have to rule out that a later field is refused after
an earlier one has moved.

`Command.Fits` says which forms a command fits.  Main statement: `Command.bare_replay`.
-/

set_option autoImplicit false

namespace FormEditor

namespace Form

variable {form : Form} {id parent source : NodeId} {ids : List NodeId} {start : Nat}
  {target : Position}

/-! ## Moving fields past a sibling -/

/-- The fields are side by side, and there is a sibling in the direction past which they can go. -/
def CanPass (form : Form) (ids : List NodeId) (direction : Direction) : Prop :=
  ids ≠ [] ∧ ∃ parent front passed block back, ids.Perm block ∧
    form.children parent =
      match direction with
      | .up => front ++ passed :: (block ++ back)
      | .down => front ++ (block ++ passed :: back)

variable {direction : Direction}

/-- The move of the fields in a direction. -/
def pass (direction : Direction) (ids : List NodeId) : Edit (Outcome Run) :=
  match direction with
  | .up => moveUp ids
  | .down => moveDown ids

/-- Siblings in any order are moved as the block that they make up. -/
theorem WellFormed.pass_of_perm (wellFormed : form.WellFormed) {block : List NodeId}
    (perm : ids.Perm block) (nonempty : ids ≠ []) (stands : form.Block parent start block) :
    pass direction ids form = pass direction block form := by
  have filled : block ≠ [] := fun none => nonempty (none ▸ perm).eq_nil
  have asked := wellFormed.run_of_perm stands filled perm
  have again := wellFormed.run_of_block stands filled
  cases direction
  · show moveUp ids form = moveUp block form
    unfold moveUp
    rw [Edit.ask_bind, Edit.ask_bind, asked, again]
  · show moveDown ids form = moveDown block form
    unfold moveDown
    rw [Edit.ask_bind, Edit.ask_bind, asked, again]

theorem WellFormed.pass_allOrNothing (wellFormed : form.WellFormed) (direction : Direction)
    (ids : List NodeId) :
    AllOrNothing (form.Siblings ids) form ((Outcome.edge? <$> pass direction ids) form) := by
  cases direction with
  | up => exact moveUp_allOrNothing wellFormed ids
  | down => exact moveDown_allOrNothing wellFormed ids

theorem WellFormed.pass_of_canPass (wellFormed : form.WellFormed)
    (can : form.CanPass ids direction) :
    ∃ run after, pass direction ids form = .ok (.applied run) after := by
  obtain ⟨nonempty, parent, front, passed, block, back, perm, children⟩ := can
  have filled : block ≠ [] := fun none => nonempty (none ▸ perm).eq_nil
  cases direction with
  | up =>
    have stands : form.Block parent (front ++ [passed]).length block :=
      ⟨front ++ [passed], back, by rw [children]; simp, rfl⟩
    rw [wellFormed.pass_of_perm perm nonempty stands]
    exact ⟨_, _, moveUp_eq wellFormed filled children⟩
  | down =>
    have stands : form.Block parent front.length block :=
      ⟨front, passed :: back, by rw [children]; simp, rfl⟩
    rw [wellFormed.pass_of_perm perm nonempty stands]
    exact ⟨_, _, moveDown_eq wellFormed filled children⟩

theorem WellFormed.canPass_of_pass (wellFormed : form.WellFormed) {run : Run} {after : Form}
    (moved : pass direction ids form = .ok (.applied run) after) : form.CanPass ids direction := by
  obtain ⟨nonempty, parent, start, block, perm, stands⟩ :=
    (wellFormed.pass_allOrNothing direction ids).fits_of_ok moved
  have filled : block ≠ [] := fun none => nonempty (none ▸ perm).eq_nil
  rw [wellFormed.pass_of_perm perm nonempty stands] at moved
  cases direction with
  | up =>
    rcases moveUp_cases wellFormed filled stands with edge | ⟨front, passed, back, children, -⟩
    · cases edge.symm.trans moved
    · exact ⟨nonempty, parent, front, passed, block, back, perm, children⟩
  | down =>
    rcases moveDown_cases wellFormed filled stands with edge | ⟨front, passed, back, children, -⟩
    · cases edge.symm.trans moved
    · exact ⟨nonempty, parent, front, passed, block, back, perm, children⟩

end Form

/-! ## Replays -/

/-- Where a replay in a direction finds the fields that went a way. -/
def Relocation.start (way : Relocation) : Replay → Position
  | .undo => way.target
  | .redo => way.source

/-- Where a replay in a direction takes the fields that went a way. -/
def Relocation.finish (way : Relocation) (direction : Replay) : Position :=
  way.start direction.opposite

/-- The direction in which a replay moves fields that were moved. -/
def Direction.replayed (direction : Direction) : Replay → Direction
  | .undo => direction.opposite
  | .redo => direction

namespace Command

open Form

variable {form : Form} {command : Command} {ids : List NodeId}

/-- The command fits the form: what it says about the form in which it is replayed is so. -/
def Fits (direction : Replay) (form : Form) : Command → Prop
  | .move way ids => form.CanPass ids (way.replayed direction)
  | .promote way | .demote way =>
    (form.contains (way.start direction).parent ∧
      form.Block (way.start direction).parent (way.start direction).index way.ids) ∧
        form.OpenTo way.ids (way.finish direction)
  | .values _ changes => ∀ change ∈ changes, form.contains change.node
  | .insert .. | .delete .. => False

/-- An edit of the form as part of a replay is refused and leaves the form as it is, because
something does not fit, or it has its effect. -/
def Clean (fits : Prop) (effect : Form → Prop) (edit : EStateM EditError Form Unit)
    (form : Form) : Prop :=
  (∃ error, edit form = .error error form) ∧ ¬ fits ∨
    fits ∧ ∃ after, edit form = .ok () after ∧ effect after

theorem clean_shift (wellFormed : form.WellFormed) (title : String) (direction : Direction)
    (ids : List NodeId) :
    Clean (form.CanPass ids direction) (fun _ => True) (shift title direction ids) form := by
  unfold Clean shift
  rcases (wellFormed.pass_allOrNothing direction ids).outcome_cases with
    ⟨fault, refused⟩ | ⟨edge, still⟩ | ⟨run, after, moved⟩
  · refine .inl ⟨⟨_, Step.bind_of_error (onForm_of_error refused)⟩, fun can => ?_⟩
    obtain ⟨run, after, moved⟩ := wellFormed.pass_of_canPass can
    cases refused.symm.trans moved
  · refine .inl ⟨⟨_, Step.bind_of_ok (onForm_of_ok still)⟩, fun can => ?_⟩
    obtain ⟨run, after, moved⟩ := wellFormed.pass_of_canPass can
    cases still.symm.trans moved
  · exact .inr ⟨wellFormed.canPass_of_pass moved, after, Step.bind_of_ok (onForm_of_ok moved),
      trivial⟩

theorem clean_follow (wellFormed : form.WellFormed) (ids : List NodeId)
    (source target : Position) :
    Clean ((form.contains source.parent ∧ form.Block source.parent source.index ids) ∧
        form.OpenTo ids target)
      (fun after => form.Block source.parent source.index ids ∧
        after.Block target.parent target.index ids)
      (follow ids source target) form := by
  unfold Clean follow
  by_cases there : form.contains source.parent ∧ form.Block source.parent source.index ids
  · obtain ⟨stored, block⟩ := there
    rw [Step.bind_of_ok (expectAt_of_block stored block)]
    rcases wellFormed.moveRun_cases block with
      ⟨⟨fault, refused⟩, closed⟩ | ⟨opened, after, moved, arrived⟩
    · exact .inl ⟨⟨_, onForm_of_error refused⟩, fun fit => closed fit.2⟩
    · exact .inr ⟨⟨⟨stored, block⟩, opened⟩, after, onForm_of_ok moved, block, arrived⟩
  · rcases expectAt_cases source ids form with ⟨error, refused⟩ | here
    · exact .inl ⟨⟨error, Step.bind_of_error refused⟩, fun fit => there fit.1⟩
    · exact absurd here there

/-- Changes are written one by one, and once all fields are known to be there none is refused. -/
theorem clean_changes {changes : List Change} {writes : Edit Unit}
    (written : (∀ change ∈ changes, form.contains change.node) → ∃ after,
      writes form = .ok () after) :
    Clean (∀ change ∈ changes, form.contains change.node) (fun _ => True)
      (onForm (do
        Edit.ask fun form => form.checkPresent (changes.map Change.node)
        writes)) form := by
  cases checked : form.checkPresent (changes.map Change.node) with
  | error fault =>
    refine .inl ⟨⟨_, onForm_of_error (Step.bind_of_error (Edit.ask_of_error checked))⟩, ?_⟩
    rw [← checkPresent_nodes_eq_ok_iff, checked]
    exact nofun
  | ok _ =>
    have present := checkPresent_nodes_eq_ok_iff.mp checked
    obtain ⟨after, done⟩ := written present
    refine .inr ⟨present, after, onForm_of_ok ?_, trivial⟩
    rw [Step.bind_of_ok (Edit.ask_of_ok checked)]
    exact done

/-- What an edit of the form does to a command that holds nothing. -/
theorem Clean.keeping {fits : Prop} {effect : Form → Prop} {edit : EStateM EditError Form Unit}
    (clean : Clean fits effect edit form) :
    match Command.keeping edit (command, form) with
    | .error _ (command', after) => command' = command ∧ after = form ∧ ¬ fits
    | .ok () (command', after) => command' = command ∧ fits ∧ effect after := by
  rcases clean with ⟨⟨error, refused⟩, unfit⟩ | ⟨fit, after, done, effect⟩
  · rw [keeping_of_error refused]
    exact ⟨rfl, rfl, unfit⟩
  · rw [keeping_of_ok done]
    exact ⟨rfl, fit, effect⟩

/-- **A replay of a command that holds no branches is all or nothing**, on any valid form and
whatever the command says.  It is refused if and only if the command does not fit the form, and
then nothing has changed.  Fields that went up or down a level were where the way starts, side by
side and in order, and are where it ends. -/
theorem bare_replay (valid : form.validate = .ok ()) (command : Command)
    (bare : ¬ command.Holding) (direction : Replay) :
    match play direction (command, form) with
    | .error _ (command', after) =>
      command' = command ∧ after = form ∧ ¬ command.Fits direction form
    | .ok () (command', after) => command' = command ∧ command.Fits direction form ∧
        match command with
        | .promote way | .demote way =>
          form.Block (way.start direction).parent (way.start direction).index way.ids ∧
            after.Block (way.finish direction).parent (way.finish direction).index way.ids
        | _ => True := by
  have wellFormed := validate_eq_ok_iff.mp valid
  cases command with
  | insert kind placement held => exact absurd trivial bare
  | delete ids removals => exact absurd trivial bare
  | move way ids => cases direction <;> exact (clean_shift wellFormed _ _ ids).keeping
  | promote way => cases direction <;> exact (clean_follow wellFormed way.ids _ _).keeping
  | demote way => cases direction <;> exact (clean_follow wellFormed way.ids _ _).keeping
  | values kind changes =>
    cases direction with
    | undo => exact (clean_changes fun present => ⟨_, unwrites_of_present present⟩).keeping
    | redo => exact (clean_changes fun present => ⟨_, writes_of_present present⟩).keeping

/-- A field goes the way up that is made up for it, and on the same form the way back is refused. -/
theorem bare_replay_promoting :
    let form := (Branch.ofOutline ⟨10⟩
      (.node .empty [.node .empty [.node .empty []], .node .empty []])).toForm
    let command := Command.promote ⟨[⟨12⟩], ⟨⟨11⟩, 0⟩, ⟨⟨10⟩, 1⟩⟩
    (∃ after, play .redo (command, form) = .ok () (command, after) ∧
      after.Block ⟨10⟩ 1 [⟨12⟩]) ∧
        ∃ error, play .undo (command, form) = .error error (command, form) := by
  intro form command
  have valid : form.validate = .ok () := by decide +kernel
  have forth := bare_replay valid command (fun holding => holding) .redo
  have back := bare_replay valid command (fun holding => holding) .undo
  have done : (match play .redo (command, form), play .undo (command, form) with
      | .ok _ _, .error _ _ => true
      | _, _ => false) = true := by decide +kernel
  cases gone : play .redo (command, form) with
  | error _ _ =>
    rw [gone] at done
    cases done
  | ok _ state =>
    rw [gone] at forth done
    cases returned : play .undo (command, form) with
    | ok _ _ =>
      rw [returned] at done
      cases done
    | error error left =>
      rw [returned] at back
      obtain ⟨same, -, -, arrived⟩ := forth
      obtain ⟨same', unchanged, -⟩ := back
      exact ⟨⟨state.2, congrArg (fun command => EStateM.Result.ok _ (command, state.2)) same,
        arrived⟩, error, congrArg (EStateM.Result.error error) (Prod.ext same' unchanged)⟩

end Command

end FormEditor
