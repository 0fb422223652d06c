import FormEditor.Command
import FormEditor.Proofs.Form.Gathering
import FormEditor.Proofs.Form.Values

/-!
# Replaying commands

A command fits a form in one of two ways: it may be carried out on it (`Command.Appliable`), or
taken back from it (`Command.Revertible`).  Both say what the command finds in the form: the
place for its branches, the block that it has inserted or moved, the values that it has written.

Main statements: what may be carried out succeeds, and then may be taken back, which leads back to
the form (`Appliable.apply`); the other way round (`Revertible.revert`); and both depend only on
what counts of the form (`Appliable.alike`, `Revertible.alike`).
-/

set_option autoImplicit false

namespace FormEditor.Command

open Form

variable {closeness : Closeness} {form form' left right : Form} {ids : List NodeId}

/-! ## The parts of a replay -/

theorem onForm_of_ok {α : Type} {edit : Edit α} {result : α} (done : edit form = .ok result form') :
    onForm edit form = .ok result form' := by
  simp only [onForm, done]

theorem keeping_of_ok {edit : EStateM EditError Form Unit} {command : Command}
    (done : edit form = .ok () form') :
    keeping edit (command, form) = .ok () (command, form') := by
  simp only [keeping, done]

theorem replacing_of_ok {edit : EStateM EditError Form Command} {command command' : Command}
    (done : edit form = .ok command' form') :
    replacing edit (command, form) = .ok () (command', form') := by
  simp only [replacing, done]

theorem expectAt_of_block {place : Position} (stored : form.contains place.parent)
    (block : form.Block place.parent place.index ids) : expectAt place ids form = .ok () form := by
  obtain ⟨field, found⟩ := contains_iff.mp stored
  have stop := block.stop_le
  obtain ⟨front, back, children, length⟩ := block
  rw [children_of_get? found] at children stop
  have taken : (field.children.drop place.index).take ids.length = ids := by
    rw [children, ← length, List.append_assoc, List.drop_left, List.take_left]
  unfold expectAt
  have asked : Edit.ask (fun form => form.field place.parent) form = .ok field form :=
    Edit.ask_of_ok (field_of_get? found)
  rw [Step.bind_of_ok (onForm_of_ok asked)]
  rw [taken, if_neg (by simp [Nat.not_lt.mpr stop])]
  rfl

theorem follow_of_transfer {source target : Position} {front back gapLeft gapRight : List NodeId}
    (wellFormed : form.WellFormed)
    (transfer : form.Transfer ids source.parent front back target.parent gapLeft gapRight)
    (start : front.length = source.index) (gap : gapLeft.length = target.index) :
    follow ids source target form =
      .ok () (form.transferred ids source.parent (front ++ back) target.parent
        (gapLeft ++ (ids ++ gapRight))) := by
  have block : form.Block source.parent source.index ids := start ▸ transfer.block
  have moved := transfer.moveRun_eq wellFormed
  rw [gap] at moved
  unfold follow
  rw [Step.bind_of_ok (expectAt_of_block transfer.source_stored block)]
  exact onForm_of_ok moved

theorem shift_of_applied {title : String} {direction : Direction} {run : Run}
    (moved : (match direction with
      | .up => Form.moveUp ids
      | .down => Form.moveDown ids) form = .ok (.applied run) form') :
    shift title direction ids form = .ok () form' := by
  unfold shift
  cases direction <;> rw [Step.bind_of_ok (onForm_of_ok moved)] <;> rfl

/-! ## Replays of each kind -/

section Kinds

variable {kind : InsertKind} {placement : Placement} {held : List Branch}
  {removals : List Removal} {direction : Direction} {way : Relocation} {label : ValueKind}
  {changes : List Change}

theorem apply_insert (complete : held.length = placement.ids.length)
    (stored : form.contains placement.position.parent)
    (done : attachAll placement.position.parent placement.position.index held form =
      .ok () form') :
    apply (.insert kind placement held, form) = .ok () (.insert kind placement [], form') := by
  obtain ⟨field, found⟩ := contains_iff.mp stored
  have asked : Edit.ask (fun form => form.field placement.position.parent) form =
      .ok field form := Edit.ask_of_ok (field_of_get? found)
  unfold apply
  rw [Step.get_bind]
  dsimp only
  rw [if_neg (Decidable.not_not.mpr complete),
    Step.bind_of_ok (keeping_of_ok (Step.discard_of_ok (onForm_of_ok asked))), Step.modify_bind]
  exact keeping_of_ok (onForm_of_ok done)

theorem revert_insert (stored : form.contains placement.position.parent)
    (block : form.Block placement.position.parent placement.position.index placement.ids)
    (done : detachAll placement.ids form = .ok removals form') :
    revert (.insert kind placement held, form) =
      .ok () (.insert kind placement (removals.map Removal.branch), form') := by
  unfold revert
  rw [Step.get_bind]
  refine replacing_of_ok ?_
  rw [Step.bind_of_ok (expectAt_of_block stored block), Step.bind_of_ok (onForm_of_ok done)]
  rfl

theorem apply_delete {made : List Removal} (done : deleteFields ids form = .ok made form') :
    apply (.delete ids removals, form) = .ok () (.delete ids made, form') := by
  unfold apply
  rw [Step.get_bind]
  refine replacing_of_ok ?_
  rw [Step.bind_of_ok (onForm_of_ok done)]
  rfl

theorem revert_delete {restored : List NodeId} (complete : removals.length = ids.length)
    (done : restoreFields removals form = .ok restored form') :
    revert (.delete ids removals, form) = .ok () (.delete ids [], form') := by
  unfold revert
  rw [Step.get_bind]
  dsimp only
  rw [if_neg (Decidable.not_not.mpr complete), Step.modify_bind]
  exact keeping_of_ok (Step.discard_of_ok (onForm_of_ok done))

theorem apply_move (done : shift (title (.move direction ids)) direction ids form = .ok () form') :
    apply (.move direction ids, form) = .ok () (.move direction ids, form') :=
  keeping_of_ok done

theorem revert_move
    (done : shift (title (.move direction ids)) direction.opposite ids form = .ok () form') :
    revert (.move direction ids, form) = .ok () (.move direction ids, form') :=
  keeping_of_ok done

end Kinds

/-! ## Commands that fit a form -/

/-- A command may be carried out on a form. -/
inductive Appliable (closeness : Closeness) (form : Form) : Command → Prop where
  | insert {kind : InsertKind} {placement : Placement} {held : List Branch} :
      held ≠ [] → held.map Branch.root = placement.ids →
        form.Restorable (removalsAt placement.position held) →
          Appliable closeness form (.insert kind placement held)
  | delete {ids : List NodeId} {removals : List Removal} :
      form.Removable ids → Appliable closeness form (.delete ids removals)
  | moveUp {ids : List NodeId} {parent passed : NodeId} {front back : List NodeId} :
      ids ≠ [] → form.children parent = front ++ passed :: (ids ++ back) →
        Appliable closeness form (.move .up ids)
  | moveDown {ids : List NodeId} {parent passed : NodeId} {front back : List NodeId} :
      ids ≠ [] → form.children parent = front ++ (ids ++ passed :: back) →
        Appliable closeness form (.move .down ids)
  | promote {way : Relocation} {front back left right : List NodeId} :
      form.Transfer way.ids way.source.parent front back way.target.parent left right →
        front.length = way.source.index → left.length = way.target.index →
          Appliable closeness form (.promote way)
  | demote {way : Relocation} {front back left right : List NodeId} :
      form.Transfer way.ids way.source.parent front back way.target.parent left right →
        front.length = way.source.index → left.length = way.target.index →
          Appliable closeness form (.demote way)
  | values {kind : ValueKind} {changes : List Change} :
      form.Traces closeness changes → Appliable closeness form (.values kind changes)

/-- A command may be taken back from a form. -/
inductive Revertible (closeness : Closeness) (form : Form) : Command → Prop where
  | insert {kind : InsertKind} {placement : Placement} {held : List Branch} :
      placement.ids ≠ [] → form.contains placement.position.parent →
        form.Block placement.position.parent placement.position.index placement.ids →
          Revertible closeness form (.insert kind placement held)
  | delete {ids : List NodeId} {removals : List Removal} :
      removals.map Removal.id = ids → form.Restorable removals →
        Revertible closeness form (.delete ids removals)
  | moveUp {ids : List NodeId} {parent passed : NodeId} {front back : List NodeId} :
      ids ≠ [] → form.children parent = front ++ (ids ++ passed :: back) →
        Revertible closeness form (.move .up ids)
  | moveDown {ids : List NodeId} {parent passed : NodeId} {front back : List NodeId} :
      ids ≠ [] → form.children parent = front ++ passed :: (ids ++ back) →
        Revertible closeness form (.move .down ids)
  | promote {way : Relocation} {front back left right : List NodeId} :
      form.Transfer way.ids way.target.parent left right way.source.parent front back →
        front.length = way.source.index → left.length = way.target.index →
          Revertible closeness form (.promote way)
  | demote {way : Relocation} {front back left right : List NodeId} :
      form.Transfer way.ids way.target.parent left right way.source.parent front back →
        front.length = way.source.index → left.length = way.target.index →
          Revertible closeness form (.demote way)
  | values {kind : ValueKind} {changes : List Change} :
      form.Traces closeness (changes.reverse.map Change.back) →
        Revertible closeness form (.values kind changes)

/-! ## There and back -/

/-- The parent at which a nonempty stack of branches is put back is there, with room. -/
theorem room_of_restorable {place : Position} {held : List Branch} (filled : held ≠ [])
    (restorable : form.Restorable (removalsAt place held)) :
    form.contains place.parent ∧ place.index ≤ (form.children place.parent).length := by
  cases held with
  | nil => exact absurd rfl filled
  | cons branch held => exact ⟨restorable.shift.1.parent_stored, restorable.shift.1.index_le⟩

/-- Branches that are attached as new siblings can be taken out again. -/
theorem insert_round {kind : InsertKind} {placement : Placement} {held : List Branch}
    (wellFormed : form.WellFormed) (filled : held ≠ [])
    (named : held.map Branch.root = placement.ids)
    (restorable : form.Restorable (removalsAt placement.position held)) :
    ∃ command' form', apply (.insert kind placement held, form) = .ok () (command', form') ∧
      form'.WellFormed ∧ Revertible closeness form' command' ∧
        ∃ command'', revert (command', form') = .ok () (command'', form) := by
  obtain ⟨stored, room⟩ := room_of_restorable filled restorable
  have done := attachAll_of_restorable restorable
  have complete : held.length = placement.ids.length := by
    rw [← named, List.length_map]
  have block := restorable.block_restored room
  rw [named] at block
  have stored' := restorable.contains_restored.mpr (.inl stored)
  have nonempty : placement.ids ≠ [] := by
    rw [← named]
    simpa using filled
  obtain ⟨removals, back⟩ := restorable.detachAll_restored wellFormed
  have roots : (removalsAt placement.position held).map Removal.id = placement.ids := by
    rw [← named, removalsAt, List.map_map]
    rfl
  rw [roots] at back
  exact ⟨_, _, apply_insert complete stored done, restorable.wellFormed_restored wellFormed,
    .insert nonempty stored' block, _, revert_insert stored' block back⟩

/-- A run that has passed the sibling before it can pass it again. -/
theorem moveUp_round {parent passed : NodeId} {front back : List NodeId}
    (wellFormed : form.WellFormed) (nonempty : ids ≠ [])
    (children : form.children parent = front ++ passed :: (ids ++ back)) :
    ∃ form' : Form, Form.moveUp ids form = .ok (.applied ⟨parent, front.length, ids⟩) form' ∧
      form'.WellFormed ∧ form'.children parent = front ++ (ids ++ passed :: back) ∧
        Form.moveDown ids form' = .ok (.applied ⟨parent, front.length + 1, ids⟩) form := by
  have listed : passed ∈ form.children parent := by
    rw [children]
    exact List.mem_append_right _ List.mem_cons_self
  have stored := contains_of_mem_children listed
  have perm : (front ++ (ids ++ passed :: back)).Perm (form.children parent) := by
    rw [children]
    exact List.Perm.append_left front List.perm_middle
  have moved : (form.relisted parent (front ++ (ids ++ passed :: back))).children parent =
      front ++ (ids ++ passed :: back) := (children_relisted stored).trans (if_pos rfl)
  have kept := wellFormed.wellFormed_relisted stored perm
  have back' := moveDown_eq kept nonempty moved
  rw [relisted_relisted, ← children, relisted_children] at back'
  exact ⟨_, moveUp_eq wellFormed nonempty children, kept, moved, back'⟩

/-- A run that has passed the sibling after it can pass it again. -/
theorem moveDown_round {parent passed : NodeId} {front back : List NodeId}
    (wellFormed : form.WellFormed) (nonempty : ids ≠ [])
    (children : form.children parent = front ++ (ids ++ passed :: back)) :
    ∃ form' : Form, Form.moveDown ids form = .ok (.applied ⟨parent, front.length + 1, ids⟩) form' ∧
      form'.WellFormed ∧ form'.children parent = front ++ passed :: (ids ++ back) ∧
        Form.moveUp ids form' = .ok (.applied ⟨parent, front.length, ids⟩) form := by
  have listed : passed ∈ form.children parent := by
    rw [children]
    exact List.mem_append_right _ (List.mem_append_right _ List.mem_cons_self)
  have stored := contains_of_mem_children listed
  have perm : (front ++ passed :: (ids ++ back)).Perm (form.children parent) := by
    rw [children]
    exact List.Perm.append_left front List.perm_middle.symm
  have moved : (form.relisted parent (front ++ passed :: (ids ++ back))).children parent =
      front ++ passed :: (ids ++ back) := (children_relisted stored).trans (if_pos rfl)
  have kept := wellFormed.wellFormed_relisted stored perm
  have back' := moveUp_eq kept nonempty moved
  rw [relisted_relisted, ← children, relisted_children] at back'
  exact ⟨_, moveDown_eq wellFormed nonempty children, kept, moved, back'⟩

/-- A run that has gone to another parent can go back. -/
theorem follow_round {source target : Position} {front back left right : List NodeId}
    (wellFormed : form.WellFormed)
    (transfer : form.Transfer ids source.parent front back target.parent left right)
    (start : front.length = source.index) (gap : left.length = target.index) :
    ∃ form' : Form, follow ids source target form = .ok () form' ∧ form'.WellFormed ∧
      form'.Transfer ids target.parent left right source.parent front back ∧
        follow ids target source form' = .ok () form := by
  have kept := transfer.wellFormed_transferred wellFormed
  have again := transfer.back_again wellFormed
  have back' := follow_of_transfer kept again gap start
  rw [transfer.transferred_back wellFormed] at back'
  exact ⟨_, follow_of_transfer wellFormed transfer start gap, kept, again, back'⟩

/-- **What may be carried out succeeds and may be taken back, which leads back to the form.** -/
theorem Appliable.apply {command : Command} (appliable : Appliable closeness form command)
    (wellFormed : form.WellFormed) :
    ∃ command' form', Command.apply (command, form) = .ok () (command', form') ∧
      form'.WellFormed ∧ Revertible closeness form' command' ∧
        ∃ command'' form'', Command.revert (command', form') = .ok () (command'', form'') ∧
          form''.Alike (Attributes.shown closeness) form := by
  cases appliable with
  | insert filled named restorable =>
    obtain ⟨command', form', done, kept, revertible, command'', back⟩ :=
      insert_round wellFormed filled named restorable
    exact ⟨command', form', done, kept, revertible, command'', form, back, Alike.refl form⟩
  | @delete ids removals removable =>
    obtain ⟨made, after, done, taken⟩ := wellFormed.exists_detachAll removable
    rw [← removable.deleteFields_eq wellFormed] at done
    have complete : made.length = ids.length := by
      rw [← taken.named, List.length_map]
    exact ⟨_, _, apply_delete done, taken.wellFormed, .delete taken.named taken.restorable, _, _,
      revert_delete complete (restoreFields_of_restorable taken.restorable),
      taken.alike_restored.of_full⟩
  | moveUp nonempty children =>
    obtain ⟨form', done, kept, moved, back⟩ := moveUp_round wellFormed nonempty children
    exact ⟨_, form', apply_move (shift_of_applied done), kept, .moveUp nonempty moved, _, form,
      revert_move (shift_of_applied back), Alike.refl form⟩
  | moveDown nonempty children =>
    obtain ⟨form', done, kept, moved, back⟩ := moveDown_round wellFormed nonempty children
    exact ⟨_, form', apply_move (shift_of_applied done), kept, .moveDown nonempty moved, _, form,
      revert_move (shift_of_applied back), Alike.refl form⟩
  | promote transfer start gap =>
    obtain ⟨form', done, kept, again, back⟩ := follow_round wellFormed transfer start gap
    exact ⟨_, form', keeping_of_ok done, kept, .promote again start gap, _, form,
      keeping_of_ok back, Alike.refl form⟩
  | demote transfer start gap =>
    obtain ⟨form', done, kept, again, back⟩ := follow_round wellFormed transfer start gap
    exact ⟨_, form', keeping_of_ok done, kept, .demote again start gap, _, form,
      keeping_of_ok back, Alike.refl form⟩
  | values traces =>
    obtain ⟨back, restored⟩ := traces.reversal
    exact ⟨_, _, keeping_of_ok (onForm_of_ok traces.applyChanges_eq),
      rewritten_links.symm.wellFormed wellFormed, .values back, _, _,
      keeping_of_ok (onForm_of_ok back.revertChanges_eq), restored⟩

/-- **What may be taken back is taken back and may be carried out again, which leads back to the
form.** -/
theorem Revertible.revert {command : Command} (revertible : Revertible closeness form command)
    (wellFormed : form.WellFormed) :
    ∃ command' form', Command.revert (command, form) = .ok () (command', form') ∧
      form'.WellFormed ∧ Appliable closeness form' command' ∧
        ∃ command'' form'', Command.apply (command', form') = .ok () (command'', form'') ∧
          form''.Alike (Attributes.shown closeness) form := by
  cases revertible with
  | @insert kind placement held nonempty stored block =>
    obtain ⟨removals, after, done, taken⟩ :=
      wellFormed.exists_detachAll (block.removable wellFormed)
    have same := block.removals_eq wellFormed done
    have restorable := taken.restorable
    have restored := taken.alike_restored
    rw [same] at restorable restored
    have named : (removals.map Removal.branch).map Branch.root = placement.ids := by
      rw [List.map_map]
      exact taken.named
    have filled : removals.map Removal.branch ≠ [] := by
      intro none
      rw [none] at named
      exact nonempty named.symm
    have complete : (removals.map Removal.branch).length = placement.ids.length := by
      rw [← named, List.length_map (Branch.root)]
    have again := attachAll_of_restorable restorable
    exact ⟨_, after, revert_insert stored block done, taken.wellFormed,
      .insert filled named restorable, _, _,
      apply_insert complete (room_of_restorable filled restorable).1 again, restored.of_full⟩
  | @delete ids removals named restorable =>
    have complete : removals.length = ids.length := by
      rw [← named, List.length_map]
    have kept := restorable.wellFormed_restored wellFormed
    have removable := restorable.removable_restored wellFormed
    obtain ⟨made, back⟩ := restorable.detachAll_restored wellFormed
    rw [← removable.deleteFields_eq kept, named] at back
    rw [named] at removable
    exact ⟨_, _, revert_delete complete (restoreFields_of_restorable restorable), kept,
      .delete removable, _, form, apply_delete back, Alike.refl form⟩
  | moveUp nonempty children =>
    obtain ⟨form', done, kept, moved, back⟩ := moveDown_round wellFormed nonempty children
    exact ⟨_, form', revert_move (shift_of_applied done), kept, .moveUp nonempty moved, _, form,
      apply_move (shift_of_applied back), Alike.refl form⟩
  | moveDown nonempty children =>
    obtain ⟨form', done, kept, moved, back⟩ := moveUp_round wellFormed nonempty children
    exact ⟨_, form', revert_move (shift_of_applied done), kept, .moveDown nonempty moved, _, form,
      apply_move (shift_of_applied back), Alike.refl form⟩
  | promote transfer start gap =>
    obtain ⟨form', done, kept, again, back⟩ := follow_round wellFormed transfer gap start
    exact ⟨_, form', keeping_of_ok done, kept, .promote again start gap, _, form,
      keeping_of_ok back, Alike.refl form⟩
  | demote transfer start gap =>
    obtain ⟨form', done, kept, again, back⟩ := follow_round wellFormed transfer gap start
    exact ⟨_, form', keeping_of_ok done, kept, .demote again start gap, _, form,
      keeping_of_ok back, Alike.refl form⟩
  | @values kind changes traces =>
    obtain ⟨back, restored⟩ := traces.reversal
    have twice : (changes.reverse.map Change.back).reverse.map Change.back = changes := by
      rw [← List.map_reverse, List.reverse_reverse, List.map_map]
      exact List.map_id changes
    rw [twice] at back restored
    exact ⟨_, _, keeping_of_ok (onForm_of_ok traces.revertChanges_eq),
      rewritten_links.symm.wellFormed wellFormed, .values back, _, _,
      keeping_of_ok (onForm_of_ok back.applyChanges_eq), restored⟩

/-! ## Forms that look alike -/

/-- Whether a command may be carried out depends only on what counts of the form. -/
theorem Appliable.alike {command : Command} (appliable : Appliable closeness left command)
    (alike : left.Alike (Attributes.shown closeness) right) :
    Appliable closeness right command := by
  cases appliable with
  | insert filled named restorable => exact .insert filled named (alike.restorable restorable)
  | delete removable => exact .delete (alike.removable removable)
  | moveUp nonempty children => exact .moveUp nonempty (alike.children_eq.symm.trans children)
  | moveDown nonempty children => exact .moveDown nonempty (alike.children_eq.symm.trans children)
  | promote transfer start gap => exact .promote (transfer.alike alike) start gap
  | demote transfer start gap => exact .demote (transfer.alike alike) start gap
  | values traces => exact .values (alike.traces traces).1

/-- Whether a command may be taken back depends only on what counts of the form. -/
theorem Revertible.alike {command : Command} (revertible : Revertible closeness left command)
    (alike : left.Alike (Attributes.shown closeness) right) :
    Revertible closeness right command := by
  cases revertible with
  | insert nonempty stored block =>
    exact .insert nonempty (alike.contains_eq.symm.trans stored) (alike.block block)
  | delete named restorable => exact .delete named (alike.restorable restorable)
  | moveUp nonempty children => exact .moveUp nonempty (alike.children_eq.symm.trans children)
  | moveDown nonempty children => exact .moveDown nonempty (alike.children_eq.symm.trans children)
  | promote transfer start gap => exact .promote (transfer.alike alike) start gap
  | demote transfer start gap => exact .demote (transfer.alike alike) start gap
  | values traces => exact .values (alike.traces traces).1

/-- Carried out on forms that look alike, a command leaves forms that look alike. -/
theorem Appliable.alike_apply {command leftCommand rightCommand : Command}
    {leftAfter rightAfter : Form} (appliable : Appliable closeness left command)
    (wellFormed : left.WellFormed) (alike : left.Alike (Attributes.shown closeness) right)
    (leftDone : Command.apply (command, left) = .ok () (leftCommand, leftAfter))
    (rightDone : Command.apply (command, right) = .ok () (rightCommand, rightAfter)) :
    leftAfter.Alike (Attributes.shown closeness) rightAfter := by
  have wellFormed' := alike.wellFormed wellFormed
  cases appliable with
  | insert filled named restorable =>
    have complete := (congrArg List.length named).symm.trans (List.length_map Branch.root)
    have restorable' := alike.restorable restorable
    cases leftDone.symm.trans (apply_insert complete.symm
      (room_of_restorable filled restorable).1 (attachAll_of_restorable restorable))
    cases rightDone.symm.trans (apply_insert complete.symm
      (room_of_restorable filled restorable').1 (attachAll_of_restorable restorable'))
    exact alike.restored
  | delete removable =>
    have removable' := alike.removable removable
    obtain ⟨made, after, done, -⟩ := wellFormed.exists_detachAll removable
    obtain ⟨made', after', done', -⟩ := wellFormed'.exists_detachAll removable'
    cases leftDone.symm.trans (apply_delete ((removable.deleteFields_eq wellFormed).trans done))
    cases rightDone.symm.trans
      (apply_delete ((removable'.deleteFields_eq wellFormed').trans done'))
    exact alike.detachAll wellFormed removable done done'
  | moveUp nonempty children =>
    have children' := alike.children_eq.symm.trans children
    cases leftDone.symm.trans
      (apply_move (shift_of_applied (moveUp_eq wellFormed nonempty children)))
    cases rightDone.symm.trans
      (apply_move (shift_of_applied (moveUp_eq wellFormed' nonempty children')))
    exact alike.relisted
  | moveDown nonempty children =>
    have children' := alike.children_eq.symm.trans children
    cases leftDone.symm.trans
      (apply_move (shift_of_applied (moveDown_eq wellFormed nonempty children)))
    cases rightDone.symm.trans
      (apply_move (shift_of_applied (moveDown_eq wellFormed' nonempty children')))
    exact alike.relisted
  | promote transfer start gap | demote transfer start gap =>
    cases leftDone.symm.trans (keeping_of_ok (follow_of_transfer wellFormed transfer start gap))
    cases rightDone.symm.trans
      (keeping_of_ok (follow_of_transfer wellFormed' (transfer.alike alike) start gap))
    exact alike.transferred
  | values traces =>
    obtain ⟨traces', same⟩ := alike.traces traces
    cases leftDone.symm.trans (keeping_of_ok (onForm_of_ok traces.applyChanges_eq))
    cases rightDone.symm.trans (keeping_of_ok (onForm_of_ok traces'.applyChanges_eq))
    exact same

/-- Taken back from forms that look alike, a command leaves forms that look alike. -/
theorem Revertible.alike_revert {command leftCommand rightCommand : Command}
    {leftAfter rightAfter : Form} (revertible : Revertible closeness left command)
    (wellFormed : left.WellFormed) (alike : left.Alike (Attributes.shown closeness) right)
    (leftDone : Command.revert (command, left) = .ok () (leftCommand, leftAfter))
    (rightDone : Command.revert (command, right) = .ok () (rightCommand, rightAfter)) :
    leftAfter.Alike (Attributes.shown closeness) rightAfter := by
  have wellFormed' := alike.wellFormed wellFormed
  cases revertible with
  | insert nonempty stored block =>
    have removable := block.removable wellFormed
    obtain ⟨made, after, done, -⟩ := wellFormed.exists_detachAll removable
    obtain ⟨made', after', done', -⟩ := wellFormed'.exists_detachAll (alike.removable removable)
    cases leftDone.symm.trans (revert_insert stored block done)
    cases rightDone.symm.trans
      (revert_insert (alike.contains_eq.symm.trans stored) (alike.block block) done')
    exact alike.detachAll wellFormed removable done done'
  | delete named restorable =>
    have complete := (congrArg List.length named).symm.trans (List.length_map Removal.id)
    have restorable' := alike.restorable restorable
    cases leftDone.symm.trans
      (revert_delete complete.symm (restoreFields_of_restorable restorable))
    cases rightDone.symm.trans
      (revert_delete complete.symm (restoreFields_of_restorable restorable'))
    exact alike.restored
  | moveUp nonempty children =>
    have children' := alike.children_eq.symm.trans children
    cases leftDone.symm.trans
      (revert_move (shift_of_applied (moveDown_eq wellFormed nonempty children)))
    cases rightDone.symm.trans
      (revert_move (shift_of_applied (moveDown_eq wellFormed' nonempty children')))
    exact alike.relisted
  | moveDown nonempty children =>
    have children' := alike.children_eq.symm.trans children
    cases leftDone.symm.trans
      (revert_move (shift_of_applied (moveUp_eq wellFormed nonempty children)))
    cases rightDone.symm.trans
      (revert_move (shift_of_applied (moveUp_eq wellFormed' nonempty children')))
    exact alike.relisted
  | promote transfer start gap | demote transfer start gap =>
    cases leftDone.symm.trans (keeping_of_ok (follow_of_transfer wellFormed transfer gap start))
    cases rightDone.symm.trans
      (keeping_of_ok (follow_of_transfer wellFormed' (transfer.alike alike) gap start))
    exact alike.transferred
  | values traces =>
    obtain ⟨traces', same⟩ := alike.traces traces
    cases leftDone.symm.trans (keeping_of_ok (onForm_of_ok traces.revertChanges_eq))
    cases rightDone.symm.trans (keeping_of_ok (onForm_of_ok traces'.revertChanges_eq))
    exact same

end FormEditor.Command
