import FormEditor.Proofs.Form.Highlights
import FormEditor.Proofs.Turns

/-!
# What a replay changes

A replay changes a form in one of five ways (`Command.Effect`): it puts back the branches that the
command holds, it takes fields out, which the command then holds, it changes the order of a child
list, it transfers a run, or it rewrites attributes.  From this follows what becomes of the
highlights, and that nothing unknown comes into the form.

Main statements: `Playable.effect`; `Effect.isHighlighted_iff`, which says that highlights stay
what they were; and `Effect.calm_iff`, which says when a command takes highlights out of the form.
-/

set_option autoImplicit false

namespace FormEditor

/-- No field of a branch is highlighted. -/
def Branch.Calm (branch : Branch) : Prop := ∀ id : NodeId, ¬ branch.toForm.isHighlighted id

/-- Every field of the form has an id that was given out before, and a bag that is legible as far
as values count. -/
def Form.Known (closeness : Closeness) (supply : Supply) (form : Form) : Prop :=
  ∀ (id : NodeId) (field : Field), form.get? id = some field →
    id.number < supply.next ∧ (closeness = .values → field.attributes.Distinct)

namespace Command

open Form

/-- The branches that a command holds. -/
def branches : Command → List Branch
  | .insert _ _ held => held
  | .delete _ removals => removals.map Removal.branch
  | _ => []

/-- The fields that a replay takes out of the form. -/
def takenOut : Command → Replay → List NodeId
  | .insert _ placement _, .undo => placement.ids
  | .delete ids _, .redo => ids
  | _, _ => []

/-- A command holds no highlighted field. -/
def Calm (command : Command) : Prop := ∀ branch ∈ command.branches, branch.Calm

/-- The ways in which a replay changes a form.  The lists are the branches that the command holds
before, the fields that it takes out, and the branches that it holds afterwards. -/
inductive Effect (form : Form) (held : List Branch) : List NodeId → List Branch → Form → Prop where
  | restored {removals : List Removal} :
      form.Restorable removals → removals.map Removal.branch = held →
        Effect form held [] [] (form.restored removals)
  | taken {ids : List NodeId} {removals : List Removal} {after : Form} :
      form.Removable ids → detachAll ids form = .ok removals after →
        Effect form held ids (removals.map Removal.branch) after
  | relisted {parent : NodeId} {list : List NodeId} :
      Effect form held [] [] (form.relisted parent list)
  | transferred {ids sourceList targetList : List NodeId} {source target : NodeId} :
      Effect form held [] [] (form.transferred ids source sourceList target targetList)
  | rewritten {changes : List Change} : Effect form held [] [] (form.rewritten changes)

variable {closeness : Closeness} {form after : Form} {command command' : Command}
  {held kept : List Branch} {ids : List NodeId}

theorem branches_removalsAt {place : Position} :
    (removalsAt place held).map Removal.branch = held := by
  rw [removalsAt, List.map_map]
  exact List.map_id held

/-- What carrying a command out does. -/
theorem Appliable.effect (appliable : Appliable closeness form command)
    (wellFormed : form.WellFormed)
    (done : Command.apply (command, form) = .ok () (command', after)) :
    Effect form command.branches (command.takenOut .redo) command'.branches after := by
  cases appliable with
  | insert filled named restorable =>
    have complete := (congrArg List.length named).symm.trans (List.length_map Branch.root)
    cases done.symm.trans (apply_insert complete.symm
      (room_of_restorable filled restorable).1 (attachAll_of_restorable restorable))
    exact .restored restorable branches_removalsAt
  | delete removable =>
    obtain ⟨made, last, further, -⟩ := wellFormed.exists_detachAll removable
    cases done.symm.trans (apply_delete ((removable.deleteFields_eq wellFormed).trans further))
    exact .taken removable further
  | moveUp nonempty children =>
    cases done.symm.trans
      (apply_move (shift_of_applied (moveUp_eq wellFormed nonempty children)))
    exact .relisted
  | moveDown nonempty children =>
    cases done.symm.trans
      (apply_move (shift_of_applied (moveDown_eq wellFormed nonempty children)))
    exact .relisted
  | promote transfer start gap | demote transfer start gap =>
    cases done.symm.trans (keeping_of_ok (follow_of_transfer wellFormed transfer start gap))
    exact .transferred
  | values traces =>
    cases done.symm.trans (keeping_of_ok (onForm_of_ok traces.applyChanges_eq))
    exact .rewritten

/-- What taking a command back does. -/
theorem Revertible.effect (revertible : Revertible closeness form command)
    (wellFormed : form.WellFormed)
    (done : Command.revert (command, form) = .ok () (command', after)) :
    Effect form command.branches (command.takenOut .undo) command'.branches after := by
  cases revertible with
  | insert nonempty stored block =>
    have removable := block.removable wellFormed
    obtain ⟨made, last, further, -⟩ := wellFormed.exists_detachAll removable
    cases done.symm.trans (revert_insert stored block further)
    exact .taken removable further
  | delete named restorable =>
    have complete := (congrArg List.length named).symm.trans (List.length_map Removal.id)
    cases done.symm.trans
      (revert_delete complete.symm (restoreFields_of_restorable restorable))
    exact .restored restorable rfl
  | moveUp nonempty children =>
    cases done.symm.trans
      (revert_move (shift_of_applied (moveDown_eq wellFormed nonempty children)))
    exact .relisted
  | moveDown nonempty children =>
    cases done.symm.trans
      (revert_move (shift_of_applied (moveUp_eq wellFormed nonempty children)))
    exact .relisted
  | promote transfer start gap | demote transfer start gap =>
    cases done.symm.trans (keeping_of_ok (follow_of_transfer wellFormed transfer gap start))
    exact .transferred
  | values traces =>
    cases done.symm.trans (keeping_of_ok (onForm_of_ok traces.revertChanges_eq))
    exact .rewritten

/-- **What a replay does.** -/
theorem Playable.effect {direction : Replay} (playable : Playable closeness direction form command)
    (wellFormed : form.WellFormed)
    (done : Command.play direction (command, form) = .ok () (command', after)) :
    Effect form command.branches (command.takenOut direction) command'.branches after := by
  cases direction with
  | undo => exact Revertible.effect playable wellFormed done
  | redo => exact Appliable.effect playable wellFormed done

/-! ## What stays of a command -/

/-- A command without the branches that it holds. -/
def emptied : Command → Command
  | .insert kind placement _ => .insert kind placement []
  | .delete ids _ => .delete ids []
  | command => command

theorem selectionAfter_emptied (command : Command) (direction : Replay) :
    command.emptied.selectionAfter direction = command.selectionAfter direction := by
  cases command <;> cases direction <;> rfl

theorem takenOut_emptied (command : Command) (direction : Replay) :
    command.emptied.takenOut direction = command.takenOut direction := by
  cases command <;> cases direction <;> rfl

/-- The fields that a command names and that were in the form before: those that it has removed or
moved. -/
def named? : Command → Option (List NodeId)
  | .delete ids _ | .move _ ids => some ids
  | .promote way | .demote way => some way.ids
  | .insert _ _ _ | .values _ _ => none

theorem named?_emptied (command : Command) : command.emptied.named? = command.named? := by
  cases command <;> rfl

/-- The fields that the command names are a block of the form. -/
def NamesBlock (command : Command) (form : Form) : Prop :=
  ∀ ids ∈ command.named?, ids ≠ [] ∧ ∃ parent start, form.Block parent start ids

theorem namesBlock_of_none (none : command.named? = none) : command.NamesBlock form := by
  intro ids named
  rw [none] at named
  cases named

theorem namesBlock_of_block {parent : NodeId} {start : Nat} (named : command.named? = some ids)
    (filled : ids ≠ []) (block : form.Block parent start ids) : command.NamesBlock form := by
  intro others listed
  rw [named] at listed
  cases listed
  exact ⟨filled, parent, start, block⟩

/-- The fields that a replay takes out are selected when they are back. -/
theorem selectionAfter_of_takenOut {command : Command} {direction : Replay} {top : NodeId}
    (taken : top ∈ command.takenOut direction) :
    command.selectionAfter direction.opposite = command.takenOut direction := by
  cases direction <;> cases command <;> first | rfl | cases taken

theorem keeping_eq_ok_iff {edit : EStateM EditError Form Unit} :
    keeping edit (command, form) = .ok () (command', after) ↔
      command' = command ∧ edit form = .ok () after := by
  cases done : edit form with
  | error error state => simp [keeping, done]
  | ok result state => simp [keeping, done, eq_comm]

theorem replacing_eq_ok_iff {edit : EStateM EditError Form Command} :
    replacing edit (command, form) = .ok () (command', after) ↔
      edit form = .ok command' after := by
  cases done : edit form with
  | error error state => simp [replacing, done]
  | ok result state => simp [replacing, done]

/-- Carrying a command out changes at most what it holds. -/
theorem emptied_of_apply (done : apply (command, form) = .ok () (command', after)) :
    command'.emptied = command.emptied := by
  cases command with
  | insert kind placement held =>
    unfold apply at done
    rw [Step.get_bind] at done
    dsimp only at done
    split at done
    · cases done
    · obtain ⟨⟨⟩, ⟨command₁, form₁⟩, -, done⟩ := Step.bind_eq_ok_iff.mp done
      rw [Step.modify_bind] at done
      rw [(keeping_eq_ok_iff.mp done).1]
      rfl
  | delete ids removals =>
    obtain ⟨made, state, -, same⟩ := Step.bind_eq_ok_iff.mp (replacing_eq_ok_iff.mp done)
    cases same
    rfl
  | move direction ids => rw [(keeping_eq_ok_iff.mp done).1]
  | promote way => rw [(keeping_eq_ok_iff.mp done).1]
  | demote way => rw [(keeping_eq_ok_iff.mp done).1]
  | values kind changes => rw [(keeping_eq_ok_iff.mp done).1]

/-- Taking a command back changes at most what it holds. -/
theorem emptied_of_revert (done : revert (command, form) = .ok () (command', after)) :
    command'.emptied = command.emptied := by
  cases command with
  | insert kind placement held =>
    obtain ⟨⟨⟩, state, -, rest⟩ := Step.bind_eq_ok_iff.mp (replacing_eq_ok_iff.mp done)
    obtain ⟨made, state, -, same⟩ := Step.bind_eq_ok_iff.mp rest
    cases same
    rfl
  | delete ids removals =>
    unfold revert at done
    rw [Step.get_bind] at done
    dsimp only at done
    split at done
    · cases done
    · rw [Step.modify_bind] at done
      rw [(keeping_eq_ok_iff.mp done).1]
      rfl
  | move direction ids => rw [(keeping_eq_ok_iff.mp done).1]
  | promote way => rw [(keeping_eq_ok_iff.mp done).1]
  | demote way => rw [(keeping_eq_ok_iff.mp done).1]
  | values kind changes => rw [(keeping_eq_ok_iff.mp done).1]

/-- A replay changes at most what a command holds. -/
theorem emptied_of_play {direction : Replay}
    (done : play direction (command, form) = .ok () (command', after)) :
    command'.emptied = command.emptied := by
  cases direction with
  | undo => exact emptied_of_revert done
  | redo => exact emptied_of_apply done

namespace Effect

theorem root_eq (effect : Effect form held ids kept after) (wellFormed : form.WellFormed) :
    after.root = form.root := by
  cases effect with
  | restored => exact root_restored
  | taken removable done =>
    obtain ⟨made, last, further, taken⟩ := wellFormed.exists_detachAll removable
    cases done.symm.trans further
    exact taken.root
  | relisted => rfl
  | transferred => rfl
  | rewritten => exact rewritten_links.1

/-- When the command holds no highlight, highlights stay what they were. -/
theorem isHighlighted_iff (effect : Effect form held ids kept after)
    (wellFormed : form.WellFormed) (calm : ∀ branch ∈ held, branch.Calm) (key : NodeId) :
    after.isHighlighted key ↔ after.contains key ∧ form.isHighlighted key := by
  have stays : after.isHighlighted key = form.isHighlighted key →
      (after.isHighlighted key ↔ after.contains key ∧ form.isHighlighted key) := by
    intro same
    rw [← same]
    exact ⟨fun lit => ⟨contains_of_isHighlighted lit, lit⟩, And.right⟩
  cases effect with
  | restored restorable named =>
    refine stays (Bool.eq_iff_iff.mpr ?_)
    rw [restorable.isHighlighted_restored]
    refine or_iff_left ?_
    rintro ⟨removal, listed, lit⟩
    exact calm removal.branch (named ▸ List.mem_map_of_mem listed) key lit
  | taken removable done =>
    obtain ⟨made, last, further, taken⟩ := wellFormed.exists_detachAll removable
    cases done.symm.trans further
    rw [(wellFormed.isHighlighted_detachAll removable done).1 key, taken.contains_iff]
    constructor
    · rintro ⟨lit, outside⟩
      exact ⟨⟨contains_of_isHighlighted lit, outside⟩, lit⟩
    · rintro ⟨⟨-, outside⟩, lit⟩
      exact ⟨lit, outside⟩
  | relisted => exact stays isHighlighted_relisted
  | transferred => exact stays isHighlighted_transferred
  | rewritten => exact stays isHighlighted_rewritten

/-- A command takes highlights out of the form when a field strictly below one that it takes out
is highlighted. -/
theorem calm_iff (effect : Effect form held ids kept after) (wellFormed : form.WellFormed) :
    (∀ branch ∈ kept, branch.Calm) ↔
      ∀ top ∈ ids, ∀ key : NodeId, form.Beneath top key → ¬ form.isHighlighted key := by
  cases effect with
  | @taken ids removals _ removable done =>
    have leaves := (wellFormed.isHighlighted_detachAll removable done).2
    obtain ⟨made, last, further, taken⟩ := wellFormed.exists_detachAll removable
    cases done.symm.trans further
    constructor
    · intro calm top listed key beneath lit
      rw [← taken.named] at listed
      obtain ⟨removal, member, rfl⟩ := List.mem_map.mp listed
      exact calm removal.branch (List.mem_map_of_mem member) key
        ((leaves removal member key).mpr ⟨lit, beneath⟩)
    · intro dark branch listed key lit
      obtain ⟨removal, member, rfl⟩ := List.mem_map.mp listed
      obtain ⟨litBefore, beneath⟩ := (leaves removal member key).mp lit
      exact dark removal.id (taken.named ▸ List.mem_map_of_mem member) key beneath litBefore
  | restored | relisted | transferred | rewritten =>
    exact iff_of_true (fun _ listed => absurd listed List.not_mem_nil)
      (fun _ listed => absurd listed List.not_mem_nil)

/-- A highlight strictly below a field that a command takes out is one that it holds afterwards; it
is in the form no more, and not one of the fields that were named. -/
theorem buried (effect : Effect form held ids kept after) (wellFormed : form.WellFormed)
    {top key : NodeId} (listed : top ∈ ids) (beneath : form.Beneath top key)
    (lit : form.isHighlighted key) :
    (∃ branch ∈ kept, branch.toForm.isHighlighted key) ∧ ¬ after.contains key ∧ key ∉ ids := by
  cases effect with
  | @taken ids removals _ removable done =>
    have leaves := (wellFormed.isHighlighted_detachAll removable done).2
    obtain ⟨made, last, further, taken⟩ := wellFormed.exists_detachAll removable
    cases done.symm.trans further
    refine ⟨?_, fun stored => ?_, fun named => ?_⟩
    · rw [← taken.named] at listed
      obtain ⟨removal, member, rfl⟩ := List.mem_map.mp listed
      exact ⟨removal.branch, List.mem_map_of_mem member,
        (leaves removal member key).mpr ⟨lit, beneath⟩⟩
    · exact (taken.contains_iff.mp stored).2 top listed beneath.under
    · exact removable.not_under listed named (wellFormed.ne_of_beneath beneath).symm beneath.under
  | restored | relisted | transferred | rewritten => cases listed

end Effect

/-- What carrying a command out brings back are the highlights that it holds, if taking it back
takes fields out. -/
theorem Appliable.lit_of_branch (appliable : Appliable closeness form command)
    (done : Command.apply (command, form) = .ok () (command', after))
    {top : NodeId} (taken : top ∈ command.takenOut .undo)
    {branch : Branch} (listed : branch ∈ command.branches) {key : NodeId}
    (lit : branch.toForm.isHighlighted key) : after.isHighlighted key := by
  cases appliable with
  | @insert kind placement held filled named restorable =>
    have complete := (congrArg List.length named).symm.trans (List.length_map Branch.root)
    cases done.symm.trans (apply_insert complete.symm
      (room_of_restorable filled restorable).1 (attachAll_of_restorable restorable))
    rw [restorable.isHighlighted_restored]
    exact .inr ⟨⟨placement.position, branch⟩, List.mem_map_of_mem listed, lit⟩
  | delete | moveUp | moveDown | promote | demote | values => cases taken

/-- What taking a command back brings back are the highlights that it holds, if carrying it out
takes fields out. -/
theorem Revertible.lit_of_branch (revertible : Revertible closeness form command)
    (done : Command.revert (command, form) = .ok () (command', after))
    {top : NodeId} (taken : top ∈ command.takenOut .redo)
    {branch : Branch} (listed : branch ∈ command.branches) {key : NodeId}
    (lit : branch.toForm.isHighlighted key) : after.isHighlighted key := by
  cases revertible with
  | delete named restorable =>
    have complete := (congrArg List.length named).symm.trans (List.length_map Removal.id)
    cases done.symm.trans
      (revert_delete complete.symm (restoreFields_of_restorable restorable))
    rw [restorable.isHighlighted_restored]
    obtain ⟨removal, member, rfl⟩ := List.mem_map.mp listed
    exact .inr ⟨removal, member, lit⟩
  | insert | moveUp | moveDown | promote | demote | values => cases taken

/-- What a replay brings back are the highlights that the command holds, if the replay back takes
fields out. -/
theorem Playable.lit_of_branch {direction : Replay}
    (playable : Playable closeness direction form command)
    (done : Command.play direction (command, form) = .ok () (command', after))
    {top : NodeId} (taken : top ∈ command.takenOut direction.opposite)
    {branch : Branch} (listed : branch ∈ command.branches) {key : NodeId}
    (lit : branch.toForm.isHighlighted key) : after.isHighlighted key := by
  cases direction with
  | undo => exact Revertible.lit_of_branch playable done taken listed lit
  | redo => exact Appliable.lit_of_branch playable done taken listed lit

end Command

/-! ## Nothing unknown -/

namespace Form

variable {closeness : Closeness} {supply supply' : Supply} {form form' : Form}

theorem Known.mono (known : form.Known closeness supply) (later : supply.next ≤ supply'.next) :
    form.Known closeness supply' := fun id field stored =>
  ⟨Nat.lt_of_lt_of_le (known id field stored).1 later, (known id field stored).2⟩

theorem Known.older (known : form.Known closeness supply) {id : NodeId}
    (stored : form.contains id) : id.number < supply.next := by
  obtain ⟨field, found⟩ := contains_iff.mp stored
  exact (known id field found).1

theorem Known.legible (known : form.Known closeness supply) : form.Legible closeness :=
  fun close id field stored => (known id field stored).2 close

/-- A form is known when all its ids were given out before and it is legible. -/
theorem known_iff : form.Known closeness supply ↔
    (∀ id : NodeId, form.contains id → id.number < supply.next) ∧ form.Legible closeness := by
  refine ⟨fun known => ⟨fun id => known.older, known.legible⟩, ?_⟩
  rintro ⟨older, legible⟩ id field stored
  exact ⟨older id (contains_of_get? stored), fun close => legible close id field stored⟩

theorem Alike.known (alike : form.Alike (Attributes.shown closeness) form')
    (known : form.Known closeness supply) : form'.Known closeness supply := by
  refine known_iff.mpr ⟨fun id stored => ?_, alike.legible known.legible⟩
  rw [← alike.contains_eq] at stored
  exact known.older stored

/-- A form all of whose bags are those of a known form is known. -/
theorem Known.of_bags (known : form.Known closeness supply)
    (bags : ∀ (id : NodeId) (field' : Field), form'.get? id = some field' →
      ∃ field, form.get? id = some field ∧ field.attributes = field'.attributes) :
    form'.Known closeness supply := by
  intro id field' stored
  obtain ⟨field, found, same⟩ := bags id field' stored
  rw [← same]
  exact known id field found

theorem Known.attached {parent : NodeId} {index : Nat} {branch : Branch}
    (known : form.Known closeness supply) (branchKnown : branch.toForm.Known closeness supply) :
    (form.attached parent index branch).Known closeness supply := by
  intro id field' stored
  cases inside : branch.toForm.get? id with
  | some field =>
    obtain ⟨number, bags⟩ := branchKnown id field inside
    refine ⟨number, ?_⟩
    rw [get?_attached, inside] at stored
    split at stored
    · obtain ⟨grown, found, rfl⟩ := Option.map_eq_some_iff.mp stored
      cases found
      dsimp only
      split <;> exact bags
    · cases stored
      split <;> exact bags
  | none =>
    rw [get?_attached_of_not_branch (not_contains_iff.mpr inside)] at stored
    split at stored
    · obtain ⟨field, found, rfl⟩ := Option.map_eq_some_iff.mp stored
      exact known id field found
    · exact known id field' stored

theorem Known.restored {removals : List Removal} (known : form.Known closeness supply)
    (branches : ∀ removal ∈ removals, removal.branch.toForm.Known closeness supply) :
    (form.restored removals).Known closeness supply := by
  induction removals with
  | nil => exact known
  | cons removal removals ih =>
    obtain ⟨first, rest⟩ := List.forall_mem_cons.mp branches
    exact (ih rest).attached first

theorem Known.without {id : NodeId} {place : Position} (wellFormed : form.WellFormed)
    (known : form.Known closeness supply) : (form.without id place).Known closeness supply := by
  refine known.of_bags ?_
  intro key field' stored
  by_cases under : form.Under id key
  · rw [wellFormed.get?_without_of_under under] at stored
    cases stored
  · rw [wellFormed.get?_without_of_not_under under, get?_unlisted] at stored
    split at stored
    · obtain ⟨field, found, rfl⟩ := Option.map_eq_some_iff.mp stored
      exact ⟨field, found, rfl⟩
    · exact ⟨field', stored, rfl⟩

theorem Known.detachAll {ids : List NodeId} {removals : List Removal}
    (wellFormed : form.WellFormed) (removable : form.Removable ids)
    (known : form.Known closeness supply) (done : detachAll ids form = .ok removals form') :
    form'.Known closeness supply := by
  induction ids generalizing form removals with
  | nil =>
    cases done
    exact known
  | cons id ids ih =>
    obtain ⟨place, stands⟩ := removable.exists_standsAt wellFormed
    have shrunk := wellFormed.wellFormed_without stands
    have rest : (form.without id place).Removable ids := removable.without wellFormed
    obtain ⟨later, last, further, -⟩ := shrunk.exists_detachAll rest
    cases done.symm.trans (detachAll_cons (wellFormed.detach_of_standsAt stands) further)
    exact ih shrunk rest (known.without wellFormed) further

end Form

/-- A replay brings nothing unknown into the form. -/
theorem Command.Effect.known {closeness : Closeness} {supply : Supply} {form after : Form}
    {held kept : List Branch} {ids : List NodeId}
    (effect : Command.Effect form held ids kept after) (wellFormed : form.WellFormed)
    (known : form.Known closeness supply)
    (branches : ∀ branch ∈ held, branch.toForm.Known closeness supply) :
    after.Known closeness supply := by
  cases effect with
  | restored _ named =>
    exact known.restored fun removal listed =>
      branches removal.branch (named ▸ List.mem_map_of_mem listed)
  | taken removable done => exact known.detachAll wellFormed removable done
  | relisted =>
    refine known.of_bags ?_
    intro id field' stored
    rw [Form.get?_relisted] at stored
    split at stored
    · obtain ⟨field, found, rfl⟩ := Option.map_eq_some_iff.mp stored
      exact ⟨field, found, rfl⟩
    · exact ⟨field', stored, rfl⟩
  | transferred =>
    refine known.of_bags ?_
    intro id field' stored
    rw [Form.get?_transferred] at stored
    obtain ⟨field, found, rfl⟩ := Option.map_eq_some_iff.mp stored
    exact ⟨field, found, rfl⟩
  | rewritten =>
    refine Form.known_iff.mpr ⟨fun id stored => ?_, known.legible.rewritten⟩
    rw [Form.rewritten_links.contains_eq] at stored
    exact known.older stored

end FormEditor
