import FormEditor.Editor.Operations
import FormEditor.Proofs.Atomicity
import FormEditor.Proofs.Effects
import FormEditor.Proofs.Selections

/-!
# What an edit does to the editor

An editor is sound when its form is well-formed, its selection fits the form, and nothing in the
form is unknown (`Editor.Sound`).  An edit of a sound editor leaves it as it is, or it carries a
command out, records it, and has the selection follow (`Editor.Recorded`).  The one operation that
can fail, the import of fields that are not there, leaves the editor as it is.

The command is carried out on a form that differs from that of the editor by highlights at most:
a deletion first takes the highlights away.

An edit that adds fields has put fresh branches at a place, selected them and recorded them as an
insertion (`Editor.Inserted`).

Main statements: one lemma for each edit, `addField_edits` to `setAttribute_cases`, and
`Recorded.sound`.
-/

set_option autoImplicit false

namespace FormEditor

/-- A bag is legible as far as values count. -/
def Attributes.Fair (closeness : Closeness) (bag : Attributes) : Prop :=
  closeness = .values → bag.Distinct

namespace Sprouted

variable {closeness : Closeness} {kept : Attributes → Prop} {start stop : Nat}
  {branches : List Branch} {branch : Branch}

/-- No field of a fresh branch is highlighted. -/
theorem calm (sprouted : Sprouted kept start stop branches) (listed : branch ∈ branches) :
    branch.Calm := by
  intro id lit
  obtain ⟨low, high, -, -, fresh⟩ := sprouted.exists_fresh listed
  obtain ⟨field, found⟩ := Form.contains_iff.mp (Form.contains_of_isHighlighted lit)
  unfold Form.isHighlighted at lit
  rw [found] at lit
  exact Bool.false_ne_true ((fresh.bags found).2.symm.trans lit)

/-- The fields of a fresh branch have ids that were given out before its end. -/
theorem known {supply : Supply}
    (sprouted : Sprouted (Attributes.Fair closeness) start supply.next branches)
    (listed : branch ∈ branches) : branch.toForm.Known closeness supply := by
  intro id field found
  obtain ⟨low, high, -, below, fresh⟩ := sprouted.exists_fresh listed
  exact ⟨Nat.lt_of_lt_of_le (fresh.range (Form.contains_of_get? found)).2 below,
    (fresh.bags found).1⟩

end Sprouted

/-- What has to be told when a command has been carried out or replayed. -/
def Command.notices (command : Command) : List Notice :=
  if command.needsRedisplay then [.treeUpdated, .selectionChanged] else [.selectionChanged]

/-- Whoever displays the form is told at least that the selection may have changed. -/
theorem Command.mem_notices (command : Command) : Notice.selectionChanged ∈ command.notices := by
  unfold notices
  split <;> simp

/-- After a replay that holds no highlight, whatever is highlighted is selected still. -/
theorem Selection.Marks.covers_after {selection : Selection} {form after : Form}
    {held kept : List Branch} {ids : List NodeId} (marks : selection.Marks form)
    (effect : Command.Effect form held ids kept after) (wellFormed : form.WellFormed)
    (calm : ∀ branch ∈ held, branch.Calm) : selection.Covers after := by
  intro id
  have same : selection.highlighted after = selection.highlighted form := by
    unfold Selection.highlighted
    rw [effect.root_eq wellFormed]
  rw [effect.isHighlighted_iff wellFormed calm, marks id, same]

namespace Editor

open Form

variable {closeness : Closeness} {editor before after : Editor} {form : Form} {command : Command}
  {ids : List NodeId} {branches : List Branch} {place : Position}

/-- The form is well-formed, the selection fits it, and nothing in it is unknown. -/
structure Sound (closeness : Closeness) (editor : Editor) : Prop where
  wellFormed : editor.form.WellFormed
  fits : editor.selection.Fits editor.form
  known : editor.form.Known closeness editor.supply

/-- A command was carried out and recorded, and the selection follows it.  The fields that the
command names, if they were in the form before, are a block of it. -/
structure Recorded (closeness : Closeness) (before after : Editor) : Prop where
  carried : ∃ (base form' : Form) (command command' : Command),
    base.Alike (fun bag => bag) before.form ∧ Command.Appliable closeness base command ∧
      Command.apply (command, base) = .ok () (command', form') ∧
        after.form.Alike (fun bag => bag) form' ∧
          after.history = before.history.post command' ∧
            (before.selection.Marks before.form → command'.Calm) ∧
              command'.NamesBlock before.form
  fits : after.selection.Fits after.form
  known : after.form.Known closeness after.supply
  marks : before.selection.Marks before.form → after.selection.Marks after.form
  settings : after.settings = before.settings
  later : before.supply.next ≤ after.supply.next
  told : ∃ gained, after.notices = before.notices ++ gained ∧ Notice.selectionChanged ∈ gained

/-- A recorded edit leaves a sound editor. -/
theorem Recorded.sound (recorded : Recorded closeness before after)
    (sound : before.Sound closeness) : after.Sound closeness := by
  obtain ⟨base, form', command, command', same, appliable, done, alike, -⟩ := recorded.carried
  obtain ⟨command₁, form₁, done₁, wellFormed, -⟩ :=
    appliable.apply (same.symm.wellFormed sound.wellFormed)
  cases done.symm.trans done₁
  exact ⟨alike.symm.wellFormed wellFormed, recorded.fits, recorded.known⟩

/-- An operation succeeds, and either changes nothing or carries a command out and records it. -/
def Edits {α : Type} (closeness : Closeness) (operation : Editing α) (editor : Editor) : Prop :=
  ∃ result after, operation editor = .ok result after ∧
    (after = editor ∨ Recorded closeness editor after)

/-! ## The parts of an operation -/

section Parts

variable {α : Type} {result : α} {supply : Supply} {selection : Selection} {fault : Fault}

theorem onForm_of_ok {edit : Edit α} (done : edit editor.form = .ok result form) :
    onForm edit editor = .ok result { editor with form } := by
  simp only [onForm, done]

/-- An edit of the form that is refused and leaves the form alone leaves the editor alone. -/
theorem onForm_of_error {edit : Edit α} (refused : edit editor.form = .error fault editor.form) :
    onForm edit editor = .error (.fault fault) editor := by
  simp only [onForm, refused]

theorem creating_of_ok {edit : Supply → Edit (α × Supply)}
    (done : edit editor.supply editor.form = .ok (result, supply) form) :
    creating edit editor = .ok result { editor with form, supply } := by
  unfold creating
  rw [Step.get_bind, Step.bind_of_ok (onForm_of_ok done)]
  rfl

theorem creating_of_error {edit : Supply → Edit (α × Supply)}
    (refused : edit editor.supply editor.form = .error fault editor.form) :
    creating edit editor = .error (.fault fault) editor := by
  unfold creating
  rw [Step.get_bind, Step.bind_of_error (onForm_of_error refused)]

theorem selecting_of_ok {change : Selecting Unit}
    (done : change (editor.selection, editor.form) = .ok ⟨⟩ (selection, form)) :
    selecting change editor = .ok ⟨⟩ { editor with form, selection } := by
  simp only [selecting, done]

/-- A change of the selection that is refused and leaves all as it was leaves the editor alone. -/
theorem selecting_of_error {change : Selecting Unit}
    (refused : change (editor.selection, editor.form) =
      .error fault (editor.selection, editor.form)) :
    selecting change editor = .error (.fault fault) editor := by
  simp only [selecting, refused]

/-- Whoever displays the form is told what the command calls for. -/
theorem tell_eq (command : Command) :
    (do
      if command.needsRedisplay then notify .treeUpdated
      notify .selectionChanged : Editing Unit) editor =
      .ok ⟨⟩ { editor with notices := editor.notices ++ command.notices } := by
  unfold Command.notices
  cases command.needsRedisplay with
  | true =>
    show EStateM.Result.ok _ _ = _
    dsimp only
    rw [List.append_assoc]
    rfl
  | false => rfl

/-- Recording posts the command and tells about it. -/
theorem record_eq (editor : Editor) (command : Command) :
    record command editor =
      .ok ⟨⟩ { editor with
        history := editor.history.post command
        edited := true
        notices := editor.notices ++ command.notices } := by
  unfold record
  rw [Step.modify_bind]
  exact tell_eq command

/-- What was carried out on the form, with a selection that fits, is recorded. -/
theorem record_of_applied {base form' : Form} {command' : Command}
    (sound : editor.Sound closeness) (same : base.Alike (fun bag => bag) editor.form)
    (appliable : Command.Appliable closeness base command)
    (done : Command.apply (command, base) = .ok () (command', form'))
    (later : editor.supply.next ≤ supply.next)
    (branches : ∀ branch ∈ command.branches, branch.toForm.Known closeness supply)
    (alike : form.Alike (fun bag => bag) form') (fits : selection.Fits form)
    (marks : editor.selection.Marks editor.form → selection.Marks form ∧ command'.Calm)
    (names : command'.NamesBlock editor.form) :
    ∃ after, record command' { editor with form, selection, supply } = .ok ⟨⟩ after ∧
      Recorded closeness editor after := by
  have wellFormed := same.symm.wellFormed sound.wellFormed
  have known : base.Known closeness supply := same.of_full.symm.known (sound.known.mono later)
  have known' := (appliable.effect wellFormed done).known wellFormed known branches
  exact ⟨_, record_eq { editor with form, selection, supply } command',
    { carried := ⟨base, form', command, command', same, appliable, done, alike, rfl,
        fun marked => (marks marked).2, names⟩
      fits
      known := alike.of_full.symm.known known'
      marks := fun marked => (marks marked).1
      settings := rfl
      later
      told := ⟨command'.notices, rfl, command'.mem_notices⟩ }⟩

end Parts

/-! ## Adding fields -/

section Adding

variable {supply : Supply} {selection : Selection} {bag : Attributes}

theorem insertNew_of_attachable
    (able : form.Attachable place (Branch.single (Field.fresh supply.id bag))) :
    insertNew place.parent place.index (Field.fresh supply.id bag) form =
      .ok supply.id
        (form.attached place.parent place.index (Branch.single (Field.fresh supply.id bag))) := by
  have fresh : (Branch.single (Field.fresh supply.id bag)).Fresh (fun _ => True) supply.next
    (supply.next + 1) := Branch.fresh_single trivial
  have outside : ¬ form.contains supply.id := able.apart fresh.whole.root_stored
  have new : form.isNew (Field.fresh supply.id bag) = true := by
    simp [isNew, Field.fresh, outside]
  have asked : Edit.ask (fun form => if form.isNew (Field.fresh supply.id bag) then .ok () else
      .error (.alreadyAttached (Field.fresh supply.id bag).id)) form = .ok () form :=
    Edit.ask_of_ok (if_pos new)
  unfold insertNew
  rw [Step.bind_of_ok asked, Step.bind_of_ok (attach_of_attachable able)]
  rfl

theorem creating_new
    (able : editor.form.Attachable place (Branch.single (Field.fresh editor.supply.id bag))) :
    creating (fun supply => do
        let id ← Form.insertNew place.parent place.index (Field.fresh editor.supply.id bag)
        return (id, supply.after 1)) editor =
      .ok editor.supply.id
        { editor with
          form := editor.form.restored
            (removalsAt place [Branch.single (Field.fresh editor.supply.id bag)])
          supply := editor.supply.after 1 } := by
  refine creating_of_ok ?_
  rw [Step.bind_of_ok (insertNew_of_attachable able)]
  rfl

/-- New fields go to a place that is there. -/
theorem Sound.insertionPoint (sound : editor.Sound closeness) :
    editor.form.contains editor.insertionPoint.parent ∧
      editor.insertionPoint.index ≤ (editor.form.children editor.insertionPoint.parent).length := by
  have atEnd : editor.form.contains editor.form.root ∧
      (editor.form.children editor.form.root).length ≤
        (editor.form.children editor.form.root).length :=
    ⟨sound.wellFormed.root_stored, Nat.le_refl _⟩
  unfold Editor.insertionPoint
  cases editor.selection.fields.getLast? with
  | none => exact atEnd
  | some last =>
    cases above : editor.form.parent? last with
    | none =>
      simp only [Option.bind_some, above, Option.bind_none, Option.getD_none]
      exact atEnd
    | some parent =>
      obtain ⟨index, found, here⟩ := sound.wellFormed.exists_siblingIndex? above
      simp only [Option.bind_some, above, found, Option.map_some, Option.getD_some]
      exact ⟨contains_of_mem_children (List.mem_of_getElem? here),
        (List.getElem?_eq_some_iff.mp here).1⟩

/-- Fresh branches have been attached at a place and selected, and are recorded as an insertion. -/
structure Inserted (closeness : Closeness) (before : Editor) (kind : InsertKind) (place : Position)
    (branches : List Branch) (after : Editor) : Prop where
  recorded : Recorded closeness before after
  filled : branches ≠ []
  restorable : before.form.Restorable (removalsAt place branches)
  alike : after.form.Alike (fun bag => bag) (before.form.restored (removalsAt place branches))
  selected : after.selection = ⟨branches.map Branch.root, false⟩
  posted : after.history =
    before.history.post (.insert kind ⟨place, branches.map Branch.root⟩ [])

/-- Fresh branches that have been attached and selected are recorded as an insertion. -/
theorem record_insert (kind : InsertKind) (sound : editor.Sound closeness)
    (sprouted : Sprouted (Attributes.Fair closeness) editor.supply.next supply.next branches)
    (filled : branches ≠ []) (stored : editor.form.contains place.parent)
    (room : place.index ≤ (editor.form.children place.parent).length)
    (alike : form.Alike (fun bag => bag) (editor.form.restored (removalsAt place branches)))
    (fits : (Selection.mk (branches.map Branch.root) false).Fits form)
    (marks : editor.selection.Covers (editor.form.restored (removalsAt place branches)) →
      (Selection.mk (branches.map Branch.root) false).Marks form) :
    ∃ after, record (.insert kind ⟨place, branches.map Branch.root⟩ [])
        { editor with form, selection := ⟨branches.map Branch.root, false⟩, supply } =
          .ok ⟨⟩ after ∧
      Inserted closeness editor kind place branches after := by
  have restorable := sprouted.restorable (fun inside => sound.known.older inside) stored room
  have appliable : Command.Appliable closeness editor.form
      (.insert kind ⟨place, branches.map Branch.root⟩ branches) := .insert filled rfl restorable
  have done : Command.apply (.insert kind ⟨place, branches.map Branch.root⟩ branches, editor.form) =
      .ok () (.insert kind ⟨place, branches.map Branch.root⟩ [], _) :=
    Command.apply_insert (List.length_map _).symm stored (attachAll_of_restorable restorable)
  have effect := appliable.effect sound.wellFormed done
  obtain ⟨after, posted, recorded⟩ := record_of_applied sound (Alike.refl _) appliable done
    sprouted.ordered (fun branch listed => sprouted.known listed) alike fits
    (fun marked => ⟨marks (marked.covers_after effect sound.wellFormed fun branch listed =>
      sprouted.calm listed), fun branch listed => absurd listed List.not_mem_nil⟩)
    (Command.namesBlock_of_none rfl)
  refine ⟨after, posted, ?_⟩
  cases (record_eq _ _).symm.trans posted
  exact ⟨recorded, filled, restorable, alike, rfl, rfl⟩

/-- Adding a field succeeds and is recorded. -/
theorem addField_inserted (sound : editor.Sound closeness) :
    ∃ after, addField editor = .ok editor.supply.id after ∧
      Inserted closeness editor .add editor.insertionPoint
        [Branch.single (Field.fresh editor.supply.id editor.settings.newField.attributes)]
        after := by
  obtain ⟨stored, room⟩ := sound.insertionPoint
  have fresh : (Branch.single (Field.fresh editor.supply.id
      editor.settings.newField.attributes)).Fresh (Attributes.Fair closeness) editor.supply.next
        (editor.supply.after 1).next :=
    Branch.fresh_single fun _ => Attributes.distinct_ofList
  have sprouted := Sprouted.cons fresh .nil
  have restorable := sprouted.restorable (fun inside => sound.known.older inside) stored room
  have grown := restorable.wellFormed_restored sound.wellFormed
  have above : (editor.form.restored (removalsAt editor.insertionPoint _)).parent?
      editor.supply.id = some editor.insertionPoint.parent :=
    restorable.parent?_restored List.mem_cons_self
  obtain ⟨selection, form, selected, alike, fits, marks⟩ :=
    editor.selection.select_clearing grown (contains_of_parent? above)
  cases selected.symm.trans (editor.selection.select_alone grown above)
  obtain ⟨after, recorded, inserted⟩ :=
    record_insert .add sound sprouted (List.cons_ne_nil _ _) stored room alike fits marks
  refine ⟨after, ?_, inserted⟩
  unfold addField
  rw [Step.get_bind, Step.bind_of_ok (creating_new restorable.shift.1),
    Step.bind_of_ok (selecting_of_ok selected)]
  exact Step.bind_of_ok recorded

theorem addField_edits (sound : editor.Sound closeness) : Edits closeness addField editor := by
  obtain ⟨after, done, inserted⟩ := addField_inserted sound
  exact ⟨editor.supply.id, after, done, .inr inserted.recorded⟩

/-- Copies that are there side by side can be selected and are recorded. -/
theorem record_copies (kind : InsertKind) (place : Position) (sound : editor.Sound closeness)
    (sprouted : Sprouted (Attributes.Fair closeness) editor.supply.next supply.next branches)
    (filled : branches ≠ []) (stored : editor.form.contains place.parent)
    (room : place.index ≤ (editor.form.children place.parent).length) :
    ∃ middle after,
      selecting (.selectRun (branches.map Branch.root))
        { editor with form := editor.form.restored (removalsAt place branches), supply } =
          .ok ⟨⟩ middle ∧
        record (.insert kind ⟨place, branches.map Branch.root⟩ []) middle = .ok ⟨⟩ after ∧
          Inserted closeness editor kind place branches after := by
  have restorable := sprouted.restorable (fun inside => sound.known.older inside) stored room
  have grown := restorable.wellFormed_restored sound.wellFormed
  have named : branches.map Branch.root ≠ [] := by
    simpa using filled
  have block := restorable.block_restored room
  have selected := editor.selection.selectRun_of_block grown named block
  obtain ⟨alike, fits, marks⟩ := editor.selection.fits_of_block grown block
  obtain ⟨after, recorded, inserted⟩ :=
    record_insert kind sound sprouted filled stored room alike fits marks
  exact ⟨_, after, selecting_of_ok selected, recorded, inserted⟩

/-- Copies of a block go right after it. -/
theorem duplicate_of_block {parent : NodeId} {start : Nat} (sound : editor.Sound closeness)
    (block : editor.form.Block parent start ids) (filled : ids ≠ []) (keepLocks : Bool) :
    ∃ copies supply, FieldMap.copyAll editor.form.fields ids editor.supply = .ok (copies, supply) ∧
      Sprouted (Attributes.Fair closeness) editor.supply.next supply.next
        (copies.map (Branch.strip · (strippedNames keepLocks))) ∧
      copies ≠ [] ∧
        Form.duplicate ids keepLocks editor.supply editor.form =
          .ok (⟨⟨parent, start + ids.length⟩,
              (copies.map (Branch.strip · (strippedNames keepLocks))).map Branch.root⟩, supply)
            (editor.form.restored (removalsAt ⟨parent, start + ids.length⟩
              (copies.map (Branch.strip · (strippedNames keepLocks))))) := by
  have stored : ∀ id ∈ ids, (editor.form.fields[id]?).isSome := fun id listed =>
    block.contains sound.wellFormed.toLinksFit listed
  obtain ⟨copies, supply, copied⟩ :
      ∃ copies supply,
        FieldMap.copyAll editor.form.fields ids editor.supply = .ok (copies, supply) :=
    FieldMap.exists_copyAll stored
  have fair : ∀ (id : NodeId) (field : Field), editor.form.fields[id]? = some field →
      field.attributes.Fair closeness := fun id field found => (sound.known id field found).2
  obtain ⟨sprouted, length⟩ := FieldMap.sprouted_copyAll fair copied
  have stripped : Sprouted (Attributes.Fair closeness) editor.supply.next supply.next
      (copies.map (Branch.strip · (strippedNames keepLocks))) :=
    sprouted.map fun fresh => fresh.strip fun bag fair close => (fair close).removeAll
  have restorable : editor.form.Restorable (removalsAt ⟨parent, start + ids.length⟩ _) :=
    stripped.restorable (fun inside => sound.known.older inside)
      (block.contains_parent filled) block.stop_le
  refine ⟨copies, supply, copied, stripped, ?_, ?_⟩
  · rw [ne_eq, ← List.length_eq_zero_iff, length, List.length_eq_zero_iff]
    exact filled
  · unfold Form.duplicate
    rw [Step.bind_of_ok (Edit.ask_of_ok (sound.wellFormed.run_of_block block filled)),
      Step.bind_of_ok (Edit.ask_of_ok copied), List.map_map]
    exact Step.bind_of_ok (attachAll_of_restorable restorable)

/-- Duplicating the selected fields, if there are any, succeeds and is recorded. -/
theorem duplicateFields_inserted {parent : NodeId} {start : Nat} (sound : editor.Sound closeness)
    (block : editor.form.Block parent start editor.selection.fields)
    (filled : editor.selection.fields ≠ []) :
    ∃ copies supply after,
      FieldMap.copyAll editor.form.fields editor.selection.fields editor.supply =
        .ok (copies, supply) ∧
      duplicateFields editor = .ok ⟨⟩ after ∧
      Inserted closeness editor .duplicate ⟨parent, start + editor.selection.fields.length⟩
        (copies.map (Branch.strip · (strippedNames editor.settings.duplicateLocks))) after := by
  obtain ⟨copies, supply, copied, sprouted, nonempty, duplicated⟩ :=
    duplicate_of_block sound block filled editor.settings.duplicateLocks
  obtain ⟨middle, after, selected, recorded, inserted⟩ :=
    record_copies .duplicate ⟨parent, start + editor.selection.fields.length⟩ sound sprouted
      (by simpa using nonempty) (block.contains_parent filled) block.stop_le
  refine ⟨copies, supply, after, copied, ?_, inserted⟩
  have some : ¬ editor.selection.fields.isEmpty := fun none => filled (List.isEmpty_iff.mp none)
  unfold duplicateFields
  rw [Step.get_bind, if_neg some, Step.bind_of_ok (creating_of_ok duplicated),
    Step.bind_of_ok selected]
  exact recorded

/-- Duplicating the selected fields succeeds. -/
theorem duplicateFields_edits (sound : editor.Sound closeness) :
    Edits closeness duplicateFields editor := by
  by_cases filled : editor.selection.fields = []
  · refine ⟨⟨⟩, editor, ?_, .inl rfl⟩
    unfold duplicateFields
    rw [Step.get_bind, if_pos (List.isEmpty_iff.mpr filled)]
    rfl
  · obtain ⟨-, parent, start, block⟩ := sound.fits.resolve_left filled
    obtain ⟨_, _, after, -, done, inserted⟩ := duplicateFields_inserted sound block filled
    exact ⟨⟨⟩, after, done, .inr inserted.recorded⟩

/-- Fields from elsewhere are imported, or one of them is not there and nothing changes. -/
theorem importFields_inserted (sound : editor.Sound closeness) {source : FieldMap}
    (legible : ∀ (id : NodeId) (field : Field), source[id]? = some field →
      field.attributes.Fair closeness) {ids : List NodeId} (filled : ids ≠ []) :
    (¬ ∀ id ∈ ids, (source[id]?).isSome) ∧
        (∃ error, importFields source ids editor = .error error editor) ∨
      (∀ id ∈ ids, (source[id]?).isSome) ∧ ∃ copies supply after,
        FieldMap.copyAll source ids editor.supply = .ok (copies, supply) ∧
        importFields source ids editor = .ok (copies.map Branch.root) after ∧
        Inserted closeness editor .importing editor.insertionPoint copies after := by
  have some : ¬ ids.isEmpty := fun none => filled (List.isEmpty_iff.mp none)
  obtain ⟨stored, room⟩ := sound.insertionPoint
  have checked : Edit.ask (fun form => form.checkIndex editor.insertionPoint) editor.form =
      .ok () editor.form := Edit.ask_of_ok (checkIndex_eq_ok stored room)
  unfold importFields
  rw [if_neg some, Step.get_bind]
  cases copied : FieldMap.copyAll source ids editor.supply with
  | error fault =>
    refine .inl ⟨fun all => ?_, .fault fault, ?_⟩
    · obtain ⟨copies, rest, copied'⟩ :
          ∃ copies rest, FieldMap.copyAll source ids editor.supply = .ok (copies, rest) :=
        FieldMap.exists_copyAll all
      cases copied.symm.trans copied'
    have refused : Form.importFields source ids editor.insertionPoint editor.supply editor.form =
        .error fault editor.form := by
      unfold Form.importFields
      rw [Step.bind_of_ok checked]
      exact Step.bind_of_error (Edit.ask_of_error copied)
    exact Step.bind_of_error (creating_of_error refused)
  | ok made =>
    obtain ⟨copies, supply⟩ := made
    obtain ⟨sprouted, length⟩ := FieldMap.sprouted_copyAll legible copied
    have nonempty : copies ≠ [] := by
      rw [ne_eq, ← List.length_eq_zero_iff, length, List.length_eq_zero_iff]
      exact filled
    have restorable := sprouted.restorable (fun inside => sound.known.older inside) stored room
    have imported : Form.importFields source ids editor.insertionPoint editor.supply editor.form =
        .ok (⟨editor.insertionPoint, copies.map Branch.root⟩, supply)
          (editor.form.restored (removalsAt editor.insertionPoint copies)) := by
      unfold Form.importFields
      rw [Step.bind_of_ok checked, Step.bind_of_ok (Edit.ask_of_ok copied)]
      exact Step.bind_of_ok (attachAll_of_restorable restorable)
    obtain ⟨middle, after, selected, recorded, inserted⟩ :=
      record_copies .importing editor.insertionPoint sound sprouted nonempty stored room
    refine .inr ⟨stored_of_copyAll copied, copies, supply, after, rfl, ?_, inserted⟩
    rw [Step.bind_of_ok (creating_of_ok imported), Step.bind_of_ok selected]
    exact Step.bind_of_ok recorded

theorem importFields_cases (sound : editor.Sound closeness) {source : FieldMap}
    (legible : ∀ (id : NodeId) (field : Field), source[id]? = some field →
      field.attributes.Fair closeness) (ids : List NodeId) :
    (¬ ∀ id ∈ ids, (source[id]?).isSome) ∧
        (∃ error, importFields source ids editor = .error error editor) ∨
      (∀ id ∈ ids, (source[id]?).isSome) ∧ Edits closeness (importFields source ids) editor := by
  by_cases filled : ids = []
  · rw [filled]
    exact .inr ⟨nofun, [], editor, rfl, .inl rfl⟩
  · refine (importFields_inserted sound legible filled).imp_right ?_
    rintro ⟨all, copies, supply, after, -, done, inserted⟩
    exact ⟨all, _, after, done, .inr inserted.recorded⟩

end Adding

/-! ## Removing fields -/

/-- Removing the selected fields succeeds. -/
theorem deleteFields_edits (sound : editor.Sound closeness) :
    Edits closeness deleteFields editor := by
  unfold Edits deleteFields
  rw [Step.get_bind]
  split
  · exact ⟨⟨⟩, editor, rfl, .inl rfl⟩
  · rename_i some
    have filled : editor.selection.fields ≠ [] := fun none => some (List.isEmpty_iff.mpr none)
    obtain ⟨-, parent, start, block⟩ := sound.fits.resolve_left filled
    have checked : onForm (Edit.ask fun form => form.run editor.selection.fields) editor =
        .ok ⟨parent, start, editor.selection.fields⟩ editor :=
      onForm_of_ok (Edit.ask_of_ok (sound.wellFormed.run_of_block block filled))
    have same : (editor.selection.unmark editor.form).Alike (fun bag => bag) editor.form :=
      Selection.unmark_alike
    have wellFormed := same.symm.wellFormed sound.wellFormed
    have removable := same.symm.removable (block.removable sound.wellFormed)
    obtain ⟨removals, form', further, taken⟩ := wellFormed.exists_detachAll removable
    have deleted := (removable.deleteFields_eq wellFormed).trans further
    have done : Command.apply (.delete editor.selection.fields [], _) =
        .ok () (.delete editor.selection.fields removals, form') := Command.apply_delete deleted
    have appliable : Command.Appliable closeness _ (.delete editor.selection.fields []) :=
      .delete removable
    have effect := appliable.effect wellFormed done
    obtain ⟨after, recorded, outcome⟩ := record_of_applied sound same appliable done
      (Nat.le_refl editor.supply.next) (fun _ listed => absurd listed List.not_mem_nil)
      (Alike.refl form') Selection.fits_empty (fun marked => ⟨Selection.marks_empty fun id lit =>
        marked.covers.unmark id ((effect.isHighlighted_iff wellFormed
          (fun _ listed => absurd listed List.not_mem_nil) id).mp lit).2,
        (effect.calm_iff wellFormed).mpr fun _ _ id _ => marked.covers.unmark id⟩)
      (Command.namesBlock_of_block rfl filled block)
    have named : Command.ofRemovals removals = .delete editor.selection.fields removals := by
      unfold Command.ofRemovals
      rw [taken.named]
    refine ⟨⟨⟩, after, ?_, .inr outcome⟩
    rw [Step.bind_of_ok (Step.discard_of_ok checked), Step.modify_bind,
      Step.bind_of_ok (onForm_of_ok deleted), named]
    exact recorded

/-! ## Moving fields -/

/-- An edit that neither holds nor takes out fields is recorded, and the selection stays. -/
theorem record_kept {form' : Form} {command' : Command} (sound : editor.Sound closeness)
    (appliable : Command.Appliable closeness editor.form command)
    (done : Command.apply (command, editor.form) = .ok () (command', form'))
    (held : command.branches = []) (left : command.takenOut .redo = [])
    (fits : editor.selection.Fits form') (names : command'.NamesBlock editor.form) :
    ∃ after, record command' { editor with form := form' } = .ok ⟨⟩ after ∧
      Recorded closeness editor after := by
  have effect := appliable.effect sound.wellFormed done
  rw [held, left] at effect
  refine record_of_applied sound (Alike.refl _) appliable done (Nat.le_refl editor.supply.next)
    (by simp [held]) (Alike.refl form') fits (fun marked => ⟨?_, ?_⟩) names
  · obtain ⟨command₁, form₁, done₁, wellFormed, -⟩ := appliable.apply sound.wellFormed
    cases done.symm.trans done₁
    exact (marked.covers_after effect sound.wellFormed (by simp)).marks fits wellFormed
  · exact (effect.calm_iff sound.wellFormed).mpr (by simp)

/-- Moving the selected fields among their siblings succeeds. -/
theorem moveFields_edits (sound : editor.Sound closeness) (direction : Direction) :
    Edits closeness (moveFields direction) editor := by
  unfold Edits moveFields
  rw [Step.get_bind]
  split
  · exact ⟨⟨⟩, editor, rfl, .inl rfl⟩
  · rename_i some
    have filled : editor.selection.fields ≠ [] := fun none => some (List.isEmpty_iff.mpr none)
    obtain ⟨noRoot, parent, start, block⟩ := sound.fits.resolve_left filled
    cases direction with
    | up =>
      rcases moveUp_cases sound.wellFormed filled block with
        edge | ⟨front, passed, back, children, moved⟩
      · exact ⟨⟨⟩, editor, Step.bind_of_ok (onForm_of_ok edge), .inl rfl⟩
      · obtain ⟨form', moved', -, children', -⟩ :=
          Command.moveUp_round sound.wellFormed filled children
        cases moved.symm.trans moved'
        obtain ⟨after, recorded, outcome⟩ := record_kept sound (.moveUp filled children)
          (Command.apply_move (Command.shift_of_applied moved)) rfl rfl
          (.inr ⟨noRoot, parent, front.length, front, passed :: back, by rw [children']; simp, rfl⟩)
          (Command.namesBlock_of_block rfl filled block)
        exact ⟨⟨⟩, after, (Step.bind_of_ok (onForm_of_ok moved)).trans recorded, .inr outcome⟩
    | down =>
      rcases moveDown_cases sound.wellFormed filled block with
        edge | ⟨front, passed, back, children, moved⟩
      · exact ⟨⟨⟩, editor, Step.bind_of_ok (onForm_of_ok edge), .inl rfl⟩
      · obtain ⟨form', moved', -, children', -⟩ :=
          Command.moveDown_round sound.wellFormed filled children
        cases moved.symm.trans moved'
        obtain ⟨after, recorded, outcome⟩ := record_kept sound (.moveDown filled children)
          (Command.apply_move (Command.shift_of_applied moved)) rfl rfl
          (.inr ⟨noRoot, parent, (front ++ [passed]).length, front ++ [passed], back,
            by rw [children']; simp, rfl⟩)
          (Command.namesBlock_of_block rfl filled block)
        exact ⟨⟨⟩, after, (Step.bind_of_ok (onForm_of_ok moved)).trans recorded, .inr outcome⟩

/-- A transfer of the selected fields is recorded, and they stay selected. -/
theorem record_transfer (way : Relocation) {make : Relocation → Command}
    {front back left right : List NodeId} (sound : editor.Sound closeness)
    (noRoot : editor.selection.rootSelected = false) (whole : way.ids = editor.selection.fields)
    (transfer : editor.form.Transfer way.ids way.source.parent front back way.target.parent left
      right)
    (start : front.length = way.source.index) (gap : left.length = way.target.index)
    (appliable : Command.Appliable closeness editor.form (make way))
    (replayed : Command.apply (make way, editor.form) =
      Command.keeping (Command.follow way.ids way.source way.target) (make way, editor.form))
    (held : (make way).branches = []) (taken : (make way).takenOut .redo = [])
    (names : (make way).NamesBlock editor.form) :
    ∃ after, record (make way)
        { editor with
          form := editor.form.transferred way.ids way.source.parent (front ++ back)
            way.target.parent (left ++ (way.ids ++ right)) } = .ok ⟨⟩ after ∧
      Recorded closeness editor after := by
  have done := Command.follow_of_transfer sound.wellFormed transfer start gap
  refine record_kept sound appliable (replayed.trans (Command.keeping_of_ok done)) held taken
    (.inr ⟨noRoot, way.target.parent, left.length, ?_⟩) names
  rw [← whole]
  exact (transfer.back_again sound.wellFormed).block

/-- Moving the selected fields out of their parent succeeds. -/
theorem promoteFields_edits (sound : editor.Sound closeness) :
    Edits closeness promoteFields editor := by
  unfold Edits promoteFields
  rw [Step.get_bind]
  split
  · exact ⟨⟨⟩, editor, rfl, .inl rfl⟩
  · rename_i some
    have filled : editor.selection.fields ≠ [] := fun none => some (List.isEmpty_iff.mpr none)
    obtain ⟨noRoot, source, start, block⟩ := sound.fits.resolve_left filled
    rcases sound.wellFormed.promote_cases filled block with
      edge | ⟨front, back, target, left, right, transfer, moved⟩
    · exact ⟨⟨⟩, editor, Step.bind_of_ok (onForm_of_ok edge), .inl rfl⟩
    · obtain ⟨after, recorded, outcome⟩ := record_transfer
        ⟨editor.selection.fields, ⟨source, front.length⟩, ⟨target, left.length⟩⟩ sound noRoot rfl
        transfer rfl rfl (.promote transfer rfl rfl) rfl rfl rfl
        (Command.namesBlock_of_block rfl filled block)
      exact ⟨⟨⟩, after, (Step.bind_of_ok (onForm_of_ok moved)).trans recorded, .inr outcome⟩

/-- Moving the selected fields below their preceding sibling succeeds. -/
theorem demoteFields_edits (sound : editor.Sound closeness) :
    Edits closeness demoteFields editor := by
  unfold Edits demoteFields
  rw [Step.get_bind]
  split
  · exact ⟨⟨⟩, editor, rfl, .inl rfl⟩
  · rename_i some
    have filled : editor.selection.fields ≠ [] := fun none => some (List.isEmpty_iff.mpr none)
    obtain ⟨noRoot, source, start, block⟩ := sound.fits.resolve_left filled
    rcases sound.wellFormed.demote_cases filled block with
      edge | ⟨front, back, target, left, right, transfer, moved⟩
    · exact ⟨⟨⟩, editor, Step.bind_of_ok (onForm_of_ok edge), .inl rfl⟩
    · obtain ⟨after, recorded, outcome⟩ := record_transfer
        ⟨editor.selection.fields, ⟨source, front.length⟩, ⟨target, left.length⟩⟩ sound noRoot rfl
        transfer rfl rfl (.demote transfer rfl rfl) rfl rfl rfl
        (Command.namesBlock_of_block rfl filled block)
      exact ⟨⟨⟩, after, (Step.bind_of_ok (onForm_of_ok moved)).trans recorded, .inr outcome⟩

/-! ## Editing values -/

/-- An edit of values succeeds. -/
theorem editValues_edits (sound : editor.Sound closeness) (kind : ValueKind)
    {edit : Edit (List Change)} (amends : editor.form.Amends closeness edit) :
    Edits closeness (editValues kind edit) editor := by
  obtain ⟨changes, done, traces⟩ := amends
  have edited := onForm_of_ok done
  unfold Edits editValues
  rw [Step.bind_of_ok edited]
  unfold recordChanges
  split
  · rename_i none
    rw [List.isEmpty_iff.mp none]
    exact ⟨⟨⟩, editor, rfl, .inl rfl⟩
  · have links : editor.form.Alike (Attributes.shown .links) (editor.form.rewritten changes) :=
      rewritten_links.symm
    obtain ⟨after, recorded, outcome⟩ := record_kept sound (.values traces)
      (Command.keeping_of_ok (Command.onForm_of_ok traces.applyChanges_eq)) rfl rfl
      (sound.fits.alike links) (Command.namesBlock_of_none rfl)
    exact ⟨⟨⟩, after, recorded, .inr outcome⟩

theorem loadDefaults_edits (sound : editor.Sound closeness) :
    Edits closeness loadDefaults editor := by
  refine editValues_edits sound .loadDefaults
    (amendSubtrees_amends sound.known.legible fun id listed => ?_)
  rw [List.mem_singleton.mp listed]
  exact sound.wellFormed.root_stored

theorem clearFields_edits (sound : editor.Sound closeness) :
    Edits closeness clearFields editor := by
  refine editValues_edits sound .clearFields
    (amendSubtrees_amends sound.known.legible fun id listed => ?_)
  rw [List.mem_singleton.mp listed]
  exact sound.wellFormed.root_stored

theorem Sound.highlighted_present (sound : editor.Sound closeness) :
    ∀ id ∈ editor.highlighted, editor.form.contains id :=
  fun _ listed => sound.fits.contains sound.wellFormed listed

theorem loadDefaultsHighlighted_edits (sound : editor.Sound closeness) :
    Edits closeness loadDefaultsHighlighted editor :=
  editValues_edits sound .loadDefaults
    (amendSubtrees_amends sound.known.legible sound.highlighted_present)

theorem clearFieldsHighlighted_edits (sound : editor.Sound closeness) :
    Edits closeness clearFieldsHighlighted editor :=
  editValues_edits sound .clearFields
    (amendSubtrees_amends sound.known.legible sound.highlighted_present)

theorem multiplyValues_edits (sound : editor.Sound closeness) (factor : Binary64) :
    Edits closeness (multiplyValues factor) editor :=
  editValues_edits sound .multiplyValues
    (ValueEdit.amends sound.known.legible (.multiplyValues _ factor) sound.highlighted_present)

theorem lockFields_edits (sound : editor.Sound closeness) (details : List (String × String))
    (now : Int) : Edits closeness (lockFields details now) editor :=
  editValues_edits sound .lockFields
    (amendFields_amends sound.known.legible sound.highlighted_present)

theorem unlockFields_edits (sound : editor.Sound closeness) :
    Edits closeness unlockFields editor :=
  editValues_edits sound .unlockFields
    (amendFields_amends sound.known.legible sound.highlighted_present)

theorem requireFields_edits (sound : editor.Sound closeness) :
    Edits closeness requireFields editor :=
  editValues_edits sound .requiredFields
    (amendFields_amends sound.known.legible sound.highlighted_present)

/-- Writing an attribute is recorded, or the field is not there and nothing changes. -/
theorem setAttribute_cases (sound : editor.Sound closeness) (id : NodeId) (name : String)
    (value : Option String) :
    (∃ error, setAttribute id name value true editor = .error error editor) ∨
      Edits closeness (setAttribute id name value true) editor := by
  by_cases stored : editor.form.contains id
  · have present : ∀ other ∈ [id], editor.form.contains other := fun other listed =>
      (List.mem_singleton.mp listed) ▸ stored
    have amends : editor.form.Amends closeness (Form.setAttribute id name value) :=
      amendFields_amends sound.known.legible present
    exact .inr (editValues_edits sound (.setAttribute name) amends)
  · exact .inl ⟨_, Step.bind_of_error (onForm_of_error (setAttribute_of_missing stored))⟩

/-! ## What is not recorded -/

/-- Nothing was recorded, and the form looks as it did. -/
structure Kept (closeness : Closeness) (before after : Editor) : Prop where
  alike : before.form.Alike (Attributes.shown closeness) after.form
  fits : after.selection.Fits after.form
  marks : before.selection.Marks before.form → after.selection.Marks after.form
  history : after.history = before.history
  settings : after.settings = before.settings
  supply : after.supply = before.supply

/-- Nobody was told that the selection may have changed. -/
def Quiet (before after : Editor) : Prop :=
  ∃ gained, after.notices = before.notices ++ gained ∧ Notice.selectionChanged ∉ gained

theorem Kept.refl (sound : editor.Sound closeness) : Kept closeness editor editor :=
  ⟨Alike.refl _, sound.fits, id, rfl, rfl, rfl⟩

theorem Quiet.refl : Quiet editor editor := ⟨[], (List.append_nil _).symm, List.not_mem_nil⟩

/-- What was not recorded leaves a sound editor. -/
theorem Kept.sound (kept : Kept closeness before after) (sound : before.Sound closeness) :
    after.Sound closeness :=
  ⟨kept.alike.wellFormed sound.wellFormed, kept.fits, kept.supply ▸ kept.alike.known sound.known⟩

/-- Changes of attributes leave the links of the form alone. -/
theorem kept_rewritten (sound : editor.Sound .links) (changes : List Change) (edited : Bool)
    (notices : List Notice) :
    Kept .links editor
      { editor with form := editor.form.rewritten changes, edited, notices } where
  alike := rewritten_links.symm
  fits := by
    have alike : editor.form.Alike (Attributes.shown .links) (editor.form.rewritten changes) :=
      rewritten_links.symm
    exact sound.fits.alike alike
  marks := fun marks id => by
    have alike : (editor.form.rewritten changes).Alike (Attributes.shown .links) editor.form :=
      rewritten_links
    have same : editor.selection.highlighted (editor.form.rewritten changes) =
        editor.selection.highlighted editor.form := by
      unfold Selection.highlighted
      rw [alike.1]
    rw [isHighlighted_rewritten, same]
    exact marks id
  history := rfl
  settings := rfl
  supply := rfl

/-- Writing an attribute off the record leaves the links of the form alone. -/
theorem setAttribute_unrecorded (sound : editor.Sound .links) (id : NodeId) (name : String)
    (value : Option String) :
    (∃ error, setAttribute id name value false editor = .error error editor) ∨
      ∃ after, setAttribute id name value false editor = .ok ⟨⟩ after ∧
        Kept .links editor after ∧ Quiet editor after := by
  by_cases stored : editor.form.contains id
  · have present : ∀ other ∈ [id], editor.form.contains other := fun other listed =>
      (List.mem_singleton.mp listed) ▸ stored
    have amends : editor.form.Amends .links (Form.setAttribute id name value) :=
      amendFields_amends sound.known.legible present
    obtain ⟨changes, done, -⟩ := amends
    unfold setAttribute
    rw [Step.bind_of_ok (onForm_of_ok done)]
    refine .inr ?_
    split
    · exact ⟨_, rfl, kept_rewritten sound changes editor.edited editor.notices,
        [], (List.append_nil _).symm, List.not_mem_nil⟩
    · rw [if_neg Bool.false_ne_true]
      split
      · exact ⟨_, rfl, kept_rewritten sound changes editor.edited _, [.treeUpdated], rfl, by simp⟩
      · exact ⟨_, rfl, kept_rewritten sound changes editor.edited editor.notices,
          [], (List.append_nil _).symm, List.not_mem_nil⟩
  · exact .inl ⟨_, Step.bind_of_error (onForm_of_error (setAttribute_of_missing stored))⟩

/-- Stamping a version succeeds and leaves the links of the form alone. -/
theorem setVersion_unrecorded (sound : editor.Sound .links) (version : String) :
    ∃ after, setVersion version editor = .ok ⟨⟩ after ∧ Kept .links editor after ∧
      Quiet editor after := by
  have present : ∀ other ∈ [editor.form.root], editor.form.contains other := fun other listed =>
    (List.mem_singleton.mp listed) ▸ sound.wellFormed.root_stored
  have amends : editor.form.Amends .links
      (Form.setAttribute editor.form.root AttributeName.version (some version)) :=
    amendFields_amends sound.known.legible present
  obtain ⟨changes, done, -⟩ := amends
  unfold setVersion
  rw [Step.get_bind, Step.bind_of_ok (Step.discard_of_ok (onForm_of_ok done))]
  exact ⟨_, rfl, kept_rewritten sound changes true editor.notices,
    [], (List.append_nil _).symm, List.not_mem_nil⟩

/-- Selecting a field succeeds, or it is refused and changes nothing. -/
theorem select_kept (sound : editor.Sound closeness) (id : NodeId) (clearOthers : Bool) :
    (∃ error, select id clearOthers editor = .error error editor) ∨
      ∃ after, select id clearOthers editor = .ok ⟨⟩ after ∧ Kept closeness editor after := by
  rcases Selection.select_cases sound.wellFormed sound.fits id clearOthers with
    ⟨fault, refused⟩ | ⟨selection, form, done, alike, fits, marks⟩
  · exact .inl ⟨.fault fault, Step.bind_of_error (selecting_of_error refused)⟩
  · exact .inr ⟨_, Step.bind_of_ok (selecting_of_ok done), alike.symm.of_full, fits, marks, rfl,
      rfl, rfl⟩

/-- Selecting nothing succeeds. -/
theorem clearSelection_kept (closeness : Closeness) (editor : Editor) :
    ∃ after, clearSelection editor = .ok ⟨⟩ after ∧ Kept closeness editor after := by
  have alike : (editor.selection.unmark editor.form).Alike (Attributes.shown closeness)
      editor.form := Selection.unmark_alike
  exact ⟨_, rfl, alike.symm, Selection.fits_empty,
    fun marks => Selection.marks_empty marks.covers.unmark, rfl, rfl, rfl⟩

end Editor

end FormEditor
