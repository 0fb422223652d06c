import FormEditor.Proofs.Editor.Timelines
import FormEditor.Proofs.Form.Mirrors

/-!
# Where new fields go

Fields are added, duplicated or imported at one place: right after the selected fields, or at the
end of the root's children if no field is selected.  They become one block there, which is what is
selected afterwards; and all else stays as it was (`Editor.Places`).  Three accounts have to agree
on that place: where the fields are attached, what is selected, and what the history records.  That
they do shows when the insertion is undone, which leaves the form as it was before.

Main statement: `placing_law`, after any run of the editor.
-/

set_option autoImplicit false

namespace FormEditor

/-- A command that has just been posted is the next one to undo, whatever the limit. -/
theorem History.exists_done_post {κ : Type} (history : History κ) (command : κ) :
    ∃ rest, (history.post command).standing .undo = command :: rest := by
  show ∃ rest, bounded history.limit (command :: history.done) = command :: rest
  unfold bounded
  cases history.limit with
  | zero => exact ⟨_, rfl⟩
  | succ limit => exact ⟨_, rfl⟩

namespace Editor

open Form

variable {closeness : Closeness} {before after editor : Editor} {kind : InsertKind}
  {branches : List Branch} {made ids : List NodeId} {form : Form} {settings : Settings}
  {supply : Supply} {operations : List Operation}

/-! ## The place -/

/-- With fields selected, it is the place right after them. -/
theorem Sound.insertionPoint_of_block {parent : NodeId} {start : Nat}
    (sound : editor.Sound closeness)
    (block : editor.form.Block parent start editor.selection.fields)
    (filled : editor.selection.fields ≠ []) :
    editor.insertionPoint = ⟨parent, start + editor.selection.fields.length⟩ := by
  have fits := sound.wellFormed.toLinksFit
  have inside : editor.selection.fields.length - 1 < editor.selection.fields.length :=
    Nat.sub_lt (List.length_pos_iff.mpr filled) Nat.zero_lt_one
  have above := block.parent?_eq fits (List.getLast_mem filled)
  have last := block.standsAt inside
  rw [← List.getLast_eq_getElem filled] at last
  unfold Editor.insertionPoint
  rw [List.getLast?_eq_some_getLast filled]
  simp only [Option.bind_some, above, fits.siblingIndex?_eq last, Option.map_some, Option.getD_some,
    Position.mk.injEq, true_and]
  omega

/-- It is the place right after the selected fields, or at the end of the root's children. -/
theorem Sound.insertionPoint_splits (sound : editor.Sound closeness) :
    ∃ parent front back, (editor.selection.fields ≠ [] ∨ parent = editor.form.root ∧ back = []) ∧
      editor.form.children parent = front ++ editor.selection.fields ++ back ∧
        editor.insertionPoint = ⟨parent, (front ++ editor.selection.fields).length⟩ := by
  by_cases filled : editor.selection.fields = []
  · refine ⟨editor.form.root, editor.form.children editor.form.root, [], .inr ⟨rfl, rfl⟩, ?_, ?_⟩
    · rw [filled, List.append_nil, List.append_nil]
    · unfold Editor.insertionPoint
      rw [filled, List.append_nil]
      rfl
  · obtain ⟨-, parent, start, block⟩ := sound.fits.resolve_left filled
    have place := sound.insertionPoint_of_block block filled
    obtain ⟨front, back, children, rfl⟩ := block
    exact ⟨parent, front, back, .inl filled, children, by rw [place, List.length_append]⟩

/-! ## What has been placed -/

/-- New fields have been put into the form of an editor, where new fields go. -/
structure Places (before : Editor) (made : List NodeId) (after : Editor) : Prop where
  /-- They stand side by side right after the selected fields, or at the end of the root's children
  if no field was selected.  No other field has got other children. -/
  placed : ∃ parent front back,
    (before.selection.fields ≠ [] ∨ parent = before.form.root ∧ back = []) ∧
      before.form.children parent = front ++ before.selection.fields ++ back ∧
        after.form.children parent = front ++ before.selection.fields ++ made ++ back ∧
          ∀ id, before.form.contains id → id ≠ parent →
            after.form.children id = before.form.children id
  /-- Whatever was there has its parent and its attributes still. -/
  kept : after.form.root = before.form.root ∧ ∀ id field, before.form.get? id = some field →
    ∃ field', after.form.get? id = some field' ∧ field'.parent = field.parent ∧
      field'.attributes = field.attributes
  /-- What else is there now lies at or below the new fields. -/
  stored_iff : ∀ id, after.form.contains id ↔
    before.form.contains id ∨ ∃ top ∈ made, after.form.Under top id
  /-- Nothing at or below the new fields was there before. -/
  new : ∀ top ∈ made, ∀ id, after.form.Under top id → ¬ before.form.contains id
  /-- Just the new fields are selected, in their order. -/
  selected : after.selection = ⟨made, false⟩
  /-- Undoing once leads back, as far as all but highlights is concerned. -/
  undone : ∃ last, replay .undo after = .ok ⟨⟩ last ∧
    last.form.Alike (fun bag => bag) before.form

/-- An insertion that has just been recorded can be undone. -/
theorem Inserted.undone {place : Position}
    (inserted : Inserted closeness before kind place branches after)
    (sound : before.Sound closeness) :
    ∃ last, replay .undo after = .ok ⟨⟩ last ∧ last.form.Alike (fun bag => bag) before.form := by
  have restorable := inserted.restorable
  have grown := restorable.wellFormed_restored sound.wellFormed
  obtain ⟨stored, room⟩ := Command.room_of_restorable inserted.filled restorable
  have same := inserted.alike.symm
  have wellFormed := same.wellFormed grown
  have block := same.block (restorable.block_restored room)
  have there : after.form.contains place.parent :=
    same.contains_eq.symm.trans (restorable.contains_restored.mpr (.inl stored))
  obtain ⟨removals, form, taken, -⟩ := wellFormed.exists_detachAll (block.removable wellFormed)
  obtain ⟨removals', taken'⟩ := restorable.detachAll_restored sound.wellFormed
  have roots : (removalsAt place branches).map Removal.id = branches.map Branch.root := by
    rw [removalsAt, List.map_map]
    rfl
  rw [roots] at taken'
  have alike : form.Alike (fun bag => bag) before.form :=
    inserted.alike.detachAll wellFormed (block.removable wellFormed) taken taken'
  obtain ⟨rest, next⟩ := before.history.exists_done_post
    (.insert kind ⟨place, branches.map Branch.root⟩ [])
  rw [← inserted.posted] at next
  obtain ⟨last, done, replayed⟩ := replay_of_play (inserted.recorded.sound sound)
    (alike.symm.wellFormed sound.wellFormed) next (Command.revert_insert there block taken)
  exact ⟨last, done, replayed.alike.trans alike⟩

section Inserted

variable {branch : Branch} {id : NodeId} {place : Position}

theorem Inserted.top_stored (inserted : Inserted closeness before kind place branches after)
    (listed : branch ∈ branches) : after.form.contains branch.root := by
  have removed : (⟨place, branch⟩ : Removal) ∈ removalsAt place branches :=
    List.mem_map_of_mem listed
  rw [inserted.alike.contains_eq]
  exact contains_of_parent? (inserted.restorable.parent?_restored removed)

/-- What lies at and below the root of a branch that was inserted is the branch. -/
theorem Inserted.under_iff (inserted : Inserted closeness before kind place branches after)
    (sound : before.Sound closeness) (listed : branch ∈ branches)
    (stored : after.form.contains id) :
    after.form.Under branch.root id ↔ branch.toForm.contains id := by
  have removed : (⟨place, branch⟩ : Removal) ∈ removalsAt place branches :=
    List.mem_map_of_mem listed
  rw [inserted.alike.contains_eq] at stored
  refine Iff.trans ⟨inserted.alike.under, inserted.alike.symm.under⟩ ?_
  exact inserted.restorable.under_restored_iff sound.wellFormed removed stored

/-- A field that was there is there still, and may have got the new fields as further children. -/
theorem Inserted.kept (inserted : Inserted closeness before kind place branches after)
    {field : Field} (held : before.form.get? id = some field) :
    ∃ field', after.form.get? id = some field' ∧ field'.parent = field.parent ∧
      field'.attributes = field.attributes ∧
        (id ≠ place.parent → field'.children = field.children) := by
  obtain ⟨-, room⟩ := Command.room_of_restorable inserted.filled inserted.restorable
  have kept := inserted.restorable.get?_restored room (contains_of_get? held)
  rw [held, Option.map_some] at kept
  obtain ⟨field', held', seen⟩ := inserted.alike.symm.exists_get? kept
  simp only [Field.seen, Prod.mk.injEq] at seen
  obtain ⟨-, parents, children, bags⟩ := seen
  refine ⟨field', held', parents.symm.trans ?_, bags.symm.trans ?_, fun elsewhere => ?_⟩
  · split <;> rfl
  · split <;> rfl
  · rw [← children, if_neg elsewhere]

theorem Inserted.stored_iff (inserted : Inserted closeness before kind place branches after)
    (sound : before.Sound closeness) :
    after.form.contains id ↔ before.form.contains id ∨
      ∃ top ∈ branches.map Branch.root, after.form.Under top id := by
  have grown : after.form.contains id ↔ before.form.contains id ∨
      ∃ removal ∈ removalsAt place branches, removal.branch.toForm.contains id := by
    rw [inserted.alike.contains_eq]
    exact inserted.restorable.contains_restored
  constructor
  · intro stored
    rcases grown.mp stored with old | ⟨removal, listed, inside⟩
    · exact .inl old
    · obtain ⟨branch, member, rfl⟩ := List.mem_map.mp listed
      exact .inr ⟨_, List.mem_map_of_mem member,
        (inserted.under_iff sound member stored).mpr inside⟩
  · rintro (old | ⟨top, listed, under⟩)
    · exact grown.mpr (.inl old)
    · obtain ⟨branch, member, rfl⟩ := List.mem_map.mp listed
      exact under.contains (inserted.top_stored member)

end Inserted

/-- **Fresh branches that were inserted where new fields go are placed as they should be.** -/
theorem Inserted.places (inserted : Inserted closeness before kind before.insertionPoint branches
    after) (sound : before.Sound closeness) :
    Places before (branches.map Branch.root) after := by
  constructor
  case placed =>
    obtain ⟨-, room⟩ := Command.room_of_restorable inserted.filled inserted.restorable
    have grown := inserted.restorable.children_restored room
    rw [← inserted.alike.children_eq] at grown
    obtain ⟨parent, front, back, outer, children, place⟩ := sound.insertionPoint_splits
    rw [place] at grown inserted
    dsimp only at grown
    rw [children, List.take_left, List.drop_left] at grown
    refine ⟨parent, front, back, outer, children, grown, fun id stored elsewhere => ?_⟩
    obtain ⟨field, held⟩ := contains_iff.mp stored
    obtain ⟨field', held', -, -, same⟩ := inserted.kept held
    rw [children_of_get? held', children_of_get? held, same elsewhere]
  case kept =>
    refine ⟨inserted.alike.1.trans root_restored, fun id field held => ?_⟩
    obtain ⟨field', held', parents, bags, -⟩ := inserted.kept held
    exact ⟨field', held', parents, bags⟩
  case stored_iff => exact fun id => inserted.stored_iff sound
  case new =>
    intro top listed id under
    obtain ⟨branch, member, rfl⟩ := List.mem_map.mp listed
    have stored := under.contains (inserted.top_stored member)
    have removed : (⟨before.insertionPoint, branch⟩ : Removal) ∈
        removalsAt before.insertionPoint branches := List.mem_map_of_mem member
    exact inserted.restorable.not_contains removed
      ((inserted.under_iff sound member stored).mp under)
  case selected => exact inserted.selected
  case undone => exact inserted.undone sound

/-! ## Copies -/

/-- New fields are copies of fields of a source, in the order in which these are listed; with each
field all that lies below it has been copied. -/
def Copies (source : Form) (view : Attributes → Attributes) (ids made : List NodeId)
    (after : Form) : Prop :=
  ∃ (parent : NodeId) (plain : Form), plain.Alike (fun bag => bag) after ∧
    List.Forall₂ (plain.Mirrored source view parent) ids made

theorem Inserted.copies {place : Position} {source : Form} {view : Attributes → Attributes}
    (inserted : Inserted closeness before kind place branches after)
    (sound : before.Sound closeness) (origin : source.WellFormed)
    (there : ∀ id ∈ ids, source.contains id)
    (mirrors : List.Forall₂ (fun id branch => Branch.Mirrors branch source view id) ids branches) :
    Copies source view ids (branches.map Branch.root) after.form :=
  ⟨place.parent, _, inserted.alike.symm,
    inserted.restorable.forall₂_mirrored sound.wellFormed origin there mirrors⟩

/-! ## The law -/

/-- A field that was added has the attributes that new fields are to have, and no children. -/
theorem Sound.addField_places (sound : editor.Sound closeness) :
    ∃ id after, addField editor = .ok id after ∧ Places editor [id] after ∧
      ∃ field, after.form.get? id = some field ∧ field.children = [] ∧
        field.attributes = editor.settings.newField.attributes := by
  obtain ⟨after, done, inserted⟩ := addField_inserted sound
  refine ⟨editor.supply.id, after, done, inserted.places sound, ?_⟩
  have single : (Branch.single (Field.fresh editor.supply.id
      editor.settings.newField.attributes)).toForm.get? editor.supply.id =
        some (Field.fresh editor.supply.id editor.settings.newField.attributes) :=
    Std.ExtTreeMap.getElem?_insert_self
  have top : editor.supply.id = (Branch.single (Field.fresh editor.supply.id
      editor.settings.newField.attributes)).root := rfl
  have found := inserted.restorable.get?_restored_of_branch List.mem_cons_self single
  rw [if_pos top] at found
  obtain ⟨field, stored, seen⟩ := inserted.alike.symm.exists_get? found
  simp only [Field.seen, Prod.mk.injEq] at seen
  obtain ⟨-, -, children, bags⟩ := seen
  exact ⟨field, stored, children.symm, bags.symm⟩

/-- The selected fields, if there are any, are duplicated in their order. -/
theorem Sound.duplicateFields_places (sound : editor.Sound closeness)
    (filled : editor.selection.fields ≠ []) :
    ∃ made after, duplicateFields editor = .ok ⟨⟩ after ∧ Places editor made after ∧
      Copies editor.form (Attributes.removeAll · (strippedNames editor.settings.duplicateLocks))
        editor.selection.fields made after.form := by
  obtain ⟨-, parent, start, block⟩ := sound.fits.resolve_left filled
  obtain ⟨copies, supply, after, copied, done, inserted⟩ :=
    duplicateFields_inserted sound block filled
  have there : ∀ id ∈ editor.selection.fields, editor.form.contains id := fun _ =>
    block.contains sound.wellFormed.toLinksFit
  have mirrors := (sound.wellFormed.mirrors_of_copyAll there copied).imp fun _ _ mirrors =>
    mirrors.strip (strippedNames editor.settings.duplicateLocks)
  rw [← sound.insertionPoint_of_block block filled] at inserted
  exact ⟨_, after, done, inserted.places sound, inserted.copies sound sound.wellFormed there
    (List.forall₂_map_right_iff.mpr mirrors)⟩

/-- Fields of a source are imported in the order in which they are listed, if they are all there. -/
theorem Sound.importFields_places (sound : editor.Sound .links) (source : Form)
    (filled : ids ≠ []) :
    (¬ ∀ id ∈ ids, source.contains id) ∧
        (∃ error, importFields source.fields ids editor = .error error editor) ∨
      (∀ id ∈ ids, source.contains id) ∧ ∃ made after,
        importFields source.fields ids editor = .ok made after ∧ Places editor made after ∧
          (Importable source → Copies source (fun bag => bag) ids made after.form) := by
  refine (importFields_inserted sound (fun _ _ _ => nofun) filled).imp_right ?_
  rintro ⟨there, copies, supply, after, copied, done, inserted⟩
  refine ⟨there, _, after, done, inserted.places sound, fun importable => ?_⟩
  exact inserted.copies sound importable.wellFormed there
    (importable.wellFormed.mirrors_of_copyAll there copied)

/-- **Where new fields go.**  After every run, adding a field succeeds, and so does duplicating, if
any fields are selected; importing fields succeeds if they are all there, and else leaves the
editor alone.  The new fields are placed right after the selected ones, or at the end of the root's
children, in order; nothing else changes; they are selected; and undoing once takes them out again.
An added field has the attributes for new fields.  Duplicates and imported fields are copies. -/
theorem placing_law (valid : form.validate = .ok ())
    (older : ∀ id : NodeId, form.contains id → id.number < supply.next)
    (admitted : AdmitsAll .links (ofForm form settings supply) operations) :
    let editor := (ofForm form settings supply).after operations
    (∃ id after, addField editor = .ok id after ∧ Places editor [id] after ∧
      ∃ field, after.form.get? id = some field ∧ field.children = [] ∧
        field.attributes = editor.settings.newField.attributes) ∧
    (editor.selection.fields ≠ [] → ∃ made after,
      duplicateFields editor = .ok ⟨⟩ after ∧ Places editor made after ∧
        Copies editor.form (Attributes.removeAll · (strippedNames editor.settings.duplicateLocks))
          editor.selection.fields made after.form) ∧
    ∀ source ids, ids ≠ [] →
      (¬ ∀ id ∈ ids, source.contains id) ∧
          (∃ error, importFields source.fields ids editor = .error error editor) ∨
        (∀ id ∈ ids, source.contains id) ∧ ∃ made after,
          importFields source.fields ids editor = .ok made after ∧ Places editor made after ∧
            (Importable source → Copies source (fun bag => bag) ids made after.form) := by
  have known : form.Known .links supply := Form.known_iff.mpr ⟨older, nofun⟩
  have sound := ((ofForm_tracks valid known).run admitted).sound
  exact ⟨sound.addField_places, sound.duplicateFields_places,
    fun source _ filled => sound.importFields_places source filled⟩

/-- The first of two fields is duplicated and imported: both times the copies come between them. -/
theorem placing_law_between :
    let start := ofForm (Form.blankProtocol ⟨0⟩) {} ⟨2⟩
    let operations : List Operation := [.act .addNewField, .select ⟨1⟩ true]
    let editor := start.after operations
    editor.form.children ⟨0⟩ = [⟨1⟩, ⟨2⟩] ∧ editor.selection.fields = [⟨1⟩] ∧
      (∃ made after, duplicateFields editor = .ok ⟨⟩ after ∧ Places editor made after) ∧
        ∃ made after, importFields editor.form.fields [⟨1⟩, ⟨2⟩, ⟨1⟩] editor = .ok made after ∧
          Places editor made after := by
  intro start operations editor
  have blank : (blank ⟨0⟩).Sound .links ∧ _ := blank_sound ⟨0⟩
  have older : ∀ id : NodeId, (Form.blankProtocol ⟨0⟩).contains id →
      id.number < (⟨2⟩ : Supply).next := fun id => blank.1.known.older
  have admitted : AdmitsAll .links start operations := ⟨trivial, trivial, trivial⟩
  have selected : editor.selection.fields = [⟨1⟩] := by decide +kernel
  have there : ∀ id ∈ [(⟨1⟩ : NodeId), ⟨2⟩, ⟨1⟩], editor.form.contains id := by decide +kernel
  obtain ⟨-, duplicates, imports⟩ := placing_law (by decide +kernel) older admitted
  obtain ⟨made, after, done, places, -⟩ := duplicates (selected.trans_ne (List.cons_ne_nil _ _))
  refine ⟨by decide +kernel, selected, ⟨made, after, done, places⟩, ?_⟩
  rcases imports editor.form _ (List.cons_ne_nil _ _) with
    ⟨missing, -⟩ | ⟨-, made, after, done, places, -⟩
  · exact absurd there missing
  · exact ⟨made, after, done, places⟩

end Editor

end FormEditor
