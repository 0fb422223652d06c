import FormEditor.Proofs.Form.Acceptance
import FormEditor.Proofs.Form.Levels
import FormEditor.Proofs.Undoing

/-!
# Edits that are all or nothing

An edit of a form is carried out, is at the edge of the form, or is refused.  In the last two cases
it leaves the form exactly as it was, with all links, attributes and highlights.  Most edits write
several times, and each time they might be refused; but what they check before they write anything
is enough for all that follows, although every write changes indices and links.

`FormEdit` lists the edits with their arguments, and `FormEdit.Fits` says what the arguments must
be for an edit not to be refused.  Main statement: `FormEdit.atomic`.
-/

set_option autoImplicit false

namespace FormEditor

/-- The edge of the form, if an edit is at it. -/
def Outcome.edge? {α : Type} : Outcome α → Option Edge
  | .applied _ => none
  | .atEdge edge => some edge

/-! ## The edits -/

/-- The edits of a form, with their arguments. -/
inductive FormEdit where
  | insertNew (parent : NodeId) (index : Nat) (field : Field)
  | deleteFields (ids : List NodeId)
  | moveUp (ids : List NodeId)
  | moveDown (ids : List NodeId)
  | promote (ids : List NodeId)
  | demote (ids : List NodeId)
  | duplicate (ids : List NodeId) (keepLocks : Bool)
  | importFields (source : FieldMap) (ids : List NodeId) (target : Position)
  | values (edit : ValueEdit)
  | applyChanges (changes : List Change)
  | revertChanges (changes : List Change)

/-- Carries the edit out.  Gives the edge of the form if the edit is at it, and nothing if it was
carried out. -/
def FormEdit.perform (supply : Supply) : FormEdit → Edit (Option Edge)
  | .insertNew parent index field => (fun _ => none) <$> Form.insertNew parent index field
  | .deleteFields ids => (fun _ => none) <$> Form.deleteFields ids
  | .moveUp ids => Outcome.edge? <$> Form.moveUp ids
  | .moveDown ids => Outcome.edge? <$> Form.moveDown ids
  | .promote ids => Outcome.edge? <$> Form.promote ids
  | .demote ids => Outcome.edge? <$> Form.demote ids
  | .duplicate ids keepLocks => (fun _ => none) <$> Form.duplicate ids keepLocks supply
  | .importFields source ids target =>
    (fun _ => none) <$> Form.importFields source ids target supply
  | .values edit => (fun _ => none) <$> edit.perform
  | .applyChanges changes => (fun _ => none) <$> Form.applyChanges changes
  | .revertChanges changes => (fun _ => none) <$> Form.revertChanges changes

/-- The ids are those of an unbroken block of siblings, in some order. -/
def Form.Siblings (form : Form) (ids : List NodeId) : Prop :=
  ids ≠ [] ∧ ∃ parent start block, ids.Perm block ∧ form.Block parent start block

/-- The arguments of the edit fit the form. -/
def FormEdit.Fits (form : Form) : FormEdit → Prop
  | .insertNew parent index field =>
    form.isNew field ∧ form.contains parent ∧ index ≤ (form.children parent).length
  | .deleteFields ids => ∀ id ∈ ids, id ≠ form.root ∧ form.contains id
  | .moveUp ids | .moveDown ids | .promote ids | .demote ids | .duplicate ids _ =>
    form.Siblings ids
  | .importFields source ids target =>
    (form.contains target.parent ∧ target.index ≤ (form.children target.parent).length) ∧
      ∀ id ∈ ids, (source[id]?).isSome
  | .values edit => ∀ id ∈ edit.targets, form.contains id
  | .applyChanges changes | .revertChanges changes => ∀ change ∈ changes, form.contains change.node

/-- All or nothing: an edit that is refused, because it does not fit the form, leaves the form as it
is, and so does one that fits and is at the edge of the form. -/
def AllOrNothing (fits : Prop) (form : Form) : EStateM.Result Fault Form (Option Edge) → Prop
  | .error _ after => after = form ∧ ¬ fits
  | .ok (some _) after => after = form ∧ fits
  | .ok none _ => fits

namespace AllOrNothing

variable {α β : Type} {fits : Prop} {form after : Form} {edit : Edit α} {answer : α → Option Edge}

theorem of_error {fault : Fault} (refused : edit form = .error fault form) (unfit : ¬ fits) :
    AllOrNothing fits form ((answer <$> edit) form) := by
  rw [Step.map_of_error refused]
  exact ⟨rfl, unfit⟩

theorem of_ok {result : α} (done : edit form = .ok result after) (fit : fits) :
    AllOrNothing fits form (((fun _ => none) <$> edit) form) := by
  rw [Step.map_of_ok done]
  exact fit

/-- A question that is answered whenever the edit fits may be asked before anything is written. -/
theorem ask_bind {question : Form → Except Fault β} {next : β → Edit α}
    (answered : fits → ∃ found, question form = .ok found)
    (rest : ∀ found, question form = .ok found →
      AllOrNothing fits form ((answer <$> next found) form)) :
    AllOrNothing fits form ((answer <$> (Edit.ask question >>= next)) form) := by
  cases asked : question form with
  | error fault =>
    refine of_error (Step.bind_of_error (Edit.ask_of_error asked)) fun fit => ?_
    obtain ⟨found, done⟩ := answered fit
    cases asked.symm.trans done
  | ok found =>
    have same : (answer <$> (Edit.ask question >>= next)) form = (answer <$> next found) form := by
      show EStateM.map answer _ form = EStateM.map answer _ form
      rw [EStateM.map, EStateM.map, Edit.ask_bind, asked]
    rw [same]
    exact rest found asked

theorem fits_of_ok {result : α} (whole : AllOrNothing fits form ((answer <$> edit) form))
    (done : edit form = .ok result after) : fits := by
  rw [Step.map_of_ok done] at whole
  cases found : answer result with
  | none =>
    rw [found] at whole
    exact whole
  | some edge =>
    rw [found] at whole
    exact whole.2

/-- A move is refused or at the edge of the form, and nothing changes, or it is carried out. -/
theorem outcome_cases {move : Edit (Outcome α)}
    (whole : AllOrNothing fits form ((Outcome.edge? <$> move) form)) :
    (∃ fault, move form = .error fault form) ∨ (∃ edge, move form = .ok (.atEdge edge) form) ∨
      ∃ result after, move form = .ok (.applied result) after := by
  cases done : move form with
  | error fault after =>
    rw [Step.map_of_error done] at whole
    exact .inl ⟨fault, congrArg (EStateM.Result.error fault) whole.1⟩
  | ok outcome after =>
    rw [Step.map_of_ok done] at whole
    cases outcome with
    | atEdge edge => exact .inr (.inl ⟨edge, congrArg (EStateM.Result.ok _) whole.1⟩)
    | applied result => exact .inr (.inr ⟨result, after, rfl⟩)

end AllOrNothing

namespace Form

variable {form after : Form} {id parent : NodeId} {ids : List NodeId} {index : Nat}
  {place : Position} {run : Run} {supply : Supply} {changes : List Change}

/-! ## Adding and removing fields -/

theorem contains_single {field : Field} (inside : (Branch.single field).toForm.contains id) :
    id = field.id := by
  by_contra other
  have stored : (Branch.single field).toForm.get? id = none := by
    show ((∅ : FieldMap).insert _ _)[id]? = none
    rw [FieldMap.getElem?_insert, if_neg other]
    rfl
  exact not_contains_iff.mpr stored inside

/-- A new field may be attached wherever there is a place. -/
theorem attachable_single_iff {field : Field} (new : form.isNew field) :
    form.Attachable place (Branch.single field) ↔
      form.contains place.parent ∧ place.index ≤ (form.children place.parent).length := by
  constructor
  · exact fun able => ⟨able.parent_stored, able.index_le⟩
  · rintro ⟨stored, room⟩
    refine ⟨stored, room, fun inside again => ?_⟩
    rw [contains_single inside] at again
    unfold isNew at new
    rw [again, Bool.not_true, Bool.and_false] at new
    cases new

theorem insertNew_allOrNothing (parent : NodeId) (index : Nat) (field : Field) :
    AllOrNothing (FormEdit.Fits form (.insertNew parent index field)) form
      (FormEdit.perform supply (.insertNew parent index field) form) := by
  refine .ask_bind (fun fit => ⟨(), if_pos fit.1⟩) fun _ asked => ?_
  have new : form.isNew field := by
    by_contra old
    rw [if_neg old] at asked
    cases asked
  cases put : attach parent index (Branch.single field) form with
  | error fault after =>
    have same : after = form := eq_of_attach_eq_error put
    rw [same] at put
    refine .of_error (Step.bind_of_error put) fun fit => ?_
    have able : form.Attachable ⟨parent, index⟩ _ := (attachable_single_iff new).mpr fit.2
    cases put.symm.trans (attach_of_attachable able)
  | ok _ after =>
    have able := (attach_eq_ok_iff.mp put).1
    exact .of_ok (Step.bind_of_ok put) ⟨new, (attachable_single_iff new).mp able⟩

theorem deleteFields_allOrNothing (wellFormed : form.WellFormed) (ids : List NodeId) :
    AllOrNothing (FormEdit.Fits form (.deleteFields ids)) form
      (FormEdit.perform supply (.deleteFields ids) form) := by
  rcases deleteFields_cases wellFormed ids with ⟨fault, refused⟩ | ⟨fit, made, after, done, -⟩
  · refine .of_error refused fun fit => ?_
    obtain ⟨made, after, done, -⟩ := wellFormed.exists_detachAll (wellFormed.removable_topmost fit)
    cases refused.symm.trans ((deleteFields_eq fit).trans done)
  · exact .of_ok done fit

/-! ## Moving fields -/

/-- Ids stand for a run exactly when they are those of siblings without a gap. -/
theorem WellFormed.siblings_iff (wellFormed : form.WellFormed) :
    form.Siblings ids ↔ ∃ run, form.run ids = .ok run := by
  constructor
  · rintro ⟨nonempty, parent, start, block, perm, stands⟩
    exact ⟨⟨parent, start, block⟩, wellFormed.run_eq_ok_iff.mpr ⟨nonempty, perm, stands⟩⟩
  · rintro ⟨run, found⟩
    obtain ⟨nonempty, perm, stands⟩ := wellFormed.run_eq_ok_iff.mp found
    exact ⟨nonempty, run.parent, run.start, run.ids, perm, stands⟩

/-- A move that first asks for the run is all or nothing if it is so for blocks. -/
theorem move_allOrNothing {α : Type} {next : Run → Edit (Outcome α)}
    (wellFormed : form.WellFormed) (ids : List NodeId)
    (moved : ∀ {ids parent start}, ids ≠ [] → form.Block parent start ids →
      (∃ edge, (Edit.ask (fun form => form.run ids) >>= next) form = .ok (.atEdge edge) form) ∨
        ∃ result after, (Edit.ask (fun form => form.run ids) >>= next) form =
          .ok (.applied result) after) :
    AllOrNothing (form.Siblings ids) form
      ((Outcome.edge? <$> (Edit.ask (fun form => form.run ids) >>= next)) form) := by
  refine .ask_bind wellFormed.siblings_iff.mp fun run found => ?_
  have fit := wellFormed.siblings_iff.mpr ⟨run, found⟩
  -- the ids may come in any order, and what follows sees only the run that they stand for
  obtain ⟨filled, block, same⟩ := wellFormed.block_of_run found
  have outcome := moved filled block
  rw [Edit.ask_bind, same] at outcome
  rcases outcome with ⟨edge, still⟩ | ⟨result, after, done⟩
  · rw [Step.map_of_ok still]
    exact ⟨rfl, fit⟩
  · rw [Step.map_of_ok done]
    exact fit

theorem moveUp_allOrNothing (wellFormed : form.WellFormed) (ids : List NodeId) :
    AllOrNothing (form.Siblings ids) form ((Outcome.edge? <$> moveUp ids) form) := by
  refine move_allOrNothing wellFormed ids fun filled block => ?_
  rcases moveUp_cases wellFormed filled block with edge | ⟨_, _, _, _, moved⟩
  · exact .inl ⟨_, edge⟩
  · exact .inr ⟨_, _, moved⟩

theorem moveDown_allOrNothing (wellFormed : form.WellFormed) (ids : List NodeId) :
    AllOrNothing (form.Siblings ids) form ((Outcome.edge? <$> moveDown ids) form) := by
  refine move_allOrNothing wellFormed ids fun filled block => ?_
  rcases moveDown_cases wellFormed filled block with edge | ⟨_, _, _, _, moved⟩
  · exact .inl ⟨_, edge⟩
  · exact .inr ⟨_, _, moved⟩

theorem promote_allOrNothing (wellFormed : form.WellFormed) (ids : List NodeId) :
    AllOrNothing (form.Siblings ids) form ((Outcome.edge? <$> promote ids) form) := by
  refine move_allOrNothing wellFormed ids fun filled block => ?_
  rcases wellFormed.promote_cases filled block with edge | ⟨_, _, _, _, _, _, moved⟩
  · exact .inl ⟨_, edge⟩
  · exact .inr ⟨_, _, moved⟩

theorem demote_allOrNothing (wellFormed : form.WellFormed) (ids : List NodeId) :
    AllOrNothing (form.Siblings ids) form ((Outcome.edge? <$> demote ids) form) := by
  refine move_allOrNothing wellFormed ids fun filled block => ?_
  rcases wellFormed.demote_cases filled block with edge | ⟨_, _, _, _, _, _, moved⟩
  · exact .inl ⟨_, edge⟩
  · exact .inr ⟨_, _, moved⟩

/-! ## Copying fields -/

theorem stored_of_copyAll {source : FieldMap} {supply' : Supply} {branches : List Branch}
    (copied : FieldMap.copyAll source ids supply = .ok (branches, supply')) :
    ∀ id ∈ ids, (source[id]?).isSome := by
  induction ids generalizing supply supply' branches with
  | nil => exact fun _ listed => nomatch listed
  | cons id ids ih =>
    unfold FieldMap.copyAll at copied
    obtain ⟨⟨branch, middle⟩, first, copied⟩ := Question.bind_eq_ok_iff.mp copied
    obtain ⟨⟨later, last⟩, rest, -⟩ := Question.bind_eq_ok_iff.mp copied
    refine List.forall_mem_cons.mpr ⟨?_, ih rest⟩
    by_contra missing
    rw [Bool.not_eq_true, Option.isSome_eq_false_iff, Option.isNone_iff_eq_none] at missing
    have none : FieldMap.outline source id = .error (.nodeNotFound id) := by
      unfold FieldMap.outline
      cases source.size with
      | zero => rfl
      | succ depth =>
        unfold FieldMap.outlineFrom
        rw [missing]
        rfl
    unfold FieldMap.copy at first
    rw [none] at first
    cases first

/-- Fresh copies can be attached wherever there is a place. -/
theorem attachAll_of_copyAll {source : FieldMap} {supply' : Supply} {branches : List Branch}
    {change : Branch → Branch} (place : Position)
    (keeps : ∀ {low high : Nat} {branch : Branch}, branch.Fresh (fun _ => True) low high →
      (change branch).Fresh (fun _ => True) low high)
    (older : ∀ id : NodeId, form.contains id → id.number < supply.next)
    (stored : form.contains place.parent)
    (room : place.index ≤ (form.children place.parent).length)
    (copied : FieldMap.copyAll source ids supply = .ok (branches, supply')) :
    ∃ after, attachAll place.parent place.index (branches.map change) form = .ok () after := by
  have sprouted : Sprouted (fun _ => True) supply.next supply'.next branches :=
    (FieldMap.sprouted_copyAll (fun _ _ _ => trivial) copied).1
  have restorable := (sprouted.map keeps).restorable (fun inside => older _ inside) stored room
  exact ⟨_, attachAll_of_restorable restorable⟩

theorem duplicate_allOrNothing (wellFormed : form.WellFormed)
    (older : ∀ id : NodeId, form.contains id → id.number < supply.next) (ids : List NodeId)
    (keepLocks : Bool) :
    AllOrNothing (form.Siblings ids) form
      (FormEdit.perform supply (.duplicate ids keepLocks) form) := by
  refine .ask_bind wellFormed.siblings_iff.mp fun run found => ?_
  have fit := wellFormed.siblings_iff.mpr ⟨run, found⟩
  obtain ⟨filled, block, -⟩ := wellFormed.block_of_run found
  refine .ask_bind (fun _ => ?_) fun ⟨copies, rest⟩ copied => ?_
  · obtain ⟨copies, rest, copied⟩ :
        ∃ copies rest, FieldMap.copyAll form.fields run.ids supply = .ok (copies, rest) :=
      FieldMap.exists_copyAll fun id listed => block.contains wellFormed.toLinksFit listed
    exact ⟨(copies, rest), copied⟩
  · have strips : ∀ {low high : Nat} {branch : Branch}, branch.Fresh (fun _ => True) low high →
        (branch.strip (strippedNames keepLocks)).Fresh (fun _ => True) low high :=
      fun fresh => fresh.strip fun _ _ => trivial
    obtain ⟨after, put⟩ := attachAll_of_copyAll ⟨run.parent, run.stop⟩ strips older
      (block.contains_parent filled) block.stop_le copied
    exact .of_ok (Step.bind_of_ok put) fit

theorem importFields_allOrNothing
    (older : ∀ id : NodeId, form.contains id → id.number < supply.next) (source : FieldMap)
    (ids : List NodeId) (target : Position) :
    AllOrNothing (FormEdit.Fits form (.importFields source ids target)) form
      (FormEdit.perform supply (.importFields source ids target) form) := by
  refine .ask_bind (fun fit => ⟨(), checkIndex_eq_ok_iff.mpr fit.1⟩) fun _ checked => ?_
  have place := checkIndex_eq_ok_iff.mp checked
  refine .ask_bind (fun fit => ?_) fun ⟨copies, rest⟩ copied => ?_
  · obtain ⟨copies, rest, copied⟩ :
        ∃ copies rest, FieldMap.copyAll source ids supply = .ok (copies, rest) :=
      FieldMap.exists_copyAll fit.2
    exact ⟨(copies, rest), copied⟩
  · have same : ∀ {low high : Nat} {branch : Branch}, branch.Fresh (fun _ => True) low high →
        (id branch).Fresh (fun _ => True) low high := fun fresh => fresh
    obtain ⟨after, put⟩ := attachAll_of_copyAll target same older place.1 place.2 copied
    rw [List.map_id] at put
    exact .of_ok (Step.bind_of_ok put) ⟨place, stored_of_copyAll copied⟩

/-! ## Editing values -/

/-- Nothing is refused any more once all fields are known to be there. -/
theorem present_allOrNothing {α : Type} {next : Edit α} {fits : Prop}
    (exact : form.checkPresent ids = .ok () ↔ fits)
    (rest : fits → ∃ result after, next form = .ok result after) :
    AllOrNothing fits form
      (((fun _ => none) <$> (Edit.ask (fun form => form.checkPresent ids) >>= fun _ => next))
        form) := by
  refine .ask_bind (fun fit => ⟨(), exact.mpr fit⟩) fun _ checked => ?_
  have fit : fits := exact.mp checked
  obtain ⟨result, after, done⟩ := rest fit
  exact .of_ok done fit

theorem values_allOrNothing (edit : ValueEdit) :
    AllOrNothing (∀ id ∈ edit.targets, form.contains id) form
      (((fun _ => none) <$> edit.perform) form) := by
  cases edit with
  | multiplyValues ids factor =>
    exact present_allOrNothing checkPresent_eq_ok_iff fun present =>
      ⟨_, _, amendEach_of_present present⟩
  | _ => exact present_allOrNothing checkPresent_eq_ok_iff fun _ => ⟨_, _, rfl⟩

theorem applyChanges_allOrNothing (changes : List Change) :
    AllOrNothing (∀ change ∈ changes, form.contains change.node) form
      (((fun _ => none) <$> applyChanges changes) form) :=
  present_allOrNothing checkPresent_nodes_eq_ok_iff fun present =>
    ⟨_, _, writes_of_present present⟩

theorem revertChanges_allOrNothing (changes : List Change) :
    AllOrNothing (∀ change ∈ changes, form.contains change.node) form
      (((fun _ => none) <$> revertChanges changes) form) :=
  present_allOrNothing checkPresent_nodes_eq_ok_iff fun present =>
    ⟨_, _, unwrites_of_present present⟩

end Form

open Form

variable {form : Form} {supply : Supply}

/-- **Edits of a form are all or nothing.**  An edit with whatever arguments is refused if and only
if they do not fit the form.  If it is refused, or at the edge of the form, nothing has changed.
The supply must not give out ids that the form has already. -/
theorem FormEdit.atomic (valid : form.validate = .ok ())
    (older : ∀ id : NodeId, form.contains id → id.number < supply.next) (edit : FormEdit) :
    match edit.perform supply form with
    | .error _ after => after = form ∧ ¬ edit.Fits form
    | .ok (some _) after => after = form ∧ edit.Fits form
    | .ok none _ => edit.Fits form := by
  have wellFormed := validate_eq_ok_iff.mp valid
  show AllOrNothing (edit.Fits form) form (edit.perform supply form)
  cases edit with
  | insertNew parent index field => exact insertNew_allOrNothing parent index field
  | deleteFields ids => exact deleteFields_allOrNothing wellFormed ids
  | moveUp ids => exact moveUp_allOrNothing wellFormed ids
  | moveDown ids => exact moveDown_allOrNothing wellFormed ids
  | promote ids => exact promote_allOrNothing wellFormed ids
  | demote ids => exact demote_allOrNothing wellFormed ids
  | duplicate ids keepLocks => exact duplicate_allOrNothing wellFormed older ids keepLocks
  | importFields source ids target => exact importFields_allOrNothing older source ids target
  | values edit => exact values_allOrNothing edit
  | applyChanges changes => exact applyChanges_allOrNothing changes
  | revertChanges changes => exact revertChanges_allOrNothing changes

/-- A deletion that names a field that may go and then the root takes nothing out. -/
theorem FormEdit.atomic_deleting :
    let form := Form.blankProtocol ⟨0⟩
    let edit := FormEdit.deleteFields [⟨1⟩, ⟨0⟩]
    (∃ fault, edit.perform ⟨2⟩ form = .error fault form) ∧ ¬ edit.Fits form := by
  intro form edit
  have older : ∀ id : NodeId, form.contains id → id.number < 2 := by
    have all : ∀ id ∈ form.fields.keys, id.number < 2 := by decide +kernel
    exact fun id stored => all id (mem_keys_iff.mpr stored)
  have refused : (match edit.perform ⟨2⟩ form with
      | .error _ _ => true
      | .ok _ _ => false) = true := by decide +kernel
  have whole : match edit.perform ⟨2⟩ form with
      | .error _ after => after = form ∧ ¬ edit.Fits form
      | .ok (some _) after => after = form ∧ edit.Fits form
      | .ok none _ => edit.Fits form := FormEdit.atomic (by decide +kernel) older edit
  cases done : edit.perform ⟨2⟩ form with
  | ok _ _ =>
    rw [done] at refused
    cases refused
  | error fault after =>
    rw [done] at whole
    exact ⟨⟨fault, congrArg (EStateM.Result.error fault) whole.1⟩, whole.2⟩

end FormEditor
