import FormEditor.Proofs.Form.Acceptance
import FormEditor.Proofs.Form.Copies
import FormEditor.Proofs.Form.Transfers

/-!
# Whole runs of structural edits

Every structural edit keeps forms well-formed, whatever its arguments are and whether it is
carried out, finds nothing to do, or is refused half way (`keeps_relink` and its companions).  The
only thing asked of the arguments is that branches handed in were made by the library
(`Branch.Produced`), from any form and at any time; such a branch is whole.

`Call` lists the structural edits with their arguments.  The main statement is
`validate_afterCalls`: a valid form is valid after every call of a run.  Ids need not be fresh for
this, since attaching refuses a branch that has an id in common with the form.
-/

set_option autoImplicit false

namespace FormEditor

/-! ## Branches made by the library -/

/-- A branch that the library has made: it was taken out of a valid form, it is a copy or a new
field, or it is such a branch without some of its attributes. -/
inductive Branch.Produced : Branch → Prop where
  | detached {form after : Form} {id : NodeId} {place : Position} {branch : Branch} :
      form.validate = .ok () → Form.detach id form = .ok (place, branch) after → Produced branch
  | removed {form after : Form} {ids : List NodeId} {removals : List Removal}
      {removal : Removal} :
      form.validate = .ok () → Form.deleteFields ids form = .ok removals after →
        removal ∈ removals → Produced removal.branch
  | copied {fields : FieldMap} {id : NodeId} {supply supply' : Supply} {branch : Branch} :
      FieldMap.copy fields id supply = .ok (branch, supply') → Produced branch
  | single (field : Field) : Produced (Branch.single field)
  | stripped {branch : Branch} (names : List String) :
      Produced branch → Produced (branch.strip names)

namespace Branch

variable {branch : Branch}

theorem whole_single (field : Field) : (Branch.single field).Whole := by
  -- the links are those of a new field, which a supply could have named
  let supply : Supply := ⟨field.id.number⟩
  have fresh : (Branch.single (Field.fresh supply.id field.attributes)).Fresh (fun _ => True)
      supply.next (supply.next + 1) := Branch.fresh_single trivial
  have stored : ∀ (other : Field) (id : NodeId), (Branch.single other).toForm.get? id =
      if id = other.id then some { other with parent := none, children := [] } else none :=
    fun _ _ => FieldMap.getElem?_insert
  have alike : (Branch.single (Field.fresh supply.id field.attributes)).toForm.Alike
      (fun bag => bag) (Branch.single field).toForm := by
    refine ⟨rfl, ?_⟩
    intro id
    rw [stored, stored]
    show Option.map _ (if id = field.id then _ else none) = _
    by_cases here : id = field.id
    · rw [if_pos here, if_pos here]
      rfl
    · rw [if_neg here, if_neg here]
  exact alike.wellFormed fresh.whole

theorem Whole.strip (whole : branch.Whole) (names : List String) : (branch.strip names).Whole :=
  (branch.alike_strip names).wellFormed whole

/-- A copy is whole, whatever it was copied from. -/
theorem whole_of_copyAll {fields : FieldMap} {ids : List NodeId} {supply supply' : Supply}
    {copies : List Branch} (done : FieldMap.copyAll fields ids supply = .ok (copies, supply'))
    (listed : branch ∈ copies) : branch.Whole := by
  have sprouted : Sprouted (fun _ => True) supply.next supply'.next copies :=
    (FieldMap.sprouted_copyAll (fun _ _ _ => trivial) done).1
  obtain ⟨low, high, -, -, fresh⟩ := sprouted.exists_fresh listed
  exact fresh.whole

/-- **A branch that the library has made is whole.** -/
theorem Produced.whole (produced : branch.Produced) : branch.Whole := by
  induction produced with
  | @detached form after id place branch valid done =>
    have wellFormed := Form.validate_eq_ok_iff.mp valid
    obtain ⟨stands, rfl, -⟩ := wellFormed.detach_eq_ok_iff.mp done
    exact wellFormed.whole_branchAt stands
  | @removed form after ids removals removal valid done listed =>
    have wellFormed := Form.validate_eq_ok_iff.mp valid
    rcases Form.deleteFields_cases wellFormed ids with
      ⟨fault, refused⟩ | ⟨-, made, left, took, taken⟩
    · cases refused.symm.trans done
    · cases took.symm.trans done
      exact taken.restorable.whole listed
  | @copied fields id supply supply' branch done =>
    have all : FieldMap.copyAll fields [id] supply = .ok ([branch], supply') := by
      simp only [FieldMap.copyAll, done]
      rfl
    exact whole_of_copyAll all List.mem_cons_self
  | single field => exact whole_single field
  | stripped names _ ih => exact ih.strip names

end Branch

namespace Form

variable {form : Form} {id parent : NodeId} {ids : List NodeId} {index : Nat} {place : Position}

/-! ## Single edits -/

theorem keeps_detach : (detach id).Keeps WellFormed := by
  refine .ask_bind fun form place wellFormed asked => ?_
  exact wellFormed.wellFormed_without (wellFormed.detachable_eq_ok_iff.mp asked)

/-- What a move that is allowed can rely on. -/
theorem WellFormed.of_relinkable (wellFormed : form.WellFormed)
    (able : form.relinkable id parent index = .ok place) :
    form.StandsAt id place ∧ form.contains parent ∧ ¬ form.Under id parent ∧
      index ≤ if parent = place.parent then (form.children parent).length - 1
        else (form.children parent).length := by
  unfold relinkable at able
  by_cases top : id = form.root
  · rw [if_pos top] at able
    cases able
  rw [if_neg top] at able
  cases above : form.parent? id with
  | none =>
    rw [above] at able
    cases able
  | some upper =>
    obtain ⟨oldIndex, found, stands⟩ := wellFormed.exists_siblingIndex? above
    rw [above, found] at able
    obtain ⟨field, asked, able⟩ := Question.bind_eq_ok_iff.mp able
    have stored := field_eq_ok_iff.mp asked
    rw [← children_of_get? stored] at able
    obtain ⟨free, able⟩ := Question.guard_eq_ok_iff.mp able
    obtain ⟨room, same⟩ := Question.guard_eq_ok_iff.mp able
    cases same
    rw [Bool.or_eq_true, decide_eq_true_iff, wellFormed.isAncestor_iff, not_or] at free
    refine ⟨stands, contains_of_get? stored,
      fun under => under.eq_or_beneath.elim free.1 free.2, ?_⟩
    -- the field is among the children of its parent, so that list is not empty
    have filled : parent = upper → (form.children parent).length ≠ 0 := by
      rintro rfl
      exact Nat.ne_of_gt (List.length_pos_of_mem (wellFormed.mem_children above))
    by_contra tooFar
    refine room ?_
    have notLost : (decide (parent = upper) && decide ((form.children parent).length = 0)) =
        false := by
      rw [Bool.and_eq_false_iff, decide_eq_false_iff_not, decide_eq_false_iff_not]
      exact Decidable.not_or_of_imp filled
    rw [notLost, Bool.not_false, Bool.and_true, decide_eq_true_iff]
    exact Nat.not_le.mp tooFar

/-- A field that is moved leaves a well-formed form, under its parent and under another. -/
theorem WellFormed.wellFormed_relinked (wellFormed : form.WellFormed)
    (able : form.relinkable id parent index = .ok place) :
    (form.relinked id place parent index).WellFormed := by
  obtain ⟨stands, stored, free, room⟩ := wellFormed.of_relinkable able
  obtain ⟨inside, here⟩ := List.getElem?_eq_some_iff.mp stands
  by_cases same : parent = place.parent
  · subst same
    rw [if_pos rfl] at room
    rw [wellFormed.relinked_eq_relisted stands]
    have erased : (id :: (form.children place.parent).eraseIdx place.index).Perm
        (form.children place.parent) := here ▸ List.getElem_cons_eraseIdx_perm inside
    have bound : index ≤ ((form.children place.parent).eraseIdx place.index).length := by
      rw [List.length_eraseIdx_of_lt inside]
      exact room
    exact wellFormed.wellFormed_relisted stored ((List.perm_insertIdx id _ bound).trans erased)
  · rw [if_neg same] at room
    let list := form.children place.parent
    have transfer : form.Transfer [id] place.parent (list.take place.index)
        (list.drop (place.index + 1)) parent ((form.children parent).take index)
        ((form.children parent).drop index) :=
      { source_list := by
          have split := List.take_append_drop place.index list
          rw [List.drop_eq_getElem_cons inside, here] at split
          exact split.symm
        target_list := (List.take_append_drop _ _).symm
        source_stored := wellFormed.contains_parent (wellFormed.parent?_of_standsAt stands)
        target_stored := stored
        apart := Ne.symm same
        free := fun key listed => List.mem_singleton.mp listed ▸ free }
    have moved := transfer.relinked_eq
    rw [List.length_take, List.length_take, Nat.min_eq_left (Nat.le_of_lt inside),
      Nat.min_eq_left room] at moved
    rw [moved]
    exact transfer.wellFormed_transferred wellFormed

theorem keeps_relink : (relink id parent index).Keeps WellFormed :=
  .ask_bind fun _ _ wellFormed asked => wellFormed.wellFormed_relinked asked

/-! ## Edits one after the other -/

theorem keeps_relinkAll : (relinkAll parent index ids).Keeps WellFormed := by
  induction ids generalizing index with
  | nil => exact .pure _
  | cons id ids ih => exact .bind keeps_relink fun _ => ih

theorem keeps_detachAll : (detachAll ids).Keeps WellFormed := by
  induction ids with
  | nil => exact .pure _
  | cons id ids ih => exact .bind keeps_detach fun _ => .bind ih fun _ => .pure _

/-! ## Edits of several fields -/

theorem keeps_insertNew {field : Field} : (insertNew parent index field).Keeps WellFormed :=
  .bind (.ask _) fun _ => .bind (keeps_attach (Branch.whole_single field)) fun _ => .pure _

theorem keeps_deleteFields : (deleteFields ids).Keeps WellFormed :=
  .bind (.ask _) fun _ => .bind .get fun _ => keeps_detachAll

theorem keeps_moveUp : (moveUp ids).Keeps WellFormed := by
  refine .bind (.ask _) fun run => ?_
  split
  · exact .pure _
  · refine .bind .get fun state => ?_
    split
    · exact .throw _
    · exact .bind keeps_relink fun _ => .pure _

theorem keeps_moveDown : (moveDown ids).Keeps WellFormed := by
  refine .bind (.ask _) fun run => .bind .get fun state => ?_
  split
  · exact .pure _
  · exact .bind keeps_relink fun _ => .pure _

theorem keeps_promote : (promote ids).Keeps WellFormed := by
  refine .bind (.ask _) fun run => .bind .get fun state => ?_
  split
  · exact .pure _
  · refine .bind .get fun state => ?_
    split
    · exact .throw _
    · exact .bind keeps_relinkAll fun _ => .pure _

theorem keeps_demote : (demote ids).Keeps WellFormed := by
  refine .bind (.ask _) fun run => ?_
  split
  · exact .pure _
  · refine .bind .get fun state => ?_
    split
    · exact .throw _
    · exact .bind .get fun _ => .bind keeps_relinkAll fun _ => .pure _

theorem keeps_moveRun : (moveRun ids place).Keeps WellFormed :=
  .bind (.ask _) fun _ => .bind (.ask _) fun _ => keeps_relinkAll

theorem keeps_duplicate {keepLocks : Bool} {supply : Supply} :
    (duplicate ids keepLocks supply).Keeps WellFormed := by
  refine .bind (.ask _) fun run => .ask_bind fun form copied wellFormed done => ?_
  obtain ⟨copies, rest⟩ := copied
  have whole : ∀ branch ∈ copies.map (Branch.strip · (strippedNames keepLocks)), branch.Whole := by
    intro branch listed
    obtain ⟨copy, member, rfl⟩ := List.mem_map.mp listed
    exact (Branch.whole_of_copyAll done member).strip _
  exact Edit.Keeps.bind (keeps_attachAll whole) (fun _ => .pure _) form wellFormed

theorem keeps_importFields {source : FieldMap} {supply : Supply} :
    (importFields source ids place supply).Keeps WellFormed := by
  refine .bind (.ask _) fun _ => .ask_bind fun form copied wellFormed done => ?_
  obtain ⟨copies, rest⟩ := copied
  exact Edit.Keeps.bind (keeps_attachAll fun _ listed => Branch.whole_of_copyAll done listed)
    (fun _ => .pure _) form wellFormed

end Form

/-! ## Runs of calls -/

/-- A structural edit with its arguments. -/
inductive Call where
  | attach (parent : NodeId) (index : Nat) (branch : Branch)
  | detach (id : NodeId)
  | relink (id parent : NodeId) (index : Nat)
  | insertNew (parent : NodeId) (index : Nat) (field : Field)
  | deleteFields (ids : List NodeId)
  | restoreFields (removals : List Removal)
  | moveUp (ids : List NodeId)
  | moveDown (ids : List NodeId)
  | promote (ids : List NodeId)
  | demote (ids : List NodeId)
  | moveRun (ids : List NodeId) (target : Position)
  | duplicate (ids : List NodeId) (keepLocks : Bool) (supply : Supply)
  | importFields (source : FieldMap) (ids : List NodeId) (target : Position) (supply : Supply)

namespace Call

/-- The edit that a call makes; what it gives back is of no concern here. -/
def perform : Call → Edit Unit
  | .attach parent index branch => Form.attach parent index branch
  | .detach id => discard (Form.detach id)
  | .relink id parent index => Form.relink id parent index
  | .insertNew parent index field => discard (Form.insertNew parent index field)
  | .deleteFields ids => discard (Form.deleteFields ids)
  | .restoreFields removals => discard (Form.restoreFields removals)
  | .moveUp ids => discard (Form.moveUp ids)
  | .moveDown ids => discard (Form.moveDown ids)
  | .promote ids => discard (Form.promote ids)
  | .demote ids => discard (Form.demote ids)
  | .moveRun ids target => Form.moveRun ids target
  | .duplicate ids keepLocks supply => discard (Form.duplicate ids keepLocks supply)
  | .importFields source ids target supply => discard (Form.importFields source ids target supply)

/-- The branches that are handed in with a call were made by the library. -/
def Admitted : Call → Prop
  | .attach _ _ branch => branch.Produced
  | .restoreFields removals => ∀ removal ∈ removals, removal.branch.Produced
  | _ => True

/-- **A call keeps forms well-formed**, whatever becomes of it. -/
theorem Admitted.keeps : ∀ {call : Call}, call.Admitted → call.perform.Keeps Form.WellFormed
  | .attach .., produced => Form.keeps_attach produced.whole
  | .detach _, _ => Form.keeps_detach.discard
  | .relink .., _ => Form.keeps_relink
  | .insertNew .., _ => Form.keeps_insertNew.discard
  | .deleteFields _, _ => Form.keeps_deleteFields.discard
  | .restoreFields _, produced =>
    (Form.keeps_restoreFields fun removal listed => (produced removal listed).whole).discard
  | .moveUp _, _ => Form.keeps_moveUp.discard
  | .moveDown _, _ => Form.keeps_moveDown.discard
  | .promote _, _ => Form.keeps_promote.discard
  | .demote _, _ => Form.keeps_demote.discard
  | .moveRun .., _ => Form.keeps_moveRun
  | .duplicate .., _ => Form.keeps_duplicate.discard
  | .importFields .., _ => Form.keeps_importFields.discard

end Call

namespace Form

variable {form : Form} {calls : List Call}

/-- The form after several calls; a call that is refused counts like any other. -/
def afterCalls (form : Form) (calls : List Call) : Form :=
  calls.foldl (fun form call => call.perform.leaves form) form

theorem WellFormed.afterCalls (wellFormed : form.WellFormed)
    (admitted : ∀ call ∈ calls, call.Admitted) : (form.afterCalls calls).WellFormed := by
  induction calls generalizing form with
  | nil => exact wellFormed
  | cons call calls ih =>
    obtain ⟨here, others⟩ := List.forall_mem_cons.mp admitted
    exact ih (here.keeps form wellFormed) others

/-- **A valid form is valid after every call of a run.** -/
theorem validate_afterCalls (valid : form.validate = .ok ())
    (admitted : ∀ call ∈ calls, call.Admitted) (count : Nat) :
    (form.afterCalls (calls.take count)).validate = .ok () := by
  have wellFormed := validate_eq_ok_iff.mp valid
  exact validate_eq_ok_iff.mpr
    (wellFormed.afterCalls fun call listed => admitted call (List.mem_of_mem_take listed))

/-- A branch is taken out and put back below its neighbour, which was found to be alone; it cannot
be put back twice, and the neighbour cannot go below it. -/
theorem validate_afterCalls_regrafting :
    let form := (Branch.ofOutline ⟨10⟩
      (.node .empty [.node .empty [.node .empty []], .node .empty []])).toForm
    let branch := form.branchAt ⟨11⟩ ⟨⟨10⟩, 0⟩
    let calls : List Call :=
      [.detach ⟨11⟩, .moveUp [⟨13⟩], .attach ⟨13⟩ 0 branch, .attach ⟨13⟩ 0 branch,
        .relink ⟨13⟩ ⟨12⟩ 0]
    (form.afterCalls calls).ancestors ⟨12⟩ = [⟨11⟩, ⟨13⟩, ⟨10⟩] ∧
      (form.afterCalls (calls.take 4)).validate = .ok () := by
  intro form branch calls
  have valid : form.validate = .ok () := by decide +kernel
  have stands : form.StandsAt ⟨11⟩ ⟨⟨10⟩, 0⟩ := by
    show (form.children ⟨10⟩)[0]? = some ⟨11⟩
    decide +kernel
  have produced : branch.Produced :=
    .detached valid ((validate_eq_ok_iff.mp valid).detach_of_standsAt stands)
  have admitted : ∀ call ∈ calls, call.Admitted := by
    simp only [calls, List.forall_mem_cons, List.not_mem_nil, false_imp_iff, implies_true, and_true]
    exact ⟨trivial, trivial, produced, produced, trivial⟩
  exact ⟨by decide +kernel, validate_afterCalls valid admitted 4⟩

end Form

end FormEditor
