import FormEditor.Proofs.Form.WellFormed

/-!
# Attaching branches

A branch is whole when it is a well-formed form of its own (`Branch.Whole`).  It may be attached
where there is a place for it, if the form has none of its fields (`Form.Attachable`).  Inside the
branch and outside it links stay what they were, except where the two are joined.

Main statements: `attach_eq_ok_iff`, and that attaching a whole branch to a well-formed form gives a
well-formed form (`wellFormed_attached`).
-/

set_option autoImplicit false

namespace FormEditor

/-! ## Branches as forms -/

namespace Branch

/-- A branch looked at as a form of its own. -/
def toForm (branch : Branch) : Form := ⟨branch.root, branch.fields⟩

/-- A branch whose links fit together and whose fields all lie at and below its root. -/
def Whole (branch : Branch) : Prop := branch.toForm.WellFormed

theorem ext_get? {left right : Branch} (root : left.root = right.root)
    (fields : ∀ id, left.toForm.get? id = right.toForm.get? id) : left = right := by
  cases left
  cases right
  cases root
  congr
  exact Std.ExtTreeMap.ext_getElem? fields

theorem Whole.root_stored {branch : Branch} (whole : branch.Whole) :
    branch.toForm.contains branch.root :=
  whole.toLinksFit.root_stored

theorem Whole.root_top {branch : Branch} (whole : branch.Whole) :
    branch.toForm.parent? branch.root = none :=
  whole.toLinksFit.root_top

end Branch

namespace Form

variable {form : Form} {branch : Branch} {id other parent : NodeId} {place : Position}

/-! ## Attaching -/

/-- A branch may be attached at a place: there is such a place, and no field of the branch is in
the form yet. -/
structure Attachable (form : Form) (place : Position) (branch : Branch) : Prop where
  parent_stored : form.contains place.parent
  index_le : place.index ≤ (form.children place.parent).length
  apart : ∀ {id : NodeId}, branch.toForm.contains id → ¬ form.contains id

theorem attachable_eq_ok_iff {index : Nat} :
    form.attachable parent index branch = .ok () ↔ form.Attachable ⟨parent, index⟩ branch := by
  unfold attachable
  cases stored : form.get? parent with
  | none =>
    have missing := not_contains_iff.mpr stored
    rw [field_of_not_contains missing, Question.error_bind]
    exact ⟨fun equal => (nomatch equal), fun able => absurd able.parent_stored missing⟩
  | some field =>
    rw [field_of_get? stored, Question.ok_bind, ← children_of_get? stored]
    by_cases tooFar : (form.children parent).length < index
    · rw [if_pos tooFar]
      exact ⟨fun equal => (nomatch equal), fun able => absurd able.index_le (Nat.not_le.mpr tooFar)⟩
    · rw [if_neg tooFar]
      dsimp only
      cases clash : branch.fields.keys.find? form.contains with
      | some key =>
        refine ⟨fun equal => (nomatch equal), ?_⟩
        intro able
        have listed : branch.toForm.contains key :=
          mem_keys_iff.mp (List.mem_of_find?_eq_some clash)
        exact absurd (List.find?_some clash) (able.apart listed)
      | none =>
        refine ⟨fun _ => ⟨contains_of_get? stored, Nat.not_lt.mp tooFar, ?_⟩, fun _ => rfl⟩
        intro key stored'
        exact List.find?_eq_none.mp clash key (mem_keys_iff.mpr stored')

/-- Attaching succeeds exactly at a place where the branch may be attached. -/
theorem attach_eq_ok_iff {index : Nat} {after : Form} :
    attach parent index branch form = .ok () after ↔
      form.Attachable ⟨parent, index⟩ branch ∧ after = form.attached parent index branch := by
  rw [← attachable_eq_ok_iff]
  refine Edit.ask_modify_eq_ok_iff.trans ?_
  exact ⟨fun ⟨_, asked, same⟩ => ⟨asked, same⟩, fun ⟨asked, same⟩ => ⟨(), asked, same⟩⟩

theorem attach_of_attachable {index : Nat} (able : form.Attachable ⟨parent, index⟩ branch) :
    attach parent index branch form = .ok () (form.attached parent index branch) :=
  attach_eq_ok_iff.mpr ⟨able, rfl⟩

/-- An attachment that is refused leaves the form as it is. -/
theorem eq_of_attach_eq_error {index : Nat} {fault : Fault} {after : Form}
    (refused : attach parent index branch form = .error fault after) : after = form :=
  Edit.eq_of_ask_modify_eq_error refused

@[simp] theorem root_attached {index : Nat} :
    (form.attached parent index branch).root = form.root := rfl

theorem get?_attached {index : Nat} :
    (form.attached parent index branch).get? id =
      if id = parent then
        (((branch.toForm.get? id).map fun field =>
            if id = branch.root then { field with parent := some parent } else field).or
          (form.get? id)).map fun field =>
            { field with children := field.children.insertIdx index branch.root }
      else
        ((branch.toForm.get? id).map fun field =>
            if id = branch.root then { field with parent := some parent } else field).or
          (form.get? id) := by
  have grown : ((form.fields ∪ branch.fields.modify branch.root fun field =>
      { field with parent := some parent } : FieldMap))[id]? =
      ((branch.toForm.get? id).map fun field =>
        if id = branch.root then { field with parent := some parent } else field).or
          (form.get? id) := by
    rw [Std.ExtTreeMap.getElem?_union, FieldMap.getElem?_modify]
    by_cases top : id = branch.root
    · simp only [top, if_true]
      rfl
    · simp only [if_neg top, Option.map_id']
      rfl
  show (Std.ExtTreeMap.modify _ parent _)[id]? = _
  rw [FieldMap.getElem?_modify, grown]

theorem get?_attached_of_not_branch {index : Nat} (outside : ¬ branch.toForm.contains id) :
    (form.attached parent index branch).get? id =
      if id = parent then
        (form.get? id).map fun field =>
          { field with children := field.children.insertIdx index branch.root }
      else form.get? id := by
  rw [get?_attached, not_contains_iff.mp outside]
  rfl

theorem parent?_attached_of_not_branch {index : Nat} (outside : ¬ branch.toForm.contains id) :
    (form.attached parent index branch).parent? id = form.parent? id := by
  unfold parent?
  rw [get?_attached_of_not_branch outside]
  split
  · cases form.get? id <;> rfl
  · rfl

theorem children_attached_of_not_branch {index : Nat} (outside : ¬ branch.toForm.contains id)
    (elsewhere : id ≠ parent) :
    (form.attached parent index branch).children id = form.children id := by
  unfold children
  rw [get?_attached_of_not_branch outside, if_neg elsewhere]

namespace Attachable

variable (able : form.Attachable place branch)
include able

theorem not_contains_parent : ¬ branch.toForm.contains place.parent :=
  fun stored => able.apart stored able.parent_stored

theorem get?_of_branch {field : Field} (stored : branch.toForm.get? id = some field) :
    (form.attached place.parent place.index branch).get? id =
      some (if id = branch.root then { field with parent := some place.parent } else field) := by
  have inside := contains_of_get? stored
  have apart : id ≠ place.parent := fun same => able.not_contains_parent (same ▸ inside)
  rw [get?_attached, if_neg apart, stored]
  rfl

theorem contains_attached :
    (form.attached place.parent place.index branch).contains id ↔
      branch.toForm.contains id ∨ form.contains id := by
  by_cases inside : branch.toForm.contains id
  · obtain ⟨field, stored⟩ := contains_iff.mp inside
    exact iff_of_true (contains_of_get? (able.get?_of_branch stored)) (.inl inside)
  · simp only [inside, Bool.false_eq_true, false_or]
    unfold contains
    rw [get?_attached_of_not_branch inside]
    split <;> simp

theorem parent?_root (rootStored : branch.toForm.contains branch.root) :
    (form.attached place.parent place.index branch).parent? branch.root = some place.parent := by
  obtain ⟨field, stored⟩ := contains_iff.mp rootStored
  rw [parent?_of_get? (able.get?_of_branch stored), if_pos rfl]

theorem parent?_of_branch (inside : branch.toForm.contains id) (inner : id ≠ branch.root) :
    (form.attached place.parent place.index branch).parent? id = branch.toForm.parent? id := by
  obtain ⟨field, stored⟩ := contains_iff.mp inside
  rw [parent?_of_get? (able.get?_of_branch stored), if_neg inner, parent?_of_get? stored]

theorem children_of_branch (inside : branch.toForm.contains id) :
    (form.attached place.parent place.index branch).children id = branch.toForm.children id := by
  obtain ⟨field, stored⟩ := contains_iff.mp inside
  rw [children_of_get? (able.get?_of_branch stored), children_of_get? stored]
  split <;> rfl

theorem children_parent :
    (form.attached place.parent place.index branch).children place.parent =
      (form.children place.parent).insertIdx place.index branch.root := by
  obtain ⟨field, stored⟩ := contains_iff.mp able.parent_stored
  unfold children
  rw [get?_attached_of_not_branch able.not_contains_parent, if_pos rfl, stored]
  rfl

/-- What lies at and below the root of an attached branch is the branch. -/
theorem under_root_iff (wellFormed : form.WellFormed) (whole : branch.Whole)
    (stored : (form.attached place.parent place.index branch).contains id) :
    (form.attached place.parent place.index branch).Under branch.root id ↔
      branch.toForm.contains id := by
  constructor
  · intro under
    induction under with
    | here => exact whole.root_stored
    | @step id parent above _ ih =>
      by_cases inside : branch.toForm.contains id
      · exact inside
      · rw [parent?_attached_of_not_branch inside] at above
        have parentStored := wellFormed.contains_parent above
        exact absurd parentStored (able.apart (ih (able.contains_attached.mpr (.inr parentStored))))
  · intro inside
    have reach := whole.reached inside
    have lift : ∀ {id}, branch.toForm.Under branch.root id →
        (form.attached place.parent place.index branch).Under branch.root id := by
      intro id under
      induction under with
      | here => exact .here
      | @step id parent above _ ih =>
        have inner : id ≠ branch.root := fun same => by
          rw [same, whole.root_top] at above
          cases above
        refine .step ?_ ih
        rw [able.parent?_of_branch (contains_of_parent? above) inner, above]
    exact lift reach

/-- Nothing changes above the fields that were there before. -/
theorem under_iff (wellFormed : form.WellFormed) (stored : form.contains id) :
    (form.attached place.parent place.index branch).Under other id ↔ form.Under other id := by
  have outside : ∀ {id}, form.contains id → ¬ branch.toForm.contains id :=
    fun stored inside => able.apart inside stored
  constructor
  · intro under
    induction under with
    | here => exact .here
    | @step id parent above _ ih =>
      rw [parent?_attached_of_not_branch (outside stored)] at above
      exact .step above (ih (wellFormed.contains_parent above))
  · intro under
    induction under with
    | here => exact .here
    | @step id parent above _ ih =>
      refine .step ?_ (ih (wellFormed.contains_parent above))
      rw [parent?_attached_of_not_branch (outside stored), above]

theorem own_id_attached (wellFormed : form.WellFormed) (whole : branch.Whole) {field : Field}
    (stored : (form.attached place.parent place.index branch).get? id = some field) :
    field.id = id := by
  cases inBranch : branch.toForm.get? id with
  | some grown =>
    have own := whole.toLinksFit.own_id inBranch
    rw [able.get?_of_branch inBranch, Option.some.injEq] at stored
    rw [← stored]
    split <;> exact own
  | none =>
    rw [get?_attached_of_not_branch (not_contains_iff.mpr inBranch)] at stored
    split at stored
    · obtain ⟨kept, found, changed⟩ := Option.map_eq_some_iff.mp stored
      have own : kept.id = id := wellFormed.own_id found
      rw [← changed]
      exact own
    · exact wellFormed.own_id stored

/-- Inside the branch, links agree as they did. -/
theorem listed_iff_of_branch (wellFormed : form.WellFormed) (whole : branch.Whole)
    {upper child : NodeId} (inside : branch.toForm.contains upper) :
    child ∈ (form.attached place.parent place.index branch).children upper ↔
      (form.attached place.parent place.index branch).parent? child = some upper := by
  have apart : upper ≠ place.parent := fun same => able.not_contains_parent (same ▸ inside)
  rw [able.children_of_branch inside]
  by_cases top : child = branch.root
  · subst top
    rw [able.parent?_root whole.root_stored, whole.toLinksFit.listed_iff, whole.root_top,
      Option.some.injEq]
    exact iff_of_false (fun equal => (nomatch equal)) (Ne.symm apart)
  · rw [whole.toLinksFit.listed_iff]
    by_cases childInside : branch.toForm.contains child
    · rw [able.parent?_of_branch childInside top]
    · rw [parent?_attached_of_not_branch childInside, parent?_of_not_contains childInside]
      refine iff_of_false (fun equal => (nomatch equal)) ?_
      intro above
      exact able.apart inside (wellFormed.contains_parent above)

/-- A child of a field of the form is the branch's root, or it was its child before. -/
theorem parent?_attached_iff (whole : branch.Whole) {upper child : NodeId}
    (outside : ¬ branch.toForm.contains upper) (inner : child ≠ branch.root) :
    (form.attached place.parent place.index branch).parent? child = some upper ↔
      form.parent? child = some upper := by
  by_cases inside : branch.toForm.contains child
  · rw [able.parent?_of_branch inside inner]
    exact iff_of_false (fun above => outside (whole.toLinksFit.contains_parent above))
      fun above => able.apart inside (contains_of_parent? above)
  · rw [parent?_attached_of_not_branch inside]

/-- Outside the branch, links agree too. -/
theorem listed_iff_of_not_branch (wellFormed : form.WellFormed) (whole : branch.Whole)
    {upper child : NodeId} (outside : ¬ branch.toForm.contains upper) :
    child ∈ (form.attached place.parent place.index branch).children upper ↔
      (form.attached place.parent place.index branch).parent? child = some upper := by
  have fresh : branch.root ∉ form.children upper := fun listed =>
    able.apart whole.root_stored (wellFormed.contains_child listed)
  by_cases here : upper = place.parent
  · subst here
    rw [able.children_parent, List.mem_insertIdx able.index_le]
    by_cases top : child = branch.root
    · rw [top, able.parent?_root whole.root_stored]
      exact iff_of_true (.inl rfl) rfl
    · rw [able.parent?_attached_iff whole outside top, wellFormed.listed_iff]
      exact or_iff_right top
  · rw [children_attached_of_not_branch outside here]
    by_cases top : child = branch.root
    · rw [top, able.parent?_root whole.root_stored, Option.some.injEq]
      exact iff_of_false fresh (Ne.symm here)
    · rw [able.parent?_attached_iff whole outside top, wellFormed.listed_iff]

theorem nodup_attached (wellFormed : form.WellFormed) (whole : branch.Whole) (upper : NodeId) :
    ((form.attached place.parent place.index branch).children upper).Nodup := by
  by_cases upperInside : branch.toForm.contains upper
  · rw [able.children_of_branch upperInside]
    exact whole.toLinksFit.nodup upper
  · by_cases here : upper = place.parent
    · rw [here, able.children_parent]
      have fresh : branch.root ∉ form.children place.parent := fun listed =>
        able.apart whole.root_stored (wellFormed.contains_child listed)
      have shuffled := List.perm_insertIdx branch.root (form.children place.parent) able.index_le
      exact (List.nodup_cons.mpr ⟨fresh, wellFormed.nodup _⟩).perm shuffled.symm
    · rw [children_attached_of_not_branch upperInside here]
      exact wellFormed.nodup upper

/-- Attaching a whole branch to a well-formed form gives a well-formed form. -/
theorem wellFormed_attached (wellFormed : form.WellFormed) (whole : branch.Whole) :
    (form.attached place.parent place.index branch).WellFormed := by
  have rootOutside : ¬ branch.toForm.contains form.root :=
    fun inside => able.apart inside wellFormed.root_stored
  refine
    { root_stored := able.contains_attached.mpr (.inr wellFormed.root_stored)
      root_top := ?_
      own_id := able.own_id_attached wellFormed whole
      listed_iff := ?_
      nodup := able.nodup_attached wellFormed whole
      reached := ?_ }
  · rw [root_attached, parent?_attached_of_not_branch rootOutside, wellFormed.root_top]
  · intro upper child
    by_cases inside : branch.toForm.contains upper
    · exact able.listed_iff_of_branch wellFormed whole inside
    · exact able.listed_iff_of_not_branch wellFormed whole inside
  · intro id stored
    have rootReaches : (form.attached place.parent place.index branch).Under form.root
        place.parent :=
      (able.under_iff wellFormed able.parent_stored).mpr (wellFormed.reached able.parent_stored)
    rcases able.contains_attached.mp stored with inside | stayed
    · have upper : (form.attached place.parent place.index branch).Under form.root branch.root :=
        .step (able.parent?_root whole.root_stored) rootReaches
      exact upper.trans ((able.under_root_iff wellFormed whole stored).mpr inside)
    · exact (able.under_iff wellFormed stayed).mpr (wellFormed.reached stayed)

end Attachable

end Form

end FormEditor
