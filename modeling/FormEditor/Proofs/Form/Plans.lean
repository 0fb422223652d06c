import FormEditor.Proofs.Form.Removals
import FormEditor.Proofs.Form.Reordering
import Mathlib.Data.List.Count
import Mathlib.Logic.Function.Iterate

/-!
# Carrying plans out

An edit of values carries a plan out for one field after the other, and a field may come up several
times.  What becomes of a field is what the plan makes of it, done over as often as the field comes
up (`Form.get?_amend`).  A change is left out if it would write what is there; so no change is
listed exactly if everything that is planned is there already (`Form.amend_fst_eq_nil_iff`).

An edit of whole subtrees meets every field once, however the subtrees overlap; then the changes of
a field are those that its plan makes in the field as it was (`Form.mem_amend`).
-/

set_option autoImplicit false

namespace FormEditor

variable {form : Form} {id : NodeId} {ids : List NodeId} {field : Field}
  {plan : Field → List Assignment} {change : Change}

/-! ## One field -/

namespace Attributes

variable {bag : Attributes} {assignments : List Assignment}

/-- The bag after assignments, one after the other. -/
def assignAll (bag : Attributes) (assignments : List Assignment) : Attributes :=
  assignments.foldl (fun bag assignment => bag.assign assignment.1 assignment.2) bag

/-- Leaving out what is there already makes no difference to the bag. -/
theorem amendBag_snd : (Form.amendBag id bag assignments).2 = bag.assignAll assignments := by
  induction assignments generalizing bag with
  | nil => rfl
  | cons assignment assignments ih =>
    obtain ⟨name, after⟩ := assignment
    unfold Form.amendBag
    split
    · rename_i found
      show _ = (bag.assign name after).assignAll assignments
      rw [assign_of_get? found]
      exact ih
    · exact ih

theorem amendBag_fst_eq_nil_iff :
    (Form.amendBag id bag assignments).1 = [] ↔
      ∀ assignment ∈ assignments, bag.get? assignment.1 = assignment.2 := by
  induction assignments generalizing bag with
  | nil => exact iff_of_true rfl nofun
  | cons assignment assignments ih =>
    obtain ⟨name, after⟩ := assignment
    rw [List.forall_mem_cons]
    unfold Form.amendBag
    split
    · rename_i found
      exact ih.trans (and_iff_right found).symm
    · rename_i differs
      exact iff_of_false (List.cons_ne_nil _ _) fun all => differs all.1

theorem apart_assignAll {names : List String}
    (named : ∀ assignment ∈ assignments, assignment.1 ∈ names) :
    (bag.assignAll assignments).apart names = bag.apart names := by
  induction assignments generalizing bag with
  | nil => rfl
  | cons assignment assignments ih =>
    obtain ⟨here, later⟩ := List.forall_mem_cons.mp named
    exact (ih later).trans (apart_assign here)

end Attributes

/-- What a plan makes of a field. -/
def Field.amended (plan : Field → List Assignment) (field : Field) : Field :=
  { field with attributes := field.attributes.assignAll (plan field) }

theorem Field.amended_eq_self
    (there : ∀ assignment ∈ plan field, field.attributes.get? assignment.1 = assignment.2) :
    field.amended plan = field := by
  have same : field.attributes.assignAll (plan field) = field.attributes := by
    generalize plan field = assignments at there
    induction assignments with
    | nil => rfl
    | cons assignment assignments ih =>
      obtain ⟨here, later⟩ := List.forall_mem_cons.mp there
      show (field.attributes.assign assignment.1 assignment.2).assignAll assignments = _
      rw [Attributes.assign_of_get? here, ih later]
  show { field with attributes := _ } = field
  rw [same]

namespace Form

/-! ## One field after the other -/

theorem amend_cons_of_missing (missing : form.get? id = none) :
    form.amend plan (id :: ids) = form.amend plan ids := by
  rw [amend, missing]

theorem amend_cons (stored : form.get? id = some field) :
    form.amend plan (id :: ids) =
      ((amendBag id field.attributes (plan field)).1 ++
          ((form.modifyField id (Field.amended plan)).amend plan ids).1,
        ((form.modifyField id (Field.amended plan)).amend plan ids).2) := by
  have same : (form.modifyField id fun found =>
      { found with attributes := (amendBag id field.attributes (plan field)).2 }) =
        form.modifyField id (Field.amended plan) := by
    refine ext_get? rfl fun key => ?_
    rw [get?_modifyField, get?_modifyField]
    split
    · rename_i here
      rw [here, stored, Attributes.amendBag_snd]
      rfl
    · rfl
  rw [← same, amend, stored]

theorem amend_links : (form.amend plan ids).2.Alike (Attributes.shown .links) form := by
  rw [(amend_logs (Prod.eta (form.amend plan ids)).symm).2]
  exact rewritten_links

theorem present_amend {targets : List NodeId} (present : ∀ id ∈ ids, form.contains id) :
    ∀ id ∈ ids, (form.amend plan targets).2.contains id := by
  intro id listed
  rw [amend_links.contains_eq]
  exact present id listed

theorem nodup_subtreeIds : (form.subtreeIds ids).Nodup := nodup_eraseDups

/-- If the given fields are there, so is all that lies at and below them. -/
theorem WellFormed.mem_subtreeIds_of_present (wellFormed : form.WellFormed)
    (present : ∀ id ∈ ids, form.contains id) :
    id ∈ form.subtreeIds ids ↔ ∃ top ∈ ids, form.Under top id := by
  refine wellFormed.mem_subtreeIds.trans (and_iff_right_of_imp ?_)
  rintro ⟨top, listed, under⟩
  exact under.contains (present top listed)

/-- What lies at and below given fields does not depend on attributes. -/
theorem WellFormed.mem_subtreeIds_amend (wellFormed : form.WellFormed) {targets : List NodeId} :
    id ∈ (form.amend plan targets).2.subtreeIds ids ↔ id ∈ form.subtreeIds ids := by
  rw [wellFormed.mem_subtreeIds, (amend_links.symm.wellFormed wellFormed).mem_subtreeIds,
    amend_links.contains_eq]
  exact and_congr_right fun _ => exists_congr fun top => and_congr_right fun _ =>
    ⟨amend_links.under, amend_links.symm.under⟩

/-- **What becomes of a field**: what the plan makes of it, as often as it is listed. -/
theorem get?_amend :
    (form.amend plan ids).2.get? id = (form.get? id).map (Field.amended plan)^[ids.count id] := by
  induction ids generalizing form with
  | nil => exact Option.map_id'.symm
  | cons key ids ih =>
    cases stored : form.get? key with
    | none =>
      rw [amend_cons_of_missing stored, ih]
      by_cases here : key = id
      · rw [← here, stored]
        rfl
      · rw [List.count_cons_of_ne here]
    | some field =>
      rw [amend_cons stored, ih, get?_modifyField]
      by_cases here : key = id
      · rw [if_pos here.symm, Option.map_map, here, List.count_cons_self, Function.iterate_succ]
      · rw [if_neg (Ne.symm here), List.count_cons_of_ne here]

/-- If every field is listed once at most, the plan is carried out once on those that are. -/
theorem get?_amend_of_nodup (nodup : ids.Nodup) :
    (form.amend plan ids).2.get? id =
      (form.get? id).map fun field => if id ∈ ids then field.amended plan else field := by
  rw [get?_amend]
  by_cases listed : id ∈ ids
  · rw [List.count_eq_one_of_mem nodup listed]
    simp only [if_pos listed]
    rfl
  · rw [List.count_eq_zero_of_not_mem listed]
    simp only [if_neg listed]
    rfl

/-- In which order fields come up makes no difference if each is listed once at most. -/
theorem amend_congr {others : List NodeId} (nodup : ids.Nodup) (nodup' : others.Nodup)
    (same : ∀ id, id ∈ ids ↔ id ∈ others) :
    (form.amend plan ids).2 = (form.amend plan others).2 := by
  refine ext_get? (amend_links.1.trans amend_links.1.symm) fun id => ?_
  rw [get?_amend_of_nodup nodup, get?_amend_of_nodup nodup']
  simp only [same]

/-! ## The changes that are listed -/

/-- **No change is listed exactly if everything that is planned is there already.** -/
theorem amend_fst_eq_nil_iff :
    (form.amend plan ids).1 = [] ↔
      ∀ id ∈ ids, ∀ field, form.get? id = some field →
        ∀ assignment ∈ plan field, field.attributes.get? assignment.1 = assignment.2 := by
  induction ids with
  | nil => exact iff_of_true rfl nofun
  | cons key ids ih =>
    rw [List.forall_mem_cons]
    cases stored : form.get? key with
    | none =>
      rw [amend_cons_of_missing stored, ih]
      exact (and_iff_right nofun).symm
    | some field =>
      rw [amend_cons stored, List.append_eq_nil_iff, Attributes.amendBag_fst_eq_nil_iff]
      have unchanged (there : ∀ assignment ∈ plan field,
          field.attributes.get? assignment.1 = assignment.2) :
          form.modifyField key (Field.amended plan) = form := by
        refine ext_get? rfl fun id => ?_
        rw [get?_modifyField]
        split
        · rename_i here
          rw [here, stored, Option.map_some, Field.amended_eq_self there]
        · rfl
      constructor
      · rintro ⟨there, none⟩
        rw [unchanged there] at none
        exact ⟨fun _ found => Option.some.inj found ▸ there, ih.mp none⟩
      · rintro ⟨first, rest⟩
        have there := first field rfl
        rw [unchanged there]
        exact ⟨there, ih.mpr rest⟩

theorem amend_eq_self (none : (form.amend plan ids).1 = []) : (form.amend plan ids).2 = form := by
  rw [(amend_logs (Prod.eta (form.amend plan ids)).symm).2, none]
  rfl

/-- If every field is listed once at most, its changes are those that its plan makes in it. -/
theorem mem_amend (nodup : ids.Nodup) :
    change ∈ (form.amend plan ids).1 ↔
      ∃ id ∈ ids, ∃ field, form.get? id = some field ∧
        change ∈ (amendBag id field.attributes (plan field)).1 := by
  induction ids generalizing form with
  | nil => exact iff_of_false nofun nofun
  | cons key ids ih =>
    obtain ⟨fresh, nodup⟩ := List.nodup_cons.mp nodup
    rw [List.exists_mem_cons_iff]
    cases stored : form.get? key with
    | none =>
      rw [amend_cons_of_missing stored, ih nodup]
      exact (or_iff_right nofun).symm
    | some field =>
      rw [amend_cons stored, List.mem_append, ih nodup]
      refine or_congr ⟨fun made => ⟨field, rfl, made⟩, ?_⟩ ?_
      · rintro ⟨_, found, made⟩
        cases found
        exact made
      · -- what comes later is not touched by what is done first
        refine exists_congr fun id => and_congr_right fun listed => ?_
        have elsewhere : id ≠ key := fun same => fresh (same ▸ listed)
        rw [get?_modifyField, if_neg elsewhere]

/-- A plan with one assignment for a field makes one change of each field that is listed at most. -/
theorem nodes_amend_sublist (single : ∀ field, (plan field).length ≤ 1) :
    ((form.amend plan ids).1.map Change.node).Sublist ids := by
  induction ids generalizing form with
  | nil => exact List.Sublist.refl []
  | cons key ids ih =>
    cases stored : form.get? key with
    | none =>
      rw [amend_cons_of_missing stored]
      exact ih.cons key
    | some field =>
      rw [amend_cons stored, List.map_append]
      have made : ((amendBag key field.attributes (plan field)).1.map Change.node).Sublist
          [key] := by
        match plan field, single field with
        | [], _ => exact List.nil_sublist _
        | [assignment], _ =>
          unfold amendBag
          split
          · exact List.nil_sublist _
          · exact List.Sublist.refl _
      exact made.append ih

end Form

end FormEditor
