import FormEditor.Proofs.Form.Grafting

/-!
# Forms that look alike

Taking an edit back need not restore every detail of a form: highlights are a matter of the
selection, and attributes may come back in another order.  What does come back is what is
*seen* of a form: the links of every field, and what a view shows of its attributes
(`Form.Alike`).  A view may show nothing, so that only links count, or everything.

Whatever is decided by links has one answer for forms that look alike, and an edit made on both of
them leaves forms that look alike.
-/

set_option autoImplicit false

namespace FormEditor

variable {α : Type}

/-- What is seen of a field: its links and what the view shows of its attributes. -/
def Field.seen (view : Attributes → α) (field : Field) :
    NodeId × Option NodeId × List NodeId × α :=
  (field.id, field.parent, field.children, view field.attributes)

namespace Form

variable {view : Attributes → α} {left middle right : Form} {id other parent : NodeId}
  {place : Position} {branch : Branch}

/-- Two forms look alike when they have one root and the same is seen of the field under every
id. -/
def Alike (view : Attributes → α) (left right : Form) : Prop :=
  left.root = right.root ∧
    ∀ id, (left.get? id).map (Field.seen view) = (right.get? id).map (Field.seen view)

namespace Alike

theorem refl (form : Form) : form.Alike view form := ⟨rfl, fun _ => rfl⟩

theorem symm (alike : left.Alike view right) : right.Alike view left :=
  ⟨alike.1.symm, fun id => (alike.2 id).symm⟩

theorem trans (first : left.Alike view middle) (second : middle.Alike view right) :
    left.Alike view right :=
  ⟨first.1.trans second.1, fun id => (first.2 id).trans (second.2 id)⟩

/-- What is alike in every detail of its attributes is alike under any view. -/
theorem of_full (alike : left.Alike (fun bag => bag) right) : left.Alike view right := by
  refine ⟨alike.1, ?_⟩
  intro id
  have same := congrArg
    (Option.map fun (seen : NodeId × Option NodeId × List NodeId × Attributes) =>
      (seen.1, seen.2.1, seen.2.2.1, view seen.2.2.2)) (alike.2 id)
  rw [Option.map_map, Option.map_map] at same
  exact same

/-- The fields under one id are seen alike. -/
theorem exists_get? (alike : left.Alike view right) {field : Field}
    (stored : left.get? id = some field) :
    ∃ field', right.get? id = some field' ∧ field.seen view = field'.seen view := by
  have same := alike.2 id
  rw [stored, Option.map_some, eq_comm, Option.map_eq_some_iff] at same
  obtain ⟨field', stored', seen⟩ := same
  exact ⟨field', stored', seen.symm⟩

/-- Forms that are alike in every detail of their attributes differ at most in highlights. -/
theorem eq_of_isHighlighted (alike : left.Alike (fun bag => bag) right)
    (same : ∀ id, left.isHighlighted id = right.isHighlighted id) : left = right := by
  refine ext_get? alike.1 fun id => ?_
  cases stored : left.get? id with
  | none =>
    have missing := alike.2 id
    rw [stored, Option.map_none, eq_comm, Option.map_eq_none_iff] at missing
    exact missing.symm
  | some field =>
    obtain ⟨field', stored', seen⟩ := alike.exists_get? stored
    have lit := same id
    rw [isHighlighted_of_get? stored, isHighlighted_of_get? stored'] at lit
    simp only [Field.seen, Prod.mk.injEq] at seen
    rw [stored', Option.some.injEq]
    cases field
    cases field'
    simp_all

section Questions

variable (alike : left.Alike view right)
include alike

theorem contains_eq : left.contains id = right.contains id := by
  have same := congrArg Option.isSome (alike.2 id)
  simpa only [Option.isSome_map, contains] using same

theorem children_eq : left.children id = right.children id := by
  have same := congrArg
    (fun seen => ((seen.map fun (parts : NodeId × Option NodeId × List NodeId × α) =>
      parts.2.2.1).getD [])) (alike.2 id)
  simpa only [Option.map_map, children, Function.comp_def, Field.seen] using same

theorem parent?_eq : left.parent? id = right.parent? id := by
  have same := congrArg
    (fun seen => seen.bind fun (parts : NodeId × Option NodeId × List NodeId × α) => parts.2.1)
    (alike.2 id)
  simpa only [Option.bind_map, parent?, Function.comp_def, Field.seen] using same

theorem under (reach : left.Under id other) : right.Under id other := by
  induction reach with
  | here => exact .here
  | step above _ ih => exact .step (alike.parent?_eq ▸ above) ih

theorem standsAt_iff : left.StandsAt id place ↔ right.StandsAt id place := by
  unfold StandsAt
  rw [alike.children_eq]

theorem attachable (able : left.Attachable place branch) : right.Attachable place branch := by
  refine ⟨?_, ?_, fun inside => ?_⟩
  · rw [← alike.contains_eq]
    exact able.parent_stored
  · rw [← alike.children_eq]
    exact able.index_le
  · rw [← alike.contains_eq]
    exact able.apart inside

/-- A form that looks like a well-formed one is well-formed. -/
theorem wellFormed (wellFormed : left.WellFormed) : right.WellFormed := by
  refine
    { root_stored := ?_
      root_top := ?_
      own_id := ?_
      listed_iff := ?_
      nodup := ?_
      reached := ?_ }
  · rw [← alike.1, ← alike.contains_eq]
    exact wellFormed.root_stored
  · rw [← alike.1, ← alike.parent?_eq]
    exact wellFormed.root_top
  · intro key field stored
    obtain ⟨field', stored', seen⟩ := alike.symm.exists_get? stored
    have same : field.id = field'.id := congrArg Prod.fst seen
    rw [same]
    exact wellFormed.own_id stored'
  · intro upper child
    rw [← alike.children_eq, ← alike.parent?_eq]
    exact wellFormed.listed_iff
  · intro upper
    rw [← alike.children_eq]
    exact wellFormed.nodup upper
  · intro key stored
    rw [← alike.contains_eq] at stored
    rw [← alike.1]
    exact alike.under (wellFormed.reached stored)

end Questions

/-! ## Edits of forms that look alike -/

/-- A change that is decided by what is seen of a field keeps forms alike. -/
theorem modifyField {change : Field → Field} (alike : left.Alike view right)
    (decided : ∀ field field' : Field, field.seen view = field'.seen view →
      (change field).seen view = (change field').seen view) :
    (left.modifyField id change).Alike view (right.modifyField id change) := by
  refine ⟨alike.1, ?_⟩
  intro key
  rw [get?_modifyField, get?_modifyField]
  split
  · cases stored : left.get? key with
    | none =>
      have missing := alike.2 key
      rw [stored, Option.map_none, eq_comm, Option.map_eq_none_iff] at missing
      rw [missing]
    | some field =>
      obtain ⟨field', stored', seen⟩ := alike.exists_get? stored
      rw [stored', Option.map_some, Option.map_some, Option.map_some, Option.map_some,
        decided field field' seen]
  · exact alike.2 key

/-- A change that is not seen leaves a form that looks alike. -/
theorem modifyField_left {form : Form} {change : Field → Field}
    (unseen : ∀ field : Field, (change field).seen view = field.seen view) :
    (form.modifyField id change).Alike view form := by
  refine ⟨rfl, ?_⟩
  intro key
  rw [get?_modifyField]
  split
  · rw [Option.map_map]
    exact congrArg (fun seen => (form.get? key).map seen) (funext unseen)
  · rfl

/-- Highlights are not seen. -/
theorem setHighlighted {form : Form} {value : Bool} :
    (form.setHighlighted value id).Alike view form :=
  modifyField_left fun _ => rfl

theorem setAllHighlighted {form : Form} {value : Bool} {ids : List NodeId} :
    (form.setAllHighlighted value ids).Alike view form := by
  induction ids generalizing form with
  | nil => exact refl form
  | cons id ids ih => exact ih.trans setHighlighted

theorem attached {index : Nat} (alike : left.Alike view right) :
    (left.attached parent index branch).Alike view (right.attached parent index branch) := by
  refine ⟨alike.1, ?_⟩
  intro key
  by_cases inside : branch.toForm.contains key
  · -- here both forms hold the field of the branch, and only its parent's list may differ
    obtain ⟨field, stored⟩ := contains_iff.mp inside
    rw [get?_attached, get?_attached, stored]
    rfl
  · rw [get?_attached_of_not_branch inside, get?_attached_of_not_branch inside]
    split
    · rename_i here
      subst here
      let change : Field → Field := fun field =>
        { field with children := field.children.insertIdx index branch.root }
      have grown : (left.modifyField key change).Alike view (right.modifyField key change) := by
        refine alike.modifyField ?_
        intro field field' seen
        simp only [Field.seen, Prod.mk.injEq] at seen ⊢
        obtain ⟨same, parents, listed, shown⟩ := seen
        exact ⟨same, parents, congrArg (List.insertIdx · index branch.root) listed, shown⟩
      have grownHere := grown.2 key
      rwa [get?_modifyField, get?_modifyField, if_pos rfl, if_pos rfl] at grownHere
    · exact alike.2 key

theorem unlisted (alike : left.Alike view right) :
    (left.unlisted place).Alike view (right.unlisted place) := by
  refine alike.modifyField ?_
  intro field field' seen
  simp only [Field.seen, Prod.mk.injEq] at seen ⊢
  obtain ⟨same, parents, listed, shown⟩ := seen
  exact ⟨same, parents, by rw [listed], shown⟩

theorem without (alike : left.Alike view right) (wellFormed : left.WellFormed) :
    (left.without id place).Alike view (right.without id place) := by
  refine ⟨alike.1, ?_⟩
  intro key
  by_cases under : left.Under id key
  · rw [wellFormed.get?_without_of_under under,
      (alike.wellFormed wellFormed).get?_without_of_under (alike.under under)]
  · rw [wellFormed.get?_without_of_not_under under,
      (alike.wellFormed wellFormed).get?_without_of_not_under (fun lower =>
        under (alike.symm.under lower))]
    exact alike.unlisted.2 key

end Alike

end Form

end FormEditor
