import FormEditor.Proofs.Form.Transfers
import FormEditor.Proofs.Form.Values

/-!
# Highlights under edits

Edits carry highlights along without looking at them.  A branch that is taken out takes the
highlights of its fields with it, but for the one on its root, and brings them back when it is put
back.  All other edits leave highlights where they are.

Main statements: `Restorable.isHighlighted_restored` and `WellFormed.isHighlighted_detachAll`.
-/

set_option autoImplicit false

namespace FormEditor.Form

variable {form : Form} {id other parent source target : NodeId} {ids : List NodeId}
  {place : Position} {branch : Branch} {removals : List Removal}

/-! ## Edits that leave highlights where they are -/

theorem isHighlighted_modifyField {change : Field → Field}
    (keeps : ∀ field, (change field).highlighted = field.highlighted) :
    (form.modifyField id change).isHighlighted other = form.isHighlighted other := by
  unfold isHighlighted
  rw [get?_modifyField]
  split
  · cases form.get? other <;> simp [keeps]
  · rfl

theorem isHighlighted_relisted {list : List NodeId} :
    (form.relisted parent list).isHighlighted other = form.isHighlighted other :=
  isHighlighted_modifyField fun _ => rfl

theorem isHighlighted_rewritten {changes : List Change} :
    (form.rewritten changes).isHighlighted other = form.isHighlighted other := by
  induction changes generalizing form with
  | nil => rfl
  | cons change changes ih => exact ih.trans (isHighlighted_modifyField fun _ => rfl)

theorem isHighlighted_transferred {sourceList targetList : List NodeId} :
    (form.transferred ids source sourceList target targetList).isHighlighted other =
      form.isHighlighted other := by
  unfold isHighlighted
  rw [get?_transferred]
  cases form.get? other <;> rfl

/-! ## Branches -/

theorem Attachable.isHighlighted_attached (able : form.Attachable place branch) :
    (form.attached place.parent place.index branch).isHighlighted other ↔
      branch.toForm.isHighlighted other ∨ form.isHighlighted other := by
  cases inside : branch.toForm.get? other with
  | some field =>
    have outside : ¬ form.isHighlighted other := fun lit =>
      able.apart (contains_of_get? inside) (contains_of_isHighlighted lit)
    rw [isHighlighted_of_get? (able.get?_of_branch inside), isHighlighted_of_get? inside,
      or_iff_left outside]
    split <;> rfl
  | none =>
    have outside := not_contains_iff.mpr inside
    have dark : ¬ branch.toForm.isHighlighted other := fun lit =>
      outside (contains_of_isHighlighted lit)
    rw [or_iff_right dark]
    unfold isHighlighted
    rw [get?_attached_of_not_branch outside]
    split
    · cases form.get? other <;> simp
    · rfl

theorem WellFormed.isHighlighted_without (wellFormed : form.WellFormed) :
    (form.without id place).isHighlighted other ↔
      form.isHighlighted other ∧ ¬ form.Under id other := by
  by_cases under : form.Under id other
  · unfold isHighlighted
    rw [wellFormed.get?_without_of_under under]
    simp [under]
  · have kept : (form.unlisted place).isHighlighted other = form.isHighlighted other :=
      isHighlighted_modifyField fun _ => rfl
    rw [and_iff_left under, ← kept]
    unfold isHighlighted
    rw [wellFormed.get?_without_of_not_under under]

/-- A branch takes the highlights strictly below its root with it. -/
theorem WellFormed.isHighlighted_branchAt (wellFormed : form.WellFormed)
    (stands : form.StandsAt id place) :
    (form.branchAt id place).toForm.isHighlighted other ↔
      form.isHighlighted other ∧ form.Beneath id other := by
  by_cases under : form.Under id other
  · have seen := wellFormed.get?_branchAt_of_under stands under
    unfold isHighlighted
    rw [seen]
    by_cases top : other = id
    · have notBeneath : ¬ form.Beneath id other := fun beneath =>
        wellFormed.ne_of_beneath beneath top
      subst top
      cases form.get? other <;> simp [notBeneath]
    · have beneath : form.Beneath id other := under.eq_or_beneath.resolve_left top
      cases form.get? other <;> simp [top, beneath]
  · have notBeneath : ¬ form.Beneath id other := fun beneath => under beneath.under
    unfold isHighlighted
    rw [wellFormed.get?_branchAt_of_not_under under]
    simp [notBeneath]

/-- Branches that are put back bring their highlights back. -/
theorem Restorable.isHighlighted_restored (restorable : form.Restorable removals) :
    (form.restored removals).isHighlighted other ↔
      form.isHighlighted other ∨
        ∃ removal ∈ removals, removal.branch.toForm.isHighlighted other := by
  induction removals with
  | nil => simp [Form.restored]
  | cons removal removals ih =>
    obtain ⟨rest, -, able, -⟩ := restorable
    have step : (form.restored (removal :: removals)).isHighlighted other ↔
        removal.branch.toForm.isHighlighted other ∨
          (form.restored removals).isHighlighted other := able.isHighlighted_attached
    rw [step, ih rest, List.exists_mem_cons_iff]
    exact or_left_comm

/-- **Fields that are taken out take the highlights strictly below them along.** -/
theorem WellFormed.isHighlighted_detachAll (wellFormed : form.WellFormed)
    (removable : form.Removable ids) {after : Form}
    (done : detachAll ids form = .ok removals after) :
    (∀ key : NodeId, after.isHighlighted key ↔
      form.isHighlighted key ∧ ∀ top ∈ ids, ¬ form.Under top key) ∧
    ∀ removal ∈ removals, ∀ key : NodeId, removal.branch.toForm.isHighlighted key ↔
      form.isHighlighted key ∧ form.Beneath removal.id key := by
  induction ids generalizing form removals with
  | nil =>
    cases done
    exact ⟨fun key => by simp, fun removal listed => by cases listed⟩
  | cons id ids ih =>
    obtain ⟨place, stands⟩ := removable.exists_standsAt wellFormed
    have shrunk := wellFormed.wellFormed_without stands
    have rest : (form.without id place).Removable ids := removable.without wellFormed
    obtain ⟨later, last, further, taken⟩ := shrunk.exists_detachAll rest
    cases done.symm.trans (detachAll_cons (wellFormed.detach_of_standsAt stands) further)
    obtain ⟨stays, leaves⟩ := ih shrunk rest further
    have apart := (List.pairwise_cons.mp removable.apart).1
    constructor
    · intro key
      rw [stays key, wellFormed.isHighlighted_without, List.forall_mem_cons]
      constructor
      · rintro ⟨⟨lit, outside⟩, others⟩
        exact ⟨lit, outside, fun top listed under =>
          others top listed ((wellFormed.under_without_iff outside).mpr under)⟩
      · rintro ⟨lit, outside, others⟩
        exact ⟨⟨lit, outside⟩, fun top listed under =>
          others top listed ((wellFormed.under_without_iff outside).mp under)⟩
    · intro removal listed key
      rcases List.mem_cons.mp listed with rfl | listed
      · exact wellFormed.isHighlighted_branchAt stands
      · have named : removal.id ∈ ids := taken.named ▸ List.mem_map_of_mem listed
        rw [leaves removal listed key, wellFormed.isHighlighted_without]
        constructor
        · rintro ⟨⟨lit, outside⟩, parent, above, under⟩
          rw [wellFormed.parent?_without outside] at above
          have parentStays : ¬ form.Under id parent := fun lower => outside (.step above lower)
          exact ⟨lit, parent, above, (wellFormed.under_without_iff parentStays).mp under⟩
        · rintro ⟨lit, beneath⟩
          -- what lies below one of the fields does not lie below another
          have outside : ¬ form.Under id key := fun under =>
            (under.comparable beneath.under).elim (apart _ named).1 (apart _ named).2
          obtain ⟨parent, above, under⟩ := beneath
          have parentStays : ¬ form.Under id parent := fun lower => outside (.step above lower)
          refine ⟨⟨lit, outside⟩, parent, ?_, (wellFormed.under_without_iff parentStays).mpr under⟩
          rw [wellFormed.parent?_without outside, above]

end FormEditor.Form
