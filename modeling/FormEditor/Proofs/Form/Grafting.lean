import FormEditor.Proofs.Form.Detaching

/-!
# Attaching and detaching as inverses

Main statements: attaching what was detached restores the form but for the highlight of the
branch's root (`attached_without`), and detaching what was attached restores the form exactly
(`without_attached`).
-/

set_option autoImplicit false

namespace FormEditor.Form

variable {form : Form} {branch : Branch} {id : NodeId} {place : Position}

namespace WellFormed

variable (wellFormed : form.WellFormed)
include wellFormed

/-- A branch that was detached may be attached again where it stood. -/
theorem attachable_without (stands : form.StandsAt id place) :
    (form.without id place).Attachable place (form.branchAt id place) := by
  have above := wellFormed.parent?_of_standsAt stands
  have parentStays := wellFormed.not_under_parent stands
  refine ⟨wellFormed.contains_without.mpr ⟨wellFormed.contains_parent above, parentStays⟩, ?_, ?_⟩
  · have inside := (List.getElem?_eq_some_iff.mp stands).1
    rw [wellFormed.children_without parentStays, if_pos rfl, List.length_eraseIdx_of_lt inside]
    omega
  · intro key inside stays
    exact (wellFormed.contains_without.mp stays).2
      ((wellFormed.contains_branchAt stands).mp inside).2

/-- **Attaching what was detached restores the form** but for the highlight of the branch's
root. -/
theorem attached_without (stands : form.StandsAt id place) :
    (form.without id place).attached place.parent place.index (form.branchAt id place) =
      form.setHighlighted false id := by
  have above := wellFormed.parent?_of_standsAt stands
  have parentStays := wellFormed.not_under_parent stands
  have able := wellFormed.attachable_without stands
  refine ext_get? rfl ?_
  intro key
  rw [get?_setHighlighted]
  by_cases under : form.Under id key
  · cases found : form.get? key with
    | none =>
      have missing : ¬ (form.branchAt id place).toForm.contains key := fun inside =>
        not_contains_iff.mpr found ((wellFormed.contains_branchAt stands).mp inside).1
      rw [get?_attached_of_not_branch missing, wellFormed.get?_without_of_under under]
      simp
    | some field =>
      have inBranch := wellFormed.get?_branchAt_of_under stands under
      rw [found] at inBranch
      rw [able.get?_of_branch inBranch]
      have branchRoot : (form.branchAt id place).root = id := rfl
      rw [branchRoot]
      by_cases top : key = id
      · subst top
        have parent := (parent?_of_get? found).symm.trans above
        simp only [if_pos, Option.map_some, ← parent]
      · simp only [if_neg top]
  · have missing : ¬ (form.branchAt id place).toForm.contains key := fun inside =>
      under ((wellFormed.contains_branchAt stands).mp inside).2
    have other : key ≠ id := fun same => under (same ▸ .here)
    rw [get?_attached_of_not_branch missing, wellFormed.get?_without_of_not_under under,
      get?_unlisted, if_neg other]
    split
    · rename_i here
      subst here
      obtain ⟨inside, standing⟩ := List.getElem?_eq_some_iff.mp stands
      cases found : form.get? place.parent with
      | none => rfl
      | some field =>
        have rebuilt := List.insertIdx_eraseIdx_getElem inside
        rw [standing] at rebuilt
        have listed : form.children place.parent = field.children := children_of_get? found
        rw [listed] at rebuilt
        have branchRoot : (form.branchAt id place).root = id := rfl
        simp only [Option.map_some, branchRoot, rebuilt]
    · rfl

variable (whole : branch.Whole) (able : form.Attachable place branch)
include whole able

omit wellFormed whole in
/-- The root of an attached branch stands where the branch was attached. -/
theorem standsAt_attached :
    (form.attached place.parent place.index branch).StandsAt branch.root place := by
  unfold StandsAt
  rw [able.children_parent, List.getElem?_insertIdx_self, if_pos able.index_le]

/-- Detaching what was attached restores the form. -/
theorem without_attached :
    (form.attached place.parent place.index branch).without branch.root place = form := by
  have grown := able.wellFormed_attached wellFormed whole
  have stands := standsAt_attached able
  have under_iff : ∀ key, (form.attached place.parent place.index branch).contains key →
      ((form.attached place.parent place.index branch).Under branch.root key ↔
        branch.toForm.contains key) := fun key => able.under_root_iff wellFormed whole
  refine ext_get? rfl ?_
  intro key
  by_cases inside : branch.toForm.contains key
  · have stored := able.contains_attached.mpr (.inl inside)
    rw [grown.get?_without_of_under ((under_iff key stored).mpr inside)]
    exact (not_contains_iff.mp (able.apart inside)).symm
  · by_cases stored : form.contains key
    · have stays := fun under =>
        inside ((under_iff key (able.contains_attached.mpr (.inr stored))).mp under)
      rw [grown.get?_without_of_not_under stays, get?_unlisted,
        get?_attached_of_not_branch inside]
      split
      · cases form.get? key with
        | none => rfl
        | some field => simp only [Option.map_some, List.eraseIdx_insertIdx_self]
      · rfl
    · have missing : ¬ ((form.attached place.parent place.index branch).without
          branch.root place).contains key := fun kept =>
        (able.contains_attached.mp (grown.contains_without.mp kept).1).elim inside stored
      rw [not_contains_iff.mp missing, not_contains_iff.mp stored]

end WellFormed

end FormEditor.Form
