import FormEditor.Proofs.Form.Stacks

/-!
# What an accepted edit tells

A replay may meet a form that has nothing to do with the one that its command was made for.  If the
edits of which it consists are accepted there all the same, the form must have been fit for them:
branches that were attached could be put back (`restorable_of_attachAll`,
`restorable_of_restoreFields`), and fields that were all taken out lay apart from each other
(`removable_of_topmost`).  The other direction is that of `Restorable` and `Removable`.

An edit that is refused half way leaves some of its branches in the form.  The form is well-formed
even so (`keeps_attachAll`, `keeps_restoreFields`).
-/

set_option autoImplicit false

namespace FormEditor.Form

variable {form after : Form} {place : Position} {branch : Branch} {branches : List Branch}
  {removals : List Removal} {ids : List NodeId} {fault : Fault}

/-- Branches that were attached side by side had a place, and no field in common with each other or
with the form. -/
theorem apart_of_attachAll
    (done : attachAll place.parent place.index branches form = .ok () after) :
    (branches ≠ [] → form.contains place.parent ∧
      place.index ≤ (form.children place.parent).length) ∧
      (∀ branch ∈ branches, ∀ id : NodeId, branch.toForm.contains id → ¬ form.contains id) ∧
        branches.Pairwise fun branch later => ∀ id : NodeId,
          branch.toForm.contains id → ¬ later.toForm.contains id := by
  induction branches generalizing form place with
  | nil => exact ⟨fun filled => absurd rfl filled, by simp, .nil⟩
  | cons branch branches ih =>
    obtain ⟨⟨⟩, middle, first, rest⟩ := Step.bind_eq_ok_iff.mp done
    obtain ⟨able, rfl⟩ := attach_eq_ok_iff.mp first
    have rest : attachAll (Position.mk place.parent (place.index + 1)).parent
      (Position.mk place.parent (place.index + 1)).index branches _ = .ok () after := rest
    obtain ⟨-, outside, apart⟩ := ih rest
    have grown : ∀ {id : NodeId},
        (form.attached place.parent place.index branch).contains id ↔
          branch.toForm.contains id ∨ form.contains id := able.contains_attached
    refine ⟨fun _ => ⟨able.parent_stored, able.index_le⟩, ?_, ?_⟩
    · refine List.forall_mem_cons.mpr ⟨fun id inside => able.apart inside, ?_⟩
      exact fun later listed id inside before =>
        outside later listed id inside (grown.mpr (.inr before))
    · refine .cons (fun later listed id inside again => ?_) apart
      exact outside later listed id again (grown.mpr (.inl inside))

/-- Whole branches that were attached side by side could be put back there. -/
theorem restorable_of_attachAll (filled : branches ≠ [])
    (whole : ∀ branch ∈ branches, branch.Whole)
    (done : attachAll place.parent place.index branches form = .ok () after) :
    form.Restorable (removalsAt place branches) := by
  obtain ⟨there, outside, apart⟩ := apart_of_attachAll done
  obtain ⟨stored, room⟩ := there filled
  exact restorable_of_apart stored room whole outside apart

/-- Whole branches, none of which goes into a branch that is put back before it, could be put back
if they were. -/
theorem restorable_of_restoreFields {restored : List NodeId}
    (whole : ∀ removal ∈ removals, removal.branch.Whole)
    (apart : removals.Pairwise fun removal later =>
      ¬ later.branch.toForm.contains removal.position.parent)
    (done : restoreFields removals form = .ok restored after) : form.Restorable removals := by
  induction removals generalizing restored after with
  | nil => trivial
  | cons removal removals ih =>
    obtain ⟨here, others⟩ := List.forall_mem_cons.mp whole
    obtain ⟨first, rest⟩ := List.pairwise_cons.mp apart
    obtain ⟨names, middle, put, last⟩ := Step.bind_eq_ok_iff.mp done
    have restorable := ih others rest put
    cases put.symm.trans (restoreFields_of_restorable restorable)
    obtain ⟨⟨⟩, final, attached, -⟩ := Step.bind_eq_ok_iff.mp last
    obtain ⟨able, -⟩ := attach_eq_ok_iff.mp attached
    exact ⟨restorable, here, able, first⟩

/-- What is known of removals apart from the form that they go back to. -/
theorem Restorable.pairwise (restorable : form.Restorable removals) :
    removals.Pairwise fun removal later =>
      ¬ later.branch.toForm.contains removal.position.parent := by
  induction removals with
  | nil => exact .nil
  | cons removal removals ih =>
    obtain ⟨rest, -, -, apart⟩ := restorable
    exact .cons apart (ih rest)

/-! ## Halfway -/

theorem keeps_attach {parent : NodeId} {index : Nat} (whole : branch.Whole) :
    (attach parent index branch).Keeps WellFormed := by
  refine .ask_bind fun form answer wellFormed asked => ?_
  exact (attachable_eq_ok_iff.mp asked).wellFormed_attached wellFormed whole

/-- The branches that were attached before one is refused are whole in the form. -/
theorem keeps_attachAll {parent : NodeId} {index : Nat}
    (whole : ∀ branch ∈ branches, branch.Whole) :
    (attachAll parent index branches).Keeps WellFormed := by
  induction branches generalizing index with
  | nil => exact .pure _
  | cons branch branches ih =>
    obtain ⟨here, others⟩ := List.forall_mem_cons.mp whole
    exact .bind (keeps_attach here) fun _ => ih others

/-- The branches that were put back before one is refused are whole in the form. -/
theorem keeps_restoreFields (whole : ∀ removal ∈ removals, removal.branch.Whole) :
    (restoreFields removals).Keeps WellFormed := by
  induction removals with
  | nil => exact .pure _
  | cons removal removals ih =>
    obtain ⟨here, others⟩ := List.forall_mem_cons.mp whole
    exact .bind (ih others) fun _ => .bind (keeps_attach here) fun _ => .pure _

/-! ## Taken out -/

/-- A deletion is refused and changes nothing, or it takes out the topmost of the fields. -/
theorem deleteFields_cases (wellFormed : form.WellFormed) (ids : List NodeId) :
    (∃ fault, deleteFields ids form = .error fault form) ∨
      (∀ id ∈ ids, id ≠ form.root ∧ form.contains id) ∧
        ∃ made after, deleteFields ids form = .ok made after ∧
          form.Taken (form.topmost ids) made after := by
  cases checked : ids.forM form.checkRemovable with
  | error fault =>
    refine .inl ⟨fault, ?_⟩
    unfold deleteFields
    exact Step.bind_of_error (Edit.ask_of_error checked)
  | ok answer =>
    have allowed : ∀ id ∈ ids, id ≠ form.root ∧ form.contains id := fun id listed =>
      checkRemovable_eq_ok_iff.mp (Question.forM_eq_ok_iff.mp checked id listed)
    obtain ⟨made, after, done, taken⟩ :=
      wellFormed.exists_detachAll (wellFormed.removable_topmost allowed)
    exact .inr ⟨allowed, made, after, (deleteFields_eq allowed).trans done, taken⟩

/-- Fields of which none is left out as lying below another lie apart. -/
theorem removable_of_topmost (wellFormed : form.WellFormed) (distinct : ids.Nodup)
    (allowed : ∀ id ∈ ids, id ≠ form.root ∧ form.contains id)
    (all : (form.topmost ids).length = ids.length) : form.Removable ids := by
  have same : form.topmost ids = ids := by
    unfold topmost at all ⊢
    rw [eraseDups_of_nodup distinct] at all ⊢
    exact List.filter_eq_self.mpr (List.length_filter_eq_length_iff.mp all)
  exact same ▸ wellFormed.removable_topmost allowed

end FormEditor.Form
