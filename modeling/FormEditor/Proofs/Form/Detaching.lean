import FormEditor.Proofs.Form.Attaching

/-!
# Detaching fields

A field that stands at a place (`Form.StandsAt`) is detached with all that lies below it.  The
fields at and below it go into the branch, and all others stay, with the links that they had; only
the parent loses a child, and the root of the branch loses its parent and its highlight.

Main statements: `detach_eq_ok_iff`, and that detaching a field of a well-formed form leaves a
well-formed form (`wellFormed_without`) and gives a whole branch (`whole_branchAt`).
-/

set_option autoImplicit false

namespace FormEditor.Form

variable {form : Form} {branch : Branch} {id other parent : NodeId} {place : Position}

/-- A field stands at a place when the parent there lists it at that index. -/
def StandsAt (form : Form) (id : NodeId) (place : Position) : Prop :=
  (form.children place.parent)[place.index]? = some id

theorem StandsAt.listed (stands : form.StandsAt id place) : id ∈ form.children place.parent :=
  List.mem_of_getElem? stands

theorem LinksFit.parent?_of_standsAt (fits : form.LinksFit) (stands : form.StandsAt id place) :
    form.parent? id = some place.parent :=
  fits.parent?_eq stands.listed

/-- In a well-formed form every field but the root stands somewhere. -/
theorem WellFormed.exists_standsAt (wellFormed : form.WellFormed) (stored : form.contains id)
    (inner : id ≠ form.root) : ∃ place, form.StandsAt id place := by
  obtain ⟨parent, above⟩ := wellFormed.exists_parent stored inner
  obtain ⟨index, -, here⟩ := wellFormed.exists_siblingIndex? above
  exact ⟨⟨parent, index⟩, here⟩

/-- A field may be detached from the place where it stands, and from no other. -/
theorem LinksFit.detachable_eq_ok_iff (fits : form.LinksFit) :
    form.detachable id = .ok place ↔ form.StandsAt id place := by
  unfold detachable
  constructor
  · intro asked
    split at asked
    · cases asked
    · cases above : form.parent? id with
      | none => simp [above] at asked
      | some parent =>
        obtain ⟨index, found, here⟩ := fits.exists_siblingIndex? above
        simp only [above, found, Except.ok.injEq] at asked
        rw [← asked]
        exact here
  · intro stands
    have above := fits.parent?_of_standsAt stands
    rw [if_neg (fits.ne_root above), above, fits.siblingIndex?_eq stands]

theorem LinksFit.detach_of_standsAt (fits : form.LinksFit) (stands : form.StandsAt id place) :
    detach id form = .ok (place, form.branchAt id place) (form.without id place) := by
  unfold detach
  rw [Edit.ask_bind, fits.detachable_eq_ok_iff.mpr stands]
  rfl

theorem LinksFit.detach_eq_ok_iff (fits : form.LinksFit) {after : Form} :
    detach id form = .ok (place, branch) after ↔
      form.StandsAt id place ∧ branch = form.branchAt id place ∧ after = form.without id place := by
  constructor
  · intro done
    unfold detach at done
    rw [Edit.ask_bind] at done
    cases asked : form.detachable id with
    | error fault =>
      rw [asked] at done
      cases done
    | ok found =>
      rw [asked] at done
      cases done
      exact ⟨fits.detachable_eq_ok_iff.mp asked, rfl, rfl⟩
  · rintro ⟨stands, rfl, rfl⟩
    exact fits.detach_of_standsAt stands

@[simp] theorem root_without : (form.without id place).root = form.root := rfl

theorem get?_unlisted :
    (form.unlisted place).get? other =
      if other = place.parent then
        (form.get? other).map fun field =>
          { field with children := field.children.eraseIdx place.index }
      else form.get? other :=
  get?_modifyField

@[simp] theorem contains_unlisted : (form.unlisted place).contains other = form.contains other :=
  contains_modifyField

theorem contains_of_get?_unlisted {field : Field}
    (stored : (form.unlisted place).get? other = some field) : form.contains other :=
  contains_unlisted.symm.trans (contains_of_get? stored)

namespace WellFormed

variable (wellFormed : form.WellFormed) (stands : form.StandsAt id place)

include wellFormed in
/-- Among the stored fields, the ids that the walk down from `id` meets are those under `id`. -/
theorem descendants_contains_iff (stored : form.contains other) :
    (((form.descendants id).map Field.id).contains other = true) ↔ form.Under id other := by
  rw [List.contains_iff_mem, wellFormed.mem_descendants_ids]
  exact ⟨And.right, fun under => ⟨stored, under⟩⟩

include wellFormed stands

theorem not_under_parent : ¬ form.Under id place.parent :=
  wellFormed.not_under_of_listed stands.listed

omit stands in
theorem get?_without_of_under (under : form.Under id other) :
    (form.without id place).get? other = none := by
  show (Std.ExtTreeMap.filter _ (form.unlisted place).fields)[other]? = none
  rw [Std.ExtTreeMap.getElem?_filter']
  cases stored : (form.unlisted place).fields[other]? with
  | none => rfl
  | some field =>
    have inside : form.contains other := contains_of_get?_unlisted stored
    have met := (wellFormed.descendants_contains_iff inside).mpr under
    rw [Option.filter_some, met]
    rfl

omit stands in
theorem get?_without_of_not_under (outside : ¬ form.Under id other) :
    (form.without id place).get? other = (form.unlisted place).get? other := by
  show (Std.ExtTreeMap.filter _ (form.unlisted place).fields)[other]? = _
  rw [Std.ExtTreeMap.getElem?_filter']
  cases stored : (form.unlisted place).fields[other]? with
  | none => exact stored.symm
  | some field =>
    have inside : form.contains other := contains_of_get?_unlisted stored
    have missed : ((form.descendants id).map Field.id).contains other = false :=
      Bool.eq_false_iff.mpr fun met => outside ((wellFormed.descendants_contains_iff inside).mp met)
    rw [Option.filter_some, missed]
    exact stored.symm

theorem get?_branchAt_of_under (under : form.Under id other) :
    (form.branchAt id place).toForm.get? other =
      (form.get? other).map fun field =>
        if other = id then { field with parent := none, highlighted := false } else field := by
  have apart : other ≠ place.parent := fun same => wellFormed.not_under_parent stands (same ▸ under)
  have kept : (form.unlisted place).fields[other]? = form.get? other :=
    get?_unlisted.trans (if_neg apart)
  show (Std.ExtTreeMap.modify
    (Std.ExtTreeMap.filter _ (form.unlisted place).fields) id _)[other]? = _
  rw [FieldMap.getElem?_modify, Std.ExtTreeMap.getElem?_filter', kept]
  cases stored : form.get? other with
  | none => simp
  | some field =>
    have met := (wellFormed.descendants_contains_iff (contains_of_get? stored)).mpr under
    rw [Option.filter_some, met]
    by_cases top : other = id <;> simp [top]

omit stands in
theorem get?_branchAt_of_not_under (outside : ¬ form.Under id other) :
    (form.branchAt id place).toForm.get? other = none := by
  have top : other ≠ id := fun same => outside (same ▸ .here)
  show (Std.ExtTreeMap.modify
    (Std.ExtTreeMap.filter _ (form.unlisted place).fields) id _)[other]? = _
  rw [FieldMap.getElem?_modify, if_neg top, Std.ExtTreeMap.getElem?_filter']
  cases stored : (form.unlisted place).fields[other]? with
  | none => rfl
  | some field =>
    have inside : form.contains other := contains_of_get?_unlisted stored
    have missed : ((form.descendants id).map Field.id).contains other = false :=
      Bool.eq_false_iff.mpr fun met => outside ((wellFormed.descendants_contains_iff inside).mp met)
    rw [Option.filter_some, missed]
    rfl

omit stands in
theorem contains_without :
    (form.without id place).contains other ↔ form.contains other ∧ ¬ form.Under id other := by
  by_cases under : form.Under id other
  · rw [← not_iff_not, not_contains_iff, wellFormed.get?_without_of_under under]
    simp [under]
  · have kept : (form.unlisted place).contains other = form.contains other := contains_modifyField
    rw [← kept]
    unfold contains
    rw [wellFormed.get?_without_of_not_under under]
    simp [under]

theorem contains_branchAt :
    (form.branchAt id place).toForm.contains other ↔ form.contains other ∧ form.Under id other := by
  by_cases under : form.Under id other
  · unfold contains
    rw [wellFormed.get?_branchAt_of_under stands under]
    simp [under]
  · rw [← not_iff_not, not_contains_iff, wellFormed.get?_branchAt_of_not_under under]
    simp [under]

omit stands in
theorem parent?_without (outside : ¬ form.Under id other) :
    (form.without id place).parent? other = form.parent? other := by
  have kept : (form.unlisted place).parent? other = form.parent? other :=
    parent?_modifyField fun _ => rfl
  rw [← kept]
  unfold parent?
  rw [wellFormed.get?_without_of_not_under outside]

omit stands in
theorem children_without (outside : ¬ form.Under id other) :
    (form.without id place).children other =
      if other = place.parent then (form.children other).eraseIdx place.index
      else form.children other := by
  unfold children
  rw [wellFormed.get?_without_of_not_under outside, get?_unlisted]
  split
  · cases form.get? other <;> rfl
  · rfl

theorem parent?_branchAt (under : form.Under id other) (inner : other ≠ id) :
    (form.branchAt id place).toForm.parent? other = form.parent? other := by
  unfold parent?
  rw [wellFormed.get?_branchAt_of_under stands under]
  simp only [if_neg inner, Option.map_id']

theorem parent?_branchAt_root : (form.branchAt id place).toForm.parent? id = none := by
  unfold parent?
  rw [wellFormed.get?_branchAt_of_under stands .here]
  cases form.get? id <;> simp

theorem children_branchAt (under : form.Under id other) :
    (form.branchAt id place).toForm.children other = form.children other := by
  unfold children
  rw [wellFormed.get?_branchAt_of_under stands under]
  by_cases top : other = id
  · simp only [if_pos top]
    cases form.get? other <;> rfl
  · simp only [if_neg top, Option.map_id']

/-- The parent at the place lists what it listed before, but for the field that stood there. -/
theorem mem_eraseIdx_iff :
    other ∈ (form.children place.parent).eraseIdx place.index ↔
      other ∈ form.children place.parent ∧ other ≠ id := by
  obtain ⟨inside, here⟩ := List.getElem?_eq_some_iff.mp stands
  have distinct := wellFormed.nodup place.parent
  have rebuilt := List.insertIdx_eraseIdx_getElem inside
  have room : place.index ≤ ((form.children place.parent).eraseIdx place.index).length := by
    rw [List.length_eraseIdx_of_lt inside]
    omega
  have shuffled := List.perm_insertIdx (form.children place.parent)[place.index]
    ((form.children place.parent).eraseIdx place.index) room
  rw [rebuilt, here] at shuffled
  rw [shuffled.mem_iff, List.mem_cons]
  have gone : id ∉ (form.children place.parent).eraseIdx place.index :=
    (List.nodup_cons.mp (shuffled.nodup_iff.mp distinct)).1
  constructor
  · exact fun stays => ⟨.inr stays, fun same => gone (same ▸ stays)⟩
  · rintro ⟨same | stays, different⟩
    · exact absurd same different
    · exact stays

omit stands in
theorem own_id_without {field : Field} (stored : (form.without id place).get? other = some field) :
    field.id = other := by
  by_cases under : form.Under id other
  · rw [wellFormed.get?_without_of_under under] at stored
    cases stored
  · rw [wellFormed.get?_without_of_not_under under, get?_unlisted] at stored
    split at stored
    · obtain ⟨kept, found, changed⟩ := Option.map_eq_some_iff.mp stored
      have own : kept.id = other := wellFormed.own_id found
      rw [← changed]
      exact own
    · exact wellFormed.own_id stored

/-- Links agree among the fields that stay, and name none that is gone. -/
theorem listed_iff_without {upper child : NodeId} :
    child ∈ (form.without id place).children upper ↔
      (form.without id place).parent? child = some upper := by
  have above := wellFormed.parent?_of_standsAt stands
  by_cases upperGone : form.Under id upper
  · have childless : (form.without id place).children upper = [] := by
      refine children_of_not_contains ?_
      intro stored
      exact (wellFormed.contains_without.mp stored).2 upperGone
    rw [childless]
    refine iff_of_false List.not_mem_nil ?_
    intro above'
    have childStays := (wellFormed.contains_without.mp (contains_of_parent? above')).2
    rw [wellFormed.parent?_without childStays] at above'
    exact childStays (.step above' upperGone)
  · rw [wellFormed.children_without upperGone]
    by_cases childGone : form.Under id child
    · have orphan : (form.without id place).parent? child = none :=
        parent?_of_not_contains fun stored => (wellFormed.contains_without.mp stored).2 childGone
      rw [orphan]
      refine iff_of_false (fun listed => ?_) (fun equal => (nomatch equal))
      rcases childGone.eq_or_beneath with same | ⟨parent, above', rest⟩
      · subst same
        split at listed
        · rename_i here
          subst here
          exact ((wellFormed.mem_eraseIdx_iff stands).mp listed).2 rfl
        · rename_i elsewhere
          exact elsewhere (Option.some.inj ((wellFormed.parent?_eq listed).symm.trans above))
      · have listed' : child ∈ form.children upper := by
          split at listed
          · exact List.mem_of_mem_eraseIdx listed
          · exact listed
        obtain rfl : parent = upper :=
          Option.some.inj (above'.symm.trans (wellFormed.parent?_eq listed'))
        exact upperGone rest
    · rw [wellFormed.parent?_without childGone, ← wellFormed.listed_iff]
      split
      · rename_i here
        subst here
        rw [wellFormed.mem_eraseIdx_iff stands]
        exact ⟨And.left, fun listed => ⟨listed, fun same => childGone (same ▸ .here)⟩⟩
      · rfl

omit stands in
/-- Nothing changes above the fields that stay. -/
theorem under_without_iff {top : NodeId} (stays : ¬ form.Under id other) :
    (form.without id place).Under top other ↔ form.Under top other := by
  constructor
  · intro under
    induction under with
    | here => exact .here
    | step above _ ih =>
      rw [wellFormed.parent?_without stays] at above
      exact .step above (ih fun under => stays (.step above under))
  · intro under
    induction under with
    | here => exact .here
    | step above _ ih =>
      refine .step ?_ (ih fun under => stays (.step above under))
      rw [wellFormed.parent?_without stays, above]

/-- Detaching a field of a well-formed form leaves a well-formed form. -/
theorem wellFormed_without : (form.without id place).WellFormed := by
  have above := wellFormed.parent?_of_standsAt stands
  have inner := wellFormed.ne_root above
  have rootStays : ¬ form.Under id form.root := fun under =>
    inner (wellFormed.eq_of_under_of_under
      (wellFormed.reached (contains_of_parent? above)) under)
  refine
    { root_stored := wellFormed.contains_without.mpr ⟨wellFormed.root_stored, rootStays⟩
      root_top := ?_
      own_id := wellFormed.own_id_without
      listed_iff := wellFormed.listed_iff_without stands
      nodup := ?_
      reached := ?_ }
  · rw [root_without, wellFormed.parent?_without rootStays, wellFormed.root_top]
  · intro upper
    by_cases upperGone : form.Under id upper
    · rw [children_of_not_contains fun stored =>
        (wellFormed.contains_without.mp stored).2 upperGone]
      exact List.nodup_nil
    · rw [wellFormed.children_without upperGone]
      split
      · exact (wellFormed.nodup upper).eraseIdx _
      · exact wellFormed.nodup upper
  · intro key stored
    obtain ⟨inside, stays⟩ := wellFormed.contains_without.mp stored
    exact (wellFormed.under_without_iff stays).mpr (wellFormed.reached inside)

theorem own_id_branchAt {field : Field}
    (found : (form.branchAt id place).toForm.get? other = some field) : field.id = other := by
  by_cases under : form.Under id other
  · rw [wellFormed.get?_branchAt_of_under stands under] at found
    obtain ⟨kept, here, changed⟩ := Option.map_eq_some_iff.mp found
    have own : kept.id = other := wellFormed.own_id here
    rw [← changed]
    split <;> exact own
  · rw [wellFormed.get?_branchAt_of_not_under under] at found
    cases found

/-- Links agree in the branch as they did in the form, but for the root, which names no parent. -/
theorem listed_iff_branchAt {upper child : NodeId} :
    child ∈ (form.branchAt id place).toForm.children upper ↔
      (form.branchAt id place).toForm.parent? child = some upper := by
  have above := wellFormed.parent?_of_standsAt stands
  by_cases upperUnder : form.Under id upper
  · rw [wellFormed.children_branchAt stands upperUnder, wellFormed.listed_iff]
    by_cases top : child = id
    · subst top
      rw [wellFormed.parent?_branchAt_root stands, above, Option.some.injEq]
      exact iff_of_false (fun same => wellFormed.not_under_parent stands (same ▸ upperUnder))
        (fun equal => (nomatch equal))
    · by_cases under : form.Under id child
      · rw [wellFormed.parent?_branchAt stands under top]
      · rw [parent?_of_not_contains fun stored =>
          under ((wellFormed.contains_branchAt stands).mp stored).2]
        exact iff_of_false (fun above' => under (.step above' upperUnder))
          (fun equal => (nomatch equal))
  · rw [children_of_not_contains fun stored =>
      upperUnder ((wellFormed.contains_branchAt stands).mp stored).2]
    refine iff_of_false List.not_mem_nil ?_
    intro above'
    have under := ((wellFormed.contains_branchAt stands).mp (contains_of_parent? above')).2
    by_cases top : child = id
    · rw [top, wellFormed.parent?_branchAt_root stands] at above'
      cases above'
    · rw [wellFormed.parent?_branchAt stands under top] at above'
      rcases under.eq_or_beneath with same | ⟨parent, above'', rest⟩
      · exact top same
      · obtain rfl : parent = upper := Option.some.inj (above''.symm.trans above')
        exact upperUnder rest

/-- What is detached from a well-formed form is a whole branch. -/
theorem whole_branchAt : (form.branchAt id place).Whole := by
  have stored := contains_of_parent? (wellFormed.parent?_of_standsAt stands)
  refine
    { root_stored := (wellFormed.contains_branchAt stands).mpr ⟨stored, .here⟩
      root_top := wellFormed.parent?_branchAt_root stands
      own_id := wellFormed.own_id_branchAt stands
      listed_iff := wellFormed.listed_iff_branchAt stands
      nodup := ?_
      reached := ?_ }
  · intro upper
    by_cases upperUnder : form.Under id upper
    · rw [wellFormed.children_branchAt stands upperUnder]
      exact wellFormed.nodup upper
    · rw [children_of_not_contains fun stored =>
        upperUnder ((wellFormed.contains_branchAt stands).mp stored).2]
      exact List.nodup_nil
  · intro key inside
    have lift : ∀ {key}, form.Under id key → (form.branchAt id place).toForm.Under id key := by
      intro key under
      induction under with
      | here => exact .here
      | @step key parent above' rest ih =>
        have inner : key ≠ id := wellFormed.ne_of_beneath ⟨parent, above', rest⟩
        refine .step ?_ ih
        rw [wellFormed.parent?_branchAt stands (.step above' rest) inner, above']
    exact lift ((wellFormed.contains_branchAt stands).mp inside).2

end WellFormed

end FormEditor.Form
