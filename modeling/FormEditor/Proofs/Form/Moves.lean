import FormEditor.Form.Arrangement
import FormEditor.Proofs.Form.Stacks

/-!
# Moving runs past a sibling

A run that passes a sibling changes the order of one child list (`Form.relisted`).  The move
leaves a well-formed form, and passing the same sibling the other way undoes it.

Main statements: `moveUp_eq` and `moveDown_eq` say which form results, `moveUp_cases` and
`moveDown_cases` that there is no other outcome, and `relisted_relisted` that the way back leads
to the same form.
-/

set_option autoImplicit false

namespace FormEditor.Form

variable {form : Form} {id other top parent : NodeId} {ids : List NodeId}

/-! ## Another order -/

/-- The form in which a field lists other children. -/
def relisted (form : Form) (parent : NodeId) (children : List NodeId) : Form :=
  form.modifyField parent fun field => { field with children }

section Relisted

variable {list further : List NodeId}

theorem get?_relisted :
    (form.relisted parent list).get? other =
      if other = parent then (form.get? other).map fun field => { field with children := list }
      else form.get? other :=
  get?_modifyField

theorem relisted_relisted :
    (form.relisted parent list).relisted parent further = form.relisted parent further := by
  refine ext_get? rfl ?_
  intro key
  rw [get?_relisted, get?_relisted, get?_relisted]
  split
  · rw [Option.map_map]
    rfl
  · rfl

theorem relisted_children : form.relisted parent (form.children parent) = form := by
  refine ext_get? rfl ?_
  intro key
  rw [get?_relisted]
  split
  · rename_i here
    subst here
    cases stored : form.get? key with
    | none => rfl
    | some field => rw [children_of_get? stored, Option.map_some]
  · rfl

@[simp] theorem parent?_relisted : (form.relisted parent list).parent? other = form.parent? other :=
  parent?_modifyField fun _ => rfl

@[simp] theorem contains_relisted :
    (form.relisted parent list).contains other = form.contains other :=
  contains_modifyField

theorem children_relisted (stored : form.contains parent) :
    (form.relisted parent list).children other =
      if other = parent then list else form.children other := by
  unfold children
  rw [get?_relisted]
  split
  · rename_i here
    subst here
    obtain ⟨field, found⟩ := contains_iff.mp stored
    rw [found]
    rfl
  · rfl

theorem under_relisted_iff :
    (form.relisted parent list).Under top other ↔ form.Under top other := by
  constructor
  · intro under
    induction under with
    | here => exact .here
    | step above _ ih => exact .step (parent?_relisted ▸ above) ih
  · intro under
    induction under with
    | here => exact .here
    | step above _ ih => exact .step (parent?_relisted.trans above) ih

/-- A change in the order of children leaves a well-formed form. -/
theorem WellFormed.wellFormed_relisted (wellFormed : form.WellFormed)
    (stored : form.contains parent) (perm : list.Perm (form.children parent)) :
    (form.relisted parent list).WellFormed := by
  refine
    { root_stored := contains_relisted.trans wellFormed.root_stored
      root_top := parent?_relisted.trans wellFormed.root_top
      own_id := ?_
      listed_iff := ?_
      nodup := ?_
      reached := ?_ }
  · intro key field found
    rw [get?_relisted] at found
    split at found
    · obtain ⟨kept, here, changed⟩ := Option.map_eq_some_iff.mp found
      have own : kept.id = key := wellFormed.own_id here
      rw [← changed]
      exact own
    · exact wellFormed.own_id found
  · intro upper child
    rw [children_relisted stored, parent?_relisted, ← wellFormed.listed_iff]
    split
    · rename_i here
      rw [here, perm.mem_iff]
    · rfl
  · intro upper
    rw [children_relisted stored]
    split
    · exact perm.nodup_iff.mpr (wellFormed.nodup parent)
    · exact wellFormed.nodup upper
  · intro key found
    rw [contains_relisted] at found
    exact under_relisted_iff.mpr (wellFormed.reached found)

theorem Alike.relisted {α : Type} {view : Attributes → α} {left right : Form}
    (alike : left.Alike view right) :
    (left.relisted parent list).Alike view (right.relisted parent list) := by
  refine alike.modifyField ?_
  intro field field' seen
  simp only [Field.seen, Prod.mk.injEq] at seen ⊢
  exact ⟨seen.1, seen.2.1, trivial, seen.2.2.2⟩

end Relisted

/-! ## Passing a sibling -/

section Passing

variable {place : Position} {index : Nat} {front back : List NodeId} {passed : NodeId}

/-- What it takes to move a field to an index under a parent. -/
theorem WellFormed.relink_eq (wellFormed : form.WellFormed) (stands : form.StandsAt id place)
    (stored : form.contains parent) (free : ¬ form.Under id parent)
    (room : index ≤ if parent = place.parent then (form.children parent).length - 1
      else (form.children parent).length) :
    relink id parent index form = .ok () (form.relinked id place parent index) := by
  have above := wellFormed.parent?_of_standsAt stands
  obtain ⟨field, found⟩ := contains_iff.mp stored
  have able : form.relinkable id parent index = .ok place := by
    unfold relinkable
    have notBeneath : form.isAncestor id parent = false := by
      rw [Bool.eq_false_iff]
      exact fun beneath => free (wellFormed.isAncestor_iff.mp beneath).under
    have apart : parent ≠ id := fun same => free (same ▸ .here)
    rw [children_of_get? found] at room
    simp only [wellFormed.ne_root above, if_false, above, field_of_get? found, Question.ok_bind,
      notBeneath, apart, decide_false, Bool.or_false, Bool.false_eq_true, Bool.false_and,
      wellFormed.siblingIndex?_eq stands, decide_eq_false (Nat.not_lt.mpr room)]
    rfl
  unfold relink
  rw [Edit.ask_bind, able]
  rfl

/-- A field that is moved among its siblings changes their order and nothing else. -/
theorem LinksFit.relinked_eq_relisted (fits : form.LinksFit) (stands : form.StandsAt id place) :
    form.relinked id place place.parent index =
      form.relisted place.parent
        (((form.children place.parent).eraseIdx place.index).insertIdx index id) := by
  have above := fits.parent?_of_standsAt stands
  refine ext_get? rfl ?_
  intro key
  unfold relinked
  rw [get?_modifyField, get?_modifyField, get?_unlisted, get?_relisted]
  cases stored : form.get? key with
  | none => simp
  | some field =>
    by_cases here : key = place.parent
    · subst here
      rw [children_of_get? stored]
      by_cases top : place.parent = id
      · have own : field.parent = some place.parent :=
          (parent?_of_get? stored).symm.trans (top ▸ above)
        rw [if_pos top]
        simp only [if_true, Option.map_some, ← own]
      · rw [if_neg top]
        simp only [if_true, Option.map_some]
    · simp only [if_neg here]
      by_cases top : key = id
      · subst top
        have own : field.parent = some place.parent := (parent?_of_get? stored).symm.trans above
        simp only [if_true, Option.map_some, ← own]
      · rw [if_neg top]

variable (wellFormed : form.WellFormed)
include wellFormed

theorem relink_behind (children : form.children parent = front ++ passed :: (ids ++ back)) :
    relink passed parent (front.length + ids.length) form =
      .ok () (form.relisted parent (front ++ (ids ++ passed :: back))) := by
  have stands : form.StandsAt passed ⟨parent, front.length⟩ := by
    show (form.children parent)[front.length]? = some passed
    rw [children, List.getElem?_append_right (Nat.le_refl _), Nat.sub_self]
    rfl
  have above := wellFormed.parent?_of_standsAt stands
  rw [wellFormed.relink_eq stands (wellFormed.contains_parent above)
    (wellFormed.not_under_parent stands)]
  · rw [wellFormed.relinked_eq_relisted stands, children, eraseIdx_length_append,
      ← List.append_assoc, ← List.length_append, insertIdx_length_append, List.append_assoc]
  · rw [if_pos rfl, children, List.length_append, List.length_cons, List.length_append]
    omega

theorem relink_before (children : form.children parent = front ++ (ids ++ passed :: back)) :
    relink passed parent front.length form =
      .ok () (form.relisted parent (front ++ passed :: (ids ++ back))) := by
  have split : front ++ (ids ++ passed :: back) = (front ++ ids) ++ passed :: back :=
    (List.append_assoc ..).symm
  have stands : form.StandsAt passed ⟨parent, (front ++ ids).length⟩ := by
    show (form.children parent)[(front ++ ids).length]? = some passed
    rw [children, split, List.getElem?_append_right (Nat.le_refl _), Nat.sub_self]
    rfl
  have above := wellFormed.parent?_of_standsAt stands
  rw [wellFormed.relink_eq stands (wellFormed.contains_parent above)
    (wellFormed.not_under_parent stands)]
  · rw [wellFormed.relinked_eq_relisted stands, children, split, eraseIdx_length_append,
      List.append_assoc, insertIdx_length_append]
  · rw [if_pos rfl, children, List.length_append]
    simp only [List.length_append, List.length_cons]
    omega

omit wellFormed in
theorem child?_eq (children : form.children parent = front ++ passed :: back) :
    form.child? parent front.length = some passed := by
  unfold child?
  rw [children, List.getElem?_append_right (Nat.le_refl _), Nat.sub_self]
  rfl

/-- A run passes the sibling before it. -/
theorem moveUp_eq (nonempty : ids ≠ [])
    (children : form.children parent = front ++ passed :: (ids ++ back)) :
    moveUp ids form = .ok (.applied ⟨parent, front.length, ids⟩)
      (form.relisted parent (front ++ (ids ++ passed :: back))) := by
  have block : form.Block parent (front.length + 1) ids :=
    ⟨front ++ [passed], back, by rw [children]; simp, by simp⟩
  have run := wellFormed.run_of_block block nonempty
  have stop : front.length + 1 + ids.length - 1 = front.length + ids.length := by omega
  unfold moveUp
  rw [Edit.ask_bind, run]
  dsimp only
  rw [if_neg (Nat.succ_ne_zero _), Step.get_bind, Nat.add_sub_cancel, child?_eq children]
  dsimp only [Run.stop]
  rw [stop, Step.bind_of_ok (relink_behind wellFormed children)]
  rfl

/-- A run passes the sibling after it. -/
theorem moveDown_eq (nonempty : ids ≠ [])
    (children : form.children parent = front ++ (ids ++ passed :: back)) :
    moveDown ids form = .ok (.applied ⟨parent, front.length + 1, ids⟩)
      (form.relisted parent (front ++ passed :: (ids ++ back))) := by
  have block : form.Block parent front.length ids :=
    ⟨front, passed :: back, by rw [children]; simp, rfl⟩
  have run := wellFormed.run_of_block block nonempty
  have split : form.children parent = (front ++ ids) ++ passed :: back := by
    rw [children, List.append_assoc]
  have next := child?_eq split
  rw [List.length_append] at next
  unfold moveDown
  rw [Edit.ask_bind, run]
  dsimp only [Run.stop]
  rw [Step.get_bind, next]
  dsimp only
  rw [Step.bind_of_ok (relink_before wellFormed children)]
  rfl

theorem moveUp_atEdge (nonempty : ids ≠ []) (block : form.Block parent 0 ids) :
    moveUp ids form = .ok (.atEdge .noPrecedingSibling) form := by
  unfold moveUp
  rw [Edit.ask_bind, wellFormed.run_of_block block nonempty]
  rfl

theorem moveDown_atEdge (nonempty : ids ≠ []) (children : form.children parent = front ++ ids) :
    moveDown ids form = .ok (.atEdge .noFollowingSibling) form := by
  have block : form.Block parent front.length ids := ⟨front, [], by rw [children]; simp, rfl⟩
  have last : form.child? parent (front.length + ids.length) = none := by
    unfold child?
    rw [children, List.getElem?_eq_none (Nat.le_of_eq List.length_append)]
  unfold moveDown
  rw [Edit.ask_bind, wellFormed.run_of_block block nonempty]
  dsimp only [Run.stop]
  rw [Step.get_bind, last]
  rfl

variable {start : Nat}

/-- A run is at the edge or passes the sibling before it. -/
theorem moveUp_cases (nonempty : ids ≠ []) (block : form.Block parent start ids) :
    moveUp ids form = .ok (.atEdge .noPrecedingSibling) form ∨
      ∃ front passed back, form.children parent = front ++ passed :: (ids ++ back) ∧
        moveUp ids form = .ok (.applied ⟨parent, front.length, ids⟩)
          (form.relisted parent (front ++ (ids ++ passed :: back))) := by
  obtain ⟨front, back, children, rfl⟩ := block
  rcases List.eq_nil_or_concat front with rfl | ⟨front, passed, rfl⟩
  · exact .inl (moveUp_atEdge wellFormed nonempty ⟨[], back, children, rfl⟩)
  · have children : form.children parent = front ++ passed :: (ids ++ back) := by
      rw [children]
      simp
    exact .inr ⟨front, passed, back, children, moveUp_eq wellFormed nonempty children⟩

/-- A run is at the edge or passes the sibling after it. -/
theorem moveDown_cases (nonempty : ids ≠ []) (block : form.Block parent start ids) :
    moveDown ids form = .ok (.atEdge .noFollowingSibling) form ∨
      ∃ front passed back, form.children parent = front ++ (ids ++ passed :: back) ∧
        moveDown ids form = .ok (.applied ⟨parent, front.length + 1, ids⟩)
          (form.relisted parent (front ++ passed :: (ids ++ back))) := by
  obtain ⟨front, back, children, rfl⟩ := block
  rw [List.append_assoc] at children
  cases back with
  | nil =>
    rw [List.append_nil] at children
    exact .inl (moveDown_atEdge wellFormed nonempty children)
  | cons passed back =>
    exact .inr ⟨front, passed, back, children, moveDown_eq wellFormed nonempty children⟩

end Passing

end FormEditor.Form
