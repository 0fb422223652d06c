import FormEditor.Form.Values
import FormEditor.Proofs.Form.Acceptance

/-!
# What a deletion leaves

A deletion takes whole subtrees out, one after the other, and keeps for each of them the place at
which it stood by then.  What is left does not show the order: it is the form without the fields at
and below those that were named (`Form.pruned`, `WellFormed.detachAll_eq_pruned`).  The removals do
show it, and put back from the last to the first they restore the form, but for the highlight of the
top field of each (`WellFormed.restored_eq`).

A block of siblings stays a block when fields are taken out, even if some of its own are among them
(`WellFormed.block_detachAll`).

Main statement: `delete_restore`.
-/

set_option autoImplicit false

namespace FormEditor.Form

variable {form after : Form} {id other parent : NodeId} {ids gone gone' : List NodeId}
  {place : Position} {branch : Branch} {removals : List Removal}

/-! ## Pruned forms -/

/-- The form without the fields of the given ids. -/
def pruned (form : Form) (gone : List NodeId) : Form :=
  { form with
    fields := (form.fields.filter fun key _ => key ∉ gone).map fun _ field =>
      { field with children := field.children.filter (· ∉ gone) } }

theorem get?_pruned :
    (form.pruned gone).get? id = if id ∈ gone then none else
      (form.get? id).map fun field =>
        { field with children := field.children.filter (· ∉ gone) } := by
  show (Std.ExtTreeMap.map _ (Std.ExtTreeMap.filter _ form.fields))[id]? = _
  rw [Std.ExtTreeMap.getElem?_map, Std.ExtTreeMap.getElem?_filter']
  show Option.map _ (Option.filter _ (form.get? id)) = _
  cases form.get? id with
  | none => simp
  | some field => by_cases lost : id ∈ gone <;> simp [lost]

/-- What is left depends on which ids are given, and not on their order. -/
theorem pruned_congr (same : ∀ key, key ∈ gone ↔ key ∈ gone') :
    form.pruned gone = form.pruned gone' := by
  refine ext_get? rfl fun key => ?_
  rw [get?_pruned, get?_pruned]
  simp only [same]

/-- Nothing changes where none of the fields is in the form. -/
theorem WellFormed.pruned_of_missing (wellFormed : form.WellFormed)
    (missing : ∀ key, form.contains key → key ∉ gone) : form.pruned gone = form := by
  refine ext_get? rfl fun key => ?_
  rw [get?_pruned]
  cases found : form.get? key with
  | none => simp
  | some field =>
    have kept : field.children.filter (· ∉ gone) = field.children := by
      refine List.filter_eq_self.mpr fun child listed => decide_eq_true (missing child ?_)
      rw [← children_of_get? found] at listed
      exact wellFormed.contains_child listed
    rw [if_neg (missing key (contains_of_get? found)), Option.map_some, kept]

/-- An id that would be filtered out may be taken out of the list before. -/
theorem filter_eraseIdx {list : List NodeId} {index : Nat} (here : list[index]? = some id)
    (lost : id ∈ gone) : (list.eraseIdx index).filter (· ∉ gone) = list.filter (· ∉ gone) := by
  induction list generalizing index with
  | nil => cases here
  | cons first list ih =>
    cases index with
    | zero =>
      obtain rfl : first = id := Option.some.inj here
      simp [lost]
    | succ index =>
      rw [List.eraseIdx_cons_succ, List.filter_cons, List.filter_cons, ih here]

/-- A field that is to go may be taken out before. -/
theorem WellFormed.pruned_without (wellFormed : form.WellFormed) (stands : form.StandsAt id place)
    (lost : ∀ key, form.contains key → form.Under id key → key ∈ gone) :
    (form.without id place).pruned gone = form.pruned gone := by
  have idLost : id ∈ gone := lost id (wellFormed.contains_child stands.listed) .here
  refine ext_get? rfl fun key => ?_
  rw [get?_pruned, get?_pruned]
  split
  · rfl
  · rename_i kept
    by_cases under : form.Under id key
    · have missing := not_contains_iff.mp fun stored => kept (lost key stored under)
      rw [wellFormed.get?_without_of_under under, missing]
    · rw [wellFormed.get?_without_of_not_under under, get?_unlisted]
      split
      · rename_i here
        subst here
        cases found : form.get? place.parent with
        | none => rfl
        | some field =>
          have listed : field.children[place.index]? = some id := children_of_get? found ▸ stands
          simp only [Option.map_some, filter_eraseIdx listed idLost]
      · rfl

/-! ## Taking out -/

/-- **Fields that are taken out one after the other leave the pruned form.** -/
theorem WellFormed.detachAll_eq_pruned (wellFormed : form.WellFormed)
    (removable : form.Removable ids)
    (lost : ∀ key, form.contains key → (key ∈ gone ↔ ∃ top ∈ ids, form.Under top key))
    (done : detachAll ids form = .ok removals after) : after = form.pruned gone := by
  induction ids generalizing form removals with
  | nil =>
    cases done
    exact (wellFormed.pruned_of_missing fun key stored listed => by
      simpa using (lost key stored).mp listed).symm
  | cons id ids ih =>
    obtain ⟨place, stands⟩ := removable.exists_standsAt wellFormed
    have shrunk := wellFormed.wellFormed_without stands
    have rest : (form.without id place).Removable ids := removable.without wellFormed
    obtain ⟨later, last, further, -⟩ := shrunk.exists_detachAll rest
    cases done.symm.trans (detachAll_cons (wellFormed.detach_of_standsAt stands) further)
    rw [← wellFormed.pruned_without stands fun key stored under =>
      (lost key stored).mpr ⟨id, List.mem_cons_self, under⟩]
    refine ih shrunk rest (fun key stays => ?_) further
    obtain ⟨stored, outside⟩ := wellFormed.contains_without.mp stays
    rw [lost key stored, List.exists_mem_cons_iff, or_iff_right outside]
    simp only [wellFormed.under_without_iff outside]

/-! ## Putting back -/

/-- Highlights outside of a branch may change before or after it is attached. -/
theorem attached_setHighlighted {index : Nat} {value : Bool}
    (outside : ¬ branch.toForm.contains id) :
    (form.setHighlighted value id).attached parent index branch =
      (form.attached parent index branch).setHighlighted value id := by
  refine ext_get? rfl fun key => ?_
  rw [get?_setHighlighted]
  cases found : branch.toForm.get? key with
  | some field =>
    have other : key ≠ id := fun same => outside (same ▸ contains_of_get? found)
    rw [if_neg other, get?_attached, get?_attached, found]
    rfl
  | none =>
    have missing := not_contains_iff.mpr found
    rw [get?_attached_of_not_branch missing, get?_attached_of_not_branch missing,
      get?_setHighlighted]
    by_cases here : key = id
    · by_cases there : key = parent
      · simp only [if_pos here, if_pos there, Option.map_map, Function.comp_def]
      · simp only [if_pos here, if_neg there]
    · simp only [if_neg here]

theorem attached_setAllHighlighted {index : Nat} {value : Bool}
    (outside : ∀ id ∈ ids, ¬ branch.toForm.contains id) :
    (form.setAllHighlighted value ids).attached parent index branch =
      (form.attached parent index branch).setAllHighlighted value ids := by
  induction ids generalizing form with
  | nil => rfl
  | cons id ids ih =>
    obtain ⟨first, rest⟩ := List.forall_mem_cons.mp outside
    have step : ((form.setHighlighted value id).setAllHighlighted value ids).attached parent index
        branch = ((form.setHighlighted value id).attached parent index branch).setAllHighlighted
          value ids := ih rest
    rw [attached_setHighlighted first] at step
    exact step

/-- **What is put back is the form as it was**, but for the highlights of the fields that were
taken out. -/
theorem WellFormed.restored_eq (wellFormed : form.WellFormed) (removable : form.Removable ids)
    (done : detachAll ids form = .ok removals after) :
    after.restored removals = form.setAllHighlighted false ids := by
  induction ids generalizing form removals with
  | nil =>
    cases done
    rfl
  | cons id ids ih =>
    obtain ⟨place, stands⟩ := removable.exists_standsAt wellFormed
    have shrunk := wellFormed.wellFormed_without stands
    have rest : (form.without id place).Removable ids := removable.without wellFormed
    obtain ⟨later, last, further, -⟩ := shrunk.exists_detachAll rest
    cases done.symm.trans (detachAll_cons (wellFormed.detach_of_standsAt stands) further)
    have outside : ∀ other ∈ ids, ¬ (form.branchAt id place).toForm.contains other :=
      fun other listed inside => ((List.pairwise_cons.mp removable.apart).1 other listed).1
        ((wellFormed.contains_branchAt stands).mp inside).2
    calc (after.restored later).attached place.parent place.index (form.branchAt id place)
        = ((form.without id place).setAllHighlighted false ids).attached place.parent
            place.index (form.branchAt id place) := by rw [ih shrunk rest further]
      _ = ((form.without id place).attached place.parent place.index
            (form.branchAt id place)).setAllHighlighted false ids :=
          attached_setAllHighlighted outside
      _ = (form.setHighlighted false id).setAllHighlighted false ids := by
          rw [wellFormed.attached_without stands]

/-! ## The topmost fields -/

/-- Repetitions are dropped in the order in which ids are first named. -/
theorem pairwise_idxOf_eraseDups :
    ids.eraseDups.Pairwise fun id other => ids.idxOf id < ids.idxOf other := by
  -- by induction from the end, since what comes later does not change a first index
  rw [← List.reverse_reverse ids]
  induction ids.reverse with
  | nil => exact .nil
  | cons last reversed ih =>
    rw [List.reverse_cons]
    generalize reversed.reverse = ids at ih
    have kept : ids.eraseDups.Pairwise fun id other =>
        (ids ++ [last]).idxOf id < (ids ++ [last]).idxOf other :=
      ih.imp_of_mem fun {id other} listed listed' before => by
        rwa [List.idxOf_append_of_mem (List.mem_eraseDups.mp listed),
          List.idxOf_append_of_mem (List.mem_eraseDups.mp listed')]
    rw [List.eraseDups_append]
    by_cases known : last ∈ ids
    · have none : [last].removeAll ids = [] := by simp [List.removeAll, known]
      rwa [none, List.eraseDups_nil, List.append_nil]
    · have fresh : [last].removeAll ids = [last] := by simp [List.removeAll, known]
      rw [fresh, eraseDups_of_nodup (List.nodup_singleton last)]
      refine List.pairwise_append.mpr
        ⟨kept, List.pairwise_singleton _ _, fun id listed other new => ?_⟩
      obtain rfl := List.mem_singleton.mp new
      have before := List.mem_eraseDups.mp listed
      rw [List.idxOf_append_of_mem before, List.idxOf_append_of_notMem known]
      exact Nat.lt_of_lt_of_le (List.idxOf_lt_length_of_mem before) (Nat.le_add_right _ _)

/-- At or above whatever lies below one of several fields there is a topmost of them. -/
theorem WellFormed.exists_topmost_iff (wellFormed : form.WellFormed)
    (stored : form.contains other) :
    (∃ top ∈ form.topmost ids, form.Under top other) ↔ ∃ top ∈ ids, form.Under top other := by
  constructor
  · rintro ⟨top, listed, under⟩
    exact ⟨top, (wellFormed.mem_topmost.mp listed).1, under⟩
  · -- by induction on the way up to the root, as long as there are listed fields above
    have reached := wellFormed.reached stored
    clear stored
    induction reached with
    | here =>
      rintro ⟨top, listed, under⟩
      rcases under.eq_or_beneath with rfl | ⟨parent, above, -⟩
      · refine ⟨_, wellFormed.mem_topmost.mpr ⟨listed, ?_⟩, .here⟩
        rintro upper - ⟨parent, above, -⟩
        cases wellFormed.root_top.symm.trans above
      · cases wellFormed.root_top.symm.trans above
    | @step key parent above _ ih =>
      rintro ⟨top, listed, under⟩
      by_cases higher : ∃ upper ∈ ids, form.Under upper parent
      · obtain ⟨highest, named, reach⟩ := ih higher
        exact ⟨highest, named, .step above reach⟩
      · refine ⟨top, wellFormed.mem_topmost.mpr ⟨listed, fun upper named beneath => ?_⟩, under⟩
        rcases under.eq_or_beneath with same | ⟨parent', above', under'⟩
        · obtain ⟨parent', above', under'⟩ := same ▸ beneath
          cases above.symm.trans above'
          exact higher ⟨upper, named, under'⟩
        · cases above.symm.trans above'
          exact higher ⟨top, listed, under'⟩

theorem WellFormed.mem_subtreeIds (wellFormed : form.WellFormed) :
    other ∈ form.subtreeIds ids ↔ form.contains other ∧ ∃ top ∈ ids, form.Under top other := by
  unfold subtreeIds
  rw [List.mem_eraseDups, List.map_flatMap, List.mem_flatMap]
  simp only [wellFormed.mem_descendants_ids]
  constructor
  · rintro ⟨top, listed, stored, under⟩
    exact ⟨stored, top, listed, under⟩
  · rintro ⟨stored, top, listed, under⟩
    exact ⟨top, listed, stored, under⟩

/-! ## What is left of a block -/

theorem contains_pruned :
    (form.pruned gone).contains id ↔ form.contains id ∧ id ∉ gone := by
  unfold contains
  rw [get?_pruned]
  by_cases lost : id ∈ gone <;> simp [lost]

theorem children_pruned (kept : id ∉ gone) :
    (form.pruned gone).children id = (form.children id).filter (· ∉ gone) := by
  unfold children
  rw [get?_pruned, if_neg kept]
  cases form.get? id <;> rfl

/-- **What is left of a block is a block.**  Fields that are taken out may lie in the block, above
it or below it, or elsewhere. -/
theorem WellFormed.block_detachAll (wellFormed : form.WellFormed)
    (removable : form.Removable ids) (done : detachAll ids form = .ok removals after)
    {start : Nat} {block : List NodeId} (standing : form.Block parent start block) :
    ∃ start', after.Block parent start' (block.filter after.contains) := by
  have lost : ∀ key, form.contains key → (key ∈ form.subtreeIds ids ↔
      ∃ top ∈ ids, form.Under top key) := fun key stored => by
    rw [wellFormed.mem_subtreeIds]
    exact and_iff_right stored
  obtain rfl := wellFormed.detachAll_eq_pruned removable lost done
  have left : block.filter (form.pruned (form.subtreeIds ids)).contains =
      block.filter (· ∉ form.subtreeIds ids) := by
    refine List.filter_congr fun key listed => ?_
    rw [Bool.eq_iff_iff, contains_pruned, decide_eq_true_iff]
    exact and_iff_right (standing.contains wellFormed.toLinksFit listed)
  rw [left]
  by_cases gone : parent ∈ form.subtreeIds ids
  · -- with the parent all of the block is gone
    obtain ⟨-, top, named, under⟩ := wellFormed.mem_subtreeIds.mp gone
    have none : block.filter (· ∉ form.subtreeIds ids) = [] := by
      refine List.filter_eq_nil_iff.mpr fun key listed kept => of_decide_eq_true kept ?_
      have above := standing.parent?_eq wellFormed.toLinksFit listed
      exact (lost key (contains_of_parent? above)).mpr ⟨top, named, .step above under⟩
    rw [none]
    exact ⟨0, [], _, rfl, rfl⟩
  · obtain ⟨front, back, children, -⟩ := standing
    refine ⟨_, front.filter (· ∉ form.subtreeIds ids), back.filter (· ∉ form.subtreeIds ids),
      ?_, rfl⟩
    rw [children_pruned gone, children, List.filter_append, List.filter_append]

/-! ## The law -/

/-- A deletion that is allowed takes out the topmost of the fields and leaves the pruned form. -/
theorem WellFormed.exists_deleteFields (wellFormed : form.WellFormed)
    (allowed : ∀ id ∈ ids, id ≠ form.root ∧ form.contains id) :
    ∃ removals, deleteFields ids form = .ok removals (form.pruned (form.subtreeIds ids)) ∧
      removals.map Removal.id = form.topmost ids ∧
      restoreFields removals (form.pruned (form.subtreeIds ids)) =
        .ok (form.topmost ids) (form.setAllHighlighted false (form.topmost ids)) := by
  have removable := wellFormed.removable_topmost allowed
  obtain ⟨removals, after, done, taken⟩ := wellFormed.exists_detachAll removable
  have lost : ∀ key, form.contains key → (key ∈ form.subtreeIds ids ↔
      ∃ top ∈ form.topmost ids, form.Under top key) := fun key stored => by
    rw [wellFormed.mem_subtreeIds, wellFormed.exists_topmost_iff stored]
    exact and_iff_right stored
  obtain rfl := wellFormed.detachAll_eq_pruned removable lost done
  refine ⟨removals, (deleteFields_eq allowed).trans done, taken.named, ?_⟩
  rw [restoreFields_of_restorable taken.restorable, taken.named,
    wellFormed.restored_eq removable done]

/-- **A deletion leaves what lies outside of the deleted subtrees, and can be taken back exactly.**
It is refused, without a change, unless all the ids are those of fields other than the root.
If it is carried out, fields are left that are not at or below any of these, and a field that is
left keeps all but the children that are gone.  There is one removal for every id that no other one
lies above, in the order in which these are first named.  The form that is left does not depend on
the order of the ids or on repetitions.  Putting the removals back restores the form, except that
the top field of each removal is not highlighted any more. -/
theorem delete_restore (valid : form.validate = .ok ()) (ids : List NodeId) :
    ((∃ removals after, deleteFields ids form = .ok removals after) ↔
      ∀ id ∈ ids, id ≠ form.root ∧ form.contains id) ∧
    (∀ fault after, deleteFields ids form = .error fault after → after = form) ∧
    ∀ removals after, deleteFields ids form = .ok removals after →
      (after.root = form.root ∧ ∃ gone : List NodeId,
        (∀ key, key ∈ gone ↔ form.contains key ∧ ∃ top ∈ ids, form.Under top key) ∧
        ∀ key, after.get? key = if key ∈ gone then none else
          (form.get? key).map fun field =>
            { field with children := field.children.filter (· ∉ gone) }) ∧
      ((removals.map Removal.id).Nodup ∧
        (∀ id, id ∈ removals.map Removal.id ↔ id ∈ ids ∧ ∀ top ∈ ids, ¬ form.Beneath top id) ∧
        (removals.map Removal.id).Pairwise fun id later => ids.idxOf id < ids.idxOf later) ∧
      (∀ others : List NodeId, (∀ id, id ∈ others ↔ id ∈ ids) →
        ∃ removals', deleteFields others form = .ok removals' after) ∧
      restoreFields removals after = .ok (removals.map Removal.id)
        (form.setAllHighlighted false (removals.map Removal.id)) := by
  have wellFormed := validate_eq_ok_iff.mp valid
  rcases deleteFields_cases wellFormed ids with ⟨fault, refused⟩ | ⟨allowed, -⟩
  · refine ⟨iff_of_false ?_ fun allowed => ?_, ?_, ?_⟩
    · rintro ⟨removals, after, done⟩
      cases refused.symm.trans done
    · obtain ⟨removals, done, -⟩ := wellFormed.exists_deleteFields allowed
      cases refused.symm.trans done
    · intro fault' after refused'
      cases refused.symm.trans refused'
      rfl
    · intro removals after done
      cases refused.symm.trans done
  · obtain ⟨removals, done, named, restored⟩ := wellFormed.exists_deleteFields allowed
    refine ⟨iff_of_true ⟨removals, _, done⟩ allowed, ?_, ?_⟩
    · intro fault after refused
      cases done.symm.trans refused
    · intro removals' after done'
      cases done.symm.trans done'
      rw [named]
      refine ⟨⟨rfl, _, fun key => wellFormed.mem_subtreeIds, fun key => get?_pruned⟩,
        ⟨nodup_eraseDups.filter _, fun id => wellFormed.mem_topmost,
          pairwise_idxOf_eraseDups.filter _⟩, fun others same => ?_, restored⟩
      have allowed' : ∀ id ∈ others, id ≠ form.root ∧ form.contains id := fun id listed =>
        allowed id ((same id).mp listed)
      obtain ⟨removals', done', -⟩ := wellFormed.exists_deleteFields allowed'
      refine ⟨removals', done'.trans (congrArg _ (pruned_congr fun key => ?_))⟩
      simp only [wellFormed.mem_subtreeIds, same]

/-- Fields from two parents, one of them named twice and one below another.  Named in another order
they leave the same form, and they can be put back. -/
theorem delete_restore_nested :
    let form := (Branch.ofOutline ⟨10⟩ (.node .empty
      [.node .empty [.node .empty [], .node .empty []],
        .node .empty [.node .empty [], .node .empty []]])).toForm
    ∃ removals after, deleteFields [⟨16⟩, ⟨12⟩, ⟨14⟩, ⟨12⟩] form = .ok removals after ∧
      after.preorder.map Field.id = [⟨10⟩, ⟨11⟩, ⟨13⟩] ∧
      (∃ removals', deleteFields [⟨14⟩, ⟨16⟩, ⟨12⟩] form = .ok removals' after) ∧
      restoreFields removals after = .ok [⟨12⟩, ⟨14⟩] form := by
  intro form
  have valid : form.validate = .ok () := by decide +kernel
  have carried : (match deleteFields [⟨16⟩, ⟨12⟩, ⟨14⟩, ⟨12⟩] form with
      | .ok removals after => decide (removals.map Removal.id = [⟨12⟩, ⟨14⟩] ∧
          after.preorder.map Field.id = [⟨10⟩, ⟨11⟩, ⟨13⟩])
      | .error _ _ => false) = true := by decide +kernel
  have dim : form.setAllHighlighted false [⟨12⟩, ⟨14⟩] = form := by decide +kernel
  obtain ⟨-, -, law⟩ := delete_restore valid [⟨16⟩, ⟨12⟩, ⟨14⟩, ⟨12⟩]
  cases done : deleteFields [⟨16⟩, ⟨12⟩, ⟨14⟩, ⟨12⟩] form with
  | error fault after =>
    rw [done] at carried
    cases carried
  | ok removals after =>
    rw [done] at carried
    obtain ⟨named, order⟩ := of_decide_eq_true carried
    obtain ⟨-, -, anyOrder, restored⟩ := law removals after done
    rw [named, dim] at restored
    exact ⟨removals, after, rfl, order, anyOrder _ fun id => by simp; tauto, restored⟩

end FormEditor.Form
