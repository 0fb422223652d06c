import FormEditor.Proofs.Form.Gathering

/-!
# Going up and down a level

A run that goes up is put right behind its parent.  A run that goes down is put at the end of the
children of the sibling before it.  Each way is nearly the inverse of the other: going down and up
again leads to the same form, but going up and down again leads to the end of the list that the run
came from (`WellFormed.demote_promote`, `WellFormed.promote_demote`).

Main statement: `levels_inverse`, what each of the two ways does to a form and where the edge is.
-/

set_option autoImplicit false

namespace FormEditor.Form

variable {form : Form} {id source target passed : NodeId} {run : Run} {start : Nat}
  {ids given front back left right : List NodeId}

/-! ## Up and down a level -/

/-- Siblings in any order are moved a level up or down as the block that they make up. -/
theorem WellFormed.levels_of_perm (wellFormed : form.WellFormed) (perm : given.Perm ids)
    (nonempty : ids ≠ []) (block : form.Block source start ids) :
    promote given form = promote ids form ∧ demote given form = demote ids form := by
  have asked := wellFormed.run_of_perm block nonempty perm
  have again := wellFormed.run_of_block block nonempty
  constructor
  · unfold promote
    rw [Edit.ask_bind, Edit.ask_bind, asked, again]
  · unfold demote
    rw [Edit.ask_bind, Edit.ask_bind, asked, again]

theorem WellFormed.promote_atEdge (wellFormed : form.WellFormed) (nonempty : ids ≠ [])
    (block : form.Block form.root start ids) :
    promote ids form = .ok (.atEdge .noGrandparent) form := by
  unfold promote
  rw [Edit.ask_bind, wellFormed.run_of_block block nonempty]
  dsimp only
  rw [Step.get_bind, wellFormed.root_top]
  rfl

/-- A run may go to the gap behind its parent. -/
theorem WellFormed.transfer_up (wellFormed : form.WellFormed)
    (children : form.children source = front ++ (ids ++ back))
    (siblings : form.children target = left ++ source :: right) :
    form.Transfer ids source front back target (left ++ [source]) right := by
  have block : form.Block source front.length ids := ⟨front, back, by rw [children]; simp, rfl⟩
  have above : form.parent? source = some target :=
    wellFormed.parent?_eq (by rw [siblings]; exact List.mem_append_right _ List.mem_cons_self)
  exact
    { source_list := children
      target_list := by rw [siblings, List.append_assoc, List.singleton_append]
      source_stored := contains_of_parent? above
      target_stored := wellFormed.contains_parent above
      apart := wellFormed.ne_parent above
      free := fun id listed under =>
        block.not_under_parent wellFormed listed (under.trans (.of_parent above)) }

/-- A run goes up: it is put right after its parent. -/
theorem WellFormed.promote_eq (wellFormed : form.WellFormed) (nonempty : ids ≠ [])
    (children : form.children source = front ++ (ids ++ back))
    (siblings : form.children target = left ++ source :: right) :
    promote ids form =
      .ok (.applied ⟨ids, ⟨source, front.length⟩, ⟨target, (left ++ [source]).length⟩⟩)
        (form.transferred ids source (front ++ back) target
          (left ++ [source] ++ (ids ++ right))) := by
  have transfer := wellFormed.transfer_up children siblings
  have run := wellFormed.run_of_block transfer.block nonempty
  have stands : (form.children target)[left.length]? = some source := by
    rw [siblings, List.getElem?_append_right (Nat.le_refl _), Nat.sub_self]
    rfl
  have next : (left ++ [source]).length = left.length + 1 := by simp
  have moved := transfer.relinkAll_eq wellFormed
  rw [next] at moved ⊢
  unfold promote
  rw [Edit.ask_bind, run]
  dsimp only
  rw [Step.get_bind, wellFormed.parent?_eq (List.mem_of_getElem? stands)]
  dsimp only
  rw [Step.get_bind, wellFormed.siblingIndex?_eq stands]
  dsimp only
  rw [Step.bind_of_ok moved]
  rfl

/-- A run is already directly below the root, or it is put right after its parent. -/
theorem WellFormed.promote_cases (wellFormed : form.WellFormed) (nonempty : ids ≠ [])
    (block : form.Block source start ids) :
    promote ids form = .ok (.atEdge .noGrandparent) form ∨
      ∃ front back target left right, form.Transfer ids source front back target left right ∧
        promote ids form =
          .ok (.applied ⟨ids, ⟨source, front.length⟩, ⟨target, left.length⟩⟩)
            (form.transferred ids source (front ++ back) target (left ++ (ids ++ right))) := by
  by_cases top : source = form.root
  · subst top
    exact .inl (wellFormed.promote_atEdge nonempty block)
  · obtain ⟨target, left, right, siblings⟩ :=
      wellFormed.exists_siblings (block.contains_parent nonempty) top
    obtain ⟨front, back, children, -⟩ := block
    rw [List.append_assoc] at children
    exact .inr ⟨front, back, target, _, right, wellFormed.transfer_up children siblings,
      wellFormed.promote_eq nonempty children siblings⟩

theorem WellFormed.demote_atEdge (wellFormed : form.WellFormed) (nonempty : ids ≠ [])
    (block : form.Block source 0 ids) :
    demote ids form = .ok (.atEdge .noPrecedingSibling) form := by
  unfold demote
  rw [Edit.ask_bind, wellFormed.run_of_block block nonempty]
  rfl

/-- A run may go to the end of the children of the sibling before it. -/
theorem WellFormed.transfer_down (wellFormed : form.WellFormed)
    (children : form.children source = front ++ passed :: (ids ++ back)) :
    form.Transfer ids source (front ++ [passed]) back passed (form.children passed) [] := by
  have siblings : form.Block source front.length (passed :: ids) :=
    ⟨front, back, by rw [children]; simp, rfl⟩
  have above := siblings.parent?_eq wellFormed.toLinksFit List.mem_cons_self
  have distinct := siblings.nodup wellFormed.toLinksFit
  exact
    { source_list := by rw [children, List.append_assoc, List.singleton_append]
      target_list := (List.append_nil _).symm
      source_stored := wellFormed.contains_parent above
      target_stored := contains_of_parent? above
      apart := (wellFormed.ne_parent above).symm
      free := fun id listed => siblings.not_under wellFormed (List.mem_cons_of_mem _ listed)
        List.mem_cons_self fun same => (List.nodup_cons.mp distinct).1 (same ▸ listed) }

/-- A run goes down: it is put at the end of the children of the sibling before it. -/
theorem WellFormed.demote_eq (wellFormed : form.WellFormed) (nonempty : ids ≠ [])
    (children : form.children source = front ++ passed :: (ids ++ back)) :
    demote ids form =
      .ok (.applied ⟨ids, ⟨source, (front ++ [passed]).length⟩,
          ⟨passed, (form.children passed).length⟩⟩)
        (form.transferred ids source (front ++ [passed] ++ back) passed
          (form.children passed ++ (ids ++ []))) := by
  have transfer := wellFormed.transfer_down children
  have run := wellFormed.run_of_block transfer.block nonempty
  have moved := transfer.relinkAll_eq wellFormed
  have previous : (front ++ [passed]).length - 1 = front.length := by simp
  unfold demote
  rw [Edit.ask_bind, run]
  dsimp only
  rw [if_neg (by simp), Step.get_bind, previous, child?_eq children]
  dsimp only
  rw [Step.get_bind, Step.bind_of_ok moved]
  rfl

/-- A run has no sibling before it, or it is put at the end of the children of that sibling. -/
theorem WellFormed.demote_cases (wellFormed : form.WellFormed) (nonempty : ids ≠ [])
    (block : form.Block source start ids) :
    demote ids form = .ok (.atEdge .noPrecedingSibling) form ∨
      ∃ front back target left right, form.Transfer ids source front back target left right ∧
        demote ids form =
          .ok (.applied ⟨ids, ⟨source, front.length⟩, ⟨target, left.length⟩⟩)
            (form.transferred ids source (front ++ back) target (left ++ (ids ++ right))) := by
  obtain ⟨front, back, children, rfl⟩ := block
  rcases List.eq_nil_or_concat front with rfl | ⟨before, passed, rfl⟩
  · exact .inl (wellFormed.demote_atEdge nonempty ⟨[], back, children, rfl⟩)
  · have children : form.children source = before ++ passed :: (ids ++ back) := by
      rw [children]
      simp
    exact .inr ⟨_, back, passed, _, [], wellFormed.transfer_down children,
      wellFormed.demote_eq nonempty children⟩

/-- Two lists without a common element can change places only if one of them is empty. -/
theorem append_swap_iff (distinct : (ids ++ back).Nodup) (nonempty : ids ≠ []) :
    back ++ ids = ids ++ back ↔ back = [] := by
  constructor
  · intro same
    cases back with
    | nil => rfl
    | cons next back =>
      obtain ⟨first, rest, rfl⟩ := List.exists_cons_of_ne_nil nonempty
      exact absurd (List.cons.inj same).1.symm
        ((List.nodup_append.mp distinct).2.2 first List.mem_cons_self next List.mem_cons_self)
  · rintro rfl
    exact (List.append_nil ids).symm

section Rounds

/-! ## There and back -/

variable (wellFormed : form.WellFormed) (perm : given.Perm ids) (nonempty : ids ≠ [])
include wellFormed perm nonempty

/-- **Going down and up again leads to the same form.** -/
theorem WellFormed.demote_promote
    (children : form.children source = front ++ passed :: (ids ++ back)) :
    ∃ way, promote given (form.transferred ids source (front ++ [passed] ++ back) passed
      (form.children passed ++ (ids ++ []))) = .ok (.applied way) form := by
  have transfer := wellFormed.transfer_down children
  have moved := transfer.wellFormed_transferred wellFormed
  have block := (transfer.back_again wellFormed).block
  have below := transfer.children_target
  have above := transfer.children_source.trans (List.append_cons front passed back).symm
  have returned := moved.promote_eq nonempty below above
  rw [transfer.transferred_back wellFormed] at returned
  exact ⟨_, (moved.levels_of_perm perm nonempty block).1.trans returned⟩

/-- **Going up and down again leads to the end of the list that the run came from.** -/
theorem WellFormed.promote_demote (children : form.children source = front ++ (ids ++ back))
    (siblings : form.children target = left ++ source :: right) :
    ∃ way, demote given (form.transferred ids source (front ++ back) target
        (left ++ [source] ++ (ids ++ right))) =
      .ok (.applied way) (form.relisted source (front ++ back ++ ids)) := by
  have transfer := wellFormed.transfer_up children siblings
  have moved := transfer.wellFormed_transferred wellFormed
  have block := (transfer.back_again wellFormed).block
  have above := transfer.children_target.trans (List.append_cons left source _).symm
  have returned := moved.demote_eq nonempty above
  rw [transfer.children_source, transfer.transferred_relisted wellFormed, List.append_nil]
    at returned
  exact ⟨_, (moved.levels_of_perm perm nonempty block).2.trans returned⟩

omit perm in
/-- A run that is put at the end of its list stays where it is only if it was there before. -/
theorem WellFormed.relisted_last_iff (children : form.children source = front ++ (ids ++ back)) :
    form.relisted source (front ++ back ++ ids) = form ↔ back = [] := by
  have block : form.Block source front.length ids := ⟨front, back, by rw [children]; simp, rfl⟩
  have distinct := wellFormed.nodup source
  rw [children] at distinct
  rw [← append_swap_iff (List.nodup_append.mp distinct).2.1 nonempty]
  constructor
  · intro same
    have listed := congrArg (Form.children · source) same
    rwa [children_relisted (block.contains_parent nonempty), if_pos rfl, children,
      List.append_assoc, List.append_right_inj] at listed
  · intro same
    rw [List.append_assoc, same, ← children, relisted_children]

end Rounds

/-! ## The law -/

/-- **Going up and going down are partial inverses.**  For the run that ids stand for, `front` and
`back` being its siblings before and behind it: going up is at the edge exactly if the parent is the
root, and else the run comes right behind the parent; going down is at the edge exactly if there is
no sibling before the run, and else the run comes to the end of the children of that sibling.
Nothing else changes.  Going down and up again restores the form; going up and down again puts the
run behind its siblings, and restores the form exactly if that is where it was. -/
theorem levels_inverse (valid : form.validate = .ok ()) (found : form.run ids = .ok run) :
    let front := (form.children run.parent).take run.start
    let back := (form.children run.parent).drop run.stop
    (promote ids form = .ok (.atEdge .noGrandparent) form ↔ run.parent = form.root) ∧
    (run.parent ≠ form.root → ∃ upper left right,
      form.children upper = left ++ run.parent :: right ∧
      ∃ up, up = form.transferred run.ids run.parent (front ++ back) upper
          (left ++ run.parent :: (run.ids ++ right)) ∧
        promote ids form = .ok (.applied
          ⟨run.ids, ⟨run.parent, run.start⟩, ⟨upper, left.length + 1⟩⟩) up ∧
        ∃ way again, again = form.relisted run.parent (front ++ back ++ run.ids) ∧
          demote ids up = .ok (.applied way) again ∧
          (again = form ↔ run.stop = (form.children run.parent).length)) ∧
    (demote ids form = .ok (.atEdge .noPrecedingSibling) form ↔ run.start = 0) ∧
    (run.start ≠ 0 → ∃ passed, form.child? run.parent (run.start - 1) = some passed ∧
      ∃ down, down = form.transferred run.ids run.parent (front ++ back) passed
          (form.children passed ++ run.ids) ∧
        demote ids form = .ok (.applied
          ⟨run.ids, ⟨run.parent, run.start⟩, ⟨passed, (form.children passed).length⟩⟩) down ∧
        ∃ way, promote ids down = .ok (.applied way) form) := by
  intro front back
  have wellFormed := validate_eq_ok_iff.mp valid
  obtain ⟨-, perm, block⟩ := wellFormed.run_eq_ok_iff.mp found
  have nonempty := (wellFormed.block_of_run found).1
  obtain ⟨up, down⟩ := wellFormed.levels_of_perm perm nonempty block
  have children : form.children run.parent = front ++ (run.ids ++ back) := block.children_eq
  have length : front.length = run.start := by
    have bound := block.stop_le
    rw [List.length_take]
    omega
  have below := wellFormed.exists_siblings (block.contains_parent nonempty)
  rw [up, down]
  refine ⟨⟨fun edge => ?_, fun top => ?_⟩, fun inner => ?_, ⟨fun edge => ?_, fun first => ?_⟩,
    fun later => ?_⟩
  · by_contra inner
    obtain ⟨upper, left, right, siblings⟩ := below inner
    cases edge.symm.trans (wellFormed.promote_eq nonempty children siblings)
  · exact wellFormed.promote_atEdge nonempty (top ▸ block)
  · obtain ⟨upper, left, right, siblings⟩ := below inner
    have gone := wellFormed.promote_eq nonempty children siblings
    obtain ⟨way, returned⟩ := wellFormed.promote_demote perm nonempty children siblings
    rw [length, ← List.append_cons, List.length_append, List.length_singleton] at gone
    rw [← List.append_cons] at returned
    exact ⟨upper, left, right, siblings, _, rfl, gone, way, _, rfl, returned,
      (wellFormed.relisted_last_iff nonempty children).trans block.drop_eq_nil_iff⟩
  · by_contra later
    obtain ⟨before, passed, -, children⟩ := block.exists_preceding later
    cases edge.symm.trans (wellFormed.demote_eq nonempty children)
  · exact wellFormed.demote_atEdge nonempty (first ▸ block)
  · obtain ⟨before, passed, split, children⟩ := block.exists_preceding later
    have split : front = before ++ [passed] := split
    rw [split] at length ⊢
    have gone := wellFormed.demote_eq nonempty children
    obtain ⟨way, returned⟩ := wellFormed.demote_promote perm nonempty children
    rw [length, List.append_nil] at gone
    rw [List.append_nil] at returned
    have previous : before.length = run.start - 1 := by
      rw [← length, List.length_append, List.length_singleton, Nat.add_sub_cancel]
    exact ⟨passed, previous ▸ child?_eq children, _, rfl, gone, way, returned⟩

/-- A run at the end of its list that is named backwards: either way leads back. -/
theorem levels_inverse_last :
    let form := (Branch.ofOutline ⟨10⟩ (.node .empty [.node .empty
      [.node .empty [], .node .empty [], .node .empty []], .node .empty []])).toForm
    (∃ way up back, promote [⟨14⟩, ⟨13⟩] form = .ok (.applied way) up ∧
      demote [⟨14⟩, ⟨13⟩] up = .ok (.applied back) form) ∧
    ∃ way down back, demote [⟨14⟩, ⟨13⟩] form = .ok (.applied way) down ∧
      promote [⟨14⟩, ⟨13⟩] down = .ok (.applied back) form := by
  intro form
  have valid : form.validate = .ok () := by decide +kernel
  have block : form.Block ⟨11⟩ 1 [⟨13⟩, ⟨14⟩] := ⟨[⟨12⟩], [], by decide +kernel, rfl⟩
  have perm : List.Perm [(⟨14⟩ : NodeId), ⟨13⟩] [⟨13⟩, ⟨14⟩] := by decide
  have found := (validate_eq_ok_iff.mp valid).run_of_perm block (by decide) perm
  obtain ⟨-, rises, -, sinks⟩ := levels_inverse valid found
  obtain ⟨upper, left, right, -, up, -, gone, way, again, -, returned, same⟩ :=
    rises (by decide +kernel)
  rw [same.mpr (by decide +kernel)] at returned
  obtain ⟨passed, -, down, -, gone', way', returned'⟩ := sinks (by decide)
  exact ⟨⟨_, up, way, gone, returned⟩, _, down, way', gone', returned'⟩

end FormEditor.Form
