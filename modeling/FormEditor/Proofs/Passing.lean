import FormEditor.Proofs.Forgeries
import FormEditor.Proofs.Replays
import Mathlib.Data.List.Induction

/-!
# Moving a run past its siblings

A run that moves up or down trades places with the one sibling before or behind it, and the move
back undoes it.  A run that is moved again and again in one direction passes its siblings one by
one, until none is left on that side (`Exhausts`): then it stands at the end of the child list, and
all others are in the order in which they were.

Main statement: `passing_law`.
-/

set_option autoImplicit false

namespace FormEditor.Form

variable {form last : Form} {parent passed : NodeId} {run : Run} {start count : Nat}
  {ids block front back : List NodeId}

/-! ## Moving as far as possible -/

/-- A move is applied exactly so many times in a row, each time to the form that it led to, and then
it is at an edge of the form. -/
inductive Exhausts (move : Edit (Outcome Run)) (edge : Edge) : Nat → Form → Form → Prop where
  | atEdge {form : Form} :
      move form = .ok (.atEdge edge) form → Exhausts move edge 0 form form
  | applied {count : Nat} {run : Run} {form next last : Form} :
      move form = .ok (.applied run) next → Exhausts move edge count next last →
        Exhausts move edge (count + 1) form last

/-- How often a move is applied, and where it leads, is determined by the form. -/
theorem Exhausts.unique {move : Edit (Outcome Run)} {edge : Edge} {other : Nat} {last' : Form}
    (exhausts : Exhausts move edge count form last)
    (exhausts' : Exhausts move edge other form last') : other = count ∧ last' = last := by
  induction exhausts generalizing other with
  | atEdge still =>
    cases exhausts' with
    | atEdge => exact ⟨rfl, rfl⟩
    | applied moved => cases still.symm.trans moved
  | applied moved _ ih =>
    cases exhausts' with
    | atEdge still => cases still.symm.trans moved
    | applied moved' rest' =>
      cases moved.symm.trans moved'
      obtain ⟨rfl, rfl⟩ := ih rest'
      exact ⟨rfl, rfl⟩

section Passing

variable (wellFormed : form.WellFormed) (perm : ids.Perm block) (nonempty : ids ≠ [])
include wellFormed perm nonempty

/-! ## One sibling -/

theorem WellFormed.moveUp_of_perm (stands : form.Block parent start block) :
    moveUp ids form = moveUp block form :=
  show pass .up ids form = pass .up block form from wellFormed.pass_of_perm perm nonempty stands

theorem WellFormed.moveDown_of_perm (stands : form.Block parent start block) :
    moveDown ids form = moveDown block form :=
  show pass .down ids form = pass .down block form from wellFormed.pass_of_perm perm nonempty stands

/-- **A run passes the sibling before it, and passes it again on the way back.** -/
theorem WellFormed.moveUp_moveDown
    (children : form.children parent = front ++ passed :: (block ++ back)) :
    moveUp ids form = .ok (.applied ⟨parent, front.length, block⟩)
        (form.relisted parent (front ++ (block ++ passed :: back))) ∧
      moveDown ids (form.relisted parent (front ++ (block ++ passed :: back))) =
        .ok (.applied ⟨parent, front.length + 1, block⟩) form := by
  have filled : block ≠ [] := fun none => nonempty (none ▸ perm).eq_nil
  obtain ⟨up, moved, kept, children', back'⟩ := Command.moveUp_round wellFormed filled children
  cases moved.symm.trans (moveUp_eq wellFormed filled children)
  have here : form.Block parent (front ++ [passed]).length block :=
    ⟨front ++ [passed], back, by rw [children]; simp, rfl⟩
  have there : (form.relisted parent (front ++ (block ++ passed :: back))).Block parent
      front.length block := ⟨front, passed :: back, by rw [children']; simp, rfl⟩
  exact ⟨(wellFormed.moveUp_of_perm perm nonempty here).trans moved,
    (kept.moveDown_of_perm perm nonempty there).trans back'⟩

/-- **A run passes the sibling behind it, and passes it again on the way back.** -/
theorem WellFormed.moveDown_moveUp
    (children : form.children parent = front ++ (block ++ passed :: back)) :
    moveDown ids form = .ok (.applied ⟨parent, front.length + 1, block⟩)
        (form.relisted parent (front ++ passed :: (block ++ back))) ∧
      moveUp ids (form.relisted parent (front ++ passed :: (block ++ back))) =
        .ok (.applied ⟨parent, front.length, block⟩) form := by
  have filled : block ≠ [] := fun none => nonempty (none ▸ perm).eq_nil
  obtain ⟨down, moved, kept, children', back'⟩ := Command.moveDown_round wellFormed filled children
  cases moved.symm.trans (moveDown_eq wellFormed filled children)
  have here : form.Block parent front.length block :=
    ⟨front, passed :: back, by rw [children]; simp, rfl⟩
  have there : (form.relisted parent (front ++ passed :: (block ++ back))).Block parent
      (front ++ [passed]).length block := ⟨front ++ [passed], back, by rw [children']; simp, rfl⟩
  exact ⟨(wellFormed.moveDown_of_perm perm nonempty here).trans moved,
    (kept.moveUp_of_perm perm nonempty there).trans back'⟩

theorem WellFormed.moveUp_first (children : form.children parent = block ++ back) :
    moveUp ids form = .ok (.atEdge .noPrecedingSibling) form := by
  have filled : block ≠ [] := fun none => nonempty (none ▸ perm).eq_nil
  have stands : form.Block parent 0 block := ⟨[], back, children, rfl⟩
  exact (wellFormed.moveUp_of_perm perm nonempty stands).trans
    (moveUp_atEdge wellFormed filled stands)

theorem WellFormed.moveDown_last (children : form.children parent = front ++ block) :
    moveDown ids form = .ok (.atEdge .noFollowingSibling) form := by
  have filled : block ≠ [] := fun none => nonempty (none ▸ perm).eq_nil
  have stands : form.Block parent front.length block :=
    ⟨front, [], by rw [children, List.append_nil], rfl⟩
  exact (wellFormed.moveDown_of_perm perm nonempty stands).trans
    (moveDown_atEdge wellFormed filled children)

/-! ## All siblings -/

/-- A run that moves up as far as it can passes all siblings before it. -/
theorem WellFormed.exhausts_moveUp (children : form.children parent = front ++ (block ++ back)) :
    Exhausts (moveUp ids) .noPrecedingSibling front.length form
      (form.relisted parent (block ++ (front ++ back))) := by
  -- by induction on the siblings before the run, of which the last is passed first
  induction front using List.reverseRecOn generalizing form back with
  | nil =>
    rw [List.nil_append] at children ⊢
    rw [← children, relisted_children]
    exact .atEdge (wellFormed.moveUp_first perm nonempty children)
  | append_singleton front passed ih =>
    rw [List.append_assoc, List.singleton_append] at children
    have stored : form.contains parent :=
      contains_of_mem_children (by rw [children]; exact List.mem_append_right _ List.mem_cons_self)
    have shuffled : (front ++ (block ++ passed :: back)).Perm (form.children parent) := by
      rw [children]
      exact List.Perm.append_left front List.perm_middle
    have rest := ih (wellFormed.wellFormed_relisted stored shuffled)
      ((children_relisted stored).trans (if_pos rfl))
    rw [relisted_relisted] at rest
    rw [List.length_append, List.length_singleton, List.append_assoc, List.singleton_append]
    exact .applied (wellFormed.moveUp_moveDown perm nonempty children).1 rest

/-- A run that moves down as far as it can passes all siblings behind it. -/
theorem WellFormed.exhausts_moveDown (children : form.children parent = front ++ (block ++ back)) :
    Exhausts (moveDown ids) .noFollowingSibling back.length form
      (form.relisted parent (front ++ back ++ block)) := by
  induction back generalizing form front with
  | nil =>
    rw [List.append_nil] at children ⊢
    rw [← children, relisted_children]
    exact .atEdge (wellFormed.moveDown_last perm nonempty children)
  | cons passed back ih =>
    have among : passed ∈ form.children parent := by
      rw [children]
      exact List.mem_append_right _ (List.mem_append_right _ List.mem_cons_self)
    have stored : form.contains parent := contains_of_mem_children among
    have shuffled : (front ++ passed :: (block ++ back)).Perm (form.children parent) := by
      rw [children]
      exact List.Perm.append_left front List.perm_middle.symm
    have rest := ih (wellFormed.wellFormed_relisted stored shuffled)
      (((children_relisted stored).trans (if_pos rfl)).trans (List.append_cons ..))
    rw [relisted_relisted, ← List.append_cons] at rest
    exact .applied (wellFormed.moveDown_moveUp perm nonempty children).1 rest

end Passing

/-! ## The law -/

/-- **Moving a run up and down.**  Let `front` and `back` be the siblings before and behind the run
that ids stand for.  Moving up is at the edge exactly if there is none before the run, and else the
run and the sibling right before it trade places; moving down is at the edge exactly if there is
none behind the run, and else the run and the sibling right behind it trade places.  Nothing else
changes, and the move back leads back.  A run that is moved again and again passes one sibling with
each move, until it has passed all of them on that side. -/
theorem passing_law (valid : form.validate = .ok ()) (found : form.run ids = .ok run) :
    let siblings := form.children run.parent
    let front := siblings.take run.start
    let back := siblings.drop run.stop
    siblings = front ++ (run.ids ++ back) ∧
    (moveUp ids form = .ok (.atEdge .noPrecedingSibling) form ↔ run.start = 0) ∧
    (run.start ≠ 0 → ∃ before passed up, front = before ++ [passed] ∧
      up = form.relisted run.parent (before ++ (run.ids ++ passed :: back)) ∧
      moveUp ids form = .ok (.applied { run with start := run.start - 1 }) up ∧
      moveDown ids up = .ok (.applied run) form) ∧
    (moveDown ids form = .ok (.atEdge .noFollowingSibling) form ↔ run.stop = siblings.length) ∧
    (run.stop ≠ siblings.length → ∃ passed behind down, back = passed :: behind ∧
      down = form.relisted run.parent (front ++ passed :: (run.ids ++ behind)) ∧
      moveDown ids form = .ok (.applied { run with start := run.start + 1 }) down ∧
      moveUp ids down = .ok (.applied run) form) ∧
    (∀ count last, Exhausts (moveUp ids) .noPrecedingSibling count form last ↔
      count = run.start ∧ last = form.relisted run.parent (run.ids ++ (front ++ back))) ∧
    ∀ count last, Exhausts (moveDown ids) .noFollowingSibling count form last ↔
      count = siblings.length - run.stop ∧
        last = form.relisted run.parent (front ++ back ++ run.ids) := by
  intro siblings front back
  have wellFormed := validate_eq_ok_iff.mp valid
  obtain ⟨nonempty, perm, block⟩ := wellFormed.run_eq_ok_iff.mp found
  have children : form.children run.parent = front ++ (run.ids ++ back) := block.children_eq
  have bound : run.stop ≤ siblings.length := block.stop_le
  have early : front.length = run.start :=
    List.length_take_of_le (Nat.le_trans (Nat.le_add_right _ _) bound)
  have late : back.length = siblings.length - run.stop := List.length_drop
  have all_up := wellFormed.exhausts_moveUp perm nonempty children
  have all_down := wellFormed.exhausts_moveDown perm nonempty children
  rw [early] at all_up
  rw [late] at all_down
  refine ⟨children, ⟨fun edge => ?_, fun first => ?_⟩, fun later => ?_,
    ⟨fun edge => ?_, fun ends => ?_⟩, fun sooner => ?_,
    fun count last => ⟨all_up.unique, fun ⟨same, same'⟩ => same ▸ same' ▸ all_up⟩,
    fun count last => ⟨all_down.unique, fun ⟨same, same'⟩ => same ▸ same' ▸ all_down⟩⟩
  · by_contra later
    obtain ⟨before, passed, -, children⟩ := block.exists_preceding later
    cases edge.symm.trans (wellFormed.moveUp_moveDown perm nonempty children).1
  · have none : front = [] := List.eq_nil_of_length_eq_zero (early.trans first)
    rw [none] at children
    exact wellFormed.moveUp_first perm nonempty children
  · obtain ⟨before, passed, split, children⟩ := block.exists_preceding later
    obtain ⟨gone, returned⟩ := wellFormed.moveUp_moveDown perm nonempty children
    have split : front = before ++ [passed] := split
    rw [split, List.length_append, List.length_singleton] at early
    rw [early] at returned
    rw [Nat.eq_sub_of_add_eq early] at gone
    exact ⟨before, passed, _, split, rfl, gone, returned⟩
  · by_contra sooner
    cases behind : back with
    | nil => exact sooner (block.drop_eq_nil_iff.mp behind)
    | cons passed rest =>
      rw [behind] at children
      cases edge.symm.trans (wellFormed.moveDown_moveUp perm nonempty children).1
  · have none : back = [] := block.drop_eq_nil_iff.mpr ends
    rw [none, List.append_nil] at children
    exact wellFormed.moveDown_last perm nonempty children
  · cases behind : back with
    | nil => exact absurd (block.drop_eq_nil_iff.mp behind) sooner
    | cons passed rest =>
      rw [behind] at children
      obtain ⟨gone, returned⟩ := wellFormed.moveDown_moveUp perm nonempty children
      rw [early] at gone returned
      exact ⟨passed, rest, _, rfl, rfl, gone, returned⟩

/-- Two of five siblings, named backwards, pass the one before them and come back, and pass the two
behind them. -/
theorem passing_law_backwards :
    let form := (Branch.ofOutline ⟨10⟩ (.node .empty [.node .empty [.node .empty [],
      .node .empty [], .node .empty [], .node .empty [], .node .empty []]])).toForm
    (∃ up, moveUp [⟨14⟩, ⟨13⟩] form = .ok (.applied ⟨⟨11⟩, 0, [⟨13⟩, ⟨14⟩]⟩) up ∧
      up = form.relisted ⟨11⟩ [⟨13⟩, ⟨14⟩, ⟨12⟩, ⟨15⟩, ⟨16⟩] ∧
      moveDown [⟨14⟩, ⟨13⟩] up = .ok (.applied ⟨⟨11⟩, 1, [⟨13⟩, ⟨14⟩]⟩) form) ∧
    Exhausts (moveDown [⟨14⟩, ⟨13⟩]) .noFollowingSibling 2 form
      (form.relisted ⟨11⟩ [⟨12⟩, ⟨15⟩, ⟨16⟩, ⟨13⟩, ⟨14⟩]) := by
  intro form
  have valid : form.validate = .ok () := by decide +kernel
  have children : form.children ⟨11⟩ = [⟨12⟩, ⟨13⟩, ⟨14⟩, ⟨15⟩, ⟨16⟩] := by decide +kernel
  have block : form.Block ⟨11⟩ 1 [⟨13⟩, ⟨14⟩] := ⟨[⟨12⟩], [⟨15⟩, ⟨16⟩], children, rfl⟩
  have perm : List.Perm [(⟨14⟩ : NodeId), ⟨13⟩] [⟨13⟩, ⟨14⟩] := by decide
  have found := (validate_eq_ok_iff.mp valid).run_of_perm block (by decide) perm
  obtain ⟨-, -, rises, -, -, -, all_down⟩ := passing_law valid found
  rw [children] at rises all_down
  obtain ⟨before, passed, up, split, same, gone, returned⟩ := rises (by decide)
  have split : [] ++ [⟨12⟩] = before ++ [passed] := split
  obtain ⟨rfl, named⟩ := List.append_inj' split rfl
  cases named
  exact ⟨⟨up, gone, same, returned⟩, (all_down 2 _).mpr ⟨rfl, rfl⟩⟩

end FormEditor.Form
