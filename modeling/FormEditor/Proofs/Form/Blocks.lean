import FormEditor.Form.Run
import FormEditor.Proofs.Form.Alike
import Mathlib.Data.List.Nodup

/-!
# Blocks of siblings

A block is an unbroken stretch of the children of one field (`Form.Block`).  The runs that
structural edits work on are blocks, and in a form whose links fit together a list of ids stands
for a run exactly when it lists the ids of a block in some order.

Main statement: `LinksFit.run_eq_ok_iff`.
-/

set_option autoImplicit false

namespace FormEditor.Form

variable {form : Form} {parent other id : NodeId} {start : Nat} {ids : List NodeId}

/-- `ids` are consecutive children of `parent`, the first of them at `start`. -/
def Block (form : Form) (parent : NodeId) (start : Nat) (ids : List NodeId) : Prop :=
  ∃ front back, form.children parent = front ++ ids ++ back ∧ front.length = start

namespace Block

theorem mem_children (block : form.Block parent start ids) (listed : id ∈ ids) :
    id ∈ form.children parent := by
  obtain ⟨front, back, children, -⟩ := block
  rw [children]
  exact List.mem_append_left _ (List.mem_append_right _ listed)

theorem parent?_eq (block : form.Block parent start ids) (fits : form.LinksFit)
    (listed : id ∈ ids) : form.parent? id = some parent :=
  fits.parent?_eq (block.mem_children listed)

theorem contains (block : form.Block parent start ids) (fits : form.LinksFit)
    (listed : id ∈ ids) : form.contains id :=
  contains_of_parent? (block.parent?_eq fits listed)

theorem contains_parent (block : form.Block parent start ids) (filled : ids ≠ []) :
    form.contains parent := by
  obtain ⟨first, rest, rfl⟩ := List.exists_cons_of_ne_nil filled
  exact contains_of_mem_children (block.mem_children List.mem_cons_self)

theorem ne_root (block : form.Block parent start ids) (fits : form.LinksFit)
    (listed : id ∈ ids) : id ≠ form.root :=
  fits.ne_root (block.parent?_eq fits listed)

theorem nodup (block : form.Block parent start ids) (fits : form.LinksFit) : ids.Nodup := by
  obtain ⟨front, back, children, -⟩ := block
  have distinct := fits.nodup parent
  rw [children] at distinct
  exact (List.nodup_append.mp (List.nodup_append.mp distinct).1).2.1

/-- The last index of a block is within the child list. -/
theorem stop_le (block : form.Block parent start ids) :
    start + ids.length ≤ (form.children parent).length := by
  obtain ⟨front, back, children, rfl⟩ := block
  rw [children, List.length_append, List.length_append]
  omega

/-- The child list as a block splits it. -/
theorem children_eq (block : form.Block parent start ids) :
    form.children parent = (form.children parent).take start ++
      (ids ++ (form.children parent).drop (start + ids.length)) := by
  obtain ⟨front, back, children, rfl⟩ := block
  have split : (front ++ ids).length = front.length + ids.length := List.length_append
  rw [children, ← split, List.drop_left, List.append_assoc, List.take_left]

/-- Nothing is listed behind a block exactly if it is at the end of the child list. -/
theorem drop_eq_nil_iff (block : form.Block parent start ids) :
    (form.children parent).drop (start + ids.length) = [] ↔
      start + ids.length = (form.children parent).length := by
  rw [List.drop_eq_nil_iff]
  exact ⟨Nat.le_antisymm block.stop_le, fun last => Nat.le_of_eq last.symm⟩

/-- A block that is not at the start of the child list has a sibling right before it. -/
theorem exists_preceding (block : form.Block parent start ids) (later : start ≠ 0) :
    ∃ before passed, (form.children parent).take start = before ++ [passed] ∧
      form.children parent =
        before ++ passed :: (ids ++ (form.children parent).drop (start + ids.length)) := by
  have children := block.children_eq
  obtain ⟨front, back, listed, rfl⟩ := block
  have front_eq : (form.children parent).take front.length = front := by
    rw [listed, List.append_assoc, List.take_left]
  rw [front_eq] at children ⊢
  rcases List.eq_nil_or_concat front with rfl | ⟨before, passed, rfl⟩
  · exact absurd rfl later
  · rw [List.concat_eq_append] at children ⊢
    exact ⟨before, passed, rfl, children.trans (by simp)⟩

theorem standsAt {index : Nat} (block : form.Block parent start ids)
    (inside : index < ids.length) : form.StandsAt ids[index] ⟨parent, start + index⟩ := by
  obtain ⟨front, back, children, rfl⟩ := block
  show (form.children parent)[front.length + index]? = _
  rw [children, List.append_assoc, List.getElem?_append_right (Nat.le_add_right _ _),
    Nat.add_sub_cancel_left, List.getElem?_append_left inside, List.getElem?_eq_getElem inside]

/-- A list of fields that stand one after the other is a block. -/
theorem of_standsAt (room : start ≤ (form.children parent).length)
    (standing : ∀ (index : Nat) (inside : index < ids.length),
      form.StandsAt ids[index] ⟨parent, start + index⟩) : form.Block parent start ids := by
  refine ⟨(form.children parent).take start, ((form.children parent).drop start).drop ids.length,
    ?_, by rw [List.length_take]; omega⟩
  have middle : ((form.children parent).drop start).take ids.length = ids := by
    refine List.ext_getElem? ?_
    intro index
    by_cases inside : index < ids.length
    · have here := standing index inside
      rw [List.getElem?_take_of_lt inside, List.getElem?_drop, List.getElem?_eq_getElem inside]
      exact here
    · have short : (((form.children parent).drop start).take ids.length).length ≤ index := by
        rw [List.length_take]
        omega
      rw [List.getElem?_eq_none short, List.getElem?_eq_none (Nat.not_lt.mp inside)]
  conv_lhs => rw [← List.take_append_drop start (form.children parent)]
  rw [List.append_assoc]
  congr 1
  conv_lhs => rw [← List.take_append_drop ids.length ((form.children parent).drop start), middle]

theorem standsAt_head (block : form.Block parent start (id :: ids)) :
    form.StandsAt id ⟨parent, start⟩ :=
  block.standsAt (Nat.zero_lt_succ _)

/-- No two fields of a block lie above one another. -/
theorem not_under (block : form.Block parent start ids) (wellFormed : form.WellFormed)
    (listed : id ∈ ids) (otherListed : other ∈ ids) (different : id ≠ other) :
    ¬ form.Under id other := by
  intro under
  rcases under.eq_or_beneath with same | ⟨upper, above, rest⟩
  · exact different same.symm
  · obtain rfl : parent = upper := Option.some.inj
      ((block.parent?_eq wellFormed.toLinksFit otherListed).symm.trans above)
    exact wellFormed.not_beneath_self ((Beneath.of_under_parent
      (block.parent?_eq wellFormed.toLinksFit listed) .here).trans_under rest)

/-- The parent of a block does not lie below it. -/
theorem not_under_parent (block : form.Block parent start ids) (wellFormed : form.WellFormed)
    (listed : id ∈ ids) : ¬ form.Under id parent :=
  wellFormed.not_under_of_listed (block.mem_children listed)

end Block

theorem Alike.block {α : Type} {view : Attributes → α} {left right : Form}
    (alike : left.Alike view right) (block : left.Block parent start ids) :
    right.Block parent start ids := by
  unfold Block at block ⊢
  rwa [← alike.children_eq]

/-! ## Runs -/

/-- A field with its index among the children of a parent. -/
def numbered (form : Form) (parent id : NodeId) : Nat × NodeId :=
  ((form.children parent).idxOf id, id)

theorem map_snd_numbered : (ids.map (form.numbered parent)).map Prod.snd = ids := by
  rw [List.map_map]
  exact List.map_id ids

theorem standsAt_numbered (siblings : ∀ id ∈ ids, id ∈ form.children parent) :
    ∀ place ∈ ids.map (form.numbered parent), form.StandsAt place.2 ⟨parent, place.1⟩ := by
  intro place listed
  obtain ⟨id, member, rfl⟩ := List.mem_map.mp listed
  have bound := List.idxOf_lt_length_of_mem (siblings id member)
  show (form.children parent)[(form.children parent).idxOf id]? = some id
  rw [List.getElem?_eq_getElem bound, List.getElem_idxOf]

/-- Sorting places gives the one list of them whose indices ascend. -/
theorem mergeSort_places {places sorted : List (Nat × NodeId)} (perm : places.Perm sorted)
    (ascending : (sorted.map Prod.fst).Pairwise (· < ·)) :
    (places.mergeSort fun left right => decide (left.1 ≤ right.1)) = sorted := by
  have shuffled :=
    (List.mergeSort_perm places fun left right => decide (left.1 ≤ right.1)).trans perm
  have ordered : (places.mergeSort fun left right =>
      decide (left.1 ≤ right.1)).Pairwise fun left right => left.1 ≤ right.1 := by
    refine (List.pairwise_mergeSort ?_ ?_ _).imp fun below => of_decide_eq_true below
    · intro first second third below above
      exact decide_eq_true (Nat.le_trans (of_decide_eq_true below) (of_decide_eq_true above))
    · intro left right
      rw [Bool.or_eq_true, decide_eq_true_iff, decide_eq_true_iff]
      exact Nat.le_total _ _
  refine List.Perm.eq_of_pairwise (fun left right inLeft inRight below above => ?_) ordered
    ((List.pairwise_map.mp ascending).imp Nat.le_of_lt) shuffled
  exact List.inj_on_of_nodup_map (ascending.imp Nat.ne_of_lt) (shuffled.mem_iff.mp inLeft) inRight
    (Nat.le_antisymm below above)

/-- Children at indices without a gap are a block. -/
theorem Block.of_gapless {places : List (Nat × NodeId)} (filled : places ≠ [])
    (standing : ∀ place ∈ places, form.StandsAt place.2 ⟨parent, place.1⟩)
    (gapless : places.map Prod.fst = List.range' start places.length) :
    form.Block parent start (places.map Prod.snd) := by
  have standing' : ∀ (index : Nat) (inside : index < places.length),
      form.StandsAt places[index].2 ⟨parent, start + index⟩ := by
    intro index inside
    have numbered : places[index].1 = start + index := by
      have here := congrArg (fun indices => indices[index]?) gapless
      simpa [inside] using here
    have here := standing _ (List.getElem_mem inside)
    rwa [numbered] at here
  refine Block.of_standsAt ?_ fun index inside => ?_
  · have bound := (List.getElem?_eq_some_iff.mp
      (standing' 0 (List.length_pos_iff.mpr filled))).1
    exact Nat.le_of_lt bound
  · rw [List.getElem_map]
    exact standing' index (by simpa using inside)

/-- The first of several ids decides whose children they must be. -/
theorem runParent_of_head {first : NodeId} (head : ids.head? = some first)
    (inner : form.root ∉ ids) (above : form.parent? first = some parent) :
    form.runParent ids = .ok parent := by
  obtain ⟨rest, rfl⟩ := List.head?_eq_some_iff.mp head
  obtain ⟨field, stored⟩ := contains_iff.mp (contains_of_parent? above)
  rw [parent?_of_get? stored] at above
  have absent : (first :: rest).contains form.root = false := by
    rw [Bool.eq_false_iff, ne_eq, List.contains_iff_mem]
    exact inner
  unfold runParent
  simp only [absent, Bool.false_eq_true, if_false, field_of_get? stored, Question.ok_bind, above]
  rfl

namespace LinksFit

variable (fits : form.LinksFit)
include fits

theorem placeUnder_eq_ok_iff {place : Nat × NodeId} :
    form.placeUnder parent id = .ok place ↔
      place.2 = id ∧ form.StandsAt id ⟨parent, place.1⟩ := by
  unfold placeUnder
  cases stored : form.get? id with
  | none =>
    rw [field_of_not_contains (not_contains_iff.mpr stored), Question.error_bind]
    refine iff_of_false (fun equal => (nomatch equal)) fun ⟨_, stands⟩ => ?_
    exact not_contains_iff.mpr stored (fits.contains_child stands.listed)
  | some field =>
    rw [field_of_get? stored, Question.ok_bind, ← parent?_of_get? stored]
    by_cases above : form.parent? id = some parent
    · obtain ⟨index, found, here⟩ := fits.exists_siblingIndex? above
      rw [if_neg (by simpa using above)]
      simp only [found, Question.pure_eq, Except.ok.injEq]
      constructor
      · rintro rfl
        exact ⟨rfl, here⟩
      · rintro ⟨rfl, stands⟩
        have same : some index = some place.1 := found.symm.trans (fits.siblingIndex?_eq stands)
        rw [Option.some.inj same]
    · rw [if_pos above]
      exact iff_of_false (fun equal => (nomatch equal))
        fun ⟨_, stands⟩ => above (fits.parent?_of_standsAt stands)

theorem placesUnder_eq_ok_iff {places : List (Nat × NodeId)} :
    form.placesUnder parent ids = .ok places ↔
      places.map Prod.snd = ids ∧
        ∀ place ∈ places, form.StandsAt place.2 ⟨parent, place.1⟩ := by
  induction ids generalizing places with
  | nil =>
    simp only [placesUnder, Except.ok.injEq, List.map_eq_nil_iff]
    constructor
    · rintro rfl
      exact ⟨rfl, fun _ listed => absurd listed List.not_mem_nil⟩
    · exact fun both => both.1.symm
  | cons id ids ih =>
    have unfolded : form.placesUnder parent (id :: ids) = (form.placeUnder parent id >>=
        fun place => form.placesUnder parent ids >>= fun places => pure (place :: places)) := rfl
    rw [unfolded, Question.bind_eq_ok_iff]
    constructor
    · rintro ⟨place, first, rest⟩
      obtain ⟨later, found, same⟩ := Question.bind_eq_ok_iff.mp rest
      cases same
      obtain ⟨own, stands⟩ := fits.placeUnder_eq_ok_iff.mp first
      obtain ⟨named, standing⟩ := ih.mp found
      rw [List.map_cons, own, named]
      exact ⟨rfl, List.forall_mem_cons.mpr ⟨own ▸ stands, standing⟩⟩
    · rintro ⟨named, standing⟩
      cases places with
      | nil => cases named
      | cons place later =>
        obtain ⟨own, named⟩ := List.cons.inj named
        obtain ⟨stands, standing⟩ := List.forall_mem_cons.mp standing
        refine ⟨place, fits.placeUnder_eq_ok_iff.mpr ⟨own, own ▸ stands⟩, ?_⟩
        rw [ih.mpr ⟨named, standing⟩]
        rfl

/-- The children at consecutive indices are numbered by these indices. -/
theorem map_fst_eq_range' {places : List (Nat × NodeId)}
    (block : form.Block parent start (places.map Prod.snd))
    (standing : ∀ place ∈ places, form.StandsAt place.2 ⟨parent, place.1⟩) :
    places.map Prod.fst = List.range' start places.length := by
  refine List.ext_getElem (by simp) ?_
  intro index inside _
  rw [List.length_map] at inside
  have here : form.StandsAt places[index].2 ⟨parent, places[index].1⟩ :=
    standing _ (List.getElem_mem inside)
  have inside' : index < (places.map Prod.snd).length := by simpa using inside
  have there := block.standsAt inside'
  rw [List.getElem_map] at there ⊢
  rw [List.getElem_range', Nat.one_mul]
  have bound := (List.getElem?_eq_some_iff.mp here).1
  exact (List.getElem?_inj bound (fits.nodup parent)).mp (here.trans there.symm)

theorem runParent_eq_ok (block : form.Block parent start ids) (nonempty : ids ≠ [])
    {given : List NodeId} (perm : given.Perm ids) : form.runParent given = .ok parent := by
  cases given with
  | nil => exact absurd perm.symm.eq_nil nonempty
  | cons first rest =>
    have above := block.parent?_eq fits (perm.mem_iff.mp List.mem_cons_self)
    have inner : form.root ∉ first :: rest := fun listed =>
      block.ne_root fits (perm.mem_iff.mp listed) rfl
    exact runParent_of_head rfl inner above

/-- A run that is found is a block, and the ids were given in some order. -/
theorem block_of_run_eq_ok {given : List NodeId} {run : Run} (found : form.run given = .ok run) :
    given ≠ [] ∧ given.Perm run.ids ∧ form.Block run.parent run.start run.ids := by
  unfold Form.run at found
  obtain ⟨parent, above, found⟩ := Question.bind_eq_ok_iff.mp found
  obtain ⟨places, placed, found⟩ := Question.bind_eq_ok_iff.mp found
  obtain ⟨named, standing⟩ := fits.placesUnder_eq_ok_iff.mp placed
  have nonempty : given ≠ [] := by
    rintro rfl
    cases above
  have shuffled := List.mergeSort_perm places fun left right => decide (left.1 ≤ right.1)
  generalize (places.mergeSort fun left right => decide (left.1 ≤ right.1)) = sorted
    at found shuffled
  dsimp only at found
  split at found
  · cases found
  · rename_i gapless
    rw [Decidable.not_not] at gapless
    cases found
    have filled : sorted ≠ [] := by
      rintro rfl
      exact nonempty (shuffled.nil_eq ▸ named).symm
    exact ⟨nonempty, named ▸ (shuffled.map Prod.snd).symm,
      .of_gapless filled (fun place listed => standing place (shuffled.mem_iff.mp listed)) gapless⟩

/-- Every child of a parent has a place under it. -/
theorem placesUnder_eq (siblings : ∀ id ∈ ids, id ∈ form.children parent) :
    form.placesUnder parent ids = .ok (ids.map (form.numbered parent)) :=
  fits.placesUnder_eq_ok_iff.mpr ⟨map_snd_numbered, standsAt_numbered siblings⟩

/-- The ids of a block may be given in any order. -/
theorem run_of_perm {given : List NodeId} (block : form.Block parent start ids)
    (nonempty : ids ≠ []) (perm : given.Perm ids) : form.run given = .ok ⟨parent, start, ids⟩ := by
  have siblings : ∀ id ∈ ids, id ∈ form.children parent := fun id => block.mem_children
  have placed : form.placesUnder parent given = .ok (given.map (form.numbered parent)) :=
    fits.placesUnder_eq fun id listed => siblings id (perm.mem_iff.mp listed)
  have gapless : (ids.map (form.numbered parent)).map Prod.fst =
      List.range' start (ids.map (form.numbered parent)).length :=
    fits.map_fst_eq_range' (map_snd_numbered.symm ▸ block) (standsAt_numbered siblings)
  have ascending : ((ids.map (form.numbered parent)).map Prod.fst).Pairwise (· < ·) := by
    rw [gapless]
    exact List.pairwise_lt_range'
  have first : ((ids.map (form.numbered parent)).head?.map Prod.fst).getD 0 = start := by
    rw [← List.head?_map, gapless]
    cases ids with
    | nil => exact absurd rfl nonempty
    | cons id ids => rfl
  unfold Form.run
  rw [fits.runParent_eq_ok block nonempty perm, Question.ok_bind, placed, Question.ok_bind,
    mergeSort_places (perm.map (form.numbered parent)) ascending]
  dsimp only
  rw [first, if_neg (not_not_intro gapless), map_snd_numbered]
  rfl

/-- **A list of ids stands for a run exactly when it lists a block in some order.** -/
theorem run_eq_ok_iff {given : List NodeId} {run : Run} :
    form.run given = .ok run ↔
      given ≠ [] ∧ given.Perm run.ids ∧ form.Block run.parent run.start run.ids := by
  constructor
  · exact fits.block_of_run_eq_ok
  · rintro ⟨nonempty, perm, block⟩
    exact fits.run_of_perm block (fun none => nonempty (none ▸ perm).eq_nil) perm

/-- The ids of a block stand for a run. -/
theorem run_of_block (block : form.Block parent start ids) (nonempty : ids ≠ []) :
    form.run ids = .ok ⟨parent, start, ids⟩ :=
  fits.run_of_perm block nonempty (List.Perm.refl ids)

/-- The run that ids stand for is a block, and it is the run of its own ids. -/
theorem block_of_run {run : Run} (found : form.run ids = .ok run) :
    run.ids ≠ [] ∧ form.Block run.parent run.start run.ids ∧ form.run run.ids = .ok run := by
  obtain ⟨nonempty, perm, block⟩ := fits.run_eq_ok_iff.mp found
  have filled : run.ids ≠ [] := fun none => nonempty (none ▸ perm).eq_nil
  exact ⟨filled, block, fits.run_of_block block filled⟩

end LinksFit

end FormEditor.Form
