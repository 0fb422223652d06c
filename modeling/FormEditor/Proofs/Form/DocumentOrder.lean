import FormEditor.Proofs.Form.Levels
import FormEditor.Proofs.Form.Validation

/-!
# Document order

The walk through a form lists what lies at and below a field as one unbroken stretch, `Form.span`:
the field itself and then the stretches of its children (`WellFormed.span_eq`).  An edit of child
lists at and below one field leaves what is listed before and behind the stretch of that field as it
is (`WellFormed.span_around`), so that it is enough to compare the two stretches.

Main statement: going down a level keeps the document order; going up a level moves the run past
its former siblings behind it (`document_order`).
-/

set_option autoImplicit false

namespace FormEditor.Form

variable {form after : Form} {id top hub other source target passed : NodeId} {run : Run}
  {ids front back left right : List NodeId}

/-! ## Stretches -/

/-- The ids at and below a field in document order. -/
def span (form : Form) (id : NodeId) : List NodeId := (form.descendants id).map Field.id

namespace WellFormed

variable (wellFormed : form.WellFormed)
include wellFormed

theorem nodup_span (stored : form.contains id) : (form.span id).Nodup :=
  wellFormed.nodup_preorderFrom (wellFormed.reached stored)

/-- The walk with a stack meets what lies at and below its next id, and then goes on. -/
theorem walk_descendants {stack : List NodeId} {met : List Field} (stored : form.contains id)
    (rest : form.fields.Walk stack met) :
    form.fields.Walk (id :: stack) (form.descendants id ++ met) := by
  obtain ⟨line, lineage⟩ := (wellFormed.reached stored).exists_lineage wellFormed.root_top
  exact wellFormed.walk_preorderFrom lineage stored (Nat.lt_add_of_pos_right lineage.pos) rest

/-- A field is listed right before what lies at and below its children. -/
theorem descendants_eq {field : Field} (found : form.get? id = some field) :
    form.descendants id = field :: field.children.flatMap form.descendants := by
  have whole := wellFormed.walk_descendants (contains_of_get? found) .done
  have parts : form.fields.Walk [id]
      (field :: (field.children.flatMap form.descendants ++ [])) := by
    refine .visit found (.append (fun child listed _ _ rest => ?_) .done)
    rw [← children_of_get? found] at listed
    exact wellFormed.walk_descendants (wellFormed.contains_child listed) rest
  have same := whole.unique parts
  rwa [List.append_nil, List.append_nil] at same

theorem span_eq (stored : form.contains id) :
    form.span id = id :: (form.children id).flatMap form.span := by
  obtain ⟨field, found⟩ := contains_iff.mp stored
  unfold span
  rw [wellFormed.descendants_eq found, List.map_cons, List.map_flatMap, wellFormed.own_id found,
    children_of_get? found]

/-- What holds of a field whenever it holds of all its children holds of every field. -/
theorem descend {motive : NodeId → Prop} (stored : form.contains id)
    (step : ∀ id, form.contains id → (∀ child ∈ form.children id, motive child) → motive id) :
    motive id := by
  induction size : (form.span id).length using Nat.strongRecOn generalizing id with
  | ind size ih =>
    refine step id stored fun child listed =>
      ih (form.span child).length ?_ (wellFormed.contains_child listed) rfl
    obtain ⟨before, behind, children⟩ := List.append_of_mem listed
    rw [← size, wellFormed.span_eq stored, children, List.flatMap_append, List.flatMap_cons,
      List.length_cons, List.length_append, List.length_append]
    omega

/-- Nothing lies at and below two siblings. -/
theorem siblings_apart {parent sibling : NodeId} (listed : id ∈ form.children parent)
    (listed' : sibling ∈ form.children parent) (different : id ≠ sibling)
    (under : form.Under id other) : ¬ form.Under sibling other := by
  intro under'
  have block : form.Block parent 0 (form.children parent) := ⟨[], [], by simp, rfl⟩
  rcases under.comparable under' with upper | upper
  · exact block.not_under wellFormed listed listed' different upper
  · exact block.not_under wellFormed listed' listed different.symm upper

end WellFormed

/-! ## Changes in one place -/

theorem children_transferred_of_ne {sourceList targetList : List NodeId} (notSource : id ≠ source)
    (notTarget : id ≠ target) :
    (form.transferred ids source sourceList target targetList).children id = form.children id := by
  by_cases stored : form.contains id
  · rw [children_transferred stored, if_neg notTarget, if_neg notSource]
  · rw [children_of_not_contains stored,
      children_of_not_contains fun stored' => stored (contains_transferred ▸ stored')]

section Changes

variable (wellFormed : form.WellFormed) (wellFormed' : after.WellFormed)
  (stored_iff : ∀ key, after.contains key = form.contains key)
include wellFormed wellFormed' stored_iff

/-- A stretch depends only on the child lists at and below its field. -/
theorem WellFormed.span_congr (stored : form.contains top)
    (same : ∀ key, form.Under top key → after.children key = form.children key) :
    after.span top = form.span top := by
  refine wellFormed.descend (motive := fun top =>
    (∀ key, form.Under top key → after.children key = form.children key) →
      after.span top = form.span top) stored (fun top stored ih same => ?_) same
  rw [wellFormed.span_eq stored, wellFormed'.span_eq ((stored_iff top).trans stored),
    same top .here]
  refine congrArg (top :: ·) (List.flatMap_congr fun child listed => ?_)
  exact ih child listed fun key under =>
    same key ((Under.of_parent (wellFormed.parent?_eq listed)).trans under)

/-- Fields beside a field in which, or in whose parent, child lists change. -/
theorem WellFormed.flatMap_span_beside {parent : NodeId} {siblings : List NodeId}
    (children : form.children parent = left ++ hub :: right) (beside : siblings ⊆ left ++ right)
    (outside : ∀ key, key ≠ parent → ¬ form.Under hub key →
      after.children key = form.children key) :
    siblings.flatMap after.span = siblings.flatMap form.span := by
  have distinct := wellFormed.nodup parent
  rw [children] at distinct
  have apart := (List.nodup_cons.mp (List.nodup_middle.mp distinct)).1
  have hubListed : hub ∈ form.children parent := by simp [children]
  refine List.flatMap_congr fun sibling member => ?_
  have listed : sibling ∈ form.children parent := by
    rw [children]
    exact List.perm_middle.mem_iff.mpr (List.mem_cons_of_mem _ (beside member))
  refine wellFormed.span_congr wellFormed' stored_iff (wellFormed.contains_child listed)
    fun key under => outside key (fun same => ?_) ?_
  · exact wellFormed.not_under_of_listed listed (same ▸ under)
  · exact wellFormed.siblings_apart listed hubListed
      (fun same => apart (same ▸ beside member)) under

/-- Fields below a field whose child list changes. -/
theorem WellFormed.flatMap_span_below {children : List NodeId}
    (below : children ⊆ form.children hub)
    (inside : ∀ key, form.Beneath hub key → after.children key = form.children key) :
    children.flatMap after.span = children.flatMap form.span :=
  List.flatMap_congr fun _ member =>
    wellFormed.span_congr wellFormed' stored_iff (wellFormed.contains_child (below member))
      fun key under => inside key
        (Beneath.trans_under ⟨hub, wellFormed.parent?_eq (below member), .here⟩ under)

/-- What is listed before and behind a stretch does not depend on the child lists in it. -/
theorem WellFormed.span_around (under : form.Under top hub) (stored : form.contains hub)
    (outside : ∀ key, ¬ form.Under hub key → after.children key = form.children key) :
    ∃ before behind, form.span top = before ++ (form.span hub ++ behind) ∧
      after.span top = before ++ (after.span hub ++ behind) := by
  -- by induction on the way up; each parent adds its other children before and behind
  induction under with
  | here => exact ⟨[], [], by simp, by simp⟩
  | @step hub parent above _ ih =>
    have upper := wellFormed.contains_parent above
    have listed := wellFormed.mem_children above
    obtain ⟨before, behind, old, new⟩ := ih upper fun key free =>
      outside key fun under => free ((Under.of_parent above).trans under)
    have kept := outside parent (wellFormed.not_under_of_listed listed)
    obtain ⟨left, right, children⟩ := List.append_of_mem listed
    rw [wellFormed.span_eq upper, children, List.flatMap_append, List.flatMap_cons] at old
    rw [wellFormed'.span_eq ((stored_iff parent).trans upper), kept, children,
      List.flatMap_append, List.flatMap_cons,
      wellFormed.flatMap_span_beside wellFormed' stored_iff children
        (List.subset_append_left left right) fun key _ => outside key,
      wellFormed.flatMap_span_beside wellFormed' stored_iff children
        (List.subset_append_right left right) fun key _ => outside key] at new
    refine ⟨before ++ parent :: left.flatMap form.span, right.flatMap form.span ++ behind, ?_, ?_⟩
    · rw [old]
      simp only [List.append_assoc, List.cons_append]
    · rw [new]
      simp only [List.append_assoc, List.cons_append]

/-- When child lists change only in two fields, one below the other, all stretches stay as they are
beside and below the lower field. -/
theorem WellFormed.span_around_child {upper lower : NodeId}
    (children : form.children upper = left ++ lower :: right)
    (outside : ∀ key, key ≠ upper → key ≠ lower → after.children key = form.children key) :
    (∃ before behind, form.span form.root = before ++ (form.span upper ++ behind) ∧
      after.span form.root = before ++ (after.span upper ++ behind)) ∧
    (∀ others ⊆ left ++ right, others.flatMap after.span = others.flatMap form.span) ∧
    ∀ others ⊆ form.children lower, others.flatMap after.span = others.flatMap form.span := by
  have listed : lower ∈ form.children upper := by simp [children]
  have above := wellFormed.parent?_eq listed
  have stored := wellFormed.contains_parent above
  refine ⟨wellFormed.span_around wellFormed' stored_iff (wellFormed.reached stored) stored
    fun key free => ?_, fun others beside => ?_, fun others below => ?_⟩
  · exact outside key (fun same => free (same ▸ .here)) fun same => free (same ▸ .of_parent above)
  · exact wellFormed.flatMap_span_beside wellFormed' stored_iff children beside
      fun key other free => outside key other fun same => free (same ▸ .here)
  · exact wellFormed.flatMap_span_below wellFormed' stored_iff below fun key beneath =>
      outside key (fun same => wellFormed.not_under_of_listed listed (same ▸ beneath.under))
        fun same => wellFormed.not_beneath_self (same ▸ beneath)

/-! ## Down and up a level -/

/-- **A run that goes down a level keeps its place in the document order.** -/
theorem WellFormed.span_demoted (children : form.children source = front ++ target :: (ids ++ back))
    (sourceList : after.children source = front ++ target :: back)
    (targetList : after.children target = form.children target ++ ids)
    (outside : ∀ key, key ≠ source → key ≠ target → after.children key = form.children key) :
    after.span form.root = form.span form.root := by
  obtain ⟨⟨before, behind, old, new⟩, beside, below⟩ :=
    wellFormed.span_around_child wellFormed' stored_iff children outside
  have listed : target ∈ form.children source := by simp [children]
  have lower := wellFormed.contains_child listed
  have upper := contains_of_mem_children listed
  have targetStretch := wellFormed.span_eq lower
  have targetStretch' := wellFormed'.span_eq ((stored_iff target).trans lower)
  have sourceStretch := wellFormed.span_eq upper
  have sourceStretch' := wellFormed'.span_eq ((stored_iff source).trans upper)
  rw [children, List.flatMap_append, List.flatMap_cons, targetStretch, List.flatMap_append]
    at sourceStretch
  rw [targetList, List.flatMap_append, below _ (List.Subset.refl _), beside ids (by simp)]
    at targetStretch'
  rw [sourceList, List.flatMap_append, List.flatMap_cons, targetStretch', beside front (by simp),
    beside back (by simp)] at sourceStretch'
  rw [old, new, sourceStretch, sourceStretch']
  simp only [List.append_assoc, List.cons_append]

/-- **A run that goes up a level passes the siblings that were behind it.** -/
theorem WellFormed.span_promoted (children : form.children source = front ++ (ids ++ back))
    (siblings : form.children target = left ++ source :: right)
    (sourceList : after.children source = front ++ back)
    (targetList : after.children target = left ++ source :: (ids ++ right))
    (outside : ∀ key, key ≠ source → key ≠ target → after.children key = form.children key) :
    ∃ before behind,
      form.span form.root =
        before ++ (ids.flatMap form.span ++ (back.flatMap form.span ++ behind)) ∧
      after.span form.root =
        before ++ (back.flatMap form.span ++ (ids.flatMap form.span ++ behind)) := by
  obtain ⟨⟨before, behind, old, new⟩, beside, below⟩ :=
    wellFormed.span_around_child wellFormed' stored_iff siblings
      fun key notTarget notSource => outside key notSource notTarget
  have listed : source ∈ form.children target := by simp [siblings]
  have lower := wellFormed.contains_child listed
  have upper := contains_of_mem_children listed
  have sourceStretch := wellFormed.span_eq lower
  have sourceStretch' := wellFormed'.span_eq ((stored_iff source).trans lower)
  have targetStretch := wellFormed.span_eq upper
  have targetStretch' := wellFormed'.span_eq ((stored_iff target).trans upper)
  rw [children] at below sourceStretch
  rw [List.flatMap_append, List.flatMap_append] at sourceStretch
  rw [siblings, List.flatMap_append, List.flatMap_cons, sourceStretch] at targetStretch
  rw [sourceList, List.flatMap_append, below front (by simp), below back (by simp)]
    at sourceStretch'
  rw [targetList, List.flatMap_append, List.flatMap_cons, List.flatMap_append, sourceStretch',
    beside left (by simp), beside right (by simp), below ids (by simp)] at targetStretch'
  refine ⟨before ++ target :: (left.flatMap form.span ++ source :: front.flatMap form.span),
    right.flatMap form.span ++ behind, ?_, ?_⟩
  · rw [old, targetStretch]
    simp only [List.append_assoc, List.cons_append]
  · rw [new, targetStretch']
    simp only [List.append_assoc, List.cons_append]

end Changes

/-! ## The law -/

/-- Only a run that ends its list has nothing behind it to pass in the document order. -/
theorem WellFormed.order_swap_iff (wellFormed : form.WellFormed) {before behind : List NodeId}
    (stored : ∀ id ∈ ids ++ back, form.contains id) (nonempty : ids ≠ [])
    (order : form.span form.root =
      before ++ (ids.flatMap form.span ++ (back.flatMap form.span ++ behind))) :
    before ++ (back.flatMap form.span ++ (ids.flatMap form.span ++ behind)) =
      form.span form.root ↔ back = [] := by
  have filled : ∀ list ⊆ ids ++ back, list.flatMap form.span = [] ↔ list = [] := by
    intro list listed
    cases list with
    | nil => simp
    | cons id list =>
      rw [List.flatMap_cons, wellFormed.span_eq (stored id (listed List.mem_cons_self))]
      simp
  have distinct := wellFormed.nodup_span wellFormed.root_stored
  rw [order] at distinct
  rw [order, List.append_right_inj, ← List.append_assoc, ← List.append_assoc,
    List.append_left_inj, append_swap_iff, filled back (by simp)]
  · have inner := (List.nodup_append.mp distinct).2.1
    rw [← List.append_assoc] at inner
    exact (List.nodup_append.mp inner).1
  · exact fun none => nonempty ((filled ids (by simp)).mp none)

/-- **Going down a level keeps the document order, and going up a level moves a run past the
siblings behind it.**  Wherever the run that ids stand for can go down, the walk through the form
lists the same ids in the same order afterwards.  Wherever it can go up, what lies at and below the
run trades places with what lies at and below its former siblings behind it, and nothing else moves;
so the order is the same exactly if the run ends its list. -/
theorem document_order (valid : form.validate = .ok ()) (found : form.run ids = .ok run) :
    let block := run.ids.flatMap fun id => (form.descendants id).map Field.id
    let followers := ((form.children run.parent).drop run.stop).flatMap fun id =>
      (form.descendants id).map Field.id
    (run.start = 0 ∧ demote ids form = .ok (.atEdge .noPrecedingSibling) form ∨
      ∃ way after, demote ids form = .ok (.applied way) after ∧
        after.preorder.map Field.id = form.preorder.map Field.id) ∧
    (run.parent = form.root ∧ promote ids form = .ok (.atEdge .noGrandparent) form ∨
      ∃ way after before behind, promote ids form = .ok (.applied way) after ∧
        form.preorder.map Field.id = before ++ (block ++ (followers ++ behind)) ∧
        after.preorder.map Field.id = before ++ (followers ++ (block ++ behind)) ∧
        (after.preorder.map Field.id = form.preorder.map Field.id ↔
          run.stop = (form.children run.parent).length)) := by
  intro block followers
  have wellFormed := validate_eq_ok_iff.mp valid
  obtain ⟨-, perm, run_block⟩ := wellFormed.run_eq_ok_iff.mp found
  have nonempty := (wellFormed.block_of_run found).1
  have children := run_block.children_eq
  obtain ⟨up, down⟩ := wellFormed.levels_of_perm perm nonempty run_block
  rw [up, down]
  constructor
  · by_cases first : run.start = 0
    · exact .inl ⟨first, wellFormed.demote_atEdge nonempty (first ▸ run_block)⟩
    · obtain ⟨before, passed, -, children⟩ := run_block.exists_preceding first
      have transfer := wellFormed.transfer_down children
      refine .inr ⟨_, _, wellFormed.demote_eq nonempty children, ?_⟩
      exact wellFormed.span_demoted (transfer.wellFormed_transferred wellFormed)
        (fun _ => contains_transferred) children
        (transfer.children_source.trans (List.append_cons ..).symm)
        (transfer.children_target.trans (by rw [List.append_nil]))
        fun _ => children_transferred_of_ne
  · by_cases top : run.parent = form.root
    · exact .inl ⟨top, wellFormed.promote_atEdge nonempty (top ▸ run_block)⟩
    · obtain ⟨upper, left, right, siblings⟩ :=
        wellFormed.exists_siblings (run_block.contains_parent nonempty) top
      have transfer := wellFormed.transfer_up children siblings
      have gone := wellFormed.promote_eq nonempty children siblings
      obtain ⟨before, behind, old, new⟩ := wellFormed.span_promoted
        (transfer.wellFormed_transferred wellFormed) (fun _ => contains_transferred)
        children siblings transfer.children_source
        (transfer.children_target.trans (List.append_cons ..).symm)
        fun _ => children_transferred_of_ne
      have stored : ∀ id ∈ run.ids ++ (form.children run.parent).drop run.stop,
          form.contains id := fun id listed => by
        have member : id ∈ form.children run.parent := by
          rw [children]
          exact List.mem_append_right _ listed
        exact wellFormed.contains_child member
      refine .inr ⟨_, _, before, behind, gone, old, new, ?_⟩
      exact (Eq.congr_left new).trans
        ((wellFormed.order_swap_iff stored nonempty old).trans run_block.drop_eq_nil_iff)

/-- The middle one of three siblings goes down without a change in the order.  When it goes up
instead it passes the last of them. -/
theorem document_order_middle :
    let form := (Branch.ofOutline ⟨10⟩ (.node .empty [.node .empty
      [.node .empty [], .node .empty [], .node .empty []], .node .empty []])).toForm
    form.preorder.map Field.id = [⟨10⟩, ⟨11⟩, ⟨12⟩, ⟨13⟩, ⟨14⟩, ⟨15⟩] ∧
    (∃ way after, demote [⟨13⟩] form = .ok (.applied way) after ∧
      after.preorder.map Field.id = [⟨10⟩, ⟨11⟩, ⟨12⟩, ⟨13⟩, ⟨14⟩, ⟨15⟩]) ∧
    ∃ way after, promote [⟨13⟩] form = .ok (.applied way) after ∧
      after.preorder.map Field.id = [⟨10⟩, ⟨11⟩, ⟨12⟩, ⟨14⟩, ⟨13⟩, ⟨15⟩] := by
  intro form
  have valid : form.validate = .ok () := by decide +kernel
  have order : form.preorder.map Field.id = [⟨10⟩, ⟨11⟩, ⟨12⟩, ⟨13⟩, ⟨14⟩, ⟨15⟩] := by
    decide +kernel
  have block : form.Block ⟨11⟩ 1 [⟨13⟩] := ⟨[⟨12⟩], [⟨14⟩], by decide +kernel, rfl⟩
  have found := (validate_eq_ok_iff.mp valid).run_of_block block (by decide)
  obtain ⟨sinks, rises⟩ := document_order valid found
  refine ⟨order, ?_, ?_⟩
  · rcases sinks with ⟨first, -⟩ | ⟨way, after, gone, same⟩
    · cases first
    · exact ⟨way, after, gone, same.trans order⟩
  · rcases rises with ⟨top, -⟩ | ⟨way, after, before, behind, gone, old, new, -⟩
    · exact absurd top (by decide +kernel)
    · have moved : ([⟨13⟩].flatMap fun id => (form.descendants id).map Field.id) = [⟨13⟩] := by
        decide +kernel
      have passed : (((form.children ⟨11⟩).drop 2).flatMap fun id =>
          (form.descendants id).map Field.id) = [⟨14⟩] := by decide +kernel
      refine ⟨way, after, gone, ?_⟩
      rw [moved, show Run.stop ⟨⟨11⟩, 1, [⟨13⟩]⟩ = 2 from rfl, passed] at old new
      have split : [⟨10⟩, ⟨11⟩, ⟨12⟩] ++ ⟨13⟩ :: [⟨14⟩, ⟨15⟩] = before ++ ⟨13⟩ :: ⟨14⟩ :: behind :=
        order.symm.trans old
      obtain ⟨rfl, -, rest⟩ :=
        (List.append_cons_inj_of_notMem (by decide) (by decide)).mp split
      cases rest
      exact new

end FormEditor.Form
